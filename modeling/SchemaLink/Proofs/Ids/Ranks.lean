import SchemaLink.Proofs.Ids.Allocation

/-! # Ids by rank

The rank of a request is how many requests for the same field come before it. It is given the id on
record that has this rank, and behind the record the next one that the minter gives. However the
requests for several fields are mixed, each field is given the same ids from the record. -/

namespace SchemaLink

/-! ## Answers one by one -/

/-- A request is answered from what the ones before it have left. -/
theorem IdAllocator.getElem?_run {σ : Type} (ids : IdAllocator σ)
    (requests : List (TypeRef × String)) (state : σ) (i : Nat) :
    (ids.run requests state).1[i]? =
      requests[i]?.map fun key => (ids key.1 key.2 (ids.run (requests.take i) state).2).1 := by
  induction requests generalizing state i with
  | nil => rfl
  | cons first requests ih =>
      cases i with
      | zero => rfl
      | succ i => exact ih _ i

section Minting

variable {μ : Type} (mint : μ → String × μ)

/-- The id that a minter gives after it gave so many others. -/
def mintedAfter (count : Nat) (minter : μ) : String := (mint (afterDrawing mint count minter)).1

theorem afterDrawing_succ (count : Nat) (minter : μ) :
    afterDrawing mint (count + 1) minter = (mint (afterDrawing mint count minter)).2 := by
  induction count generalizing minter with
  | zero => rfl
  | succ count ih => exact ih (mint minter).2

end Minting

/-! ## Requests beyond the record -/

namespace History

variable (history : History)

/-- How many of some requests, the latest first, came when all ids on record were given out. -/
def beyond : List (TypeRef × String) → Nat
  | [] => 0
  | key :: earlier =>
    beyond earlier + if (history.ids key.1 key.2).length ≤ earlier.count key then 1 else 0

/-- The number of requests beyond the record does not depend on their order. -/
theorem beyond_perm {served other : List (TypeRef × String)} (h : served.Perm other) :
    history.beyond served = history.beyond other := by
  induction h with
  | nil => rfl
  | cons key h ih => rw [beyond, beyond, ih, h.count_eq]
  | swap key key' served =>
      by_cases hkey : key = key'
      · rw [hkey]
      · simp only [beyond, List.count_cons_of_ne hkey, List.count_cons_of_ne (Ne.symm hkey)]
        omega
  | trans _ _ ih ih' => exact ih.trans ih'

end History

/-! ## The allocator after some requests -/

namespace StableIds

variable {μ : Type} (mint : μ → String × μ) (history : History) (minter : μ)

/-- What is remembered after some requests, the latest first: each of them that was beyond the
record has made the minter give an id. -/
def after (served : List (TypeRef × String)) : StableIds μ :=
  ⟨history, served, afterDrawing mint (history.beyond served) minter⟩

/-- The id for the next request for a field after some others. -/
def idByRank (served : List (TypeRef × String)) (key : TypeRef × String) : String :=
  (history.ids key.1 key.2)[served.count key]?.getD
    (mintedAfter mint (history.beyond served) minter)

theorem allocate_after (served : List (TypeRef × String)) (key : TypeRef × String) :
    allocate mint key.1 key.2 (after mint history minter served) =
      (idByRank mint history minter served key, after mint history minter (key :: served)) := by
  cases hleft : history.left served key with
  | cons id rest =>
      have hid : (history.ids key.1 key.2)[served.count key]? = some id := by
        rw [History.getElem?_ids, hleft, List.head?_cons]
      have hshort : ¬ (history.ids key.1 key.2).length ≤ served.count key :=
        Nat.not_le.2 (List.getElem?_eq_some_iff.1 hid).1
      rw [after, allocate_recorded hleft, idByRank, hid, after, History.beyond, if_neg hshort]
      rfl
  | nil =>
      have hlong : (history.ids key.1 key.2).length ≤ served.count key :=
        List.drop_eq_nil_iff.1 hleft
      rw [after, allocate_minted hleft, idByRank, List.getElem?_eq_none hlong, after,
        History.beyond, if_pos hlong, afterDrawing_succ]
      rfl

theorem run_after (served requests : List (TypeRef × String)) :
    ((allocate mint).run requests (after mint history minter served)).2 =
      after mint history minter (requests.reverse ++ served) := by
  induction requests generalizing served with
  | nil => rfl
  | cons key requests ih =>
      rw [IdAllocator.run, allocate_after, List.reverse_cons, List.append_assoc]
      exact ih (key :: served)

/-- The ids that a field gets from the record are the first ones there, as many as it asks for. -/
theorem take_idsFor (requests : List (TypeRef × String)) (key : TypeRef × String) :
    let given := ((allocate mint).run requests (.start history minter)).1
    (idsFor key requests given).take (history.ids key.1 key.2).length =
      (history.ids key.1 key.2).take (requests.count key) := by
  intro given
  obtain ⟨count, -, hids⟩ := run_allocate mint history [] requests minter
  obtain ⟨minted, -, hlength, hgiven⟩ := hids key
  rw [History.left_nil] at hlength hgiven
  have hsplit : idsFor key requests given =
      (history.ids key.1 key.2).take (requests.count key) ++ minted := hgiven
  rw [hsplit]
  rcases Nat.le_total (requests.count key) (history.ids key.1 key.2).length with hle | hle
  · have hnone : minted = [] := List.eq_nil_of_length_eq_zero (by omega)
    rw [hnone, List.append_nil, List.take_of_length_le (List.length_take_le' _ _)]
  · rw [List.take_of_length_le hle, List.take_left]

/-- A request is given the id on record that has its rank, or else the next id of the minter, which
gives one for each request beyond the record, in the order of the requests. So requests in another
order take the same ids of every field from the record, and draw as many from the minter. -/
theorem allocation_by_rank (requests : List (TypeRef × String)) :
    let run := (allocate mint).run requests (.start history minter)
    (run.1.length = requests.length ∧ ∀ i key, requests[i]? = some key →
      let earlier := requests.take i
      run.1[i]? = some ((history.ids key.1 key.2)[earlier.count key]?.getD
        (mintedAfter mint (history.beyond earlier.reverse) minter))) ∧
    run.2.minter = afterDrawing mint (history.beyond requests.reverse) minter ∧
    ∀ others : List (TypeRef × String), (∀ key, others.count key = requests.count key) →
      let run' := (allocate mint).run others (.start history minter)
      run'.2.minter = run.2.minter ∧ ∀ key,
        let recorded := (history.ids key.1 key.2).length
        (idsFor key requests run.1).take recorded =
          (history.ids key.1 key.2).take (requests.count key) ∧
        (idsFor key others run'.1).take recorded = (idsFor key requests run.1).take recorded := by
  intro run
  have hminter (requests : List (TypeRef × String)) :
      ((allocate mint).run requests (.start history minter)).2 =
        after mint history minter requests.reverse := by
    have hrun := run_after mint history minter [] requests
    rwa [List.append_nil] at hrun
  refine ⟨⟨IdAllocator.length_run _ _ _, fun i key hkey => ?_⟩, ?_, fun others hcount => ?_⟩
  · intro earlier
    rw [IdAllocator.getElem?_run, hkey, Option.map_some, hminter, allocate_after, idByRank,
      List.count_reverse]
  · exact congrArg StableIds.minter (hminter requests)
  · intro run'
    have hperm : others.reverse.Perm requests.reverse :=
      (List.reverse_perm _).trans ((List.perm_iff_count.2 hcount).trans (List.reverse_perm _).symm)
    refine ⟨?_, fun key => ?_⟩
    · simp only [run', run, hminter, after, history.beyond_perm hperm]
    · have htake := take_idsFor mint history minter requests key
      refine ⟨htake, (take_idsFor mint history minter others key).trans ?_⟩
      rw [htake, hcount]

/-! ## Titles of books and of a relation -/

/-- Two ids are on record for the titles of books, and none for those of the relation of that
name. -/
def twoOnRecord : History :=
  (History.empty.insert (.entity "book") "title" "b").insert (.entity "book") "title" "a"

/-- The third title of books comes with the second of the relation in front or behind; it is minted
either way, and the first two take what is on record. -/
theorem titles_by_rank :
    let title : TypeRef × String := (.entity "book", "title")
    let other : TypeRef × String := (.relation "book", "title")
    let requests := [title, other, title, other, title]
    let others := [other, title, title, title, other]
    let run := (allocate lengthening).run requests (.start twoOnRecord 1)
    let run' := (allocate lengthening).run others (.start twoOnRecord 1)
    requests[4]? = some title ∧ run.1[4]? = some "nnn" ∧ run.2.minter = 4 ∧
      (∀ key, others.count key = requests.count key) ∧ run'.1 = ["n", "b", "a", "nn", "nnn"] ∧
      run'.2.minter = 4 ∧ (idsFor title requests run.1).take 2 = ["b", "a"] ∧
      (idsFor title others run'.1).take 2 = ["b", "a"] := by
  intro title other requests others run run'
  obtain ⟨⟨-, hids⟩, hminter, hothers⟩ :=
    allocation_by_rank lengthening twoOnRecord 1 requests
  have hcount : ∀ key, others.count key = requests.count key :=
    List.perm_iff_count.1 (by decide)
  have hids : run.1[4]? = some "nnn" := (hids 4 title rfl).trans (by decide +kernel)
  have hdrawn : run.2.minter = 4 := hminter.trans (by decide +kernel)
  have hrecord : twoOnRecord.ids title.1 title.2 = ["b", "a"] := by decide +kernel
  obtain ⟨hminter', hrecorded⟩ := hothers others hcount
  obtain ⟨htitles, hsame⟩ := hrecorded title
  rw [hrecord] at htitles hsame
  exact ⟨rfl, hids, hdrawn, hcount, by decide +kernel, hminter'.trans hdrawn, htitles,
    hsame.trans htitles⟩

end StableIds

end SchemaLink
