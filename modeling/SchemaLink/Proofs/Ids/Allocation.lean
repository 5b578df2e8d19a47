import Mathlib.Data.List.Basic
import SchemaLink.Ids.Allocation
import SchemaLink.Proofs.Ids.Recording

/-! # Ids given to declarations

Fields take the ids on record for them in order, however the requests for other
fields stand between theirs, and what is missing is minted. While the minter gives
new ids only, no id is given twice within a type. -/

namespace SchemaLink

/-! ## Minters -/

section Minting

variable {μ : Type} (mint : μ → String × μ)

/-- The ids that a minter gives, one after another. -/
def drawn : Nat → μ → List String
  | 0, _ => []
  | count + 1, minter => (mint minter).1 :: drawn count (mint minter).2

/-- The minter after it gave so many ids. -/
def afterDrawing : Nat → μ → μ
  | 0, minter => minter
  | count + 1, minter => afterDrawing count (mint minter).2

/-- A minter that gives no id twice and none that is taken. -/
structure Fresh (taken : String → Prop) (minter : μ) : Prop where
  nodup : ∀ count, (drawn mint count minter).Nodup
  not_taken : ∀ {count id}, id ∈ drawn mint count minter → ¬ taken id

variable {mint}

theorem Fresh.mono {taken taken' : String → Prop} {minter : μ} (h : Fresh mint taken minter)
    (htaken : ∀ id, taken' id → taken id) : Fresh mint taken' minter where
  nodup := h.nodup
  not_taken hid hid' := h.not_taken hid (htaken _ hid')

theorem Fresh.next {taken : String → Prop} {minter : μ} (h : Fresh mint taken minter) :
    Fresh mint taken (mint minter).2 where
  nodup count := (List.nodup_cons.1 (h.nodup (count + 1))).2
  not_taken {count id} hid := by
    have hlater : id ∈ drawn mint (count + 1) minter := List.mem_cons_of_mem _ hid
    exact h.not_taken hlater

theorem Fresh.first_not_mem {taken : String → Prop} {minter : μ} (h : Fresh mint taken minter)
    (count : Nat) : (mint minter).1 ∉ drawn mint count (mint minter).2 :=
  (List.nodup_cons.1 (h.nodup (count + 1))).1

theorem Fresh.first_not_taken {taken : String → Prop} {minter : μ} (h : Fresh mint taken minter) :
    ¬ taken (mint minter).1 := by
  have hfirst : (mint minter).1 ∈ drawn mint 1 minter := by simp [drawn]
  exact h.not_taken hfirst

/-- A minter whose ids grow by one character every time. -/
def lengthening (length : Nat) : String × Nat :=
  (String.ofList (List.replicate length 'n'), length + 1)

theorem le_length_of_mem_drawn {count length : Nat} {id : String}
    (h : id ∈ drawn lengthening count length) : length ≤ id.length := by
  induction count generalizing length with
  | zero => cases h
  | succ count ih =>
      rcases List.mem_cons.1 h with rfl | h
      · simp [lengthening]
      · exact Nat.le_of_succ_le (ih h)

theorem fresh_lengthening {taken : String → Prop} {length : Nat}
    (h : ∀ id, taken id → id.length < length) : Fresh lengthening taken length where
  nodup count := by
    induction count generalizing length with
    | zero => exact .nil
    | succ count ih =>
        refine List.nodup_cons.2 ⟨fun hmem => ?_, ih fun id hid => Nat.lt_succ_of_lt (h id hid)⟩
        have hle := le_length_of_mem_drawn hmem
        simp only [lengthening, String.length_ofList, List.length_replicate] at hle
        omega
  not_taken {count id} hid htaken :=
    Nat.lt_irrefl _ (Nat.lt_of_lt_of_le (h id htaken) (le_length_of_mem_drawn hid))

end Minting

/-! ## Ids still on record -/

/-- The ids on record for a field that have not been given out yet. -/
def History.left (history : History) (served : List (TypeRef × String)) (key : TypeRef × String) :
    List String :=
  (history.ids key.1 key.2).drop (served.count key)

namespace History

variable (history : History) (served : List (TypeRef × String)) {key : TypeRef × String}

theorem left_nil : history.left [] key = history.ids key.1 key.2 := rfl

theorem left_cons_self : history.left (key :: served) key = (history.left served key).tail := by
  simp [left]

theorem left_cons_of_ne {other : TypeRef × String} (h : other ≠ key) :
    history.left (key :: served) other = history.left served other := by
  simp [left, Ne.symm h]

variable (key) in
/-- The next request for a field asks for the first id that is left. -/
theorem getElem?_ids :
    (history.ids key.1 key.2)[served.count key]? = (history.left served key).head? :=
  List.head?_drop.symm

end History

namespace StableIds

variable {μ : Type} {mint : μ → String × μ} {history : History}
  {served : List (TypeRef × String)} {key : TypeRef × String}

theorem allocate_recorded {id : String} {rest : List String}
    (h : history.left served key = id :: rest) (minter : μ) :
    allocate mint key.1 key.2 ⟨history, served, minter⟩ =
      (id, ⟨history, key :: served, minter⟩) := by
  have hid : (history.ids key.1 key.2)[served.count key]? = some id := by
    rw [History.getElem?_ids, h, List.head?_cons]
  rw [allocate]
  simp only [hid]

theorem allocate_minted (h : history.left served key = []) (minter : μ) :
    allocate mint key.1 key.2 ⟨history, served, minter⟩ =
      ((mint minter).1, ⟨history, key :: served, (mint minter).2⟩) := by
  have hid : (history.ids key.1 key.2)[served.count key]? = none := by
    rw [History.getElem?_ids, h, List.head?_nil]
  rw [allocate]
  simp only [hid]

end StableIds

/-! ## Runs of requests -/

/-- The ids among those given to requests that went to one field, in order. -/
def idsFor (key : TypeRef × String) (requests : List (TypeRef × String)) (given : List String) :
    List String :=
  ((requests.zip given).filter fun entry => entry.1 = key).map Prod.snd

@[simp] theorem idsFor_nil (key : TypeRef × String) (given : List String) :
    idsFor key [] given = [] := rfl

theorem idsFor_cons_self (key : TypeRef × String) (requests : List (TypeRef × String)) (id : String)
    (given : List String) :
    idsFor key (key :: requests) (id :: given) = id :: idsFor key requests given := by
  simp [idsFor]

theorem idsFor_cons_of_ne {key other : TypeRef × String} (h : other ≠ key)
    (requests : List (TypeRef × String)) (id : String) (given : List String) :
    idsFor key (other :: requests) (id :: given) = idsFor key requests given := by
  simp [idsFor, h]

theorem mem_idsFor {key : TypeRef × String} {requests : List (TypeRef × String)}
    {given : List String} {id : String} :
    id ∈ idsFor key requests given ↔ (key, id) ∈ requests.zip given := by
  constructor
  · intro h
    rcases List.mem_map.1 h with ⟨entry, hentry, rfl⟩
    rcases List.mem_filter.1 hentry with ⟨hmem, hkey⟩
    obtain rfl := of_decide_eq_true hkey
    exact hmem
  · intro h
    exact List.mem_map.2 ⟨(key, id), List.mem_filter.2 ⟨h, by simp⟩, rfl⟩

theorem length_idsFor {key : TypeRef × String} {requests : List (TypeRef × String)}
    {given : List String} (h : given.length = requests.length) :
    (idsFor key requests given).length = requests.count key := by
  induction requests generalizing given with
  | nil => rfl
  | cons other requests ih =>
      rcases List.exists_cons_of_length_eq_add_one h with ⟨id, given, rfl⟩
      have hrest := ih (Nat.succ.inj h)
      by_cases hkey : other = key
      · subst hkey
        rw [idsFor_cons_self, List.length_cons, hrest, List.count_cons_self]
      · rw [idsFor_cons_of_ne hkey, hrest, List.count_cons_of_ne hkey]

/-- Ids given to requests are determined by what each field gets. -/
theorem eq_of_idsFor {requests : List (TypeRef × String)} {given given' : List String}
    (hlength : given.length = requests.length) (hlength' : given'.length = requests.length)
    (h : ∀ key, idsFor key requests given = idsFor key requests given') : given = given' := by
  induction requests generalizing given given' with
  | nil =>
      rw [List.eq_nil_of_length_eq_zero hlength, List.eq_nil_of_length_eq_zero hlength']
  | cons key requests ih =>
      rcases List.exists_cons_of_length_eq_add_one hlength with ⟨id, given, rfl⟩
      rcases List.exists_cons_of_length_eq_add_one hlength' with ⟨id', given', rfl⟩
      have hhead := h key
      rw [idsFor_cons_self, idsFor_cons_self] at hhead
      rcases List.cons.inj hhead with ⟨rfl, -⟩
      congr 1
      apply ih (Nat.succ.inj hlength) (Nat.succ.inj hlength')
      intro other
      have hother := h other
      by_cases hkey : key = other
      · subst hkey
        exact (List.cons.inj hhead).2
      · rwa [idsFor_cons_of_ne hkey, idsFor_cons_of_ne hkey] at hother

theorem IdAllocator.length_run {σ : Type} (ids : IdAllocator σ) (requests : List (TypeRef × String))
    (state : σ) : (ids.run requests state).1.length = requests.length := by
  induction requests generalizing state with
  | nil => rfl
  | cons key requests ih => exact congrArg Nat.succ (ih _)

theorem IdAllocator.run_append {σ : Type} (ids : IdAllocator σ)
    (earlier later : List (TypeRef × String)) (state : σ) :
    ids.run (earlier ++ later) state =
      ((ids.run earlier state).1 ++ (ids.run later (ids.run earlier state).2).1,
        (ids.run later (ids.run earlier state).2).2) := by
  induction earlier generalizing state with
  | nil => rfl
  | cons key earlier ih =>
      simp only [List.cons_append, IdAllocator.run, ih]

namespace StableIds

variable {μ : Type} {mint : μ → String × μ} {history : History}
  {served : List (TypeRef × String)}

theorem run_cons_recorded {key : TypeRef × String} {id : String} {rest : List String}
    (h : history.left served key = id :: rest) (requests : List (TypeRef × String)) (minter : μ) :
    (allocate mint).run (key :: requests) ⟨history, served, minter⟩ =
      (id :: ((allocate mint).run requests ⟨history, key :: served, minter⟩).1,
        ((allocate mint).run requests ⟨history, key :: served, minter⟩).2) := by
  rw [IdAllocator.run, allocate_recorded h]

theorem run_cons_minted {key : TypeRef × String} (h : history.left served key = [])
    (requests : List (TypeRef × String)) (minter : μ) :
    (allocate mint).run (key :: requests) ⟨history, served, minter⟩ =
      ((mint minter).1 ::
          ((allocate mint).run requests ⟨history, key :: served, (mint minter).2⟩).1,
        ((allocate mint).run requests ⟨history, key :: served, (mint minter).2⟩).2) := by
  rw [IdAllocator.run, allocate_minted h]

variable (mint history served) in
/-- Every field is given the ids left for it and then minted ones. -/
theorem run_allocate (requests : List (TypeRef × String)) (minter : μ) :
    ∃ count, ((allocate mint).run requests ⟨history, served, minter⟩).2 =
        ⟨history, requests.reverse ++ served, afterDrawing mint count minter⟩ ∧
      ∀ key, ∃ minted, minted.Sublist (drawn mint count minter) ∧
        minted.length = requests.count key - (history.left served key).length ∧
        idsFor key requests ((allocate mint).run requests ⟨history, served, minter⟩).1 =
          (history.left served key).take (requests.count key) ++ minted := by
  induction requests generalizing served minter with
  | nil => exact ⟨0, rfl, fun key => ⟨[], by simp [drawn], by simp, by simp⟩⟩
  | cons first requests ih =>
      cases hleft : history.left served first with
      | cons id rest =>
          obtain ⟨count, hstate, hids⟩ := ih (first :: served) minter
          rw [run_cons_recorded hleft, hstate]
          refine ⟨count, by simp, ?_⟩
          intro key
          obtain ⟨minted, hsub, hlength, hgiven⟩ := hids key
          refine ⟨minted, hsub, ?_⟩
          by_cases hkey : first = key
          · subst hkey
            rw [History.left_cons_self, hleft, List.tail_cons] at hlength hgiven
            rw [idsFor_cons_self, hgiven, hleft, List.count_cons_self]
            simp [hlength]
          · rw [History.left_cons_of_ne _ _ (Ne.symm hkey)] at hlength hgiven
            rw [idsFor_cons_of_ne hkey, hgiven, List.count_cons_of_ne hkey]
            exact ⟨hlength, rfl⟩
      | nil =>
          obtain ⟨count, hstate, hids⟩ := ih (first :: served) (mint minter).2
          rw [run_cons_minted hleft, hstate]
          refine ⟨count + 1, by simp [afterDrawing], ?_⟩
          intro key
          obtain ⟨minted, hsub, hlength, hgiven⟩ := hids key
          by_cases hkey : first = key
          · subst hkey
            rw [History.left_cons_self, hleft, List.tail_nil] at hlength hgiven
            refine ⟨(mint minter).1 :: minted, hsub.cons_cons _, ?_, ?_⟩
            · rw [hleft, List.count_cons_self]
              simpa using hlength
            · rw [idsFor_cons_self, hgiven, hleft]
              simp
          · rw [History.left_cons_of_ne _ _ (Ne.symm hkey)] at hlength hgiven
            refine ⟨minted, hsub.cons _, ?_, ?_⟩
            · rw [List.count_cons_of_ne hkey, hlength]
            · rw [idsFor_cons_of_ne hkey, hgiven, List.count_cons_of_ne hkey]

/-- An id that was given was left for its field or was minted. -/
theorem mem_left_or_drawn {requests : List (TypeRef × String)} {minter : μ}
    {key : TypeRef × String} {id : String}
    (h : (key, id) ∈ requests.zip ((allocate mint).run requests ⟨history, served, minter⟩).1) :
    id ∈ history.left served key ∨ ∃ count, id ∈ drawn mint count minter := by
  obtain ⟨count, -, hids⟩ := run_allocate mint history served requests minter
  obtain ⟨minted, hsub, -, hgiven⟩ := hids key
  rw [← mem_idsFor, hgiven, List.mem_append] at h
  rcases h with h | h
  · exact .inl (List.mem_of_mem_take h)
  · exact .inr ⟨count, hsub.subset h⟩

theorem mem_ids_of_mem_left {key : TypeRef × String} {id : String}
    (h : id ∈ history.left served key) : id ∈ history.ids key.1 key.2 := List.mem_of_mem_drop h

variable (served) in
/-- Within a type no id is given twice. -/
theorem run_pairwise_ne (hexclusive : history.Exclusive) (requests : List (TypeRef × String))
    {minter : μ} (hfresh : Fresh mint history.Holds minter) :
    (requests.zip ((allocate mint).run requests ⟨history, served, minter⟩).1).Pairwise
      fun a b => a.1.1 = b.1.1 → a.2 ≠ b.2 := by
  induction requests generalizing served minter with
  | nil => exact .nil
  | cons first requests ih =>
      cases hleft : history.left served first with
      | cons id rest =>
          rw [run_cons_recorded hleft]
          refine List.pairwise_cons.2 ⟨?_, ih _ hfresh⟩
          rintro ⟨key, other⟩ hmem htype rfl
          have hid : id ∈ history.ids first.1 first.2 :=
            mem_ids_of_mem_left (hleft ▸ List.mem_cons_self)
          rcases mem_left_or_drawn hmem with hother | ⟨count, hother⟩
          · by_cases hkey : key = first
            · subst hkey
              -- the id at the front of what is left does not stand there again
              rw [History.left_cons_self, hleft] at hother
              have hnodup : (history.left served key).Nodup :=
                (hexclusive.nodup key.1 key.2).sublist (List.drop_sublist _ _)
              rw [hleft] at hnodup
              exact (List.nodup_cons.1 hnodup).1 hother
            · have hkey' := mem_ids_of_mem_left hother
              rw [← htype] at hkey'
              exact hkey (Prod.ext htype.symm (hexclusive.name_eq hkey' hid))
          · exact hfresh.not_taken hother ⟨_, _, hid⟩
      | nil =>
          rw [run_cons_minted hleft]
          refine List.pairwise_cons.2 ⟨?_, ih _ hfresh.next⟩
          rintro ⟨key, other⟩ hmem htype rfl
          rcases mem_left_or_drawn hmem with hother | ⟨count, hother⟩
          · exact hfresh.first_not_taken ⟨_, _, mem_ids_of_mem_left hother⟩
          · exact hfresh.first_not_mem count hother

variable (served) in
/-- Where enough ids are on record, what is given does not depend on the minter, which is left
alone. -/
theorem run_recorded {requests : List (TypeRef × String)}
    (h : ∀ key, requests.count key ≤ (history.left served key).length) :
    ∃ given : List String, ∀ (ν : Type) (mint : ν → String × ν) (minter : ν),
      (allocate mint).run requests ⟨history, served, minter⟩ =
        (given, ⟨history, requests.reverse ++ served, minter⟩) := by
  induction requests generalizing served with
  | nil => exact ⟨[], fun _ _ _ => rfl⟩
  | cons first requests ih =>
      have hfirst := h first
      rw [List.count_cons_self] at hfirst
      have hpos : 0 < (history.left served first).length :=
        Nat.lt_of_lt_of_le (Nat.succ_pos _) hfirst
      rcases List.exists_cons_of_length_pos hpos with ⟨id, rest, hleft⟩
      obtain ⟨given, hgiven⟩ := ih (first :: served) fun key => by
        by_cases hkey : key = first
        · subst hkey
          rw [History.left_cons_self, List.length_tail]
          omega
        · rw [History.left_cons_of_ne _ _ hkey]
          have hcount := h key
          rwa [List.count_cons_of_ne (Ne.symm hkey)] at hcount
      refine ⟨id :: given, ?_⟩
      intro ν mint minter
      rw [run_cons_recorded hleft, hgiven]
      simp

end StableIds

end SchemaLink
