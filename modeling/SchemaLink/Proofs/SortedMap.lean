import Mathlib.Data.List.Nodup
import SchemaLink.Proofs.Distinct
import SchemaLink.SortedMap

/-! # Lookups of finite maps

A map is determined by its lookups, and building one from entries keeps the last
entry of every key. Where no key is repeated, all entries are kept. -/

namespace SchemaLink.SortedMap

open Std

variable {κ : Type u} {β : Type v} {γ : Type w} [Ord κ]

/-! ## Entries in order -/

/-- A strictly ascending list is determined by what it contains. -/
theorem eq_of_perm_of_ascending [TransOrd κ] {l₁ l₂ : List κ}
    (h₁ : l₁.Pairwise fun a b => compare a b = .lt)
    (h₂ : l₂.Pairwise fun a b => compare a b = .lt) (h : l₁.Perm l₂) : l₁ = l₂ := by
  refine h.eq_of_pairwise (fun a b _ _ hab hba => ?_) h₁ h₂
  rw [OrientedOrd.eq_swap, hba] at hab
  cases hab

@[simp] theorem find?_empty (key : κ) : (∅ : SortedMap κ β).find? key = none := rfl

variable [LawfulEqOrd κ]

theorem ne_of_compare_lt {a b : κ} (h : compare a b = .lt) : a ≠ b := by
  rintro rfl
  exact absurd (h.symm.trans ReflCmp.compare_self) (by simp)

theorem Ascending.nodup_keys {entries : List (κ × β)} (h : Ascending entries) :
    (entries.map Prod.fst).Nodup := by
  rw [List.Nodup, List.pairwise_map]
  exact h.imp ne_of_compare_lt

theorem keys_nodup (m : SortedMap κ β) : m.keys.Nodup :=
  Ascending.nodup_keys m.ascending

theorem nodup (m : SortedMap κ β) : m.toList.Nodup := List.Nodup.of_map _ m.keys_nodup

/-! ## Looking up keys -/

theorem findAmong?_insertEntry_self (key : κ) (value : β) (entries : List (κ × β)) :
    findAmong? key (insertEntry key value entries) = some value := by
  induction entries with
  | nil => simp [insertEntry, findAmong?]
  | cons head rest ih =>
      rw [insertEntry]
      split
      · simp [findAmong?]
      · simp [findAmong?]
      · next hgt => simp [findAmong?, hgt, ih]

theorem findAmong?_insertEntry_of_ne {key other : κ} (h : other ≠ key) (value : β)
    (entries : List (κ × β)) :
    findAmong? other (insertEntry key value entries) = findAmong? other entries := by
  have hne : compare other key ≠ .eq := fun heq => h (LawfulEqCmp.eq_of_compare heq)
  induction entries with
  | nil => simp [insertEntry, findAmong?, hne]
  | cons head rest ih =>
      rw [insertEntry]
      split
      · rw [findAmong?, if_neg hne]
      · next heq =>
          obtain rfl := LawfulEqCmp.eq_of_compare heq
          simp [findAmong?, hne]
      · simp [findAmong?, ih]

theorem findAmong?_eq_some_iff {entries : List (κ × β)} (h : Ascending entries) {key : κ}
    {value : β} : findAmong? key entries = some value ↔ (key, value) ∈ entries := by
  induction entries with
  | nil => simp [findAmong?]
  | cons head rest ih =>
      rcases head with ⟨k, v⟩
      rcases List.pairwise_cons.1 h with ⟨hhead, hrest⟩
      rw [findAmong?]
      by_cases heq : compare key k = .eq
      · obtain rfl := LawfulEqCmp.eq_of_compare heq
        simp only [heq, if_true, Option.some.injEq, List.mem_cons, Prod.mk.injEq, true_and]
        constructor
        · exact fun h => .inl h.symm
        · rintro (h | member)
          · exact h.symm
          · exact absurd rfl (ne_of_compare_lt (hhead (key, value) member))
      · have hne : key ≠ k := by
          rintro rfl
          exact heq ReflCmp.compare_self
        simp [heq, hne, ih hrest]

theorem find?_eq_some_iff {m : SortedMap κ β} {key : κ} {value : β} :
    m.find? key = some value ↔ (key, value) ∈ m.toList :=
  findAmong?_eq_some_iff m.ascending

theorem find?_isSome_iff {m : SortedMap κ β} {key : κ} :
    (m.find? key).isSome ↔ key ∈ m.keys := by
  rw [Option.isSome_iff_exists, keys, List.mem_map]
  constructor
  · intro hfound
    rcases hfound with ⟨value, h⟩
    exact ⟨(key, value), find?_eq_some_iff.1 h, rfl⟩
  · intro hfound
    rcases hfound with ⟨⟨k, value⟩, member, rfl⟩
    exact ⟨value, find?_eq_some_iff.2 member⟩

/-- Entries are found by key in the list of them just as well. -/
theorem lookup_map_toList [BEq κ] [LawfulBEq κ] (m : SortedMap κ β) (f : β → γ) (key : κ) :
    (m.toList.map fun entry => (entry.1, f entry.2)).lookup key = (m.find? key).map f := by
  rw [find?]
  induction m.toList with
  | nil => rfl
  | cons entry entries ih =>
      rw [List.map_cons, List.lookup_cons, findAmong?]
      by_cases h : key = entry.1
      · simp [h]
      · have hne : compare key entry.1 ≠ .eq := fun heq => h (LawfulEqCmp.eq_of_compare heq)
        simp only [beq_false_of_ne h, hne, if_false, ih]

variable [TransOrd κ]

@[simp] theorem find?_insert_self (m : SortedMap κ β) (key : κ) (value : β) :
    (m.insert key value).find? key = some value :=
  findAmong?_insertEntry_self key value m.toList

theorem find?_insert_of_ne {key other : κ} (h : other ≠ key) (m : SortedMap κ β) (value : β) :
    (m.insert key value).find? other = m.find? other :=
  findAmong?_insertEntry_of_ne h value m.toList

@[simp] theorem isEmpty_insert (m : SortedMap κ β) (key : κ) (value : β) :
    (m.insert key value).isEmpty = false :=
  List.isEmpty_eq_false_iff.2 <|
    List.ne_nil_of_mem (find?_eq_some_iff.1 (find?_insert_self m key value))

/-- Maps with the same lookups are equal. -/
theorem ext_find? {m n : SortedMap κ β} (h : ∀ key, m.find? key = n.find? key) : m = n := by
  have hperm : m.toList.Perm n.toList := by
    apply (List.perm_ext_iff_of_nodup m.nodup n.nodup).2
    intro entry
    rw [← find?_eq_some_iff, ← find?_eq_some_iff, h]
  refine ext (hperm.eq_of_pairwise (fun a b _ _ hab hba => ?_) m.ascending n.ascending)
  rw [OrientedOrd.eq_swap, hba] at hab
  cases hab

omit [TransOrd κ] in
@[simp] theorem find?_mapWithKey (f : κ → β → γ) (m : SortedMap κ β) (key : κ) :
    (m.mapWithKey f).find? key = (m.find? key).map (f key) := by
  cases h : m.find? key with
  | some value =>
      rw [find?_eq_some_iff] at h
      rw [Option.map_some, find?_eq_some_iff, mapWithKey]
      exact List.mem_map.2 ⟨(key, value), h, rfl⟩
  | none =>
      cases hmap : (m.mapWithKey f).find? key with
      | none => rfl
      | some value =>
          obtain ⟨⟨k, v⟩, member, heq⟩ := List.mem_map.1 (find?_eq_some_iff.1 hmap)
          rcases Prod.mk.inj heq with ⟨rfl, -⟩
          rw [find?_eq_some_iff.2 member] at h
          cases h

/-! ## Maps of lists -/

theorem find?_foldl_insert (entries : List (κ × β)) (m : SortedMap κ β) (key : κ) :
    (entries.foldl (fun m entry => m.insert entry.1 entry.2) m).find? key =
      (((entries.filter fun entry => compare entry.1 key == .eq).getLast?).map Prod.snd).or
        (m.find? key) := by
  induction entries generalizing m with
  | nil => rfl
  | cons entry entries ih =>
      rw [List.foldl_cons, ih]
      by_cases h : entry.1 = key
      · subst h
        simp only [List.filter_cons, ReflCmp.compare_self, beq_self_eq_true, if_true,
          find?_insert_self, List.getLast?_cons]
        cases (entries.filter fun e => compare e.1 entry.1 == .eq).getLast? <;> rfl
      · have hne : compare entry.1 key ≠ .eq := fun heq => h (LawfulEqCmp.eq_of_compare heq)
        simp only [List.filter_cons, beq_iff_eq, hne, if_false,
          find?_insert_of_ne (Ne.symm h)]

/-- Of several entries for a key the last counts. -/
theorem find?_ofList (entries : List (κ × β)) (key : κ) :
    (ofList entries).find? key =
      ((entries.filter fun entry => compare entry.1 key == .eq).getLast?).map Prod.snd := by
  rw [ofList, find?_foldl_insert]
  exact Option.or_none

/-- The entry of a key is the last one, after which the key does not come again. -/
theorem find?_ofList_eq_some_iff {entries : List (κ × β)} {key : κ} {value : β} :
    (ofList entries).find? key = some value ↔ ∃ before after,
      entries = before ++ (key, value) :: after ∧ key ∉ after.map Prod.fst := by
  have hlast : ((entries.filter fun entry => compare entry.1 key == .eq).getLast?) =
      entries.reverse.find? fun entry => compare entry.1 key == .eq := by
    rw [List.getLast?_eq_head?_reverse, ← List.filter_reverse, List.head?_filter]
  rw [find?_ofList, hlast, Option.map_eq_some_iff]
  constructor
  · rintro ⟨entry, hentry, rfl⟩
    obtain ⟨hkey, front, back, hreverse, hfront⟩ := List.find?_eq_some_iff_append.1 hentry
    obtain rfl := LawfulEqCmp.eq_of_compare (beq_iff_eq.1 hkey)
    refine ⟨back.reverse, front.reverse, ?_, ?_⟩
    · rw [← List.reverse_inj, hreverse]
      simp
    · simp only [List.map_reverse, List.mem_reverse, List.mem_map, not_exists, not_and]
      intro other hother heq
      simpa [heq] using hfront other hother
  · rintro ⟨before, after, rfl, hafter⟩
    refine ⟨(key, value), List.find?_eq_some_iff_append.2
      ⟨by simp, after.reverse, before.reverse, by simp, fun other hother => ?_⟩, rfl⟩
    have hne : compare other.1 key ≠ .eq := fun heq => hafter <| LawfulEqCmp.eq_of_compare heq ▸
      List.mem_map_of_mem (List.mem_reverse.1 hother)
    simpa using hne

theorem find?_ofList_of_nodup {entries : List (κ × β)} (h : (entries.map Prod.fst).Nodup)
    {key : κ} {value : β} :
    (ofList entries).find? key = some value ↔ (key, value) ∈ entries := by
  rw [find?_ofList]
  induction entries with
  | nil => simp
  | cons entry entries ih =>
      rcases List.nodup_cons.1 h with ⟨hhead, hrest⟩
      by_cases heq : entry.1 = key
      · subst heq
        have hnone : entries.filter (fun e => compare e.1 entry.1 == .eq) = [] := by
          refine List.filter_eq_nil_iff.2 fun e member hcmp => hhead ?_
          rw [← LawfulEqCmp.eq_of_compare (beq_iff_eq.1 hcmp)]
          exact List.mem_map_of_mem member
        have habsent : (entry.1, value) ∉ entries := fun member =>
          hhead (List.mem_map.2 ⟨_, member, rfl⟩)
        rw [List.filter_cons, hnone, List.mem_cons]
        simp [habsent, Prod.ext_iff, eq_comm]
      · have hne : compare entry.1 key ≠ .eq := fun h => heq (LawfulEqCmp.eq_of_compare h)
        have hcons : (key, value) ≠ entry := by rintro rfl; exact heq rfl
        simp only [List.filter_cons, beq_iff_eq, hne, if_false, List.mem_cons, hcons, false_or]
        exact ih hrest

/-- No entry is made up. -/
theorem mem_or_find?_of_find?_foldl_insert {entries : List (κ × β)} {m : SortedMap κ β} {key : κ}
    {value : β}
    (h : (entries.foldl (fun m entry => m.insert entry.1 entry.2) m).find? key = some value) :
    (key, value) ∈ entries ∨ m.find? key = some value := by
  rw [find?_foldl_insert, Option.or_eq_some_iff] at h
  rcases h with h | ⟨-, h⟩
  · rcases Option.map_eq_some_iff.1 h with ⟨last, hlast, rfl⟩
    obtain ⟨hmem, hkey⟩ := List.mem_filter.1 (List.mem_of_getLast? hlast)
    obtain rfl := LawfulEqCmp.eq_of_compare (beq_iff_eq.1 hkey)
    exact .inl hmem
  · exact .inr h

theorem mem_of_mem_ofList {entries : List (κ × β)} {entry : κ × β}
    (h : entry ∈ (ofList entries).toList) : entry ∈ entries := by
  rcases mem_or_find?_of_find?_foldl_insert (find?_eq_some_iff.2 h) with hmem | hfound
  · exact hmem
  · cases hfound

theorem eq_of_find?_singleton {key other : κ} {value found : β}
    (h : (ofList [(key, value)]).find? other = some found) : other = key ∧ found = value :=
  Prod.mk.inj (List.mem_singleton.1 (mem_of_mem_ofList (find?_eq_some_iff.1 h)))

theorem isSome_find?_ofList {entries : List (κ × β)} {key : κ} (h : key ∈ entries.map Prod.fst) :
    ((ofList entries).find? key).isSome := by
  rcases List.mem_map.1 h with ⟨entry, hentry, rfl⟩
  rw [find?_ofList, Option.isSome_map, List.getLast?_isSome]
  exact List.ne_nil_of_mem (List.mem_filter.2 ⟨hentry, by simp⟩)

theorem mem_keys_ofList {entries : List (κ × β)} {key : κ} :
    key ∈ (ofList entries).keys ↔ key ∈ entries.map Prod.fst := by
  refine ⟨fun hkey => ?_, fun hkey => find?_isSome_iff.1 (isSome_find?_ofList hkey)⟩
  obtain ⟨entry, hentry, rfl⟩ := List.mem_map.1 hkey
  exact List.mem_map_of_mem (mem_of_mem_ofList hentry)

/-- Every key is kept once. -/
theorem keys_ofList_perm [BEq κ] [LawfulBEq κ] (entries : List (κ × β)) :
    (ofList entries).keys.Perm (distinct (entries.map Prod.fst)) := by
  apply (List.perm_ext_iff_of_nodup (keys_nodup _) (nodup_distinct _)).2
  intro key
  rw [mem_keys_ofList, mem_distinct]

/-- All entries are kept just if no key is repeated. -/
theorem size_ofList_eq_iff [BEq κ] [LawfulBEq κ] {entries : List (κ × β)} :
    (ofList entries).size = entries.length ↔ (entries.map Prod.fst).Nodup := by
  have hsize : (ofList entries).size = (distinct (entries.map Prod.fst)).length := by
    rw [← (keys_ofList_perm entries).length_eq, keys, List.length_map, size]
  have hlength : (entries.map Prod.fst).length = entries.length := List.length_map _
  rw [hsize, ← hlength, length_distinct_eq_iff]

/-- Entries without a repeated key are all kept. -/
theorem toList_ofList_perm {entries : List (κ × β)} (h : (entries.map Prod.fst).Nodup) :
    (ofList entries).toList.Perm entries := by
  apply (List.perm_ext_iff_of_nodup (nodup _) (List.Nodup.of_map _ h)).2
  intro entry
  rw [← find?_ofList_of_nodup h, ← find?_eq_some_iff]

omit [TransOrd κ] in
/-- A key has one entry or none. -/
theorem filter_toList [DecidableEq κ] (m : SortedMap κ β) (key : κ) :
    (m.toList.filter fun entry => entry.1 = key) =
      (m.find? key).toList.map fun value => (key, value) := by
  cases hfound : m.find? key with
  | none =>
      apply List.filter_eq_nil_iff.2
      rintro ⟨key', value⟩ hmem
      have hsome := find?_eq_some_iff.2 hmem
      simpa using fun heq : key' = key => by
        subst heq
        rw [hfound] at hsome
        cases hsome
  | some value =>
      apply List.perm_singleton.1
      apply (List.perm_ext_iff_of_nodup (m.nodup.filter _) (List.nodup_singleton _)).2
      rintro ⟨key', value'⟩
      rw [List.mem_filter, ← find?_eq_some_iff, List.mem_singleton, decide_eq_true_iff,
        Prod.mk.injEq]
      constructor
      · rintro ⟨hsome, rfl⟩
        exact ⟨rfl, Option.some.inj (hsome.symm.trans hfound)⟩
      · rintro ⟨rfl, rfl⟩
        exact ⟨hfound, rfl⟩

@[simp] theorem ofList_toList (m : SortedMap κ β) : ofList m.toList = m :=
  ext_find? fun key => Option.ext fun value => by
    rw [find?_ofList_of_nodup (keys_nodup m), find?_eq_some_iff]

/-! ## Values that change -/

omit [LawfulEqOrd κ] [TransOrd κ] in
theorem mapWithKey_mapWithKey {δ : Type*} (f : κ → β → γ) (g : κ → γ → δ) (m : SortedMap κ β) :
    (m.mapWithKey f).mapWithKey g = m.mapWithKey fun key value => g key (f key value) := by
  apply ext
  simp only [mapWithKey, List.map_map]
  rfl

theorem mapWithKey_insert (f : κ → β → γ) (m : SortedMap κ β) (key : κ) (value : β) :
    (m.insert key value).mapWithKey f = (m.mapWithKey f).insert key (f key value) := by
  apply ext_find?
  intro other
  rw [find?_mapWithKey]
  by_cases h : other = key
  · rw [h, find?_insert_self, find?_insert_self, Option.map_some]
  · rw [find?_insert_of_ne h, find?_insert_of_ne h, find?_mapWithKey]

theorem mapWithKey_foldl_insert (f : κ → β → γ) (entries : List (κ × β)) (m : SortedMap κ β) :
    (entries.foldl (fun m entry => m.insert entry.1 entry.2) m).mapWithKey f =
      (entries.map fun entry => (entry.1, f entry.1 entry.2)).foldl
        (fun m entry => m.insert entry.1 entry.2) (m.mapWithKey f) := by
  induction entries generalizing m with
  | nil => rfl
  | cons entry entries ih => rw [List.foldl_cons, ih, mapWithKey_insert, List.map_cons,
      List.foldl_cons]

theorem mapWithKey_ofList (f : κ → β → γ) (entries : List (κ × β)) :
    (ofList entries).mapWithKey f =
      ofList (entries.map fun entry => (entry.1, f entry.1 entry.2)) :=
  mapWithKey_foldl_insert f entries empty

/-! ## Fallible traversals -/

section Traversal

variable {ε : Type*} {f : κ → β → Except ε γ} {g : κ → β → γ}

omit [TransOrd κ] [LawfulEqOrd κ] [Ord κ] in
theorem traverseEntries_of_ok {entries : List (κ × β)}
    (h : ∀ entry ∈ entries, f entry.1 entry.2 = .ok (g entry.1 entry.2)) :
    traverseEntries f entries = .ok (entries.map fun entry => (entry.1, g entry.1 entry.2)) := by
  induction entries with
  | nil => rfl
  | cons entry entries ih =>
      rw [traverseEntries, h entry (by simp)]
      simp [ih fun entry hentry => h entry (List.mem_cons_of_mem _ hentry)]

omit [TransOrd κ] [LawfulEqOrd κ] [Ord κ] in
theorem traverseEntries_eq_ok {entries : List (κ × β)} {result : List (κ × γ)}
    (h : traverseEntries f entries = .ok result)
    (hg : ∀ k v w, f k v = .ok w → w = g k v) :
    (∀ entry ∈ entries, f entry.1 entry.2 = .ok (g entry.1 entry.2)) ∧
      result = entries.map fun entry => (entry.1, g entry.1 entry.2) := by
  induction entries generalizing result with
  | nil => cases h; simp
  | cons entry entries ih =>
      rw [traverseEntries] at h
      split at h
      · cases h
      · next w hw =>
          obtain rfl := hg _ _ _ hw
          split at h
          · cases h
          · next ws hws =>
              obtain ⟨hentries, rfl⟩ := ih hws
              cases h
              exact ⟨List.forall_mem_cons.2 ⟨hw, hentries⟩, rfl⟩

theorem traverse_eq (m : SortedMap κ β) (f : κ → β → Except ε γ) :
    m.traverse f = (traverseEntries f m.toList).map ofList := by
  unfold traverse
  split
  · next heq => rw [heq]; rfl
  · next entries heq =>
      have hright : (traverseEntries f m.toList).map ofList = .ok (ofList entries) := by
        rw [heq]
        rfl
      rw [hright]
      exact congrArg Except.ok (ofList_toList _).symm

theorem ofList_mapWithKey (g : κ → β → γ) (m : SortedMap κ β) :
    ofList (m.toList.map fun entry => (entry.1, g entry.1 entry.2)) = m.mapWithKey g :=
  ofList_toList (m.mapWithKey g)

/-- A traversal that succeeds everywhere maps all values. -/
theorem traverse_of_ok {m : SortedMap κ β}
    (h : ∀ entry ∈ m.toList, f entry.1 entry.2 = .ok (g entry.1 entry.2)) :
    m.traverse f = .ok (m.mapWithKey g) := by
  rw [traverse_eq, traverseEntries_of_ok h, ← ofList_mapWithKey]
  rfl

/-- A traversal succeeds only if it does so everywhere. -/
theorem traverse_eq_ok {m : SortedMap κ β} {n : SortedMap κ γ} (h : m.traverse f = .ok n)
    (hg : ∀ k v w, f k v = .ok w → w = g k v) :
    (∀ entry ∈ m.toList, f entry.1 entry.2 = .ok (g entry.1 entry.2)) ∧ n = m.mapWithKey g := by
  rw [traverse_eq] at h
  cases hentries : traverseEntries f m.toList with
  | error fault => rw [hentries] at h; cases h
  | ok entries =>
      rw [hentries] at h
      cases h
      obtain ⟨hall, rfl⟩ := traverseEntries_eq_ok hentries hg
      exact ⟨hall, ofList_mapWithKey g m⟩

end Traversal

end SchemaLink.SortedMap
