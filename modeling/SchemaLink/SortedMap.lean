/-! # Finite maps in key order

A map is the list of its entries in strictly ascending key order, so two maps
with the same entries are equal and every traversal meets the keys in order. -/

namespace SchemaLink

open Std

variable {κ : Type u} {β : Type v} {γ : Type w} [Ord κ]

namespace SortedMap

/-- Keys strictly ascend along the list. -/
abbrev Ascending (entries : List (κ × β)) : Prop :=
  entries.Pairwise fun a b => compare a.1 b.1 = .lt

/-- Put an entry at its place, replacing the one that has its key. -/
def insertEntry (key : κ) (value : β) : List (κ × β) → List (κ × β)
  | [] => [(key, value)]
  | (k, v) :: rest =>
    match compare key k with
    | .lt => (key, value) :: (k, v) :: rest
    | .eq => (key, value) :: rest
    | .gt => (k, v) :: insertEntry key value rest

def findAmong? (key : κ) : List (κ × β) → Option β
  | [] => none
  | (k, v) :: rest => if compare key k = .eq then some v else findAmong? key rest

theorem mem_insertEntry {key : κ} {value : β} {entry : κ × β} {entries : List (κ × β)}
    (h : entry ∈ insertEntry key value entries) : entry = (key, value) ∨ entry ∈ entries := by
  induction entries with
  | nil => simpa [insertEntry] using h
  | cons head rest ih =>
    rw [insertEntry] at h
    split at h <;> grind

theorem ascending_insertEntry [TransOrd κ] [LawfulEqOrd κ] (key : κ) (value : β)
    {entries : List (κ × β)} (h : Ascending entries) :
    Ascending (insertEntry key value entries) := by
  induction entries with
  | nil => simp [insertEntry]
  | cons head rest ih =>
    obtain ⟨hhead, hrest⟩ := List.pairwise_cons.1 h
    rw [insertEntry]
    split
    case h_1 hlt =>
      refine List.pairwise_cons.2 ⟨fun entry member => ?_, h⟩
      rcases List.mem_cons.1 member with rfl | member
      · exact hlt
      · exact TransCmp.lt_trans hlt (hhead entry member)
    case h_2 heq =>
      obtain rfl := LawfulEqCmp.eq_of_compare heq
      exact List.pairwise_cons.2 ⟨hhead, hrest⟩
    case h_3 hgt =>
      refine List.pairwise_cons.2 ⟨fun entry member => ?_, ih hrest⟩
      rcases mem_insertEntry member with rfl | member
      · exact OrientedCmp.lt_of_gt hgt
      · exact hhead entry member

/-- Apply a fallible function to the entries in order, stopping at the first failure. -/
def traverseEntries (f : κ → β → Except ε γ) : List (κ × β) → Except ε (List (κ × γ))
  | [] => .ok []
  | (k, v) :: rest =>
    match f k v with
    | .error e => .error e
    | .ok w =>
      match traverseEntries f rest with
      | .error e => .error e
      | .ok ws => .ok ((k, w) :: ws)

omit [Ord κ] in
theorem keys_traverseEntries {f : κ → β → Except ε γ} {entries : List (κ × β)}
    {result : List (κ × γ)} (h : traverseEntries f entries = .ok result) :
    result.map Prod.fst = entries.map Prod.fst := by
  induction entries generalizing result with
  | nil => cases h; rfl
  | cons head rest ih =>
    rw [traverseEntries] at h
    split at h
    · cases h
    · split at h
      · cases h
      · next ws hws => cases h; simp [ih hws]

theorem ascending_iff_keys {entries : List (κ × β)} :
    Ascending entries ↔ (entries.map Prod.fst).Pairwise fun a b => compare a b = .lt := by
  rw [List.pairwise_map]

end SortedMap

/-- A finite map whose entries stand in strictly ascending key order. -/
structure SortedMap (κ : Type u) (β : Type v) [Ord κ] where
  toList : List (κ × β)
  ascending : SortedMap.Ascending toList

namespace SortedMap

@[ext] theorem ext {m n : SortedMap κ β} (h : m.toList = n.toList) : m = n := by
  cases m; cases n; cases h; rfl

def empty : SortedMap κ β := ⟨[], .nil⟩

instance : EmptyCollection (SortedMap κ β) := ⟨empty⟩
instance : Inhabited (SortedMap κ β) := ⟨empty⟩

def find? (m : SortedMap κ β) (key : κ) : Option β := findAmong? key m.toList

def keys (m : SortedMap κ β) : List κ := m.toList.map Prod.fst

def values (m : SortedMap κ β) : List β := m.toList.map Prod.snd

def size (m : SortedMap κ β) : Nat := m.toList.length

def isEmpty (m : SortedMap κ β) : Bool := m.toList.isEmpty

/-- Leave out the binding of a key, if there is one. -/
def erase (m : SortedMap κ β) (key : κ) : SortedMap κ β :=
  ⟨m.toList.filter fun entry => compare entry.1 key != .eq, m.ascending.filter _⟩

def mapWithKey (f : κ → β → γ) (m : SortedMap κ β) : SortedMap κ γ :=
  ⟨m.toList.map fun entry => (entry.1, f entry.1 entry.2),
    List.pairwise_map.2 (m.ascending.imp id)⟩

def traverse (f : κ → β → Except ε γ) (m : SortedMap κ β) : Except ε (SortedMap κ γ) :=
  match h : traverseEntries f m.toList with
  | .error e => .error e
  | .ok entries => .ok ⟨entries, ascending_iff_keys.2 <| by
      rw [keys_traverseEntries h]; exact ascending_iff_keys.1 m.ascending⟩

variable [TransOrd κ] [LawfulEqOrd κ]

/-- Bind `key` to `value`, replacing an earlier binding. -/
def insert (m : SortedMap κ β) (key : κ) (value : β) : SortedMap κ β :=
  ⟨insertEntry key value m.toList, ascending_insertEntry key value m.ascending⟩

/-- The map of a list of entries, in which the last entry of a key counts. -/
def ofList (entries : List (κ × β)) : SortedMap κ β :=
  entries.foldl (fun m entry => m.insert entry.1 entry.2) empty

end SortedMap

end SchemaLink
