import SchemaLink.Ids.History

/-! # Allocation of field ids

A declaration gets an id of its own. Each declaration of a system name takes the
next id on record for it, and a new one is minted when none is left. -/

namespace SchemaLink

/-- Hands out the id for a field of a type; `σ` is what the allocator remembers. -/
abbrev IdAllocator (σ : Type) := TypeRef → String → σ → String × σ

/-- The memory of an allocator that reuses the ids on record. -/
structure StableIds (μ : Type) where
  history : History
  /-- The fields that were given ids, the latest first. -/
  served : List (TypeRef × String)
  minter : μ

namespace StableIds

variable {μ : Type}

def start (history : History) (minter : μ) : StableIds μ := ⟨history, [], minter⟩

/-- The id on record for the next declaration of a field, or else a minted one. -/
def allocate (mint : μ → String × μ) : IdAllocator (StableIds μ) := fun type name state =>
  let served := (type, name) :: state.served
  match (state.history.ids type name)[state.served.count (type, name)]? with
  | some id => (id, { state with served := served })
  | none =>
    let (id, minter) := mint state.minter
    (id, { state with served := served, minter := minter })

end StableIds

/-- Allocate ids for requests, one after another. -/
def IdAllocator.run (ids : IdAllocator σ) : List (TypeRef × String) → σ → List String × σ
  | [], state => ([], state)
  | (type, name) :: requests, state =>
    let (id, state) := ids type name state
    let (rest, state) := run ids requests state
    (id :: rest, state)

end SchemaLink
