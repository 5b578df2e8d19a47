import Mathlib.Data.List.Zip
import SchemaLink.Proofs.Compilation.Fields

/-! # Ids given in a compilation

With stable ids a compilation gives the declarations of a name the ids on record for it
and then minted ones. Within a type all ids differ, so every declaration keeps a field
of its own, and the ids of a name in the output are those that were given. -/

namespace SchemaLink

/-! ## Fields under their ids -/

section Compiled

variable {data : DataSection} {given : List String}

theorem DataSection.find?_compiled (hnodup : given.Nodup)
    (hlength : given.length = data.fields.length) {id : String} {field : FieldDeclaration} :
    (data.compiled given).fields.find? id = some field ↔ (id, field) ∈ given.zip data.fields := by
  rw [compiled, SortedMap.find?_ofList_of_nodup]
  rwa [List.map_fst_zip (Nat.le_of_eq hlength)]

/-- Where no id is given twice, all declarations have fields, and there are no others. -/
theorem DataSection.toList_compiled_perm (hnodup : given.Nodup)
    (hlength : given.length = data.fields.length) :
    (data.compiled given).fields.toList.Perm (given.zip data.fields) := by
  refine SortedMap.toList_ofList_perm ?_
  rwa [List.map_fst_zip (Nat.le_of_eq hlength)]

/-- The ids of a name, in the order of its declarations, as they stand beside the fields. -/
theorem idsOfName_eq_of_systemNames {fields others : List FieldDeclaration} (name : String)
    (h : others.map FieldDeclaration.systemName = fields.map FieldDeclaration.systemName) :
    idsOfName name others given = idsOfName name fields given := by
  have hnames : ∀ fields : List FieldDeclaration, idsOfName name fields given =
      (((fields.map FieldDeclaration.systemName).zip given).filter fun entry =>
        entry.1 = name).map Prod.snd := by
    intro fields
    rw [idsOfName, List.zip_map_left, List.filter_map, List.map_map]
    rfl
  rw [hnames, hnames, h]

/-- Output has for every name the ids of its declarations, in ascending order. -/
theorem DataSection.idsNamed_perm (hnodup : given.Nodup)
    (hlength : given.length = data.fields.length) (name : String) :
    (idsNamed ((data.compiled given).fields.mapWithKey fun _ field => field.systemName) name).Perm
      (idsOfName name data.fields given) := by
  have hgiven : idsOfName name data.fields given =
      ((given.zip data.fields).filter fun entry => entry.2.systemName = name).map Prod.fst := by
    rw [idsOfName, ← List.zip_swap given data.fields, List.filter_map, List.map_map]
    rfl
  have houtput : idsNamed ((data.compiled given).fields.mapWithKey
      fun _ field => field.systemName) name =
      ((data.compiled given).fields.toList.filter fun entry => entry.2.systemName = name).map
        Prod.fst := by
    rw [idsNamed, SortedMap.mapWithKey, List.filter_map, List.map_map]
    apply congrArg
    apply List.filter_congr
    intro entry _
    simp [BEq.beq]
  rw [hgiven, houtput]
  exact ((toList_compiled_perm hnodup hlength).filter _).map _

end Compiled

/-! ## Stable ids -/

section Stable

variable {μ : Type} {mint : μ → String × μ} {history : History} {minter : μ}
  {documents : AuthoredTypes} {owner : TypeRef} {doc : TypeDocument}

theorem IdAllocator.length_given {σ : Type} (ids : IdAllocator σ) (state : σ)
    (hdoc : documents.find? owner = some doc) :
    (ids.given documents state owner).length = doc.declared.length :=
  length_givenTo (SortedMap.find?_eq_some_iff.1 hdoc) documents.keys_nodup (ids.length_run _ _)

theorem IdAllocator.idsOfName_given {σ : Type} (ids : IdAllocator σ) (state : σ)
    (hdoc : documents.find? owner = some doc) (name : String) :
    idsOfName name doc.declared (ids.given documents state owner) =
      idsFor (owner, name) (requests documents.toList)
        (ids.run (requests documents.toList) state).1 :=
  idsOfName_givenTo (SortedMap.find?_eq_some_iff.1 hdoc) documents.keys_nodup
    (ids.length_run _ _) name

/-- Within a type all ids differ. -/
theorem nodup_given (hexclusive : history.Exclusive) (hfresh : Fresh mint history.Holds minter)
    (documents : AuthoredTypes) (owner : TypeRef) :
    ((StableIds.allocate mint).given documents (.start history minter) owner).Nodup := by
  have hpairs := StableIds.run_pairwise_ne [] hexclusive (requests documents.toList)
    hfresh
  rw [IdAllocator.given, givenTo, List.Nodup, List.pairwise_map, List.pairwise_filter]
  apply hpairs.imp
  intro a b hne ha hb
  exact hne ((of_decide_eq_true ha).trans (of_decide_eq_true hb).symm)

variable (mint history minter) in
/-- The declarations of a name are given the ids on record for it and then minted ones. -/
theorem idsOfName_stable (hdoc : documents.find? owner = some doc) (name : String) :
    ∃ count minted, minted.Sublist (drawn mint count minter) ∧
      minted.length =
        doc.declared.countP (fun field => field.systemName = name) -
          (history.ids owner name).length ∧
      idsOfName name doc.declared
          ((StableIds.allocate mint).given documents (.start history minter) owner) =
        (history.ids owner name).take
          (doc.declared.countP fun field => field.systemName = name) ++ minted := by
  obtain ⟨count, -, hids⟩ :=
    StableIds.run_allocate mint history [] (requests documents.toList) minter
  obtain ⟨minted, hsub, hlength, hgiven⟩ := hids (owner, name)
  have hcount := count_requests (SortedMap.find?_eq_some_iff.1 hdoc) documents.keys_nodup name
  rw [hcount, History.left_nil] at hlength hgiven
  exact ⟨count, minted, hsub, hlength, (IdAllocator.idsOfName_given _ _ hdoc name).trans hgiven⟩

end Stable

end SchemaLink
