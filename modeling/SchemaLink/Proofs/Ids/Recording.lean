import SchemaLink.Ids.History
import SchemaLink.Proofs.Distinct
import SchemaLink.Proofs.SortedMap

/-! # What is on record

A field that is recorded changes the ids of its own type and name and no others.
Recording output once for each type puts every id on record under one name, and the
ids of a name in ascending order. -/

namespace SchemaLink

/-! ## Ids of a name -/

/-- The ids that bear a system name, in ascending order. -/
def idsNamed (names : SortedMap String String) (name : String) : List String :=
  (names.toList.filter fun field => field.2 == name).map Prod.fst

theorem mem_idsNamed {names : SortedMap String String} {name id : String} :
    id ∈ idsNamed names name ↔ names.find? id = some name := by
  rw [SortedMap.find?_eq_some_iff, idsNamed]
  constructor
  · intro h
    rcases List.mem_map.1 h with ⟨field, hfield, rfl⟩
    rcases List.mem_filter.1 hfield with ⟨hmem, hname⟩
    obtain rfl := beq_iff_eq.1 hname
    exact hmem
  · intro h
    exact List.mem_map.2 ⟨(id, name), List.mem_filter.2 ⟨h, by simp⟩, rfl⟩

theorem idsNamed_ascending (names : SortedMap String String) (name : String) :
    (idsNamed names name).Pairwise fun a b => compare a b = .lt :=
  List.pairwise_map.2 (names.ascending.filter _)

theorem idsNamed_nodup (names : SortedMap String String) (name : String) :
    (idsNamed names name).Nodup :=
  (idsNamed_ascending names name).imp SortedMap.ne_of_compare_lt

@[simp] theorem idsNamed_empty (name : String) : idsNamed ∅ name = [] := rfl

namespace History

variable (history : History) (type : TypeRef) (name id : String)

/-! ## Recording fields -/

@[simp] theorem ids_empty : empty.ids type name = [] := rfl

theorem ids_insert_self :
    (history.insert type name id).ids type name = insertNew (history.ids type name) id := by
  simp only [insert, ids, SortedMap.find?_insert_self, Option.bind_some, Option.getD_some]
  cases history.types.find? type <;> simp

variable {type name} in
theorem ids_insert_of_ne {type' : TypeRef} {name' : String} (h : (type', name') ≠ (type, name)) :
    (history.insert type name id).ids type' name' = history.ids type' name' := by
  by_cases htype : type' = type
  · subst htype
    have hname : name' ≠ name := fun heq => h (by rw [heq])
    simp only [insert, ids, SortedMap.find?_insert_self, Option.bind_some,
      SortedMap.find?_insert_of_ne hname]
    cases history.types.find? type' <;> simp
  · simp only [insert, ids, SortedMap.find?_insert_of_ne htype]

/-- Put an id on record for a field of a type. -/
def record (history : History) (entry : (TypeRef × String) × String) : History :=
  history.insert entry.1.1 entry.1.2 entry.2

/-- Of many ids that are recorded, a field gets its own, as far as they are new. -/
theorem ids_foldl_record (entries : List ((TypeRef × String) × String)) :
    (entries.foldl record history).ids type name = insertAll (history.ids type name)
      ((entries.filter fun entry => entry.1 == (type, name)).map Prod.snd) := by
  induction entries generalizing history with
  | nil => rfl
  | cons entry entries ih =>
      rw [List.foldl_cons, ih]
      by_cases h : entry.1 = (type, name)
      · obtain ⟨htype, hname⟩ := Prod.mk.inj h
        subst htype hname
        simp only [record, ids_insert_self, List.filter_cons, beq_self_eq_true, if_true,
          List.map_cons]
        rfl
      · rw [record, ids_insert_of_ne _ _ (Ne.symm h), List.filter_cons_of_neg (by simpa using h)]

/-! ## Recording output -/

/-- The ids in output of a type with their fields, in ascending order. -/
def entriesOf (type : TypeRef) (names : SortedMap String String) :
    List ((TypeRef × String) × String) :=
  names.toList.map fun field => ((type, field.2), field.1)

theorem absorb_eq_foldl (names : SortedMap String String) :
    history.absorb type names = (entriesOf type names).foldl record history := by
  rw [entriesOf, List.foldl_map]
  rfl

theorem ids_absorb (names : SortedMap String String) :
    (history.absorb type names).ids type name =
      insertAll (history.ids type name) (idsNamed names name) := by
  have hentries : ((entriesOf type names).filter fun entry => entry.1 == (type, name)).map
      Prod.snd = idsNamed names name := by
    rw [entriesOf, List.filter_map, List.map_map, idsNamed]
    refine congrArg (List.map Prod.fst) (List.filter_congr fun field _ => ?_)
    exact Bool.eq_iff_iff.2 (by simp)
  rw [absorb_eq_foldl, ids_foldl_record, hentries]

variable {type} in
theorem ids_absorb_of_ne {type' : TypeRef} (h : type' ≠ type) (names : SortedMap String String) :
    (history.absorb type names).ids type' name = history.ids type' name := by
  have hentries : ((entriesOf type names).filter fun entry => entry.1 == (type', name)) = [] := by
    simp [entriesOf, List.filter_map, Function.comp_def, h.symm]
  rw [absorb_eq_foldl, ids_foldl_record, hentries]
  rfl

/-- Output that is the first of its type leaves all its ids on record. -/
theorem ids_absorb_first (names : SortedMap String String) (h : history.ids type name = []) :
    (history.absorb type names).ids type name = idsNamed names name := by
  rw [ids_absorb, h]
  exact distinct_of_nodup (idsNamed_nodup names name)

/-! ## Recording the output of many types -/

/-- Record the fields in a text of output. A text that cannot be read leaves no trace. -/
def recordText (history : History) (output : TypeRef × String) : History :=
  match history.absorbText output.1 output.2 with
  | .error _ => history
  | .ok (_, history) => history

/-- The ids in some texts of output, each with the type it is output of. -/
def ofOutputs (outputs : List (TypeRef × String)) : History := outputs.foldl recordText empty

/-- The system names by id in the text of a type, if there is one and it can be read. -/
def outputNames (outputs : List (TypeRef × String)) (type : TypeRef) : SortedMap String String :=
  ((outputs.lookup type).bind fun text => (readOutput text).toOption).getD ∅

theorem recordText_eq (output : TypeRef × String) :
    history.recordText output =
      history.absorb output.1 ((readOutput output.2).toOption.getD ∅) := by
  rw [recordText, absorbText]
  cases readOutput output.2 <;> rfl

theorem ids_foldl_recordText {outputs : List (TypeRef × String)} (h : (outputs.map Prod.fst).Nodup)
    (hfirst : type ∈ outputs.map Prod.fst → ∀ name, history.ids type name = []) :
    (outputs.foldl recordText history).ids type name =
      if type ∈ outputs.map Prod.fst then idsNamed (outputNames outputs type) name
      else history.ids type name := by
  induction outputs generalizing history with
  | nil => rfl
  | cons output outputs ih =>
      rcases List.nodup_cons.1 h with ⟨hhead, hrest⟩
      rw [List.foldl_cons, recordText_eq]
      by_cases htype : type = output.1
      · subst htype
        have hnames : outputNames (output :: outputs) output.1 =
            (readOutput output.2).toOption.getD ∅ := by
          have hlookup : (output :: outputs).lookup output.1 = some output.2 :=
            List.lookup_cons_self
          rw [outputNames, hlookup, Option.bind_some]
        rw [ih _ hrest fun hmem => absurd hmem hhead, if_neg hhead, if_pos (by simp), hnames]
        exact ids_absorb_first _ _ _ _ (hfirst (by simp) name)
      · have hnames : outputNames (output :: outputs) type = outputNames outputs type := by
          have hlookup : (output :: outputs).lookup type = outputs.lookup type := by
            change ((output.1, output.2) :: outputs).lookup type = _
            rw [List.lookup_cons, beq_false_of_ne htype]
          rw [outputNames, hlookup, outputNames]
        have hmem : type ∈ (output :: outputs).map Prod.fst ↔ type ∈ outputs.map Prod.fst := by
          simp [htype]
        rw [ih _ hrest ?_, hnames]
        · simp only [hmem, ids_absorb_of_ne _ _ htype]
        · intro hlater name
          rw [ids_absorb_of_ne _ _ htype]
          exact hfirst (hmem.2 hlater) name

/-- With one text for each type at most, what is on record for a type is what its text says. -/
theorem ids_ofOutputs {outputs : List (TypeRef × String)} (h : (outputs.map Prod.fst).Nodup) :
    (ofOutputs outputs).ids type name = idsNamed (outputNames outputs type) name := by
  rw [ofOutputs, ids_foldl_recordText empty type name h fun _ _ => rfl]
  split
  · rfl
  · next hmem =>
      have hlookup : outputs.lookup type = none := by
        apply List.lookup_eq_none_iff.2
        intro output houtput
        simpa using fun heq : type = output.1 => hmem (heq ▸ List.mem_map_of_mem houtput)
      simp [outputNames, hlookup]

theorem exists_output_of_find?_outputNames {outputs : List (TypeRef × String)} {type : TypeRef}
    {id name : String} (h : (outputNames outputs type).find? id = some name) :
    ∃ text names, (type, text) ∈ outputs ∧ readOutput text = .ok names ∧
      names.find? id = some name := by
  unfold outputNames at h
  cases hlookup : outputs.lookup type with
  | none =>
      rw [hlookup] at h
      cases h
  | some text =>
      rw [hlookup, Option.bind_some] at h
      obtain ⟨before, after, rfl, -⟩ := List.lookup_eq_some_iff.1 hlookup
      cases hread : readOutput text with
      | error fault =>
          rw [hread] at h
          cases h
      | ok names =>
          rw [hread] at h
          exact ⟨text, names, by simp, hread, h⟩

/-! ## Ids under one name -/

/-- No id is on record twice for a type. -/
structure Exclusive (history : History) : Prop where
  nodup : ∀ type name, (history.ids type name).Nodup
  name_eq : ∀ {type name name' id}, id ∈ history.ids type name → id ∈ history.ids type name' →
    name = name'

/-- Every id that is on record. -/
def Holds (history : History) (id : String) : Prop := ∃ type name, id ∈ history.ids type name

variable {history type name id} in
theorem Holds.of_insert {other : String} (h : (history.insert type name id).Holds other) :
    history.Holds other ∨ other = id := by
  rcases h with ⟨type', name', hmem⟩
  by_cases hkey : (type', name') = (type, name)
  · rcases Prod.mk.inj hkey with ⟨rfl, rfl⟩
    rw [ids_insert_self, mem_insertNew] at hmem
    exact hmem.imp_left fun hmem => ⟨type', name', hmem⟩
  · rw [ids_insert_of_ne _ _ hkey] at hmem
    exact .inl ⟨type', name', hmem⟩

theorem not_holds_empty : ¬ empty.Holds id := by
  intro hfound
  rcases hfound with ⟨type, name, hmem⟩
  simp at hmem

theorem exclusive_ofOutputs {outputs : List (TypeRef × String)}
    (h : (outputs.map Prod.fst).Nodup) : (ofOutputs outputs).Exclusive where
  nodup type name := by
    rw [ids_ofOutputs _ _ h]
    exact idsNamed_nodup _ _
  name_eq {type name name' id} hname hname' := by
    rw [ids_ofOutputs _ _ h, mem_idsNamed] at hname hname'
    exact Option.some.inj (hname.symm.trans hname')

end History

end SchemaLink
