import SchemaLink.Document.Writer
import SchemaLink.Ids.History
import SchemaLink.Proofs.Json.Members

/-! # Reading compiled output back

From the text of a compiled document the system name of every field is read, under
the id of the field. Nothing can go wrong with it unless a field keeps another
system name among its extra keys. -/

namespace SchemaLink

open Json (Fault Member Record Reader)

/-! ## Fields -/

/-- The system name in a written field, if there is only one. -/
def FieldDeclaration.writtenName (field : FieldDeclaration) : Except Fault String :=
  if (field.extra.find? "system_name").isSome then .error .misshapen else .ok field.systemName

theorem FieldDeclaration.writtenName_eq_ok_iff {field : FieldDeclaration} :
    field.writtenName = .ok field.systemName ↔ field.extra.find? "system_name" = none := by
  unfold writtenName
  cases field.extra.find? "system_name" <;> simp

theorem FieldDeclaration.writtenName_eq_ok {field : FieldDeclaration} {name : String}
    (h : field.writtenName = .ok name) : name = field.systemName := by
  unfold writtenName at h
  split at h
  · cases h
  · exact (Except.ok.inj h).symm

/-- The members of a written field after its system name. -/
def FieldDeclaration.otherMembers (field : FieldDeclaration) : List (String × Json) :=
  member? "type" field.valueType .string ++
    member? "permissions" field.permissions permissionsJson ++ field.extra.toList

theorem FieldDeclaration.mem_otherMembers (field : FieldDeclaration) :
    "system_name" ∈ field.otherMembers.map Prod.fst ↔
      (field.extra.find? "system_name").isSome := by
  rw [SortedMap.find?_isSome_iff, SortedMap.keys, otherMembers]
  cases field.valueType <;> cases field.permissions <;> simp [member?]

theorem recordedFieldForm_read (depth : Nat) (field : FieldDeclaration)
    (rest : List Json.Token) :
    recordedFieldForm.read (depth + 1) (field.toJson.tokens ++ rest) =
      field.writtenName.map fun name => (name, rest) := by
  have hjson : field.toJson =
      .object (("system_name", .string field.systemName) :: field.otherMembers) := by
    simp [FieldDeclaration.toJson, FieldDeclaration.otherMembers]
  have hmembers : recordedFieldForm.members =
      [.of "system_name" .required (fun _ => Reader.string) fun _ name => name] := rfl
  rw [hjson, FieldDeclaration.writtenName]
  by_cases hextra : (field.extra.find? "system_name").isSome
  · rw [if_pos hextra]
    refine Record.read_object_again
      (fun _ value => (Reader.string value.tokens).map Prod.fst) hmembers rfl depth
      field.otherMembers (.string field.systemName) (fun value record rest => ?_) rfl
      (field.mem_otherMembers.2 hextra) rest
    simp only [Member.of, Reader.map, Reader.string_tokens]
    cases (Reader.string value.tokens).map Prod.fst <;> rfl
  · rw [if_neg hextra]
    exact Record.read_object_once hmembers rfl depth [] field.otherMembers
      (.string field.systemName) (fun _ => .ok field.systemName) (by simp)
      (mt field.mem_otherMembers.1 hextra) (fun _ _ => rfl) rest

/-! ## Data sections -/

/-- The system names in a written data section by id, if all fields have only one. -/
def CompiledData.writtenNames (data : CompiledData) : Except Fault (SortedMap String String) :=
  data.fields.traverse fun _ field => field.writtenName

theorem recordedDataForm_read (depth : Nat) (data : CompiledData) (rest : List Json.Token) :
    recordedDataForm.read (depth + 3) (data.toJson.tokens ++ rest) =
      data.writtenNames.map fun names => (names, rest) := by
  have hmembers : recordedDataForm.members = [.of "fields" .defaulted
      (Reader.dict recordedFieldForm.read) fun _ fields => fields] := rfl
  refine Record.read_object_once hmembers rfl (depth + 2) []
    [("permissions", permissionsJson data.permissions)]
    (mapJson FieldDeclaration.toJson data.fields) (fun _ => data.writtenNames) (by simp)
    (by simp [Member.of]) (fun _ rest => ?_) rest
  have hfields : Reader.dict recordedFieldForm.read (depth + 2)
      ((mapJson FieldDeclaration.toJson data.fields).tokens ++ rest) =
        data.writtenNames.map fun names => (names, rest) :=
    Reader.dict_tokens (depth + 1) data.fields rest
      fun entry _ => recordedFieldForm_read depth entry.2
  simp only [Member.of, Reader.map, hfields]
  cases data.writtenNames <;> rfl

/-! ## Documents -/

namespace CompiledDocument

/-- The system names in a written document by id, if all fields have only one. -/
def writtenNames (doc : CompiledDocument) : Except Fault (SortedMap String String) :=
  match doc.data with
  | none => .ok ∅
  | some data => data.writtenNames

/-- The system name of every field by its id. -/
def systemNames (doc : CompiledDocument) : SortedMap String String :=
  match doc.data with
  | none => ∅
  | some data => data.fields.mapWithKey fun _ field => field.systemName

/-- The members of a written document before its data section. -/
def membersBefore (doc : CompiledDocument) : List (String × Json) :=
  member? "detail" doc.detail id ++ member? "source" doc.source id

/-- The members of a written document after its data section. -/
def membersAfter (doc : CompiledDocument) : List (String × Json) :=
  member? "display" doc.display DisplaySection.toJson ++
    member? "edit" doc.edit EditSection.toJson ++
    member? "es_data" doc.search SearchSection.toJson ++ member? "es_display" doc.searchDisplay id

theorem toJson_eq (doc : CompiledDocument) :
    doc.toJson = .object (doc.membersBefore ++ (member? "data" doc.data CompiledData.toJson ++
      doc.membersAfter)) := by
  simp [toJson, membersBefore, membersAfter]

theorem data_notMem_membersBefore (doc : CompiledDocument) :
    "data" ∉ doc.membersBefore.map Prod.fst := by
  unfold membersBefore
  cases doc.detail <;> cases doc.source <;> simp [member?]

theorem data_notMem_membersAfter (doc : CompiledDocument) :
    "data" ∉ doc.membersAfter.map Prod.fst := by
  unfold membersAfter
  cases doc.display <;> cases doc.edit <;> cases doc.search <;> cases doc.searchDisplay <;>
    simp [member?]

theorem recordedDocumentForm_read (depth : Nat) (doc : CompiledDocument) (rest : List Json.Token) :
    recordedDocumentForm.read (depth + 4) (doc.toJson.tokens ++ rest) =
      doc.writtenNames.map fun names => (doc.data.map fun _ => names, rest) := by
  have hmembers : recordedDocumentForm.members = [.of "data" .optional
      (fun depth => (recordedDataForm.read depth).nullable) fun _ data => data] := rfl
  rw [toJson_eq, writtenNames]
  cases doc.data with
  | none =>
      refine Record.read_object_absent hmembers rfl (by simp [Member.of]) (depth + 3) ?_ rest
      rw [List.map_append, List.mem_append, not_or]
      exact ⟨doc.data_notMem_membersBefore, doc.data_notMem_membersAfter⟩
  | some data =>
      refine (Record.read_object_once hmembers rfl (depth + 3) doc.membersBefore doc.membersAfter
        data.toJson (fun _ => data.writtenNames.map some) doc.data_notMem_membersBefore
        doc.data_notMem_membersAfter (fun _ rest => ?_) rest).trans ?_
      · have hnullable : (recordedDataForm.read (depth + 3)).nullable (data.toJson.tokens ++ rest) =
            (recordedDataForm.read (depth + 3)).map some (data.toJson.tokens ++ rest) := rfl
        simp only [Member.of, Reader.map, hnullable, recordedDataForm_read]
        cases data.writtenNames <;> rfl
      · dsimp only
        cases data.writtenNames <;> rfl

/-- The text of a compiled document reads as the system names of its fields. -/
theorem readOutput_text (doc : CompiledDocument) (indent : Nat) :
    History.readOutput (doc.text indent) = doc.writtenNames := by
  have hread := recordedDocumentForm_read 123 doc []
  rw [List.append_nil] at hread
  have hscan : Json.scan (doc.text indent).toList = doc.toJson.tokens :=
    Json.scan_render (Json.Style.plain_indented indent) doc.toJson
  rw [History.readOutput, Record.parse, Reader.run, hscan, Json.depthLimit, hread, writtenNames]
  cases doc.data with
  | none => rfl
  | some data =>
      dsimp only
      cases data.writtenNames <;> rfl

/-- No field keeps a system name of its own among its extra keys. -/
def NamesOnce (doc : CompiledDocument) : Prop :=
  ∀ data, doc.data = some data → ∀ field ∈ data.fields.values,
    field.extra.find? "system_name" = none

theorem writtenNames_eq_ok {doc : CompiledDocument} {names : SortedMap String String}
    (h : doc.writtenNames = .ok names) : doc.NamesOnce ∧ names = doc.systemNames := by
  unfold writtenNames at h
  unfold NamesOnce systemNames
  cases hdata : doc.data with
  | none =>
      rw [hdata] at h
      cases h
      exact ⟨by simp, rfl⟩
  | some data =>
      rw [hdata] at h
      obtain ⟨hfields, rfl⟩ := SortedMap.traverse_eq_ok h
        (g := fun _ (field : FieldDeclaration) => field.systemName)
        fun _ _ _ => FieldDeclaration.writtenName_eq_ok
      refine ⟨?_, rfl⟩
      rintro _ ⟨⟩ field hfield
      rcases List.mem_map.1 hfield with ⟨entry, hentry, rfl⟩
      exact FieldDeclaration.writtenName_eq_ok_iff.1 (hfields entry hentry)

theorem writtenNames_of_namesOnce {doc : CompiledDocument} (h : doc.NamesOnce) :
    doc.writtenNames = .ok doc.systemNames := by
  unfold writtenNames systemNames
  cases hdata : doc.data with
  | none => rfl
  | some data =>
      apply SortedMap.traverse_of_ok
      intro entry hentry
      exact FieldDeclaration.writtenName_eq_ok_iff.2 (h data hdata _ (List.mem_map_of_mem hentry))

/-- The text of a compiled document is read back just if no field is named twice. -/
theorem readOutput_text_eq_ok_iff {doc : CompiledDocument} {indent : Nat}
    {names : SortedMap String String} :
    History.readOutput (doc.text indent) = .ok names ↔ doc.NamesOnce ∧ names = doc.systemNames := by
  rw [readOutput_text]
  constructor
  · exact writtenNames_eq_ok
  · intro hfound
    rcases hfound with ⟨h, rfl⟩
    exact writtenNames_of_namesOnce h

end CompiledDocument

end SchemaLink
