import SchemaLink.Document.Writer
import SchemaLink.Proofs.Json.Restoring

/-! # Numbers in documents

A document has no numbers of its own. All that are written of it stand in the values that it
holds as they are and in the extra members of its sections. -/

namespace SchemaLink

/-! ## Members -/

/-- All numbers in the members of an object are whole. -/
def WholeMembers (members : List (String × Json)) : Prop := ∀ member ∈ members, member.2.Whole

section Members

variable {α : Type} {toJson : α → Json} {members others : List (String × Json)}

@[simp]
theorem whole_object : (Json.object members).Whole ↔ WholeMembers members := Json.whole_object

@[simp]
theorem whole_string (text : String) : (Json.string text).Whole := nofun

@[simp]
theorem whole_items {items : List α} :
    (Json.list (items.map toJson)).Whole ↔ ∀ a ∈ items, (toJson a).Whole := by
  rw [Json.whole_list, List.forall_mem_map]

@[simp]
theorem wholeMembers_nil : WholeMembers [] := nofun

@[simp]
theorem wholeMembers_cons {key : String} {value : Json} :
    WholeMembers ((key, value) :: members) ↔ value.Whole ∧ WholeMembers members :=
  List.forall_mem_cons

@[simp]
theorem wholeMembers_append :
    WholeMembers (members ++ others) ↔ WholeMembers members ∧ WholeMembers others :=
  List.forall_mem_append

@[simp]
theorem wholeMembers_member? {key : String} {value : Option α} :
    WholeMembers (member? key value toJson) ↔ ∀ a ∈ value, (toJson a).Whole := by
  cases value <;> simp [member?]

@[simp]
theorem whole_mapJson {map : SortedMap String α} :
    (mapJson toJson map).Whole ↔ ∀ entry ∈ map.toList, (toJson entry.2).Whole := by
  rw [mapJson, Json.whole_object, List.forall_mem_map]

end Members

@[simp]
theorem whole_stringsJson (texts : List String) : (stringsJson texts).Whole := by
  simp [stringsJson]

@[simp]
theorem whole_permissionsJson (permissions : Permissions) :
    (permissionsJson permissions).Whole := by
  simp [permissionsJson]

/-! ## Sections -/

theorem FieldDeclaration.whole_toJson {field : FieldDeclaration} :
    field.toJson.Whole ↔ WholeMembers field.extra.toList := by
  simp [toJson]

theorem DataSection.whole_toJson {data : DataSection} :
    data.toJson.Whole ↔ ∀ field ∈ data.fields, field.toJson.Whole := by
  simp [toJson]

theorem CompiledData.whole_toJson {data : CompiledData} :
    data.toJson.Whole ↔ ∀ entry ∈ data.fields.toList, entry.2.toJson.Whole := by
  simp [toJson]

theorem PanelField.whole_toJson {item : PanelField} :
    item.toJson.Whole ↔ WholeMembers item.extra.toList := by
  simp [toJson]

theorem Panel.whole_toJson {panel : Panel} :
    panel.toJson.Whole ↔ (∀ fields ∈ panel.fields, ∀ item ∈ fields, item.toJson.Whole) ∧
      WholeMembers panel.extra.toList := by
  simp [toJson]

theorem DisplaySection.whole_toJson {display : DisplaySection} :
    display.toJson.Whole ↔ (∀ layout ∈ display.layout, ∀ panel ∈ layout, panel.toJson.Whole) ∧
      WholeMembers display.extra.toList := by
  simp [toJson, layoutJson]

theorem EditSection.whole_toJson {edit : EditSection} :
    edit.toJson.Whole ↔ (∀ layout ∈ edit.layout, ∀ panel ∈ layout, panel.toJson.Whole) ∧
      WholeMembers edit.extra.toList := by
  simp [toJson, layoutJson]

theorem SearchField.whole_toJson {field : SearchField} :
    field.toJson.Whole ↔ WholeMembers field.extra.toList := by
  simp [toJson]

theorem SearchSection.whole_toJson {search : SearchSection} :
    search.toJson.Whole ↔ (∀ fields ∈ search.fields, ∀ field ∈ fields, field.toJson.Whole) ∧
      WholeMembers search.extra.toList := by
  simp [toJson]

/-! ## Documents -/

theorem TypeDocument.whole_toJson {doc : TypeDocument} : doc.toJson.Whole ↔
    (∀ value ∈ doc.detail, value.Whole) ∧ (∀ value ∈ doc.source, value.Whole) ∧
      (∀ data ∈ doc.data, data.toJson.Whole) ∧ (∀ display ∈ doc.display, display.toJson.Whole) ∧
      (∀ edit ∈ doc.edit, edit.toJson.Whole) ∧ (∀ search ∈ doc.search, search.toJson.Whole) ∧
      ∀ value ∈ doc.searchDisplay, value.Whole := by
  simp [toJson]

theorem CompiledDocument.whole_toJson {doc : CompiledDocument} : doc.toJson.Whole ↔
    (∀ value ∈ doc.detail, value.Whole) ∧ (∀ value ∈ doc.source, value.Whole) ∧
      (∀ data ∈ doc.data, data.toJson.Whole) ∧ (∀ display ∈ doc.display, display.toJson.Whole) ∧
      (∀ edit ∈ doc.edit, edit.toJson.Whole) ∧ (∀ search ∈ doc.search, search.toJson.Whole) ∧
      ∀ value ∈ doc.searchDisplay, value.Whole := by
  simp [toJson]

end SchemaLink
