import SchemaLink.Document.Basic
import SchemaLink.Json.Printer

/-! # Writing documents

Modelled keys come first, in a fixed order, and the extra ones follow in key
order. A member that is missing is not written. -/

namespace SchemaLink

/-- The members of an object that has one key or none. -/
def member? (key : String) (value : Option α) (toJson : α → Json) : List (String × Json) :=
  match value with
  | none => []
  | some a => [(key, toJson a)]

def stringsJson (texts : List String) : Json := .list (texts.map .string)

def mapJson (toJson : β → Json) (map : SortedMap String β) : Json :=
  .object (map.toList.map fun (key, value) => (key, toJson value))

def permissionsJson (permissions : Permissions) : Json := mapJson stringsJson permissions

def FieldDeclaration.toJson (field : FieldDeclaration) : Json :=
  .object <| [("system_name", .string field.systemName)] ++
    member? "type" field.valueType .string ++
    member? "permissions" field.permissions permissionsJson ++ field.extra.toList

def DataSection.toJson (data : DataSection) : Json :=
  .object [("fields", .list (data.fields.map FieldDeclaration.toJson)),
    ("permissions", permissionsJson data.permissions)]

def CompiledData.toJson (data : CompiledData) : Json :=
  .object [("fields", mapJson FieldDeclaration.toJson data.fields),
    ("permissions", permissionsJson data.permissions)]

def PanelField.toJson (item : PanelField) : Json :=
  .object <| [("field", .string item.field)] ++
    member? "show_condition" item.showCondition .string ++ item.extra.toList

def Panel.toJson (panel : Panel) : Json :=
  .object <| member? "label" panel.label .string ++
    member? "fields" panel.fields (fun fields => .list (fields.map PanelField.toJson)) ++
    panel.extra.toList

def layoutJson (layout : List Panel) : Json := .list (layout.map Panel.toJson)

def DisplaySection.toJson (display : DisplaySection) : Json :=
  .object <| member? "title" display.title .string ++
    member? "layout" display.layout layoutJson ++ display.extra.toList

def EditSection.toJson (edit : EditSection) : Json :=
  .object <| member? "layout" edit.layout layoutJson ++ edit.extra.toList

def SearchField.toJson (field : SearchField) : Json :=
  .object <| [("type", .string field.valueType)] ++
    member? "base" field.base .string ++
    member? "parts" field.parts (mapJson .string) ++
    member? "start" field.start .string ++
    member? "end" field.finish .string ++
    member? "selector_value" field.selector .string ++
    member? "filter" field.filter .string ++ field.extra.toList

def SearchSection.toJson (search : SearchSection) : Json :=
  .object <| member? "fields" search.fields (fun fields => .list (fields.map SearchField.toJson)) ++
    member? "permissions" search.permissions permissionsJson ++ search.extra.toList

def TypeDocument.toJson (doc : TypeDocument) : Json :=
  .object <| member? "detail" doc.detail id ++ member? "source" doc.source id ++
    member? "data" doc.data DataSection.toJson ++
    member? "display" doc.display DisplaySection.toJson ++
    member? "edit" doc.edit EditSection.toJson ++
    member? "es_data" doc.search SearchSection.toJson ++
    member? "es_display" doc.searchDisplay id ++
    member? "domain" doc.domain stringsJson ++ member? "range" doc.range stringsJson

def CompiledDocument.toJson (doc : CompiledDocument) : Json :=
  .object <| member? "detail" doc.detail id ++ member? "source" doc.source id ++
    member? "data" doc.data CompiledData.toJson ++
    member? "display" doc.display DisplaySection.toJson ++
    member? "edit" doc.edit EditSection.toJson ++
    member? "es_data" doc.search SearchSection.toJson ++
    member? "es_display" doc.searchDisplay id

/-- The document in one line. -/
def TypeDocument.text (doc : TypeDocument) : String := doc.toJson.compactText

/-- The document as it is stored, each level indented by a number of blanks. -/
def CompiledDocument.text (doc : CompiledDocument) (indent : Nat) : String :=
  doc.toJson.indentedText indent

end SchemaLink
