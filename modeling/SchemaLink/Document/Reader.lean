import SchemaLink.Document.Basic
import SchemaLink.Json.Record

/-! # Reading documents

Sections with extra keys are open records, and all others are closed ones. -/

namespace SchemaLink

open Json (Record Member Reader)

/-- A list of strings. -/
def readStrings (depth : Nat) : Reader (List String) := Reader.list (fun _ => Reader.string) depth

def readPermissions (depth : Nat) : Reader Permissions := Reader.dict readStrings depth

/-- A member that may be missing or null. -/
def maybe (key : String) (reader : Nat → Reader β) (store : α → Option β → α) : Member α :=
  .of key .defaulted (fun depth => (reader depth).nullable) store

def FieldDeclaration.form : Record FieldDeclaration where
  members := [
    .of "system_name" .required (fun _ => Reader.string)
      fun field name => { field with systemName := name },
    maybe "type" (fun _ => Reader.string) fun field type => { field with valueType := type },
    maybe "permissions" readPermissions
      fun field permissions => { field with permissions := permissions }]
  blank := { systemName := "" }
  keep := some fun field key value => { field with extra := field.extra.insert key value }

def DataSection.form : Record DataSection where
  members := [
    .of "fields" .defaulted (Reader.list FieldDeclaration.form.read)
      fun data fields => { data with fields := fields },
    .of "permissions" .defaulted readPermissions
      fun data permissions => { data with permissions := permissions }]
  blank := {}

def CompiledData.form : Record CompiledData where
  members := [
    .of "fields" .required (Reader.dict FieldDeclaration.form.read)
      fun data fields => { data with fields := fields },
    .of "permissions" .required readPermissions
      fun data permissions => { data with permissions := permissions }]
  blank := {}

def PanelField.form : Record PanelField where
  members := [
    .of "field" .required (fun _ => Reader.string) fun item field => { item with field := field },
    maybe "show_condition" (fun _ => Reader.string)
      fun item condition => { item with showCondition := condition }]
  blank := { field := "" }
  keep := some fun item key value => { item with extra := item.extra.insert key value }

def Panel.form : Record Panel where
  members := [
    maybe "label" (fun _ => Reader.string) fun panel label => { panel with label := label },
    maybe "fields" (Reader.list PanelField.form.read)
      fun panel fields => { panel with fields := fields }]
  blank := {}
  keep := some fun panel key value => { panel with extra := panel.extra.insert key value }

def DisplaySection.form : Record DisplaySection where
  members := [
    maybe "title" (fun _ => Reader.string) fun display title => { display with title := title },
    maybe "layout" (Reader.list Panel.form.read)
      fun display layout => { display with layout := layout }]
  blank := {}
  keep := some fun display key value => { display with extra := display.extra.insert key value }

def EditSection.form : Record EditSection where
  members := [
    maybe "layout" (Reader.list Panel.form.read) fun edit layout => { edit with layout := layout }]
  blank := {}
  keep := some fun edit key value => { edit with extra := edit.extra.insert key value }

def SearchField.form : Record SearchField where
  members := [
    .of "type" .required (fun _ => Reader.string)
      fun field type => { field with valueType := type },
    maybe "base" (fun _ => Reader.string) fun field base => { field with base := base },
    maybe "parts" (Reader.dict fun _ => Reader.string)
      fun field parts => { field with parts := parts },
    maybe "start" (fun _ => Reader.string) fun field start => { field with start := start },
    maybe "end" (fun _ => Reader.string) fun field finish => { field with finish := finish },
    maybe "selector_value" (fun _ => Reader.string)
      fun field selector => { field with selector := selector },
    maybe "filter" (fun _ => Reader.string) fun field filter => { field with filter := filter }]
  blank := { valueType := "" }
  keep := some fun field key value => { field with extra := field.extra.insert key value }

def SearchSection.form : Record SearchSection where
  members := [
    maybe "fields" (Reader.list SearchField.form.read)
      fun search fields => { search with fields := fields },
    maybe "permissions" readPermissions
      fun search permissions => { search with permissions := permissions }]
  blank := {}
  keep := some fun search key value => { search with extra := search.extra.insert key value }

def TypeDocument.form : Record TypeDocument where
  members := [
    maybe "detail" Reader.value fun doc detail => { doc with detail := detail },
    maybe "source" Reader.value fun doc source => { doc with source := source },
    maybe "data" DataSection.form.read fun doc data => { doc with data := data },
    maybe "display" DisplaySection.form.read fun doc display => { doc with display := display },
    maybe "edit" EditSection.form.read fun doc edit => { doc with edit := edit },
    maybe "es_data" SearchSection.form.read fun doc search => { doc with search := search },
    maybe "es_display" Reader.value fun doc shown => { doc with searchDisplay := shown },
    maybe "domain" readStrings fun doc domain => { doc with domain := domain },
    maybe "range" readStrings fun doc range => { doc with range := range }]
  blank := {}

def CompiledDocument.form : Record CompiledDocument where
  members := [
    maybe "detail" Reader.value fun doc detail => { doc with detail := detail },
    maybe "source" Reader.value fun doc source => { doc with source := source },
    maybe "data" CompiledData.form.read fun doc data => { doc with data := data },
    maybe "display" DisplaySection.form.read fun doc display => { doc with display := display },
    maybe "edit" EditSection.form.read fun doc edit => { doc with edit := edit },
    maybe "es_data" SearchSection.form.read fun doc search => { doc with search := search },
    maybe "es_display" Reader.value fun doc shown => { doc with searchDisplay := shown }]
  blank := {}

def TypeDocument.parse (text : String) : Except Json.Fault TypeDocument :=
  TypeDocument.form.parse text

def CompiledDocument.parse (text : String) : Except Json.Fault CompiledDocument :=
  CompiledDocument.form.parse text

end SchemaLink
