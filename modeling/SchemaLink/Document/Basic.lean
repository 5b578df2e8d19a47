import SchemaLink.Json.Basic
import SchemaLink.Registry.Permissions

/-! # Documents

What is authored for a type, and what it is compiled into. Only what the compiler
reads or changes has a place of its own; every other key of a section is kept
among the extra ones. -/

namespace SchemaLink

/-- The keys of a section that the compiler does not model. -/
abbrev Extra := SortedMap String Json

/-- A declared field. -/
structure FieldDeclaration where
  systemName : String
  valueType : Option String := none
  permissions : Option Permissions := none
  extra : Extra := ∅

/-- The authored data section, with fields in order of declaration. -/
structure DataSection where
  fields : List FieldDeclaration := []
  permissions : Permissions := ∅

/-- The compiled data section, with fields by id. -/
structure CompiledData where
  fields : SortedMap String FieldDeclaration := ∅
  permissions : Permissions := ∅

/-- A field of a panel: a path template, and the condition for showing it. -/
structure PanelField where
  field : String
  showCondition : Option String := none
  extra : Extra := ∅

/-- Fields shown together under a label. -/
structure Panel where
  label : Option String := none
  fields : Option (List PanelField) := none
  extra : Extra := ∅

structure DisplaySection where
  title : Option String := none
  layout : Option (List Panel) := none
  extra : Extra := ∅

structure EditSection where
  layout : Option (List Panel) := none
  extra : Extra := ∅

/-- How a field of the search index takes its value. -/
inductive SearchKind where
  /-- Parts that share a base. -/
  | nested
  /-- Two templates, for the start and the end. -/
  | interval
  /-- One template. -/
  | simple
  deriving DecidableEq, Repr

/-- A field of the search index. -/
structure SearchField where
  valueType : String
  /-- The anchor of the parts and of the filter. -/
  base : Option String := none
  parts : Option (SortedMap String String) := none
  start : Option String := none
  finish : Option String := none
  selector : Option String := none
  filter : Option String := none
  extra : Extra := ∅

def SearchField.kind (field : SearchField) : SearchKind :=
  if field.valueType = "nested" || field.valueType = "nested_multi_type" then .nested
  else if field.valueType = "edtf_interval" then .interval
  else .simple

structure SearchSection where
  fields : Option (List SearchField) := none
  permissions : Option Permissions := none
  extra : Extra := ∅

/-- The authored document of a type. -/
structure TypeDocument where
  detail : Option Json := none
  source : Option Json := none
  data : Option DataSection := none
  display : Option DisplaySection := none
  edit : Option EditSection := none
  search : Option SearchSection := none
  searchDisplay : Option Json := none
  /-- Of a relation: the entity types it is declared to lead from. -/
  domain : Option (List String) := none
  /-- Of a relation: the entity types it is declared to lead to. -/
  range : Option (List String) := none

/-- The compiled document of a type. -/
structure CompiledDocument where
  detail : Option Json := none
  source : Option Json := none
  data : Option CompiledData := none
  display : Option DisplaySection := none
  edit : Option EditSection := none
  search : Option SearchSection := none
  searchDisplay : Option Json := none

end SchemaLink
