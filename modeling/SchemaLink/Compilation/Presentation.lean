import SchemaLink.Compilation.Reported
import SchemaLink.Document.Basic
import SchemaLink.Linker.Substitution
import SchemaLink.Registry.SystemNames

/-! # Display and edit sections

Titles, labels and fields are templates of the type itself. Conditions for showing
a field name entity types, which are resolved in the display section alone. -/

namespace SchemaLink

/-- A linker at work on the document of one type. -/
structure SectionLinker where
  linker : Linker
  owner : TypeRef

namespace SectionLinker

/-- Link the template at a place in the document. -/
def template (context : SectionLinker) (place text : String) (anchor : Option String) :
    Reported String :=
  let result := context.linker.substitute context.owner text anchor
  ⟨result.text,
    if result.vanished then [.emptyResolution context.owner place text result.unresolved] else []⟩

/-- Link a template that may be missing. -/
def optional (context : SectionLinker) (place : String) (text : Option String)
    (anchor : Option String) : Reported (Option String) :=
  text.mapM fun text => context.template place text anchor

def panelField (context : SectionLinker) (conditions : Bool) (place : String)
    (item : PanelField) : Reported PanelField := do
  let field ← context.template place item.field none
  let condition :=
    if conditions then item.showCondition.map context.linker.registry.resolveNames
    else item.showCondition
  pure { item with field := field, showCondition := condition }

def panel (context : SectionLinker) (conditions : Bool) (place : String) (panel : Panel) :
    Reported Panel := do
  let label ← context.optional (place ++ ".label") panel.label none
  let fields ← panel.fields.mapM fun fields =>
    fields.zipIdx.mapM fun (item, j) =>
      context.panelField conditions (place ++ ".fields[" ++ toString j ++ "]") item
  pure { panel with label := label, fields := fields }

/-- Link the panels of one part of the document. -/
def layout (context : SectionLinker) (conditions : Bool) (part : String)
    (panels : Option (List Panel)) : Reported (Option (List Panel)) :=
  panels.mapM fun panels =>
    panels.zipIdx.mapM fun (panel, i) =>
      context.panel conditions (part ++ ".layout[" ++ toString i ++ "]") panel

def display (context : SectionLinker) (display : DisplaySection) : Reported DisplaySection := do
  let title ← context.optional "display.title" display.title none
  let layout ← context.layout true "display" display.layout
  pure { display with title := title, layout := layout }

def edit (context : SectionLinker) (edit : EditSection) : Reported EditSection := do
  let layout ← context.layout false "edit" edit.layout
  pure { edit with layout := layout }

/-- The display and edit sections of a document. -/
def presentation (context : SectionLinker) (doc : TypeDocument) :
    Reported (Option DisplaySection × Option EditSection) := do
  let display ← doc.display.mapM context.display
  let edit ← doc.edit.mapM context.edit
  pure (display, edit)

end SectionLinker

end SchemaLink
