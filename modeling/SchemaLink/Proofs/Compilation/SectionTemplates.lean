import SchemaLink.Compilation.SearchIndex

/-! # Templates of sections

What the linker does to a section is told by the templates that stand in it: where, in
which order and from which anchor. Each is filled in on its own, all else in the section
stays, and there is an advisory for each that vanishes. -/

namespace SchemaLink

/-- A template at a place in a document, and the anchor that its paths start from. -/
structure Template where
  place : String
  text : String
  anchor : Option String := none

namespace Template

/-- A template that may be missing. -/
def optional (place : String) (text : Option String) (anchor : Option String := none) :
    List Template :=
  text.toList.map fun text => ⟨place, text, anchor⟩

/-- Fill in a template that may be missing. -/
def fillOptional (fill : Template → String) (place : String) (text : Option String)
    (anchor : Option String := none) : Option String :=
  text.map fun text => fill ⟨place, text, anchor⟩

/-- A place with the text that stands there. -/
def entry (template : Template) : String × String := (template.place, template.text)

/-- The place of a template with the text that it is filled in to. -/
def filledEntry (fill : Template → String) (template : Template) : String × String :=
  (template.place, fill template)

theorem entries_optional (fill : Template → String) (place : String)
    (text anchor anchor' : Option String) :
    (optional place (fillOptional fill place text anchor) anchor').map entry =
      (optional place text anchor).map (filledEntry fill) := by
  cases text <;> rfl

end Template

/-- Numbering a numbered list again changes nothing. -/
theorem zipIdx_map_zipIdx {α β : Type} (f : α × Nat → β) (items : List α) (start : Nat) :
    ((items.zipIdx start).map f).zipIdx start =
      (items.zipIdx start).map fun entry => (f entry, entry.2) := by
  induction items generalizing start with
  | nil => rfl
  | cons item items ih => simp only [List.zipIdx_cons, List.map_cons, ih]

/-! ## Panels -/

section Filled

variable (fill : Template → String) (conditions : String → String)

namespace PanelField

def templates (place : String) (item : PanelField) : List Template := [⟨place, item.field, none⟩]

def filled (place : String) (item : PanelField) : PanelField :=
  { item with
    field := fill ⟨place, item.field, none⟩
    showCondition := item.showCondition.map conditions }

end PanelField

namespace Panel

/-- The place of a field in a panel. -/
def fieldPlace (place : String) (j : Nat) : String := place ++ ".fields[" ++ toString j ++ "]"

/-- The label, then the fields in order. -/
def templates (place : String) (panel : Panel) : List Template :=
  Template.optional (place ++ ".label") panel.label ++
    panel.fields.toList.flatMap fun fields =>
      fields.zipIdx.flatMap fun (item, j) => item.templates (fieldPlace place j)

def filled (place : String) (panel : Panel) : Panel :=
  { panel with
    label := Template.fillOptional fill (place ++ ".label") panel.label
    fields := panel.fields.map fun fields =>
      fields.zipIdx.map fun (item, j) => item.filled fill conditions (fieldPlace place j) }

theorem entries_filled (place : String) (panel : Panel) :
    ((panel.filled fill conditions place).templates place).map Template.entry =
      (panel.templates place).map (Template.filledEntry fill) := by
  simp only [templates, filled, List.map_append, Template.entries_optional]
  congr 1
  cases panel.fields with
  | none => rfl
  | some fields =>
      simp only [Option.map_some, Option.toList_some, List.flatMap_singleton, zipIdx_map_zipIdx,
        List.flatMap_map, List.map_flatMap]
      rfl

end Panel

/-! ## Display and edit sections -/

/-- The place of a panel in a part of a document. -/
def panelPlace (part : String) (i : Nat) : String := part ++ ".layout[" ++ toString i ++ "]"

def layoutTemplates (part : String) (panels : Option (List Panel)) : List Template :=
  panels.toList.flatMap fun panels =>
    panels.zipIdx.flatMap fun (panel, i) => panel.templates (panelPlace part i)

def filledLayout (part : String) (panels : Option (List Panel)) : Option (List Panel) :=
  panels.map fun panels =>
    panels.zipIdx.map fun (panel, i) => panel.filled fill conditions (panelPlace part i)

theorem entries_filledLayout (part : String) (panels : Option (List Panel)) :
    (layoutTemplates part (filledLayout fill conditions part panels)).map Template.entry =
      (layoutTemplates part panels).map (Template.filledEntry fill) := by
  cases panels with
  | none => rfl
  | some panels =>
      simp only [layoutTemplates, filledLayout, Option.map_some, Option.toList_some,
        List.flatMap_singleton, zipIdx_map_zipIdx, List.flatMap_map, List.map_flatMap,
        Panel.entries_filled]

namespace DisplaySection

/-- The title, then the panels in order. -/
def templates (display : DisplaySection) : List Template :=
  Template.optional "display.title" display.title ++ layoutTemplates "display" display.layout

def filled (display : DisplaySection) : DisplaySection :=
  { display with
    title := Template.fillOptional fill "display.title" display.title
    layout := filledLayout fill conditions "display" display.layout }

end DisplaySection

namespace EditSection

def templates (edit : EditSection) : List Template := layoutTemplates "edit" edit.layout

/-- Conditions in an edit section are not resolved. -/
def filled (edit : EditSection) : EditSection :=
  { edit with layout := filledLayout fill id "edit" edit.layout }

end EditSection

/-- The templates of what is shown of a type, those of the display section first. -/
def shownTemplates (display : Option DisplaySection) (edit : Option EditSection) : List Template :=
  display.toList.flatMap DisplaySection.templates ++ edit.toList.flatMap EditSection.templates

theorem entries_shownTemplates (display : Option DisplaySection) (edit : Option EditSection) :
    (shownTemplates (display.map (DisplaySection.filled fill conditions))
        (edit.map (EditSection.filled fill))).map Template.entry =
      (shownTemplates display edit).map (Template.filledEntry fill) := by
  have hdisplay : ∀ display : DisplaySection,
      (display.filled fill conditions).templates.map Template.entry =
        display.templates.map (Template.filledEntry fill) := by
    intro display
    simp only [DisplaySection.templates, DisplaySection.filled, List.map_append,
      Template.entries_optional, entries_filledLayout]
  have hedit : ∀ edit : EditSection, (edit.filled fill).templates.map Template.entry =
      edit.templates.map (Template.filledEntry fill) :=
    fun edit => entries_filledLayout fill id "edit" edit.layout
  cases display <;> cases edit <;> simp [shownTemplates, hdisplay, hedit]

/-! ## Search-index sections -/

namespace SearchField

/-- The templates that the kind of a field uses; the filter, which every kind has, comes last. -/
def templates (place : String) (field : SearchField) : List Template :=
  (match field.kind with
    | .nested =>
      (field.parts.toList.flatMap fun parts =>
        parts.toList.map fun (key, part) => ⟨place ++ ".parts." ++ key, part, field.base⟩) ++
      Template.optional (place ++ ".base") field.base
    | .interval =>
      Template.optional (place ++ ".start") field.start ++
        Template.optional (place ++ ".end") field.finish
    | .simple => Template.optional (place ++ ".selector_value") field.selector) ++
  Template.optional (place ++ ".filter") field.filter field.base

def filledValue (place : String) (field : SearchField) : SearchField :=
  match field.kind with
  | .nested =>
    { field with
      parts := field.parts.map fun parts =>
        parts.mapWithKey fun key part => fill ⟨place ++ ".parts." ++ key, part, field.base⟩
      base := Template.fillOptional fill (place ++ ".base") field.base }
  | .interval =>
    { field with
      start := Template.fillOptional fill (place ++ ".start") field.start
      finish := Template.fillOptional fill (place ++ ".end") field.finish }
  | .simple =>
    { field with
      selector := Template.fillOptional fill (place ++ ".selector_value") field.selector }

/-- Parts and filter are anchored at the base as authored. -/
def filled (place : String) (field : SearchField) : SearchField :=
  { field.filledValue fill place with
    filter := Template.fillOptional fill (place ++ ".filter") field.filter field.base }

theorem kind_filled (place : String) (field : SearchField) :
    (field.filled fill place).kind = field.kind := by
  unfold filled filledValue kind
  dsimp only
  split <;> rfl

theorem entries_filled (place : String) (field : SearchField) :
    ((field.filled fill place).templates place).map Template.entry =
      (field.templates place).map (Template.filledEntry fill) := by
  unfold templates
  rw [kind_filled]
  unfold filled filledValue
  cases field.kind with
  | nested =>
      simp only [List.map_append, Template.entries_optional]
      congr 2
      cases field.parts with
      | none => rfl
      | some parts =>
          simp only [Option.map_some, Option.toList_some, List.flatMap_singleton, List.map_map,
            SortedMap.mapWithKey]
          rfl
  | interval => simp only [List.map_append, Template.entries_optional]
  | simple => simp only [List.map_append, Template.entries_optional]

end SearchField

namespace SearchSection

/-- The place of a field of the search index. -/
def fieldPlace (i : Nat) : String := "es_data.fields[" ++ toString i ++ "]"

def templates (search : SearchSection) : List Template :=
  search.fields.toList.flatMap fun fields =>
    fields.zipIdx.flatMap fun (field, i) => field.templates (fieldPlace i)

def filled (search : SearchSection) : SearchSection :=
  { search with
    fields := search.fields.map fun fields =>
      fields.zipIdx.map fun (field, i) => field.filled fill (fieldPlace i) }

theorem entries_filled (search : SearchSection) :
    (search.filled fill).templates.map Template.entry =
      search.templates.map (Template.filledEntry fill) := by
  unfold templates filled
  cases search.fields with
  | none => rfl
  | some fields =>
      simp only [Option.map_some, Option.toList_some, List.flatMap_singleton, zipIdx_map_zipIdx,
        List.flatMap_map, List.map_flatMap, SearchField.entries_filled]

end SearchSection

end Filled

/-! ## Linking sections -/

namespace Linker

/-- The text of a template of a type. -/
def fill (linker : Linker) (owner : TypeRef) (template : Template) : String :=
  (linker.substitute owner template.text template.anchor).text

/-- The advisory on a template of a type, if it vanishes. -/
def vanishing? (linker : Linker) (owner : TypeRef) (template : Template) : Option Advisory :=
  let result := linker.substitute owner template.text template.anchor
  if result.vanished then
    some (.emptyResolution owner template.place template.text result.unresolved)
  else none

end Linker

namespace SectionLinker

variable (context : SectionLinker)

/-- A value that was made of templates, with an advisory for each that vanished. -/
def made {α : Type} (value : α) (templates : List Template) : Reported α :=
  ⟨value, templates.filterMap (context.linker.vanishing? context.owner)⟩

variable {context} {α β γ : Type}

theorem made_bind (value : α) (templates : List Template) (f : α → Reported β) {result : β}
    {later : List Template} (h : f value = context.made result later) :
    (context.made value templates >>= f) = context.made result (templates ++ later) := by
  have hbind : (context.made value templates >>= f) = ⟨(f value).value,
      templates.filterMap (context.linker.vanishing? context.owner) ++ (f value).advisories⟩ := rfl
  rw [hbind, h, made, made, List.filterMap_append]

theorem made_bind_pure (value : α) (templates : List Template) (f : α → β) :
    (context.made value templates >>= fun value => pure (f value)) =
      context.made (f value) templates := by
  have hpure : (pure (f value) : Reported β) = context.made (f value) [] := rfl
  exact (made_bind _ _ _ hpure).trans (by rw [List.append_nil])

theorem mapM_made {items : List α} {f : α → Reported β} {value : α → β}
    {templates : α → List Template}
    (h : ∀ item, f item = context.made (value item) (templates item)) :
    items.mapM f = context.made (items.map value) (items.flatMap templates) := by
  induction items with
  | nil => rfl
  | cons item items ih =>
      rw [List.mapM_cons, h, ih]
      exact made_bind _ _ _ (made_bind_pure _ _ _)

theorem optionMapM_made {item : Option α} {f : α → Reported β} {value : α → β}
    {templates : α → List Template}
    (h : ∀ item, f item = context.made (value item) (templates item)) :
    item.mapM f = context.made (item.map value) (item.toList.flatMap templates) := by
  cases item with
  | none => rfl
  | some item =>
      have hmap : (some item).mapM f = f item >>= fun result => pure (some result) := rfl
      rw [hmap, h, made_bind_pure, Option.toList_some, List.flatMap_singleton, Option.map_some]

/-! ### Each kind of section -/

variable (context)

theorem template_eq (place text : String) (anchor : Option String) :
    context.template place text anchor =
      context.made (context.linker.fill context.owner ⟨place, text, anchor⟩)
        [⟨place, text, anchor⟩] := by
  unfold template made Linker.fill
  rw [List.filterMap_cons, List.filterMap_nil, Linker.vanishing?]
  dsimp only
  by_cases h : (context.linker.substitute context.owner text anchor).vanished
  · simp only [h, if_true]
  · simp only [h, Bool.false_eq_true, if_false]

theorem optional_eq (place : String) (text anchor : Option String) :
    context.optional place text anchor =
      context.made (Template.fillOptional (context.linker.fill context.owner) place text anchor)
        (Template.optional place text anchor) := by
  rw [SectionLinker.optional, optionMapM_made fun text => context.template_eq place text anchor,
    Template.optional, List.map_eq_flatMap]
  rfl

/-- What the linker does to the conditions in a layout. -/
def conditions (resolved : Bool) : String → String :=
  if resolved then context.linker.registry.resolveNames else id

theorem panelField_eq (resolved : Bool) (place : String) (item : PanelField) :
    context.panelField resolved place item =
      context.made
        (item.filled (context.linker.fill context.owner) (context.conditions resolved) place)
        (item.templates place) := by
  rw [panelField, template_eq, made_bind_pure]
  cases resolved
  · simp [PanelField.filled, PanelField.templates, conditions]
  · rfl

theorem panel_eq (resolved : Bool) (place : String) (panel : Panel) :
    context.panel resolved place panel =
      context.made
        (panel.filled (context.linker.fill context.owner) (context.conditions resolved) place)
        (panel.templates place) := by
  have hfields : (panel.fields.mapM fun fields => fields.zipIdx.mapM fun (item, j) =>
      context.panelField resolved (Panel.fieldPlace place j) item) = context.made _ _ :=
    optionMapM_made fun _ => mapM_made fun entry =>
      context.panelField_eq resolved (Panel.fieldPlace place entry.2) entry.1
  rw [SectionLinker.panel, optional_eq]
  apply made_bind
  exact (congrArg (· >>= _) hfields).trans (made_bind_pure _ _ _)

theorem layout_eq (resolved : Bool) (part : String) (panels : Option (List Panel)) :
    context.layout resolved part panels =
      context.made
        (filledLayout (context.linker.fill context.owner) (context.conditions resolved) part panels)
        (layoutTemplates part panels) :=
  optionMapM_made fun _ => mapM_made fun entry =>
    context.panel_eq resolved (panelPlace part entry.2) entry.1

theorem display_eq (display : DisplaySection) :
    context.display display =
      context.made
        (display.filled (context.linker.fill context.owner) context.linker.registry.resolveNames)
        display.templates := by
  rw [SectionLinker.display, optional_eq]
  apply made_bind
  rw [layout_eq, made_bind_pure]
  rfl

theorem edit_eq (edit : EditSection) :
    context.edit edit =
      context.made (edit.filled (context.linker.fill context.owner)) edit.templates := by
  rw [SectionLinker.edit, layout_eq, made_bind_pure]
  rfl

theorem presentation_eq (doc : TypeDocument) :
    context.presentation doc =
      context.made
        (doc.display.map (DisplaySection.filled (context.linker.fill context.owner)
            context.linker.registry.resolveNames),
          doc.edit.map (EditSection.filled (context.linker.fill context.owner)))
        (shownTemplates doc.display doc.edit) := by
  rw [presentation, optionMapM_made context.display_eq]
  apply made_bind
  rw [optionMapM_made context.edit_eq, made_bind_pure]

theorem mapValues_eq (templateOf : String → String → Template)
    (parts : SortedMap String String) :
    Reported.mapValues (fun key part => context.template (templateOf key part).place
        (templateOf key part).text (templateOf key part).anchor) parts =
      context.made
        (parts.mapWithKey fun key part => context.linker.fill context.owner (templateOf key part))
        (parts.toList.map fun (key, part) => templateOf key part) := by
  apply Reported.ext
  · apply SortedMap.ext
    simp only [Reported.mapValues, SortedMap.mapWithKey, List.map_map, template_eq, made]
    rfl
  · simp only [Reported.mapValues, SortedMap.mapWithKey, SortedMap.values, List.map_map,
      template_eq, made, List.flatMap_map]
    rw [List.map_eq_flatMap, List.filterMap_flatMap]
    rfl

theorem searchValue_eq (place : String) (field : SearchField) :
    ∃ templates, context.searchValue place field =
        context.made (field.filledValue (context.linker.fill context.owner) place) templates ∧
      field.templates place =
        templates ++ Template.optional (place ++ ".filter") field.filter field.base := by
  unfold searchValue SearchField.filledValue SearchField.templates
  cases field.kind with
  | nested =>
      refine ⟨_, ?_, rfl⟩
      dsimp only
      rw [optionMapM_made fun parts => context.mapValues_eq
        (fun key part => ⟨place ++ ".parts." ++ key, part, field.base⟩) parts]
      apply made_bind
      rw [optional_eq, made_bind_pure]
  | interval =>
      refine ⟨_, ?_, rfl⟩
      dsimp only
      rw [optional_eq]
      apply made_bind
      rw [optional_eq, made_bind_pure]
  | simple =>
      refine ⟨_, ?_, rfl⟩
      dsimp only
      rw [optional_eq, made_bind_pure]

theorem searchField_eq (place : String) (field : SearchField) :
    context.searchField place field =
      context.made (field.filled (context.linker.fill context.owner) place)
        (field.templates place) := by
  obtain ⟨templates, hvalue, htemplates⟩ := context.searchValue_eq place field
  rw [searchField, hvalue, htemplates]
  apply made_bind
  rw [optional_eq, made_bind_pure]
  rfl

theorem searchFields_eq (search : SearchSection) :
    context.searchFields search =
      context.made (search.filled (context.linker.fill context.owner)) search.templates := by
  have hfields : (search.fields.mapM fun fields => fields.zipIdx.mapM fun (field, i) =>
      context.searchField (SearchSection.fieldPlace i) field) = context.made _ _ :=
    optionMapM_made fun _ => mapM_made fun entry =>
      context.searchField_eq (SearchSection.fieldPlace entry.2) entry.1
  exact (congrArg (· >>= _) hfields).trans (made_bind_pure _ _ _)

end SectionLinker

end SchemaLink
