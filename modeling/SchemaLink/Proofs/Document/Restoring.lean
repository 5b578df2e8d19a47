import SchemaLink.Proofs.Document.Extras
import SchemaLink.Proofs.Json.Restoring

/-! # Documents that are read back

The extra members of a document, wherever in it they stand, and the values that it holds as they
are have been kept by a reader. A document of this kind is read back from what it is written as. -/

namespace SchemaLink

open Json (Member Record Reader Written)
open Json.Record (Rebuilds)

/-! ## Parts that may be missing -/

theorem takes_forall {α : Type} {reader : Reader α} {q : α → Prop}
    (h : reader.Takes fun _ a => q a) : reader.nullable.Takes fun _ found => ∀ a ∈ found, q a := by
  refine h.nullable.imp fun _ found hfound => ?_
  rcases hfound with ⟨-, rfl⟩ | ⟨a, rfl, ha⟩
  · nofun
  · rintro _ ⟨⟩
    exact ha

theorem items_forall {α : Type} {item : Nat → Reader α} {q : α → Prop} {depth : Nat}
    (h : (item (depth - 1)).Takes fun _ a => q a) :
    (Reader.list item depth).Takes fun _ items => ∀ a ∈ items, q a := by
  refine (Reader.list_takes_below h).imp fun _ items hitems a ha => ?_
  obtain ⟨_, -, hitems⟩ := hitems
  obtain ⟨_, -, hq⟩ := exists_of_forall₂_right hitems ha
  exact hq

section Members

variable {α β : Type} {key : String} {presence : Json.Presence} {reader : Nat → Reader β}
  {store : α → β → α} {depth : Nat} {p : α → Prop}

/-- A member keeps true what storing it keeps true. -/
theorem member_of_takes {q : β → Prop} (h : (reader depth).Takes fun _ b => q b)
    (hstore : ∀ record b, p record → q b → p (store record b)) (record : α) (hrecord : p record) :
    ((Member.of key presence reader store).read depth record).Takes fun _ after => p after :=
  h.map fun _ b hb => hstore record b hrecord hb

theorem maybe_takes {store : α → Option β → α} {q : β → Prop}
    (h : (reader depth).Takes fun _ b => q b)
    (hstore : ∀ record found, p record → (∀ b ∈ found, q b) → p (store record found))
    (record : α) (hrecord : p record) :
    ((maybe key reader store).read depth record).Takes fun _ after => p after :=
  member_of_takes (takes_forall h) hstore record hrecord

end Members

theorem string_any : Reader.string.Takes fun _ _ => True :=
  Reader.string_takes.imp fun _ _ _ => trivial

/-- What is written of a member that may be missing. -/
theorem Json.Record.Rebuilds.maybe {α β : Type} {depth : Nat} {members : List (Member α)}
    {record last : α} {entries : List (String × Json)} {key : String} {reader : Nat → Reader β}
    {store : α → Option β → α} {value : Option β} {toJson : β → Json}
    (hvalue : ∀ b ∈ value, (reader depth).Restores (toJson b) b ∧ toJson b ≠ .null)
    (hnone : store record none = record)
    (h : Rebuilds depth members (store record value) entries last) :
    Rebuilds depth (maybe key reader store :: members) record
      (member? key value toJson ++ entries) last := by
  cases value with
  | none => exact .missing (by simp [SchemaLink.maybe, Member.of]) (hnone ▸ h)
  | some b =>
      obtain ⟨hrestores, hnull⟩ := hvalue b rfl
      exact .written ((hrestores.nullable hnull).map (store record)) h

theorem Json.Record.Rebuilds.maybeText {α : Type} {depth : Nat} {members : List (Member α)}
    {record last : α} {entries : List (String × Json)} {key : String}
    {store : α → Option String → α} {text : Option String} (hnone : store record none = record)
    (h : Rebuilds depth members (store record text) entries last) :
    Rebuilds depth (SchemaLink.maybe key (fun _ => Reader.string) store :: members) record
      (member? key text .string ++ entries) last :=
  .maybe (fun text _ => ⟨Reader.string_restores text, nofun⟩) hnone h

/-! ## Values and permissions -/

/-- A value that is held as it is, and not left out instead. -/
def SettledValue (depth : Nat) (value : Json) : Prop := value ≠ .null ∧ value.Settled depth

theorem Json.Written.eq_null {written : Written} (h : written.value = some .null) :
    written = .null := by
  cases written <;> simp [value] at h ⊢

theorem value_nullable_takes (depth : Nat) : (Reader.value depth).nullable.Takes fun _ found =>
    ∀ value ∈ found, SettledValue depth value := by
  intro tokens found rest hread
  unfold Reader.nullable at hread
  split at hread
  · cases hread
    exact ⟨.null, rfl, nofun⟩
  · next htokens =>
    obtain ⟨value, hvalue, rfl⟩ := Reader.map_eq_ok hread
    obtain ⟨written, rfl, hwritten, hsettled⟩ := Reader.value_takes_settled depth _ _ _ hvalue
    refine ⟨written, rfl, ?_⟩
    rintro _ ⟨⟩
    refine ⟨?_, hsettled⟩
    rintro rfl
    exact htokens rest (by rw [Json.Written.eq_null hwritten]; rfl)

theorem readStrings_restores (depth : Nat) (texts : List String) :
    (readStrings (depth + 1)).Restores (stringsJson texts) texts :=
  Reader.list_restores fun text _ => Reader.string_restores text

theorem readPermissions_restores (depth : Nat) (permissions : Permissions) :
    (readPermissions (depth + 2)).Restores (permissionsJson permissions) permissions :=
  Reader.dict_restores fun entry _ => readStrings_restores depth entry.2

/-! ## Fields -/

namespace FieldDeclaration

/-- The extra members of a field, which nest so many levels at most, are as they were kept. -/
def Settled (depth : Nat) (field : FieldDeclaration) : Prop := form.SettledExtra depth field.extra

theorem read_settled (depth : Nat) :
    (form.read depth).Takes fun _ field => field.Settled (depth - 1) := by
  refine Record.takes_of_members Record.settledExtra_empty ?_ ?_
  · simp only [form, List.forall_mem_cons]
    exact ⟨member_of_takes string_any fun _ _ h _ => h, maybe_takes string_any fun _ _ h _ => h,
      maybe_takes (readPermissions_takes _) fun _ _ h _ => h, by simp⟩
  · rintro keep ⟨⟩ key hkey field value h hvalue
    exact h.insert hkey hvalue

theorem form_collects : form.Collects extra fun field extra => { field with extra := extra } :=
  ⟨rfl, fun _ _ => rfl, fun _ _ _ => rfl, fun _ => rfl⟩

theorem restores {depth : Nat} {field : FieldDeclaration} (h : field.Settled (depth + 2)) :
    (form.read (depth + 3)).Restores field.toJson field := by
  have hmembers : Rebuilds (depth + 2) form.members form.blank
      (("system_name", .string field.systemName) :: (member? "type" field.valueType .string ++
        (member? "permissions" field.permissions permissionsJson ++ [])))
      { field with extra := ∅ } :=
    .of (Reader.string_restores _) <| .maybeText rfl <|
      .maybe (fun permissions _ => ⟨readPermissions_restores depth permissions, nofun⟩) rfl .nil
  simpa [toJson] using form_collects.restores (by decide) hmembers h

end FieldDeclaration

/-! ## Layouts -/

namespace PanelField

def Settled (depth : Nat) (item : PanelField) : Prop := form.SettledExtra depth item.extra

theorem read_settled (depth : Nat) :
    (form.read depth).Takes fun _ item => item.Settled (depth - 1) := by
  refine Record.takes_of_members Record.settledExtra_empty ?_ ?_
  · simp only [form, List.forall_mem_cons]
    exact ⟨member_of_takes string_any fun _ _ h _ => h, maybe_takes string_any fun _ _ h _ => h,
      by simp⟩
  · rintro keep ⟨⟩ key hkey item value h hvalue
    exact h.insert hkey hvalue

theorem form_collects : form.Collects extra fun item extra => { item with extra := extra } :=
  ⟨rfl, fun _ _ => rfl, fun _ _ _ => rfl, fun _ => rfl⟩

theorem restores {depth : Nat} {item : PanelField} (h : item.Settled depth) :
    (form.read (depth + 1)).Restores item.toJson item := by
  have hmembers : Rebuilds depth form.members form.blank
      (("field", .string item.field) :: (member? "show_condition" item.showCondition .string ++ []))
      { item with extra := ∅ } :=
    .of (Reader.string_restores _) (.maybeText rfl .nil)
  simpa [toJson] using form_collects.restores (by decide) hmembers h

end PanelField

namespace Panel

structure Settled (depth : Nat) (panel : Panel) : Prop where
  extra : form.SettledExtra depth panel.extra
  fields : ∀ fields ∈ panel.fields, ∀ item ∈ fields, PanelField.Settled (depth - 2) item

theorem read_settled (depth : Nat) :
    (form.read depth).Takes fun _ panel => panel.Settled (depth - 1) := by
  refine Record.takes_of_members ⟨Record.settledExtra_empty, nofun⟩ ?_ ?_
  · simp only [form, List.forall_mem_cons]
    exact ⟨maybe_takes string_any fun _ _ h _ => ⟨h.extra, h.fields⟩,
      maybe_takes (items_forall (PanelField.read_settled _)) fun _ _ h hitems => ⟨h.extra, hitems⟩,
      by simp⟩
  · rintro keep ⟨⟩ key hkey panel value h hvalue
    exact ⟨h.extra.insert hkey hvalue, h.fields⟩

theorem form_collects : form.Collects extra fun panel extra => { panel with extra := extra } :=
  ⟨rfl, fun _ _ => rfl, fun _ _ _ => rfl, fun _ => rfl⟩

theorem restores {depth : Nat} {panel : Panel} (h : panel.Settled (depth + 2)) :
    (form.read (depth + 3)).Restores panel.toJson panel := by
  have hmembers : Rebuilds (depth + 2) form.members form.blank
      (member? "label" panel.label .string ++
        (member? "fields" panel.fields (fun fields => .list (fields.map PanelField.toJson)) ++ []))
      { panel with extra := ∅ } :=
    .maybeText rfl <|
      .maybe (fun fields hfields => ⟨Reader.list_restores fun item hitem =>
        PanelField.restores (h.fields fields hfields item hitem), nofun⟩) rfl .nil
  simpa [toJson] using form_collects.restores (by decide) hmembers h.extra

end Panel

/-- Panels nest two levels deeper than the section that shows them. -/
theorem layout_restores {depth : Nat} {layout : List Panel}
    (h : ∀ panel ∈ layout, panel.Settled (depth + 2)) :
    (Reader.list Panel.form.read (depth + 4)).Restores (layoutJson layout) layout :=
  Reader.list_restores fun panel hpanel => Panel.restores (h panel hpanel)

namespace DisplaySection

structure Settled (depth : Nat) (display : DisplaySection) : Prop where
  extra : form.SettledExtra depth display.extra
  layout : ∀ layout ∈ display.layout, ∀ panel ∈ layout, panel.Settled (depth - 2)

theorem read_settled (depth : Nat) :
    (form.read depth).Takes fun _ display => display.Settled (depth - 1) := by
  refine Record.takes_of_members ⟨Record.settledExtra_empty, nofun⟩ ?_ ?_
  · simp only [form, List.forall_mem_cons]
    exact ⟨maybe_takes string_any fun _ _ h _ => ⟨h.extra, h.layout⟩,
      maybe_takes (items_forall (Panel.read_settled _)) fun _ _ h hlayout => ⟨h.extra, hlayout⟩,
      by simp⟩
  · rintro keep ⟨⟩ key hkey display value h hvalue
    exact ⟨h.extra.insert hkey hvalue, h.layout⟩

theorem form_collects : form.Collects extra fun display extra => { display with extra := extra } :=
  ⟨rfl, fun _ _ => rfl, fun _ _ _ => rfl, fun _ => rfl⟩

theorem restores {depth : Nat} {display : DisplaySection} (h : display.Settled (depth + 4)) :
    (form.read (depth + 5)).Restores display.toJson display := by
  have hmembers : Rebuilds (depth + 4) form.members form.blank
      (member? "title" display.title .string ++ (member? "layout" display.layout layoutJson ++ []))
      { display with extra := ∅ } :=
    .maybeText rfl <|
      .maybe (fun layout hlayout => ⟨layout_restores (h.layout layout hlayout), nofun⟩) rfl .nil
  simpa [toJson] using form_collects.restores (by decide) hmembers h.extra

end DisplaySection

namespace EditSection

structure Settled (depth : Nat) (edit : EditSection) : Prop where
  extra : form.SettledExtra depth edit.extra
  layout : ∀ layout ∈ edit.layout, ∀ panel ∈ layout, panel.Settled (depth - 2)

theorem read_settled (depth : Nat) :
    (form.read depth).Takes fun _ edit => edit.Settled (depth - 1) := by
  refine Record.takes_of_members ⟨Record.settledExtra_empty, nofun⟩ ?_ ?_
  · simp only [form, List.forall_mem_cons]
    exact ⟨maybe_takes (items_forall (Panel.read_settled _)) fun _ _ h hlayout =>
      ⟨h.extra, hlayout⟩, by simp⟩
  · rintro keep ⟨⟩ key hkey edit value h hvalue
    exact ⟨h.extra.insert hkey hvalue, h.layout⟩

theorem form_collects : form.Collects extra fun edit extra => { edit with extra := extra } :=
  ⟨rfl, fun _ _ => rfl, fun _ _ _ => rfl, fun _ => rfl⟩

theorem restores {depth : Nat} {edit : EditSection} (h : edit.Settled (depth + 4)) :
    (form.read (depth + 5)).Restores edit.toJson edit := by
  have hmembers : Rebuilds (depth + 4) form.members form.blank
      (member? "layout" edit.layout layoutJson ++ []) { edit with extra := ∅ } :=
    .maybe (fun layout hlayout => ⟨layout_restores (h.layout layout hlayout), nofun⟩) rfl .nil
  simpa [toJson] using form_collects.restores (by decide) hmembers h.extra

end EditSection

/-! ## The search index -/

namespace SearchField

def Settled (depth : Nat) (field : SearchField) : Prop := form.SettledExtra depth field.extra

theorem read_settled (depth : Nat) :
    (form.read depth).Takes fun _ field => field.Settled (depth - 1) := by
  have hparts := (Reader.dict_takes (fun _ => string_any) (depth - 1)).imp fun _ _ _ => trivial
  refine Record.takes_of_members Record.settledExtra_empty ?_ ?_
  · simp only [form, List.forall_mem_cons]
    exact ⟨member_of_takes string_any fun _ _ h _ => h,
      maybe_takes string_any fun _ _ h _ => h,
      maybe_takes hparts fun _ _ h _ => h,
      maybe_takes string_any fun _ _ h _ => h,
      maybe_takes string_any fun _ _ h _ => h,
      maybe_takes string_any fun _ _ h _ => h,
      maybe_takes string_any fun _ _ h _ => h, by simp⟩
  · rintro keep ⟨⟩ key hkey field value h hvalue
    exact h.insert hkey hvalue

theorem form_collects : form.Collects extra fun field extra => { field with extra := extra } :=
  ⟨rfl, fun _ _ => rfl, fun _ _ _ => rfl, fun _ => rfl⟩

theorem restores {depth : Nat} {field : SearchField} (h : field.Settled (depth + 1)) :
    (form.read (depth + 2)).Restores field.toJson field := by
  have hparts (parts : SortedMap String String) :
      (Reader.dict (fun _ => Reader.string) (depth + 1)).Restores (mapJson .string parts) parts :=
    Reader.dict_restores fun entry _ => Reader.string_restores entry.2
  have hmembers : Rebuilds (depth + 1) form.members form.blank
      (("type", .string field.valueType) :: (member? "base" field.base .string ++
        (member? "parts" field.parts (mapJson .string) ++
        (member? "start" field.start .string ++
        (member? "end" field.finish .string ++
        (member? "selector_value" field.selector .string ++
        (member? "filter" field.filter .string ++ [])))))))
      { field with extra := ∅ } :=
    .of (Reader.string_restores _) <| .maybeText rfl <|
      .maybe (fun parts _ => ⟨hparts parts, nofun⟩) rfl <|
      .maybeText rfl <| .maybeText rfl <| .maybeText rfl <| .maybeText rfl .nil
  simpa [toJson] using form_collects.restores (by decide) hmembers h

end SearchField

namespace SearchSection

structure Settled (depth : Nat) (search : SearchSection) : Prop where
  extra : form.SettledExtra depth search.extra
  fields : ∀ fields ∈ search.fields, ∀ field ∈ fields, SearchField.Settled (depth - 2) field

theorem read_settled (depth : Nat) :
    (form.read depth).Takes fun _ search => search.Settled (depth - 1) := by
  refine Record.takes_of_members ⟨Record.settledExtra_empty, nofun⟩ ?_ ?_
  · simp only [form, List.forall_mem_cons]
    exact ⟨maybe_takes (items_forall (SearchField.read_settled _)) fun _ _ h hfields =>
        ⟨h.extra, hfields⟩,
      maybe_takes (readPermissions_takes _) fun _ _ h _ => ⟨h.extra, h.fields⟩, by simp⟩
  · rintro keep ⟨⟩ key hkey search value h hvalue
    exact ⟨h.extra.insert hkey hvalue, h.fields⟩

theorem form_collects : form.Collects extra fun search extra => { search with extra := extra } :=
  ⟨rfl, fun _ _ => rfl, fun _ _ _ => rfl, fun _ => rfl⟩

theorem restores {depth : Nat} {search : SearchSection} (h : search.Settled (depth + 3)) :
    (form.read (depth + 4)).Restores search.toJson search := by
  have hmembers : Rebuilds (depth + 3) form.members form.blank
      (member? "fields" search.fields (fun fields => .list (fields.map SearchField.toJson)) ++
        (member? "permissions" search.permissions permissionsJson ++ []))
      { search with extra := ∅ } :=
    .maybe (fun fields hfields => ⟨Reader.list_restores fun field hfield =>
        SearchField.restores (h.fields fields hfields field hfield), nofun⟩) rfl <|
      .maybe (fun permissions _ => ⟨readPermissions_restores (depth + 1) permissions, nofun⟩) rfl
        .nil
  simpa [toJson] using form_collects.restores (by decide) hmembers h.extra

end SearchSection

/-! ## Data sections -/

namespace DataSection

/-- A data section holds no extra members of its own. -/
def Settled (depth : Nat) (data : DataSection) : Prop :=
  ∀ field ∈ data.fields, FieldDeclaration.Settled (depth - 2) field

theorem read_settled (depth : Nat) :
    (form.read depth).Takes fun _ data => data.Settled (depth - 1) := by
  have hfields : (Reader.list FieldDeclaration.form.read (depth - 1)).Takes fun _ fields =>
      ∀ field ∈ fields, FieldDeclaration.Settled (depth - 1 - 2) field :=
    items_forall (FieldDeclaration.read_settled _)
  refine Record.takes_of_members nofun ?_ nofun
  simp only [form, List.forall_mem_cons]
  exact ⟨member_of_takes hfields fun _ _ _ h => h,
    member_of_takes (readPermissions_takes _) fun _ _ h _ => h, by simp⟩

theorem restores {depth : Nat} {data : DataSection} (h : data.Settled (depth + 4)) :
    (form.read (depth + 5)).Restores data.toJson data := by
  have hfields : ∀ field ∈ data.fields,
      (FieldDeclaration.form.read (depth + 3)).Restores field.toJson field :=
    fun field hfield => FieldDeclaration.restores (h field hfield)
  exact Record.restores_closed (by decide) <| .of (Reader.list_restores hfields) <|
    .of (readPermissions_restores (depth + 2) data.permissions) .nil

end DataSection

namespace CompiledData

def Settled (depth : Nat) (data : CompiledData) : Prop :=
  ∀ entry ∈ data.fields.toList, FieldDeclaration.Settled (depth - 2) entry.2

theorem restores {depth : Nat} {data : CompiledData} (h : data.Settled (depth + 4)) :
    (form.read (depth + 5)).Restores data.toJson data := by
  have hfields : ∀ entry ∈ data.fields.toList,
      (FieldDeclaration.form.read (depth + 3)).Restores entry.2.toJson entry.2 :=
    fun entry hentry => FieldDeclaration.restores (h entry hentry)
  exact Record.restores_closed (by decide) <| .of (Reader.dict_restores hfields) <|
    .of (readPermissions_restores (depth + 2) data.permissions) .nil

end CompiledData

/-! ## Documents -/

/-- What is written is read as the record that it was written for, which is written the same
again. -/
structure RoundTrips {α : Type} (parse : String → Except Json.Fault α) (write : α → String)
    (record : α) : Prop where
  read : parse (write record) = .ok record
  write : (parse (write record)).map write = .ok (write record)

theorem roundTrips_of_read {α : Type} {parse : String → Except Json.Fault α} {write : α → String}
    {record : α} (h : parse (write record) = .ok record) : RoundTrips parse write record :=
  ⟨h, congrArg (Except.map write) h⟩

theorem SettledValue.restores {depth : Nat} {value : Json} (h : SettledValue depth value) :
    (Reader.value depth).Restores value value ∧ value ≠ .null :=
  ⟨Json.Settled.restores h.2, h.1⟩

namespace TypeDocument

structure Settled (depth : Nat) (doc : TypeDocument) : Prop where
  detail : ∀ value ∈ doc.detail, SettledValue depth value
  source : ∀ value ∈ doc.source, SettledValue depth value
  data : ∀ data ∈ doc.data, DataSection.Settled (depth - 1) data
  display : ∀ display ∈ doc.display, display.Settled (depth - 1)
  edit : ∀ edit ∈ doc.edit, edit.Settled (depth - 1)
  search : ∀ search ∈ doc.search, search.Settled (depth - 1)
  searchDisplay : ∀ value ∈ doc.searchDisplay, SettledValue depth value

theorem read_settled (depth : Nat) :
    (form.read depth).Takes fun _ doc => doc.Settled (depth - 1) := by
  refine Record.takes_of_members ⟨nofun, nofun, nofun, nofun, nofun, nofun, nofun⟩ ?_ nofun
  simp only [form, List.forall_mem_cons]
  exact ⟨member_of_takes (value_nullable_takes _) fun _ _ h hdetail => { h with detail := hdetail },
    member_of_takes (value_nullable_takes _) fun _ _ h hsource => { h with source := hsource },
    maybe_takes (DataSection.read_settled _) fun _ _ h hdata => { h with data := hdata },
    maybe_takes (DisplaySection.read_settled _) fun _ _ h hdisplay =>
      { h with display := hdisplay },
    maybe_takes (EditSection.read_settled _) fun _ _ h hedit => { h with edit := hedit },
    maybe_takes (SearchSection.read_settled _) fun _ _ h hsearch => { h with search := hsearch },
    member_of_takes (value_nullable_takes _) fun _ _ h hshown =>
      { h with searchDisplay := hshown },
    maybe_takes (readStrings_takes _) fun _ _ h _ => { h with },
    maybe_takes (readStrings_takes _) fun _ _ h _ => { h with }, by simp⟩

theorem restores {depth : Nat} {doc : TypeDocument} (h : doc.Settled (depth + 5)) :
    (form.read (depth + 6)).Restores doc.toJson doc := by
  have hmembers : Rebuilds (depth + 5) form.members form.blank
      (member? "detail" doc.detail id ++ (member? "source" doc.source id ++
        (member? "data" doc.data DataSection.toJson ++
        (member? "display" doc.display DisplaySection.toJson ++
        (member? "edit" doc.edit EditSection.toJson ++
        (member? "es_data" doc.search SearchSection.toJson ++
        (member? "es_display" doc.searchDisplay id ++
        (member? "domain" doc.domain stringsJson ++
        (member? "range" doc.range stringsJson ++ []))))))))) doc :=
    .maybe (fun value hvalue => (h.detail value hvalue).restores) rfl <|
      .maybe (fun value hvalue => (h.source value hvalue).restores) rfl <|
      .maybe (fun _ hdata => ⟨DataSection.restores (h.data _ hdata), nofun⟩) rfl <|
      .maybe (fun _ hdisplay => ⟨DisplaySection.restores (h.display _ hdisplay), nofun⟩) rfl <|
      .maybe (fun _ hedit => ⟨EditSection.restores (h.edit _ hedit), nofun⟩) rfl <|
      .maybe (fun _ hsearch => ⟨SearchSection.restores (h.search _ hsearch), nofun⟩) rfl <|
      .maybe (fun value hvalue => (h.searchDisplay value hvalue).restores) rfl <|
      .maybe (fun domain _ => ⟨readStrings_restores (depth + 4) domain, nofun⟩) rfl <|
      .maybe (fun range _ => ⟨readStrings_restores (depth + 4) range, nofun⟩) rfl .nil
  simpa [toJson] using Record.restores_closed (by decide) hmembers

/-- Every document that is accepted has been read from one text. -/
theorem settled_of_parse {text : String} {doc : TypeDocument} (h : parse text = .ok doc) :
    doc.Settled (Json.depthLimit - 1) := by
  obtain ⟨_, -, hsettled⟩ := (read_settled Json.depthLimit).of_run h
  exact hsettled

/-- A document is the same after it has been written in any style and read again. -/
theorem parse_render {doc : TypeDocument} (h : doc.Settled (Json.depthLimit - 1))
    (hwhole : doc.toJson.Whole) {style : Json.Style} (hstyle : style.Plain) :
    parse (doc.toJson.render style) = .ok doc :=
  Reader.Restores.run_render (restores h) hwhole hstyle

end TypeDocument

namespace CompiledDocument

structure Settled (depth : Nat) (doc : CompiledDocument) : Prop where
  detail : ∀ value ∈ doc.detail, SettledValue depth value
  source : ∀ value ∈ doc.source, SettledValue depth value
  data : ∀ data ∈ doc.data, CompiledData.Settled (depth - 1) data
  display : ∀ display ∈ doc.display, display.Settled (depth - 1)
  edit : ∀ edit ∈ doc.edit, edit.Settled (depth - 1)
  search : ∀ search ∈ doc.search, search.Settled (depth - 1)
  searchDisplay : ∀ value ∈ doc.searchDisplay, SettledValue depth value

theorem restores {depth : Nat} {doc : CompiledDocument} (h : doc.Settled (depth + 5)) :
    (form.read (depth + 6)).Restores doc.toJson doc := by
  have hmembers : Rebuilds (depth + 5) form.members form.blank
      (member? "detail" doc.detail id ++ (member? "source" doc.source id ++
        (member? "data" doc.data CompiledData.toJson ++
        (member? "display" doc.display DisplaySection.toJson ++
        (member? "edit" doc.edit EditSection.toJson ++
        (member? "es_data" doc.search SearchSection.toJson ++
        (member? "es_display" doc.searchDisplay id ++ []))))))) doc :=
    .maybe (fun value hvalue => (h.detail value hvalue).restores) rfl <|
      .maybe (fun value hvalue => (h.source value hvalue).restores) rfl <|
      .maybe (fun _ hdata => ⟨CompiledData.restores (h.data _ hdata), nofun⟩) rfl <|
      .maybe (fun _ hdisplay => ⟨DisplaySection.restores (h.display _ hdisplay), nofun⟩) rfl <|
      .maybe (fun _ hedit => ⟨EditSection.restores (h.edit _ hedit), nofun⟩) rfl <|
      .maybe (fun _ hsearch => ⟨SearchSection.restores (h.search _ hsearch), nofun⟩) rfl <|
      .maybe (fun value hvalue => (h.searchDisplay value hvalue).restores) rfl .nil
  simpa [toJson] using Record.restores_closed (by decide) hmembers

theorem parse_render {doc : CompiledDocument} (h : doc.Settled (Json.depthLimit - 1))
    (hwhole : doc.toJson.Whole) {style : Json.Style} (hstyle : style.Plain) :
    parse (doc.toJson.render style) = .ok doc :=
  Reader.Restores.run_render (restores h) hwhole hstyle

end CompiledDocument

end SchemaLink
