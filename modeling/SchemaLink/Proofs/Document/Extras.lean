import SchemaLink.Document.Reader
import SchemaLink.Document.Writer
import SchemaLink.Proofs.Json.Records
import SchemaLink.Proofs.Traversal

/-! # Extra members of documents

Every open record in a document keeps its extra members as they are read and writes
them after the modelled ones. So each carries what is written in the text under keys that
the compiler does not model, wherever in the document it stands. -/

namespace SchemaLink

open Json (Member Record Reader Written WritesExtra)
open Json.Reader (Items Nullable Takes)

/-! ## Readers and writers -/

theorem readStrings_takes (depth : Nat) : (readStrings depth).Takes fun _ _ => True :=
  (Reader.list_takes (fun _ => Reader.string_takes) depth).imp fun _ _ _ => trivial

theorem readPermissions_takes (depth : Nat) : (readPermissions depth).Takes fun _ _ => True :=
  (Reader.dict_takes readStrings_takes depth).imp fun _ _ _ => trivial

/-- A part of a record that may be missing or null carries what is written for it. -/
def CarriesPart {α : Type} (carries : Written → α → Prop) (keys : List String) (key : String)
    (written : Written) (found : Option α) : Prop :=
  Written.Spells (Nullable carries) none (written.last? keys key) found

/-- What is carried for one part is carried for another that has been made of it. -/
theorem CarriesPart.of_rel {α β : Type} {carries : Written → α → Prop}
    {carries' : Written → β → Prop} {r : α → β → Prop}
    (h : ∀ written a b, carries written a → r a b → carries' written b)
    {keys : List String} {key : String} {written : Written} {found : Option α} {other : Option β}
    (hcarries : CarriesPart carries keys key written found) (hrel : Option.Rel r found other) :
    CarriesPart carries' keys key written other := by
  refine Written.Spells.imp hcarries (fun hmissing => ?_) fun part hpart => ?_
  · subst hmissing
    cases hrel
    rfl
  · rcases hpart with ⟨hnull, rfl⟩ | ⟨a, rfl, ha⟩
    · cases hrel
      exact .inl ⟨hnull, rfl⟩
    · cases hrel with
      | some hab => exact .inr ⟨_, rfl, h _ _ _ ha hab⟩

/-- Items are made of items one by one. -/
theorem items_of_rel {α β : Type} {carries : Written → α → Prop} {carries' : Written → β → Prop}
    {r : α → β → Prop} (h : ∀ written a b, carries written a → r a b → carries' written b)
    (written : Written) (found : List α) (others : List β) (hitems : Items carries written found)
    (hrel : List.Forall₂ r found others) : Items carries' written others := by
  obtain ⟨items, rfl, hitems⟩ := hitems
  refine ⟨items, rfl, ?_⟩
  induction hitems generalizing others with
  | nil => cases hrel; exact .nil
  | cons ha hitems ih =>
      cases hrel with
      | cons hab hrel => exact .cons (h _ _ _ ha hab) (ih _ hrel)

theorem maybe_proper {α β : Type} {key : String} {reader : Nat → Reader β}
    {store : α → Option β → α} {spells : Written → β → Prop}
    (h : ∀ depth, (reader depth).Takes spells) : (maybe key reader store).Proper :=
  Member.proper_of fun depth => (h depth).nullable

theorem keys_member? {α : Type} {keys : List String} {key : String} (h : key ∈ keys)
    (value : Option α) (toJson : α → Json) :
    ∀ member ∈ member? key value toJson, member.1 ∈ keys := by
  intro member hmem
  cases value with
  | none => cases hmem
  | some value => rwa [List.mem_singleton.1 hmem]

/-! ## Fields -/

namespace FieldDeclaration

theorem form_proper : form.Proper := by
  simp only [Record.Proper, form, List.forall_mem_cons]
  exact ⟨Member.proper_of fun _ => Reader.string_takes, maybe_proper fun _ => Reader.string_takes,
    maybe_proper readPermissions_takes, by simp⟩

theorem form_keeps : form.Keeps extra := by
  refine ⟨rfl, ?_, _, rfl, fun _ _ _ => rfl⟩
  simp only [form, List.forall_mem_cons]
  exact ⟨Member.leaves_of fun _ _ => rfl, Member.leaves_of fun _ _ => rfl,
    Member.leaves_of fun _ _ => rfl, by simp⟩

theorem writesExtra : WritesExtra form.keys extra toJson := by
  intro field
  refine ⟨_, rfl, ?_⟩
  simp only [List.forall_mem_append, List.forall_mem_singleton]
  exact ⟨⟨by decide, keys_member? (by decide) _ _⟩, keys_member? (by decide) _ _⟩

/-- A field carries the extra members of the object that it is written as. -/
def Carries (written : Written) (field : FieldDeclaration) : Prop :=
  written.CarriedTo form.keys field.toJson

theorem read_takes (depth : Nat) : (form.read depth).Takes Carries :=
  (form_keeps.takes form_proper depth).imp fun _ _ hkept => writesExtra.carriedTo hkept

/-- No modelled key is among the extra ones of a field that is read. -/
theorem read_unmodelled (depth : Nat) : (form.read depth).Takes fun _ field =>
    ∀ key ∈ form.keys, field.extra.find? key = none :=
  (form_keeps.takes form_proper depth).imp fun _ _ hkept => hkept.modelled

end FieldDeclaration

/-! ## Layouts -/

namespace PanelField

theorem form_proper : form.Proper := by
  simp only [Record.Proper, form, List.forall_mem_cons]
  exact ⟨Member.proper_of fun _ => Reader.string_takes, maybe_proper fun _ => Reader.string_takes,
    by simp⟩

theorem form_keeps : form.Keeps extra := by
  refine ⟨rfl, ?_, _, rfl, fun _ _ _ => rfl⟩
  simp only [form, List.forall_mem_cons]
  exact ⟨Member.leaves_of fun _ _ => rfl, Member.leaves_of fun _ _ => rfl, by simp⟩

theorem writesExtra : WritesExtra form.keys extra toJson := by
  intro item
  refine ⟨_, rfl, ?_⟩
  simp only [List.forall_mem_append, List.forall_mem_singleton]
  exact ⟨by decide, keys_member? (by decide) _ _⟩

/-- A field of a panel carries the extra members of the object that it is written as. -/
def Carries (written : Written) (item : PanelField) : Prop :=
  written.CarriedTo form.keys item.toJson

theorem read_takes (depth : Nat) : (form.read depth).Takes Carries :=
  (form_keeps.takes form_proper depth).imp fun _ _ hkept => writesExtra.carriedTo hkept

end PanelField

namespace Panel

theorem form_proper : form.Proper := by
  simp only [Record.Proper, form, List.forall_mem_cons]
  exact ⟨maybe_proper fun _ => Reader.string_takes,
    maybe_proper (Reader.list_takes PanelField.read_takes), by simp⟩

theorem form_keeps : form.Keeps extra := by
  refine ⟨rfl, ?_, _, rfl, fun _ _ _ => rfl⟩
  simp only [form, List.forall_mem_cons]
  exact ⟨Member.leaves_of fun _ _ => rfl, Member.leaves_of fun _ _ => rfl, by simp⟩

theorem form_stores : form.Stores "fields" fields (Nullable (Items PanelField.Carries)) := by
  refine ⟨by decide, ?_, fun _ hkeep _ _ _ => by cases hkeep; rfl⟩
  simp only [form, List.forall_mem_cons]
  exact ⟨.inr ⟨by decide, Member.leaves_of fun _ _ => rfl⟩,
    .inl ⟨rfl, Member.stores_of (fun _ _ => rfl) fun depth =>
      (Reader.list_takes PanelField.read_takes depth).nullable⟩,
    by simp⟩

theorem writesExtra : WritesExtra form.keys extra toJson := by
  intro panel
  refine ⟨_, rfl, ?_⟩
  simp only [List.forall_mem_append]
  exact ⟨keys_member? (by decide) _ _, keys_member? (by decide) _ _⟩

/-- A panel carries the extra members of its object, and so do its fields. -/
structure Carries (written : Written) (panel : Panel) : Prop where
  extra : written.CarriedTo form.keys panel.toJson
  fields : CarriesPart (Items PanelField.Carries) form.keys "fields" written panel.fields

theorem read_takes (depth : Nat) : (form.read depth).Takes Carries :=
  ((form_keeps.takes form_proper depth).and (form_stores.takes form_proper depth)).imp
    fun _ _ h => ⟨writesExtra.carriedTo h.1, h.2⟩

end Panel

/-! ## Sections -/

namespace DisplaySection

theorem form_proper : form.Proper := by
  simp only [Record.Proper, form, List.forall_mem_cons]
  exact ⟨maybe_proper fun _ => Reader.string_takes,
    maybe_proper (Reader.list_takes Panel.read_takes), by simp⟩

theorem form_keeps : form.Keeps extra := by
  refine ⟨rfl, ?_, _, rfl, fun _ _ _ => rfl⟩
  simp only [form, List.forall_mem_cons]
  exact ⟨Member.leaves_of fun _ _ => rfl, Member.leaves_of fun _ _ => rfl, by simp⟩

theorem form_stores : form.Stores "layout" layout (Nullable (Items Panel.Carries)) := by
  refine ⟨by decide, ?_, fun _ hkeep _ _ _ => by cases hkeep; rfl⟩
  simp only [form, List.forall_mem_cons]
  exact ⟨.inr ⟨by decide, Member.leaves_of fun _ _ => rfl⟩,
    .inl ⟨rfl, Member.stores_of (fun _ _ => rfl) fun depth =>
      (Reader.list_takes Panel.read_takes depth).nullable⟩,
    by simp⟩

theorem writesExtra : WritesExtra form.keys extra toJson := by
  intro display
  refine ⟨_, rfl, ?_⟩
  simp only [List.forall_mem_append]
  exact ⟨keys_member? (by decide) _ _, keys_member? (by decide) _ _⟩

/-- A display section carries the extra members of its object, and so do its panels. -/
structure Carries (written : Written) (display : DisplaySection) : Prop where
  extra : written.CarriedTo form.keys display.toJson
  layout : CarriesPart (Items Panel.Carries) form.keys "layout" written display.layout

theorem read_takes (depth : Nat) : (form.read depth).Takes Carries :=
  ((form_keeps.takes form_proper depth).and (form_stores.takes form_proper depth)).imp
    fun _ _ h => ⟨writesExtra.carriedTo h.1, h.2⟩

end DisplaySection

namespace EditSection

theorem form_proper : form.Proper := by
  simp only [Record.Proper, form, List.forall_mem_cons]
  exact ⟨maybe_proper (Reader.list_takes Panel.read_takes), by simp⟩

theorem form_keeps : form.Keeps extra := by
  refine ⟨rfl, ?_, _, rfl, fun _ _ _ => rfl⟩
  simp only [form, List.forall_mem_cons]
  exact ⟨Member.leaves_of fun _ _ => rfl, by simp⟩

theorem form_stores : form.Stores "layout" layout (Nullable (Items Panel.Carries)) := by
  refine ⟨by decide, ?_, fun _ hkeep _ _ _ => by cases hkeep; rfl⟩
  simp only [form, List.forall_mem_cons]
  exact ⟨.inl ⟨rfl, Member.stores_of (fun _ _ => rfl) fun depth =>
      (Reader.list_takes Panel.read_takes depth).nullable⟩, by simp⟩

theorem writesExtra : WritesExtra form.keys extra toJson := by
  intro edit
  exact ⟨_, rfl, keys_member? (by decide) _ _⟩

/-- An edit section carries the extra members of its object, and so do its panels. -/
structure Carries (written : Written) (edit : EditSection) : Prop where
  extra : written.CarriedTo form.keys edit.toJson
  layout : CarriesPart (Items Panel.Carries) form.keys "layout" written edit.layout

theorem read_takes (depth : Nat) : (form.read depth).Takes Carries :=
  ((form_keeps.takes form_proper depth).and (form_stores.takes form_proper depth)).imp
    fun _ _ h => ⟨writesExtra.carriedTo h.1, h.2⟩

end EditSection

/-! ## The search index -/

namespace SearchField

theorem form_proper : form.Proper := by
  simp only [Record.Proper, form, List.forall_mem_cons]
  exact ⟨Member.proper_of fun _ => Reader.string_takes, maybe_proper fun _ => Reader.string_takes,
    maybe_proper (Reader.dict_takes fun _ => Reader.string_takes),
    maybe_proper fun _ => Reader.string_takes, maybe_proper fun _ => Reader.string_takes,
    maybe_proper fun _ => Reader.string_takes, maybe_proper fun _ => Reader.string_takes, by simp⟩

theorem form_keeps : form.Keeps extra := by
  refine ⟨rfl, ?_, _, rfl, fun _ _ _ => rfl⟩
  simp only [form, List.forall_mem_cons]
  exact ⟨Member.leaves_of fun _ _ => rfl, Member.leaves_of fun _ _ => rfl,
    Member.leaves_of fun _ _ => rfl, Member.leaves_of fun _ _ => rfl,
    Member.leaves_of fun _ _ => rfl, Member.leaves_of fun _ _ => rfl,
    Member.leaves_of fun _ _ => rfl, by simp⟩

theorem writesExtra : WritesExtra form.keys extra toJson := by
  intro field
  refine ⟨_, rfl, ?_⟩
  simp only [List.forall_mem_append, List.forall_mem_singleton, and_assoc]
  exact ⟨by decide, keys_member? (by decide) _ _, keys_member? (by decide) _ _,
    keys_member? (by decide) _ _, keys_member? (by decide) _ _, keys_member? (by decide) _ _,
    keys_member? (by decide) _ _⟩

/-- A field of the search index carries the extra members of the object that it is written as. -/
def Carries (written : Written) (field : SearchField) : Prop :=
  written.CarriedTo form.keys field.toJson

theorem read_takes (depth : Nat) : (form.read depth).Takes Carries :=
  (form_keeps.takes form_proper depth).imp fun _ _ hkept => writesExtra.carriedTo hkept

end SearchField

namespace SearchSection

theorem form_proper : form.Proper := by
  simp only [Record.Proper, form, List.forall_mem_cons]
  exact ⟨maybe_proper (Reader.list_takes SearchField.read_takes),
    maybe_proper readPermissions_takes, by simp⟩

theorem form_keeps : form.Keeps extra := by
  refine ⟨rfl, ?_, _, rfl, fun _ _ _ => rfl⟩
  simp only [form, List.forall_mem_cons]
  exact ⟨Member.leaves_of fun _ _ => rfl, Member.leaves_of fun _ _ => rfl, by simp⟩

theorem form_stores : form.Stores "fields" fields (Nullable (Items SearchField.Carries)) := by
  refine ⟨by decide, ?_, fun _ hkeep _ _ _ => by cases hkeep; rfl⟩
  simp only [form, List.forall_mem_cons]
  exact ⟨.inl ⟨rfl, Member.stores_of (fun _ _ => rfl) fun depth =>
      (Reader.list_takes SearchField.read_takes depth).nullable⟩,
    .inr ⟨by decide, Member.leaves_of fun _ _ => rfl⟩, by simp⟩

theorem writesExtra : WritesExtra form.keys extra toJson := by
  intro search
  refine ⟨_, rfl, ?_⟩
  simp only [List.forall_mem_append]
  exact ⟨keys_member? (by decide) _ _, keys_member? (by decide) _ _⟩

/-- A search-index section carries the extra members of its object, and so do its fields. -/
structure Carries (written : Written) (search : SearchSection) : Prop where
  extra : written.CarriedTo form.keys search.toJson
  fields : CarriesPart (Items SearchField.Carries) form.keys "fields" written search.fields

theorem read_takes (depth : Nat) : (form.read depth).Takes Carries :=
  ((form_keeps.takes form_proper depth).and (form_stores.takes form_proper depth)).imp
    fun _ _ h => ⟨writesExtra.carriedTo h.1, h.2⟩

end SearchSection

/-! ## Documents -/

namespace DataSection

theorem form_proper : form.Proper := by
  simp only [Record.Proper, form, List.forall_mem_cons]
  exact ⟨Member.proper_of (Reader.list_takes FieldDeclaration.read_takes),
    Member.proper_of readPermissions_takes, by simp⟩

theorem form_stores {spells : Written → FieldDeclaration → Prop}
    (h : ∀ depth, (FieldDeclaration.form.read depth).Takes spells) :
    form.Stores "fields" fields (Items spells) := by
  refine ⟨by decide, ?_, nofun⟩
  simp only [form, List.forall_mem_cons]
  exact ⟨.inl ⟨rfl, Member.stores_of (fun _ _ => rfl) (Reader.list_takes h)⟩,
    .inr ⟨by decide, Member.leaves_of fun _ _ => rfl⟩, by simp⟩

/-- The fields of a data section carry the extra members of the objects that are written. -/
def Carries (written : Written) (data : DataSection) : Prop :=
  Written.Spells (Items FieldDeclaration.Carries) [] (written.last? form.keys "fields") data.fields

theorem read_takes (depth : Nat) : (form.read depth).Takes Carries :=
  (form_stores FieldDeclaration.read_takes).takes form_proper depth

theorem read_unmodelled (depth : Nat) : (form.read depth).Takes fun _ data =>
    ∀ field ∈ data.fields, ∀ key ∈ FieldDeclaration.form.keys, field.extra.find? key = none := by
  refine ((form_stores FieldDeclaration.read_unmodelled).takes form_proper depth).imp ?_
  intro written data hfields
  rcases hfields.missing_or with hmissing | ⟨-, items, -, hitems⟩
  · rw [hmissing]
    nofun
  · intro field hfield
    obtain ⟨item, -, hunmodelled⟩ := exists_of_forall₂_right hitems hfield
    exact hunmodelled

end DataSection

namespace TypeDocument

theorem form_proper : form.Proper := by
  simp only [Record.Proper, form, List.forall_mem_cons]
  exact ⟨maybe_proper Reader.value_takes, maybe_proper Reader.value_takes,
    maybe_proper DataSection.read_takes, maybe_proper DisplaySection.read_takes,
    maybe_proper EditSection.read_takes, maybe_proper SearchSection.read_takes,
    maybe_proper Reader.value_takes, maybe_proper readStrings_takes,
    maybe_proper readStrings_takes, by simp⟩

theorem form_stores_data {spells : Written → DataSection → Prop}
    (h : ∀ depth, (DataSection.form.read depth).Takes spells) :
    form.Stores "data" data (Nullable spells) := by
  refine ⟨by decide, ?_, nofun⟩
  simp only [form, List.forall_mem_cons]
  refine ⟨?_, ?_, .inl ⟨rfl, Member.stores_of (fun _ _ => rfl) fun depth =>
    (h depth).nullable⟩, ?_, ?_, ?_, ?_, ?_, ?_, by simp⟩
  all_goals exact .inr ⟨by decide, Member.leaves_of fun _ _ => rfl⟩

theorem form_stores_display : form.Stores "display" display (Nullable DisplaySection.Carries) := by
  refine ⟨by decide, ?_, nofun⟩
  simp only [form, List.forall_mem_cons]
  refine ⟨?_, ?_, ?_, .inl ⟨rfl, Member.stores_of (fun _ _ => rfl) fun depth =>
    (DisplaySection.read_takes depth).nullable⟩, ?_, ?_, ?_, ?_, ?_, by simp⟩
  all_goals exact .inr ⟨by decide, Member.leaves_of fun _ _ => rfl⟩

theorem form_stores_edit : form.Stores "edit" edit (Nullable EditSection.Carries) := by
  refine ⟨by decide, ?_, nofun⟩
  simp only [form, List.forall_mem_cons]
  refine ⟨?_, ?_, ?_, ?_, .inl ⟨rfl, Member.stores_of (fun _ _ => rfl) fun depth =>
    (EditSection.read_takes depth).nullable⟩, ?_, ?_, ?_, ?_, by simp⟩
  all_goals exact .inr ⟨by decide, Member.leaves_of fun _ _ => rfl⟩

theorem form_stores_search : form.Stores "es_data" search (Nullable SearchSection.Carries) := by
  refine ⟨by decide, ?_, nofun⟩
  simp only [form, List.forall_mem_cons]
  refine ⟨?_, ?_, ?_, ?_, ?_, .inl ⟨rfl, Member.stores_of (fun _ _ => rfl) fun depth =>
    (SearchSection.read_takes depth).nullable⟩, ?_, ?_, ?_, by simp⟩
  all_goals exact .inr ⟨by decide, Member.leaves_of fun _ _ => rfl⟩

/-- The sections of a document carry what is written for them. -/
structure Carries (written : Written) (doc : TypeDocument) : Prop where
  data : CarriesPart DataSection.Carries form.keys "data" written doc.data
  display : CarriesPart DisplaySection.Carries form.keys "display" written doc.display
  edit : CarriesPart EditSection.Carries form.keys "edit" written doc.edit
  search : CarriesPart SearchSection.Carries form.keys "es_data" written doc.search

theorem read_takes (depth : Nat) : (form.read depth).Takes Carries := by
  have hpresented := (form_stores_display.takes form_proper depth).and
    (form_stores_edit.takes form_proper depth)
  have hlisted := ((form_stores_data DataSection.read_takes).takes form_proper depth).and
    (form_stores_search.takes form_proper depth)
  exact (hpresented.and hlisted).imp fun _ _ h => ⟨h.2.1, h.1.1, h.1.2, h.2.2⟩

/-- A text that is a document is written in one way, and the document carries what is written. -/
theorem carries_of_parse {text : String} {doc : TypeDocument} (h : parse text = .ok doc) :
    ∃ written : Written, Json.scan text.toList = written.tokens ∧ Carries written doc := by
  obtain ⟨written, htokens, hcarries⟩ := (read_takes Json.depthLimit).of_run h
  exact ⟨written, htokens, hcarries⟩

theorem unmodelled_of_parse {text : String} {doc : TypeDocument} (h : parse text = .ok doc)
    {data : DataSection} (hdata : doc.data = some data) {field : FieldDeclaration}
    (hfield : field ∈ data.fields) :
    ∀ key ∈ FieldDeclaration.form.keys, field.extra.find? key = none := by
  obtain ⟨written, -, hstored⟩ := ((form_stores_data DataSection.read_unmodelled).takes form_proper
    Json.depthLimit).of_run h
  rw [hdata] at hstored
  rcases hstored.missing_or with hmissing | ⟨-, ⟨-, hnone⟩ | ⟨found, hfound, hunmodelled⟩⟩
  · cases hmissing
  · cases hnone
  · cases hfound
    exact hunmodelled field hfield

end TypeDocument

end SchemaLink
