import SchemaLink.Proofs.Ids.Recording
import SchemaLink.Proofs.Json.Presence

/-! # What a history holds

Whatever is inserted and whatever texts are absorbed, a history holds the ids that were recorded,
each under the type and the name that it was recorded for. A text that is accepted records the last
field that it writes under each id, and a text that is refused records none. -/

namespace SchemaLink

open Json (Member Quotation Record Reader Written)
open Json.Reader (Entries Nullable Takes)

/-! ## Fields in a text -/

/-- The system name that a written field gives. -/
def Json.Written.fieldName? (written : Written) : Option String :=
  match (written.last? recordedFieldForm.keys "system_name").bind Written.value with
  | some (.string name) => some name
  | _ => none

/-- The fields of written output in the order of the text, each an id and a system name. -/
def Json.Written.fields (written : Written) : List (String × String) :=
  let fields? := (written.last? recordedDocumentForm.keys "data").bind fun data =>
    data.last? recordedDataForm.keys "fields"
  fields?.elim [] fun fields =>
    (fields.members []).filterMap fun (id, field) => field.fieldName?.map fun name => (id, name)

/-- Fields by ascending id that are the last of written output under their ids. -/
structure Json.Written.LastFields (written : Written) (fields : List (String × String)) : Prop where
  ascending : (fields.map Prod.fst).Pairwise (· < ·)
  mem_iff : ∀ id name, (id, name) ∈ fields ↔ ∃ front back,
    written.fields = front ++ (id, name) :: back ∧ id ∉ back.map Prod.fst

theorem recordedFieldForm_proper : recordedFieldForm.Proper := by
  simp only [Record.Proper, recordedFieldForm, List.forall_mem_singleton]
  exact Member.proper_of fun _ => Reader.string_takes

theorem recordedFieldForm_stores :
    recordedFieldForm.Stores "system_name" id fun written name =>
      written.value = some (.string name) := by
  refine ⟨by decide, ?_, nofun⟩
  simp only [recordedFieldForm, List.forall_mem_singleton]
  exact .inl ⟨rfl, Member.stores_of (fun _ _ => rfl) fun _ => Reader.string_takes⟩

theorem recordedFieldForm_takes (depth : Nat) :
    (recordedFieldForm.read depth).Takes fun written name => written.fieldName? = some name := by
  refine ((recordedFieldForm_stores.takes recordedFieldForm_proper depth).and
    (Record.takes_required recordedFieldForm_proper depth)).imp ?_
  rintro written name ⟨hspells, hrequired⟩
  have hsome : (written.last? recordedFieldForm.keys "system_name").isSome :=
    hrequired _ (.head _) rfl
  obtain ⟨value, hvalue⟩ := Option.isSome_iff_exists.1 hsome
  have hname : value.value = some (.string name) := by
    rw [hvalue] at hspells
    exact hspells
  rw [Written.fieldName?, hvalue, Option.bind_some, hname]

theorem recordedDataForm_proper : recordedDataForm.Proper := by
  simp only [Record.Proper, recordedDataForm, List.forall_mem_singleton]
  exact Member.proper_of (Reader.dict_takes recordedFieldForm_takes)

theorem recordedDataForm_stores :
    recordedDataForm.Stores "fields" id (Entries fun written name =>
      written.fieldName? = some name) := by
  refine ⟨by decide, ?_, nofun⟩
  simp only [recordedDataForm, List.forall_mem_singleton]
  exact .inl ⟨rfl, Member.stores_of (fun _ _ => rfl) (Reader.dict_takes recordedFieldForm_takes)⟩

theorem recordedDocumentForm_stores :
    recordedDocumentForm.Stores "data" id (Nullable fun written names =>
      Written.Spells (Entries fun written name => written.fieldName? = some name) ∅
        (written.last? recordedDataForm.keys "fields") names) := by
  refine ⟨by decide, ?_, nofun⟩
  simp only [recordedDocumentForm, List.forall_mem_singleton]
  exact .inl ⟨rfl, Member.stores_of (fun _ _ => rfl) fun depth =>
    (recordedDataForm_stores.takes recordedDataForm_proper depth).nullable⟩

theorem recordedDocumentForm_proper : recordedDocumentForm.Proper := by
  simp only [Record.Proper, recordedDocumentForm, List.forall_mem_singleton]
  exact Member.proper_of fun depth =>
    (recordedDataForm_stores.takes recordedDataForm_proper depth).nullable

/-- The members that entries are read from are these entries, in the order of the text. -/
theorem Json.Written.filterMap_members {members : List (Quotation × Written)}
    {entries : List (String × String)}
    (h : List.Forall₂ (fun member entry => member.1.kept = .ok entry.1 ∧
      member.2.fieldName? = some entry.2) members entries) :
    ((Written.object members).members []).filterMap (fun (id, field) =>
      field.fieldName?.map fun name => (id, name)) = entries := by
  rw [Written.members]
  induction h with
  | nil => rfl
  | @cons member entry members entries hfirst hrest ih =>
      simp only [List.filterMap_cons, hfirst.1, Except.toOption, Option.map_some, hfirst.2]
      exact congrArg (entry :: ·) ih

namespace History

/-- An accepted text is written output, and of its fields the last under each id counts. -/
theorem readOutput_eq_ok {text : String} {names : SortedMap String String}
    (h : readOutput text = .ok names) : ∃ written : Written,
      Json.scan text.toList = written.tokens ∧ names = SortedMap.ofList written.fields := by
  obtain ⟨data?, hparse, rfl⟩ := exists_of_map_eq_ok h
  obtain ⟨written, hscan, hdata⟩ :=
    (recordedDocumentForm_stores.takes recordedDocumentForm_proper _).of_run hparse
  refine ⟨written, hscan, ?_⟩
  rw [Written.fields]
  cases hwritten : written.last? recordedDocumentForm.keys "data" with
  | none =>
      rw [hwritten] at hdata
      obtain rfl : data? = none := hdata
      rfl
  | some data =>
      rw [hwritten] at hdata
      rcases hdata with ⟨rfl, hnone⟩ | ⟨names, hnames, hfields⟩
      · obtain rfl : data? = none := hnone
        rfl
      · obtain rfl : data? = some names := hnames
        cases hlast : data.last? recordedDataForm.keys "fields" with
        | none =>
            rw [hlast] at hfields
            obtain rfl : names = ∅ := hfields
            simp only [Option.bind_some, hlast]
            rfl
        | some fields =>
            rw [hlast] at hfields
            obtain ⟨members, entries, rfl, hentries, rfl⟩ := hfields
            simp only [Option.bind_some, hlast, Option.elim_some, Option.getD_some,
              Written.filterMap_members hentries]

/-! ## Operations -/

/-- What puts fields on record. -/
inductive Operation where
  | insert (type : TypeRef) (name id : String)
  | absorb (type : TypeRef) (text : String)

/-- The history after an operation. -/
def perform (history : History) : Operation → History
  | .insert type name id => history.insert type name id
  | .absorb type text => history.recordText (type, text)

/-- The fields that an operation records, one after another. -/
def Operation.recorded : Operation → List ((TypeRef × String) × String)
  | .insert type name id => [((type, name), id)]
  | .absorb type text => entriesOf type ((readOutput text).toOption.getD ∅)

theorem perform_eq_foldl (history : History) (operation : Operation) :
    history.perform operation = operation.recorded.foldl record history := by
  cases operation with
  | insert type name id => rfl
  | absorb type text => rw [perform, recordText_eq, absorb_eq_foldl, Operation.recorded]

theorem foldl_perform (history : History) (operations : List Operation) :
    operations.foldl perform history =
      (operations.flatMap Operation.recorded).foldl record history := by
  rw [List.foldl_flatMap]
  exact congrArg (fun step => operations.foldl step history)
    (funext₂ fun history operation => history.perform_eq_foldl operation)

theorem isEmpty_record (history : History) (entry : (TypeRef × String) × String) :
    (history.record entry).isEmpty = false := by
  refine List.all_eq_false.2 ⟨_, List.mem_map_of_mem (SortedMap.find?_eq_some_iff.1
    (SortedMap.find?_insert_self _ entry.1.1 _)), ?_⟩
  simp

/-- Nothing that is recorded is taken off the record. -/
theorem isEmpty_foldl_record (history : History) (entries : List ((TypeRef × String) × String)) :
    (entries.foldl record history).isEmpty = (history.isEmpty && entries.isEmpty) := by
  induction entries generalizing history with
  | nil => simp
  | cons entry entries ih => simp [ih, isEmpty_record]

theorem recorded_of_refused {history : History} {type : TypeRef} {text : String}
    {fault : Json.Fault} (h : history.absorbText type text = .error fault) :
    history.perform (.absorb type text) = history ∧
      (Operation.absorb type text).recorded = [] := by
  refine ⟨by rw [perform, recordText, h], ?_⟩
  rw [absorbText] at h
  rw [Operation.recorded]
  cases hread : readOutput text with
  | error fault => rfl
  | ok names =>
      rw [hread] at h
      cases h

theorem recorded_of_accepted {history after : History} {type : TypeRef} {text : String}
    {count : Nat} (h : history.absorbText type text = .ok (count, after)) :
    history.perform (.absorb type text) = after ∧ ∃ written fields,
      Json.scan text.toList = Written.tokens written ∧ written.LastFields fields ∧
      (Operation.absorb type text).recorded =
        fields.map fun field => ((type, field.2), field.1) := by
  refine ⟨by rw [perform, recordText, h], ?_⟩
  obtain ⟨names, hread, -⟩ := exists_of_map_eq_ok h
  obtain ⟨written, hscan, hnames⟩ := readOutput_eq_ok hread
  refine ⟨written, names.toList, hscan, ⟨?_, fun id name => ?_⟩, ?_⟩
  · exact List.pairwise_map.2 (names.ascending.imp compareOfLessAndEq_eq_lt.1)
  · rw [← SortedMap.find?_eq_some_iff, hnames, SortedMap.find?_ofList_eq_some_iff]
  · rw [Operation.recorded, hread]
    rfl

/-- Whatever is inserted and absorbed, the ids of a field are those that were recorded for its type
and its name, in the order in which they came first. A text that is refused changes nothing, and one
that is accepted records the last field under each of its ids, by ascending id. -/
theorem holds_what_was_recorded (operations : List Operation) :
    let history := operations.foldl perform empty
    let entries := operations.flatMap Operation.recorded
    (∀ type name,
      history.ids type name =
        ((entries.filter fun entry => entry.1 == (type, name)).map Prod.snd).eraseDups ∧
      history.first? type name = (history.ids type name).head?) ∧
    (history.isEmpty = true ↔ entries = []) ∧
    ∀ (before : History) (type : TypeRef) (text : String),
      (∀ fault, before.absorbText type text = .error fault →
        before.perform (.absorb type text) = before ∧
        (Operation.absorb type text).recorded = []) ∧
      (∀ count after, before.absorbText type text = .ok (count, after) →
        before.perform (.absorb type text) = after ∧ ∃ written fields,
          Json.scan text.toList = Written.tokens written ∧ written.LastFields fields ∧
          (Operation.absorb type text).recorded =
            fields.map fun field => ((type, field.2), field.1)) := by
  intro history entries
  have hhistory : history = entries.foldl record empty := foldl_perform empty operations
  refine ⟨fun type name => ⟨?_, rfl⟩, ?_, fun before type text =>
    ⟨fun fault => recorded_of_refused, fun count after => recorded_of_accepted⟩⟩
  · rw [hhistory, ids_foldl_record, ids_empty, ← distinct_eq_eraseDups]
    rfl
  · rw [hhistory, isEmpty_foldl_record, Bool.and_eq_true, List.isEmpty_iff]
    exact and_iff_right rfl

/-! ## A field with two names -/

/-- Output that writes a field twice, the second time with another name. -/
def renamedOutput : String :=
  "\x7b\"data\": \x7b\"fields\": \x7b\"f1\": \x7b\"system_name\": \"year\"\x7d, " ++
  "\"f2\": \x7b\"system_name\": \"title\"\x7d, \"f1\": [\"title\"]\x7d\x7d\x7d"

/-- How the output is written. -/
def renamedWritten : Written :=
  let text (content : String) : Quotation := ⟨.ok content, .ok ()⟩
  .object [(text "data", .object [(text "fields", .object [
    (text "f1", .object [(text "system_name", .string (text "year"))]),
    (text "f2", .object [(text "system_name", .string (text "title"))]),
    (text "f1", .list [.string (text "title")])])])]

set_option maxRecDepth 2000 in
theorem scan_renamedOutput : Json.scan renamedOutput.toList = renamedWritten.tokens := by
  with_unfolding_all rfl

theorem readOutput_renamed :
    readOutput renamedOutput = .ok (.ofList [("f1", "title"), ("f2", "title")]) := by
  rw [readOutput, Record.parse, Reader.run, scan_renamedOutput]
  rfl

/-- A title on record, the output, a text that breaks off, and a title of a relation. -/
def renamings : List Operation :=
  [.insert (.entity "book") "title" "f2", .absorb (.entity "book") renamedOutput,
    .absorb (.entity "book") "[", .insert (.relation "book") "title" "f2"]

/-- The title keeps the id that was first on record, and the year has none. -/
theorem renamings_on_record :
    let history := renamings.foldl perform empty
    history.ids (.entity "book") "title" = ["f2", "f1"] ∧
    history.first? (.entity "book") "title" = some "f2" ∧
    history.ids (.entity "book") "year" = [] ∧
    history.ids (.relation "book") "title" = ["f2"] ∧
    history.isEmpty = false ∧
    (∃ fault, history.absorbText (.entity "book") "[" = .error fault ∧
      history.perform (.absorb (.entity "book") "[") = history) ∧
    ∃ count after, history.absorbText (.relation "book") renamedOutput = .ok (count, after) ∧
      ∃ fields, renamedWritten.LastFields fields ∧
        (Operation.absorb (.relation "book") renamedOutput).recorded =
          fields.map fun field => ((.relation "book", field.2), field.1) := by
  intro history
  have hbroken : readOutput "[" = .error .unfinished := by with_unfolding_all rfl
  have hentries : renamings.flatMap Operation.recorded =
      [((.entity "book", "title"), "f2"), ((.entity "book", "title"), "f1"),
        ((.entity "book", "title"), "f2"), ((.relation "book", "title"), "f2")] := by
    simp only [renamings, List.flatMap_cons, Operation.recorded, readOutput_renamed, hbroken]
    rfl
  obtain ⟨hids, hempty, htexts⟩ := holds_what_was_recorded renamings
  rw [hentries] at hids hempty
  have hrefused : history.absorbText (.entity "book") "[" = .error .unfinished := by
    rw [absorbText, hbroken]
    rfl
  have haccepted : history.absorbText (.relation "book") renamedOutput =
      .ok (2, history.absorb (.relation "book") (.ofList [("f1", "title"), ("f2", "title")])) := by
    rw [absorbText, readOutput_renamed]
    rfl
  refine ⟨(hids _ _).1.trans rfl, ?_, (hids _ _).1.trans rfl, (hids _ _).1.trans rfl, ?_,
    ⟨_, hrefused, ((htexts history _ _).1 _ hrefused).1⟩, _, _, haccepted, ?_⟩
  · exact (hids _ _).2.trans (congrArg List.head? ((hids _ _).1.trans rfl))
  · exact Bool.eq_false_iff.2 (mt hempty.1 (List.cons_ne_nil _ _))
  · obtain ⟨-, written, fields, hscan, hfields, hrecorded⟩ := (htexts history _ _).2 _ _ haccepted
    have hwritten : renamedWritten.tokens ++ [] = written.tokens ++ [] := by
      rw [← scan_renamedOutput, hscan]
    obtain ⟨rfl, -⟩ := Written.tokens_inj _ _ hwritten
    exact ⟨fields, hfields, hrecorded⟩

end History

end SchemaLink
