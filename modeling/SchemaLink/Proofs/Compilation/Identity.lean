import SchemaLink.Proofs.Compilation.Lookups
import SchemaLink.Proofs.Linker.Anchors

/-! # The name `id`

A lookup binds the name `id` to itself from the start. A declared field of that name takes its
place, so the name stands for the identity of a type just if none does. A path that ends in the
name has the identity among its variants just if it leads to such a type. -/

namespace SchemaLink

/-! ## Fields where walks end -/

/-- What is behind the hops of a path can be told from the whole text. -/
theorem intercalate_concat_inj {segments : List String} {last last' : String} :
    "->".intercalate (segments ++ [last]) = "->".intercalate (segments ++ [last']) ↔
      last = last' := by
  obtain ⟨front, hfront⟩ := Text.exists_front_intercalate "->" segments
  rw [hfront, hfront, String.append_right_inj]

namespace Linker

/-- A walk along the hops of a path ends at the type. -/
def WalksTo (linker : Linker) (path : Path) (scope : Scope) (type : TypeRef) : Prop :=
  ∃ start ∈ scope.types, ∃ picks ∈ linker.walks path.hops, walkEnd start picks = type

variable {linker : Linker} {path : Path} {scope : Scope} {type : TypeRef}

theorem targets_ne_nil_of_mem_walks {hops : List Hop} {picks : List String}
    (h : picks ∈ linker.walks hops) : ∀ hop ∈ hops, linker.targets hop ≠ [] := by
  induction hops generalizing picks with
  | nil => exact List.forall_mem_nil _
  | cons hop hops ih =>
      rcases List.mem_flatMap.1 h with ⟨target, htarget, h⟩
      rcases List.mem_map.1 h with ⟨rest, hrest, -⟩
      exact List.forall_mem_cons.2 ⟨List.ne_nil_of_mem htarget, ih hrest⟩

/-- All relations on the way of a walk are registered. -/
theorem WalksTo.exists_segments (h : linker.WalksTo path scope type) :
    ∃ segments, linker.segments? path.hops = some segments := by
  rcases h with ⟨-, -, picks, hpicks, -⟩
  exact linker.exists_segments (targets_ne_nil_of_mem_walks hpicks)

/-- An id is behind the hops of a path to a field just if the field has it where a walk ends. -/
theorem mem_variants_field_iff {name id : String} {segments : List String}
    (hname : path.terminal = .field name) (hsegments : linker.segments? path.hops = some segments) :
    "->".intercalate (segments ++ ["$" ++ id]) ∈ linker.variants path scope ↔
      ∃ type, linker.WalksTo path scope type ∧ linker.symbols.fieldId? type name = some id := by
  have hterminal : ∀ type, "$" ++ id ∈ linker.terminalTexts scope type path.terminal ↔
      linker.symbols.fieldId? type name = some id := by
    intro type
    rw [hname, terminalTexts]
    cases linker.symbols.fieldId? type name with
    | none => simp
    | some found => simp [eq_comm]
  rw [variants_eq_distinct, mem_distinct, walkTexts, hsegments]
  simp only [List.mem_flatMap, List.mem_map, intercalate_concat_inj, exists_eq_right, hterminal]
  constructor
  · rintro ⟨start, hstart, picks, hpicks, hid⟩
    exact ⟨_, ⟨start, hstart, picks, hpicks, rfl⟩, hid⟩
  · rintro ⟨-, ⟨start, hstart, picks, hpicks, rfl⟩, hid⟩
    exact ⟨start, hstart, picks, hpicks, hid⟩

end Linker

/-! ## The identity of a type -/

/-- No field is declared in the place of the synthetic one, or the last that is was given its id. -/
def DataSection.KeepsIdentity (data : DataSection) (given : List String) : Prop :=
  ∀ id, (idsOfName "id" data.fields given).getLast? = some id → id = "id"

section Reports

variable {σ : Type} {ids : IdAllocator σ} {registry : Registry} {documents : AuthoredTypes}
  {state state' : σ} {report : Report}

theorem fieldId?_id_iff (h : compile ids registry documents state = (.ok report, state'))
    {type : TypeRef} {doc : TypeDocument} {data : DataSection}
    (hdoc : documents.find? type = some doc) (hdata : doc.data = some data) :
    report.symbols.fieldId? type "id" = some "id" ↔
      data.KeepsIdentity (ids.given documents state type) := by
  rw [fieldId?_of_compile h hdoc hdata, DataSection.KeepsIdentity]
  cases (idsOfName "id" data.fields (ids.given documents state type)).getLast? with
  | none => simp
  | some id => simp

/-- The name `id` is bound to itself just where no other field has taken its place, and a path that
ends in it stands for the identity behind its hops just if it leads to such a type. -/
theorem identity_kept_iff (h : compile ids registry documents state = (.ok report, state')) :
    (∀ type doc data, documents.find? type = some doc → doc.data = some data →
      (report.symbols.fieldId? type "id" = some "id" ↔
        data.KeepsIdentity (ids.given documents state type))) ∧
    ∀ (registry' : Registry) (path : Path) (scope : Scope) (type : TypeRef),
      let linker : Linker := ⟨registry', report.symbols⟩
      path.terminal = .field "id" → linker.WalksTo path scope type →
      ∃ segments, linker.segments? path.hops = some segments ∧
        ("->".intercalate (segments ++ ["$id"]) ∈ linker.variants path scope ↔
          ∃ type doc data, linker.WalksTo path scope type ∧
            documents.find? type = some doc ∧ doc.data = some data ∧
            data.KeepsIdentity (ids.given documents state type)) := by
  refine ⟨fun type doc data hdoc hdata => fieldId?_id_iff h hdoc hdata, ?_⟩
  intro registry' path scope type linker hterminal hwalk
  obtain ⟨segments, hsegments⟩ := hwalk.exists_segments
  have hidentity : "->".intercalate (segments ++ ["$" ++ "id"]) ∈ linker.variants path scope ↔ _ :=
    Linker.mem_variants_field_iff hterminal hsegments
  refine ⟨segments, hsegments, hidentity.trans ?_⟩
  constructor
  · rintro ⟨type, hwalk, hid⟩
    rcases Option.bind_eq_some_iff.1 hid with ⟨lookup, hlookup, -⟩
    obtain ⟨doc, data, hdoc, hdata⟩ := find?_of_lookup?_report h hlookup
    exact ⟨type, doc, data, hwalk, hdoc, hdata, (fieldId?_id_iff h hdoc hdata).1 hid⟩
  · rintro ⟨type, doc, data, hwalk, hdoc, hdata, hkeeps⟩
    exact ⟨type, hwalk, (fieldId?_id_iff h hdoc hdata).2 hkeeps⟩

end Reports

/-! ## Articles beside books with an `id` of their own -/

def worksRegistry : Registry where
  relations := some (.ofList [
    ("edited", { id := "R2", domain := ["editor"], range := ["book"] }),
    ("wrote", { id := "R1", domain := ["author"], range := ["article", "book"] })])

def identifiedBook : TypeDocument where
  data := some { fields := [{ systemName := "id" }, { systemName := "title" }] }

/-- Of two works, books alone declare a field under the name of the synthetic one. -/
def works : AuthoredTypes := .ofList [
  (.entity "article", { data := some { fields := [{ systemName := "title" }] } }),
  (.entity "book", identifiedBook)]

/-- What the works publish. -/
def worksSymbols : SymbolTable :=
  (SymbolTable.empty.publish (.entity "article") (.ofList [("title", "n")])).publish
    (.entity "book") (.ofList [("id", "nn"), ("title", "nnn")])

theorem exists_report_works : ∃ report state,
    compile (StableIds.allocate lengthening) worksRegistry works (.start .empty 1) =
      (.ok report, state) ∧ report.symbols = worksSymbols := by
  have hok : (compile (StableIds.allocate lengthening) worksRegistry works
    (.start .empty 1)).1.isOk = true := rfl
  obtain ⟨report, state, hreport⟩ := exists_report hok
  have hpublished : (compile (StableIds.allocate lengthening) worksRegistry works
      (.start .empty 1)).1.toOption.map Report.symbols = some worksSymbols := rfl
  rw [hreport] at hpublished
  exact ⟨report, state, hreport, Option.some.inj hpublished⟩

/-- Articles are identified by the name, and so is what an author wrote, as there are articles among
that. -/
theorem identity_of_article : ∃ report state,
    compile (StableIds.allocate lengthening) worksRegistry works (.start .empty 1) =
        (.ok report, state) ∧
      report.symbols.fieldId? (.entity "article") "id" = some "id" ∧
      "$r_R1->$id" ∈ Linker.variants ⟨worksRegistry, report.symbols⟩
        ⟨[⟨.forward, "wrote"⟩], .field "id"⟩ (.own (.entity "author")) := by
  obtain ⟨report, state, hreport, hsymbols⟩ := exists_report_works
  obtain ⟨hlookups, hpaths⟩ := identity_kept_iff hreport
  have harticle : DataSection.KeepsIdentity { fields := [{ systemName := "title" }] }
      ((StableIds.allocate lengthening).given works (.start .empty 1) (.entity "article")) := by
    rintro id ⟨⟩
  let written : Path := ⟨[⟨.forward, "wrote"⟩], .field "id"⟩
  have hwalk : Linker.WalksTo ⟨worksRegistry, report.symbols⟩ written (.own (.entity "author"))
      (.entity "article") := by
    rw [hsymbols]
    exact ⟨.entity "author", List.mem_singleton_self _, ["article"], by decide, rfl⟩
  obtain ⟨segments, hsegments, hmem⟩ := hpaths worksRegistry written _ _ rfl hwalk
  rw [hsymbols] at hsegments
  obtain rfl : segments = ["$r_R1"] := Option.some.inj (hsegments.symm.trans (by decide))
  exact ⟨report, state, hreport, (hlookups _ _ _ rfl rfl).2 harticle,
    hmem.2 ⟨_, _, _, hwalk, rfl, rfl, harticle⟩⟩

/-- Books are not identified by the name: it is bound to the id of the field that they declare, and
that is what it stands for where editors lead to nothing but books. -/
theorem declared_id_replaces_identity : ∃ report state,
    compile (StableIds.allocate lengthening) worksRegistry works (.start .empty 1) =
        (.ok report, state) ∧
      report.symbols.fieldId? (.entity "book") "id" = some "nn" ∧
      Linker.variants ⟨worksRegistry, report.symbols⟩ ⟨[], .field "id"⟩ (.own (.entity "book")) =
        ["$nn"] ∧
      Linker.variants ⟨worksRegistry, report.symbols⟩ ⟨[⟨.forward, "edited"⟩], .field "id"⟩
        (.own (.entity "editor")) = ["$r_R2->$nn"] := by
  obtain ⟨report, state, hreport, hsymbols⟩ := exists_report_works
  refine ⟨report, state, hreport, ?_⟩
  rw [hsymbols]
  decide +kernel

end SchemaLink
