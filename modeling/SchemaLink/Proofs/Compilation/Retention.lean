import SchemaLink.Proofs.Compilation.GivenIds
import SchemaLink.Proofs.Ids.PriorOutput

/-! # Ids kept from one compilation to the next

Whatever was edited since the last output of a type was written, the declarations of a
name are given the ids that the name had in it, the smallest first. Only where there are
more declarations than before are ids minted. -/

namespace SchemaLink

/-! ## Ids in output -/

/-- The ids of the fields that bear a name, in ascending order. -/
def CompiledDocument.idsOf (doc : CompiledDocument) (name : String) : List String :=
  match doc.data with
  | none => []
  | some data => (data.fields.toList.filter fun entry => entry.2.systemName = name).map Prod.fst

theorem CompiledDocument.idsOf_eq (doc : CompiledDocument) (name : String) :
    doc.idsOf name = idsNamed doc.systemNames name := by
  unfold idsOf systemNames
  cases doc.data with
  | none => rfl
  | some data =>
      simp only [idsNamed, SortedMap.mapWithKey, List.filter_map, List.map_map]
      apply congrArg
      apply List.filter_congr
      intro entry _
      simp [BEq.beq]

theorem CompiledDocument.idsOf_ascending (doc : CompiledDocument) (name : String) :
    (doc.idsOf name).Pairwise fun a b => compare a b = .lt := by
  rw [idsOf_eq]
  exact idsNamed_ascending _ _

/-- The text of a compiled document leaves the ids of its fields on record. -/
theorem History.ids_absorbText_text {owner : TypeRef} {prev : CompiledDocument} {indent count : Nat}
    {alone : History} (h : empty.absorbText owner (prev.text indent) = .ok (count, alone))
    (name : String) : alone.ids owner name = prev.idsOf name := by
  unfold absorbText at h
  cases hread : readOutput (prev.text indent) with
  | error fault => rw [hread] at h; cases h
  | ok names =>
      rw [hread] at h
      cases h
      rcases CompiledDocument.readOutput_text_eq_ok_iff.1 hread with ⟨-, rfl⟩
      rw [ids_absorb_first _ _ _ _ rfl, CompiledDocument.idsOf_eq]

/-! ## Ids given again -/

section Retention

variable {μ : Type} {mint : μ → String × μ} {minter : μ} {registry : Registry}
  {documents : AuthoredTypes} {history alone : History} {owner : TypeRef} {prev : CompiledDocument}
  {doc : TypeDocument} {indent count : Nat} {report : Report} {state : StableIds μ}

/-- The declarations of a name are given the smallest ids that it had in the last output of the
type, as many as there are, and then new ones. -/
theorem given_from_previous_output
    (hprev : History.empty.absorbText owner (prev.text indent) = .ok (count, alone))
    (hrecord : ∀ name, history.ids owner name = alone.ids owner name)
    (hfresh : Fresh mint history.Holds minter) (hdoc : documents.find? owner = some doc)
    (hcompile : compile (StableIds.allocate mint) registry documents (.start history minter) =
      (.ok report, state)) :
    let given := (StableIds.allocate mint).given documents (.start history minter) owner
    (given.length = doc.declared.length ∧ ∀ data, doc.data = some data →
      ∃ compiled resolved, report.documents.find? owner = some compiled ∧
        data.resolve registry = .ok resolved ∧ compiled.data = some (resolved.compiled given)) ∧
    ∀ name,
      let old := prev.idsOf name
      let declarations := doc.declared.countP fun field => field.systemName = name
      old.Pairwise (fun a b => compare a b = .lt) ∧
      (∃ minted, idsOfName name doc.declared given = old.take declarations ++ minted ∧
        minted.length = declarations - old.length ∧ minted.Nodup ∧
        (∃ draws, minted.Sublist (drawn mint draws minter)) ∧
        ∀ id ∈ minted, ¬ history.Holds id) ∧
      ∀ id, old = [id] → declarations = 1 → idsOfName name doc.declared given = [id] := by
  intro given
  have hlength : given.length = doc.declared.length := IdAllocator.length_given _ _ hdoc
  refine ⟨⟨hlength, fun data hdata => ?_⟩, fun name => ?_⟩
  · obtain ⟨compiled, hfound, hcompiled⟩ := report_of_compile hcompile hdoc
    rw [hdata] at hcompiled
    rcases hcompiled with ⟨resolved, hresolved, hfields, -⟩
    exact ⟨compiled, resolved, hfound, hresolved, hfields⟩
  · intro old declarations
    have hold : history.ids owner name = old :=
      (hrecord name).trans (History.ids_absorbText_text hprev name)
    obtain ⟨draws, minted, hsub, hminted, hgiven⟩ :=
      idsOfName_stable mint history minter hdoc name
    rw [hold] at hminted hgiven
    refine ⟨prev.idsOf_ascending name, ⟨minted, hgiven, hminted, (hfresh.nodup draws).sublist hsub,
      ⟨draws, hsub⟩, fun id hid => hfresh.not_taken (hsub.subset hid)⟩, ?_⟩
    intro id hone hdeclared
    have hnone : minted = [] := by
      refine List.eq_nil_of_length_eq_zero ?_
      rw [hminted, hone]
      change declarations - 1 = 0
      omega
    rw [hgiven, hnone, List.append_nil, hone]
    change List.take declarations [id] = [id]
    rw [hdeclared]
    rfl

/-! ## A third title -/

/-- Output of a type with two fields of one name. -/
def twoTitles : CompiledDocument where
  data := some { fields := .ofList [
    ("b", { systemName := "title" }),
    ("a", { systemName := "title" })] }

/-- The type after a third such field was declared, and another field in front. -/
def threeTitles : TypeDocument where
  data := some { fields := { systemName := "isbn" } :: List.replicate 3 { systemName := "title" } }

def books : AuthoredTypes := .ofList [(.entity "book", threeTitles)]

/-- What is on record after the output of the type and of another one. -/
def titlesOnRecord : History :=
  (History.empty.absorb (.entity "book") twoTitles.systemNames).insert
    (.entity "author") "title" "c"

theorem given_from_two_titles :
    ∃ report state, compile (StableIds.allocate lengthening) {} books (.start titlesOnRecord 2) =
        (.ok report, state) ∧
      ∃ minted, idsOfName "title" threeTitles.declared
          ((StableIds.allocate lengthening).given books (.start titlesOnRecord 2)
            (.entity "book")) = ["a", "b"] ++ minted ∧ minted.length = 1 := by
  have hread : History.readOutput (twoTitles.text 2) = .ok twoTitles.systemNames := by
    refine CompiledDocument.readOutput_text_eq_ok_iff.2 ⟨?_, rfl⟩
    rintro _ ⟨⟩ field hfield
    have hfields : field ∈ List.replicate 2 ({ systemName := "title" } : FieldDeclaration) := hfield
    rw [List.eq_of_mem_replicate hfields]
    rfl
  have hprev : History.empty.absorbText (.entity "book") (twoTitles.text 2) =
      .ok (2, History.empty.absorb (.entity "book") twoTitles.systemNames) := by
    rw [History.absorbText, hread]
    rfl
  have hrecord : ∀ name, titlesOnRecord.ids (.entity "book") name =
      (History.empty.absorb (.entity "book") twoTitles.systemNames).ids (.entity "book") name :=
    fun name => History.ids_insert_of_ne _ _ (by simp [TypeRef.entity])
  have hshort : ∀ id, titlesOnRecord.Holds id → id.length < 2 := by
    intro id hid
    have hinserts : titlesOnRecord = ((History.empty.insert (.entity "book") "title" "a").insert
        (.entity "book") "title" "b").insert (.entity "author") "title" "c" := rfl
    rw [hinserts] at hid
    rcases hid.of_insert with hid | rfl
    · rcases hid.of_insert with hid | rfl
      · rcases hid.of_insert with hid | rfl
        · exact absurd hid (History.not_holds_empty id)
        · decide
      · decide
    · decide
  have hdoc : books.find? (.entity "book") = some threeTitles := rfl
  have hok : (compile (StableIds.allocate lengthening) {} books
    (.start titlesOnRecord 2)).1.isOk = true := rfl
  obtain ⟨report, state, hreport⟩ := exists_report hok
  obtain ⟨-, hnames⟩ := given_from_previous_output hprev hrecord (fresh_lengthening hshort) hdoc
    hreport
  obtain ⟨-, ⟨minted, hgiven, hlength, -⟩, -⟩ := hnames "title"
  exact ⟨report, state, hreport, minted, hgiven, hlength⟩

end Retention

end SchemaLink
