import SchemaLink.Compilation.Presentation
import SchemaLink.Proofs.Linker.Extension
import SchemaLink.Proofs.Path.Covering

/-! # Templates that vanish

A template with paths vanishes if no text is left of it. An alternative is lost with any path that
has no variant, and one in which nothing is written is never lost, though nothing is seen of it. So
a template vanishes just if all alternatives are lost but those in which nothing is written. -/

namespace SchemaLink

/-- The paths in a text, in order. -/
def Path.occurrences (text : String) : List Path :=
  (Segment.ofString text).filterMap Segment.path?

theorem Segment.ofString_empty : ofString "" = [] := by
  rw [ofString, Lexeme.ofString, String.toList_empty, Lexeme.scan, ofLexemes]

/-- Nothing is written between segments just if there is nothing to cut into them. -/
theorem Segment.forall_eq_literal_empty_iff {text : String} :
    (∀ segment ∈ ofString text, segment = .literal "") ↔ text = "" := by
  have hsources : ∀ segment ∈ ofString text, segment.source ≠ "" :=
    source_ne_empty fun lexeme hlexeme => Lexeme.source_ne_empty_of_mem_scan hlexeme
  constructor
  · intro h
    have hnone : ofString text = [] := List.eq_nil_iff_forall_not_mem.2 fun segment hsegment =>
      hsources segment hsegment (congrArg source (h segment hsegment))
    rw [← join_ofString text, hnone]
    rfl
  · rintro rfl
    rw [ofString_empty]
    exact List.forall_mem_nil _

namespace Linker

variable (linker : Linker)

/-- The text has a path without a variant. -/
def Lost (scope : Scope) (text : String) : Prop :=
  ∃ path ∈ Path.occurrences text, linker.variants path scope = []

theorem not_lost_empty (scope : Scope) : ¬ linker.Lost scope "" := by
  rintro ⟨path, hpath, -⟩
  rw [Path.occurrences, Segment.ofString_empty] at hpath
  cases hpath

/-- Nothing is written in what an alternative becomes if it is lost or nothing was written in it. -/
theorem forall_fillings_iff_lost (scope : Scope) (text : String) :
    (∀ filling ∈ fillings (linker.variants · scope) (Segment.ofString text), filling = "") ↔
      linker.Lost scope text ∨ text = "" := by
  rw [forall_fillings_eq_empty_iff fun path h => linker.ne_empty_of_mem_variants h rfl,
    Segment.forall_eq_literal_empty_iff]
  rfl

variable (owner : TypeRef) (template : String) (anchor : Option String)

/-- Every text that an alternative becomes survives. -/
theorem forall_survivors_iff {p : String → Prop} :
    (∀ text ∈ linker.survivors owner template anchor, p text) ↔
      ∀ text ∈ Alternatives.pieces template,
        ∀ filling ∈ fillings (linker.variants · (linker.scope owner anchor))
          (Segment.ofString text), p filling := by
  simp only [survivors, mem_distinct, List.forall_mem_flatMap, List.forall_mem_map]

theorem survivors_eq_nil_iff :
    linker.survivors owner template anchor = [] ↔
      ∀ text ∈ Alternatives.pieces template, linker.Lost (linker.scope owner anchor) text := by
  rw [List.eq_nil_iff_forall_not_mem]
  refine (linker.forall_survivors_iff owner template anchor).trans ?_
  refine forall₂_congr fun text _ => ?_
  rw [← List.eq_nil_iff_forall_not_mem, fillings_eq_nil_iff]
  rfl

theorem tokens_ne_zero_iff :
    (linker.substitute owner template anchor).tokens ≠ 0 ↔
      ∃ text ∈ Alternatives.pieces template, Path.occurrences text ≠ [] := by
  have hpaths : ((Alternatives.pieces template).map Segment.ofString).flatMap
      (fun segments => segments.filterMap Segment.path?) = [] ↔
        ∀ text ∈ Alternatives.pieces template, Path.occurrences text = [] := by
    rw [List.flatMap_eq_nil_iff, List.forall_mem_map]
    rfl
  have hsome : (∃ text ∈ Alternatives.pieces template, Path.occurrences text ≠ []) ↔
      ¬ ∀ text ∈ Alternatives.pieces template, Path.occurrences text = [] := by
    push Not
    rfl
  rw [hsome, ← hpaths, substitute_eq_fillings]
  split
  · next hnone => exact iff_of_false (fun h => h rfl) (not_not.2 (List.isEmpty_iff.1 hnone))
  · next hne =>
      rw [List.isEmpty_iff] at hne
      exact iff_of_true (fun h => hne (distinct_eq_nil_iff.1 (List.length_eq_zero_iff.1 h))) hne

/-- A template vanishes, and is reported wherever it stands, just if it has a path and every
alternative in which something is written is lost. So it may vanish though an alternative survives,
and does if this one is empty and all others are lost. -/
theorem vanished_iff_lost :
    (linker.survivors owner template anchor = [] ↔
      ∀ text ∈ Alternatives.pieces template, linker.Lost (linker.scope owner anchor) text) ∧
    let result := linker.substitute owner template anchor
    let alternatives := Alternatives.pieces template
    let scope := linker.scope owner anchor
    (result.vanished ↔ (∃ text ∈ alternatives, Path.occurrences text ≠ []) ∧
      ∀ text ∈ alternatives, text ≠ "" → linker.Lost scope text) ∧
    ((result.vanished ↔ (∃ text ∈ alternatives, Path.occurrences text ≠ []) ∧
        ∀ text ∈ alternatives, linker.Lost scope text) ↔
      ¬ (result.vanished ∧ "" ∈ alternatives)) ∧
    ∀ place, Advisory.emptyResolution owner place template result.unresolved ∈
      (SectionLinker.template ⟨linker, owner⟩ place template anchor).advisories ↔
        result.vanished := by
  refine ⟨linker.survivors_eq_nil_iff owner template anchor, ?_⟩
  intro result alternatives scope
  have hvanished : result.vanished ↔ (∃ text ∈ alternatives, Path.occurrences text ≠ []) ∧
      ∀ text ∈ alternatives, text ≠ "" → linker.Lost scope text := by
    rw [vanished_substitute_iff, tokens_ne_zero_iff, forall_survivors_iff]
    refine and_congr_right fun _ => forall₂_congr fun text _ => ?_
    rw [forall_fillings_iff_lost, or_comm, or_iff_not_imp_left]
  refine ⟨hvanished, ?_, fun place => ?_⟩
  · have hempty := linker.not_lost_empty scope
    constructor
    · rintro h ⟨hresult, hmem⟩
      exact hempty ((h.1 hresult).2 "" hmem)
    · intro h
      refine ⟨fun hresult => ⟨(hvanished.1 hresult).1, fun text htext => ?_⟩,
        fun ⟨hpath, hlost⟩ => hvanished.2 ⟨hpath, fun text htext _ => hlost text htext⟩⟩
      exact (hvanished.1 hresult).2 text htext fun hnone => h ⟨hresult, hnone ▸ htext⟩
  · unfold SectionLinker.template
    by_cases hresult : result.vanished <;> simp [result, hresult]

/-- The alternative behind the separator survives, and still the template vanishes. -/
theorem empty_alternative_vanishes :
    let book : TypeRef := .entity "book"
    let linker : Linker := ⟨{}, .empty⟩
    let template := "$missing $||$ "
    Alternatives.pieces template = ["$missing", ""] ∧
      linker.survivors book template none = [""] ∧
      (linker.substitute book template none).vanished = true ∧
      (SectionLinker.template ⟨linker, book⟩ "display.title" template none).advisories =
        [.emptyResolution book "display.title" template ["$missing"]] := by
  decide +kernel

end Linker

end SchemaLink
