import Mathlib.Data.List.Chain
import Mathlib.Data.String.Basic
import SchemaLink.Proofs.Path.Spelling

/-! # Segments cover their text

The segments of a text lie side by side from its start to its end, literals as long as they
can be. What lies between the ends of a segment is the text that it was read from, so the
text can be put together again from the ranges alone, and a path can be read again. -/

namespace SchemaLink

/-! ## Ranges of bytes -/

namespace Span

/-- Ranges that are not empty and lie side by side from one offset to another. -/
def Tile : Nat → List Span → Nat → Prop
  | start, [], stop => start = stop
  | start, span :: spans, stop => span.start = start ∧ start < span.stop ∧ Tile span.stop spans stop

/-- The range starts and ends between characters of a text. -/
structure Fits (span : Span) (text : String) : Prop where
  start : String.Pos.Raw.IsValid text ⟨span.start⟩
  stop : String.Pos.Raw.IsValid text ⟨span.stop⟩

/-- The part of a text that lies in a range. -/
def slice (span : Span) (text : String) : String :=
  String.Pos.Raw.extract text ⟨span.start⟩ ⟨span.stop⟩

/-- The range that a text takes up after another one. -/
def behind (before text : String) : Span :=
  ⟨before.utf8ByteSize, before.utf8ByteSize + text.utf8ByteSize⟩

theorem fits_behind (before text after : String) :
    (behind before text).Fits (before ++ text ++ after) := by
  constructor
  · rw [String.append_assoc]
    exact String.Pos.Raw.isValid_iff_exists_append.2 ⟨before, text ++ after, rfl, rfl⟩
  · refine String.Pos.Raw.isValid_iff_exists_append.2 ⟨before ++ text, after, rfl, ?_⟩
    rw [String.Pos.Raw.ext_iff, String.byteIdx_rawEndPos, String.utf8ByteSize_append]
    rfl

theorem slice_behind (before text after : String) :
    (behind before text).slice (before ++ text ++ after) = text := by
  have hslice := String.extract_of_valid before.toList text.toList after.toList
  simp only [String.ofList_append, String.ofList_toList, String.utf8Len_toList] at hslice
  exact hslice

variable {α : Type} {source : α → String}

theorem map_fst_layout (start : Nat) (items : List α) :
    (layout source start items).map Prod.fst = items := by
  induction items generalizing start with
  | nil => rfl
  | cons item items ih => rw [layout, List.map_cons, ih]

theorem tile_layout {items : List α} (h : ∀ item ∈ items, source item ≠ "") (start : Nat) :
    Tile start ((layout source start items).map Prod.snd)
      (start + (String.join (items.map source)).utf8ByteSize) := by
  induction items generalizing start with
  | nil => rfl
  | cons item items ih =>
      rcases List.forall_mem_cons.1 h with ⟨hitem, hitems⟩
      have hpos : 0 < (source item).utf8ByteSize :=
        Nat.pos_of_ne_zero (mt String.utf8ByteSize_eq_zero_iff.1 hitem)
      rw [layout, List.map_cons, List.map_cons, String.join_cons, String.utf8ByteSize_append,
        ← Nat.add_assoc]
      exact ⟨rfl, Nat.lt_add_of_pos_right hpos, ih hitems _⟩

/-- Every item lies where its source is in the whole text. -/
theorem fits_and_slice_of_mem_layout {items : List α} {item : α} {span : Span}
    (before after : String) (h : (item, span) ∈ layout source before.utf8ByteSize items) :
    span.Fits (before ++ String.join (items.map source) ++ after) ∧
      span.slice (before ++ String.join (items.map source) ++ after) = source item := by
  induction items generalizing before with
  | nil => cases h
  | cons first items ih =>
      have htext : before ++ String.join ((first :: items).map source) ++ after =
          before ++ source first ++ (String.join (items.map source) ++ after) := by
        rw [List.map_cons, String.join_cons, ← String.append_assoc, String.append_assoc]
      rw [htext]
      rcases List.mem_cons.1 h with heq | h
      · obtain ⟨rfl, rfl⟩ := Prod.mk.inj heq
        exact ⟨fits_behind before (source item) _, slice_behind before (source item) _⟩
      · rw [← String.utf8ByteSize_append] at h
        rw [← String.append_assoc]
        exact ih _ h

end Span

/-! ## Segments -/

theorem Lexeme.source_ne_empty_of_mem_scan {cs : List Char} {lexeme : Lexeme}
    (h : lexeme ∈ scan cs) : lexeme.source ≠ "" := by
  fun_induction scan cs with
  | case1 => cases h
  | case2 rest ih | case3 rest _ ih | case4 rest ih | case5 rest _ ih =>
      rcases List.mem_cons.1 h with rfl | h
      · decide
      · exact ih h
  | case6 rest _ ih | case7 c rest _ _ _ _ ih =>
      rcases List.mem_cons.1 h with rfl | h
      · simp [source]
      · exact ih h

namespace Segment

theorem path_source_ne_empty {lexemes : List Lexeme} {found : PathMatch}
    (h : PathMatch.read? lexemes = some found)
    (hsources : ∀ lexeme ∈ lexemes, lexeme.source ≠ "") :
    String.join (found.spanned.map Lexeme.source) ≠ "" := by
  obtain ⟨first, others, hspanned⟩ := List.exists_cons_of_ne_nil (PathMatch.spanned_ne_nil h)
  have hfirst : first ∈ lexemes := by
    rw [← PathMatch.spanned_append_rest h, hspanned]
    simp
  rw [hspanned, List.map_cons, String.join_cons, Ne, String.append_eq_empty_iff]
  exact fun hempty => hsources first hfirst hempty.1

theorem source_ne_empty {lexemes : List Lexeme} (h : ∀ lexeme ∈ lexemes, lexeme.source ≠ "") :
    ∀ segment ∈ ofLexemes lexemes, segment.source ≠ "" := by
  fun_induction ofLexemes lexemes with
  | case1 => exact List.forall_mem_nil _
  | case2 lexeme others found hread ih =>
      have hrest : ∀ lexeme ∈ found.rest, lexeme.source ≠ "" := by
        intro later hlater
        apply h
        rw [← PathMatch.spanned_append_rest hread]
        exact List.mem_append_right _ hlater
      exact List.forall_mem_cons.2 ⟨path_source_ne_empty hread h, ih hrest⟩
  | case3 lexeme others hread ih =>
      rcases List.forall_mem_cons.1 h with ⟨hlexeme, hothers⟩
      intro segment hsegment
      unfold consLiteral at hsegment
      split at hsegment
      · next source segments heq =>
          rcases List.mem_cons.1 hsegment with rfl | hsegment
          · simp [Segment.source, String.append_eq_empty_iff, hlexeme]
          · exact ih hothers segment (heq ▸ List.mem_cons_of_mem _ hsegment)
      · rcases List.mem_cons.1 hsegment with rfl | hsegment
        · exact hlexeme
        · exact ih hothers segment hsegment

/-- Of two segments side by side, one is a path. -/
def Alternate : List Segment → Prop :=
  List.IsChain fun segment next => segment.path?.isSome ∨ next.path?.isSome

theorem alternate_ofLexemes (lexemes : List Lexeme) : Alternate (ofLexemes lexemes) := by
  fun_induction ofLexemes lexemes with
  | case1 => exact .nil
  | case2 lexeme others found hread ih =>
      refine List.isChain_cons.2 ⟨fun next _ => ?_, ih⟩
      exact Or.inl rfl
  | case3 lexeme others hread ih =>
      unfold consLiteral
      split
      · next source segments heq =>
          rw [heq] at ih
          exact List.isChain_cons.2 (List.isChain_cons.1 ih)
      · next segments hliteral =>
          refine List.isChain_cons.2 ⟨fun next hnext => ?_, ih⟩
          cases next with
          | literal source =>
              obtain ⟨rest, hrest⟩ := List.head?_eq_some_iff.1 hnext
              exact absurd hrest (hliteral source rest)
          | path found source => exact Or.inr rfl

/-- Nothing of a text is lost: its segments are not empty and lie side by side from the first byte
to the last, between characters, and no literal follows another one. Each lies where its own text
is, a path can be read again from there, and all together are the text. -/
theorem located_covers (text : String) :
    let found := located text
    Span.Tile 0 (found.map Prod.snd) text.utf8ByteSize ∧
    (found = [] ↔ text = "") ∧
    (∀ entry ∈ found, entry.2.Fits text ∧ entry.2.slice text = entry.1.source) ∧
    Alternate (found.map Prod.fst) ∧
    (∀ entry ∈ found, ∀ path, entry.1.path? = some path →
      Path.parse? (entry.2.slice text) = some path) ∧
    String.join (found.map fun entry => entry.2.slice text) = text := by
  intro found
  have hsources : ∀ segment ∈ ofString text, segment.source ≠ "" :=
    source_ne_empty fun lexeme hlexeme => Lexeme.source_ne_empty_of_mem_scan hlexeme
  have hsegments : found.map Prod.fst = ofString text := Span.map_fst_layout 0 (ofString text)
  have hslices : ∀ entry ∈ found, entry.2.Fits text ∧ entry.2.slice text = entry.1.source := by
    intro entry hentry
    have hcut := Span.fits_and_slice_of_mem_layout "" "" hentry
    rwa [join_ofString, String.empty_append, String.append_empty] at hcut
  have hjoin : String.join (found.map fun entry => entry.2.slice text) = text := by
    have hmap : found.map (fun entry => entry.2.slice text) = (ofString text).map source := by
      rw [← hsegments, List.map_map]
      exact List.map_congr_left fun entry hentry => (hslices entry hentry).2
    rw [hmap, join_ofString]
  refine ⟨?_, ⟨fun hnone => ?_, ?_⟩, hslices, ?_, ?_, hjoin⟩
  · have htile := Span.tile_layout hsources 0
    rwa [join_ofString, Nat.zero_add] at htile
  · rw [← hjoin, hnone]
    rfl
  · rintro rfl
    rw [← List.map_eq_nil_iff, hsegments, ofString, Lexeme.ofString, String.toList_empty,
      Lexeme.scan, ofLexemes]
  · rw [hsegments]
    exact alternate_ofLexemes _
  · rintro ⟨segment, span⟩ hentry path hpath
    have hsegment : segment ∈ ofString text := by
      rw [← hsegments]
      exact List.mem_map_of_mem hentry
    rw [(hslices _ hentry).2]
    cases segment with
    | literal source => cases hpath
    | path found source =>
        obtain rfl := Option.some.inj hpath
        exact Path.parse?_of_read? (read?_source hsegment).1

/-- Ranges count bytes, and a lone dot is literal. -/
example : located "é $a." = [(.literal "é ", ⟨0, 3⟩), (.path ⟨[], .field "a"⟩ "$a", ⟨3, 5⟩),
    (.literal ".", ⟨5, 6⟩)] := by decide +kernel

end Segment

end SchemaLink
