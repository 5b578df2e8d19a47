import SchemaLink.Proofs.Path.Grammar
import SchemaLink.Proofs.Path.Sources

/-! # Recognition of paths

The paths in a text are the matches of the grammar that is read, with their byte ranges,
and everything else is literal. They are also those of the grammar that is described,
unless that one has a match with two dots. -/

namespace SchemaLink

/-! ## Lexemes at the start of a text -/

section Lexemes

open Lexeme (isNameChar isTextChar scan sources)

variable {cs rest : List Char}

theorem isNameChar_ne {c : Char} (h : isNameChar c) : c ≠ '$' ∧ c ≠ '.' := by
  constructor <;> (rintro rfl; revert h; decide)

theorem isTextChar_ne {c : Char} (h : isTextChar c) : c ≠ '$' ∧ c ≠ '.' := by
  constructor <;> (rintro rfl; revert h; decide)

theorem forall_mem_takeWhile {p : Char → Bool} {word : List Char} {q : Char → Prop}
    (h : ∀ {c}, p c → q c) : ∀ c ∈ word.takeWhile p, q c :=
  fun c hc => h (List.all_eq_true.1 (List.all_takeWhile (p := p) (l := word)) c hc)

/-- Lexemes are read where they stand. After its first character no lexeme has one that a path can
start with, and a name has all the characters of names that follow its dollar sign. -/
theorem scan_eq_cons {lexeme : Lexeme} {others : List Lexeme} (h : scan cs = lexeme :: others) :
    ∃ rest, cs = lexeme.source.toList ++ rest ∧ others = scan rest ∧
      (∀ c ∈ lexeme.source.toList.tail, c ≠ '$' ∧ c ≠ '.') ∧
      ∀ word, lexeme = .name word → afterName? cs = some rest ∧
        afterHop? cs = if (Hop.ofName? word).isSome then some rest else none := by
  fun_cases scan cs with
  | case1 => rw [scan] at h; cases h
  | case2 rest =>
      rw [scan] at h
      cases h
      exact ⟨rest, rfl, rfl, by simp [Lexeme.source], fun _ hname => by cases hname⟩
  | case3 rest hminus =>
      rw [scan] at h
      · cases h
        exact ⟨rest, rfl, rfl, by simp [Lexeme.source], fun _ hname => by cases hname⟩
      · exact hminus
  | case4 rest =>
      rw [scan] at h
      cases h
      exact ⟨rest, rfl, rfl, by simp [Lexeme.source], fun _ hname => by cases hname⟩
  | case5 rest hempty =>
      rw [scan, if_pos hempty] at h
      cases h
      exact ⟨rest, rfl, rfl, by simp [Lexeme.source], fun _ hname => by cases hname⟩
  | case6 rest hname =>
      rw [scan, if_neg hname] at h
      cases h
      refine ⟨rest.dropWhile isNameChar, ?_, rfl, ?_, ?_⟩
      · simp [Lexeme.source, List.takeWhile_append_dropWhile]
      · simpa [Lexeme.source] using forall_mem_takeWhile isNameChar_ne
      · rintro _ ⟨⟩
        exact ⟨if_neg hname, rfl⟩
  | case7 c rest harrow hminus hdot hdollar =>
      rw [scan] at h
      · cases h
        refine ⟨rest.dropWhile isTextChar, ?_, rfl, ?_, fun _ hname => by cases hname⟩
        · simp [Lexeme.source, List.takeWhile_append_dropWhile]
        · simpa [Lexeme.source] using forall_mem_takeWhile isTextChar_ne
      · exact harrow
      · exact hminus
      · exact hdot
      · exact hdollar

/-- Every character belongs to a lexeme. -/
theorem sources_scan (cs : List Char) : sources (scan cs) = cs := by
  fun_induction scan cs with
  | case1 => rfl
  | case2 rest ih | case3 rest _ ih | case4 rest ih | case5 rest _ ih =>
      rw [Lexeme.sources_cons, ih]
      rfl
  | case6 rest _ ih | case7 c rest _ _ _ _ ih =>
      rw [Lexeme.sources_cons, ih]
      simp [Lexeme.source, List.takeWhile_append_dropWhile]

theorem Lexeme.join_ofString (text : String) :
    String.join ((ofString text).map source) = text := by
  rw [← String.toList_inj, toList_join_source, ofString, sources_scan]

theorem scan_eq_name {word : String} {others : List Lexeme} (h : scan cs = .name word :: others) :
    ∃ rest, cs = '$' :: word.toList ++ rest ∧ others = scan rest ∧ afterName? cs = some rest ∧
      afterHop? cs = if (Hop.ofName? word).isSome then some rest else none := by
  obtain ⟨rest, hcs, hothers, -, hname⟩ := scan_eq_cons h
  exact ⟨rest, by simpa [Lexeme.source] using hcs, hothers, hname word rfl⟩

theorem scan_eq_arrow {others : List Lexeme} (h : scan cs = .arrow :: others) :
    ∃ rest, cs = '-' :: '>' :: rest ∧ others = scan rest := by
  obtain ⟨rest, hcs, hothers, -⟩ := scan_eq_cons h
  exact ⟨rest, hcs, hothers⟩

theorem scan_eq_dot {others : List Lexeme} (h : scan cs = .dot :: others) :
    ∃ rest, cs = '.' :: rest ∧ others = scan rest := by
  obtain ⟨rest, hcs, hothers, -⟩ := scan_eq_cons h
  exact ⟨rest, hcs, hothers⟩

theorem scan_of_afterName? (h : afterName? cs = some rest) :
    ∃ word, scan cs = .name word :: scan rest := by
  unfold afterName? at h
  split at h
  · split at h
    · cases h
    · next hname =>
        cases h
        rw [scan, if_neg hname]
        exact ⟨_, rfl⟩
  · cases h

theorem afterName?_of_afterHop? (h : afterHop? cs = some rest) : afterName? cs = some rest := by
  unfold afterHop? at h
  split at h
  · next word =>
      split at h
      · next hhop =>
          cases h
          rw [afterName?, if_neg]
          intro hempty
          rw [List.isEmpty_iff.1 hempty] at hhop
          simp [Hop.ofName?] at hhop
      · cases h
  · cases h

theorem scan_of_afterArrow? (h : afterArrow? cs = some rest) : scan cs = .arrow :: scan rest := by
  unfold afterArrow? at h
  split at h
  · cases h
    rw [scan]
  · cases h

theorem scan_of_afterDot? (h : afterDot? cs = some rest) : scan cs = .dot :: scan rest := by
  unfold afterDot? at h
  split at h
  · cases h
    rw [scan]
  · cases h

theorem scan_of_ownProperty (h : (afterDot? cs).bind afterName? = some rest) :
    ∃ property, scan cs = .dot :: .name property :: scan rest := by
  obtain ⟨middle, hmiddle, hrest⟩ := Option.bind_eq_some_iff.1 h
  obtain ⟨property, hproperty⟩ := scan_of_afterName? hrest
  exact ⟨property, by rw [scan_of_afterDot? hmiddle, hproperty]⟩

end Lexemes

/-! ## Paths at the start of a text -/

open Lexeme (scan sources)

/-- What was read from the lexemes of a text is the preferred match of the pattern at its start. -/
def PathMatch.Agrees (cs : List Char) : Option PathMatch → Prop
  | none => Pattern.readable.first? cs = none
  | some found => ∃ rest, Pattern.readable.first? cs = some rest ∧ found.rest = scan rest ∧
      cs = sources found.spanned ++ rest

theorem afterDot?_of_afterName? {cs rest : List Char} (h : afterName? cs = some rest) :
    afterDot? cs = none := by
  unfold afterName? at h
  split at h
  · rfl
  · cases h

/-- A name is a path on its own where no hop goes on. -/
theorem agrees_name {cs rest : List Char} {word : String} (path : Path)
    (hcs : cs = '$' :: word.toList ++ rest) (hname : afterName? cs = some rest)
    (hstep : (afterStep? cs).bind Pattern.readable.first? = none)
    (hbound : (afterBound? cs).bind afterName? = none) :
    PathMatch.Agrees cs (some ⟨path, [.name word], scan rest⟩) := by
  refine ⟨rest, ?_, rfl, by simp [hcs, sources, Lexeme.source]⟩
  rw [Pattern.first?_readable, hstep, hbound, afterDotted?, afterDot?_of_afterName? hname, hname]
  rfl

theorem first?_readable_eq_none {cs : List Char} (hname : afterName? cs = none)
    (hproperty : (afterDot? cs).bind afterName? = none) : Pattern.readable.first? cs = none := by
  have hhop : afterHop? cs = none := Option.eq_none_iff_forall_not_mem.2 fun rest hrest => by
    cases hname.symm.trans (afterName?_of_afterHop? hrest)
  rw [Pattern.first?_readable, afterStep?, afterBound?, hhop, afterDotted?, hproperty, hname]
  rfl

theorem agrees_read? (cs : List Char) : PathMatch.Agrees cs (PathMatch.read? (scan cs)) := by
  generalize hlexemes : scan cs = lexemes
  fun_induction PathMatch.read? lexemes generalizing cs with
  | case1 word others hop inner hinner hhop ih =>
      obtain ⟨after, hcs, hafter, -, hhop'⟩ := scan_eq_name hlexemes
      obtain ⟨rest, rfl, rfl⟩ := scan_eq_arrow hafter.symm
      have hagrees := ih rest rfl
      rw [hinner] at hagrees
      rcases hagrees with ⟨last, hfirst, hlast, rfl⟩
      have hstep : afterStep? cs = some (sources inner.spanned ++ last) := by
        rw [afterStep?, hhop', hhop]
        rfl
      refine ⟨last, ?_, hlast, by simp [hcs, Lexeme.source]⟩
      rw [Pattern.first?_readable, hstep, Option.bind_some, hfirst, Option.some_or]
  | case2 word others hnone ih =>
      obtain ⟨after, hcs, hafter, hname, hhop⟩ := scan_eq_name hlexemes
      obtain ⟨rest, rfl, rfl⟩ := scan_eq_arrow hafter.symm
      rw [hafter]
      refine agrees_name _ hcs hname ?_ ?_
      · cases hword : Hop.ofName? word with
        | none => simp [afterStep?, hhop, hword]
        | some hop =>
            have hagrees := ih rest rfl
            cases hread : PathMatch.read? (scan rest) with
            | some found => exact (hnone hop found hword hread).elim
            | none =>
                rw [hread] at hagrees
                rw [afterStep?, hhop, hword]
                exact hagrees
      · rw [afterBound?, hhop]
        cases (Hop.ofName? word).isSome <;> rfl
  | case3 word property others hop hhop =>
      obtain ⟨after, hcs, hafter, -, hhop'⟩ := scan_eq_name hlexemes
      obtain ⟨middle, rfl, hmiddle⟩ := scan_eq_dot hafter.symm
      obtain ⟨rest, rfl, rfl, hname, -⟩ := scan_eq_name hmiddle.symm
      have hstep : afterStep? cs = none := by
        rw [afterStep?, hhop', hhop]
        rfl
      have hbound : afterBound? cs = some ('$' :: property.toList ++ rest) := by
        rw [afterBound?, hhop', hhop]
        rfl
      refine ⟨rest, ?_, rfl, by simp [hcs, sources, Lexeme.source]⟩
      rw [Pattern.first?_readable, hstep, hbound, Option.bind_none, Option.none_or,
        Option.bind_some, hname, Option.some_or]
  | case4 word property others hhop =>
      obtain ⟨after, hcs, hafter, hname, hhop'⟩ := scan_eq_name hlexemes
      rw [hafter]
      refine agrees_name _ hcs hname ?_ ?_
      · simp [afterStep?, hhop', hhop]
      · simp [afterBound?, hhop', hhop]
  | case5 word others harrow hdot =>
      obtain ⟨after, hcs, rfl, hname, hhop⟩ := scan_eq_name hlexemes
      have hsame : ∀ {middle}, afterHop? cs = some middle → middle = after := fun hmiddle =>
        Option.some.inj ((afterName?_of_afterHop? hmiddle).symm.trans hname)
      refine agrees_name _ hcs hname (Option.bind_eq_none_iff.2 fun rest hrest => ?_)
        (Option.eq_none_iff_forall_not_mem.2 fun rest hrest => ?_)
      · obtain ⟨middle, hmiddle, hrest⟩ := Option.bind_eq_some_iff.1 hrest
        obtain rfl := hsame hmiddle
        exact (harrow _ (scan_of_afterArrow? hrest)).elim
      · rw [Option.mem_def, afterBound?, Option.bind_assoc] at hrest
        obtain ⟨middle, hmiddle, hrest⟩ := Option.bind_eq_some_iff.1 hrest
        obtain rfl := hsame hmiddle
        obtain ⟨property, hscan⟩ := scan_of_ownProperty hrest
        exact hdot property _ hscan
  | case6 property others =>
      obtain ⟨middle, rfl, hmiddle⟩ := scan_eq_dot hlexemes
      obtain ⟨rest, rfl, rfl, hname, -⟩ := scan_eq_name hmiddle.symm
      refine ⟨rest, ?_, rfl, by simp [sources, Lexeme.source]⟩
      have hdotted : afterDotted? ('.' :: ('$' :: property.toList ++ rest)) = some rest := by
        rw [afterDotted?, afterDot?, Option.bind_some, hname, Option.some_or]
      rw [Pattern.first?_readable, hdotted]
      rfl
  | case7 lexemes _ _ hname hdot =>
      refine first?_readable_eq_none (Option.eq_none_iff_forall_not_mem.2 fun rest hrest => ?_)
        (Option.eq_none_iff_forall_not_mem.2 fun rest hrest => ?_)
      · obtain ⟨word, hscan⟩ := scan_of_afterName? hrest
        exact hname word _ (hlexemes.symm.trans hscan)
      · obtain ⟨property, hscan⟩ := scan_of_ownProperty hrest
        exact hdot property _ (hlexemes.symm.trans hscan)

/-! ## All paths of a text -/

namespace Pattern

variable {pattern : Pattern} {cs rest front : List Char} {c : Char} {others : List Char}

/-- The text of a match is what was skipped. -/
theorem take_of_append (h : cs = front ++ rest) : cs.take (cs.length - rest.length) = front := by
  rw [h, List.length_append, Nat.add_sub_cancel, List.take_left']
  rfl

theorem tokens_of_match (h : pattern.first? (front ++ rest) = some rest) (start : Nat) :
    pattern.tokens start (front ++ rest) =
      (String.ofList front, ⟨start, start + (String.ofList front).utf8ByteSize⟩) ::
        pattern.tokens (start + (String.ofList front).utf8ByteSize) rest := by
  cases htext : front ++ rest with
  | nil =>
      rw [htext] at h
      exact absurd (first?_length h) (by simp)
  | cons c others =>
      rw [htext] at h
      rw [tokens]
      split
      · next last hlast =>
          obtain rfl := Option.some.inj (hlast.symm.trans h)
          simp only [take_of_append htext.symm]
      · next hnone =>
          rw [h] at hnone
          cases hnone

theorem tokens_of_none (h : pattern.first? (c :: others) = none) (start : Nat) :
    pattern.tokens start (c :: others) = pattern.tokens (start + c.utf8Size) others := by
  rw [tokens]
  split
  · next last hlast =>
      rw [h] at hlast
      cases hlast
  · rfl

/-- Text in which no match starts is passed over. -/
theorem tokens_append {skipped : List Char}
    (h : ∀ c ∈ skipped, ∀ rest, pattern.first? (c :: rest) = none) (start : Nat) :
    pattern.tokens start (skipped ++ cs) =
      pattern.tokens (start + (String.ofList skipped).utf8ByteSize) cs := by
  induction skipped generalizing start with
  | nil => simp
  | cons c skipped ih =>
      rcases List.forall_mem_cons.1 h with ⟨hc, hskipped⟩
      rw [List.cons_append, tokens_of_none (hc _), ih hskipped, String.ofList_cons,
        String.utf8ByteSize_append, String.utf8ByteSize_singleton, Nat.add_assoc]

theorem first?_readable_of_ne (hdollar : c ≠ '$') (hdot : c ≠ '.') (rest : List Char) :
    readable.first? (c :: rest) = none :=
  first?_readable_eq_none (by simp [afterName?, hdollar]) (by simp [afterDot?, hdot])

end Pattern

namespace Segment

/-- The paths among segments that lie at a byte offset, as texts with their byte ranges. -/
def pathTexts (start : Nat) (segments : List Segment) : List (String × Span) :=
  (Span.layout source start segments).filterMap fun (segment, span) =>
    segment.path?.map fun path => (path.text, span)

theorem pathTexts_consLiteral (text : String) (segments : List Segment) (start : Nat) :
    pathTexts start (consLiteral text segments) =
      pathTexts (start + text.utf8ByteSize) segments := by
  cases segments with
  | nil => rfl
  | cons segment segments =>
      cases segment with
      | literal source =>
          simp only [consLiteral, pathTexts, Span.layout, Segment.source,
            String.utf8ByteSize_append, Nat.add_assoc]
          rfl
      | path path source => rfl

theorem pathTexts_ofLexemes (cs : List Char) (start : Nat) :
    pathTexts start (ofLexemes (scan cs)) = Pattern.readable.tokens start cs := by
  generalize hlexemes : scan cs = lexemes
  fun_induction ofLexemes lexemes generalizing cs start with
  | case1 =>
      have hcs : cs = [] := by rw [← sources_scan cs, hlexemes]; rfl
      rw [hcs, Pattern.tokens]
      rfl
  | case2 lexeme others found hread ih =>
      have hagrees := agrees_read? cs
      rw [hlexemes, hread] at hagrees
      rcases hagrees with ⟨rest, hfirst, hrest, rfl⟩
      have hsource : String.join (found.spanned.map Lexeme.source) =
          String.ofList (sources found.spanned) := by
        rw [← String.toList_inj, String.toList_ofList, Lexeme.toList_join_source]
      rw [Pattern.tokens_of_match hfirst, ← ih rest _ hrest.symm, ← hsource,
        ← PathMatch.text_read? hread]
      have hcons : ∀ segments, pathTexts start (path found.path found.path.text :: segments) =
          (found.path.text, ⟨start, start + found.path.text.utf8ByteSize⟩) ::
            pathTexts (start + found.path.text.utf8ByteSize) segments := fun _ => rfl
      exact hcons _
  | case3 lexeme others hread ih =>
      have hagrees := agrees_read? cs
      rw [hlexemes, hread] at hagrees
      obtain ⟨rest, hcs, hrest, hinner, -⟩ := scan_eq_cons hlexemes
      rw [pathTexts_consLiteral, ih rest _ hrest.symm]
      cases hsource : lexeme.source.toList with
      | nil =>
          rw [hsource, List.nil_append] at hcs
          rw [hcs, ← hrest] at hlexemes
          exact absurd hlexemes (by simp)
      | cons c inner =>
          rw [hsource] at hcs hinner
          have hsize : lexeme.source.utf8ByteSize =
              c.utf8Size + (String.ofList inner).utf8ByteSize := by
            rw [← String.ofList_toList (s := lexeme.source), hsource, String.ofList_cons,
              String.utf8ByteSize_append, String.utf8ByteSize_singleton]
          have hskip : ∀ c ∈ inner, ∀ rest, Pattern.readable.first? (c :: rest) = none :=
            fun c hc rest => Pattern.first?_readable_of_ne (hinner c hc).1 (hinner c hc).2 rest
          have hfirst : Pattern.readable.first? (c :: (inner ++ rest)) = none := by
            rw [hcs] at hagrees
            exact hagrees
          rw [hcs, List.cons_append, Pattern.tokens_of_none hfirst, Pattern.tokens_append hskip,
            hsize, Nat.add_assoc]

theorem join_consLiteral (text : String) (segments : List Segment) :
    String.join ((consLiteral text segments).map source) =
      text ++ String.join (segments.map source) := by
  rw [← String.toList_inj]
  cases segments with
  | nil => simp [consLiteral, source]
  | cons segment segments => cases segment <;> simp [consLiteral, source]

/-- All segments together are the text. -/
theorem join_ofString (text : String) : String.join ((ofString text).map source) = text := by
  have hjoin : ∀ lexemes, String.join ((ofLexemes lexemes).map source) =
      String.join (lexemes.map Lexeme.source) := by
    intro lexemes
    fun_induction ofLexemes lexemes with
    | case1 => rfl
    | case2 lexeme others found hread ih =>
        rw [← PathMatch.spanned_append_rest hread, List.map_cons, String.join_cons, ih,
          List.map_append, String.join_append]
        rfl
    | case3 lexeme others hread ih =>
        rw [join_consLiteral, ih, List.map_cons, String.join_cons]
  rw [ofString, hjoin, Lexeme.join_ofString]

end Segment

/-! ## The two grammars -/

namespace Pattern

variable {cs : List Char} {start : Nat}

theorem dots_of_mem_readable {token : String × Span} (h : token ∈ readable.tokens start cs) :
    token.1.toList.count '.' ≤ 1 := by
  fun_induction readable.tokens start cs with
  | case1 => cases h
  | case2 start c others rest hrest source stop ih =>
      rcases List.mem_cons.1 h with rfl | h
      · obtain ⟨dots, hdots, front, hfront, rfl⟩ := skips_of_readable hrest
        simpa only [source, take_of_append hfront, String.toList_ofList] using hdots
      · exact ih h
  | case3 start c others hnone ih => exact ih h

/-- Both grammars have the same matches just if that of the description has none with two dots. -/
theorem tokens_described_eq_iff (start : Nat) (cs : List Char) :
    readable.tokens start cs = described.tokens start cs ↔
      ∀ token ∈ described.tokens start cs, token.1.toList.count '.' ≤ 1 := by
  constructor
  · intro heq token htoken
    exact dots_of_mem_readable (heq ▸ htoken)
  · intro hdots
    fun_induction described.tokens start cs with
    | case1 => rw [tokens]
    | case2 start c others rest hrest source stop ih =>
        rcases List.forall_mem_cons.1 hdots with ⟨hfirst, hothers⟩
        rcases readable_or_skips_of_described hrest with hread | ⟨front, hfront, hcount⟩
        · obtain ⟨dots, -, front, hfront, -⟩ := skips_of_readable hread
          have hsource : source = String.ofList front := by
            simp only [source, take_of_append hfront]
          have hstop : stop = start + (String.ofList front).utf8ByteSize := by
            simp only [stop, hsource]
          rw [hfront] at hread
          rw [hfront, tokens_of_match hread, ← hstop, ih hothers, hsource]
        · simp only [source, take_of_append hfront, String.toList_ofList, hcount] at hfirst
          omega
    | case3 start c others hnone ih =>
        rw [tokens_of_none (readable_eq_none_of_described hnone), ih hdots]

end Pattern

/-- The paths of a text are the matches of the grammar that is read, in order and with their byte
ranges, and all other text is literal. They are the matches of the grammar that is described just
if none of these has two dots. -/
theorem Path.located_eq_tokens (text : String) :
    let found := (Path.located text).map fun located => (located.1.text, located.2)
    found = Pattern.readable.tokens 0 text.toList ∧
    (found = Pattern.described.tokens 0 text.toList ↔
      ∀ token ∈ Pattern.described.tokens 0 text.toList, token.1.toList.count '.' ≤ 1) ∧
    String.join ((Segment.ofString text).map Segment.source) = text := by
  intro found
  have hfound : found = Pattern.readable.tokens 0 text.toList := by
    rw [← Segment.pathTexts_ofLexemes]
    simp only [found, Path.located, Segment.located, List.map_filterMap, Option.map_map]
    rfl
  refine ⟨hfound, ?_, Segment.join_ofString text⟩
  rw [hfound]
  exact Pattern.tokens_described_eq_iff 0 text.toList

/-- After a bound hop and its dot the description has room for one more dot. -/
theorem Path.located_bound_hop_with_two_dots :
    (Path.located "$r_a..$b").map (fun located => (located.1.text, located.2)) =
        [("$r_a", ⟨0, 4⟩), (".$b", ⟨5, 8⟩)] ∧
      Pattern.described.tokens 0 "$r_a..$b".toList = [("$r_a..$b", ⟨0, 8⟩)] := by
  constructor <;> decide +kernel

end SchemaLink
