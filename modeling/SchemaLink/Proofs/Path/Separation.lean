import SchemaLink.Proofs.Alternatives
import SchemaLink.Proofs.Path.Longest

/-! # Paths on both sides of a separator

A path has no blanks in it, and to end it a blank is as good as the end of the text. So text behind
a blank has no part in how the text in front of it is read, and the other way round; there are two
blanks in a separator, and no path between them. -/

namespace SchemaLink

/-- A range so many bytes further on. -/
def Span.shift (span : Span) (offset : Nat) : Span := ⟨offset + span.start, offset + span.stop⟩

/-- Texts that are joined, with the byte offsets at which they lie then. -/
def Alternatives.place (start : Nat) : List String → List (String × Nat)
  | [] => []
  | text :: texts =>
    (text, start) :: place (start + text.utf8ByteSize + separator.utf8ByteSize) texts

/-! ## Blanks -/

/-- The reader stops at blanks: what is behind one makes no difference and is left as it is. -/
def StopsAtBlanks (reader : List Char → Option (List Char)) : Prop :=
  ∀ cs rest, reader (cs ++ ' ' :: rest) = (reader cs).map (· ++ ' ' :: rest)

theorem StopsAtBlanks.bind {reader next : List Char → Option (List Char)}
    (h : StopsAtBlanks reader) (h' : StopsAtBlanks next) :
    StopsAtBlanks fun cs => (reader cs).bind next := by
  intro cs rest
  dsimp only
  rw [h]
  cases reader cs with
  | none => rfl
  | some left => exact h' left rest

theorem StopsAtBlanks.or {reader other : List Char → Option (List Char)}
    (h : StopsAtBlanks reader) (h' : StopsAtBlanks other) :
    StopsAtBlanks fun cs => (reader cs).or (other cs) := by
  intro cs rest
  dsimp only
  rw [h, h']
  cases reader cs <;> rfl

section Readers

open Lexeme (isNameChar)

theorem takeWhile_append_blank (cs rest : List Char) :
    (cs ++ ' ' :: rest).takeWhile isNameChar = cs.takeWhile isNameChar := by
  induction cs with
  | nil => rfl
  | cons c cs ih => simp only [List.cons_append, List.takeWhile_cons, ih]

theorem dropWhile_append_blank (cs rest : List Char) :
    (cs ++ ' ' :: rest).dropWhile isNameChar = cs.dropWhile isNameChar ++ ' ' :: rest := by
  induction cs with
  | nil => rfl
  | cons c cs ih =>
      simp only [List.cons_append, List.dropWhile_cons, ih]
      split <;> rfl

theorem stopsAtBlanks_afterName? : StopsAtBlanks afterName? := by
  intro cs rest
  cases cs with
  | nil => rfl
  | cons c cs =>
      by_cases hc : c = '$'
      · subst hc
        simp only [List.cons_append, afterName?, takeWhile_append_blank, dropWhile_append_blank]
        split <;> rfl
      · simp [afterName?, hc]

theorem stopsAtBlanks_afterHop? : StopsAtBlanks afterHop? := by
  intro cs rest
  cases cs with
  | nil => rfl
  | cons c cs =>
      by_cases hc : c = '$'
      · subst hc
        simp only [List.cons_append, afterHop?, takeWhile_append_blank, dropWhile_append_blank]
        split <;> rfl
      · simp [afterHop?, hc]

theorem stopsAtBlanks_afterArrow? : StopsAtBlanks afterArrow? := by
  intro cs rest
  match cs with
  | [] => rfl
  | [c] => simp [afterArrow?]
  | c :: d :: cs => by_cases hc : c = '-' <;> by_cases hd : d = '>' <;> simp [afterArrow?, hc, hd]

theorem stopsAtBlanks_afterDot? : StopsAtBlanks afterDot? := by
  intro cs rest
  cases cs with
  | nil => rfl
  | cons c cs => by_cases hc : c = '.' <;> simp [afterDot?, hc]

end Readers

namespace Pattern

theorem stopsAtBlanks_readable : StopsAtBlanks readable.first? := by
  intro cs rest
  have hstep : StopsAtBlanks afterStep? := stopsAtBlanks_afterHop?.bind stopsAtBlanks_afterArrow?
  have hbound : StopsAtBlanks fun cs => (afterBound? cs).bind afterName? :=
    (stopsAtBlanks_afterHop?.bind stopsAtBlanks_afterDot?).bind stopsAtBlanks_afterName?
  have hdotted : StopsAtBlanks afterDotted? :=
    (stopsAtBlanks_afterDot?.bind stopsAtBlanks_afterName?).or stopsAtBlanks_afterName?
  induction cs using step_induction with
  | h cs ih =>
      have hsteps : (afterStep? (cs ++ ' ' :: rest)).bind readable.first? =
          ((afterStep? cs).bind readable.first?).map (· ++ ' ' :: rest) := by
        rw [hstep]
        cases hleft : afterStep? cs with
        | none => rfl
        | some left => exact ih left hleft
      have hend := hbound.or hdotted cs rest
      dsimp only at hend
      rw [first?_readable, hsteps, hend, first?_readable]
      cases (afterStep? cs).bind readable.first? <;> rfl

/-- Text in front of a blank has its own matches, whatever is behind the blank. -/
theorem tokens_append_blank (start : Nat) (cs rest : List Char) :
    readable.tokens start (cs ++ ' ' :: rest) = readable.tokens start cs ++
      readable.tokens (start + (String.ofList cs).utf8ByteSize + 1) rest := by
  fun_induction readable.tokens start cs with
  | case1 start =>
      rw [List.nil_append, tokens_of_none (first?_readable_of_ne (by decide) (by decide) rest)]
      rfl
  | case2 start c others left hleft source stop ih =>
      obtain ⟨path, -, hcs⟩ := exists_wellFormed_of_first? hleft
      have hsource : source = String.ofList path.text.toList := by
        simp only [source, take_of_append hcs]
      have hmatch := stopsAtBlanks_readable (c :: others) rest
      rw [hleft, hcs, Option.map_some, List.append_assoc] at hmatch
      have hsize : (String.ofList (path.text.toList ++ left)).utf8ByteSize =
          source.utf8ByteSize + (String.ofList left).utf8ByteSize := by
        rw [String.ofList_append, String.utf8ByteSize_append, hsource]
      rw [hcs, List.append_assoc, tokens_of_match hmatch, ← hsource, ih, hsize, List.cons_append]
      simp only [stop, Nat.add_assoc]
  | case3 start c others hnone ih =>
      have hmatch : readable.first? (c :: (others ++ ' ' :: rest)) = none := by
        rw [← List.cons_append, stopsAtBlanks_readable, hnone]
        rfl
      rw [List.cons_append, tokens_of_none hmatch, ih, String.ofList_cons,
        String.utf8ByteSize_append, String.utf8ByteSize_singleton, Nat.add_assoc start]

/-- A text has the same matches wherever it lies. -/
theorem tokens_add (offset start : Nat) (cs : List Char) :
    readable.tokens (offset + start) cs =
      (readable.tokens start cs).map fun token => (token.1, token.2.shift offset) := by
  fun_induction readable.tokens start cs with
  | case1 start => rw [tokens]; rfl
  | case2 start c others left hleft source stop ih =>
      obtain ⟨path, -, hcs⟩ := exists_wellFormed_of_first? hleft
      have hsource : source = String.ofList path.text.toList := by
        simp only [source, take_of_append hcs]
      rw [hcs] at hleft
      rw [hcs, tokens_of_match hleft, ← hsource, Nat.add_assoc, ih]
      rfl
  | case3 start c others hnone ih => rw [tokens_of_none hnone, Nat.add_assoc, ih]

theorem tokens_eq_map_shift (start : Nat) (cs : List Char) :
    readable.tokens start cs =
      (readable.tokens 0 cs).map fun token => (token.1, token.2.shift start) :=
  tokens_add start 0 cs

/-- No match is in a separator, or ends or starts there. -/
theorem tokens_join (start : Nat) (texts : List String) :
    readable.tokens start (Alternatives.join texts).toList =
      (Alternatives.place start texts).flatMap fun piece =>
        readable.tokens piece.2 piece.1.toList := by
  induction texts generalizing start with
  | nil => rw [Alternatives.join, String.intercalate_nil, String.toList_empty, tokens]; rfl
  | cons text texts ih =>
      cases texts with
      | nil =>
          rw [Alternatives.join, String.intercalate_singleton]
          simp [Alternatives.place]
      | cons next texts =>
          have hjoin : (Alternatives.join (text :: next :: texts)).toList =
              text.toList ++ ' ' :: (['$', '|', '|', '$'] ++
                ' ' :: (Alternatives.join (next :: texts)).toList) := by
            rw [Alternatives.join, String.intercalate_cons_cons]
            simp [Alternatives.join, Alternatives.separator]
          have hnone : readable.tokens 0 ['$', '|', '|', '$'] = [] := by decide +kernel
          have hmiddle (start : Nat) : readable.tokens start ['$', '|', '|', '$'] = [] := by
            rw [tokens_eq_map_shift, hnone, List.map_nil]
          have hsize : start + (String.ofList text.toList).utf8ByteSize + 1 +
              (String.ofList ['$', '|', '|', '$']).utf8ByteSize + 1 =
                start + text.utf8ByteSize + Alternatives.separator.utf8ByteSize := by
            have hmarks : (String.ofList ['$', '|', '|', '$']).utf8ByteSize = 4 := by decide
            have hseparator : Alternatives.separator.utf8ByteSize = 6 := by decide
            rw [String.ofList_toList, hmarks, hseparator]
          rw [hjoin, tokens_append_blank, tokens_append_blank, hmiddle, List.nil_append, hsize, ih]
          rfl

end Pattern

/-! ## Paths of alternatives -/

namespace Path

theorem parse?_text_of_mem {text source : String} {path : Path}
    (h : .path path source ∈ Segment.ofString text) : parse? path.text = some path := by
  obtain ⟨hread, htext⟩ := Segment.read?_source h
  rw [htext]
  exact parse?_of_read? hread

/-- The paths of a text are what its matches are read as. -/
theorem located_eq_filterMap_tokens (text : String) :
    located text = (Pattern.readable.tokens 0 text.toList).filterMap fun token =>
      (parse? token.1).map fun path => (path, token.2) := by
  have htokens := Segment.pathTexts_ofLexemes text.toList 0
  rw [← htokens, Segment.pathTexts, List.filterMap_filterMap, located, Segment.located]
  refine List.filterMap_congr fun entry hentry => ?_
  rcases entry with ⟨segment, span⟩
  have hsegment : segment ∈ Segment.ofString text := by
    have hsegments : (Span.layout Segment.source 0 (Segment.ofString text)).map Prod.fst =
        Segment.ofString text := Span.map_fst_layout ..
    rw [← hsegments]
    exact List.mem_map_of_mem hentry
  cases segment with
  | literal source => rfl
  | path found source =>
      have hparse := parse?_text_of_mem hsegment
      simp [Segment.path?, hparse]

theorem stop_le_of_mem_located {text : String} {path : Path} {span : Span}
    (h : (path, span) ∈ located text) : span.stop ≤ text.utf8ByteSize := by
  obtain ⟨⟨segment, span'⟩, hentry, hpath⟩ := List.mem_filterMap.1 h
  have hcut := (Span.fits_and_slice_of_mem_layout "" "" hentry).1
  rw [Segment.join_ofString, String.empty_append, String.append_empty] at hcut
  obtain ⟨found, -, heq⟩ := Option.map_eq_some_iff.1 hpath
  obtain rfl : span' = span := (Prod.mk.inj heq).2
  obtain ⟨front, rest, rfl, hstop⟩ := String.Pos.Raw.isValid_iff_exists_append.1 hcut.stop
  have hfront : span'.stop = front.utf8ByteSize := congrArg String.Pos.Raw.byteIdx hstop
  rw [hfront, String.utf8ByteSize_append]
  exact Nat.le_add_right _ _

end Path

namespace Alternatives

theorem map_fst_place (start : Nat) (texts : List String) :
    (place start texts).map Prod.fst = texts := by
  induction texts generalizing start with
  | nil => rfl
  | cons text texts ih => rw [place, List.map_cons, ih]

/-- Texts lie in what they are joined to where they are placed. -/
theorem fits_and_slice_of_mem_place {texts : List String} {text : String} {start : Nat}
    (before : String) (h : (text, start) ∈ place before.utf8ByteSize texts) :
    let span : Span := ⟨start, start + text.utf8ByteSize⟩
    span.Fits (before ++ join texts) ∧ span.slice (before ++ join texts) = text := by
  induction texts generalizing before with
  | nil => cases h
  | cons first texts ih =>
      have htext : ∃ after, before ++ join (first :: texts) = before ++ first ++ after ∧
          (texts ≠ [] → after = separator ++ join texts) := by
        cases texts with
        | nil => exact ⟨"", by simp [join], fun hne => absurd rfl hne⟩
        | cons next texts =>
            refine ⟨_, ?_, fun _ => rfl⟩
            rw [join, join, String.intercalate_cons_cons]
            simp only [String.append_assoc]
      obtain ⟨after, htext, hafter⟩ := htext
      rcases List.mem_cons.1 h with heq | h
      · obtain ⟨rfl, rfl⟩ := Prod.mk.inj heq
        rw [htext]
        exact ⟨Span.fits_behind before text after, Span.slice_behind before text after⟩
      · have hne : texts ≠ [] := by
          rintro rfl
          cases h
        rw [← String.utf8ByteSize_append, ← String.utf8ByteSize_append] at h
        have hlater := ih (before ++ first ++ separator) h
        rwa [String.append_assoc, ← hafter hne, ← htext] at hlater

end Alternatives

/-- The paths of a template are those of its alternatives, one after another, each where its
alternative lies. So no path reaches into a separator, and an alternative has the paths that it has
on its own, whatever its neighbours are. -/
theorem Path.located_eq_flatMap_pieces (template : String) :
    let pieces := Alternatives.place 0 (Alternatives.pieces template)
    located template = pieces.flatMap (fun piece =>
      (located piece.1).map fun entry => (entry.1, entry.2.shift piece.2)) ∧
    pieces.map Prod.fst = Alternatives.pieces template ∧
    (∀ piece ∈ pieces, let span : Span := ⟨piece.2, piece.2 + piece.1.utf8ByteSize⟩
      span.Fits template ∧ span.slice template = piece.1) ∧
    ∀ entry ∈ located template, ∃ piece ∈ pieces,
      piece.2 ≤ entry.2.start ∧ entry.2.stop ≤ piece.2 + piece.1.utf8ByteSize := by
  intro pieces
  have hlocated : located template = pieces.flatMap fun piece =>
      (located piece.1).map fun entry => (entry.1, entry.2.shift piece.2) := by
    have htokens := Pattern.tokens_join 0 (Alternatives.pieces template)
    rw [Alternatives.join_pieces] at htokens
    rw [located_eq_filterMap_tokens, htokens, List.filterMap_flatMap]
    congr 1
    funext piece
    rw [Pattern.tokens_eq_map_shift, List.filterMap_map, located_eq_filterMap_tokens,
      List.map_filterMap]
    simp only [Function.comp_def, Option.map_map]
  refine ⟨hlocated, Alternatives.map_fst_place _ _, fun piece hpiece => ?_, fun entry hentry => ?_⟩
  · have hplace := Alternatives.fits_and_slice_of_mem_place "" hpiece
    rwa [String.empty_append, Alternatives.join_pieces] at hplace
  · rw [hlocated] at hentry
    obtain ⟨piece, hpiece, hentry⟩ := List.mem_flatMap.1 hentry
    obtain ⟨⟨path, span⟩, hinner, rfl⟩ := List.mem_map.1 hentry
    exact ⟨piece, hpiece, Nat.le_add_right _ _,
      Nat.add_le_add_left (stop_le_of_mem_located hinner) _⟩

/-- An arrow does not go on behind a separator, and a dot there belongs to what follows it. -/
example : Path.located "$r_a-> $||$ .$b" =
    [(⟨[], .hop ⟨.forward, "a"⟩⟩, ⟨0, 4⟩), (⟨[], .ownProperty "b"⟩, ⟨12, 15⟩)] := by
  decide +kernel

end SchemaLink
