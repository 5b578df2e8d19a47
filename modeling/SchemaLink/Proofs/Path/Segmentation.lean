import SchemaLink.Proofs.Path.Longest

/-! # One way to read a text

The segments of a text, with their ranges, are the only ones that cover it in such a way that every
path goes on for as long as a path can that is written from there, and that no path is written from
within a literal. -/

namespace SchemaLink

/-! ## Ranges in a text -/

namespace Span

variable {span : Span} {text : String}

theorem slice_eq_empty (h : span.stop ≤ span.start) : span.slice text = "" := by
  rw [slice, String.Pos.Raw.extract, if_pos h]

/-- A range that fits cuts the text in three. -/
theorem Fits.exists_split (h : span.Fits text) (hle : span.start ≤ span.stop) :
    ∃ before after, text = before ++ span.slice text ++ after ∧
      span = behind before (span.slice text) := by
  rcases span with ⟨start, stop⟩
  obtain ⟨before, rest, htext, hstart⟩ := String.Pos.Raw.isValid_iff_exists_append.1 h.start
  obtain ⟨front, after, htext', hstop⟩ := String.Pos.Raw.isValid_iff_exists_append.1 h.stop
  obtain rfl : start = before.utf8ByteSize := congrArg String.Pos.Raw.byteIdx hstart
  obtain rfl : stop = front.utf8ByteSize := congrArg String.Pos.Raw.byteIdx hstop
  have hbefore : before.toList <+: text.toList := by simp [htext]
  have hfront : front.toList <+: text.toList := by simp [htext']
  obtain ⟨middle, rfl⟩ := exists_eq_append (prefix_of_utf8ByteSize_le hfront hbefore hle)
  have hslice : slice ⟨before.utf8ByteSize, (before ++ middle).utf8ByteSize⟩ text = middle := by
    rw [htext', String.utf8ByteSize_append]
    exact slice_behind before middle after
  refine ⟨before, after, ?_, ?_⟩
  · rw [hslice, htext']
  · rw [hslice, behind, String.utf8ByteSize_append]

end Span

/-- A part that is not empty lies behind the first part of a text just if the rest starts with
it. -/
theorem Span.fits_and_slice_append_iff {before part rest : String} {stop : Nat} (hne : part ≠ "") :
    Fits ⟨before.utf8ByteSize, stop⟩ (before ++ rest) ∧
        slice ⟨before.utf8ByteSize, stop⟩ (before ++ rest) = part ↔
      part.toList <+: rest.toList ∧ stop = before.utf8ByteSize + part.utf8ByteSize := by
  constructor
  · rintro ⟨hfits, rfl⟩
    have hle : before.utf8ByteSize ≤ stop := Nat.le_of_not_le fun hle => hne (slice_eq_empty hle)
    obtain ⟨front, after, htext, hspan⟩ := hfits.exists_split hle
    obtain ⟨hstart, hstop⟩ := Span.mk.inj hspan
    generalize slice ⟨before.utf8ByteSize, stop⟩ (before ++ rest) = part at htext hstop ⊢
    rw [String.append_assoc] at htext
    obtain ⟨rfl, rfl⟩ := append_inj_of_utf8ByteSize_eq htext hstart
    exact ⟨by simp, hstop⟩
  · rintro ⟨hpart, rfl⟩
    obtain ⟨after, rfl⟩ := exists_eq_append hpart
    rw [← String.append_assoc]
    exact ⟨fits_behind before part after, slice_behind before part after⟩

/-- Ranges that lie side by side and hold what items were read from are laid out from the start of
the text. -/
theorem eq_layout_of_tile {α : Type} {source : α → String} {found : List (α × Span)}
    {before rest : String}
    (htile : Span.Tile before.utf8ByteSize (found.map Prod.snd) (before ++ rest).utf8ByteSize)
    (hslices : ∀ entry ∈ found, entry.2.Fits (before ++ rest) ∧
      entry.2.slice (before ++ rest) = source entry.1) :
    found = Span.layout source before.utf8ByteSize (found.map Prod.fst) ∧
      String.join ((found.map Prod.fst).map source) = rest ∧
      ∀ item ∈ found.map Prod.fst, source item ≠ "" := by
  induction found generalizing before rest with
  | nil =>
      have hsize : before.utf8ByteSize = (before ++ rest).utf8ByteSize := htile
      rw [String.utf8ByteSize_append] at hsize
      have hrest : rest = "" := String.utf8ByteSize_eq_zero_iff.1 (by omega)
      exact ⟨rfl, hrest.symm, List.forall_mem_nil _⟩
  | cons entry found ih =>
      rcases entry with ⟨item, span⟩
      obtain ⟨hstart, hstop, htile⟩ := htile
      obtain ⟨⟨hfits, hslice⟩, hothers⟩ := List.forall_mem_cons.1 hslices
      obtain ⟨front, after, htext, hspan⟩ := hfits.exists_split (hstart ▸ hstop.le)
      dsimp only at hstart htile hslice htext hspan
      rw [hslice] at htext hspan
      subst hspan
      rw [String.append_assoc] at htext
      obtain ⟨rfl, rfl⟩ := append_inj_of_utf8ByteSize_eq htext hstart.symm
      have hbehind : (Span.behind before (source item)).stop =
          (before ++ source item).utf8ByteSize := String.utf8ByteSize_append.symm
      rw [← String.append_assoc, hbehind] at htile
      simp only [← String.append_assoc] at hothers
      obtain ⟨hfound, hjoin, hne⟩ := ih htile hothers
      refine ⟨?_, ?_, List.forall_mem_cons.2 ⟨?_, hne⟩⟩
      · rw [List.map_cons, Span.layout, ← String.utf8ByteSize_append, ← hfound, ← hbehind]
        rfl
      · rw [List.map_cons, List.map_cons, String.join_cons, hjoin]
      · intro hempty
        simp [Span.behind, hempty] at hstop

theorem Path.text_ne_empty (path : Path) : path.text ≠ "" := by
  rcases path with ⟨hops, terminal⟩
  cases hops with
  | nil => cases terminal <;> simp [Path.text, Terminal.text, Hop.text, String.append_eq_empty_iff]
  | cons step hops => simp [Path.text, Hop.text, String.append_eq_empty_iff]

theorem Path.eq_of_text_eq {path other : Path} (h : path.WellFormed) (h' : other.WellFormed)
    (htext : path.text = other.text) : path = other :=
  Option.some.inj ((parse?_text h).symm.trans (htext ▸ parse?_text h'))

/-- A well-formed path is written in a range of a text. -/
structure Path.StandsIn (path : Path) (text : String) (span : Span) : Prop where
  wellFormed : path.WellFormed
  fits : span.Fits text
  slice_eq : span.slice text = path.text

/-- A path is written behind the first part of a text if the rest starts with it. -/
theorem Path.standsIn_append_iff {path : Path} {before rest : String} {stop : Nat} :
    path.StandsIn (before ++ rest) ⟨before.utf8ByteSize, stop⟩ ↔ path.WellFormed ∧
      path.text.toList <+: rest.toList ∧ stop = before.utf8ByteSize + path.text.utf8ByteSize := by
  rw [← Span.fits_and_slice_append_iff path.text_ne_empty]
  exact ⟨fun h => ⟨h.wellFormed, h.fits, h.slice_eq⟩, fun h => ⟨h.1, h.2.1, h.2.2⟩⟩

/-! ## Segments -/

namespace Segment

open Lexeme (scan)

/-- The characters of segments. -/
def sources (segments : List Segment) : List Char :=
  segments.flatMap fun segment => segment.source.toList

/-- Paths are the longest where they stand, and none starts within a literal. -/
def Exact : List Segment → Prop
  | [] => True
  | .path found source :: after => found.WellFormed ∧ found.text = source ∧
    Pattern.readable.first? (source.toList ++ sources after) = some (sources after) ∧ Exact after
  | .literal source :: after => (∀ rest, rest ≠ [] → rest <:+ source.toList →
    Pattern.readable.first? (rest ++ sources after) = none) ∧ Exact after

theorem sources_cons (segment : Segment) (segments : List Segment) :
    sources (segment :: segments) = segment.source.toList ++ sources segments := rfl

theorem toList_join_source (segments : List Segment) :
    (String.join (segments.map source)).toList = sources segments := by
  rw [String.toList_join, List.flatMap_map]
  rfl

theorem sources_ofLexemes (cs : List Char) : sources (ofLexemes (scan cs)) = cs := by
  have hjoin := join_ofString (String.ofList cs)
  rw [ofString, Lexeme.ofString, String.toList_ofList] at hjoin
  rw [← toList_join_source, hjoin, String.toList_ofList]

theorem exact_consLiteral {text : String} {segments : List Segment} (h : Exact segments)
    (hnone : ∀ rest, rest ≠ [] → rest <:+ text.toList →
      Pattern.readable.first? (rest ++ sources segments) = none) :
    Exact (consLiteral text segments) := by
  unfold consLiteral
  split
  · next source after =>
      refine ⟨fun rest hne hrest => ?_, h.2⟩
      rw [String.toList_append] at hrest
      rcases List.suffix_or_suffix_of_suffix hrest (List.suffix_append _ _) with hin | hover
      · exact h.1 rest hne hin
      · obtain ⟨front, rfl⟩ := hover
        have hfront : front <:+ text.toList := by
          obtain ⟨before, hbefore⟩ := hrest
          rw [← List.append_assoc] at hbefore
          exact ⟨before, List.append_cancel_right hbefore⟩
        by_cases hempty : front = []
        · rw [hempty, List.nil_append] at hne ⊢
          exact h.1 _ hne List.suffix_rfl
        · rw [List.append_assoc]
          exact hnone front hempty hfront
  · exact ⟨hnone, h⟩

theorem exact_ofLexemes (cs : List Char) : Exact (ofLexemes (scan cs)) := by
  generalize hlexemes : scan cs = lexemes
  fun_induction ofLexemes lexemes generalizing cs with
  | case1 => trivial
  | case2 lexeme others found hread ih =>
      have hagrees := agrees_read? cs
      rw [hlexemes, hread] at hagrees
      obtain ⟨rest, hfirst, hrest, hcs⟩ := hagrees
      have hwellFormed : found.path.WellFormed :=
        PathMatch.wellFormed_of_read? hread fun word hword =>
          Lexeme.inPath_name_of_mem_scan (hlexemes ▸ hword)
      refine ⟨hwellFormed, PathMatch.text_read? hread, ?_, ih rest hrest.symm⟩
      rw [hrest, sources_ofLexemes, Lexeme.toList_join_source, ← hcs, hfirst]
  | case3 lexeme others hread ih =>
      have hagrees := agrees_read? cs
      rw [hlexemes, hread] at hagrees
      obtain ⟨rest, hcs, hrest, hinner, -⟩ := scan_eq_cons hlexemes
      refine exact_consLiteral (ih rest hrest.symm) fun later hne hlater => ?_
      rw [hrest, sources_ofLexemes]
      obtain ⟨front, hfront⟩ := hlater
      cases front with
      | nil =>
          rw [List.nil_append] at hfront
          rw [hfront, ← hcs]
          exact hagrees
      | cons first front =>
          obtain ⟨c, more, rfl⟩ := List.exists_cons_of_ne_nil hne
          have hc := hinner c (by rw [← hfront]; simp)
          exact Pattern.first?_readable_of_ne hc.1 hc.2 _

/-- A literal does not end where another one goes on: what follows it is a path. -/
theorem Exact.literal_eq {source other : String} {after others : List Segment}
    (h : Exact (.literal source :: after)) (h' : Exact (.literal other :: others))
    (halternate : Alternate (.literal source :: after))
    (hsources : sources (.literal source :: after) = sources (.literal other :: others))
    (hfront : source.toList <+: other.toList) : source = other := by
  obtain ⟨more, rfl⟩ := exists_eq_append hfront
  by_contra hne
  have hmore : more.toList ≠ [] := fun hempty => hne (by
    rw [String.toList_eq_nil_iff.1 hempty, String.append_empty])
  have hafter : sources after = more.toList ++ sources others := by
    simpa [sources_cons, Segment.source] using hsources
  have hnone : Pattern.readable.first? (sources after) = none := by
    rw [hafter]
    exact h'.1 more.toList hmore (by simp)
  cases after with
  | nil => exact hmore (List.append_eq_nil_iff.1 hafter.symm).1
  | cons next after =>
      cases next with
      | literal text =>
          have hpath := List.IsChain.rel halternate
          simp [path?] at hpath
      | path found text =>
          have hsome := h.2.2.2.1
          rw [sources_cons, Segment.source, hsome] at hnone
          cases hnone

theorem Exact.eq_of_sources_eq {segments others : List Segment} (h : Exact segments)
    (h' : Exact others) (hne : ∀ segment ∈ segments, segment.source ≠ "")
    (hne' : ∀ segment ∈ others, segment.source ≠ "") (halternate : Alternate segments)
    (halternate' : Alternate others) (hsources : sources segments = sources others) :
    segments = others := by
  induction segments generalizing others with
  | nil =>
      cases others with
      | nil => rfl
      | cons other others =>
          have hempty := (List.append_eq_nil_iff.1 hsources.symm).1
          exact absurd (String.toList_eq_nil_iff.1 hempty) (hne' other List.mem_cons_self)
  | cons segment segments ih =>
      obtain ⟨hsegment, hsegments⟩ := List.forall_mem_cons.1 hne
      cases others with
      | nil =>
          have hempty := (List.append_eq_nil_iff.1 hsources).1
          exact absurd (String.toList_eq_nil_iff.1 hempty) hsegment
      | cons other others =>
          obtain ⟨hother, hothers⟩ := List.forall_mem_cons.1 hne'
          have htail : segment.source = other.source → Exact segments → Exact others →
              segments = others := fun heq hexact hexact' => by
            rw [sources_cons, sources_cons, heq] at hsources
            exact ih hexact hexact' hsegments hothers halternate.tail halternate'.tail
              (List.append_cancel_left hsources)
          cases segment with
          | literal source =>
              cases other with
              | literal text =>
                  have heq : source = text := by
                    have hback : text.toList <+: source.toList ++ sources segments :=
                      ⟨sources others, hsources.symm⟩
                    rcases List.prefix_or_prefix_of_prefix (List.prefix_append _ _) hback with
                      hprefix | hprefix
                    · exact h.literal_eq h' halternate hsources hprefix
                    · exact (h'.literal_eq h halternate' hsources.symm hprefix).symm
                  rw [heq, htail heq h.2 h'.2]
              | path found text =>
                  have hnone := h.1 source.toList (mt String.toList_eq_nil_iff.1 hsegment)
                    List.suffix_rfl
                  cases hnone.symm.trans ((congrArg _ hsources).trans h'.2.2.1)
          | path found source =>
              cases other with
              | literal text =>
                  have hnone := h'.1 text.toList (mt String.toList_eq_nil_iff.1 hother)
                    List.suffix_rfl
                  cases hnone.symm.trans ((congrArg _ hsources.symm).trans h.2.2.1)
              | path found' text =>
                  have hrest : sources segments = sources others := Option.some.inj
                    (h.2.2.1.symm.trans ((congrArg _ hsources).trans h'.2.2.1))
                  have heq : source = text := by
                    rw [sources_cons, sources_cons, hrest] at hsources
                    exact String.toList_inj.1 (List.append_cancel_right hsources)
                  have hfound : found = found' :=
                    Path.eq_of_text_eq h.1 h'.1 (h.2.1.trans (heq.trans h'.2.1.symm))
                  rw [heq, hfound, htail heq h.2.2.2 h'.2.2.2]

/-! ## Ranges of segments -/

/-- The ranges are not empty, lie side by side from the first byte of a text to the last, and hold
what the segments were read from, and no literal follows another one. -/
structure Covers (text : String) (found : List (Segment × Span)) : Prop where
  tile : Span.Tile 0 (found.map Prod.snd) text.utf8ByteSize
  slice_eq : ∀ entry ∈ found, entry.2.Fits text ∧ entry.2.slice text = entry.1.source
  alternate : Alternate (found.map Prod.fst)

/-- A path goes on for as long as any that is written from its start, and none is written from
within a literal. -/
def Greedy (text : String) : Segment × Span → Prop
  | (.path found _, span) => found.StandsIn text span ∧
    ∀ stop (other : Path), other.StandsIn text ⟨span.start, stop⟩ → stop ≤ span.stop
  | (.literal _, span) => ∀ start stop (other : Path), span.start ≤ start → start < span.stop →
    ¬ other.StandsIn text ⟨start, stop⟩

theorem greedy_path_iff (found : Path) (before middle rest : String) :
    Greedy (before ++ (middle ++ rest)) (.path found middle, .behind before middle) ↔
      found.WellFormed ∧ found.text = middle ∧
        Pattern.readable.first? (middle.toList ++ rest.toList) = some rest.toList := by
  constructor
  · rintro ⟨hstands, hlongest⟩
    obtain ⟨hfound, hprefix, hstop⟩ := Path.standsIn_append_iff.1 hstands
    have htext : found.text = middle := by
      obtain ⟨more, hmore⟩ := exists_eq_append hprefix
      exact (append_inj_of_utf8ByteSize_eq hmore (Nat.add_left_cancel hstop)).1.symm
    refine ⟨hfound, htext, Pattern.first?_readable_eq_some_iff.2 ⟨found, hfound, ?_, ?_⟩⟩
    · rw [htext]
    · intro other hother hprefix'
      rw [← String.toList_append] at hprefix'
      have hle := hlongest _ other (Path.standsIn_append_iff.2 ⟨hother, hprefix', rfl⟩)
      refine prefix_of_utf8ByteSize_le hprefix hprefix' ?_
      rw [htext]
      exact Nat.le_of_add_le_add_left hle
  · rintro ⟨hfound, rfl, hfirst⟩
    refine ⟨Path.standsIn_append_iff.2 ⟨hfound, by simp, rfl⟩, fun stop other hother => ?_⟩
    obtain ⟨hwritten, hprefix, rfl⟩ := Path.standsIn_append_iff.1 hother
    obtain ⟨path, -, htext, hlongest⟩ := Pattern.first?_readable_eq_some_iff.1 hfirst
    rw [← List.append_cancel_right htext] at hlongest
    have hshorter := hlongest other hwritten (String.toList_append ▸ hprefix)
    have hbytes := utf8ByteSize_le_of_prefix hshorter
    exact Nat.add_le_add_left hbytes _

theorem greedy_literal_iff (before middle rest : String) :
    Greedy (before ++ (middle ++ rest)) (.literal middle, .behind before middle) ↔
      ∀ later, later ≠ [] → later <:+ middle.toList →
        Pattern.readable.first? (later ++ rest.toList) = none := by
  constructor
  · rintro h later hne ⟨front, hfront⟩
    obtain rfl : middle = String.ofList front ++ String.ofList later := by
      rw [← String.toList_inj, ← hfront]
      simp
    refine Pattern.first?_readable_eq_none_iff.2 fun path hpath hprefix => ?_
    have hpos : 0 < (String.ofList later).utf8ByteSize := Nat.pos_of_ne_zero fun hzero =>
      hne (by simpa using String.utf8ByteSize_eq_zero_iff.1 hzero)
    have hstands : path.StandsIn (before ++ String.ofList front ++ (String.ofList later ++ rest))
        ⟨(before ++ String.ofList front).utf8ByteSize, _⟩ :=
      Path.standsIn_append_iff.2 ⟨hpath, by simpa using hprefix, rfl⟩
    simp only [String.append_assoc, String.utf8ByteSize_append] at hstands
    refine h _ _ path ?_ ?_ (by simpa only [String.append_assoc] using hstands)
    · exact Nat.le_add_right _ _
    · simp only [Span.behind, String.utf8ByteSize_append]
      omega
  · intro h start stop path hstart hstop hstands
    obtain ⟨front, back, htext, hfront⟩ :=
      String.Pos.Raw.isValid_iff_exists_append.1 hstands.fits.start
    obtain rfl : start = front.utf8ByteSize := congrArg String.Pos.Raw.byteIdx hfront
    have hfront' : front.toList <+: (front ++ back).toList := by simp
    have hbefore : before.toList <+: (front ++ back).toList := by simp [← htext]
    obtain ⟨skipped, rfl⟩ :=
      exists_eq_append (prefix_of_utf8ByteSize_le hfront' hbefore hstart)
    rw [String.append_assoc, String.append_right_inj] at htext
    have hshorter : skipped.utf8ByteSize < middle.utf8ByteSize := by
      simpa [Span.behind, String.utf8ByteSize_append] using hstop
    have hmiddle : middle.toList <+: (middle ++ rest).toList := by simp
    have hskipped : skipped.toList <+: (middle ++ rest).toList := by simp [htext]
    obtain ⟨later, rfl⟩ :=
      exists_eq_append (prefix_of_utf8ByteSize_le hmiddle hskipped hshorter.le)
    have hne : later.toList ≠ [] := fun hempty => by
      rw [String.toList_eq_nil_iff.1 hempty, String.append_empty] at hshorter
      exact Nat.lt_irrefl _ hshorter
    rw [String.append_assoc, ← String.append_assoc] at hstands
    obtain ⟨hpath, hprefix, -⟩ := Path.standsIn_append_iff.1 hstands
    rw [String.toList_append] at hprefix
    exact Pattern.first?_readable_eq_none_iff.1 (h later.toList hne (by simp)) path hpath hprefix

theorem forall_greedy_iff (segments : List Segment) (before : String) :
    (∀ entry ∈ Span.layout source before.utf8ByteSize segments,
      Greedy (before ++ String.join (segments.map source)) entry) ↔ Exact segments := by
  induction segments generalizing before with
  | nil => exact iff_of_true (List.forall_mem_nil _) trivial
  | cons segment segments ih =>
      have hrest := ih (before ++ segment.source)
      rw [String.utf8ByteSize_append, String.append_assoc] at hrest
      rw [Span.layout, List.forall_mem_cons, List.map_cons, String.join_cons, hrest]
      cases segment with
      | literal source =>
          have hfirst := greedy_literal_iff before source
            (String.join (segments.map Segment.source))
          rw [toList_join_source] at hfirst
          exact and_congr_left' hfirst
      | path found source =>
          have hfirst := greedy_path_iff found before source
            (String.join (segments.map Segment.source))
          rw [toList_join_source] at hfirst
          exact (and_congr_left' hfirst).trans (by simp only [Exact, and_assoc])

theorem covers_located (text : String) : Covers text (located text) where
  tile := by
    have hne : ∀ segment ∈ ofString text, segment.source ≠ "" :=
      source_ne_empty fun _ => Lexeme.source_ne_empty_of_mem_scan
    have htile := Span.tile_layout hne 0
    rwa [join_ofString, Nat.zero_add] at htile
  slice_eq entry hentry := by
    have hcut := Span.fits_and_slice_of_mem_layout "" "" hentry
    rwa [join_ofString, String.empty_append, String.append_empty] at hcut
  alternate := by
    rw [located, Span.map_fst_layout]
    exact alternate_ofLexemes _

/-- Paths are as long as they can be and none is missed: the segments of a text with their ranges
are the only ones that cover it and have every path go on for as long as any well-formed path that
is written from the same byte, and no such path written from a byte of a literal. -/
theorem eq_located_iff (text : String) (found : List (Segment × Span)) :
    found = located text ↔ Covers text found ∧ ∀ entry ∈ found, Greedy text entry := by
  have hexact : Exact (ofString text) := exact_ofLexemes _
  constructor
  · rintro rfl
    refine ⟨covers_located text, ?_⟩
    have hgreedy := (forall_greedy_iff (ofString text) "").2 hexact
    rwa [join_ofString, String.empty_append] at hgreedy
  · rintro ⟨hcovers, hgreedy⟩
    have htile : Span.Tile "".utf8ByteSize (found.map Prod.snd) ("" ++ text).utf8ByteSize := by
      rw [String.empty_append]
      exact hcovers.tile
    have hslices := hcovers.slice_eq
    rw [← String.empty_append (s := text)] at hslices
    obtain ⟨hfound, hjoin, hne⟩ := eq_layout_of_tile htile hslices
    rw [hfound, ← String.empty_append (s := text), ← hjoin] at hgreedy
    have hsegments : found.map Prod.fst = ofString text := by
      refine Exact.eq_of_sources_eq ((forall_greedy_iff _ "").1 hgreedy) hexact hne ?_
        hcovers.alternate (alternate_ofLexemes _) ?_
      · exact source_ne_empty fun _ => Lexeme.source_ne_empty_of_mem_scan
      · rw [← toList_join_source, ← toList_join_source, hjoin, join_ofString]
    rw [hfound, hsegments]
    rfl

/-- A bound property ends a path, and so does an arrow that no path follows. -/
example : located "$r_a.$b->$r_c-> x" = [
    (.path ⟨[], .hopProperty ⟨.forward, "a"⟩ "b"⟩ "$r_a.$b", ⟨0, 7⟩), (.literal "->", ⟨7, 9⟩),
    (.path ⟨[], .hop ⟨.forward, "c"⟩⟩ "$r_c", ⟨9, 13⟩), (.literal "-> x", ⟨13, 17⟩)] := by
  decide +kernel

end Segment

end SchemaLink
