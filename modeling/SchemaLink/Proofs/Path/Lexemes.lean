import SchemaLink.Proofs.Path.Segmentation

/-! # One way to read lexemes

The lexemes of a text, with their ranges, are the only ones that cover it in such a way that each is
the longest that stands where it starts. Whether they are is seen where two of them meet: no name
and no lone dollar sign goes on with a character of names, no lone hyphen with the end of an arrow,
and no text with more text. -/

namespace SchemaLink

namespace Lexeme

variable {lexeme other next : Lexeme} {lexemes : List Lexeme} {cs rest : List Char} {c : Char}

/-! ## Shapes -/

/-- The shapes of lexemes. -/
def WellFormed : Lexeme → Prop
  | arrow | dot | dollar | minus => True
  | name word => IsName word
  | text run => run ≠ "" ∧ ∀ c ∈ run.toList, isTextChar c = true

def isText : Lexeme → Bool
  | text _ => true
  | arrow | dot | name _ | dollar | minus => false

theorem isTextChar_iff : isTextChar c = true ↔ c ≠ '$' ∧ c ≠ '.' ∧ c ≠ '-' := by
  simp [isTextChar, and_assoc]

theorem WellFormed.source_ne_empty (h : lexeme.WellFormed) : lexeme.source ≠ "" := by
  cases lexeme with
  | arrow | dot | dollar | minus => decide
  | name word => simp [source, String.append_eq_empty_iff]
  | text run => exact h.1

theorem WellFormed.exists_cons (h : lexeme.WellFormed) :
    ∃ c cs, lexeme.source.toList = c :: cs :=
  List.exists_cons_of_ne_nil (mt String.toList_eq_nil_iff.1 h.source_ne_empty)

/-- A lexeme is text just if it starts with a character of text. -/
theorem WellFormed.isTextChar_eq (h : lexeme.WellFormed)
    (hsource : lexeme.source.toList = c :: cs) : isTextChar c = lexeme.isText := by
  cases lexeme with
  | text run =>
      have hmem : c ∈ (text run).source.toList := by simp [hsource]
      exact h.2 c hmem
  | arrow | dot | name | dollar | minus =>
      simp only [source, String.toList_append] at hsource
      obtain rfl := (List.cons.inj hsource).1
      rfl

/-! ## Lexemes that go on -/

/-- The character can go behind a lexeme so that a longer one comes of it. -/
def goesOn : Lexeme → Char → Bool
  | arrow, _ | dot, _ => false
  | name _, c | dollar, c => isNameChar c
  | minus, c => '>' == c
  | text _, c => isTextChar c

theorem push_run {p : Char → Bool} {run : String} (hrun : ∀ d ∈ run.toList, p d = true)
    (hc : p c = true) : run.push c ≠ "" ∧ ∀ d ∈ (run.push c).toList, p d = true := by
  refine ⟨by simp, ?_⟩
  rw [String.toList_push, List.forall_mem_append, List.forall_mem_singleton]
  exact ⟨hrun, hc⟩

theorem exists_of_goesOn (h : lexeme.WellFormed) (hc : lexeme.goesOn c = true) :
    ∃ other : Lexeme, other.WellFormed ∧ other.source.toList = lexeme.source.toList ++ [c] := by
  cases lexeme with
  | arrow | dot => cases hc
  | name word => exact ⟨name (word.push c), push_run h.2 hc, by simp [source]⟩
  | dollar => exact ⟨name (String.push "" c), push_run (by simp) hc, by simp [source]⟩
  | minus =>
      obtain rfl := beq_iff_eq.1 hc
      exact ⟨arrow, trivial, rfl⟩
  | text run => exact ⟨text (run.push c), push_run h.2 hc, by simp [source]⟩

/-- A lexeme goes on wherever a longer one starts as it does. -/
theorem goesOn_of_source (h : lexeme.WellFormed) (hother : other.WellFormed)
    (hsource : other.source.toList = lexeme.source.toList ++ c :: rest) :
    lexeme.goesOn c = true := by
  obtain ⟨d, ds, hd⟩ := h.exists_cons
  have hkind : other.isText = lexeme.isText := by
    rw [← h.isTextChar_eq hd, ← hother.isTextChar_eq (hsource.trans (by rw [hd]; rfl))]
  cases lexeme with
  | text run =>
      cases other with
      | text longer => exact hother.2 c (by simp_all [source])
      | arrow | dot | name | dollar | minus => cases hkind
  | minus =>
      cases other with
      | arrow => exact beq_iff_eq.2 (List.cons.inj (List.cons.inj hsource).2).1
      | text longer => cases hkind
      | dot | name | dollar | minus => simp [source] at hsource
  | arrow | dot | name | dollar =>
      cases other with
      | text longer => cases hkind
      | arrow | dot | name | dollar | minus => simp_all [source, goesOn, WellFormed, IsName]

/-! ## Lexemes that are scanned -/

/-- A lexeme is read where its characters stand, if it does not go on. -/
theorem scan_source_append (h : lexeme.WellFormed)
    (hstop : ∀ c ∈ rest.head?, lexeme.goesOn c = false) :
    scan (lexeme.source.toList ++ rest) = lexeme :: scan rest := by
  cases lexeme with
  | arrow | dot => simp [source, scan]
  | name word =>
      obtain ⟨htake, hdrop⟩ := takeWhile_append_of_stops h.2 hstop
      simp [source, scan, htake, hdrop, h.1]
  | dollar =>
      have hnone : rest.takeWhile isNameChar = [] :=
        (takeWhile_append_of_stops (List.forall_mem_nil _) hstop).1
      change scan ('$' :: rest) = _
      rw [scan, if_pos (List.isEmpty_iff.2 hnone)]
  | minus =>
      have hnone : ∀ after, rest = '>' :: after → False := by
        rintro after rfl
        cases hstop '>' rfl
      change scan ('-' :: rest) = _
      rw [scan]
      exact hnone
  | text run =>
      obtain ⟨c, more, hrun⟩ := List.exists_cons_of_ne_nil (mt String.toList_eq_nil_iff.1 h.1)
      have hchars := h.2
      rw [hrun, List.forall_mem_cons] at hchars
      obtain ⟨htake, hdrop⟩ := takeWhile_append_of_stops hchars.2 hstop
      obtain ⟨hdollar, hdot, hminus⟩ := isTextChar_iff.1 hchars.1
      change scan (run.toList ++ rest) = _
      rw [hrun, List.cons_append, scan]
      · rw [htake, hdrop, ← hrun, String.ofList_toList]
      · exact fun _ hc => absurd hc hminus
      · exact hminus
      · exact hdot
      · exact hdollar

/-- What is scanned first is well formed, and does not go on with what is scanned after it. -/
theorem exists_of_scan_eq_cons (h : scan cs = lexeme :: lexemes) : ∃ rest,
    cs = lexeme.source.toList ++ rest ∧ lexemes = scan rest ∧ lexeme.WellFormed ∧
      ∀ c ∈ rest.head?, lexeme.goesOn c = false := by
  fun_cases scan cs with
  | case1 => rw [scan] at h; cases h
  | case2 rest =>
      rw [scan] at h
      cases h
      exact ⟨rest, rfl, rfl, trivial, fun _ _ => rfl⟩
  | case3 rest hminus =>
      rw [scan] at h
      · cases h
        refine ⟨rest, rfl, rfl, trivial, fun c hc => beq_eq_false_iff_ne.2 ?_⟩
        rintro rfl
        obtain ⟨after, hafter⟩ := List.head?_eq_some_iff.1 hc
        exact hminus after hafter
      · exact hminus
  | case4 rest =>
      rw [scan] at h
      cases h
      exact ⟨rest, rfl, rfl, trivial, fun _ _ => rfl⟩
  | case5 rest hempty =>
      rw [scan, if_pos hempty] at h
      cases h
      refine ⟨rest, rfl, rfl, trivial, fun c hc => ?_⟩
      obtain ⟨after, rfl⟩ := List.head?_eq_some_iff.1 hc
      change isNameChar c = false
      simpa using hempty
  | case6 rest hname =>
      rw [scan, if_neg hname] at h
      cases h
      refine ⟨rest.dropWhile isNameChar, ?_, rfl, ⟨?_, ?_⟩, stops_dropWhile rest⟩
      · simp [source, List.takeWhile_append_dropWhile]
      · simpa using hname
      · rw [String.toList_ofList]
        exact List.all_eq_true.1 List.all_takeWhile
  | case7 c rest harrow hminus hdot hdollar =>
      rw [scan] at h
      · cases h
        refine ⟨rest.dropWhile isTextChar, ?_, rfl, ⟨?_, ?_⟩, stops_dropWhile rest⟩
        · simp [source, List.takeWhile_append_dropWhile]
        · simp
        · rw [String.toList_ofList, List.forall_mem_cons]
          exact ⟨isTextChar_iff.2 ⟨hdollar, hdot, hminus⟩, List.all_eq_true.1 List.all_takeWhile⟩
      · exact harrow
      · exact hminus
      · exact hdot
      · exact hdollar

theorem wellFormed_of_mem_scan (h : lexeme ∈ scan cs) : lexeme.WellFormed := by
  generalize hscan : scan cs = lexemes at h
  induction lexemes generalizing cs with
  | nil => cases h
  | cons first lexemes ih =>
      obtain ⟨rest, -, hrest, hfirst, -⟩ := exists_of_scan_eq_cons hscan
      rcases List.mem_cons.1 h with rfl | h
      · exact hfirst
      · exact ih hrest.symm h

/-! ## Lexemes that meet -/

/-- The first of two lexemes that meet does not go on with the second. -/
def Apart : Lexeme → Lexeme → Prop
  | arrow, _ | dot, _ => True
  | name _, next | dollar, next => ∀ c ∈ next.source.toList.head?, isNameChar c = false
  | minus, next => next.source.toList.head? ≠ some '>'
  | text _, next => ∀ run, next ≠ text run

theorem apart_iff (h : next.WellFormed) :
    lexeme.Apart next ↔ ∀ c ∈ next.source.toList.head?, lexeme.goesOn c = false := by
  cases lexeme with
  | arrow | dot => exact iff_of_true trivial fun _ _ => rfl
  | name | dollar => exact Iff.rfl
  | minus =>
      constructor
      · exact fun hne c hc => beq_eq_false_iff_ne.2 fun heq => hne (heq ▸ hc)
      · exact fun hstop hhead => absurd (hstop '>' hhead) (by decide)
  | text run =>
      obtain ⟨c, more, hnext⟩ := h.exists_cons
      have hkind := h.isTextChar_eq hnext
      cases next <;> simp_all [Apart, goesOn, isText]

theorem stops_sources_iff (h : ∀ lexeme ∈ lexemes, lexeme.WellFormed) :
    (∀ c ∈ (sources lexemes).head?, lexeme.goesOn c = false) ↔
      ∀ next ∈ lexemes.head?, lexeme.Apart next := by
  cases lexemes with
  | nil => simp [sources]
  | cons next lexemes =>
      have hnext := h next (by simp)
      have hhead : (sources (next :: lexemes)).head? = next.source.toList.head? := by
        rw [sources_cons, List.head?_append_of_ne_nil]
        exact mt String.toList_eq_nil_iff.1 hnext.source_ne_empty
      rw [hhead, ← apart_iff hnext]
      simp

theorem chain_scan (cs : List Char) : (scan cs).IsChain Apart := by
  generalize hscan : scan cs = lexemes
  induction lexemes generalizing cs with
  | nil => exact .nil
  | cons lexeme lexemes ih =>
      obtain ⟨rest, -, hrest, -, hstop⟩ := exists_of_scan_eq_cons hscan
      refine List.isChain_cons.2 ⟨?_, ih rest hrest.symm⟩
      have hsources : sources lexemes = rest := by rw [hrest, sources_scan]
      rw [← stops_sources_iff, hsources]
      · exact hstop
      · rw [hrest]
        exact fun _ => wellFormed_of_mem_scan

/-- Lexemes that stay apart are read again from what they are written as. -/
theorem scan_sources_of_chain (h : ∀ lexeme ∈ lexemes, lexeme.WellFormed)
    (hchain : lexemes.IsChain Apart) : scan (sources lexemes) = lexemes := by
  induction lexemes with
  | nil => simp [sources, scan]
  | cons lexeme lexemes ih =>
      obtain ⟨hlexeme, hlexemes⟩ := List.forall_mem_cons.1 h
      obtain ⟨hapart, hrest⟩ := List.isChain_cons.1 hchain
      rw [sources_cons, scan_source_append hlexeme ((stops_sources_iff hlexemes).2 hapart),
        ih hlexemes hrest]

/-! ## Ranges of lexemes -/

/-- The lexemes of a text with their byte ranges. -/
def located (text : String) : List (Lexeme × Span) := Span.layout source 0 (ofString text)

/-- A well-formed lexeme is written in a range of a text. -/
structure StandsIn (lexeme : Lexeme) (text : String) (span : Span) : Prop where
  wellFormed : lexeme.WellFormed
  fits : span.Fits text
  slice_eq : span.slice text = lexeme.source

theorem standsIn_append_iff {before after : String} {stop : Nat} :
    lexeme.StandsIn (before ++ after) ⟨before.utf8ByteSize, stop⟩ ↔ lexeme.WellFormed ∧
      lexeme.source.toList <+: after.toList ∧
        stop = before.utf8ByteSize + lexeme.source.utf8ByteSize := by
  constructor
  · intro h
    exact ⟨h.wellFormed,
      (Span.fits_and_slice_append_iff h.wellFormed.source_ne_empty).1 ⟨h.fits, h.slice_eq⟩⟩
  · rintro ⟨hlexeme, hafter⟩
    obtain ⟨hfits, hslice⟩ := (Span.fits_and_slice_append_iff hlexeme.source_ne_empty).2 hafter
    exact ⟨hlexeme, hfits, hslice⟩

/-- The ranges are not empty, lie side by side from the first byte of a text to the last, and a
lexeme is written in each. -/
structure Covers (text : String) (found : List (Lexeme × Span)) : Prop where
  tile : Span.Tile 0 (found.map Prod.snd) text.utf8ByteSize
  stands : ∀ entry ∈ found, entry.1.StandsIn text entry.2

/-- No lexeme that is written from the same byte is longer. -/
def Longest (text : String) (entry : Lexeme × Span) : Prop :=
  ∀ (other : Lexeme) (stop : Nat), other.StandsIn text ⟨entry.2.start, stop⟩ → stop ≤ entry.2.stop

theorem covers_located (text : String) : Covers text (located text) where
  tile := by
    have hne : ∀ lexeme ∈ ofString text, lexeme.source ≠ "" :=
      fun _ => source_ne_empty_of_mem_scan
    have htile := Span.tile_layout hne 0
    rwa [join_ofString, Nat.zero_add] at htile
  stands entry hentry := by
    have hmem : entry.1 ∈ ofString text := by
      rw [← Span.map_fst_layout 0 (ofString text)]
      exact List.mem_map_of_mem hentry
    have hcut := Span.fits_and_slice_of_mem_layout "" "" hentry
    rw [join_ofString, String.empty_append, String.append_empty] at hcut
    exact ⟨wellFormed_of_mem_scan hmem, hcut.1, hcut.2⟩

/-- A lexeme is the longest where it stands just if it does not go on with what follows. -/
theorem longest_iff (h : lexeme.WellFormed) (before after : String) :
    Longest (before ++ (lexeme.source ++ after)) (lexeme, .behind before lexeme.source) ↔
      ∀ c ∈ after.toList.head?, lexeme.goesOn c = false := by
  have hlexeme : lexeme.source.toList <+: (lexeme.source ++ after).toList := by simp
  constructor
  · intro hlongest c hc
    obtain ⟨rest, hafter⟩ := List.head?_eq_some_iff.1 hc
    refine Bool.eq_false_iff.2 fun hgoes => ?_
    obtain ⟨other, hother, hsource⟩ := exists_of_goesOn h hgoes
    have hprefix : other.source.toList <+: (lexeme.source ++ after).toList := by
      simp [hsource, hafter]
    have hle := hlongest other _ (standsIn_append_iff.2 ⟨hother, hprefix, rfl⟩)
    have hshort := prefix_of_utf8ByteSize_le hlexeme hprefix (Nat.le_of_add_le_add_left hle)
    simpa [hsource] using hshort.length_le
  · intro hstop other stop hstands
    obtain ⟨hother, hprefix, rfl⟩ := standsIn_append_iff.1 hstands
    refine Nat.add_le_add_left ?_ _
    apply utf8ByteSize_le_of_prefix
    rcases List.prefix_or_prefix_of_prefix hprefix hlexeme with hshort | ⟨more, hmore⟩
    · exact hshort
    · cases more with
      | nil => rw [← hmore, List.append_nil]
      | cons c more =>
          rw [← hmore, String.toList_append, List.prefix_append_right_inj] at hprefix
          obtain ⟨rest, hrest⟩ := hprefix
          have hgoes := goesOn_of_source h hother hmore.symm
          rw [hstop c (by rw [← hrest]; rfl)] at hgoes
          cases hgoes

/-- Each of the lexemes is the longest where it stands just if they stay apart. -/
theorem forall_longest_iff (h : ∀ lexeme ∈ lexemes, lexeme.WellFormed) (before : String) :
    (∀ entry ∈ Span.layout source before.utf8ByteSize lexemes,
      Longest (before ++ String.join (lexemes.map source)) entry) ↔ lexemes.IsChain Apart := by
  induction lexemes generalizing before with
  | nil => exact iff_of_true (List.forall_mem_nil _) .nil
  | cons lexeme lexemes ih =>
      obtain ⟨hlexeme, hlexemes⟩ := List.forall_mem_cons.1 h
      have hfirst := longest_iff hlexeme before (String.join (lexemes.map source))
      have hrest := ih hlexemes (before ++ lexeme.source)
      rw [toList_join_source, stops_sources_iff hlexemes] at hfirst
      rw [String.utf8ByteSize_append, String.append_assoc] at hrest
      rw [Span.layout, List.forall_mem_cons, List.map_cons, String.join_cons, hrest,
        List.isChain_cons]
      exact and_congr_left' hfirst

namespace Covers

variable {text : String} {found : List (Lexeme × Span)}

theorem wellFormed (h : Covers text found) : ∀ lexeme ∈ found.map Prod.fst, lexeme.WellFormed :=
  List.forall_mem_map.2 fun entry hentry => (h.stands entry hentry).wellFormed

/-- What covers a text is laid out from its start, and put together it is the text. -/
theorem eq_layout (h : Covers text found) :
    found = Span.layout source 0 (found.map Prod.fst) ∧
      String.join ((found.map Prod.fst).map source) = text := by
  have htile : Span.Tile "".utf8ByteSize (found.map Prod.snd) ("" ++ text).utf8ByteSize := by
    rw [String.empty_append]
    exact h.tile
  have hslices : ∀ entry ∈ found, entry.2.Fits ("" ++ text) ∧
      entry.2.slice ("" ++ text) = entry.1.source := by
    rw [String.empty_append]
    exact fun entry hentry => ⟨(h.stands entry hentry).fits, (h.stands entry hentry).slice_eq⟩
  obtain ⟨hfound, hjoin, -⟩ := eq_layout_of_tile htile hslices
  exact ⟨hfound, hjoin⟩

theorem longest_iff_chain (h : Covers text found) :
    (∀ entry ∈ found, Longest text entry) ↔ (found.map Prod.fst).IsChain Apart := by
  have hlongest := forall_longest_iff h.wellFormed ""
  rwa [h.eq_layout.2, String.empty_append, String.utf8ByteSize_empty, ← h.eq_layout.1] at hlongest

theorem eq_located_of_chain (h : Covers text found)
    (hchain : (found.map Prod.fst).IsChain Apart) : found = located text := by
  obtain ⟨hfound, hjoin⟩ := h.eq_layout
  have hlexemes : found.map Prod.fst = ofString text := by
    rw [ofString, ← hjoin, toList_join_source, scan_sources_of_chain h.wellFormed hchain]
  rw [hfound, hlexemes, located]

end Covers

/-- The lexemes of a text with their ranges are the only ones that cover it and of which each is as
long as any that is written from the same byte, and the only ones that cover it and stay apart. -/
theorem maximal_munch (text : String) (found : List (Lexeme × Span)) :
    (found = located text ↔ Covers text found ∧ ∀ entry ∈ found, Longest text entry) ∧
    (found = located text ↔ Covers text found ∧ (found.map Prod.fst).IsChain Apart) := by
  have hapart : found = located text ↔
      Covers text found ∧ (found.map Prod.fst).IsChain Apart := by
    constructor
    · rintro rfl
      refine ⟨covers_located text, ?_⟩
      rw [located, Span.map_fst_layout]
      exact chain_scan _
    · rintro ⟨hcovers, hchain⟩
      exact hcovers.eq_located_of_chain hchain
  exact ⟨hapart.trans (and_congr_right fun hcovers => hcovers.longest_iff_chain.symm), hapart⟩

/-- A dollar sign before a capital stands alone, and a hyphen before an arrow is not part of it. -/
example : located "$Up-->$é" = [(.dollar, ⟨0, 1⟩), (.text "Up", ⟨1, 3⟩), (.minus, ⟨3, 4⟩),
    (.arrow, ⟨4, 6⟩), (.dollar, ⟨6, 7⟩), (.text "é", ⟨7, 9⟩)] := by decide +kernel

end Lexeme

end SchemaLink
