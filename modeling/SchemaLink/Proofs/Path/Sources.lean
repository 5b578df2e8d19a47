import SchemaLink.Path.Segment

/-! # Sources of paths

The text of a path that was read is the text it was read from, and that text alone
reads as the same path again. So paths that were read from the same text are equal. -/

namespace SchemaLink

/-! ## Texts of paths -/

theorem Hop.name_of_ofName? {word : String} {hop : Hop} (h : Hop.ofName? word = some hop) :
    hop.name = word := by
  rw [← String.toList_inj]
  unfold Hop.ofName? at h
  split at h
  · next hword => cases h; simp [Hop.name, Direction.marker, hword]
  · next hword => cases h; simp [Hop.name, Direction.marker, hword]
  · cases h

theorem Terminal.text_ofName (word : String) : (Terminal.ofName word).text = "$" ++ word := by
  unfold Terminal.ofName
  split
  · next hop hhop => rw [text, Hop.text, Hop.name_of_ofName? hhop]
  · split
    · next hword => rw [text, hword]
    · split
      · next hword => rw [text, hword]
      · rw [text]

namespace PathMatch

theorem text_read? {lexemes : List Lexeme} {found : PathMatch} (h : read? lexemes = some found) :
    found.path.text = String.join (found.spanned.map Lexeme.source) := by
  fun_induction read? lexemes generalizing found with
  | case1 word rest hop inner hinner hhop ih =>
      obtain rfl := Option.some.inj h
      have htext : (Path.after hop inner.path).text = hop.text ++ "->" ++ inner.path.text := rfl
      rw [htext, ih hinner, Hop.text, Hop.name_of_ofName? hhop]
      simp [Lexeme.source, String.append_assoc]
  | case2 word | case4 word | case5 word =>
      obtain rfl := Option.some.inj h
      simp [Path.text, Terminal.text_ofName, Lexeme.source]
  | case3 word property rest hop hhop =>
      obtain rfl := Option.some.inj h
      simp [Path.text, Terminal.text, Hop.text, Hop.name_of_ofName? hhop, Lexeme.source,
        String.append_assoc, ← String.toList_inj]
  | case6 property =>
      obtain rfl := Option.some.inj h
      simp [Path.text, Terminal.text, Lexeme.source, ← String.toList_inj]
  | case7 => cases h

/-- The lexemes of a path read as this path when nothing else follows. -/
theorem read?_spanned {lexemes : List Lexeme} {found : PathMatch} (h : read? lexemes = some found) :
    read? found.spanned = some ⟨found.path, found.spanned, []⟩ := by
  fun_induction read? lexemes generalizing found with
  | case1 word rest hop inner hinner hhop ih =>
      obtain rfl := Option.some.inj h
      simp [read?, hhop, ih hinner]
  | case3 word property rest hop hhop =>
      obtain rfl := Option.some.inj h
      simp [read?, hhop]
  | case2 | case4 | case5 | case6 =>
      obtain rfl := Option.some.inj h
      simp [read?]
  | case7 => cases h

end PathMatch

/-! ## Lexemes of paths -/

namespace Lexeme

/-- The lexemes that paths are made of. -/
def InPath : Lexeme → Prop
  | arrow | dot => True
  | name word => word ≠ "" ∧ ∀ c ∈ word.toList, isNameChar c = true
  | dollar | minus | text _ => False

theorem inPath_name_of_mem_scan {cs : List Char} {word : String} (h : name word ∈ scan cs) :
    (name word).InPath := by
  fun_induction scan cs with
  | case1 => cases h
  | case2 rest ih | case3 rest _ ih | case4 rest ih | case5 rest _ ih | case7 c rest _ _ _ _ ih =>
      exact ih (by simpa using h)
  | case6 rest hname ih =>
      rcases List.mem_cons.1 h with heq | h
      · cases heq
        rw [InPath, String.toList_ofList]
        exact ⟨by simpa using hname, List.all_eq_true.1 List.all_takeWhile⟩
      · exact ih h

theorem inPath_of_read? {lexemes : List Lexeme} {found : PathMatch}
    (h : PathMatch.read? lexemes = some found)
    (hnames : ∀ word, name word ∈ lexemes → (name word).InPath) :
    ∀ lexeme ∈ found.spanned, lexeme.InPath := by
  fun_induction PathMatch.read? lexemes generalizing found with
  | case1 word rest hop inner hinner hhop ih =>
      obtain rfl := Option.some.inj h
      have hrest := ih hinner fun word hword => hnames word (by simp [hword])
      simp only [List.forall_mem_cons]
      exact ⟨hnames word (by simp), trivial, hrest⟩
  | case2 word | case4 word | case5 word =>
      obtain rfl := Option.some.inj h
      simpa using hnames word (by simp)
  | case3 word property =>
      obtain rfl := Option.some.inj h
      simp only [List.forall_mem_cons]
      exact ⟨hnames word (by simp), trivial, hnames property (by simp), by simp⟩
  | case6 property =>
      obtain rfl := Option.some.inj h
      simpa [InPath] using hnames property (by simp)
  | case7 => cases h

/-- The characters that lexemes were read from. -/
def sources (lexemes : List Lexeme) : List Char :=
  lexemes.flatMap fun lexeme => lexeme.source.toList

@[simp] theorem sources_cons (lexeme : Lexeme) (lexemes : List Lexeme) :
    sources (lexeme :: lexemes) = lexeme.source.toList ++ sources lexemes := by
  simp [sources]

theorem toList_join_source (lexemes : List Lexeme) :
    (String.join (lexemes.map source)).toList = sources lexemes := by
  rw [String.toList_join, List.flatMap_map]
  rfl

/-- No lexeme of a path starts with a character of names. -/
theorem takeWhile_sources {lexemes : List Lexeme} (h : ∀ lexeme ∈ lexemes, lexeme.InPath) :
    (sources lexemes).takeWhile isNameChar = [] := by
  cases lexemes with
  | nil => rfl
  | cons lexeme lexemes =>
      have hhead := h lexeme (by simp)
      cases lexeme with
      | arrow | dot | name => simp [source, isNameChar]
      | dollar | minus | text => cases hhead

theorem scan_sources {lexemes : List Lexeme} (h : ∀ lexeme ∈ lexemes, lexeme.InPath) :
    scan (sources lexemes) = lexemes := by
  induction lexemes with
  | nil => simp [sources, scan]
  | cons lexeme lexemes ih =>
      have hhead := h lexeme (by simp)
      have hrest : ∀ lexeme ∈ lexemes, lexeme.InPath := fun lexeme hlexeme =>
        h lexeme (List.mem_cons_of_mem _ hlexeme)
      cases lexeme with
      | arrow | dot => simp [source, scan, ih hrest]
      | name word =>
          rcases hhead with ⟨hne, hchars⟩
          have hstop := takeWhile_sources hrest
          have hdrop := List.takeWhile_append_dropWhile (p := isNameChar) (l := sources lexemes)
          rw [hstop, List.nil_append] at hdrop
          simp [source, scan, List.takeWhile_append_of_pos hchars,
            List.dropWhile_append_of_pos hchars, hstop, hdrop, hne, ih hrest]
      | dollar | minus | text => cases hhead

end Lexeme

/-! ## Segments -/

namespace Segment

theorem path_mem_consLiteral {literal source : String} {path : Path} {segments : List Segment}
    (h : .path path source ∈ consLiteral literal segments) : .path path source ∈ segments := by
  unfold consLiteral at h
  split at h <;> simpa using h

/-- A path among segments was read somewhere in their lexemes. -/
theorem read?_of_mem_ofLexemes {lexemes : List Lexeme} {path : Path} {source : String}
    (h : .path path source ∈ ofLexemes lexemes) :
    ∃ later found, later <:+ lexemes ∧ PathMatch.read? later = some found ∧
      found.path = path ∧ String.join (found.spanned.map Lexeme.source) = source := by
  fun_induction ofLexemes lexemes with
  | case1 => cases h
  | case2 lexeme others found hread ih =>
      rcases List.mem_cons.1 h with heq | h
      · cases heq
        exact ⟨_, found, List.suffix_rfl, hread, rfl, rfl⟩
      · obtain ⟨later, inner, hlater, hinner⟩ := ih h
        refine ⟨later, inner, hlater.trans ⟨found.spanned, ?_⟩, hinner⟩
        exact PathMatch.spanned_append_rest hread
  | case3 lexeme others hread ih =>
      obtain ⟨later, inner, hlater, hinner⟩ := ih (path_mem_consLiteral h)
      exact ⟨later, inner, hlater.trans (List.suffix_cons _ _), hinner⟩

/-- The source of a path reads as the path and nothing else. -/
theorem read?_source {text source : String} {path : Path}
    (h : .path path source ∈ ofString text) :
    PathMatch.read? (Lexeme.ofString source) = some ⟨path, Lexeme.ofString source, []⟩ ∧
      path.text = source := by
  obtain ⟨later, found, hlater, hread, rfl, rfl⟩ := read?_of_mem_ofLexemes h
  have hnames : ∀ word, .name word ∈ later → (Lexeme.name word).InPath := fun word hword =>
    Lexeme.inPath_name_of_mem_scan (hlater.subset hword)
  have hscan : Lexeme.ofString (String.join (found.spanned.map Lexeme.source)) = found.spanned := by
    rw [Lexeme.ofString, Lexeme.toList_join_source]
    exact Lexeme.scan_sources (Lexeme.inPath_of_read? hread hnames)
  rw [hscan]
  exact ⟨PathMatch.read?_spanned hread, PathMatch.text_read? hread⟩

/-- A path is written as it was read. -/
theorem path_text {text source : String} {path : Path} (h : .path path source ∈ ofString text) :
    path.text = source :=
  (read?_source h).2

/-- Paths that were read from the same source are equal. -/
theorem path_eq_of_source {text₁ text₂ source : String} {path₁ path₂ : Path}
    (h₁ : .path path₁ source ∈ ofString text₁) (h₂ : .path path₂ source ∈ ofString text₂) :
    path₁ = path₂ := by
  have hread := (read?_source h₁).1.symm.trans (read?_source h₂).1
  exact (PathMatch.mk.inj (Option.some.inj hread)).1

end Segment

end SchemaLink
