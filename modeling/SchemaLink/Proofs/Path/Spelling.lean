import Mathlib.Data.Set.Function
import SchemaLink.Proofs.Path.Recognition

/-! # The spelling of paths

A path is well formed if its names can be written and if none of them says something else
where it stands. Such a path is what its text is read as, and nothing else can be read from
a whole text. -/

namespace SchemaLink

/-! ## Well-formed paths -/

/-- A word that can follow a dollar sign. -/
def IsName (word : String) : Prop :=
  word ≠ "" ∧ ∀ c ∈ word.toList, Lexeme.isNameChar c = true

instance : DecidablePred IsName := fun word =>
  decidable_of_iff (word ≠ "" ∧ word.toList.all Lexeme.isNameChar = true) (by simp [IsName])

theorem Lexeme.inPath_name_iff {word : String} : (Lexeme.name word).InPath ↔ IsName word := Iff.rfl

/-- The names of a terminal can be written, and that of a field is neither the name of a hop nor a
pseudo-property. -/
def Terminal.WellFormed : Terminal → Prop
  | ownProperty property => IsName property
  | hopProperty step property => IsName step.relation ∧ IsName property
  | hop step => IsName step.relation
  | displayName | entityTypeName => True
  | field name =>
    IsName name ∧ Hop.ofName? name = none ∧
      name ≠ SchemaLink.displayName ∧ name ≠ SchemaLink.entityTypeName

structure Path.WellFormed (path : Path) : Prop where
  hops : ∀ step ∈ path.hops, IsName step.relation
  terminal : path.terminal.WellFormed

/-! ## Names of hops -/

namespace Hop

variable {step : Hop} {word : String}

/-- The name of a hop tells its direction and its relation. -/
theorem ofName?_name (h : step.relation ≠ "") : ofName? step.name = some step := by
  rcases step with ⟨direction, relation⟩
  obtain ⟨c, cs, hcs⟩ := List.exists_cons_of_ne_nil (mt String.toList_eq_nil_iff.1 h)
  have hrelation : String.ofList (c :: cs) = relation := by rw [← hcs, String.ofList_toList]
  cases direction with
  | forward => simp [ofName?, name, Direction.marker, hcs, hrelation]
  | inverse => simp [ofName?, name, Direction.marker, hcs, hrelation]

theorem isName_name (h : IsName step.relation) : IsName step.name := by
  rcases step with ⟨direction, relation⟩
  cases direction with
  | forward => simpa [IsName, name, Direction.marker, Lexeme.isNameChar] using h.2
  | inverse => simpa [IsName, name, Direction.marker, Lexeme.isNameChar] using h.2

theorem isName_relation (h : ofName? word = some step) (hword : IsName word) :
    IsName step.relation := by
  have hchars := hword.2
  unfold ofName? at h
  split at h
  · next c cs hcs =>
      cases h
      rw [hcs] at hchars
      simp only [List.forall_mem_cons] at hchars
      simpa [IsName] using hchars.2.2.2
  · next c cs hcs =>
      cases h
      rw [hcs] at hchars
      simp only [List.forall_mem_cons] at hchars
      simpa [IsName] using hchars.2.2
  · cases h

end Hop

/-! ## Paths that are read -/

theorem Terminal.wellFormed_ofName {word : String} (h : IsName word) :
    (ofName word).WellFormed := by
  unfold ofName
  split
  · next step hstep => exact Hop.isName_relation hstep h
  · next hnone =>
      split
      · trivial
      · split
        · trivial
        · next hdisplay htype => exact ⟨h, hnone, hdisplay, htype⟩

/-- Lexemes that can be read as a path are read as a well-formed one. -/
theorem PathMatch.wellFormed_of_read? {lexemes : List Lexeme} {found : PathMatch}
    (h : read? lexemes = some found) (hnames : ∀ word, .name word ∈ lexemes → IsName word) :
    found.path.WellFormed := by
  fun_induction read? lexemes generalizing found with
  | case1 word rest step inner hinner hstep ih =>
      obtain rfl := Option.some.inj h
      have hpath := ih hinner fun word hword => hnames word (by simp [hword])
      have hrelation := Hop.isName_relation hstep (hnames word (by simp))
      exact ⟨List.forall_mem_cons.2 ⟨hrelation, hpath.hops⟩, hpath.terminal⟩
  | case2 word | case4 word | case5 word =>
      obtain rfl := Option.some.inj h
      exact ⟨List.forall_mem_nil _, Terminal.wellFormed_ofName (hnames word (by simp))⟩
  | case3 word property rest step hstep =>
      obtain rfl := Option.some.inj h
      have hrelation := Hop.isName_relation hstep (hnames word (by simp))
      exact ⟨List.forall_mem_nil _, hrelation, hnames property (by simp)⟩
  | case6 property rest =>
      obtain rfl := Option.some.inj h
      exact ⟨List.forall_mem_nil _, hnames property (by simp)⟩
  | case7 => cases h

/-! ## Paths that are written -/

/-- The lexemes that a terminal is written with. -/
def Terminal.lexemes : Terminal → List Lexeme
  | ownProperty property => [.dot, .name property]
  | hopProperty step property => [.name step.name, .dot, .name property]
  | hop step => [.name step.name]
  | displayName => [.name SchemaLink.displayName]
  | entityTypeName => [.name SchemaLink.entityTypeName]
  | field name => [.name name]

/-- The lexemes that a path is written with. -/
def Path.lexemes (path : Path) : List Lexeme :=
  path.hops.foldr (fun step rest => .name step.name :: .arrow :: rest) path.terminal.lexemes

namespace Terminal

variable {terminal : Terminal}

theorem inPath_lexemes (h : terminal.WellFormed) :
    ∀ lexeme ∈ terminal.lexemes, lexeme.InPath := by
  cases terminal with
  | ownProperty property =>
      simp only [lexemes, List.forall_mem_cons, Lexeme.inPath_name_iff]
      exact ⟨trivial, h, nofun⟩
  | hopProperty step property =>
      simp only [lexemes, List.forall_mem_cons, Lexeme.inPath_name_iff]
      exact ⟨Hop.isName_name h.1, trivial, h.2, nofun⟩
  | hop step =>
      simp only [lexemes, List.forall_mem_singleton, Lexeme.inPath_name_iff]
      exact Hop.isName_name h
  | displayName | entityTypeName =>
      simp only [lexemes, List.forall_mem_singleton, Lexeme.inPath_name_iff]
      decide
  | field name =>
      simp only [lexemes, List.forall_mem_singleton, Lexeme.inPath_name_iff]
      exact h.1

theorem sources_lexemes (terminal : Terminal) :
    Lexeme.sources terminal.lexemes = terminal.text.toList := by
  cases terminal <;>
    simp [Lexeme.sources, lexemes, text, Lexeme.source, Hop.text, SchemaLink.displayName,
      SchemaLink.entityTypeName]

theorem read?_lexemes (h : terminal.WellFormed) :
    PathMatch.read? terminal.lexemes = some ⟨⟨[], terminal⟩, terminal.lexemes, []⟩ := by
  cases terminal with
  | ownProperty property => simp [lexemes, PathMatch.read?]
  | hopProperty step property => simp [lexemes, PathMatch.read?, Hop.ofName?_name h.1.1]
  | hop step => simp [lexemes, PathMatch.read?, ofName, Hop.ofName?_name h.1]
  | displayName => rfl
  | entityTypeName => rfl
  | field name =>
      rcases h with ⟨-, hhop, hdisplay, htype⟩
      simp [lexemes, PathMatch.read?, ofName, hhop, hdisplay, htype]

end Terminal

namespace Path

variable {path : Path}

theorem lexemes_cons (step : Hop) (hops : List Hop) (terminal : Terminal) :
    lexemes ⟨step :: hops, terminal⟩ = .name step.name :: .arrow :: lexemes ⟨hops, terminal⟩ := rfl

theorem wellFormed_cons_iff {step : Hop} {hops : List Hop} {terminal : Terminal} :
    WellFormed ⟨step :: hops, terminal⟩ ↔ IsName step.relation ∧ WellFormed ⟨hops, terminal⟩ := by
  constructor
  · intro h
    rcases List.forall_mem_cons.1 h.hops with ⟨hstep, hhops⟩
    exact ⟨hstep, hhops, h.terminal⟩
  · rintro ⟨hstep, hhops, hterminal⟩
    exact ⟨List.forall_mem_cons.2 ⟨hstep, hhops⟩, hterminal⟩

theorem inPath_lexemes (h : path.WellFormed) : ∀ lexeme ∈ path.lexemes, lexeme.InPath := by
  rcases path with ⟨hops, terminal⟩
  induction hops with
  | nil => exact Terminal.inPath_lexemes h.terminal
  | cons step hops ih =>
      obtain ⟨hstep, hrest⟩ := wellFormed_cons_iff.1 h
      simp only [lexemes_cons, List.forall_mem_cons]
      exact ⟨Hop.isName_name hstep, trivial, ih hrest⟩

theorem sources_lexemes (path : Path) : Lexeme.sources path.lexemes = path.text.toList := by
  rcases path with ⟨hops, terminal⟩
  induction hops with
  | nil => exact terminal.sources_lexemes
  | cons step hops ih =>
      have htext : text ⟨step :: hops, terminal⟩ = step.text ++ "->" ++ text ⟨hops, terminal⟩ := rfl
      rw [lexemes_cons, Lexeme.sources_cons, Lexeme.sources_cons, ih, htext]
      simp [Lexeme.source, Hop.text]

/-- The lexemes of a well-formed path are read as this path. -/
theorem read?_lexemes (h : path.WellFormed) :
    PathMatch.read? path.lexemes = some ⟨path, path.lexemes, []⟩ := by
  rcases path with ⟨hops, terminal⟩
  induction hops with
  | nil => exact Terminal.read?_lexemes h.terminal
  | cons step hops ih =>
      obtain ⟨hstep, hrest⟩ := wellFormed_cons_iff.1 h
      simp only [lexemes_cons, PathMatch.read?, Hop.ofName?_name hstep.1, ih hrest, after]

/-! ## Whole texts -/

/-- A text is a path if all of its lexemes are read as this path. -/
theorem parse?_of_read? {text : String}
    (h : PathMatch.read? (Lexeme.ofString text) = some ⟨path, Lexeme.ofString text, []⟩) :
    parse? text = some path := by
  have hsegments : Segment.ofString text =
      [.path path (String.join ((Lexeme.ofString text).map Lexeme.source))] := by
    rw [Segment.ofString, Segment.ofLexemes.eq_def]
    cases hlexemes : Lexeme.ofString text with
    | nil => rw [hlexemes] at h; cases h
    | cons lexeme others =>
        rw [hlexemes] at h
        dsimp only
        split
        · next found hfound =>
            obtain rfl := Option.some.inj (h.symm.trans hfound)
            rw [Segment.ofLexemes]
        · next hnone => cases h.symm.trans hnone
  rw [parse?, hsegments]

theorem parse?_text (h : path.WellFormed) : parse? path.text = some path := by
  apply parse?_of_read?
  rw [Lexeme.ofString, ← sources_lexemes, Lexeme.scan_sources (inPath_lexemes h)]
  exact read?_lexemes h

theorem of_parse? {text : String} (h : parse? text = some path) :
    path.WellFormed ∧ path.text = text := by
  unfold parse? at h
  split at h
  · next found source hsegments =>
      obtain rfl := Option.some.inj h
      have hjoin := Segment.join_ofString text
      rw [hsegments, List.map_singleton, String.join_cons, String.join_nil,
        String.append_empty] at hjoin
      have hmem : .path found source ∈ Segment.ofString text := by simp [hsegments]
      obtain ⟨hread, htext⟩ := Segment.read?_source hmem
      refine ⟨PathMatch.wellFormed_of_read? hread fun word hword => ?_, htext.trans hjoin⟩
      exact Lexeme.inPath_name_of_mem_scan hword
  · cases h

/-- Reading and writing are inverse to each other: a text is read as a path just if the path is well
formed and is written so. Thus different paths that are well formed are written differently, and
the texts that are read as a whole are those that such paths are written as. -/
theorem parse?_eq_some_iff :
    (∀ text path, parse? text = some path ↔ path.WellFormed ∧ path.text = text) ∧
      Set.InjOn text {path | path.WellFormed} ∧
      {written | (parse? written).isSome} = text '' {path | path.WellFormed} := by
  have hparse : ∀ text path, parse? text = some path ↔ path.WellFormed ∧ path.text = text := by
    intro text path
    constructor
    · exact of_parse?
    · rintro ⟨hpath, rfl⟩
      exact parse?_text hpath
  refine ⟨hparse, ?_, ?_⟩
  · intro path hpath other hother htext
    have hread := parse?_text hpath
    rw [htext, parse?_text hother] at hread
    exact (Option.some.inj hread).symm
  · ext written
    simp only [Set.mem_ofPred_eq, Set.mem_image, Option.isSome_iff_exists, hparse]

/-- The marker of a hop alone is the name of a field, and no arrow follows a field. -/
example : parse? "$r_a->$ri_b->.$c" = some ⟨[⟨.forward, "a"⟩, ⟨.inverse, "b"⟩], .ownProperty "c"⟩ ∧
    parse? "$r_" = some ⟨[], .field "r_"⟩ ∧ parse? "$a->$b" = none := by decide +kernel

end Path

end SchemaLink
