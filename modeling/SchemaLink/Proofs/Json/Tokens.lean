import SchemaLink.Proofs.Json.Numbers
import SchemaLink.Proofs.Json.Strings

/-! # The tokens of a written value

Whatever the style, a written value is cut into the same tokens. Line breaks and
the blanks after colons leave no trace. -/

namespace SchemaLink.Json

mutual

/-- The tokens that a value is written as. -/
def tokens : Json → List Token
  | null => [.null]
  | bool value => [.bool value]
  | number value => [.number value.kept (.ok ())]
  | string value => [.string (.ok value) (.ok ())]
  | list [] => [.openList, .closeList]
  | list (item :: items) => .openList :: (tokens item ++ (itemTokens items ++ [.closeList]))
  | object [] => [.openObject, .closeObject]
  | object ((key, value) :: members) =>
    .openObject :: .string (.ok key) (.ok ()) :: .colon ::
      (tokens value ++ (memberTokens members ++ [.closeObject]))

/-- The tokens of the items after the first one. -/
def itemTokens : List Json → List Token
  | [] => []
  | item :: items => .comma :: (tokens item ++ itemTokens items)

/-- The tokens of the members after the first one. -/
def memberTokens : List (String × Json) → List Token
  | [] => []
  | (key, value) :: members =>
    .comma :: .string (.ok key) (.ok ()) :: .colon :: (tokens value ++ memberTokens members)

end

/-! ## Scanning -/

theorem scan_blank {c : Char} (h : isBlank c = true) (rest : List Char) :
    scan (c :: rest) = scan rest := by
  rw [scan]
  simp [h]

theorem scan_blanks {blanks : List Char} (h : ∀ c ∈ blanks, isBlank c = true)
    (rest : List Char) : scan (blanks ++ rest) = scan rest := by
  induction blanks with
  | nil => rfl
  | cons c blanks ih =>
      rw [List.cons_append, scan_blank (h c (by simp))]
      exact ih fun c member => h c (List.mem_cons_of_mem _ member)

theorem scan_token {c : Char} {rest r : List Char} {t : Token}
    (hblank : isBlank c = false) (h : readToken c rest = (t, some r)) :
    scan (c :: rest) = t :: scan r := by
  rw [scan]
  simp only [hblank, Bool.false_eq_true, if_false]
  split
  · next heq => rw [h] at heq; cases heq
  · next heq => rw [h] at heq; cases heq; rfl

/-- A style that sets items apart by nothing but blanks. -/
structure Style.Plain (style : Style) : Prop where
  lineBreak : ∀ level, ∀ c ∈ style.lineBreak level, isBlank c = true
  colon : ∃ blanks, style.colon = ':' :: blanks ∧ ∀ c ∈ blanks, isBlank c = true

theorem Style.plain_compact : Style.compact.Plain :=
  ⟨by simp [Style.compact], [], rfl, by simp⟩

theorem Style.plain_indented (width : Nat) : (Style.indented width).Plain := by
  refine ⟨fun level c member => ?_, [' '], rfl, by simp [isBlank]⟩
  rcases List.mem_cons.1 member with rfl | member
  · decide
  · rw [List.eq_of_mem_replicate member]
    decide

theorem scan_quote (text : String) (rest : List Char) :
    scan (quote text ++ rest) = .string (.ok text) (.ok ()) :: scan rest := by
  rw [quote, List.append_assoc, List.cons_append]
  exact scan_token (by decide) (stringToken_quoted text rest)

theorem scan_number (number : Number) {rest : List Char} (h : EndsNumeral rest) :
    scan (number.text ++ rest) = .number number.kept (.ok ()) :: scan rest := by
  obtain ⟨c, tail, htext, hblank, hread⟩ := readToken_number number h
  rw [htext, List.cons_append]
  exact scan_token hblank hread

theorem scan_null (rest : List Char) : scan ("null".toList ++ rest) = .null :: scan rest :=
  scan_token (by decide) rfl

theorem scan_bool (value : Bool) (rest : List Char) :
    scan ((if value then "true".toList else "false".toList) ++ rest) =
      .bool value :: scan rest := by
  cases value
  · exact scan_token (by decide) rfl
  · exact scan_token (by decide) rfl

theorem scan_colon {style : Style} (h : style.Plain) (rest : List Char) :
    scan (style.colon ++ rest) = .colon :: scan rest := by
  obtain ⟨blanks, hcolon, hblanks⟩ := h.colon
  rw [hcolon, List.cons_append, scan_token (r := blanks ++ rest) (by decide) rfl,
    scan_blanks hblanks]

/-! ## What may follow a number -/

theorem endsNumeral_of_blank {c : Char} (h : isBlank c = true) (rest : List Char) :
    EndsNumeral (c :: rest) := by
  rintro _ ⟨⟩
  simp only [isBlank, Bool.or_eq_true, beq_iff_eq] at h
  rcases h with ((rfl | rfl) | rfl) | rfl <;> decide

theorem endsNumeral_break {style : Style} (h : style.Plain) (level : Nat) {rest : List Char}
    (hrest : EndsNumeral rest) : EndsNumeral (style.lineBreak level ++ rest) := by
  have hblanks := h.lineBreak level
  cases hbreak : style.lineBreak level with
  | nil => exact hrest
  | cons c blanks =>
      rw [hbreak] at hblanks
      exact endsNumeral_of_blank (hblanks c (by simp)) _

theorem endsNumeral_items (style : Style) (level : Nat) (items : List Json) {rest : List Char}
    (hrest : EndsNumeral rest) : EndsNumeral (writeItems style level items ++ rest) := by
  cases items with
  | nil => exact hrest
  | cons item items =>
      rintro _ ⟨⟩
      decide

theorem endsNumeral_members (style : Style) (level : Nat) (members : List (String × Json))
    {rest : List Char} (hrest : EndsNumeral rest) :
    EndsNumeral (writeMembers style level members ++ rest) := by
  cases members with
  | nil => exact hrest
  | cons member members =>
      rintro _ ⟨⟩
      decide

/-! ## Written values -/

mutual

theorem scan_write {style : Style} (h : style.Plain) (level : Nat) (value : Json)
    (rest : List Char) (hrest : EndsNumeral rest) :
    scan (write style level value ++ rest) = tokens value ++ scan rest := by
  match value with
  | null => exact scan_null rest
  | bool true => exact scan_bool true rest
  | bool false => exact scan_bool false rest
  | number value => exact scan_number value hrest
  | string value => exact scan_quote value rest
  | list [] =>
      rw [write, List.cons_append, scan_token (r := [']'] ++ rest) (by decide) rfl,
        List.cons_append, scan_token (r := rest) (by decide) rfl]
      rfl
  | list (item :: items) =>
      have hclose : EndsNumeral (']' :: rest) := by rintro _ ⟨⟩; decide
      simp only [write, tokens, List.cons_append, List.append_assoc, List.nil_append]
      rw [scan_token (t := .openList) (by decide) rfl, scan_blanks (h.lineBreak _),
        scan_write h _ item _ (endsNumeral_items _ _ _ (endsNumeral_break h _ hclose)),
        scan_writeItems h _ items _ (endsNumeral_break h _ hclose), scan_blanks (h.lineBreak _),
        scan_token (t := .closeList) (by decide) rfl]
  | object [] =>
      rw [write, List.cons_append, scan_token (r := ['\x7d'] ++ rest) (by decide) rfl,
        List.cons_append, scan_token (r := rest) (by decide) rfl]
      rfl
  | object ((key, value) :: members) =>
      have hclose : EndsNumeral ('\x7d' :: rest) := by rintro _ ⟨⟩; decide
      simp only [write, tokens, List.cons_append, List.append_assoc, List.nil_append]
      rw [scan_token (t := .openObject) (by decide) rfl, scan_blanks (h.lineBreak _),
        scan_quote, scan_colon h,
        scan_write h _ value _ (endsNumeral_members _ _ _ (endsNumeral_break h _ hclose)),
        scan_writeMembers h _ members _ (endsNumeral_break h _ hclose),
        scan_blanks (h.lineBreak _), scan_token (t := .closeObject) (by decide) rfl]

theorem scan_writeItems {style : Style} (h : style.Plain) (level : Nat) (items : List Json)
    (rest : List Char) (hrest : EndsNumeral rest) :
    scan (writeItems style level items ++ rest) = itemTokens items ++ scan rest := by
  match items with
  | [] => rfl
  | item :: items =>
      simp only [writeItems, itemTokens, List.cons_append, List.append_assoc]
      rw [scan_token (t := .comma) (by decide) rfl, scan_blanks (h.lineBreak level),
        scan_write h level item _ (endsNumeral_items style level items hrest),
        scan_writeItems h level items rest hrest]

theorem scan_writeMembers {style : Style} (h : style.Plain) (level : Nat)
    (members : List (String × Json)) (rest : List Char) (hrest : EndsNumeral rest) :
    scan (writeMembers style level members ++ rest) = memberTokens members ++ scan rest := by
  match members with
  | [] => rfl
  | (key, value) :: members =>
      simp only [writeMembers, memberTokens, List.cons_append, List.append_assoc]
      rw [scan_token (t := .comma) (by decide) rfl, scan_blanks (h.lineBreak level),
        scan_quote, scan_colon h,
        scan_write h level value _ (endsNumeral_members style level members hrest),
        scan_writeMembers h level members rest hrest]

end

theorem scan_render {style : Style} (h : style.Plain) (value : Json) :
    scan (value.render style).toList = value.tokens := by
  rw [render, String.toList_ofList, ← List.append_nil (write style 0 value),
    scan_write h 0 value [] (by simp [EndsNumeral]), scan, List.append_nil]

end SchemaLink.Json
