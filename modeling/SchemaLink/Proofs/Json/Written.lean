import SchemaLink.Json.Reader

/-! # Values as they are written

A written value has members and items as they stand in the text: keys may be repeated,
and numbers and strings may be fit to be skipped but not to be kept. The tokens of a text
are those of one written value at most. -/

namespace SchemaLink.Json

/-- A string in a text, for a value that is kept and for one that is skipped. -/
structure Quotation where
  kept : Except Fault String
  skipped : Except Fault Unit

namespace Quotation

def token (text : Quotation) : Token := .string text.kept text.skipped

theorem token_inj {text other : Quotation} (h : text.token = other.token) : text = other := by
  cases text
  cases other
  simpa [token] using h

end Quotation

/-- A value as it stands in a text. -/
inductive Written where
  | null
  | bool (value : Bool)
  | number (kept : Except Fault Number) (skipped : Except Fault Unit)
  | string (text : Quotation)
  | list (items : List Written)
  | object (members : List (Quotation × Written))

namespace Written

mutual

/-- The tokens of a written value. -/
def tokens : Written → List Token
  | null => [.null]
  | bool value => [.bool value]
  | number kept skipped => [.number kept skipped]
  | string text => [text.token]
  | list items => .openList :: listTokens items
  | object members => .openObject :: objectTokens members

/-- The tokens of a list after the opening bracket. -/
def listTokens : List Written → List Token
  | [] => [.closeList]
  | item :: items => tokens item ++ itemTokens items

/-- The tokens of a list after its first item. -/
def itemTokens : List Written → List Token
  | [] => [.closeList]
  | item :: items => .comma :: (tokens item ++ itemTokens items)

/-- The tokens of an object after the opening brace. -/
def objectTokens : List (Quotation × Written) → List Token
  | [] => [.closeObject]
  | (key, value) :: members => key.token :: .colon :: (tokens value ++ memberTokens members)

/-- The tokens of an object after its first member. -/
def memberTokens : List (Quotation × Written) → List Token
  | [] => [.closeObject]
  | (key, value) :: members =>
    .comma :: key.token :: .colon :: (tokens value ++ memberTokens members)

end

mutual

/-- The value that a written one is kept as, unless it is not fit to be kept. -/
def value : Written → Option Json
  | null => some .null
  | bool value => some (.bool value)
  | number kept _ => kept.toOption.map .number
  | string text => text.kept.toOption.map .string
  | list items => (itemValues items).map .list
  | object members =>
    (memberValues members).map fun entries => .object (SortedMap.ofList entries).toList

def itemValues : List Written → Option (List Json)
  | [] => some []
  | item :: items => (value item).bind fun first => (itemValues items).map (first :: ·)

def memberValues : List (Quotation × Written) → Option (List (String × Json))
  | [] => some []
  | (key, item) :: members =>
    key.kept.toOption.bind fun name =>
      (value item).bind fun first => (memberValues members).map ((name, first) :: ·)

end

/-! ## No text is written in two ways -/

theorem tokens_ne_closeList (value : Written) (rest after : List Token) :
    value.tokens ++ rest ≠ .closeList :: after := by
  cases value <;> simp [tokens, Quotation.token]

mutual

theorem tokens_inj (value other : Written) {rest after : List Token}
    (h : value.tokens ++ rest = other.tokens ++ after) : value = other ∧ rest = after := by
  match value with
  | null | bool _ | number _ _ => cases other <;> simp_all [tokens, Quotation.token]
  | string text =>
      cases other with
      | string text' =>
          obtain rfl := Quotation.token_inj (List.cons.inj h).1
          exact ⟨rfl, (List.cons.inj h).2⟩
      | _ => simp [tokens, Quotation.token] at h
  | list items =>
      cases other with
      | list others =>
          obtain ⟨rfl, hrest⟩ := listTokens_inj items others (List.cons.inj h).2
          exact ⟨rfl, hrest⟩
      | _ => simp [tokens, Quotation.token] at h
  | object members =>
      cases other with
      | object others =>
          obtain ⟨rfl, hrest⟩ := objectTokens_inj members others (List.cons.inj h).2
          exact ⟨rfl, hrest⟩
      | _ => simp [tokens, Quotation.token] at h

theorem listTokens_inj (items others : List Written) {rest after : List Token}
    (h : listTokens items ++ rest = listTokens others ++ after) :
    items = others ∧ rest = after := by
  match items, others with
  | [], [] => exact ⟨rfl, (List.cons.inj h).2⟩
  | [], other :: others =>
      rw [listTokens, listTokens, List.append_assoc] at h
      exact absurd h.symm (tokens_ne_closeList other _ _)
  | item :: items, [] =>
      rw [listTokens, listTokens, List.append_assoc] at h
      exact absurd h (tokens_ne_closeList item _ _)
  | item :: items, other :: others =>
      rw [listTokens, listTokens, List.append_assoc, List.append_assoc] at h
      obtain ⟨rfl, hitems⟩ := tokens_inj item other h
      obtain ⟨rfl, hrest⟩ := itemTokens_inj items others hitems
      exact ⟨rfl, hrest⟩

theorem itemTokens_inj (items others : List Written) {rest after : List Token}
    (h : itemTokens items ++ rest = itemTokens others ++ after) :
    items = others ∧ rest = after := by
  match items, others with
  | [], [] => exact ⟨rfl, (List.cons.inj h).2⟩
  | [], _ :: _ | _ :: _, [] => simp [itemTokens] at h
  | item :: items, other :: others =>
      simp only [itemTokens, List.cons_append, List.append_assoc, List.cons.injEq, true_and] at h
      obtain ⟨rfl, hitems⟩ := tokens_inj item other h
      obtain ⟨rfl, hrest⟩ := itemTokens_inj items others hitems
      exact ⟨rfl, hrest⟩

theorem objectTokens_inj (members others : List (Quotation × Written)) {rest after : List Token}
    (h : objectTokens members ++ rest = objectTokens others ++ after) :
    members = others ∧ rest = after := by
  match members, others with
  | [], [] => exact ⟨rfl, (List.cons.inj h).2⟩
  | [], _ :: _ | _ :: _, [] => simp [objectTokens, Quotation.token] at h
  | (key, value) :: members, (key', value') :: others =>
      simp only [objectTokens, List.cons_append, List.append_assoc, List.cons.injEq,
        true_and] at h
      obtain ⟨hkey, hvalue⟩ := h
      obtain rfl := Quotation.token_inj hkey
      obtain ⟨rfl, hmembers⟩ := tokens_inj value value' hvalue
      obtain ⟨rfl, hrest⟩ := memberTokens_inj members others hmembers
      exact ⟨rfl, hrest⟩

theorem memberTokens_inj (members others : List (Quotation × Written)) {rest after : List Token}
    (h : memberTokens members ++ rest = memberTokens others ++ after) :
    members = others ∧ rest = after := by
  match members, others with
  | [], [] => exact ⟨rfl, (List.cons.inj h).2⟩
  | [], _ :: _ | _ :: _, [] => simp [memberTokens] at h
  | (key, value) :: members, (key', value') :: others =>
      simp only [memberTokens, List.cons_append, List.append_assoc, List.cons.injEq, true_and] at h
      obtain ⟨hkey, hvalue⟩ := h
      obtain rfl := Quotation.token_inj hkey
      obtain ⟨rfl, hmembers⟩ := tokens_inj value value' hvalue
      obtain ⟨rfl, hrest⟩ := memberTokens_inj members others hmembers
      exact ⟨rfl, hrest⟩

end

end Written

end SchemaLink.Json
