import SchemaLink.Path.Lexeme

/-! # Patterns

Regular patterns over characters. Alternatives are tried in order, a repetition takes
one more match if it can, and where what follows does not match the next choice is tried.
So a pattern has its matches in an order of preference. -/

namespace SchemaLink

inductive Pattern where
  /-- One character. -/
  | char (accepts : Char → Bool)
  | empty
  | seq (first second : Pattern)
  /-- The first alternative is preferred. -/
  | either (first second : Pattern)
  /-- More repetitions are preferred. -/
  | many (item : Pattern)

namespace Pattern

/-- What may be left after repeated steps, each of which makes the text shorter. -/
def repeated (step : List Char → List (List Char)) (cs : List Char) : List (List Char) :=
  (((step cs).filter fun rest => rest.length < cs.length).attach.flatMap
    fun rest => repeated step rest.1) ++ [cs]
termination_by cs.length
decreasing_by exact of_decide_eq_true (List.mem_filter.1 rest.2).2

/-- What is left of a text after each of the matches at its start, in order of preference. -/
def rests : Pattern → List Char → List (List Char)
  | char accepts, c :: cs => if accepts c then [cs] else []
  | char _, [] => []
  | empty, cs => [cs]
  | seq first second, cs => (first.rests cs).flatMap second.rests
  | either first second, cs => first.rests cs ++ second.rests cs
  | many item, cs => repeated item.rests cs

def exactly (c : Char) : Pattern := char (· == c)

/-- A match is preferred to none. -/
def optional (item : Pattern) : Pattern := either item empty

/-- No match of the pattern is empty. -/
def consumes : Pattern → Bool
  | char _ => true
  | empty | many _ => false
  | seq first second => first.consumes || second.consumes
  | either first second => first.consumes && second.consumes

/-- What is left after the preferred match that is not empty. -/
def first? (pattern : Pattern) (cs : List Char) : Option (List Char) :=
  (pattern.rests cs).find? fun rest => rest.length < cs.length

theorem first?_length {pattern : Pattern} {cs rest : List Char}
    (h : pattern.first? cs = some rest) : rest.length < cs.length := by
  have hfound := List.find?_some h
  exact of_decide_eq_true hfound

/-- The matches in a text that lies at a byte offset, with their byte ranges: the leftmost one,
and then those in the text after it. -/
def tokens (pattern : Pattern) (start : Nat) (cs : List Char) : List (String × Span) :=
  match cs with
  | [] => []
  | c :: others =>
    match _h : pattern.first? (c :: others) with
    | some rest =>
      let source := String.ofList ((c :: others).take ((c :: others).length - rest.length))
      let stop := start + source.utf8ByteSize
      (source, ⟨start, stop⟩) :: tokens pattern stop rest
    | none => tokens pattern (start + c.utf8Size) others
termination_by cs.length
decreasing_by
  · exact first?_length ‹_›
  · simp

/-! ## Matches in order -/

variable {pattern first second item : Pattern} {cs rest : List Char}

theorem repeated_eq (step : List Char → List (List Char)) (cs : List Char) :
    repeated step cs =
      ((step cs).filter fun rest => rest.length < cs.length).flatMap (repeated step) ++ [cs] := by
  rw [repeated, ← List.flatMap_map Subtype.val (repeated step), List.attach_map_subtype_val]

theorem rests_seq (first second : Pattern) (cs : List Char) :
    (seq first second).rests cs = (first.rests cs).flatMap second.rests := rfl

theorem rests_either (first second : Pattern) (cs : List Char) :
    (either first second).rests cs = first.rests cs ++ second.rests cs := rfl

theorem rests_optional (item : Pattern) (cs : List Char) :
    (optional item).rests cs = item.rests cs ++ [cs] := rfl

theorem length_le_of_mem_repeated {step : List Char → List (List Char)}
    (h : rest ∈ repeated step cs) : rest.length ≤ cs.length := by
  fun_induction repeated step cs with
  | case1 cs ih =>
      rcases List.mem_append.1 h with hmem | hmem
      · rcases List.mem_flatMap.1 hmem with ⟨next, -, hnext⟩
        have hshorter := of_decide_eq_true (List.mem_filter.1 next.2).2
        exact Nat.le_of_lt (Nat.lt_of_le_of_lt (ih next hnext) hshorter)
      · exact Nat.le_of_eq (congrArg List.length (List.mem_singleton.1 hmem))

theorem length_of_mem_rests (h : rest ∈ pattern.rests cs) :
    rest.length ≤ cs.length ∧ (pattern.consumes → rest.length < cs.length) := by
  induction pattern generalizing cs rest with
  | char accepts =>
      cases cs with
      | nil => cases h
      | cons c cs =>
          rw [rests] at h
          split at h
          · rw [List.mem_singleton.1 h]
            simp
          · cases h
  | empty =>
      rw [List.mem_singleton.1 h]
      simp [consumes]
  | seq first second ihFirst ihSecond =>
      rcases List.mem_flatMap.1 h with ⟨middle, hmiddle, hrest⟩
      obtain ⟨hfirst, hfirst'⟩ := ihFirst hmiddle
      obtain ⟨hsecond, hsecond'⟩ := ihSecond hrest
      refine ⟨Nat.le_trans hsecond hfirst, fun hconsumes => ?_⟩
      rcases Bool.or_eq_true_iff.1 hconsumes with hconsumes | hconsumes
      · exact Nat.lt_of_le_of_lt hsecond (hfirst' hconsumes)
      · exact Nat.lt_of_lt_of_le (hsecond' hconsumes) hfirst
  | either first second ihFirst ihSecond =>
      rcases List.mem_append.1 h with h | h
      · obtain ⟨hle, hlt⟩ := ihFirst h
        exact ⟨hle, fun hconsumes => hlt (Bool.and_eq_true_iff.1 hconsumes).1⟩
      · obtain ⟨hle, hlt⟩ := ihSecond h
        exact ⟨hle, fun hconsumes => hlt (Bool.and_eq_true_iff.1 hconsumes).2⟩
  | many item ih => exact ⟨length_le_of_mem_repeated h, nofun⟩

/-- A repetition of matches that are not empty takes one more of them, or none. -/
theorem rests_many (h : item.consumes) (cs : List Char) :
    (many item).rests cs = (item.rests cs).flatMap (many item).rests ++ [cs] := by
  have hshorter : (item.rests cs).filter (fun rest => rest.length < cs.length) = item.rests cs :=
    List.filter_eq_self.2 fun rest hrest => decide_eq_true ((length_of_mem_rests hrest).2 h)
  have hrepeated : (many item).rests cs = repeated item.rests cs := rfl
  rw [hrepeated, repeated_eq, hshorter]
  rfl

theorem first?_eq_head? (h : pattern.consumes) (cs : List Char) :
    pattern.first? cs = (pattern.rests cs).head? := by
  rw [first?]
  cases hrests : pattern.rests cs with
  | nil => rfl
  | cons rest others =>
      have hmem : rest ∈ pattern.rests cs := hrests ▸ List.mem_cons_self
      have hshorter : decide (rest.length < cs.length) = true :=
        decide_eq_true ((length_of_mem_rests hmem).2 h)
      simp only [List.find?_cons, hshorter, List.head?_cons]

end Pattern

end SchemaLink
