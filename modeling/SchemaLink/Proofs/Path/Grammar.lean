import SchemaLink.Path.Basic
import SchemaLink.Proofs.Path.Patterns

/-! # The grammar of paths

Paths as they are described and paths as they are read. Whatever comes after a name
cannot start inside of it, so of all the ways to match a name only the longest counts. -/

namespace SchemaLink

namespace Pattern

open Lexeme (isNameChar)

def name : Pattern := seq (char isNameChar) (many (char isNameChar))

/-- `r_` or `ri_`. -/
def marker : Pattern :=
  seq (either (exactly 'r') (seq (exactly 'r') (exactly 'i'))) (exactly '_')

/-- A dollar sign, a marker, and the name of a relation. -/
def hop : Pattern := seq (exactly '$') (seq marker name)

def arrow : Pattern := seq (exactly '-') (exactly '>')

def dot : Pattern := exactly '.'

/-- A dollar sign and a name. -/
def property : Pattern := seq (exactly '$') name

/-- The end of a path as described: perhaps a hop that the property is bound to by a dot or an
arrow, then perhaps a dot, then the property. -/
def describedEnd : Pattern :=
  seq (optional (seq hop (either dot arrow))) (seq (optional dot) property)

/-- The end of a path as read: the dot of a bound hop is the only one. -/
def readableEnd : Pattern := seq (optional (either (seq hop dot) dot)) property

/-- A path with the given end: first hops, each with an arrow. -/
def path (ending : Pattern) : Pattern := seq (many (seq hop arrow)) ending

def described : Pattern := path describedEnd

def readable : Pattern := path readableEnd

end Pattern

/-! ## What is left after the parts of a path -/

section Rests

open Lexeme (isNameChar)

/-- What is left after a dollar sign and all characters of a name. -/
def afterName? : List Char → Option (List Char)
  | '$' :: word =>
    if (word.takeWhile isNameChar).isEmpty then none else some (word.dropWhile isNameChar)
  | _ => none

/-- What is left after the marker of a hop. -/
def afterMarker? : List Char → Option (List Char)
  | 'r' :: 'i' :: '_' :: rest => some rest
  | 'r' :: '_' :: rest => some rest
  | _ => none

/-- What is left after a dollar sign and the name of a hop. -/
def afterHop? : List Char → Option (List Char)
  | '$' :: word =>
    if (Hop.ofName? (String.ofList (word.takeWhile isNameChar))).isSome then
      some (word.dropWhile isNameChar)
    else none
  | _ => none

def afterArrow? : List Char → Option (List Char)
  | '-' :: '>' :: rest => some rest
  | _ => none

def afterDot? : List Char → Option (List Char)
  | '.' :: rest => some rest
  | _ => none

/-- What is left after a hop and an arrow. -/
def afterStep? (cs : List Char) : Option (List Char) := (afterHop? cs).bind afterArrow?

/-- What is left after a hop and a dot. -/
def afterBound? (cs : List Char) : Option (List Char) := (afterHop? cs).bind afterDot?

/-- What is left after a property with a dot before it, or else without one. -/
def afterDotted? (cs : List Char) : Option (List Char) :=
  ((afterDot? cs).bind afterName?).or (afterName? cs)

end Rests

namespace Pattern

open Lexeme (isNameChar)

variable {k : List Char → List (List Char)} {cs rest : List Char}

theorem rests_exactly_self (c : Char) (cs : List Char) : (exactly c).rests (c :: cs) = [cs] := by
  simp [exactly, rests]

theorem rests_exactly_of_ne {c d : Char} (h : d ≠ c) (cs : List Char) :
    (exactly c).rests (d :: cs) = [] := by
  simp [exactly, rests, h]

/-- What cannot go on with a character of names. -/
def StopsNames (k : List Char → List (List Char)) : Prop :=
  ∀ c cs, isNameChar c → k (c :: cs) = []

theorem rests_many_char_nil (accepts : Char → Bool) : (many (char accepts)).rests [] = [[]] := by
  have hitem : (char accepts).consumes := rfl
  rw [rests_many hitem]
  rfl

theorem rests_many_char_cons (accepts : Char → Bool) (c : Char) (cs : List Char) :
    (many (char accepts)).rests (c :: cs) =
      (if accepts c then (many (char accepts)).rests cs else []) ++ [c :: cs] := by
  have hitem : (char accepts).consumes := rfl
  rw [rests_many hitem, rests]
  by_cases h : accepts c
  · simp only [h, if_true, List.flatMap_singleton]
  · simp only [h, Bool.false_eq_true, if_false, List.flatMap_nil]

theorem flatMap_many_nameChar (hk : StopsNames k) (cs : List Char) :
    ((many (char isNameChar)).rests cs).flatMap k = k (cs.dropWhile isNameChar) := by
  induction cs with
  | nil => rw [rests_many_char_nil, List.flatMap_singleton, List.dropWhile_nil]
  | cons c cs ih =>
      rw [rests_many_char_cons, List.flatMap_append, List.flatMap_singleton]
      by_cases h : isNameChar c
      · rw [if_pos h, ih, hk c cs h, List.append_nil, List.dropWhile_cons_of_pos h]
      · rw [if_neg h, List.flatMap_nil, List.nil_append, List.dropWhile_cons_of_neg h]

theorem head?_many_nameChar (cs : List Char) :
    ((many (char isNameChar)).rests cs).head? = some (cs.dropWhile isNameChar) := by
  induction cs with
  | nil => rw [rests_many_char_nil, List.head?_cons, List.dropWhile_nil]
  | cons c cs ih =>
      rw [rests_many_char_cons, List.head?_append]
      by_cases h : isNameChar c
      · rw [if_pos h, ih, List.dropWhile_cons_of_pos h, Option.some_or]
      · rw [if_neg h, List.head?_nil, Option.none_or, List.head?_cons,
          List.dropWhile_cons_of_neg h]

/-- Of the ways to match a name only the longest counts. -/
theorem flatMap_name (hk : StopsNames k) (cs : List Char) :
    (name.rests cs).flatMap k =
      if (cs.takeWhile isNameChar).isEmpty then [] else k (cs.dropWhile isNameChar) := by
  rw [name, rests_seq]
  cases cs with
  | nil => rfl
  | cons c cs =>
      rw [rests]
      by_cases h : isNameChar c
      · simp [h, flatMap_many_nameChar hk]
      · simp [h]

theorem head?_property (cs : List Char) : (property.rests cs).head? = afterName? cs := by
  rw [property, rests_seq]
  cases cs with
  | nil => rfl
  | cons d word =>
      by_cases hd : d = '$'
      · subst hd
        rw [rests_exactly_self, List.flatMap_singleton, name, rests_seq, afterName?]
        cases word with
        | nil => rfl
        | cons c word =>
            rw [rests]
            by_cases h : isNameChar c
            · simp [h, head?_many_nameChar]
            · simp [h]
      · rw [rests_exactly_of_ne hd]
        unfold afterName?
        split
        · next heq => exact absurd (List.cons.inj heq).1 hd
        · rfl

theorem rests_marker (cs : List Char) : marker.rests cs = (afterMarker? cs).toList := by
  rw [marker, rests_seq, rests_either, rests_seq, List.flatMap_append]
  cases cs with
  | nil => rfl
  | cons a cs =>
      by_cases ha : a = 'r'
      · subst ha
        rw [rests_exactly_self, List.flatMap_singleton, List.flatMap_singleton]
        cases cs with
        | nil => rfl
        | cons b cs =>
            by_cases hb : b = '_'
            · subst hb
              rw [rests_exactly_self, rests_exactly_of_ne (by decide)]
              rfl
            · rw [rests_exactly_of_ne hb]
              by_cases hi : b = 'i'
              · subst hi
                rw [rests_exactly_self, List.flatMap_singleton, List.nil_append]
                cases cs with
                | nil => rfl
                | cons c cs =>
                    by_cases hc : c = '_'
                    · subst hc
                      exact rests_exactly_self _ _
                    · rw [rests_exactly_of_ne hc]
                      simp [afterMarker?, hc]
              · rw [rests_exactly_of_ne hi]
                simp [afterMarker?, hb, hi]
      · rw [rests_exactly_of_ne ha]
        simp [afterMarker?, ha]

/-- A name is that of a hop if more of it is left after a marker. -/
theorem isSome_ofName?_takeWhile (word : List Char) :
    (Hop.ofName? (String.ofList (word.takeWhile isNameChar))).isSome =
      match afterMarker? word with
      | none => false
      | some rest => !(rest.takeWhile isNameChar).isEmpty := by
  fun_cases afterMarker? word with
  | case1 rest =>
      have htake : ('r' :: 'i' :: '_' :: rest).takeWhile isNameChar =
          'r' :: 'i' :: '_' :: rest.takeWhile isNameChar := by simp [isNameChar]
      rw [htake]
      cases htaken : rest.takeWhile isNameChar <;> simp [Hop.ofName?, htaken]
  | case2 rest =>
      have htake : ('r' :: '_' :: rest).takeWhile isNameChar =
          'r' :: '_' :: rest.takeWhile isNameChar := by simp [isNameChar]
      rw [htake]
      cases htaken : rest.takeWhile isNameChar <;> simp [Hop.ofName?, htaken]
  | case3 _ hinverse hforward =>
      obtain ⟨after, hword⟩ := List.takeWhile_prefix (l := word) isNameChar
      unfold Hop.ofName?
      rw [String.toList_ofList]
      split
      · next c cs heq =>
          rw [heq] at hword
          exact absurd hword.symm (hinverse _)
      · next c cs heq =>
          rw [heq] at hword
          exact absurd hword.symm (hforward _)
      · rfl

theorem dropWhile_afterMarker? {word : List Char} (h : afterMarker? word = some rest) :
    rest.dropWhile isNameChar = word.dropWhile isNameChar := by
  unfold afterMarker? at h
  split at h
  · cases h; simp [isNameChar]
  · cases h; simp [isNameChar]
  · cases h

theorem flatMap_hop (hk : StopsNames k) (cs : List Char) :
    (hop.rests cs).flatMap k = ((afterHop? cs).map k).getD [] := by
  rw [hop, rests_seq]
  cases cs with
  | nil => rfl
  | cons d word =>
      by_cases hd : d = '$'
      · subst hd
        rw [rests_exactly_self, List.flatMap_singleton, rests_seq, rests_marker, afterHop?,
          isSome_ofName?_takeWhile]
        cases hmarker : afterMarker? word with
        | none => rfl
        | some rest =>
            simp only [Option.toList_some, List.flatMap_singleton, flatMap_name hk,
              dropWhile_afterMarker? hmarker]
            by_cases hrest : (rest.takeWhile isNameChar).isEmpty <;> simp [hrest]
      · rw [rests_exactly_of_ne hd]
        unfold afterHop?
        split
        · next heq => exact absurd (List.cons.inj heq).1 hd
        · rfl

theorem rests_arrow (cs : List Char) : arrow.rests cs = (afterArrow? cs).toList := by
  rw [arrow, rests_seq]
  cases cs with
  | nil => rfl
  | cons c cs =>
      by_cases hc : c = '-'
      · subst hc
        rw [rests_exactly_self, List.flatMap_singleton]
        cases cs with
        | nil => rfl
        | cons d cs =>
            by_cases hd : d = '>'
            · subst hd
              exact rests_exactly_self _ _
            · rw [rests_exactly_of_ne hd]
              simp [afterArrow?, hd]
      · rw [rests_exactly_of_ne hc]
        simp [afterArrow?, hc]

theorem rests_dot (cs : List Char) : dot.rests cs = (afterDot? cs).toList := by
  cases cs with
  | nil => rfl
  | cons c cs =>
      by_cases hc : c = '.'
      · subst hc
        exact rests_exactly_self _ _
      · rw [dot, rests_exactly_of_ne hc]
        simp [afterDot?, hc]

theorem stopsNames_arrow : StopsNames arrow.rests := by
  intro c cs hc
  have hne : c ≠ '-' := by rintro rfl; revert hc; decide
  simp [rests_arrow, afterArrow?, hne]

theorem stopsNames_dot : StopsNames dot.rests := by
  intro c cs hc
  have hne : c ≠ '.' := by rintro rfl; revert hc; decide
  simp [rests_dot, afterDot?, hne]

theorem rests_step (cs : List Char) : (seq hop arrow).rests cs = (afterStep? cs).toList := by
  rw [rests_seq, flatMap_hop stopsNames_arrow, afterStep?]
  cases afterHop? cs with
  | none => rfl
  | some rest => exact rests_arrow rest

theorem rests_bound (cs : List Char) : (seq hop dot).rests cs = (afterBound? cs).toList := by
  rw [rests_seq, flatMap_hop stopsNames_dot, afterBound?]
  cases afterHop? cs with
  | none => rfl
  | some rest => exact rests_dot rest

/-- A hop has at most one of the two after it. -/
theorem rests_bound_or_step (cs : List Char) :
    (seq hop (either dot arrow)).rests cs = (afterBound? cs).toList ++ (afterStep? cs).toList := by
  have hstops : StopsNames (either dot arrow).rests := by
    intro c cs hc
    rw [rests_either, stopsNames_dot c cs hc, stopsNames_arrow c cs hc, List.append_nil]
  rw [rests_seq, flatMap_hop hstops, afterBound?, afterStep?]
  cases afterHop? cs with
  | none => rfl
  | some rest => rw [Option.map_some, Option.getD_some, rests_either, rests_dot, rests_arrow]; rfl

theorem head?_flatMap_toList (found : Option (List Char)) (k : List Char → List (List Char)) :
    (found.toList.flatMap k).head? = found.bind fun rest => (k rest).head? := by
  cases found with
  | none => rfl
  | some rest => simp

/-! ## The preferred match -/

/-- A path starts with one more step, or else it is its end. -/
theorem first?_path {ending : Pattern} (h : ending.consumes) (cs : List Char) :
    (path ending).first? cs =
      ((afterStep? cs).bind (path ending).first?).or (ending.rests cs).head? := by
  have hconsumes : (path ending).consumes := by simp [path, consumes, h]
  have hstep : (seq hop arrow).consumes := rfl
  have hrests : (path ending).rests cs =
      ((seq hop arrow).rests cs).flatMap (path ending).rests ++ ending.rests cs := by
    have hpath : ∀ cs, (path ending).rests cs =
        ((many (seq hop arrow)).rests cs).flatMap ending.rests := fun _ => rfl
    rw [hpath, rests_many hstep, List.flatMap_append, List.flatMap_singleton, List.flatMap_assoc]
    rfl
  rw [first?_eq_head? hconsumes, hrests, List.head?_append, rests_step, head?_flatMap_toList]
  congr 2
  funext rest
  exact (first?_eq_head? hconsumes rest).symm

theorem head?_dotted (cs : List Char) :
    ((seq (optional dot) property).rests cs).head? = afterDotted? cs := by
  rw [rests_seq, rests_optional, List.flatMap_append, List.flatMap_singleton, List.head?_append,
    rests_dot, head?_flatMap_toList, head?_property]
  simp only [head?_property]
  rfl

theorem first?_readable (cs : List Char) :
    readable.first? cs = ((afterStep? cs).bind readable.first?).or
      (((afterBound? cs).bind afterName?).or (afterDotted? cs)) := by
  have hend : (readableEnd.rests cs).head? =
      ((afterBound? cs).bind afterName?).or (afterDotted? cs) := by
    rw [readableEnd, rests_seq, rests_optional, rests_either, List.flatMap_append,
      List.flatMap_append, List.flatMap_singleton, List.head?_append, List.head?_append,
      rests_bound, rests_dot, head?_flatMap_toList, head?_flatMap_toList, Option.or_assoc]
    simp only [head?_property]
    rfl
  rw [← hend]
  exact first?_path rfl cs

theorem first?_described (cs : List Char) :
    described.first? cs = ((afterStep? cs).bind described.first?).or
      (((afterBound? cs).bind afterDotted?).or (afterDotted? cs)) := by
  have hend : ∀ cs, (describedEnd.rests cs).head? = ((afterBound? cs).bind afterDotted?).or
      (((afterStep? cs).bind afterDotted?).or (afterDotted? cs)) := by
    intro cs
    rw [describedEnd, rests_seq, rests_optional, rests_bound_or_step, List.flatMap_append,
      List.flatMap_append, List.flatMap_singleton, List.head?_append, List.head?_append,
      head?_flatMap_toList, head?_flatMap_toList, Option.or_assoc]
    simp only [head?_dotted]
  have hfirst : ∀ cs, described.first? cs = ((afterStep? cs).bind described.first?).or
      (describedEnd.rests cs).head? := fun cs => first?_path rfl cs
  rw [hfirst, hend]
  -- a property bound by an arrow is one after a step, which comes first already
  cases afterStep? cs with
  | none => rfl
  | some rest =>
      cases hrest : described.first? rest with
      | some last => simp [hrest]
      | none =>
          have hnone := hrest
          rw [hfirst, hend] at hnone
          simp only [Option.or_eq_none_iff] at hnone
          simp [hrest, hnone.2.2.2]

end Pattern

/-! ## Dots in a match -/

/-- What is left lies behind some text with so many dots. -/
def Skips (dots : Nat) (cs rest : List Char) : Prop :=
  ∃ front, cs = front ++ rest ∧ front.count '.' = dots

section Skips

open Lexeme (isNameChar)

variable {cs rest : List Char}

theorem Skips.trans {middle : List Char} {m n : Nat} (h : Skips m cs middle)
    (h' : Skips n middle rest) : Skips (m + n) cs rest := by
  rcases h with ⟨front, rfl, rfl⟩
  rcases h' with ⟨front', rfl, rfl⟩
  exact ⟨front ++ front', (List.append_assoc _ _ _).symm, List.count_append⟩

theorem skips_word (word : List Char) : Skips 0 ('$' :: word) (word.dropWhile isNameChar) := by
  refine ⟨'$' :: word.takeWhile isNameChar, ?_, ?_⟩
  · rw [List.cons_append, List.takeWhile_append_dropWhile]
  · refine List.count_eq_zero.2 fun hmem => ?_
    rcases List.mem_cons.1 hmem with heq | hmem
    · cases heq
    · have hname := List.all_eq_true.1 (List.all_takeWhile (p := isNameChar) (l := word)) _ hmem
      revert hname
      decide

theorem skips_of_afterName? (h : afterName? cs = some rest) : Skips 0 cs rest := by
  unfold afterName? at h
  split at h
  · split at h
    · cases h
    · cases h
      exact skips_word _
  · cases h

theorem skips_of_afterHop? (h : afterHop? cs = some rest) : Skips 0 cs rest := by
  unfold afterHop? at h
  split at h
  · split at h
    · cases h
      exact skips_word _
    · cases h
  · cases h

theorem skips_of_afterDot? (h : afterDot? cs = some rest) : Skips 1 cs rest := by
  unfold afterDot? at h
  split at h
  · cases h
    exact ⟨['.'], rfl, rfl⟩
  · cases h

theorem skips_of_afterStep? (h : afterStep? cs = some rest) : Skips 0 cs rest := by
  obtain ⟨middle, hmiddle, hrest⟩ := Option.bind_eq_some_iff.1 h
  unfold afterArrow? at hrest
  split at hrest
  · cases hrest
    exact (skips_of_afterHop? hmiddle).trans ⟨['-', '>'], rfl, rfl⟩
  · cases hrest

theorem skips_of_afterBound? (h : afterBound? cs = some rest) : Skips 1 cs rest := by
  obtain ⟨middle, hmiddle, hrest⟩ := Option.bind_eq_some_iff.1 h
  simpa using (skips_of_afterHop? hmiddle).trans (skips_of_afterDot? hrest)

theorem skips_of_afterDotted? (h : afterDotted? cs = some rest) :
    ∃ dots ≤ 1, Skips dots cs rest := by
  rcases Option.or_eq_some_iff.1 h with h | ⟨-, h⟩
  · obtain ⟨middle, hmiddle, hrest⟩ := Option.bind_eq_some_iff.1 h
    exact ⟨1, Nat.le_refl _, (skips_of_afterDot? hmiddle).trans (skips_of_afterName? hrest)⟩
  · exact ⟨0, Nat.zero_le _, skips_of_afterName? h⟩

theorem afterName?_of_afterDotted? (h : afterDotted? cs = none) : afterName? cs = none :=
  (Option.or_eq_none_iff.1 h).2

/-- What holds of a text as soon as it holds of what is left after a step holds of every text. -/
theorem step_induction {motive : List Char → Prop}
    (h : ∀ cs, (∀ rest, afterStep? cs = some rest → motive rest) → motive cs) (cs : List Char) :
    motive cs := by
  refine h cs fun rest hrest => ?_
  have hmem : rest ∈ (Pattern.seq Pattern.hop Pattern.arrow).rests cs := by
    rw [Pattern.rests_step, hrest]
    exact List.mem_singleton_self rest
  have hshorter : rest.length < cs.length := (Pattern.length_of_mem_rests hmem).2 rfl
  exact step_induction h rest
termination_by cs.length

/-- A path as read has one dot at most. -/
theorem skips_of_readable (h : Pattern.readable.first? cs = some rest) :
    ∃ dots ≤ 1, Skips dots cs rest := by
  induction cs using step_induction with
  | h cs ih =>
      rw [Pattern.first?_readable] at h
      rcases Option.or_eq_some_iff.1 h with hstep | ⟨-, h⟩
      · obtain ⟨middle, hmiddle, hrest⟩ := Option.bind_eq_some_iff.1 hstep
        obtain ⟨dots, hdots, hskips⟩ := ih middle hmiddle hrest
        exact ⟨0 + dots, by omega, (skips_of_afterStep? hmiddle).trans hskips⟩
      · rcases Option.or_eq_some_iff.1 h with hbound | ⟨-, h⟩
        · obtain ⟨middle, hmiddle, hrest⟩ := Option.bind_eq_some_iff.1 hbound
          exact ⟨1, Nat.le_refl _,
            (skips_of_afterBound? hmiddle).trans (skips_of_afterName? hrest)⟩
        · exact skips_of_afterDotted? h

theorem readable_eq_none_of_described (h : Pattern.described.first? cs = none) :
    Pattern.readable.first? cs = none := by
  induction cs using step_induction with
  | h cs ih =>
      rw [Pattern.first?_described] at h
      simp only [Option.or_eq_none_iff, Option.bind_eq_none_iff] at h
      obtain ⟨hstep, hbound, hdotted⟩ := h
      rw [Pattern.first?_readable]
      simp only [Option.or_eq_none_iff, Option.bind_eq_none_iff]
      exact ⟨fun rest hrest => ih rest hrest (hstep rest hrest),
        fun rest hrest => afterName?_of_afterDotted? (hbound rest hrest), hdotted⟩

/-- A path as described is read alike, unless there are two dots in it. -/
theorem readable_or_skips_of_described (h : Pattern.described.first? cs = some rest) :
    Pattern.readable.first? cs = some rest ∨ Skips 2 cs rest := by
  induction cs using step_induction with
  | h cs ih =>
      rw [Pattern.first?_described] at h
      rw [Pattern.first?_readable]
      rcases Option.or_eq_some_iff.1 h with hstep | ⟨hstep, h⟩
      · obtain ⟨middle, hmiddle, hrest⟩ := Option.bind_eq_some_iff.1 hstep
        rcases ih middle hmiddle hrest with hread | hskips
        · left
          rw [hmiddle, Option.bind_some, hread, Option.some_or]
        · exact .inr ((skips_of_afterStep? hmiddle).trans hskips)
      · have hnone : (afterStep? cs).bind Pattern.readable.first? = none :=
          Option.bind_eq_none_iff.2 fun middle hmiddle =>
            readable_eq_none_of_described (Option.bind_eq_none_iff.1 hstep middle hmiddle)
        rw [hnone, Option.none_or]
        rcases Option.or_eq_some_iff.1 h with hbound | ⟨hbound, hdotted⟩
        · obtain ⟨middle, hmiddle, hrest⟩ := Option.bind_eq_some_iff.1 hbound
          have hskips := skips_of_afterBound? hmiddle
          rcases Option.or_eq_some_iff.1 hrest with hdot | ⟨-, hname⟩
          · obtain ⟨after, hafter, hname⟩ := Option.bind_eq_some_iff.1 hdot
            exact .inr ((hskips.trans (skips_of_afterDot? hafter)).trans
              (skips_of_afterName? hname))
          · left
            rw [hmiddle, Option.bind_some, hname, Option.some_or]
        · left
          have hnone : (afterBound? cs).bind afterName? = none :=
            Option.bind_eq_none_iff.2 fun middle hmiddle =>
              afterName?_of_afterDotted? (Option.bind_eq_none_iff.1 hbound middle hmiddle)
          rw [hnone, Option.none_or, hdotted]

end Skips

end SchemaLink
