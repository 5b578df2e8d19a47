import SchemaLink.Proofs.Path.Covering
import SchemaLink.Proofs.Text.Fronts

/-! # The longest paths

Where a well-formed path is written, a path is read, and of all that are written from there it is
the longest. -/

namespace SchemaLink

/-! ## What is left after a path -/

theorem Skips.length_le {dots : Nat} {cs rest : List Char} (h : Skips dots cs rest) :
    rest.length ≤ cs.length := by
  rcases h with ⟨front, rfl, -⟩
  simp

namespace Pattern

open Lexeme (isNameChar scan sources)

variable {cs rest : List Char}

theorem afterName?_append {word : String} (h : IsName word) (rest : List Char) :
    afterName? ('$' :: (word.toList ++ rest)) = some (rest.dropWhile isNameChar) := by
  rcases h with ⟨hne, hchars⟩
  rw [afterName?, List.takeWhile_append_of_pos hchars, List.dropWhile_append_of_pos hchars, if_neg]
  simpa using fun hempty => absurd hempty hne

theorem afterHop?_append {step : Hop} (h : IsName step.relation)
    (hstop : rest.takeWhile isNameChar = []) :
    afterHop? (step.text.toList ++ rest) = some rest := by
  have hname := Hop.isName_name h
  have hdrop := List.takeWhile_append_dropWhile (p := isNameChar) (l := rest)
  rw [hstop, List.nil_append] at hdrop
  have htext : step.text.toList = '$' :: step.name.toList := String.toList_append
  rw [htext, List.cons_append, afterHop?, List.takeWhile_append_of_pos hname.2, hstop,
    List.append_nil, String.ofList_toList, Hop.ofName?_name h.1,
    List.dropWhile_append_of_pos hname.2, hdrop]
  rfl

/-- A name is the start of a path, if not all of it. -/
theorem exists_first?_of_afterName? (h : afterName? cs = some rest) :
    ∃ last, readable.first? cs = some last ∧ last.length ≤ rest.length := by
  have hsame : ∀ {middle}, afterHop? cs = some middle → middle = rest := fun hmiddle =>
    Option.some.inj ((afterName?_of_afterHop? hmiddle).symm.trans h)
  rw [first?_readable]
  cases hstep : (afterStep? cs).bind readable.first? with
  | some last =>
      refine ⟨last, Option.some_or, ?_⟩
      obtain ⟨after, hafter, hlast⟩ := Option.bind_eq_some_iff.1 hstep
      obtain ⟨middle, hmiddle, harrow⟩ := Option.bind_eq_some_iff.1 hafter
      obtain rfl := hsame hmiddle
      have hshorter : after.length < middle.length := by
        unfold afterArrow? at harrow
        split at harrow
        · cases harrow
          simp only [List.length_cons]
          omega
        · cases harrow
      exact ((first?_length hlast).trans hshorter).le
  | none =>
      rw [Option.none_or]
      cases hbound : (afterBound? cs).bind afterName? with
      | some last =>
          refine ⟨last, Option.some_or, ?_⟩
          obtain ⟨after, hafter, hlast⟩ := Option.bind_eq_some_iff.1 hbound
          obtain ⟨middle, hmiddle, hdot⟩ := Option.bind_eq_some_iff.1 hafter
          obtain rfl := hsame hmiddle
          exact (skips_of_afterName? hlast).length_le.trans (skips_of_afterDot? hdot).length_le
      | none =>
          refine ⟨rest, ?_, Nat.le_refl _⟩
          rw [Option.none_or, afterDotted?, afterDot?_of_afterName? h, Option.bind_none,
            Option.none_or, h]

theorem exists_first?_of_name {word : String} (h : IsName word) (rest : List Char) :
    ∃ last, readable.first? (("$" ++ word).toList ++ rest) = some last ∧
      last.length ≤ rest.length := by
  rw [String.toList_append, List.append_assoc]
  obtain ⟨last, hlast, hle⟩ := exists_first?_of_afterName? (afterName?_append h rest)
  exact ⟨last, hlast, hle.trans (List.dropWhile_sublist _).length_le⟩

/-- Where a well-formed path is written, a path is read that is no shorter. -/
theorem exists_first?_of_wellFormed {path : Path} (h : path.WellFormed) (rest : List Char) :
    ∃ last, readable.first? (path.text.toList ++ rest) = some last ∧
      last.length ≤ rest.length := by
  rcases path with ⟨hops, terminal⟩
  induction hops with
  | nil =>
      have hterminal := h.terminal
      have htext : Path.text ⟨[], terminal⟩ = terminal.text := rfl
      rw [htext]
      cases terminal with
      | ownProperty property =>
          refine ⟨_, ?_, (List.dropWhile_sublist isNameChar).length_le⟩
          rw [Terminal.text, String.toList_append]
          show readable.first? ('.' :: '$' :: (property.toList ++ rest)) = _
          rw [first?_readable, afterDotted?, afterDot?, Option.bind_some,
            afterName?_append hterminal]
          rfl
      | hopProperty step property =>
          refine ⟨_, ?_, (List.dropWhile_sublist isNameChar).length_le⟩
          have hbound : (Terminal.hopProperty step property).text.toList ++ rest =
              step.text.toList ++ ('.' :: '$' :: (property.toList ++ rest)) := by
            simp [Terminal.text]
          rw [hbound, first?_readable, afterStep?, afterBound?, afterHop?_append hterminal.1 rfl,
            Option.bind_some, Option.bind_some, afterDot?, Option.bind_some,
            afterName?_append hterminal.2]
          rfl
      | hop step => exact exists_first?_of_name (Hop.isName_name hterminal) rest
      | displayName =>
          exact exists_first?_of_name (show IsName SchemaLink.displayName by decide) rest
      | entityTypeName =>
          exact exists_first?_of_name (show IsName SchemaLink.entityTypeName by decide) rest
      | field name => exact exists_first?_of_name hterminal.1 rest
  | cons step hops ih =>
      obtain ⟨hstep, hhops⟩ := Path.wellFormed_cons_iff.1 h
      obtain ⟨last, hlast, hle⟩ := ih hhops
      refine ⟨last, ?_, hle⟩
      have htext : (Path.text ⟨step :: hops, terminal⟩).toList ++ rest =
          step.text.toList ++ ('-' :: '>' :: ((Path.text ⟨hops, terminal⟩).toList ++ rest)) := by
        have hcons : Path.text ⟨step :: hops, terminal⟩ =
          step.text ++ "->" ++ Path.text ⟨hops, terminal⟩ := rfl
        rw [hcons]
        simp
      rw [htext, first?_readable, afterStep?, afterHop?_append hstep rfl, Option.bind_some,
        afterArrow?, Option.bind_some, hlast, Option.some_or]

/-! ## The longest path at the start of a text -/

/-- What is read at the start of a text is a well-formed path. -/
theorem exists_wellFormed_of_first? (h : readable.first? cs = some rest) :
    ∃ path : Path, path.WellFormed ∧ cs = path.text.toList ++ rest := by
  have hagrees := agrees_read? cs
  cases hread : PathMatch.read? (scan cs) with
  | none =>
      rw [hread] at hagrees
      cases h.symm.trans hagrees
  | some found =>
      rw [hread] at hagrees
      obtain ⟨last, hlast, -, hcs⟩ := hagrees
      obtain rfl := Option.some.inj (h.symm.trans hlast)
      refine ⟨found.path, PathMatch.wellFormed_of_read? hread fun word hword =>
        Lexeme.inPath_name_of_mem_scan hword, ?_⟩
      rw [PathMatch.text_read? hread, Lexeme.toList_join_source]
      exact hcs

/-- The path that is read at the start of a text is the longest that is written there. -/
theorem first?_readable_eq_some_iff :
    readable.first? cs = some rest ↔ ∃ path : Path, path.WellFormed ∧
      cs = path.text.toList ++ rest ∧ ∀ other : Path, other.WellFormed →
        other.text.toList <+: cs → other.text.toList <+: path.text.toList := by
  constructor
  · intro h
    obtain ⟨path, hpath, rfl⟩ := exists_wellFormed_of_first? h
    refine ⟨path, hpath, rfl, fun other hother hprefix => ?_⟩
    obtain ⟨more, hmore⟩ := hprefix
    obtain ⟨last, hlast, hle⟩ := exists_first?_of_wellFormed hother more
    rw [hmore, h] at hlast
    obtain rfl := Option.some.inj hlast
    have hlength := congrArg List.length hmore
    simp only [List.length_append] at hlength
    exact List.prefix_of_prefix_length_le ⟨more, hmore⟩ (List.prefix_append _ _) (by omega)
  · rintro ⟨path, hpath, rfl, hlongest⟩
    obtain ⟨last, hlast, hle⟩ := exists_first?_of_wellFormed hpath rest
    obtain ⟨other, hother, htext⟩ := exists_wellFormed_of_first? hlast
    have hshorter := (hlongest other hother (htext ▸ List.prefix_append _ _)).length_le
    have hlength := congrArg List.length htext
    simp only [List.length_append] at hlength
    rw [hlast, (List.append_inj_right' htext (by omega)).symm]

theorem first?_readable_eq_none_iff :
    readable.first? cs = none ↔
      ∀ path : Path, path.WellFormed → ¬ path.text.toList <+: cs := by
  constructor
  · rintro h path hpath ⟨rest, rfl⟩
    obtain ⟨last, hlast, -⟩ := exists_first?_of_wellFormed hpath rest
    cases h.symm.trans hlast
  · intro h
    refine Option.eq_none_iff_forall_ne_some.2 fun rest hrest => ?_
    obtain ⟨path, hpath, rfl⟩ := exists_wellFormed_of_first? hrest
    exact h path hpath (List.prefix_append _ _)

end Pattern

end SchemaLink
