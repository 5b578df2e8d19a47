import Mathlib.Algebra.BigOperators.Group.List.Basic
import Mathlib.Data.List.Nodup
import SchemaLink.Proofs.Linker.Templates
import SchemaLink.Proofs.Traversal

/-! # Combinations in order

A combination picks an item at some position of every list of choices. All picks are made, each once
and in lexicographic order of the positions, so that repeated combinations come of repeated items
only. -/

namespace SchemaLink

variable {α : Type}

/-! ## Positions that are picked -/

/-- A combination has from each list of choices the item at a position. -/
inductive Picks : List (List α) → List Nat → List α → Prop
  | nil : Picks [] [] []
  | cons {options : List α} {choices : List (List α)} {position : Nat} {positions : List Nat}
      {option : α} {combination : List α} (hoption : options[position]? = some option)
      (hrest : Picks choices positions combination) :
      Picks (options :: choices) (position :: positions) (option :: combination)

/-- All lists of positions in choices, earlier positions varying slowest. -/
def picks : List (List α) → List (List Nat)
  | [] => [[]]
  | options :: choices =>
    (List.range options.length).flatMap fun position => (picks choices).map (position :: ·)

theorem forall₂_range (options : List α) :
    List.Forall₂ (fun position option => options[position]? = some option)
      (List.range options.length) options :=
  List.forall₂_iff_get.2 ⟨List.length_range, fun i _ h => by simp [h]⟩

/-- Combinations stand in the order of the positions that they pick. -/
theorem forall₂_picks (choices : List (List α)) :
    List.Forall₂ (Picks choices) (picks choices) (combinations choices) := by
  induction choices with
  | nil => exact .cons .nil .nil
  | cons options choices ih =>
      rw [picks, combinations_cons]
      refine List.rel_flatMap (forall₂_range options) fun position option hoption => ?_
      rw [List.forall₂_map_left_iff, List.forall₂_map_right_iff]
      exact ih.imp fun _ _ hpicks => .cons hoption hpicks

theorem mem_picks {choices : List (List α)} {positions : List Nat} :
    positions ∈ picks choices ↔ ∃ combination, Picks choices positions combination := by
  constructor
  · intro hmem
    obtain ⟨combination, -, hpicks⟩ := exists_of_forall₂_right (forall₂_picks choices).flip hmem
    exact ⟨combination, hpicks⟩
  · rintro ⟨combination, hpicks⟩
    induction hpicks with
    | nil => exact List.mem_singleton_self _
    | cons hoption hrest ih =>
        rw [picks, List.mem_flatMap]
        exact ⟨_, List.mem_range.2 (List.getElem?_eq_some_iff.1 hoption).1, List.mem_map_of_mem ih⟩

/-- The positions ascend in lexicographic order. -/
theorem picks_ascending (choices : List (List α)) : (picks choices).Pairwise (· < ·) := by
  induction choices with
  | nil => exact List.pairwise_singleton _ _
  | cons options choices ih =>
      rw [picks, List.pairwise_flatMap]
      refine ⟨fun position _ => ?_, ?_⟩
      · exact List.pairwise_map.2 (ih.imp fun h => List.Lex.cons h)
      · refine List.pairwise_lt_range.imp fun {position other} hlt => ?_
        intro _ hfirst _ hsecond
        obtain ⟨_, _, rfl⟩ := List.mem_map.1 hfirst
        obtain ⟨_, _, rfl⟩ := List.mem_map.1 hsecond
        exact List.Lex.rel hlt

/-! ## Combinations -/

theorem mem_combinations {choices : List (List α)} {combination : List α} :
    combination ∈ combinations choices ↔ List.Forall₂ (· ∈ ·) combination choices := by
  induction choices generalizing combination with
  | nil => simp [combinations]
  | cons options choices ih =>
      rw [combinations_cons, List.forall₂_cons_right_iff]
      simp [ih, eq_comm]

theorem length_combinations (choices : List (List α)) :
    (combinations choices).length = (choices.map List.length).prod := by
  induction choices with
  | nil => rfl
  | cons options choices ih =>
      rw [combinations_cons, List.map_cons, List.prod_cons, ← ih, List.length_flatMap]
      simp

theorem combinations_eq_nil_iff {choices : List (List α)} :
    combinations choices = [] ↔ [] ∈ choices := by
  induction choices with
  | nil => simp [combinations]
  | cons options choices ih =>
      rw [combinations_cons, List.mem_cons, ← ih, List.flatMap_eq_nil_iff]
      cases options with
      | nil => simp
      | cons option options => simpa using fun hnil _ _ => hnil

/-- Combinations with different first items are different. -/
theorem pairwise_disjoint_iff {rests : List (List α)} (h : rests ≠ []) {options : List α} :
    options.Pairwise (Function.onFun List.Disjoint fun option => rests.map (option :: ·)) ↔
      options.Nodup := by
  obtain ⟨rest, hrest⟩ := List.exists_mem_of_ne_nil _ h
  refine List.Pairwise.iff fun option other => ⟨?_, ?_⟩
  · rintro hdisjoint rfl
    exact hdisjoint (List.mem_map_of_mem hrest) (List.mem_map_of_mem hrest)
  · intro hne combination hfirst hsecond
    obtain ⟨_, _, rfl⟩ := List.mem_map.1 hfirst
    obtain ⟨_, _, heq⟩ := List.mem_map.1 hsecond
    exact hne (List.cons.inj heq).1.symm

theorem nodup_combinations_iff {choices : List (List α)} :
    (combinations choices).Nodup ↔ [] ∈ choices ∨ ∀ options ∈ choices, options.Nodup := by
  by_cases hempty : [] ∈ choices
  · rw [combinations_eq_nil_iff.2 hempty]
    exact iff_of_true List.nodup_nil (.inl hempty)
  · rw [or_iff_right hempty]
    induction choices with
    | nil => simp [combinations]
    | cons options choices ih =>
        obtain ⟨hoptions, hchoices⟩ := not_or.1 (mt List.mem_cons.2 hempty)
        obtain ⟨option, hoption⟩ := List.exists_mem_of_ne_nil _ (Ne.symm hoptions)
        have hrests : combinations choices ≠ [] := mt combinations_eq_nil_iff.1 hchoices
        rw [combinations_cons, List.nodup_flatMap, pairwise_disjoint_iff hrests,
          List.forall_mem_cons, ← ih hchoices]
        simp only [List.nodup_map_iff List.cons_injective]
        exact ⟨fun h => ⟨h.2, h.1 option hoption⟩, fun h => ⟨fun _ _ => h.2, h.1⟩⟩

/-- The combinations are the lists with one item of each list of choices, in lexicographic order of
the positions at which the items are picked, with no pick left out or made twice. So there are as
many as the product of the numbers of choices, and a combination comes again only if a choice
does. -/
theorem combinations_lexicographic (choices : List (List α)) :
    (∀ combination, combination ∈ combinations choices ↔
      List.Forall₂ (· ∈ ·) combination choices) ∧
    (∃ positions : List (List Nat), positions.Pairwise (· < ·) ∧
      (∀ picked, picked ∈ positions ↔ ∃ combination, Picks choices picked combination) ∧
      List.Forall₂ (Picks choices) positions (combinations choices)) ∧
    (combinations choices).length = (choices.map List.length).prod ∧
    combinations ([] : List (List α)) = [[]] ∧
    (combinations choices = [] ↔ [] ∈ choices) ∧
    ((combinations choices).Nodup ↔ [] ∈ choices ∨ ∀ options ∈ choices, options.Nodup) :=
  ⟨fun _ => mem_combinations,
    ⟨picks choices, picks_ascending choices, fun _ => mem_picks, forall₂_picks choices⟩,
    length_combinations choices, rfl, combinations_eq_nil_iff, nodup_combinations_iff⟩

/-- The choice that comes twice is picked at both of its positions. -/
example : combinations [["x", "y"], ["1", "1"]] =
    [["x", "1"], ["x", "1"], ["y", "1"], ["y", "1"]] := rfl

end SchemaLink
