import Mathlib.Data.List.Basic
import SchemaLink.Linker.Variants
import SchemaLink.Proofs.Distinct

/-! # Walks along a path

A walk starts at a type in scope and picks one target of every hop in turn. The variants
of a path are the texts of all its walks, each where it first occurs. That the types
reached are made distinct after every hop neither loses a walk nor puts it elsewhere. -/

namespace SchemaLink

/-! ## Walks -/

/-- The id form of a hop over a relation with an id. -/
def Hop.segment (hop : Hop) (id : String) : String :=
  match hop.direction with
  | .forward => "$r_" ++ id
  | .inverse => "$ri_" ++ id

/-- The type that a walk ends at, given the targets that it picks. -/
def walkEnd (start : TypeRef) (picks : List String) : TypeRef :=
  match picks.getLast? with
  | none => start
  | some target => .entity target

namespace Linker

/-- The id forms of hops, if all of their relations are registered. -/
def segments? (linker : Linker) (hops : List Hop) : Option (List String) :=
  hops.mapM fun hop =>
    (linker.registry.relation? hop.relation).map fun entry => hop.segment entry.id

/-- All walks along hops, as the targets that they pick. The first pick varies slowest. -/
def walks (linker : Linker) : List Hop → List (List String)
  | [] => [[]]
  | hop :: hops =>
    (linker.targets hop).flatMap fun target => (linker.walks hops).map (target :: ·)

/-- The texts of all walks along a path, one for each id form of the terminal where the walk
ends. There is none if a hop is over a relation that is not registered. -/
def walkTexts (linker : Linker) (path : Path) (scope : Scope) : List String :=
  match linker.segments? path.hops with
  | none => []
  | some segments =>
    scope.types.flatMap fun start =>
      (linker.walks path.hops).flatMap fun picks =>
        (linker.terminalTexts scope (walkEnd start picks) path.terminal).map fun last =>
          "->".intercalate (segments ++ [last])

end Linker

/-! ## Following all walks at once -/

theorem RelationEntry.hopText_eq_segment (entry : RelationEntry) (hop : Hop) :
    entry.hopText hop.direction = hop.segment entry.id := by
  unfold hopText Hop.segment
  cases hop.direction <;> simp [Hop.text, Hop.name, Direction.marker, ← String.toList_inj]

theorem walkEnd_cons (start : TypeRef) (target : String) (picks : List String) :
    walkEnd start (target :: picks) = walkEnd (.entity target) picks := by
  rw [walkEnd, walkEnd, List.getLast?_cons]
  cases picks.getLast? <;> rfl

/-- What is reached from somewhere on walks along hops with some id forms. -/
def Reached.extend (segments : List String) (walks : List (List String)) (reached : Reached) :
    List Reached :=
  walks.map fun picks => ⟨walkEnd reached.type picks, reached.segments ++ segments⟩

namespace Linker

variable (linker : Linker)

theorem segments?_cons (hop : Hop) (hops : List Hop) :
    linker.segments? (hop :: hops) =
      match linker.registry.relation? hop.relation with
      | none => none
      | some entry => (linker.segments? hops).map (hop.segment entry.id :: ·) := by
  rw [segments?, List.mapM_cons]
  cases linker.registry.relation? hop.relation with
  | none => rfl
  | some entry => exact (Option.map_eq_bind ..).symm

/-- A hop and walks after it are walks that start with the hop. -/
theorem flatMap_extend {hop : Hop} {entry : RelationEntry}
    (h : linker.registry.relation? hop.relation = some entry) (hops : List Hop)
    (segments : List String) (reached : Reached) :
    ((entry.targets hop.direction).map fun target =>
        (⟨.entity target, reached.segments ++ [entry.hopText hop.direction]⟩ : Reached)).flatMap
          (Reached.extend segments (linker.walks hops)) =
      reached.extend (hop.segment entry.id :: segments) (linker.walks (hop :: hops)) := by
  have htargets : linker.targets hop = entry.targets hop.direction := by rw [targets, h]
  rw [Reached.extend, walks, htargets, List.map_flatMap, List.flatMap_map]
  apply List.flatMap_congr
  intro target _
  rw [Reached.extend, List.map_map, entry.hopText_eq_segment]
  apply List.map_congr_left
  intro picks _
  simp [walkEnd_cons]

/-- What is reached in the end, repetitions aside, is what all walks lead to. -/
theorem map_distinct_followAll (hops : List Hop) (frontier : List Reached) :
    (linker.followAll hops frontier).map distinct =
      (linker.segments? hops).map fun segments =>
        distinct (frontier.flatMap (Reached.extend segments (linker.walks hops))) := by
  induction hops generalizing frontier with
  | nil =>
      have hstart : Reached.extend [] [[]] = fun reached => [reached] := by
        funext reached
        simp [Reached.extend, walkEnd]
      simp [followAll, segments?, walks, hstart]
  | cons hop hops ih =>
      rw [followAll, segments?_cons]
      cases hentry : linker.registry.relation? hop.relation with
      | none => rfl
      | some entry =>
          dsimp only
          rw [ih, Option.map_map]
          congr 1
          funext segments
          rw [follow, distinct_flatMap_distinct, List.flatMap_assoc]
          simp only [linker.flatMap_extend hentry, Function.comp_apply]

/-- The variants of a path are the texts of its walks, repetitions aside. -/
theorem variants_eq_distinct (path : Path) (scope : Scope) :
    linker.variants path scope = distinct (linker.walkTexts path scope) := by
  have hfollow := linker.map_distinct_followAll path.hops
    (scope.types.map fun type => ⟨type, []⟩)
  rw [variants, walkTexts]
  cases hfrontier : linker.followAll path.hops (scope.types.map fun type => ⟨type, []⟩) with
  | none =>
      rw [hfrontier, Option.map_none, eq_comm, Option.map_eq_none_iff] at hfollow
      rw [hfollow]
      rfl
  | some frontier =>
      rw [hfrontier, Option.map_some, eq_comm, Option.map_eq_some_iff] at hfollow
      rcases hfollow with ⟨segments, hsegments, hreached⟩
      rw [hsegments]
      dsimp only
      rw [← distinct_flatMap_distinct, ← hreached, distinct_flatMap_distinct]
      simp [List.flatMap_assoc, List.flatMap_map, Reached.extend]

/-- The variants of a path are the texts of its walks, each where it first occurs; so none is
lost, made up or repeated. -/
theorem variants_eq_walkTexts (path : Path) (scope : Scope) :
    linker.variants path scope = (linker.walkTexts path scope).eraseDups ∧
      (linker.variants path scope).Nodup ∧
      ∀ text, text ∈ linker.variants path scope ↔ text ∈ linker.walkTexts path scope := by
  rw [linker.variants_eq_distinct]
  exact ⟨distinct_eq_eraseDups _, nodup_distinct _, fun text => mem_distinct⟩

/-- From an author two walks lead to the editors of books and of articles, and read alike. -/
example :
    let library : Linker := ⟨{ relations := some (.ofList [
      ("wrote", { id := "R1", domain := ["author"], range := ["book", "article"] }),
      ("edited", { id := "R2", domain := ["editor"], range := ["book", "article"] })]) }, .empty⟩
    let path : Path := ⟨[⟨.forward, "wrote"⟩, ⟨.inverse, "edited"⟩], .displayName⟩
    let text := "$r_R1->$ri_R2->$display_name"
    library.walkTexts path (.own (.entity "author")) = [text, text] ∧
      library.variants path (.own (.entity "author")) = [text] := by decide

end Linker

end SchemaLink
