import Mathlib.Data.List.Basic
import SchemaLink.Linker.Substitution
import SchemaLink.Proofs.Alternatives
import SchemaLink.Proofs.Path.Sources

/-! # Substitution as it is meant

Every occurrence of a path takes each of its variants, whatever other occurrences
take. The first occurrence varies slowest. That each path is resolved once and then
looked up makes no difference. -/

namespace SchemaLink

/-! ## Filling in variants -/

/-- The texts that segments become: literal text is copied, and a path becomes any of its
variants. -/
def fillings (variants : Path → List String) : List Segment → List String
  | [] => [""]
  | .literal source :: segments => (fillings variants segments).map (source ++ ·)
  | .path path _ :: segments =>
    (variants path).flatMap fun variant => (fillings variants segments).map (variant ++ ·)

/-- Two occurrences of one path vary independently. -/
example (path : Path) :
    fillings (fun _ => ["a", "b"]) [.path path "", .literal "-", .path path ""] =
      ["a-a", "a-b", "b-a", "b-b"] := rfl

theorem foldl_combinations (choices : List (List α)) (chosen : List (List α)) :
    choices.foldl (fun chosen options =>
        chosen.flatMap fun combination => options.map fun option => combination ++ [option])
      chosen = chosen.flatMap fun first => (combinations choices).map (first ++ ·) := by
  induction choices generalizing chosen with
  | nil => simp [combinations]
  | cons options choices ih =>
      rw [combinations, List.foldl_cons, List.foldl_cons, ih, ih]
      simp [List.flatMap_assoc, List.flatMap_map, List.map_flatMap, Function.comp_def]

theorem combinations_cons (options : List α) (choices : List (List α)) :
    combinations (options :: choices) =
      options.flatMap fun option => (combinations choices).map (option :: ·) := by
  rw [combinations, List.foldl_cons, foldl_combinations]
  simp [List.flatMap_map]

theorem map_fillPaths_combinations (variants : Path → List String) (segments : List Segment) :
    (combinations ((segments.filterMap Segment.path?).map variants)).map (fillPaths segments) =
      fillings variants segments := by
  induction segments with
  | nil => rfl
  | cons segment segments ih =>
      cases segment with
      | literal source =>
          simp only [List.filterMap_cons, Segment.path?, fillings, ← ih, List.map_map]
          rfl
      | path path source =>
          simp only [List.filterMap_cons, Segment.path?, List.map_cons, combinations_cons,
            fillings, ← ih, List.map_flatMap, List.map_map]
          rfl

/-! ## The table of variants -/

/-- The table that holds the variants of each of some paths. -/
def VariantTable.ofPaths (variants : Path → List String) (paths : List Path) : VariantTable :=
  paths.map fun path => (path, variants path)

namespace VariantTable

variable {variants : Path → List String}

theorem lookup_ofPaths {paths : List Path} {path : Path} :
    List.lookup path (ofPaths variants paths) =
      if path ∈ paths then some (variants path) else none := by
  induction paths with
  | nil => rfl
  | cons first paths ih =>
      rw [ofPaths, List.map_cons, List.lookup_cons]
      by_cases h : path = first
      · simp [h]
      · have hne : (path == first) = false := beq_false_of_ne h
        rw [ofPaths] at ih
        simp [hne, h, ih]

theorem choices_ofPaths {paths : List Path} {segments : List Segment}
    (h : ∀ path ∈ segments.filterMap Segment.path?, path ∈ paths) :
    (ofPaths variants paths).choices segments =
      (segments.filterMap Segment.path?).map variants := by
  rw [choices, ← List.filterMap_eq_map]
  apply List.filterMap_congr
  intro path hpath
  rw [lookup_ofPaths, if_pos (h path hpath)]
  rfl

theorem expansions_ofPaths {paths : List Path} {segments : List Segment}
    (h : ∀ path ∈ segments.filterMap Segment.path?, path ∈ paths) :
    (ofPaths variants paths).expansions segments = fillings variants segments := by
  rw [expansions, choices_ofPaths h, map_fillPaths_combinations]

end VariantTable

namespace Linker

theorem remember_ofPaths (linker : Linker) (scope : Scope) (paths : List Path) (path : Path) :
    linker.remember scope (.ofPaths (linker.variants · scope) paths) path =
      .ofPaths (linker.variants · scope) (insertNew paths path) := by
  rw [remember, VariantTable.lookup_ofPaths]
  by_cases h : path ∈ paths <;> simp [insertNew, h, VariantTable.ofPaths]

/-- Remembering one path after another, each is resolved once. -/
theorem foldl_remember (linker : Linker) (scope : Scope) (known paths : List Path) :
    paths.foldl (linker.remember scope) (.ofPaths (linker.variants · scope) known) =
      .ofPaths (linker.variants · scope) (insertAll known paths) := by
  induction paths generalizing known with
  | nil => rfl
  | cons path paths ih =>
      rw [List.foldl_cons, remember_ofPaths]
      exact ih (insertNew known path)

end Linker

/-! ## Substitution -/

/-- A path with the text it was read from. -/
def Segment.token? : Segment → Option (Path × String)
  | literal _ => none
  | path found source => some (found, source)

/-- What becomes of a template, given the variants of every path. -/
def Substitution.plain (variants : Path → List String) (template : String) : Substitution :=
  let alternatives := (Alternatives.pieces template).map Segment.ofString
  let tokens := alternatives.flatMap fun segments => segments.filterMap Segment.token?
  if tokens = [] then ⟨template, 0, []⟩
  else
    { text := Alternatives.separator.intercalate
        (alternatives.flatMap (fillings variants)).eraseDups
      tokens := (tokens.map Prod.fst).eraseDups.length
      unresolved :=
        ((tokens.filter fun token => (variants token.1).isEmpty).map Prod.snd).eraseDups }

theorem map_fst_tokens (segments : List Segment) :
    (segments.filterMap Segment.token?).map Prod.fst = segments.filterMap Segment.path? := by
  rw [List.map_filterMap]
  apply List.filterMap_congr
  intro segment _
  cases segment <;> rfl

/-- A token was read from some text. -/
def IsRead (token : Path × String) : Prop :=
  ∃ text, .path token.1 token.2 ∈ Segment.ofString text

theorem isRead_of_mem {pieces : List String} {token : Path × String}
    (h : token ∈ (pieces.map Segment.ofString).flatMap fun segments =>
      segments.filterMap Segment.token?) : IsRead token := by
  rcases List.mem_flatMap.1 h with ⟨segments, hsegments, h⟩
  rcases List.mem_map.1 hsegments with ⟨piece, -, rfl⟩
  rcases List.mem_filterMap.1 h with ⟨segment, hsegment, htoken⟩
  cases segment with
  | literal source => cases htoken
  | path found source =>
      cases htoken
      exact ⟨piece, hsegment⟩

theorem IsRead.text_eq {token : Path × String} (h : IsRead token) : token.1.text = token.2 := by
  rcases h with ⟨text, h⟩
  exact Segment.path_text h

/-- Different paths are written differently, as far as they were read. -/
theorem IsRead.path_eq {token other : Path × String} (h : IsRead token) (hother : IsRead other)
    (htext : token.1.text = other.1.text) : token.1 = other.1 := by
  rw [h.text_eq, hother.text_eq] at htext
  rcases h with ⟨text, h⟩
  rcases hother with ⟨text', hother⟩
  rw [htext] at h
  exact Segment.path_eq_of_source h hother

/-- The table lists the sources of tokens without a variant, each once. -/
theorem unresolved_ofPaths (variants : Path → List String) {tokens : List (Path × String)}
    (h : ∀ token ∈ tokens, IsRead token) :
    ((VariantTable.ofPaths variants (distinct (tokens.map Prod.fst))).filter
        fun entry => entry.2.isEmpty).map (fun entry => entry.1.text) =
      distinct ((tokens.filter fun token => (variants token.1).isEmpty).map Prod.snd) := by
  let lost := tokens.filter fun token => (variants token.1).isEmpty
  have hlost : ∀ token ∈ lost, IsRead token := fun token htoken =>
    h token (List.mem_filter.1 htoken).1
  have hpaths : (distinct (tokens.map Prod.fst)).filter (fun path => (variants path).isEmpty) =
      distinct (lost.map Prod.fst) := by
    rw [filter_distinct, List.filter_map]
    rfl
  have htexts : (lost.map Prod.fst).map Path.text = lost.map Prod.snd := by
    rw [List.map_map]
    exact List.map_congr_left fun token htoken => (hlost token htoken).text_eq
  calc ((VariantTable.ofPaths variants (distinct (tokens.map Prod.fst))).filter
          fun entry => entry.2.isEmpty).map (fun entry => entry.1.text)
      = ((distinct (tokens.map Prod.fst)).filter fun path => (variants path).isEmpty).map
          Path.text := by
        rw [VariantTable.ofPaths, List.filter_map, List.map_map]
        rfl
    _ = (distinct (lost.map Prod.fst)).map Path.text := by rw [hpaths]
    _ = distinct ((lost.map Prod.fst).map Path.text) := by
        apply map_distinct
        intro path hpath other hother htext
        rcases List.mem_map.1 hpath with ⟨token, htoken, rfl⟩
        rcases List.mem_map.1 hother with ⟨token', htoken', rfl⟩
        exact (hlost token htoken).path_eq (hlost token' htoken') htext
    _ = distinct (lost.map Prod.snd) := by rw [htexts]

/-- Substitution gives what it is meant to give. -/
theorem Linker.substitute_eq_plain (linker : Linker) (owner : TypeRef) (template : String)
    (anchor : Option String) :
    linker.substitute owner template anchor =
      .plain (fun path => linker.variants path (linker.scope owner anchor)) template := by
  let variants := fun path => linker.variants path (linker.scope owner anchor)
  let alternatives := (Alternatives.pieces template).map Segment.ofString
  let tokens := alternatives.flatMap fun segments => segments.filterMap Segment.token?
  let paths := distinct (tokens.map Prod.fst)
  have hpaths : (alternatives.flatMap fun segments => segments.filterMap Segment.path?) =
      tokens.map Prod.fst := by
    simp only [tokens, List.map_flatMap, map_fst_tokens]
  have htable : (tokens.map Prod.fst).foldl (linker.remember (linker.scope owner anchor)) [] =
      VariantTable.ofPaths variants paths :=
    linker.foldl_remember (linker.scope owner anchor) [] (tokens.map Prod.fst)
  have htexts : alternatives.flatMap (VariantTable.ofPaths variants paths).expansions =
      alternatives.flatMap (fillings variants) := by
    refine List.flatMap_congr fun segments hsegments => VariantTable.expansions_ofPaths ?_
    intro path hpath
    rw [mem_distinct, ← hpaths]
    exact List.mem_flatMap.2 ⟨segments, hsegments, hpath⟩
  have hread : ∀ token ∈ tokens, IsRead token := fun token htoken => isRead_of_mem htoken
  have hsubstitute : linker.substitute owner template anchor =
      if (tokens.map Prod.fst).isEmpty then .unchanged template
      else
        { text := (Alternatives.ofList (alternatives.flatMap
            (VariantTable.ofPaths variants paths).expansions)).render
          tokens := (VariantTable.ofPaths variants paths).length
          unresolved := ((VariantTable.ofPaths variants paths).filter
            fun entry => entry.2.isEmpty).map fun entry => entry.1.text } := by
    simp only [substitute]
    rw [hpaths, htable]
  rw [hsubstitute, htexts, unresolved_ofPaths variants hread, Alternatives.render,
    Alternatives.items_ofList]
  change _ = if tokens = [] then (⟨template, 0, []⟩ : Substitution) else _
  by_cases hnone : tokens = []
  · simp only [hnone, List.map_nil, List.isEmpty_nil, if_true, Substitution.unchanged]
  · have hsome : (tokens.map Prod.fst).isEmpty = false := by simpa using hnone
    simp only [hsome, hnone, if_false, Alternatives.join, distinct_eq_eraseDups, paths,
      VariantTable.ofPaths, List.length_map]
    rfl

end SchemaLink
