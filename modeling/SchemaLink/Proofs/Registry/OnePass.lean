import SchemaLink.Proofs.Registry.SystemNames

/-! # One pass over a condition

A condition is cut from the left into the names of entities behind dollar signs, each as long as it
can be, and characters that are kept. Where it is cut depends on the names alone: ids take the place
of names afterwards, and no part of an id is looked at. -/

namespace SchemaLink

inductive ConditionPart where
  /-- A character that is kept. -/
  | kept (c : Char)
  /-- The name of an entity behind a dollar sign. -/
  | entity (name : String)
  deriving DecidableEq, Repr

namespace ConditionPart

/-- The characters that a part was cut from. -/
def source : ConditionPart → List Char
  | kept c => [c]
  | entity name => '$' :: name.toList

/-- What takes the place of a part if other names are put for the names of entities. -/
def written (rename : String → String) : ConditionPart → List Char
  | kept c => [c]
  | entity name => '$' :: (rename name).toList

def name? : ConditionPart → Option String
  | kept _ => none
  | entity name => some name

end ConditionPart

namespace Registry

/-! ## The longest name in front -/

/-- The longest start of a text that is the name of an entity. -/
def longestName? (registry : Registry) (text : List Char) : Option String :=
  (text.inits.reverse.map String.ofList).find? fun front => (registry.entityId? front).isSome

variable {registry : Registry} {text rest : List Char} {name id : String}

theorem longestName?_eq_none_iff :
    registry.longestName? text = none ↔
      ∀ name, (registry.entityId? name).isSome → ¬ name.toList <+: text := by
  simp only [longestName?, List.find?_eq_none, List.mem_map, List.mem_reverse, List.mem_inits]
  constructor
  · exact fun h name hname hprefix => h name ⟨_, hprefix, String.ofList_toList⟩ hname
  · rintro h _ ⟨front, hprefix, rfl⟩ hname
    exact h _ hname (by rwa [String.toList_ofList])

theorem pairwise_inits_reverse (text : List Char) :
    text.inits.reverse.Pairwise fun front later => later <+: front := by
  rw [List.pairwise_reverse]
  induction text with
  | nil => exact List.pairwise_singleton _ _
  | cons c text ih =>
      rw [List.inits_cons, List.pairwise_cons, List.pairwise_map]
      exact ⟨fun later _ => List.nil_prefix, ih.imp fun h => (List.prefix_cons_inj c).2 h⟩

theorem LongestName.of_longestName? (h : registry.longestName? text = some name) :
    registry.LongestName text name := by
  obtain ⟨hname, longer, shorter, hsplit, hlonger⟩ := List.find?_eq_some_iff_append.1 h
  have hfronts (front : String) :
      front ∈ text.inits.reverse.map String.ofList ↔ front.toList <+: text := by
    simp only [List.mem_map, List.mem_reverse, List.mem_inits]
    exact ⟨fun ⟨_, hfront, heq⟩ => by rwa [← heq, String.toList_ofList],
      fun hfront => ⟨_, hfront, String.ofList_toList⟩⟩
  have horder : (text.inits.reverse.map String.ofList).Pairwise fun front later =>
      later.toList <+: front.toList := by
    rw [List.pairwise_map]
    simpa only [String.toList_ofList] using pairwise_inits_reverse text
  rw [hsplit] at hfronts horder
  refine ⟨hname, (hfronts name).1 (by simp), fun other hother hprefix => ?_⟩
  rcases List.mem_append.1 ((hfronts other).2 hprefix) with hbefore | hafter
  · have habsent := hlonger other hbefore
    rw [hother] at habsent
    cases habsent
  · rcases List.mem_cons.1 hafter with rfl | hafter
    · exact List.prefix_rfl
    · exact (List.pairwise_cons.1 (List.pairwise_append.1 horder).2.1).1 other hafter

theorem longestName?_eq_some_iff :
    registry.longestName? text = some name ↔ registry.LongestName text name := by
  refine ⟨.of_longestName?, fun h => ?_⟩
  cases hfound : registry.longestName? text with
  | none => exact absurd h.starts (longestName?_eq_none_iff.1 hfound name h.registered)
  | some other => rw [(LongestName.of_longestName? hfound).unique h]

/-! ## Cutting -/

/-- Cut a condition from the left. Behind a dollar sign the longest name that follows is taken, and
the next part starts behind this name. -/
def cutCondition (registry : Registry) (text : List Char) : List ConditionPart :=
  match text with
  | [] => []
  | '$' :: rest =>
    match registry.longestName? rest with
    | some name => .entity name :: cutCondition registry (rest.drop name.length)
    | none => .kept '$' :: cutCondition registry rest
  | c :: rest => .kept c :: cutCondition registry rest
termination_by text.length
decreasing_by
  · exact Nat.lt_succ_of_le (List.drop_sublist _ _).length_le
  all_goals simp

/-- Every name is the longest that follows its dollar sign, and none follows a dollar sign that is
kept. -/
structure LongestCut (registry : Registry) (parts : List ConditionPart) : Prop where
  entity : ∀ name after, .entity name :: after <:+ parts →
    registry.LongestName (name.toList ++ after.flatMap ConditionPart.source) name
  dollar : ∀ after, .kept '$' :: after <:+ parts → ∀ name, (registry.entityId? name).isSome →
    ¬ name.toList <+: after.flatMap ConditionPart.source

theorem LongestName.eq_append_drop (h : registry.LongestName text name) :
    name.toList ++ text.drop name.length = text := by
  obtain ⟨rest, rfl⟩ := h.starts
  rw [← String.length_toList, List.drop_left]

theorem flatMap_source_cutCondition (registry : Registry) (text : List Char) :
    (registry.cutCondition text).flatMap ConditionPart.source = text := by
  fun_induction cutCondition registry text with
  | case1 => rfl
  | case2 rest name hname ih =>
      rw [List.flatMap_cons, ih, ConditionPart.source, List.cons_append,
        (LongestName.of_longestName? hname).eq_append_drop]
  | case3 rest hnone ih | case4 c rest hc ih =>
      rw [List.flatMap_cons, ih]
      rfl

theorem LongestCut.cons {part : ConditionPart} {parts : List ConditionPart}
    (h : registry.LongestCut parts)
    (hentity : ∀ name, part = .entity name →
      registry.LongestName (name.toList ++ parts.flatMap ConditionPart.source) name)
    (hdollar : part = .kept '$' → ∀ name, (registry.entityId? name).isSome →
      ¬ name.toList <+: parts.flatMap ConditionPart.source) :
    registry.LongestCut (part :: parts) where
  entity name after hsuffix := by
    rcases List.suffix_cons_iff.1 hsuffix with heq | hsuffix
    · obtain ⟨hpart, rfl⟩ := List.cons.inj heq
      exact hentity name hpart.symm
    · exact h.entity name after hsuffix
  dollar after hsuffix := by
    rcases List.suffix_cons_iff.1 hsuffix with heq | hsuffix
    · obtain ⟨hpart, rfl⟩ := List.cons.inj heq
      exact hdollar hpart.symm
    · exact h.dollar after hsuffix

theorem longestCut_cutCondition (registry : Registry) (text : List Char) :
    registry.LongestCut (registry.cutCondition text) := by
  fun_induction cutCondition registry text with
  | case1 => exact ⟨by simp, by simp⟩
  | case2 rest name hname ih =>
      refine ih.cons (fun other heq => ?_) nofun
      obtain rfl := ConditionPart.entity.inj heq
      have hlongest := LongestName.of_longestName? hname
      rwa [flatMap_source_cutCondition, hlongest.eq_append_drop]
  | case3 rest hnone ih =>
      refine ih.cons nofun fun _ => ?_
      rw [flatMap_source_cutCondition]
      exact longestName?_eq_none_iff.1 hnone
  | case4 c rest hc ih =>
      exact ih.cons nofun fun heq => absurd (ConditionPart.kept.inj heq) hc

/-- There is no other way to cut a condition at the longest names. -/
theorem LongestCut.eq_cutCondition {parts : List ConditionPart} (h : registry.LongestCut parts)
    (hsource : parts.flatMap ConditionPart.source = text) : parts = registry.cutCondition text := by
  subst hsource
  induction parts with
  | nil => rw [List.flatMap_nil, cutCondition]
  | cons part parts ih =>
      have hparts : registry.LongestCut parts :=
        ⟨fun name after hsuffix => h.entity name after (hsuffix.trans (List.suffix_cons _ _)),
          fun after hsuffix => h.dollar after (hsuffix.trans (List.suffix_cons _ _))⟩
      rw [List.flatMap_cons]
      cases part with
      | entity name =>
          have hname := longestName?_eq_some_iff.2 (h.entity name parts List.suffix_rfl)
          rw [ConditionPart.source, List.cons_append, cutCondition, hname]
          dsimp only
          rw [← String.length_toList, List.drop_left, ← ih hparts]
      | kept c =>
          rw [ConditionPart.source, List.singleton_append]
          by_cases hc : c = '$'
          · subst hc
            have hnone := longestName?_eq_none_iff.2 (h.dollar parts List.suffix_rfl)
            rw [cutCondition, hnone, ← ih hparts]
          · rw [cutCondition, ← ih hparts]
            exact hc

/-- Ids have no part in where a condition is cut. -/
theorem cutCondition_congr {other : Registry}
    (h : ∀ name, (other.entityId? name).isSome = (registry.entityId? name).isSome)
    (text : List Char) : other.cutCondition text = registry.cutCondition text := by
  have hname : other.longestName? = registry.longestName? := by
    funext text
    simp only [longestName?, h]
  fun_induction cutCondition registry text with
  | case1 => rw [cutCondition]
  | case2 rest name hfound ih =>
      rw [cutCondition, hname, hfound]
      exact congrArg _ ih
  | case3 rest hnone ih =>
      rw [cutCondition, hname, hnone]
      exact congrArg _ ih
  | case4 c rest hc ih =>
      rw [cutCondition, ih]
      exact hc

/-! ## Replacing -/

theorem replaceNames_eq_flatMap_written (registry : Registry) (text : List Char) :
    replaceNames registry.namesLongestFirst text =
      (registry.cutCondition text).flatMap (ConditionPart.written registry.replaceWhole) := by
  fun_induction cutCondition registry text with
  | case1 => rw [replaceNames]; rfl
  | case2 rest name hname ih =>
      have hlongest := LongestName.of_longestName? hname
      obtain ⟨id, hid⟩ := Option.isSome_iff_exists.1 hlongest.registered
      have hmatch := matchName?_of_longestName hlongest hid hlongest.eq_append_drop.symm
      rw [replaceNames_of_eq_some hmatch, ih, List.flatMap_cons, ConditionPart.written,
        replaceWhole, hid, Option.getD_some, List.cons_append]
  | case3 rest hnone ih =>
      have hmatch := matchName?_eq_none_iff.2 (longestName?_eq_none_iff.1 hnone)
      rw [replaceNames_of_eq_none hmatch, ih]
      rfl
  | case4 c rest hc ih =>
      rw [replaceNames, ih]
      · rfl
      · exact hc

/-- What is written has the dollar signs of its source, but for those in the names that are
replaced and in what they are replaced with. -/
theorem count_dollar_written (rename : String → String) (parts : List ConditionPart) :
    let names := parts.filterMap ConditionPart.name?
    (parts.flatMap (ConditionPart.written rename)).count '$' +
        (names.flatMap String.toList).count '$' =
      (parts.flatMap ConditionPart.source).count '$' +
        (names.flatMap fun name => (rename name).toList).count '$' := by
  induction parts with
  | nil => rfl
  | cons part parts ih =>
      cases part with
      | kept c =>
          simp only [List.flatMap_cons, ConditionPart.source, ConditionPart.written,
            List.filterMap_cons, ConditionPart.name?, List.count_append] at ih ⊢
          omega
      | entity name =>
          simp only [List.flatMap_cons, ConditionPart.source, ConditionPart.written,
            List.filterMap_cons, ConditionPart.name?, List.count_append, List.count_cons] at ih ⊢
          omega

theorem replaceNames_nil (text : List Char) : replaceNames [] text = text := by
  induction text with
  | nil => rw [replaceNames]
  | cons c text ih =>
      by_cases hc : c = '$'
      · rw [hc, replaceNames_of_eq_none rfl, ih]
      · rw [replaceNames, ih]
        exact hc

/-- Names are replaced in one pass from the left: the condition is cut where the longest names
stand behind dollar signs, and of each such name only the name itself gives way, to the id. So what
ids there are has no part in what is replaced, all dollar signs outside of names are there
afterwards, and without entities nothing happens. -/
theorem resolveNames_in_one_pass (registry : Registry) (condition : String) :
    let parts := registry.cutCondition condition.toList
    let names := parts.filterMap ConditionPart.name?
    registry.resolveNames condition =
      String.ofList (parts.flatMap (ConditionPart.written registry.replaceWhole)) ∧
    (∀ other, other.flatMap ConditionPart.source = condition.toList ∧ registry.LongestCut other ↔
      other = parts) ∧
    (∀ other : Registry,
      (∀ name, (other.entityId? name).isSome = (registry.entityId? name).isSome) →
      other.cutCondition condition.toList = parts) ∧
    (registry.resolveNames condition).toList.count '$' +
        (names.flatMap String.toList).count '$' =
      condition.toList.count '$' +
        (names.flatMap fun name => (registry.replaceWhole name).toList).count '$' ∧
    (registry.entities = none → registry.resolveNames condition = condition) := by
  intro parts names
  have hsource := flatMap_source_cutCondition registry condition.toList
  have hwritten : registry.resolveNames condition =
      String.ofList (parts.flatMap (ConditionPart.written registry.replaceWhole)) := by
    rw [resolveNames, replaceNames_eq_flatMap_written]
  refine ⟨hwritten, fun other => ⟨fun h => h.2.eq_cutCondition h.1, ?_⟩,
    fun other h => cutCondition_congr h _, ?_, fun hnone => ?_⟩
  · rintro rfl
    exact ⟨hsource, longestCut_cutCondition registry _⟩
  · have hcount := count_dollar_written registry.replaceWhole parts
    rwa [hsource, ← String.toList_ofList (l := parts.flatMap _), ← hwritten] at hcount
  · have hnames : registry.namesLongestFirst = [] := by rw [namesLongestFirst, hnone]
    rw [resolveNames, hnames, replaceNames_nil, String.ofList_toList]

/-- Names may be empty, start with one another, or hold a dollar sign, as ids may. -/
theorem odd_names_are_replaced :
    let registry := ofEntities [("", "E0"), ("$x", "E$"), ("book", "$$x"), ("book_series", "E2")]
    let condition := "$books, $book_series; $ $$x"
    registry.cutCondition condition.toList =
        [.entity "book", .kept 's', .kept ',', .kept ' ', .entity "book_series", .kept ';',
          .kept ' ', .entity "", .kept ' ', .entity "$x"] ∧
      registry.resolveNames condition = "$$$xs, $E2; $E0 $E$" := by
  intro registry condition
  rw [(resolveNames_in_one_pass registry condition).1]
  decide +kernel

end Registry

end SchemaLink
