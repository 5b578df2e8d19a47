import SchemaLink.Path.Lexeme
import SchemaLink.Proofs.SortedMap
import SchemaLink.Proofs.Text.Fronts
import SchemaLink.Registry.SystemNames

/-! # Entity names in conditions

Behind a dollar sign the longest registered name is found that the rest of the condition starts
with. A word that goes on behind the name is not looked at, so a word that is no entity name
itself is torn apart where it starts with one, unless the id of the entity is its name. -/

namespace SchemaLink

/-! ## Names in order of length -/

theorem insertByLength_perm (entry : String × String) (entries : List (String × String)) :
    (insertByLength entry entries).Perm (entry :: entries) := by
  induction entries with
  | nil => exact .refl _
  | cons other others ih =>
      rw [insertByLength]
      split
      · exact .refl _
      · exact (ih.cons other).trans (.swap entry other others)

theorem foldr_insertByLength_perm (entries : List (String × String)) :
    (entries.foldr insertByLength []).Perm entries := by
  induction entries with
  | nil => exact .refl _
  | cons entry entries ih => exact (insertByLength_perm entry _).trans (ih.cons entry)

/-- No name is shorter than a later one, lengths counted in bytes. -/
def LongestFirst (entries : List (String × String)) : Prop :=
  entries.Pairwise fun entry later => later.1.utf8ByteSize ≤ entry.1.utf8ByteSize

theorem longestFirst_insertByLength (entry : String × String) {entries : List (String × String)}
    (h : LongestFirst entries) : LongestFirst (insertByLength entry entries) := by
  induction entries with
  | nil => exact List.pairwise_singleton _ _
  | cons other others ih =>
      obtain ⟨hother, hothers⟩ := List.pairwise_cons.1 h
      rw [insertByLength]
      split
      · next hle =>
          refine List.pairwise_cons.2 ⟨List.forall_mem_cons.2 ⟨hle, fun later hlater => ?_⟩, h⟩
          exact (hother later hlater).trans hle
      · next hlt =>
          refine List.pairwise_cons.2 ⟨fun later hlater => ?_, ih hothers⟩
          rcases List.mem_cons.1 ((insertByLength_perm entry others).mem_iff.1 hlater) with
            rfl | hlater
          · exact Nat.le_of_not_le hlt
          · exact hother later hlater

theorem longestFirst_foldr (entries : List (String × String)) :
    LongestFirst (entries.foldr insertByLength []) := by
  induction entries with
  | nil => exact .nil
  | cons entry entries ih => exact longestFirst_insertByLength entry ih

namespace Registry

variable {registry : Registry} {text : List Char} {name id : String}

theorem mem_namesLongestFirst :
    (name, id) ∈ registry.namesLongestFirst ↔ registry.entityId? name = some id := by
  rw [namesLongestFirst, entityId?]
  cases registry.entities with
  | none => exact iff_of_false List.not_mem_nil nofun
  | some table => exact (foldr_insertByLength_perm _).mem_iff.trans SortedMap.find?_eq_some_iff.symm

theorem longestFirst_namesLongestFirst : LongestFirst registry.namesLongestFirst := by
  rw [namesLongestFirst]
  split
  · exact .nil
  · exact longestFirst_foldr _

/-! ## The longest name that a text starts with -/

/-- The text starts with the name, which is that of an entity, and with no longer one. -/
structure LongestName (registry : Registry) (text : List Char) (name : String) : Prop where
  registered : (registry.entityId? name).isSome
  starts : name.toList <+: text
  longest : ∀ other, (registry.entityId? other).isSome → other.toList <+: text →
    other.toList <+: name.toList

theorem LongestName.unique (h : registry.LongestName text name) {other : String}
    (h' : registry.LongestName text other) : name = other := by
  have hforth := h'.longest name h.registered h.starts
  have hback := h.longest other h'.registered h'.starts
  exact String.toList_inj.1 (hforth.eq_of_length_le hback.length_le)

end Registry

theorem stripLeading?_eq_some_iff {part text rest : List Char} :
    stripLeading? part text = some rest ↔ text = part ++ rest := by
  fun_induction stripLeading? part text with
  | case1 text => simp [eq_comm]
  | case2 => simp
  | case3 c part text ih => simp [ih]
  | case4 c part d text hne => simp [Ne.symm hne]

theorem stripLeading?_eq_none_iff {part text : List Char} :
    stripLeading? part text = none ↔ ¬ part <+: text := by
  rw [Option.eq_none_iff_forall_ne_some]
  simp only [ne_eq, stripLeading?_eq_some_iff, ← not_exists]
  exact not_congr (exists_congr fun _ => eq_comm)

namespace Registry

variable {registry : Registry} {text rest : List Char} {name id : String}

theorem matchName?_eq_none_iff :
    matchName? registry.namesLongestFirst text = none ↔
      ∀ name, (registry.entityId? name).isSome → ¬ name.toList <+: text := by
  simp only [matchName?, List.findSome?_eq_none_iff, Prod.forall, Option.map_eq_none_iff,
    stripLeading?_eq_none_iff, mem_namesLongestFirst, Option.isSome_iff_exists]
  exact ⟨fun h name ⟨id, hid⟩ => h name id hid, fun h name id hid => h name ⟨id, hid⟩⟩

theorem exists_longestName_of_matchName?
    (h : matchName? registry.namesLongestFirst text = some (id, rest)) :
    ∃ name, registry.LongestName text name ∧ registry.entityId? name = some id ∧
      text = name.toList ++ rest := by
  obtain ⟨before, ⟨name, id'⟩, after, hnames, hfound, hbefore⟩ := List.findSome?_eq_some_iff.1 h
  obtain ⟨rest', hstrip, heq⟩ := Option.map_eq_some_iff.1 hfound
  obtain ⟨rfl, rfl⟩ := Prod.mk.inj heq
  have htext := stripLeading?_eq_some_iff.1 hstrip
  have hid : registry.entityId? name = some id' := by
    rw [← mem_namesLongestFirst, hnames]
    exact List.mem_append_right _ List.mem_cons_self
  have hstarts : name.toList <+: text := ⟨rest', htext.symm⟩
  refine ⟨name, ⟨Option.isSome_iff_exists.2 ⟨id', hid⟩, hstarts, fun other hother hprefix => ?_⟩,
    hid, htext⟩
  obtain ⟨otherId, hotherId⟩ := Option.isSome_iff_exists.1 hother
  have hmem := mem_namesLongestFirst.2 hotherId
  have hsorted : LongestFirst registry.namesLongestFirst := longestFirst_namesLongestFirst
  rw [hnames] at hmem hsorted
  rcases List.mem_append.1 hmem with hearly | hlate
  · have hnone := stripLeading?_eq_none_iff.1 (Option.map_eq_none_iff.1 (hbefore _ hearly))
    exact absurd hprefix hnone
  · rcases List.mem_cons.1 hlate with heq | hlate
    · rw [(Prod.mk.inj heq).1]
    · refine prefix_of_utf8ByteSize_le hstarts hprefix ?_
      exact (List.pairwise_cons.1 (List.pairwise_append.1 hsorted).2.1).1 _ hlate

theorem matchName?_of_longestName (h : registry.LongestName text name)
    (hid : registry.entityId? name = some id) (htext : text = name.toList ++ rest) :
    matchName? registry.namesLongestFirst text = some (id, rest) := by
  cases hfound : matchName? registry.namesLongestFirst text with
  | none => exact absurd h.starts (matchName?_eq_none_iff.1 hfound name h.registered)
  | some found =>
      obtain ⟨other, hother, hotherId, hotherText⟩ := exists_longestName_of_matchName? hfound
      obtain rfl := h.unique hother
      rw [Option.some.inj (hid.symm.trans hotherId),
        List.append_cancel_left (htext.symm.trans hotherText)]

/-! ## Words -/

/-- Entities are named with the characters of names. -/
def HasPlainNames (registry : Registry) : Prop :=
  ∀ name, (registry.entityId? name).isSome → ∀ c ∈ name.toList, Lexeme.isNameChar c = true

/-- A word with the id of the longest entity name that it starts with in the place of the name. -/
def replaceFront (registry : Registry) (word : String) : String :=
  match matchName? registry.namesLongestFirst word.toList with
  | some (id, rest) => id ++ String.ofList rest
  | none => word

/-- The id of the entity that a word names, or else the word itself. -/
def replaceWhole (registry : Registry) (word : String) : String :=
  (registry.entityId? word).getD word

end Registry

/-- Replace the words behind dollar signs; they end where no character of names follows. -/
def replaceWords (f : String → String) (text : List Char) : List Char :=
  match text with
  | [] => []
  | '$' :: rest =>
    '$' :: (f (String.ofList (rest.takeWhile Lexeme.isNameChar))).toList ++
      replaceWords f (rest.dropWhile Lexeme.isNameChar)
  | c :: rest => c :: replaceWords f rest
termination_by text.length
decreasing_by
  · exact Nat.lt_succ_of_le (List.dropWhile_sublist _).length_le
  · simp

/-- The words behind dollar signs, in order. -/
def dollarWords (text : List Char) : List String :=
  text.tails.filterMap fun
    | '$' :: rest => some (String.ofList (rest.takeWhile Lexeme.isNameChar))
    | _ => none

theorem mem_dollarWords {text : List Char} {word : String} :
    word ∈ dollarWords text ↔
      ∃ rest, '$' :: rest <:+ text ∧ String.ofList (rest.takeWhile Lexeme.isNameChar) = word := by
  rw [dollarWords, List.mem_filterMap]
  constructor
  · rintro ⟨tail, htail, hword⟩
    split at hword
    · next rest => exact ⟨rest, (List.mem_tails _ _).1 htail, Option.some.inj hword⟩
    · cases hword
  · rintro ⟨rest, hrest, rfl⟩
    exact ⟨_, (List.mem_tails _ _).2 hrest, rfl⟩

theorem dollarWords_subset {text later : List Char} (h : later <:+ text) :
    dollarWords later ⊆ dollarWords text := fun word hword => by
  obtain ⟨rest, hrest, heq⟩ := mem_dollarWords.1 hword
  exact mem_dollarWords.2 ⟨rest, hrest.trans h, heq⟩

/-- What is put in the place of other words makes no difference. -/
theorem replaceWords_congr {f g : String → String} {text : List Char}
    (h : ∀ word ∈ dollarWords text, f word = g word) :
    replaceWords f text = replaceWords g text := by
  fun_induction replaceWords f text with
  | case1 => rw [replaceWords]
  | case2 rest ih =>
      have hrest : rest.dropWhile Lexeme.isNameChar <:+ '$' :: rest :=
        (List.dropWhile_suffix _).trans (List.suffix_cons _ _)
      rw [replaceWords, h _ (mem_dollarWords.2 ⟨rest, List.suffix_rfl, rfl⟩),
        ih fun word hword => h word (dollarWords_subset hrest hword)]
  | case3 c rest hc ih =>
      have hrest : rest <:+ c :: rest := List.suffix_cons c rest
      rw [replaceWords, ih fun word hword => h word (dollarWords_subset hrest hword)]
      exact hc

theorem replaceNames_of_eq_none {names : List (String × String)} {text : List Char}
    (h : matchName? names text = none) :
    replaceNames names ('$' :: text) = '$' :: replaceNames names text := by
  rw [replaceNames]
  split
  · next hfound => cases h.symm.trans hfound
  · rfl

theorem replaceNames_of_eq_some {names : List (String × String)} {text after : List Char}
    {id : String} (h : matchName? names text = some (id, after)) :
    replaceNames names ('$' :: text) = '$' :: (id.toList ++ replaceNames names after) := by
  rw [replaceNames]
  split
  · next hfound =>
      obtain ⟨rfl, rfl⟩ := Prod.mk.inj (Option.some.inj (h.symm.trans hfound))
      rfl
  · next hfound => cases h.symm.trans hfound

theorem replaceNames_append {names : List (String × String)} {front : List Char} (h : '$' ∉ front)
    (rest : List Char) : replaceNames names (front ++ rest) = front ++ replaceNames names rest := by
  induction front with
  | nil => rfl
  | cons c front ih =>
      obtain ⟨hc, hfront⟩ := not_or.1 (mt List.mem_cons.2 h)
      rw [List.cons_append, replaceNames, ih hfront, List.cons_append]
      exact fun heq => hc heq.symm

/-- A part with characters of one kind is looked for among the leading characters of this kind. -/
theorem stripLeading?_eq_map {p : Char → Bool} {part : List Char} (h : ∀ c ∈ part, p c = true)
    (text : List Char) :
    stripLeading? part text =
      (stripLeading? part (text.takeWhile p)).map (· ++ text.dropWhile p) := by
  induction part generalizing text with
  | nil => simp [stripLeading?]
  | cons c part ih =>
      obtain ⟨hc, hpart⟩ := List.forall_mem_cons.1 h
      cases text with
      | nil => rfl
      | cons d text =>
          by_cases hd : c = d
          · subst hd
            rw [List.takeWhile_cons_of_pos hc, List.dropWhile_cons_of_pos hc]
            simpa [stripLeading?] using ih hpart text
          · cases hkind : p d <;> simp [stripLeading?, hd, hkind]

theorem matchName?_cons (name id : String) (names : List (String × String)) (text : List Char) :
    matchName? ((name, id) :: names) text =
      match stripLeading? name.toList text with
      | some rest => some (id, rest)
      | none => matchName? names text := by
  cases hstrip : stripLeading? name.toList text <;> simp [matchName?, hstrip]

theorem matchName?_eq_map {p : Char → Bool} {names : List (String × String)}
    (h : ∀ entry ∈ names, ∀ c ∈ entry.1.toList, p c = true) (text : List Char) :
    matchName? names text = (matchName? names (text.takeWhile p)).map fun found =>
      (found.1, found.2 ++ text.dropWhile p) := by
  induction names with
  | nil => rfl
  | cons entry names ih =>
      obtain ⟨hentry, hnames⟩ := List.forall_mem_cons.1 h
      rw [matchName?_cons, matchName?_cons, stripLeading?_eq_map hentry text]
      cases stripLeading? entry.1.toList (text.takeWhile p) with
      | none => exact ih hnames
      | some rest => rfl

namespace Registry

variable {registry : Registry}

theorem HasPlainNames.forall_mem_namesLongestFirst (h : registry.HasPlainNames) :
    ∀ entry ∈ registry.namesLongestFirst, ∀ c ∈ entry.1.toList, Lexeme.isNameChar c = true :=
  fun ⟨name, id⟩ hentry => h name (Option.isSome_iff_exists.2 ⟨id, mem_namesLongestFirst.1 hentry⟩)

/-- If entities are named with characters of names, a name is looked for in one word at a time. -/
theorem HasPlainNames.replaceNames_eq (h : registry.HasPlainNames) (text : List Char) :
    replaceNames registry.namesLongestFirst text = replaceWords registry.replaceFront text := by
  fun_induction replaceWords registry.replaceFront text with
  | case1 => rw [replaceNames]
  | case2 rest ih =>
      have hword : ∀ c ∈ rest.takeWhile Lexeme.isNameChar, Lexeme.isNameChar c = true :=
        List.all_eq_true.1 List.all_takeWhile
      have hdollar {part : List Char} (hpart : part ⊆ rest.takeWhile Lexeme.isNameChar) :
          '$' ∉ part := fun hmem => absurd (hword _ (hpart hmem)) (by decide)
      have hmatch := matchName?_eq_map h.forall_mem_namesLongestFirst rest
      have hsplit := List.takeWhile_append_dropWhile (p := Lexeme.isNameChar) (l := rest)
      rw [replaceFront, String.toList_ofList, ← ih]
      cases hfound : matchName? registry.namesLongestFirst (rest.takeWhile Lexeme.isNameChar) with
      | none =>
          rw [hfound, Option.map_none] at hmatch
          have hrest : replaceNames registry.namesLongestFirst rest =
              rest.takeWhile Lexeme.isNameChar ++
                replaceNames registry.namesLongestFirst (rest.dropWhile Lexeme.isNameChar) := by
            rw [← replaceNames_append (hdollar (List.Subset.refl _)), hsplit]
          rw [replaceNames_of_eq_none hmatch, String.toList_ofList, hrest, List.cons_append]
      | some found =>
          obtain ⟨name, -, -, hname⟩ := exists_longestName_of_matchName? hfound
          rw [hfound, Option.map_some] at hmatch
          have hbehind : '$' ∉ found.2 := hdollar (hname ▸ List.subset_append_right _ _)
          rw [replaceNames_of_eq_some hmatch, replaceNames_append hbehind, String.toList_append,
            String.toList_ofList, List.cons_append, List.append_assoc]
  | case3 c rest hc ih => rw [replaceNames, ih]; exact hc

/-! ## Whole words -/

variable {word name id : String}

theorem replaceFront_of_longestName {rest : String} (h : registry.LongestName word.toList name)
    (hid : registry.entityId? name = some id) (hword : word = name ++ rest) :
    registry.replaceFront word = id ++ rest := by
  have hmatch := matchName?_of_longestName h hid (hword ▸ String.toList_append)
  rw [replaceFront, hmatch]
  dsimp only
  rw [String.ofList_toList]

/-- The longest name that a registered word starts with is the word itself. -/
theorem longestName_self (h : registry.entityId? word = some id) :
    registry.LongestName word.toList word where
  registered := Option.isSome_iff_exists.2 ⟨id, h⟩
  starts := List.prefix_rfl
  longest _ _ hprefix := hprefix

theorem replaceFront_of_registered (h : registry.entityId? word = some id) :
    registry.replaceFront word = id := by
  rw [replaceFront_of_longestName (longestName_self h) h (String.append_empty).symm,
    String.append_empty]

/-- The word is registered, or the longest name that it starts with, if any, is its own id. -/
def KeepsWhole (registry : Registry) (word : String) : Prop :=
  registry.entityId? word = none → ∀ name, registry.LongestName word.toList name →
    registry.entityId? name = some name

theorem replaceFront_eq_replaceWhole_iff :
    registry.replaceFront word = registry.replaceWhole word ↔ registry.KeepsWhole word := by
  unfold KeepsWhole
  cases hword : registry.entityId? word with
  | some id =>
      rw [replaceFront_of_registered hword, replaceWhole, hword]
      exact iff_of_true rfl nofun
  | none =>
      rw [replaceWhole, hword, Option.getD_none]
      constructor
      · intro hkept _ name hname
        obtain ⟨id, hid⟩ := Option.isSome_iff_exists.1 hname.registered
        obtain ⟨rest, hsplit⟩ := exists_eq_append hname.starts
        rw [replaceFront_of_longestName hname hid hsplit] at hkept
        rw [hid, (String.append_left_inj _).1 (hkept.trans hsplit)]
      · intro hnames
        cases hfound : matchName? registry.namesLongestFirst word.toList with
        | none => rw [replaceFront, hfound]
        | some found =>
            obtain ⟨name, hname, -, -⟩ := exists_longestName_of_matchName? hfound
            obtain ⟨rest, hsplit⟩ := exists_eq_append hname.starts
            rw [replaceFront_of_longestName hname (hnames rfl name hname) hsplit]
            exact hsplit.symm

/-- If entities are named with characters of names, each word of a condition has the longest name in
front of it replaced. Words that are no names stay whole just if these names are their own ids, and
a condition with nothing but such words and names has no word torn apart. -/
theorem resolveNames_eq_replaceWords (h : registry.HasPlainNames) :
    (∀ condition, registry.resolveNames condition =
      String.ofList (replaceWords registry.replaceFront condition.toList)) ∧
    (∀ name id rest, registry.LongestName (name ++ rest).toList name →
      registry.entityId? name = some id → registry.replaceFront (name ++ rest) = id ++ rest) ∧
    (∀ word, registry.replaceFront word = registry.replaceWhole word ↔ registry.KeepsWhole word) ∧
    ∀ condition, (∀ word ∈ dollarWords condition.toList, registry.KeepsWhole word) →
      registry.resolveNames condition =
        String.ofList (replaceWords registry.replaceWhole condition.toList) := by
  have hfront (condition : String) : registry.resolveNames condition =
      String.ofList (replaceWords registry.replaceFront condition.toList) := by
    rw [resolveNames, h.replaceNames_eq]
  refine ⟨hfront, fun name id rest hname hid => replaceFront_of_longestName hname hid rfl,
    fun word => replaceFront_eq_replaceWhole_iff, fun condition hwords => ?_⟩
  rw [hfront, replaceWords_congr fun word hword =>
    replaceFront_eq_replaceWhole_iff.2 (hwords word hword)]

/-- Some entities and their ids. -/
def ofEntities (entities : List (String × String)) : Registry where
  entities := some (.ofList entities)

theorem hasPlainNames_ofEntities {entities : List (String × String)}
    (h : (entities.all fun entity => entity.1.toList.all Lexeme.isNameChar) = true) :
    (ofEntities entities).HasPlainNames := by
  intro name hname
  obtain ⟨id, hid⟩ := Option.isSome_iff_exists.1 hname
  have hmem := SortedMap.mem_of_mem_ofList (SortedMap.find?_eq_some_iff.1 hid)
  exact List.all_eq_true.1 (List.all_eq_true.1 h (name, id) hmem)

/-- A series is not taken for a book if it is registered, and a pseudo-property is no entity. -/
theorem series_is_found_as_whole :
    let registry := ofEntities [("book", "E1"), ("book_series", "E2")]
    let condition := "$entity_type_name == $book || $entity_type_name == $book_series"
    registry.HasPlainNames ∧ (∀ word ∈ dollarWords condition.toList, registry.KeepsWhole word) ∧
      registry.resolveNames condition =
        "$entity_type_name == $E1 || $entity_type_name == $E2" := by
  intro registry condition
  have hplain : registry.HasPlainNames := hasPlainNames_ofEntities (by decide)
  have hwords : ∀ word ∈ dollarWords condition.toList, registry.entityId? word = none →
      ∀ entry ∈ registry.namesLongestFirst, ¬ entry.1.toList <+: word.toList := by
    decide +kernel
  have hkeeps : ∀ word ∈ dollarWords condition.toList, registry.KeepsWhole word := by
    intro word hword hnone name hname
    obtain ⟨id, hid⟩ := Option.isSome_iff_exists.1 hname.registered
    exact absurd hname.starts (hwords word hword hnone _ (mem_namesLongestFirst.2 hid))
  refine ⟨hplain, hkeeps, ?_⟩
  rw [(resolveNames_eq_replaceWords hplain).2.2.2 condition hkeeps]
  decide +kernel

/-- A series that is not registered is torn apart. -/
theorem series_is_torn_apart :
    let registry := ofEntities [("book", "E1")]
    let condition := "$entity_type_name == $book_series"
    registry.HasPlainNames ∧ registry.entityId? "book_series" = none ∧
      String.ofList (replaceWords registry.replaceWhole condition.toList) = condition ∧
      registry.resolveNames condition = "$entity_type_name == $E1_series" := by
  refine ⟨hasPlainNames_ofEntities (by decide), ?_⟩
  decide +kernel

end Registry

end SchemaLink
