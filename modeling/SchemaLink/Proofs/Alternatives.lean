import Mathlib.Data.List.Infix
import SchemaLink.Alternatives
import SchemaLink.Proofs.Distinct
import SchemaLink.Proofs.Text.Pieces

/-! # Alternatives that are joined

The pieces of a text join to it again. Other texts are the pieces of what they are joined to just if
none of them holds a separator and none but the last dangles, that is, ends in a separator but for
its last blank: behind such a text, a separator starts too soon. -/

namespace SchemaLink.Alternatives

/-! ## Cutting -/

/-- There is a separator in the text. -/
def HoldsSeparator (cs : List Char) : Prop := separator.toList <:+: cs

/-- The text ends in a separator but for its last blank. -/
def Dangles (cs : List Char) : Prop := separator.toList.dropLast <:+ cs

instance : DecidablePred HoldsSeparator := fun cs =>
  inferInstanceAs (Decidable (separator.toList <:+: cs))

instance : DecidablePred Dangles := fun cs =>
  inferInstanceAs (Decidable (separator.toList.dropLast <:+ cs))

variable {cs piece : List Char} {others : List (List Char)}

theorem cut_ne_nil (cs : List Char) : cut cs ≠ [] := by
  unfold cut
  split
  · simp
  · simp
  · split <;> simp

theorem cut_cons_of_not_prefix {c : Char} (h : ¬ separator.toList <+: c :: cs)
    (hcut : cut cs = piece :: others) : cut (c :: cs) = (c :: piece) :: others := by
  rw [cut.eq_3 c cs, hcut]
  rintro rest rfl rfl
  exact h ⟨rest, rfl⟩

theorem cut_of_not_holdsSeparator (h : ¬ HoldsSeparator cs) : cut cs = [cs] := by
  induction cs with
  | nil => rfl
  | cons c cs ih =>
      rw [HoldsSeparator, List.infix_cons_iff, not_or] at h
      exact cut_cons_of_not_prefix h.1 (ih h.2)

/-- Behind nothing but a text that dangles does a separator start too soon. -/
theorem not_prefix_append_separator (hne : cs ≠ []) (h : ¬ separator.toList <+: cs)
    (hend : cs ≠ separator.toList.dropLast) (rest : List Char) :
    ¬ separator.toList <+: cs ++ (separator.toList ++ rest) := by
  intro hprefix
  rcases List.prefix_or_prefix_of_prefix hprefix (List.prefix_append cs _) with hlong | hshort
  · exact h hlong
  · have hfront : cs ∈ separator.toList.inits := (List.mem_inits _ _).2 hshort
    have hinits : separator.toList.inits = [[], [' '], [' ', '$'], [' ', '$', '|'],
        [' ', '$', '|', '|'], separator.toList.dropLast, separator.toList] := by decide
    simp only [hinits, List.mem_cons, List.not_mem_nil, or_false] at hfront
    rcases hfront with rfl | rfl | rfl | rfl | rfl | rfl | rfl
    · exact hne rfl
    · simp [separator] at hprefix
    · simp [separator] at hprefix
    · simp [separator] at hprefix
    · simp [separator] at hprefix
    · exact hend rfl
    · exact h List.prefix_rfl

/-- A separator is found behind a text that holds none and does not dangle. -/
theorem cut_append_separator (h : ¬ HoldsSeparator cs) (hend : ¬ Dangles cs) (rest : List Char) :
    cut (cs ++ (separator.toList ++ rest)) = cs :: cut rest := by
  induction cs with
  | nil => rfl
  | cons c cs ih =>
      rw [HoldsSeparator, List.infix_cons_iff, not_or] at h
      rw [Dangles, List.suffix_cons_iff, not_or] at hend
      refine cut_cons_of_not_prefix ?_ (ih h.2 hend.2)
      exact not_prefix_append_separator (List.cons_ne_nil c cs) h.1 (Ne.symm hend.1) rest

theorem intercalate_cut (cs : List Char) : separator.toList.intercalate (cut cs) = cs := by
  fun_induction cut cs with
  | case1 => rfl
  | case2 rest ih =>
      obtain ⟨piece, others, hcut⟩ := List.exists_cons_of_ne_nil (cut_ne_nil rest)
      rw [hcut] at ih ⊢
      rw [List.intercalate_cons_cons, ih]
      rfl
  | case3 c rest _ hnil => exact absurd hnil (cut_ne_nil rest)
  | case4 c rest _ piece others hcut ih =>
      rw [hcut] at ih
      rw [← ih]
      cases others with
      | nil => rfl
      | cons next others => simp only [List.intercalate_cons_cons, List.cons_append]

/-- What is left behind the first of several pieces starts with a separator. -/
theorem exists_rest_of_cut (h : cut cs = piece :: others) :
    piece <+: cs ∧ (others ≠ [] → ∃ rest, cs = piece ++ (separator.toList ++ rest)) := by
  rw [← intercalate_cut cs, h]
  cases others with
  | nil => exact ⟨by simp, fun hne => absurd rfl hne⟩
  | cons next others =>
      rw [List.intercalate_cons_cons, List.append_assoc]
      exact ⟨List.prefix_append _ _, fun _ => ⟨_, rfl⟩⟩

theorem not_holdsSeparator_of_mem_cut (cs : List Char) :
    ∀ piece ∈ cut cs, ¬ HoldsSeparator piece := by
  fun_induction cut cs with
  | case1 => decide
  | case2 rest ih => exact List.forall_mem_cons.2 ⟨by decide, ih⟩
  | case3 c rest _ hnil => exact absurd hnil (cut_ne_nil rest)
  | case4 c rest hfront piece others hcut ih =>
      rw [hcut, List.forall_mem_cons] at ih
      refine List.forall_mem_cons.2 ⟨?_, ih.2⟩
      rw [HoldsSeparator, List.infix_cons_iff, not_or]
      refine ⟨fun hprefix => ?_, ih.1⟩
      obtain ⟨later, hlater⟩ := hprefix.trans
        ((List.prefix_cons_inj c).2 (exists_rest_of_cut hcut).1)
      obtain ⟨rfl, rfl⟩ := List.cons.inj hlater.symm
      exact hfront later rfl rfl

theorem not_dangles_of_mem_dropLast_cut (cs : List Char) :
    ∀ piece ∈ (cut cs).dropLast, ¬ Dangles piece := by
  fun_induction cut cs with
  | case1 => exact List.forall_mem_nil _
  | case2 rest ih =>
      rw [List.dropLast_cons_of_ne_nil (cut_ne_nil rest)]
      exact List.forall_mem_cons.2 ⟨by decide, ih⟩
  | case3 c rest _ hnil => exact absurd hnil (cut_ne_nil rest)
  | case4 c rest hfront piece others hcut ih =>
      by_cases hlast : others = []
      · rw [hlast]
        exact List.forall_mem_nil _
      · rw [hcut, List.dropLast_cons_of_ne_nil hlast, List.forall_mem_cons] at ih
        rw [List.dropLast_cons_of_ne_nil hlast]
        refine List.forall_mem_cons.2 ⟨?_, ih.2⟩
        rw [Dangles, List.suffix_cons_iff, not_or]
        refine ⟨fun hends => ?_, ih.1⟩
        obtain ⟨later, rfl⟩ := (exists_rest_of_cut hcut).2 hlast
        obtain ⟨rfl, rfl⟩ := List.cons.inj hends.symm
        exact hfront _ rfl rfl

/-! ## Joining -/

theorem pieces_ne_nil (text : String) : pieces text ≠ [] := fun h =>
  cut_ne_nil text.toList (List.map_eq_nil_iff.1 h)

theorem join_pieces (text : String) : join (pieces text) = text := by
  rw [← String.toList_inj, join, String.toList_intercalate, pieces, List.map_map]
  simp [Function.comp_def, intercalate_cut]

theorem suffix_of_mem_getLast?_pieces {text last : String} (h : last ∈ (pieces text).getLast?) :
    last.toList <:+ text.toList := by
  obtain ⟨front, hsplit⟩ := List.getLast?_eq_some_iff.1 h
  obtain ⟨before, hbefore⟩ := Text.exists_front_intercalate separator front
  rw [← join_pieces text, hsplit, join, hbefore, String.toList_append]
  exact List.suffix_append _ _

/-- Texts that can be told apart when they are joined. -/
structure Separable (texts : List String) : Prop where
  ne_nil : texts ≠ []
  not_holdsSeparator : ∀ text ∈ texts, ¬ HoldsSeparator text.toList
  not_dangles : ∀ text ∈ texts.dropLast, ¬ Dangles text.toList

theorem separable_pieces (text : String) : Separable (pieces text) where
  ne_nil := pieces_ne_nil text
  not_holdsSeparator := by
    simpa [pieces] using not_holdsSeparator_of_mem_cut text.toList
  not_dangles := by
    simpa [pieces, ← List.map_dropLast] using not_dangles_of_mem_dropLast_cut text.toList

variable {texts : List String}

theorem Separable.pieces_join (h : Separable texts) : pieces (join texts) = texts := by
  induction texts with
  | nil => exact absurd rfl h.ne_nil
  | cons text texts ih =>
      obtain ⟨htext, htexts⟩ := List.forall_mem_cons.1 h.not_holdsSeparator
      cases texts with
      | nil =>
          rw [join, String.intercalate_singleton, pieces, cut_of_not_holdsSeparator htext,
            List.map_singleton, String.ofList_toList]
      | cons next texts =>
          obtain ⟨hend, hends⟩ := List.forall_mem_cons.1 h.not_dangles
          have hpieces : pieces (join (next :: texts)) = next :: texts :=
            ih ⟨List.cons_ne_nil _ _, htexts, hends⟩
          rw [pieces, join] at hpieces ⊢
          rw [String.intercalate_cons_cons, String.append_assoc, String.toList_append,
            String.toList_append, cut_append_separator htext hend, List.map_cons, hpieces,
            String.ofList_toList]

/-- Every separator has blanks, also without its last one. -/
theorem separable_of_blank_not_mem (hne : texts ≠ []) (h : ∀ text ∈ texts, ' ' ∉ text.toList) :
    Separable texts where
  ne_nil := hne
  not_holdsSeparator text htext hholds := h text htext (hholds.subset (by decide))
  not_dangles text htext hends :=
    h text ((List.dropLast_subset _) htext) (hends.subset (by decide))

theorem pieces_of_blank_not_mem {text : String} (h : ' ' ∉ text.toList) : pieces text = [text] := by
  have hseparable : Separable [text] :=
    separable_of_blank_not_mem (List.cons_ne_nil _ _) (List.forall_mem_singleton.2 h)
  simpa only [join, String.intercalate_singleton] using hseparable.pieces_join

/-- A text that dangles stays the last if it is the last but for repetitions. -/
theorem Separable.distinct (h : Separable texts) : Separable (distinct texts) where
  ne_nil := mt distinct_eq_nil_iff.1 h.ne_nil
  not_holdsSeparator text htext := h.not_holdsSeparator text (mem_distinct.1 htext)
  not_dangles text htext := h.not_dangles text (mem_dropLast_of_mem_dropLast_distinct htext)

theorem items_foldl_push (alternatives : Alternatives) (texts : List String) :
    (texts.foldl push alternatives).items = insertAll alternatives.items texts := by
  induction texts generalizing alternatives with
  | nil => rfl
  | cons text texts ih => exact ih (alternatives.push text)

theorem items_ofList (texts : List String) : (ofList texts).items = SchemaLink.distinct texts :=
  items_foldl_push empty texts

theorem items_parse (text : String) : (parse text).items = SchemaLink.distinct (pieces text) :=
  items_ofList _

/-- Different texts are the alternatives of what they are joined to just if they are separable. -/
theorem items_parse_join_iff (h : texts.Nodup) :
    (parse (join texts)).items = texts ↔ Separable texts := by
  constructor
  · intro hitems
    rw [← hitems, items_parse]
    exact (separable_pieces _).distinct
  · intro hseparable
    rw [items_parse, hseparable.pieces_join, distinct_of_nodup h]

/-- A text is normalized by writing its alternatives out again. What is written has the same
alternatives, which are all different, and it is the text itself just if no piece of it comes up
twice. -/
theorem normalization_is_stable (text : String) :
    let normal := (parse text).render
    parse normal = parse text ∧ (parse text).items.Nodup ∧
      (normal = text ↔ (pieces text).Nodup) := by
  intro normal
  have hitems : (parse text).items.Nodup := by
    rw [items_parse]
    exact nodup_distinct _
  -- leaving repetitions out moves pieces together, and still no separator starts too soon
  have hpieces : pieces normal = (parse text).items := by
    refine Separable.pieces_join ?_
    rw [items_parse]
    exact (separable_pieces text).distinct
  refine ⟨?_, hitems, ?_, ?_⟩
  · have hagain : (parse normal).items = (parse text).items := by
      rw [items_parse, hpieces, distinct_of_nodup hitems]
    exact congrArg Alternatives.mk hagain
  · intro heq
    rwa [← hpieces, heq] at hitems
  · intro h
    have hall : (parse text).items = pieces text := by rw [items_parse, distinct_of_nodup h]
    exact (congrArg join hall).trans (join_pieces text)

/-! ## Text that no separator crosses -/

/-- Text without a blank, some character of which is in no separator. -/
structure Firm (cs : List Char) : Prop where
  blank_not_mem : ' ' ∉ cs
  exists_not_mem : ∃ c ∈ cs, c ∉ separator.toList

variable {front back : List Char}

theorem Firm.append (hfront : ' ' ∉ front) (h : Firm cs) : Firm (front ++ cs) where
  blank_not_mem := by simp [hfront, h.blank_not_mem]
  exists_not_mem := by
    obtain ⟨c, hc, hother⟩ := h.exists_not_mem
    exact ⟨c, List.mem_append_right _ hc, hother⟩

theorem firm_flatten {parts : List (List Char)} (hne : parts ≠ []) (h : ∀ part ∈ parts, Firm part) :
    Firm parts.flatten where
  blank_not_mem hblank := by
    obtain ⟨part, hpart, hblank⟩ := List.mem_flatten.1 hblank
    exact (h part hpart).blank_not_mem hblank
  exists_not_mem := by
    obtain ⟨part, hpart⟩ := List.exists_mem_of_ne_nil _ hne
    obtain ⟨c, hc, hother⟩ := (h part hpart).exists_not_mem
    exact ⟨c, List.mem_flatten_of_mem hpart hc, hother⟩

theorem Firm.not_subset_separator (h : Firm cs) : ¬ cs ⊆ separator.toList := by
  obtain ⟨c, hc, hother⟩ := h.exists_not_mem
  exact fun hsubset => hother (hsubset hc)

/-- No separator starts before the end of firm text and goes on behind it. -/
theorem Firm.eq_nil_of_prefix (h : Firm cs) {start : List Char}
    (hstart : start <+: separator.toList) (hend : start <:+ front ++ cs) : start = [] := by
  by_contra hne
  have hblank : ' ' ∈ start := by
    obtain ⟨c, rest, rfl⟩ := List.exists_cons_of_ne_nil hne
    rw [(List.cons_prefix_cons.1 hstart).1]
    exact List.mem_cons_self
  rcases List.suffix_or_suffix_of_suffix hend (List.suffix_append front cs) with hinside | haround
  · exact h.blank_not_mem (hinside.subset hblank)
  · exact h.not_subset_separator (List.Subset.trans haround.subset hstart.subset)

/-- No separator ends behind the start of firm text and has begun before it. -/
theorem Firm.eq_nil_of_suffix (h : Firm cs) {stop : List Char} (hstop : stop <:+ separator.toList)
    (hstart : stop <+: cs ++ back) : stop = [] := by
  by_contra hne
  have hblank : ' ' ∈ stop := by
    have htails : ∀ stop ∈ separator.toList.tails, stop ≠ [] → ' ' ∈ stop := by decide
    exact htails stop ((List.mem_tails _ _).2 hstop) hne
  rcases List.prefix_or_prefix_of_prefix hstart (List.prefix_append cs back) with hinside | haround
  · exact h.blank_not_mem (hinside.subset hblank)
  · exact h.not_subset_separator (List.Subset.trans haround.subset hstop.subset)

theorem Firm.holdsSeparator_iff (h : Firm cs) :
    HoldsSeparator (front ++ (cs ++ back)) ↔ HoldsSeparator front ∨ HoldsSeparator back := by
  constructor
  · intro hholds
    rcases List.infix_append_iff.1 hholds with hfront | hrest | ⟨start, stop, heq, hend, hstart⟩
    · exact .inl hfront
    · rcases List.infix_append_iff.1 hrest with hin | hback | ⟨start, stop, heq, hend, hstart⟩
      · exact absurd (hin.subset (by decide)) h.blank_not_mem
      · exact .inr hback
      · have hnil : start = [] := h.eq_nil_of_prefix ⟨stop, heq.symm⟩ (List.nil_append cs ▸ hend)
        rw [hnil, List.nil_append] at heq
        rw [HoldsSeparator, HoldsSeparator, heq]
        exact .inr hstart.isInfix
    · have hnil : stop = [] := h.eq_nil_of_suffix ⟨start, heq.symm⟩ hstart
      rw [hnil, List.append_nil] at heq
      rw [HoldsSeparator, HoldsSeparator, heq]
      exact .inl hend.isInfix
  · rintro (hfront | hback)
    · exact hfront.trans (List.prefix_append _ _).isInfix
    · rw [← List.append_assoc]
      exact hback.trans (List.suffix_append _ _).isInfix

theorem Firm.dangles_iff (h : Firm cs) : Dangles (front ++ (cs ++ back)) ↔ Dangles back := by
  rw [← List.append_assoc]
  constructor
  · intro hends
    rcases List.suffix_or_suffix_of_suffix hends (List.suffix_append _ back) with hin | ⟨start, heq⟩
    · exact hin
    · have hend : start <:+ front ++ cs := by
        obtain ⟨others, hends⟩ := hends
        rw [← heq, ← List.append_assoc] at hends
        exact ⟨others, List.append_cancel_right hends⟩
      have hstart : start <+: separator.toList :=
        (heq ▸ List.prefix_append start back).trans (List.dropLast_prefix _)
      rw [h.eq_nil_of_prefix hstart hend, List.nil_append] at heq
      exact heq ▸ List.suffix_rfl
  · exact fun hback => hback.trans (List.suffix_append _ _)

end SchemaLink.Alternatives
