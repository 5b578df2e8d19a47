import SchemaLink.Proofs.Json.Records
import SchemaLink.Proofs.Json.WholeNumbers

/-! # Values that are read back

The tokens of a value are read as this value again if it is as it was kept and all numbers in it
are whole. What is put together of parts that are read back is read back itself. -/

namespace SchemaLink.Json

/-! ## Numbers in values -/

mutual

/-- All numbers in a value. -/
def numbers : Json → List Number
  | null | bool _ | string _ => []
  | number value => [value]
  | list items => itemNumbers items
  | object members => memberNumbers members

def itemNumbers : List Json → List Number
  | [] => []
  | item :: items => numbers item ++ itemNumbers items

def memberNumbers : List (String × Json) → List Number
  | [] => []
  | (_, value) :: members => numbers value ++ memberNumbers members

end

/-- All numbers in a value are whole. -/
def Whole (value : Json) : Prop := ∀ number ∈ value.numbers, number.Whole

instance : DecidablePred Whole := fun value =>
  inferInstanceAs (Decidable (∀ number ∈ value.numbers, number.Whole))

theorem whole_list {items : List Json} : (list items).Whole ↔ ∀ item ∈ items, item.Whole := by
  unfold Whole
  rw [numbers]
  induction items with
  | nil => simp [itemNumbers]
  | cons item items ih =>
      rw [itemNumbers, List.forall_mem_append, ih, List.forall_mem_cons]

theorem whole_object {members : List (String × Json)} :
    (object members).Whole ↔ ∀ member ∈ members, member.2.Whole := by
  unfold Whole
  rw [numbers]
  induction members with
  | nil => simp [memberNumbers]
  | cons member members ih =>
      rw [memberNumbers, List.forall_mem_append, ih, List.forall_mem_cons]

/-! ## Readers -/

theorem exists_tokens_cons (value : Json) :
    ∃ token more, value.tokens = token :: more ∧ token ≠ .closeList ∧
      (token = .null → value = .null) := by
  match value with
  | .null => exact ⟨.null, [], rfl, nofun, fun _ => rfl⟩
  | .bool _ | .number _ | .string _ | .list [] | .list (_ :: _) | .object []
  | .object (_ :: _) => exact ⟨_, _, rfl, nofun, nofun⟩

namespace Reader

variable {α β σ : Type} {reader : Reader α} {value : Json} {a : α}

/-- What is written is read back, if all numbers in it are whole. -/
def Restores (reader : Reader α) (value : Json) (a : α) : Prop :=
  value.Whole → ∀ rest, reader (value.tokens ++ rest) = .ok (a, rest)

theorem Restores.map (h : reader.Restores value a) (f : α → β) :
    (reader.map f).Restores value (f a) := by
  intro hwhole rest
  rw [Reader.map, h hwhole]
  rfl

theorem Restores.nullable (h : reader.Restores value a) (hvalue : value ≠ .null) :
    reader.nullable.Restores value (some a) := by
  intro hwhole rest
  rw [← h.map some hwhole rest]
  obtain ⟨token, more, htokens, -, hnull⟩ := exists_tokens_cons value
  rw [htokens, List.cons_append, Reader.nullable]
  rintro _ heq
  exact hvalue (hnull (List.cons.inj heq).1)

theorem string_restores (text : String) : Reader.string.Restores (.string text) text :=
  fun _ _ => rfl

/-- A complete text of a value is read back in any style. -/
theorem Restores.run_render (h : reader.Restores value a) (hwhole : value.Whole) {style : Style}
    (hstyle : style.Plain) : reader.run (value.render style) = .ok a := by
  have hread := h hwhole []
  rw [List.append_nil] at hread
  rw [Reader.run, scan_render hstyle, hread]

/-! ## Lists -/

section Items

variable {item : Reader α} {toJson : α → Json} {found : List α}

theorem length_le_itemTokens (items : List Json) : items.length ≤ (itemTokens items).length := by
  induction items with
  | nil => exact Nat.le_refl _
  | cons item items ih =>
      simp only [itemTokens, List.length_cons, List.length_append]
      omega

theorem moreItems_itemTokens (h : ∀ a ∈ found, item.Restores (toJson a) a)
    (hwhole : ∀ a ∈ found, (toJson a).Whole) {fuel : Nat} (hfuel : found.length ≤ fuel)
    (rest : List Token) :
    moreItems item fuel (itemTokens (found.map toJson) ++ .closeList :: rest) =
      .ok (found, rest) := by
  induction found generalizing fuel with
  | nil => cases fuel <;> rfl
  | cons a found ih =>
      obtain ⟨fuel, rfl⟩ : ∃ n, fuel = n + 1 := ⟨fuel - 1, by simp at hfuel; omega⟩
      rw [List.forall_mem_cons] at h hwhole
      simp only [List.map_cons, itemTokens, List.cons_append, List.append_assoc, moreItems,
        h.1 hwhole.1, Reader.map]
      rw [ih h.2 hwhole.2 (by simpa using hfuel)]
      rfl

theorem items_bodyTokens {a : α} (h : ∀ b ∈ a :: found, item.Restores (toJson b) b)
    (hwhole : ∀ b ∈ a :: found, (toJson b).Whole) (rest : List Token) :
    Reader.items item
        ((toJson a).tokens ++ (itemTokens (found.map toJson) ++ .closeList :: rest)) =
      .ok (a :: found, rest) := by
  rw [List.forall_mem_cons] at h hwhole
  have hfirst := h.1 hwhole.1 (itemTokens (found.map toJson) ++ .closeList :: rest)
  have hlength := length_le_itemTokens (found.map toJson)
  rw [List.length_map] at hlength
  obtain ⟨token, more, htokens, hopen, -⟩ := exists_tokens_cons (toJson a)
  rw [htokens, List.cons_append] at hfirst ⊢
  rw [Reader.items, hfirst]
  · dsimp only
    rw [Reader.map, moreItems_itemTokens h.2 hwhole.2 (by simp; omega)]
    rfl
  · rintro _ heq
    exact hopen (List.cons.inj heq).1

theorem list_restores {item : Nat → Reader α} {depth : Nat}
    (h : ∀ a ∈ found, (item depth).Restores (toJson a) a) :
    (Reader.list item (depth + 1)).Restores (.list (found.map toJson)) found := by
  intro hwhole rest
  have hitems : ∀ a ∈ found, (toJson a).Whole := by simpa [whole_list] using hwhole
  cases found with
  | nil => rfl
  | cons a found =>
      rw [List.map_cons, tokens, List.cons_append, List.append_assoc, List.append_assoc]
      exact items_bodyTokens h hitems rest

end Items

/-! ## Objects -/

section Members

variable {read : String → σ → Reader σ} {state middle last : σ} {written : List (String × Json)}

/-- Written members are read one after another, from one state to another. -/
inductive Passes (read : String → σ → Reader σ) : σ → List (String × Json) → σ → Prop
  | nil {state : σ} : Passes read state [] state
  | cons {state middle last : σ} {key : String} {value : Json} {members : List (String × Json)}
    (hread : ∀ rest, read key state (.colon :: (value.tokens ++ rest)) = .ok (middle, rest))
    (h : Passes read middle members last) : Passes read state ((key, value) :: members) last

theorem Passes.append {others : List (String × Json)} (h : Passes read state written middle)
    (hothers : Passes read middle others last) : Passes read state (written ++ others) last := by
  induction h with
  | nil => exact hothers
  | cons hread _ ih => exact .cons hread (ih hothers)

theorem Passes.moreMembers (h : Passes read state written last) {fuel : Nat}
    (hfuel : written.length ≤ fuel) (rest : List Token) :
    moreMembers read fuel state (memberTokens written ++ .closeObject :: rest) =
      .ok (last, rest) := by
  induction h generalizing fuel with
  | nil => cases fuel <;> rfl
  | cons hread _ ih =>
      obtain ⟨fuel, rfl⟩ : ∃ n, fuel = n + 1 := ⟨fuel - 1, by simp at hfuel; omega⟩
      simp only [memberTokens, List.cons_append, List.append_assoc, Reader.moreMembers, member,
        Reader.key, Except.map, hread]
      exact ih (by simpa using hfuel)

theorem Passes.members (h : Passes read state written last) (rest : List Token) :
    Reader.members read state (bodyTokens written ++ rest) = .ok (last, rest) := by
  cases h with
  | nil => rfl
  | @cons _ _ _ _ _ members hread h =>
      simp only [bodyTokens, List.cons_append, List.append_assoc, List.nil_append,
        Reader.members, member, Reader.key, Except.map, hread]
      have hlength := length_le_memberTokens members
      exact h.moreMembers (by simp only [List.length_append]; omega) rest

end Members

theorem dict_restores {item : Nat → Reader α} {toJson : α → Json} {map : SortedMap String α}
    {depth : Nat} (h : ∀ entry ∈ map.toList, (item depth).Restores (toJson entry.2) entry.2) :
    (Reader.dict item (depth + 1)).Restores
      (.object (map.toList.map fun entry => (entry.1, toJson entry.2))) map := by
  intro hwhole rest
  rw [whole_object, List.forall_mem_map] at hwhole
  have hfound : map.traverse (fun _ a => .ok a) = .ok (map.mapWithKey fun _ a => a) :=
    SortedMap.traverse_of_ok (ε := Fault) fun _ _ => rfl
  have hsame : map.mapWithKey (fun _ a => a) = map := SortedMap.ext (List.map_id _)
  have hitems : ∀ entry ∈ map.toList, ∀ rest, item depth ((toJson entry.2).tokens ++ rest) =
      (Except.ok entry.2 : Except Fault α).map fun a => (a, rest) :=
    fun entry hentry => h entry hentry (hwhole entry hentry)
  rw [dict_tokens depth map rest hitems, hfound, hsame]
  rfl

end Reader

/-! ## Values that are kept -/

/-- Members in key order are put in place one after another. -/
theorem passes_insertEntry {depth : Nat} {written : List (String × Json)}
    (h : ∀ member ∈ written, ∀ rest,
      Reader.value depth (member.2.tokens ++ rest) = .ok (member.2, rest))
    (found : SortedMap String Json) :
    Reader.Passes (fun name found => Reader.afterColon
        ((Reader.value depth).map fun v => SortedMap.insertEntry name v found))
      found.toList written
      (written.foldl (fun found member => found.insert member.1 member.2) found).toList := by
  induction written generalizing found with
  | nil => exact .nil
  | cons member written ih =>
      rw [List.forall_mem_cons] at h
      refine .cons (fun rest => ?_) (ih h.2 (found.insert member.1 member.2))
      rw [Reader.afterColon, Reader.map, h.1]
      rfl

theorem Settled.restores {depth : Nat} {value : Json} (h : value.Settled depth) :
    (Reader.value depth).Restores value value := by
  induction h with
  | null | bool _ | string _ =>
      intro hwhole rest
      unfold Reader.value
      rfl
  | number number =>
      intro hwhole rest
      have hkept := Number.kept_of_whole (hwhole number (.head _))
      rw [tokens, hkept]
      unfold Reader.value
      rfl
  | @list depth items h ih =>
      intro hwhole rest
      have hitems : ∀ item ∈ items, (Reader.value depth).Restores (id item) item := ih
      have hread := (Reader.list_restores hitems).map Json.list
      rw [List.map_id] at hread
      rw [← hread hwhole rest]
      unfold Reader.value
      cases items <;> rfl
  | @object depth members hkeys h ih =>
      intro hwhole rest
      rw [whole_object] at hwhole
      have hpasses := passes_insertEntry
        (fun member hmember => ih member hmember (hwhole member hmember)) .empty
      have hmembers : (SortedMap.ofList members).toList = members :=
        congrArg SortedMap.toList (SortedMap.ofList_toList ⟨members, hkeys⟩)
      rw [← SortedMap.ofList, hmembers] at hpasses
      rw [Reader.tokens_object, List.cons_append]
      unfold Reader.value
      exact congrArg (Except.map _) (hpasses.members rest)

/-! ## Records -/

namespace Record

variable {α β : Type} {form : Record α} {depth : Nat} {member : Member α}
  {members : List (Member α)} {record next last : α} {entries : List (String × Json)}

/-- Members are written in order, and a record is read back from them one after another. A member
that may be missing need not be written. -/
inductive Rebuilds (depth : Nat) : List (Member α) → α → List (String × Json) → α → Prop
  | nil {record : α} : Rebuilds depth [] record [] record
  | written {member : Member α} {members : List (Member α)} {record next last : α} {value : Json}
    {entries : List (String × Json)} (hread : (member.read depth record).Restores value next)
    (h : Rebuilds depth members next entries last) :
    Rebuilds depth (member :: members) record ((member.key, value) :: entries) last
  | missing {member : Member α} {members : List (Member α)} {record last : α}
    {entries : List (String × Json)} (hpresence : member.presence ≠ .required)
    (h : Rebuilds depth members record entries last) :
    Rebuilds depth (member :: members) record entries last

theorem find?_member (hkeys : form.keys.Nodup) (h : member ∈ form.members) :
    (form.members.find? fun other => other.key == member.key) = some member := by
  cases hfind : form.members.find? fun other => other.key == member.key with
  | none => simpa using List.find?_eq_none.1 hfind member h
  | some found =>
      have hkey : found.key = member.key := by simpa using List.find?_some hfind
      rw [List.inj_on_of_nodup_map hkeys (List.mem_of_find?_eq_some hfind) h hkey]

/-- A member that has not been seen yet is read from what is written for it. -/
theorem readMember_member (hkeys : form.keys.Nodup) (h : member ∈ form.members)
    {value : Json} (hread : (member.read depth record).Restores value next)
    (hwhole : value.Whole) {seen : List String} (hseen : member.key ∉ seen) (rest : List Token) :
    form.readMember depth member.key (record, seen) (.colon :: (value.tokens ++ rest)) =
      .ok ((next, member.key :: seen), rest) := by
  unfold readMember
  dsimp only
  rw [find?_member hkeys h]
  dsimp only
  rw [if_neg (by simpa using hseen), Reader.afterColon, Reader.map, hread hwhole]
  rfl

theorem Rebuilds.passes (h : Rebuilds depth members record entries last)
    (hkeys : form.keys.Nodup) (hmembers : members.Sublist form.members)
    (hwhole : ∀ entry ∈ entries, entry.2.Whole) {seen : List String}
    (hseen : ∀ member ∈ members, member.key ∉ seen) :
    ∃ seen', Reader.Passes (form.readMember depth) (record, seen) entries (last, seen') ∧
      seen ⊆ seen' ∧ ∀ member ∈ members, member.presence = .required → member.key ∈ seen' := by
  have hnodup : (members.map Member.key).Nodup := hkeys.sublist (hmembers.map _)
  induction h generalizing seen with
  | nil => exact ⟨seen, .nil, List.Subset.refl _, nofun⟩
  | @written member members _ _ _ value entries hread _ ih =>
      rw [List.forall_mem_cons] at hwhole hseen
      rw [List.map_cons, List.nodup_cons] at hnodup
      have hfresh : ∀ other ∈ members, other.key ∉ member.key :: seen := by
        intro other hother
        rw [List.mem_cons, not_or]
        exact ⟨fun heq => hnodup.1 (heq ▸ List.mem_map_of_mem hother), hseen.2 other hother⟩
      obtain ⟨seen', hpasses, hsubset, hrequired⟩ :=
        ih (List.sublist_of_cons_sublist hmembers) hwhole.2 hfresh hnodup.2
      have hmember : member ∈ form.members := hmembers.subset (by simp)
      refine ⟨seen', .cons (readMember_member hkeys hmember hread hwhole.1 hseen.1) hpasses,
        fun key hkey => hsubset (List.mem_cons_of_mem _ hkey), ?_⟩
      rw [List.forall_mem_cons]
      exact ⟨fun _ => hsubset (by simp), hrequired⟩
  | @missing member members _ _ entries hpresence _ ih =>
      rw [List.forall_mem_cons] at hseen
      rw [List.map_cons, List.nodup_cons] at hnodup
      obtain ⟨seen', hpasses, hsubset, hrequired⟩ :=
        ih (List.sublist_of_cons_sublist hmembers) hwhole hseen.2 hnodup.2
      refine ⟨seen', hpasses, hsubset, ?_⟩
      rw [List.forall_mem_cons]
      exact ⟨fun heq => absurd heq hpresence, hrequired⟩

/-- A member that is always written. -/
theorem Rebuilds.of {key : String} {presence : Presence} {reader : Nat → Reader β}
    {store : α → β → α} {b : β} {value : Json} (hvalue : (reader depth).Restores value b)
    (h : Rebuilds depth members (store record b) entries last) :
    Rebuilds depth (.of key presence reader store :: members) record ((key, value) :: entries)
      last :=
  .written (hvalue.map (store record)) h

theorem read_of_passes {written : List (String × Json)} {seen : List String}
    (h : Reader.Passes (form.readMember depth) (form.blank, []) written (record, seen))
    (hrequired : ∀ member ∈ form.members, member.presence = .required → member.key ∈ seen)
    (rest : List Token) :
    form.read (depth + 1) (tokens (.object written) ++ rest) = .ok (record, rest) := by
  have hcomplete : (form.members.all fun member =>
      member.presence != .required || seen.contains member.key) = true := by
    simpa [← Decidable.imp_iff_not_or] using hrequired
  rw [Reader.tokens_object, List.cons_append, read, readMembers, h.members]
  dsimp only
  rw [if_pos hcomplete]

/-- A closed record is read back from its members. -/
theorem restores_closed (hkeys : form.keys.Nodup)
    (h : Rebuilds depth form.members form.blank entries record) :
    (form.read (depth + 1)).Restores (.object entries) record := by
  intro hwhole rest
  rw [whole_object] at hwhole
  obtain ⟨seen, hpasses, -, hrequired⟩ :=
    h.passes hkeys (List.Sublist.refl _) hwhole fun _ _ => List.not_mem_nil
  exact read_of_passes hpasses hrequired rest

/-! ## Extra members that are read back -/

/-- Extra members as they are kept: under keys that are not modelled. -/
def SettledExtra (form : Record α) (depth : Nat) (extra : SortedMap String Json) : Prop :=
  ∀ entry ∈ extra.toList, entry.1 ∉ form.keys ∧ entry.2.Settled depth

theorem settledExtra_empty : form.SettledExtra depth ∅ := nofun

theorem SettledExtra.insert {extra : SortedMap String Json} {key : String} {value : Json}
    (h : form.SettledExtra depth extra) (hkey : key ∉ form.keys) (hvalue : value.Settled depth) :
    form.SettledExtra depth (extra.insert key value) := by
  intro entry hentry
  rcases SortedMap.mem_insertEntry hentry with rfl | hentry
  · exact ⟨hkey, hvalue⟩
  · exact h entry hentry

/-- An open record has a place for its extra members. -/
structure Collects (form : Record α) (extra : α → SortedMap String Json)
    (replace : α → SortedMap String Json → α) : Prop where
  keep : form.keep = some fun record key value => replace record ((extra record).insert key value)
  extra_replace : ∀ record members, extra (replace record members) = members
  replace_replace : ∀ record members others,
    replace (replace record members) others = replace record others
  replace_extra : ∀ record, replace record (extra record) = record

variable {extra : α → SortedMap String Json} {replace : α → SortedMap String Json → α}

theorem Collects.passes (h : form.Collects extra replace) {written : List (String × Json)}
    (hkeys : ∀ member ∈ written, member.1 ∉ form.keys ∧
      (Reader.value depth).Restores member.2 member.2)
    (hwhole : ∀ member ∈ written, member.2.Whole) (record : α) (seen : List String) :
    Reader.Passes (form.readMember depth) (record, seen) written
      (replace record (written.foldl (fun found member => found.insert member.1 member.2)
        (extra record)), seen) := by
  induction written generalizing record with
  | nil =>
      rw [List.foldl_nil, h.replace_extra]
      exact .nil
  | cons member written ih =>
      rw [List.forall_mem_cons] at hkeys hwhole
      have hnext := ih hkeys.2 hwhole.2 (replace record ((extra record).insert member.1 member.2))
      rw [h.extra_replace, h.replace_replace] at hnext
      refine .cons (fun rest => ?_) hnext
      have hfind : (form.members.find? fun other => other.key == member.1) = none := by
        refine List.find?_eq_none.2 fun other hother hkey => hkeys.1.1 ?_
        exact List.mem_map.2 ⟨other, hother, by simpa using hkey⟩
      unfold readMember
      dsimp only
      rw [hfind, h.keep]
      dsimp only
      rw [Reader.afterColon, Reader.map, hkeys.1.2 hwhole.1]
      rfl

/-- An open record is read back from its members, the extra ones last. -/
theorem Collects.restores (h : form.Collects extra replace) (hkeys : form.keys.Nodup)
    (hmembers : Rebuilds depth form.members form.blank entries (replace record ∅))
    (hextra : form.SettledExtra depth (extra record)) :
    (form.read (depth + 1)).Restores (.object (entries ++ (extra record).toList)) record := by
  intro hwhole rest
  rw [whole_object, List.forall_mem_append] at hwhole
  obtain ⟨seen, hpasses, -, hrequired⟩ :=
    hmembers.passes hkeys (List.Sublist.refl _) hwhole.1 fun _ _ => List.not_mem_nil
  have hlast := h.passes (fun entry hentry => ⟨(hextra entry hentry).1,
    (hextra entry hentry).2.restores⟩) hwhole.2 (replace record ∅) seen
  have hall : (extra record).toList.foldl (fun found member => found.insert member.1 member.2) ∅ =
      extra record := SortedMap.ofList_toList _
  rw [h.extra_replace, h.replace_replace, hall, h.replace_extra] at hlast
  exact read_of_passes (hpasses.append hlast) hrequired rest

end Record

end SchemaLink.Json
