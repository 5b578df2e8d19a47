import SchemaLink.Proofs.Json.Taking

/-! # What records keep

A record is read from an object member by member, or from a list in the order of the
modelled keys. An open record keeps what stands last under every other key, and each
modelled member is stored in a place of its own. -/

namespace SchemaLink.Json

open Reader (Takes)

/-! ## Members by key -/

namespace Written

/-- The members that a record is read from. In a list they stand in the order of the keys. -/
def members (keys : List String) : Written → List (String × Written)
  | object members =>
    members.filterMap fun (key, value) => key.kept.toOption.map fun name => (name, value)
  | list items => keys.zip items
  | _ => []

/-- The last of the members with a key. -/
def lastOf (key : String) (members : List (String × Written)) : Option Written :=
  members.reverse.lookup key

/-- What a record is read from stands last under a key. -/
def last? (written : Written) (keys : List String) (key : String) : Option Written :=
  lastOf key (written.members keys)

theorem members_concat (keys : List String) (members : List (Quotation × Written))
    {key : Quotation} {name : String} (h : key.kept = .ok name) (value : Written) :
    (object (members ++ [(key, value)])).members keys =
      (object members).members keys ++ [(name, value)] := by
  simp [Written.members, List.filterMap_append, h, Except.toOption]

@[simp] theorem lastOf_nil (key : String) : lastOf key [] = none := rfl

@[simp] theorem lastOf_concat (key name : String) (members : List (String × Written))
    (value : Written) :
    lastOf key (members ++ [(name, value)]) =
      if key = name then some value else lastOf key members := by
  rw [lastOf, List.reverse_append, List.reverse_singleton, List.singleton_append,
    List.lookup_cons]
  by_cases h : key = name
  · simp [h]
  · rw [if_neg h, beq_false_of_ne h]
    rfl

end Written

/-- A member is one written value, whatever else it is. -/
def Member.Proper {α : Type} (member : Member α) : Prop :=
  ∀ depth record, (member.read depth record).Takes fun _ _ => True

namespace Record

variable {α : Type} {form : Record α}

def keys (form : Record α) : List String := form.members.map Member.key

/-! ## One member after another -/

/-- Every modelled member of a record is one written value. -/
def Proper (form : Record α) : Prop := ∀ member ∈ form.members, member.Proper

/-- What reading a record keeps of the members so far, which nest so many levels at most. -/
structure Invariant (form : Record α) (depth : Nat)
    (inv : List (String × Written) → α → Prop) : Prop where
  blank : inv [] form.blank
  member : ∀ member ∈ form.members, ∀ done record, inv done record →
    (member.read depth record).Takes fun written after =>
      inv (done ++ [(member.key, written)]) after
  skip : form.keep = none → ∀ key ∉ form.keys, ∀ done record written, inv done record →
    inv (done ++ [(key, written)]) record
  keep : ∀ keep, form.keep = some keep → ∀ key ∉ form.keys, ∀ done record written value,
    inv done record → written.value = some value → value.Settled depth →
      inv (done ++ [(key, written)]) (keep record key value)

namespace Invariant

variable {depth : Nat} {inv : List (String × Written) → α → Prop}

theorem extends_readMember (h : form.Invariant depth inv) :
    Reader.Extends (form.readMember depth) fun done state =>
      inv ((Written.object done).members form.keys) state.1 := by
  rintro done key name ⟨record, seen⟩ tokens ⟨after, seen'⟩ rest hkey hinv hread
  simp only [Written.members_concat form.keys done hkey]
  unfold readMember at hread
  dsimp only at hread
  cases hfind : form.members.find? fun member => member.key == name with
  | some member =>
      obtain rfl : member.key = name := by simpa using List.find?_some hfind
      rw [hfind] at hread
      dsimp only at hread
      split at hread
      · cases hread
      · have htakes : ((member.read depth record).map fun record =>
            (record, member.key :: seen)).Takes fun written state =>
              inv ((Written.object done).members form.keys ++ [(member.key, written)]) state.1 :=
          (h.member member (List.mem_of_find?_eq_some hfind) _ record hinv).map
            fun _ _ hafter => hafter
        exact htakes.afterColon hread
  | none =>
      have hname : name ∉ form.keys := by
        intro hmem
        rcases List.mem_map.1 hmem with ⟨member, hmember, rfl⟩
        simpa using List.find?_eq_none.1 hfind member hmember
      rw [hfind] at hread
      dsimp only at hread
      cases hkeep : form.keep with
      | none =>
          rw [hkeep] at hread
          have htakes : (Reader.skip.map fun _ => (record, seen)).Takes fun written state =>
              inv ((Written.object done).members form.keys ++ [(name, written)]) state.1 :=
            Reader.skip_takes.map fun written _ _ => h.skip hkeep name hname _ record written hinv
          exact htakes.afterColon hread
      | some keep =>
          rw [hkeep] at hread
          have htakes : ((Reader.value depth).map fun v =>
              (keep record name v, seen)).Takes fun written state =>
                inv ((Written.object done).members form.keys ++ [(name, written)]) state.1 :=
            (Reader.value_takes_settled depth).map fun written value hvalue =>
              h.keep keep hkeep name hname _ record written value hinv hvalue.1 hvalue.2
          exact htakes.afterColon hread

theorem readEnd_eq_ok {members : List (Member α)} {record after : α} {tokens rest : List Token}
    (h : readEnd members record tokens = .ok (after, rest)) :
    after = record ∧ rest = tokens ∧ ∀ member ∈ members, member.presence = .defaulted := by
  unfold readEnd at h
  split at h
  · next hdefaulted =>
    cases h
    exact ⟨rfl, rfl, by simpa using hdefaulted⟩
  · cases h

/-- After a member by position, the list ends where only members with defaults are left or goes on
with the next one. -/
theorem readMorePositions_eq_ok {depth : Nat} {members : List (Member α)} {record after : α}
    {tokens rest : List Token}
    (h : readMorePositions depth members record tokens = .ok (after, rest)) :
    (tokens = .closeList :: rest ∧ after = record ∧
        ∀ member ∈ members, member.presence = .defaulted) ∨
      ∃ member others next middle more, members = member :: others ∧ tokens = .comma :: more ∧
        member.read depth record more = .ok (next, middle) ∧
        readMorePositions depth others next middle = .ok (after, rest) := by
  unfold readMorePositions at h
  split at h
  · obtain ⟨rfl, rfl, hdefaulted⟩ := readEnd_eq_ok h
    exact .inl ⟨rfl, rfl, hdefaulted⟩
  · next member others more =>
    cases hmember : member.read depth record more with
    | error fault => rw [hmember] at h; cases h
    | ok found =>
        rw [hmember] at h
        exact .inr ⟨member, others, found.1, found.2, more, rfl, rfl, hmember, h⟩
  · cases h
  · cases h

/-- Members by position extend what is known of the ones before. -/
theorem readMorePositions_takes (h : form.Invariant depth inv) {members : List (Member α)}
    (hmembers : ∀ member ∈ members, member ∈ form.members)
    {done : List (String × Written)} {record after : α} {tokens rest : List Token}
    (hinv : inv done record)
    (hread : readMorePositions depth members record tokens = .ok (after, rest)) :
    ∃ items, tokens = Written.itemTokens items ++ rest ∧
      inv (done ++ (members.map Member.key).zip items) after := by
  induction members generalizing done record tokens with
  | nil =>
      rcases readMorePositions_eq_ok hread with ⟨rfl, rfl, -⟩ | ⟨_, _, _, _, _, hnil, -⟩
      · exact ⟨[], rfl, by simpa using hinv⟩
      · cases hnil
  | cons member members ih =>
      rcases readMorePositions_eq_ok hread with
        ⟨rfl, rfl, -⟩ | ⟨_, _, next, middle, more, hcons, rfl, hmember, hmore⟩
      · exact ⟨[], rfl, by simpa using hinv⟩
      · cases hcons
        obtain ⟨written, rfl, hnext⟩ :=
          h.member member (hmembers member (by simp)) done record hinv _ _ _ hmember
        obtain ⟨items, rfl, hafter⟩ :=
          ih (fun member hmem => hmembers member (List.mem_cons_of_mem _ hmem)) hnext hmore
        refine ⟨written :: items, ?_, ?_⟩
        · rw [Written.itemTokens, List.cons_append, List.append_assoc]
        · rwa [List.append_assoc] at hafter

theorem readPositions_takes (h : form.Invariant depth inv) {after : α} {tokens rest : List Token}
    (hread : form.readPositions depth tokens = .ok (after, rest)) :
    ∃ items, tokens = Written.listTokens items ++ rest ∧
      inv ((Written.list items).members form.keys) after := by
  unfold readPositions at hread
  split at hread
  · obtain ⟨rfl, rfl, -⟩ := readEnd_eq_ok hread
    exact ⟨[], rfl, by simpa [Written.members] using h.blank⟩
  · cases hread
  · cases hread
  · next tokens _ _ member members hmembers _ =>
    cases hmember : member.read depth form.blank tokens with
    | error fault => rw [hmember] at hread; cases hread
    | ok found =>
        rw [hmember] at hread
        have hmem : ∀ member' ∈ member :: members, member' ∈ form.members := by simp [hmembers]
        obtain ⟨written, rfl, hnext⟩ :=
          h.member member (hmem member (by simp)) [] form.blank h.blank _ _ _ hmember
        obtain ⟨items, hrest, hafter⟩ := h.readMorePositions_takes
          (fun member' hmember' => hmem member' (List.mem_cons_of_mem _ hmember')) hnext hread
        refine ⟨written :: items, ?_, ?_⟩
        · rw [hrest, Written.listTokens, List.append_assoc]
        · rw [Written.members, keys, hmembers]
          exact hafter

/-- What every member extends is known of the whole record. -/
theorem takes (h : form.Invariant (depth - 1) inv) :
    (form.read depth).Takes fun written after => inv (written.members form.keys) after := by
  intro tokens after rest hread
  unfold read at hread
  split at hread
  · next tokens =>
    cases depth with
    | zero => cases hread
    | succ depth =>
        dsimp only at hread
        unfold readMembers at hread
        cases hmembers : Reader.members (form.readMember depth) (form.blank, []) tokens with
        | error fault => rw [hmembers] at hread; cases hread
        | ok found =>
            rw [hmembers] at hread
            dsimp only at hread
            split at hread
            · cases hread
              have hblank : inv ((Written.object []).members form.keys) form.blank := h.blank
              obtain ⟨members, rfl, hinv⟩ :=
                Reader.members_takes h.extends_readMember hblank hmembers
              exact ⟨.object members, rfl, hinv⟩
            · cases hread
  · next tokens =>
    split at hread
    · cases hread
    · cases depth with
      | zero => cases hread
      | succ depth =>
          obtain ⟨items, rfl, hinv⟩ := h.readPositions_takes hread
          exact ⟨.list items, rfl, hinv⟩
  · exact absurd hread (Reader.mismatch_ne_ok _ _)

end Invariant

/-- What every member keeps true of a record is true of the whole one. -/
theorem takes_of_members {p : α → Prop} {depth : Nat} (hblank : p form.blank)
    (hmembers : ∀ member ∈ form.members, ∀ record, p record →
      (member.read (depth - 1) record).Takes fun _ after => p after)
    (hkeep : ∀ keep, form.keep = some keep → ∀ key ∉ form.keys, ∀ record value, p record →
      value.Settled (depth - 1) → p (keep record key value)) :
    (form.read depth).Takes fun _ after => p after := by
  have hinvariant : form.Invariant (depth - 1) fun _ record => p record :=
    ⟨hblank, fun member hmember _ record => hmembers member hmember record,
      fun _ _ _ _ _ _ h => h,
      fun keep hsome key hkey _ record _ value h _ => hkeep keep hsome key hkey record value h⟩
  exact hinvariant.takes

end Record

/-! ## Parts of a record -/

variable {α β γ : Type}

/-- Whatever is read as the member, a part of the record stays as it is. -/
def Member.Leaves (member : Member α) (part : α → γ) : Prop :=
  ∀ depth record tokens after rest, member.read depth record tokens = .ok (after, rest) →
    part after = part record

theorem Member.leaves_of {key : String} {presence : Presence} {reader : Nat → Reader β}
    {store : α → β → α} {part : α → γ} (h : ∀ record b, part (store record b) = part record) :
    (Member.of key presence reader store).Leaves part := by
  intro depth record tokens after rest hread
  obtain ⟨b, -, rfl⟩ := Reader.map_eq_ok hread
  exact h record b

theorem Member.proper_of {key : String} {presence : Presence} {reader : Nat → Reader β}
    {store : α → β → α} {spells : Written → β → Prop} (h : ∀ depth, (reader depth).Takes spells) :
    (Member.of key presence reader store).Proper :=
  fun depth _ => (h depth).map fun _ _ _ => trivial

theorem Member.stores_of {key : String} {presence : Presence} {reader : Nat → Reader β}
    {store : α → β → α} {part : α → β} {spells : Written → β → Prop}
    (hpart : ∀ record b, part (store record b) = b) (h : ∀ depth, (reader depth).Takes spells)
    (depth : Nat) (record : α) :
    ((Member.of key presence reader store).read depth record).Takes fun written after =>
      spells written (part after) :=
  (h depth).map fun _ b hspells => by rwa [hpart record b]

/-- What is read for a member that may be missing. -/
def Written.Spells (spells : Written → γ → Prop) (missing : γ) : Option Written → γ → Prop
  | none, found => found = missing
  | some written, found => spells written found

theorem Written.Spells.imp {δ : Type} {spells : Written → γ → Prop} {spells' : Written → δ → Prop}
    {missing found : γ} {missing' found' : δ} {part : Option Written}
    (h : Spells spells missing part found) (hmissing : found = missing → found' = missing')
    (hspells : ∀ written, spells written found → spells' written found') :
    Spells spells' missing' part found' := by
  cases part with
  | none => exact hmissing h
  | some written => exact hspells written h

theorem Written.Spells.missing_or {spells : Written → γ → Prop} {missing found : γ}
    {part : Option Written} (h : Spells spells missing part found) :
    found = missing ∨ ∃ written, spells written found := by
  cases part with
  | none => exact .inl h
  | some written => exact .inr ⟨written, h⟩

namespace Record

variable {form : Record α}

/-- One member of a record is stored in a part that all others leave alone. -/
structure Stores (form : Record α) (key : String) (part : α → γ) (spells : Written → γ → Prop) :
    Prop where
  mem : key ∈ form.keys
  members : ∀ member ∈ form.members,
    (member.key = key ∧ ∀ depth record, (member.read depth record).Takes fun written after =>
      spells written (part after)) ∨ (member.key ≠ key ∧ member.Leaves part)
  keep : ∀ keep, form.keep = some keep → ∀ record key value,
    part (keep record key value) = part record

theorem Stores.takes {key : String} {part : α → γ} {spells : Written → γ → Prop}
    (h : form.Stores key part spells) (hproper : form.Proper) (depth : Nat) :
    (form.read depth).Takes fun written after =>
      Written.Spells spells (part form.blank) (written.last? form.keys key) (part after) := by
  have hinvariant : form.Invariant (depth - 1) fun done record =>
      Written.Spells spells (part form.blank) (Written.lastOf key done) (part record) := by
    refine ⟨rfl, ?_, ?_, ?_⟩
    · intro member hmember done record hdone tokens after rest hread
      rcases h.members member hmember with ⟨rfl, hpart⟩ | ⟨hkey, hleaves⟩
      · obtain ⟨written, rfl, hspells⟩ := hpart _ record _ _ _ hread
        refine ⟨written, rfl, ?_⟩
        simpa [Written.Spells] using hspells
      · obtain ⟨written, rfl, -⟩ := hproper member hmember _ record _ _ _ hread
        refine ⟨written, rfl, ?_⟩
        dsimp only
        rw [Written.lastOf_concat, if_neg hkey.symm, hleaves _ record _ _ _ hread]
        exact hdone
    · intro _ name hname done record written hdone
      rwa [Written.lastOf_concat, if_neg fun heq : key = name => hname (heq ▸ h.mem)]
    · intro keep hkeep name hname done record written value hdone _ _
      rw [Written.lastOf_concat, if_neg fun heq : key = name => hname (heq ▸ h.mem),
        h.keep keep hkeep]
      exact hdone
  exact hinvariant.takes

end Record

/-! ## Extra members -/

/-- The members under other keys than the modelled ones are extra, each as it stands last. -/
structure Written.Kept (keys : List String) (members : List (String × Written))
    (extra : SortedMap String Json) : Prop where
  others : ∀ key ∉ keys, (lastOf key members).map value = (extra.find? key).map some
  modelled : ∀ key ∈ keys, extra.find? key = none

/-- An open record keeps its extra members in a map. -/
structure Record.Keeps (form : Record α) (extra : α → SortedMap String Json) : Prop where
  blank : extra form.blank = ∅
  members : ∀ member ∈ form.members, member.Leaves extra
  keep : ∃ keep, form.keep = some keep ∧ ∀ record key value,
    extra (keep record key value) = (extra record).insert key value

theorem Record.Keeps.takes {form : Record α} {extra : α → SortedMap String Json}
    (h : form.Keeps extra) (hproper : form.Proper) (depth : Nat) :
    (form.read depth).Takes fun written after =>
      Written.Kept form.keys (written.members form.keys) (extra after) := by
  obtain ⟨keep, hkeep, hextra⟩ := h.keep
  have hinvariant : form.Invariant (depth - 1) fun done record =>
      Written.Kept form.keys done (extra record) := by
    refine ⟨⟨fun key _ => ?_, fun key _ => ?_⟩, ?_, ?_, ?_⟩
    · rw [h.blank]
      rfl
    · rw [h.blank]
      rfl
    · intro member hmember done record hdone tokens after rest hread
      obtain ⟨written, rfl, -⟩ := hproper member hmember _ record _ _ _ hread
      have hsame := h.members member hmember _ record _ _ _ hread
      have hkey : member.key ∈ form.keys := List.mem_map_of_mem hmember
      refine ⟨written, rfl, fun key hkeys => ?_, fun key hkeys => ?_⟩
      · rw [Written.lastOf_concat, if_neg fun heq : key = member.key => hkeys (heq ▸ hkey), hsame]
        exact hdone.others key hkeys
      · rw [hsame]
        exact hdone.modelled key hkeys
    · intro hclosed
      rw [hkeep] at hclosed
      cases hclosed
    · intro keep' hkeep' name hname done record written value hdone hvalue _
      obtain rfl : keep = keep' := Option.some.inj (hkeep.symm.trans hkeep')
      refine ⟨fun key hkeys => ?_, fun key hkeys => ?_⟩
      · rw [Written.lastOf_concat, hextra]
        by_cases heq : key = name
        · subst heq
          rw [if_pos rfl, SortedMap.find?_insert_self, Option.map_some, hvalue]
          rfl
        · rw [if_neg heq, SortedMap.find?_insert_of_ne heq]
          exact hdone.others key hkeys
      · have hne : key ≠ name := fun heq => hname (heq ▸ hkeys)
        rw [hextra, SortedMap.find?_insert_of_ne hne]
        exact hdone.modelled key hkeys
  exact hinvariant.takes

/-- Of every key that is not modelled, an object has the value that is written last, and no
other. -/
def Written.CarriedTo (written : Written) (keys : List String) (json : Json) : Prop :=
  ∃ members, json = .object members ∧ ∀ key ∉ keys,
    ((members.filter fun member => member.1 = key).map fun member => some member.2) =
      ((written.last? keys key).map value).toList

/-- How a record is written: modelled members and then the extra ones. -/
def WritesExtra (keys : List String) (extra : α → SortedMap String Json) (toJson : α → Json) :
    Prop :=
  ∀ record, ∃ modelled, toJson record = .object (modelled ++ (extra record).toList) ∧
    ∀ member ∈ modelled, member.1 ∈ keys

section Writing

variable {keys : List String} {extra : α → SortedMap String Json} {toJson : α → Json}

theorem WritesExtra.filter_eq (h : WritesExtra keys extra toJson) (record : α) :
    ∃ members, toJson record = .object members ∧ ∀ key ∉ keys,
      (members.filter fun member => member.1 = key) =
        ((extra record).find? key).toList.map fun value => (key, value) := by
  obtain ⟨modelled, hjson, hkeys⟩ := h record
  refine ⟨_, hjson, fun key hkey => ?_⟩
  have hnone : (modelled.filter fun member => member.1 = key) = [] :=
    List.filter_eq_nil_iff.2 fun member hmem => by
      simpa using fun heq : member.1 = key => hkey (heq ▸ hkeys member hmem)
  rw [List.filter_append, hnone, List.nil_append, SortedMap.filter_toList]

theorem WritesExtra.carriedTo (h : WritesExtra keys extra toJson) {written : Written} {record : α}
    (hkept : Written.Kept keys (written.members keys) (extra record)) :
    written.CarriedTo keys (toJson record) := by
  obtain ⟨members, hjson, hmembers⟩ := h.filter_eq record
  refine ⟨members, hjson, fun key hkey => ?_⟩
  rw [hmembers key hkey, Written.last?, hkept.others key hkey]
  cases (extra record).find? key <;> rfl

/-- Records with the same extra members carry the same. -/
theorem WritesExtra.carriedTo_congr (h : WritesExtra keys extra toJson) {written : Written}
    {record other : α} (hsame : extra other = extra record)
    (hcarried : written.CarriedTo keys (toJson record)) :
    written.CarriedTo keys (toJson other) := by
  obtain ⟨members, hjson, hmembers⟩ := h.filter_eq record
  obtain ⟨members', hjson', hmembers'⟩ := h.filter_eq other
  obtain ⟨found, hfound, hlast⟩ := hcarried
  obtain rfl : members = found := Json.object.inj (hjson.symm.trans hfound)
  refine ⟨members', hjson', fun key hkey => ?_⟩
  rw [← hlast key hkey, hmembers' key hkey, hsame, hmembers key hkey]

end Writing

end SchemaLink.Json
