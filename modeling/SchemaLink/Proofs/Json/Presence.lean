import SchemaLink.Proofs.Json.Records

/-! # Members that must be there

A record is read only if each of its required members is written, under its key in an object or at
its place in a list. -/

namespace SchemaLink.Json

/-- Something stands last under a key just if anything does. -/
theorem Written.isSome_last?_iff {written : Written} {keys : List String} {key : String} :
    (written.last? keys key).isSome ↔ key ∈ (written.members keys).map Prod.fst := by
  rw [last?, lastOf, ← Option.ne_none_iff_isSome, Ne, List.lookup_eq_none_iff]
  simp only [List.mem_reverse, bne_iff_ne, ne_eq, not_forall, not_not, List.mem_map]
  constructor
  · rintro ⟨entry, hentry, rfl⟩
    exact ⟨entry, hentry, rfl⟩
  · rintro ⟨entry, hentry, rfl⟩
    exact ⟨entry, hentry, rfl⟩

namespace Record

variable {α : Type} {form : Record α}

/-! ## Objects -/

/-- Keys that were seen are keys of members that were written. -/
def Seen (form : Record α) (done : List (Quotation × Written)) (seen : List String) : Prop :=
  ∀ key ∈ seen, key ∈ ((Written.object done).members form.keys).map Prod.fst

theorem Seen.concat {done : List (Quotation × Written)} {seen : List String} {key : Quotation}
    {name : String} (h : form.Seen done seen) (hkey : key.kept = .ok name) (written : Written) :
    form.Seen (done ++ [(key, written)]) (name :: seen) := by
  rw [Seen, Written.members_concat form.keys done hkey, List.map_append, List.forall_mem_cons]
  exact ⟨by simp, fun other hother => List.mem_append_left _ (h other hother)⟩

theorem Seen.tail {done : List (Quotation × Written)} {seen : List String} {name : String}
    (h : form.Seen done (name :: seen)) : form.Seen done seen :=
  (List.forall_mem_cons.1 h).2

theorem extends_seen (h : form.Proper) (depth : Nat) :
    Reader.Extends (form.readMember depth) fun done state => form.Seen done state.2 := by
  rintro done key name ⟨record, seen⟩ tokens after rest hkey hseen hread
  unfold readMember at hread
  dsimp only at hread
  cases hfind : form.members.find? fun member => member.key == name with
  | some member =>
      rw [hfind] at hread
      dsimp only at hread
      split at hread
      · cases hread
      · have htakes : ((member.read depth record).map fun record =>
            (record, name :: seen)).Takes fun written state =>
              form.Seen (done ++ [(key, written)]) state.2 :=
          (h member (List.mem_of_find?_eq_some hfind) depth record).map
            fun written _ _ => hseen.concat hkey written
        exact htakes.afterColon hread
  | none =>
      rw [hfind] at hread
      dsimp only at hread
      cases hkeep : form.keep with
      | none =>
          rw [hkeep] at hread
          have htakes : (Reader.skip.map fun _ => (record, seen)).Takes fun written state =>
              form.Seen (done ++ [(key, written)]) state.2 :=
            Reader.skip_takes.map fun written _ _ => (hseen.concat hkey written).tail
          exact htakes.afterColon hread
      | some keep =>
          rw [hkeep] at hread
          have htakes : ((Reader.value depth).map fun v =>
              (keep record name v, seen)).Takes fun written state =>
                form.Seen (done ++ [(key, written)]) state.2 :=
            (Reader.value_takes depth).map fun written _ _ => (hseen.concat hkey written).tail
          exact htakes.afterColon hread

/-! ## Lists -/

/-- The members that a list has to give are at their places in it. -/
theorem readMorePositions_required {depth : Nat} {members : List (Member α)}
    (h : ∀ member ∈ members, member.Proper) {record after : α} {tokens rest : List Token}
    (hread : readMorePositions depth members record tokens = .ok (after, rest)) :
    ∃ items, tokens = Written.itemTokens items ++ rest ∧ ∀ member ∈ members,
      member.presence = .required →
        member.key ∈ ((members.map Member.key).zip items).map Prod.fst := by
  induction members generalizing record tokens with
  | nil =>
      rcases Invariant.readMorePositions_eq_ok hread with ⟨rfl, -, -⟩ | ⟨_, _, _, _, _, hnil, -⟩
      · exact ⟨[], rfl, List.forall_mem_nil _⟩
      · cases hnil
  | cons member members ih =>
      obtain ⟨hmember, hmembers⟩ := List.forall_mem_cons.1 h
      rcases Invariant.readMorePositions_eq_ok hread with
        ⟨rfl, -, hdefaulted⟩ | ⟨_, _, next, middle, more, hcons, rfl, hfirst, hmore⟩
      · refine ⟨[], rfl, fun other hother hrequired => ?_⟩
        cases (hdefaulted other hother).symm.trans hrequired
      · cases hcons
        obtain ⟨written, rfl, -⟩ := hmember depth record _ _ _ hfirst
        obtain ⟨items, rfl, hitems⟩ := ih hmembers hmore
        refine ⟨written :: items, ?_, ?_⟩
        · rw [Written.itemTokens, List.cons_append, List.append_assoc]
        · rw [List.map_cons, List.zip_cons_cons, List.map_cons, List.forall_mem_cons]
          exact ⟨fun _ => by simp, fun other hother hrequired =>
            List.mem_cons_of_mem _ (hitems other hother hrequired)⟩

theorem readPositions_required (h : form.Proper) {depth : Nat} {after : α}
    {tokens rest : List Token} (hread : form.readPositions depth tokens = .ok (after, rest)) :
    ∃ items, tokens = Written.listTokens items ++ rest ∧ ∀ member ∈ form.members,
      member.presence = .required →
        member.key ∈ ((Written.list items).members form.keys).map Prod.fst := by
  unfold readPositions at hread
  split at hread
  · obtain ⟨-, rfl, hdefaulted⟩ := Invariant.readEnd_eq_ok hread
    refine ⟨[], rfl, fun member hmember hrequired => ?_⟩
    cases (hdefaulted member hmember).symm.trans hrequired
  · cases hread
  · cases hread
  · next tokens _ _ member members hmembers _ =>
    cases hfirst : member.read depth form.blank tokens with
    | error fault => rw [hfirst] at hread; cases hread
    | ok found =>
        rw [hfirst] at hread
        rw [Proper, hmembers, List.forall_mem_cons] at h
        obtain ⟨written, rfl, -⟩ := h.1 depth form.blank _ _ _ hfirst
        obtain ⟨items, hrest, hitems⟩ := readMorePositions_required h.2 hread
        refine ⟨written :: items, ?_, ?_⟩
        · rw [hrest, Written.listTokens, List.append_assoc]
        · rw [Written.members, keys, hmembers, List.map_cons, List.zip_cons_cons, List.map_cons,
            List.forall_mem_cons]
          exact ⟨fun _ => by simp, fun other hother hrequired =>
            List.mem_cons_of_mem _ (hitems other hother hrequired)⟩

/-! ## Records -/

/-- What is read as a record has every required member. -/
theorem takes_required (h : form.Proper) (depth : Nat) :
    (form.read depth).Takes fun written _ => ∀ member ∈ form.members,
      member.presence = .required → (written.last? form.keys member.key).isSome := by
  simp only [Written.isSome_last?_iff]
  intro tokens after rest hread
  unfold read at hread
  split at hread
  · next tokens =>
    cases depth with
    | zero => cases hread
    | succ depth =>
        dsimp only at hread
        unfold readMembers at hread
        cases hmembers : Reader.members (form.readMember depth) (form.blank, []) tokens with
        | error fault => rw [hmembers] at hread; cases hread
        | ok found =>
            rw [hmembers] at hread
            dsimp only at hread
            split at hread
            · next hall =>
              cases hread
              have hblank : form.Seen [] [] := List.forall_mem_nil _
              obtain ⟨members, rfl, hseen⟩ :=
                Reader.members_takes (extends_seen h depth) hblank hmembers
              refine ⟨.object members, rfl, fun member hmember hrequired => hseen member.key ?_⟩
              have hmust := List.all_eq_true.1 hall member hmember
              simpa [hrequired] using hmust
            · cases hread
  · next tokens =>
    split at hread
    · cases hread
    · cases depth with
      | zero => cases hread
      | succ depth =>
          obtain ⟨items, rfl, hitems⟩ := readPositions_required h hread
          exact ⟨.list items, rfl, hitems⟩
  · exact absurd hread (Reader.mismatch_ne_ok _ _)

end Record

end SchemaLink.Json
