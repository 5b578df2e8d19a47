import SchemaLink.Proofs.Json.Members
import SchemaLink.Proofs.Json.Written
import SchemaLink.Proofs.Traversal

/-! # What readers take

Whatever a reader accepts, it takes exactly one written value off the tokens, of a value
that is skipped as of one that is kept. -/

namespace SchemaLink.Json

/-- A value as it is kept: the keys of its objects ascend, and it nests no deeper than so many
levels. -/
inductive Settled : Nat → Json → Prop
  | null {depth : Nat} : Settled depth .null
  | bool {depth : Nat} (value : Bool) : Settled depth (.bool value)
  | number {depth : Nat} (value : Number) : Settled depth (.number value)
  | string {depth : Nat} (value : String) : Settled depth (.string value)
  | list {depth : Nat} {items : List Json} (h : ∀ item ∈ items, Settled depth item) :
    Settled (depth + 1) (.list items)
  | object {depth : Nat} {members : List (String × Json)} (hkeys : SortedMap.Ascending members)
    (h : ∀ member ∈ members, Settled depth member.2) : Settled (depth + 1) (.object members)

namespace Reader

variable {α β σ : Type}

/-- What a reader accepts is one written value, which spells the value that is read. -/
def Takes (reader : Reader α) (spells : Written → α → Prop) : Prop :=
  ∀ tokens a rest, reader tokens = .ok (a, rest) →
    ∃ written, tokens = written.tokens ++ rest ∧ spells written a

theorem Takes.imp {reader : Reader α} {r s : Written → α → Prop} (h : reader.Takes r)
    (himp : ∀ written a, r written a → s written a) : reader.Takes s := by
  intro tokens a rest hread
  obtain ⟨written, htokens, hspells⟩ := h tokens a rest hread
  exact ⟨written, htokens, himp written a hspells⟩

/-- A reader takes one value, of which all can be said at once. -/
theorem Takes.and {reader : Reader α} {r s : Written → α → Prop} (h : reader.Takes r)
    (h' : reader.Takes s) : reader.Takes fun written a => r written a ∧ s written a := by
  intro tokens a rest hread
  obtain ⟨written, rfl, hspells⟩ := h tokens a rest hread
  obtain ⟨other, htokens, hspells'⟩ := h' _ a rest hread
  obtain ⟨rfl, -⟩ := Written.tokens_inj written other htokens
  exact ⟨written, rfl, hspells, hspells'⟩

/-- A complete text is one written value. -/
theorem Takes.of_run {reader : Reader α} {r : Written → α → Prop} (h : reader.Takes r)
    {text : String} {a : α} (hrun : reader.run text = .ok a) :
    ∃ written : Written, scan text.toList = written.tokens ∧ r written a := by
  unfold run at hrun
  cases hread : reader (scan text.toList) with
  | error fault => rw [hread] at hrun; cases hrun
  | ok found =>
      rcases found with ⟨a', rest⟩
      rw [hread] at hrun
      cases rest with
      | nil =>
          cases hrun
          obtain ⟨written, htokens, hspells⟩ := h _ _ _ hread
          exact ⟨written, htokens.trans (List.append_nil _), hspells⟩
      | cons token rest => cases hrun

theorem mismatch_ne_ok (tokens : List Token) (result : α × List Token) :
    Reader.mismatch tokens ≠ .ok result := by
  unfold Reader.mismatch
  split <;> simp

theorem map_eq_ok {reader : Reader α} {f : α → β} {tokens rest : List Token} {b : β}
    (h : reader.map f tokens = .ok (b, rest)) : ∃ a, reader tokens = .ok (a, rest) ∧ f a = b := by
  unfold Reader.map at h
  cases hread : reader tokens with
  | error fault => rw [hread] at h; cases h
  | ok found =>
      rw [hread] at h
      cases h
      exact ⟨found.1, rfl, rfl⟩

theorem Takes.map {reader : Reader α} {r : Written → α → Prop} {s : Written → β → Prop}
    {f : α → β} (h : reader.Takes r) (himp : ∀ written a, r written a → s written (f a)) :
    (reader.map f).Takes s := by
  intro tokens b rest hread
  obtain ⟨a, hvalue, rfl⟩ := map_eq_ok hread
  obtain ⟨written, htokens, hspells⟩ := h tokens a rest hvalue
  exact ⟨written, htokens, himp written a hspells⟩

theorem string_takes :
    Reader.string.Takes fun written text => written.value = some (.string text) := by
  intro tokens text rest hread
  unfold Reader.string at hread
  split at hread
  · next kept skipped after =>
      cases hkept : kept with
      | error fault => rw [hkept] at hread; cases hread
      | ok found =>
          rw [hkept] at hread
          cases hread
          exact ⟨.string ⟨.ok text, skipped⟩, rfl, rfl⟩
  · exact absurd hread (mismatch_ne_ok _ _)

/-- A written value that may be null. -/
def Nullable (r : Written → α → Prop) (written : Written) (found : Option α) : Prop :=
  (written = .null ∧ found = none) ∨ ∃ a, found = some a ∧ r written a

theorem Takes.nullable {reader : Reader α} {r : Written → α → Prop} (h : reader.Takes r) :
    reader.nullable.Takes (Nullable r) := by
  intro tokens found rest hread
  unfold Reader.nullable at hread
  split at hread
  · cases hread
    exact ⟨.null, rfl, .inl ⟨rfl, rfl⟩⟩
  · exact h.map (fun written a hspells => .inr ⟨a, rfl, hspells⟩) _ _ _ hread

/-! ## Lists -/

theorem moreItems_takes {item : Reader α} {r : Written → α → Prop} (h : item.Takes r) {fuel : Nat}
    {tokens rest : List Token} {found : List α}
    (hread : moreItems item fuel tokens = .ok (found, rest)) :
    ∃ items, tokens = Written.itemTokens items ++ rest ∧ List.Forall₂ r items found := by
  induction fuel generalizing tokens found with
  | zero =>
      unfold moreItems at hread
      split at hread
      · cases hread
        exact ⟨[], rfl, .nil⟩
      all_goals simp_all
  | succ fuel ih =>
      unfold moreItems at hread
      split at hread
      · cases hread
        exact ⟨[], rfl, .nil⟩
      · next after _ heq =>
        obtain rfl := Nat.succ.inj heq
        cases hitem : item after with
        | error fault => rw [hitem] at hread; cases hread
        | ok first =>
            rw [hitem] at hread
            obtain ⟨others, hmore, rfl⟩ := map_eq_ok hread
            obtain ⟨written, rfl, hfirst⟩ := h _ _ _ hitem
            obtain ⟨items, hrest, hitems⟩ := ih hmore
            refine ⟨written :: items, ?_, .cons hfirst hitems⟩
            rw [hrest, Written.itemTokens, List.cons_append, List.append_assoc]
      · cases hread
      · cases hread

theorem items_takes {item : Reader α} {r : Written → α → Prop} (h : item.Takes r)
    {tokens rest : List Token} {found : List α}
    (hread : Reader.items item tokens = .ok (found, rest)) :
    ∃ items, tokens = Written.listTokens items ++ rest ∧ List.Forall₂ r items found := by
  unfold Reader.items at hread
  split at hread
  · cases hread
    exact ⟨[], rfl, .nil⟩
  · cases hitem : item tokens with
    | error fault => rw [hitem] at hread; cases hread
    | ok first =>
        rw [hitem] at hread
        obtain ⟨others, hmore, rfl⟩ := map_eq_ok hread
        obtain ⟨written, rfl, hfirst⟩ := h _ _ _ hitem
        obtain ⟨items, hrest, hitems⟩ := moreItems_takes h hmore
        refine ⟨written :: items, ?_, .cons hfirst hitems⟩
        rw [hrest, Written.listTokens, List.append_assoc]

/-- The items of a written list spell the values in a list. -/
def Items (r : Written → α → Prop) (written : Written) (found : List α) : Prop :=
  ∃ items, written = .list items ∧ List.Forall₂ r items found

theorem list_takes_below {item : Nat → Reader α} {r : Written → α → Prop} {depth : Nat}
    (h : (item (depth - 1)).Takes r) : (Reader.list item depth).Takes (Items r) := by
  intro tokens found rest hread
  unfold Reader.list at hread
  split at hread
  · next after =>
    cases depth with
    | zero => cases hread
    | succ depth =>
        obtain ⟨items, rfl, hitems⟩ := items_takes h hread
        exact ⟨.list items, rfl, items, rfl, hitems⟩
  · exact absurd hread (mismatch_ne_ok _ _)

theorem list_takes {item : Nat → Reader α} {r : Written → α → Prop}
    (h : ∀ depth, (item depth).Takes r) (depth : Nat) :
    (Reader.list item depth).Takes (Items r) :=
  list_takes_below (h (depth - 1))

/-! ## Objects -/

section Members

variable {read : String → σ → Reader σ} {inv : List (Quotation × Written) → σ → Prop}

/-- What is known of the members so far is known of one more once it is read. -/
def Extends (read : String → σ → Reader σ) (inv : List (Quotation × Written) → σ → Prop) : Prop :=
  ∀ done key name state tokens after rest, key.kept = .ok name → inv done state →
    read name state tokens = .ok (after, rest) →
      ∃ written, tokens = .colon :: (written.tokens ++ rest) ∧ inv (done ++ [(key, written)]) after

theorem member_takes (h : Extends read inv) {done : List (Quotation × Written)} {state after : σ}
    {tokens rest : List Token} (hdone : inv done state)
    (hread : Reader.member read state tokens = .ok (after, rest)) :
    ∃ key written, tokens = key.token :: .colon :: (written.tokens ++ rest) ∧
      inv (done ++ [(key, written)]) after := by
  unfold Reader.member at hread
  cases hkey : Reader.key tokens with
  | error fault => rw [hkey] at hread; cases hread
  | ok found =>
      rw [hkey] at hread
      unfold Reader.key at hkey
      split at hkey
      · next kept skipped after' =>
        cases hkept : kept with
        | error fault => rw [hkept] at hkey; cases hkey
        | ok name =>
            rw [hkept] at hkey
            cases hkey
            obtain ⟨written, rfl, hinv⟩ := h done ⟨.ok name, skipped⟩ name _ _ _ _ rfl hdone hread
            exact ⟨_, written, rfl, hinv⟩
      · cases hkey
      · cases hkey

theorem moreMembers_takes (h : Extends read inv) {fuel : Nat} {done : List (Quotation × Written)}
    {state after : σ} {tokens rest : List Token} (hdone : inv done state)
    (hread : moreMembers read fuel state tokens = .ok (after, rest)) :
    ∃ members, tokens = Written.memberTokens members ++ rest ∧ inv (done ++ members) after := by
  induction fuel generalizing done state tokens with
  | zero =>
      unfold moreMembers at hread
      split at hread
      · cases hread
        exact ⟨[], rfl, by rwa [List.append_nil]⟩
      all_goals simp_all
  | succ fuel ih =>
      unfold moreMembers at hread
      split at hread
      · cases hread
        exact ⟨[], rfl, by rwa [List.append_nil]⟩
      · next after' _ heq =>
        obtain rfl := Nat.succ.inj heq
        cases hmember : Reader.member read state after' with
        | error fault => rw [hmember] at hread; cases hread
        | ok next =>
            rw [hmember] at hread
            obtain ⟨key, written, rfl, hinv⟩ := member_takes h hdone hmember
            obtain ⟨members, hrest, hinv⟩ := ih hinv hread
            refine ⟨(key, written) :: members, ?_, by rwa [List.append_assoc] at hinv⟩
            rw [hrest, Written.memberTokens, List.cons_append, List.cons_append, List.cons_append,
              List.append_assoc]
      · cases hread
      · cases hread

/-- Reading an object keeps what every member extends. -/
theorem members_takes (h : Extends read inv) {state after : σ} {tokens rest : List Token}
    (hstart : inv [] state) (hread : Reader.members read state tokens = .ok (after, rest)) :
    ∃ members, tokens = Written.objectTokens members ++ rest ∧ inv members after := by
  unfold Reader.members at hread
  split at hread
  · cases hread
    exact ⟨[], rfl, hstart⟩
  · cases hmember : Reader.member read state tokens with
    | error fault => rw [hmember] at hread; cases hread
    | ok next =>
        rw [hmember] at hread
        obtain ⟨key, written, rfl, hinv⟩ := member_takes h hstart hmember
        obtain ⟨members, hrest, hinv⟩ := moreMembers_takes h hinv hread
        refine ⟨(key, written) :: members, ?_, hinv⟩
        rw [hrest, Written.objectTokens, List.cons_append, List.cons_append, List.append_assoc]

end Members

/-- What follows a key, from the colon on. -/
theorem Takes.afterColon {reader : Reader α} {r : Written → α → Prop} (h : reader.Takes r)
    {tokens rest : List Token} {a : α} (hread : Reader.afterColon reader tokens = .ok (a, rest)) :
    ∃ written, tokens = .colon :: (written.tokens ++ rest) ∧ r written a := by
  unfold Reader.afterColon at hread
  split at hread
  · obtain ⟨written, rfl, hspells⟩ := h _ _ _ hread
    exact ⟨written, rfl, hspells⟩
  · cases hread
  · cases hread

/-- The members of a written object spell entries of a map, of which the last under each key
counts. -/
def Entries (r : Written → α → Prop) (written : Written) (found : SortedMap String α) : Prop :=
  ∃ members entries, written = .object members ∧
    List.Forall₂ (fun member entry => member.1.kept = .ok entry.1 ∧ r member.2 entry.2) members
      entries ∧ found = .ofList entries

theorem dict_takes {item : Nat → Reader α} {r : Written → α → Prop}
    (h : ∀ depth, (item depth).Takes r) (depth : Nat) :
    (Reader.dict item depth).Takes (Entries r) := by
  intro tokens found rest hread
  unfold Reader.dict at hread
  split at hread
  · cases depth with
    | zero => cases hread
    | succ depth =>
        have hextends : Extends (fun name (found : SortedMap String α) =>
            Reader.afterColon ((item depth).map fun a => found.insert name a))
              fun done found => Entries r (.object done) found := by
          rintro done key name _ tokens after rest hkey ⟨_, entries, ⟨⟩, hentries, rfl⟩ hread
          have hitem : ((item depth).map fun a =>
              (SortedMap.ofList entries).insert name a).Takes fun written after =>
                Entries r (.object (done ++ [(key, written)])) after := by
            refine (h depth).map fun written a hspells =>
              ⟨_, entries ++ [(name, a)], rfl, ?_, ?_⟩
            · exact List.rel_append hentries (.cons ⟨hkey, hspells⟩ .nil)
            · rw [SortedMap.ofList, SortedMap.ofList, List.foldl_append]
              rfl
          exact hitem.afterColon hread
        have hblank : Entries r (.object []) SortedMap.empty := ⟨[], [], rfl, .nil, rfl⟩
        obtain ⟨members, rfl, hentries⟩ := members_takes hextends hblank hread
        exact ⟨.object members, rfl, hentries⟩
  · exact absurd hread (mismatch_ne_ok _ _)

/-! ## Values that are kept -/

theorem itemValues_eq {items : List Written} {found : List Json}
    (h : List.Forall₂ (fun written value => written.value = some value) items found) :
    Written.itemValues items = some found := by
  induction h with
  | nil => rfl
  | cons hfirst hrest ih => rw [Written.itemValues, hfirst, ih]; rfl

theorem memberValues_concat {members : List (Quotation × Written)} {entries : List (String × Json)}
    {key : Quotation} {name : String} {written : Written} {value : Json}
    (h : Written.memberValues members = some entries) (hkey : key.kept = .ok name)
    (hvalue : written.value = some value) :
    Written.memberValues (members ++ [(key, written)]) = some (entries ++ [(name, value)]) := by
  induction members generalizing entries with
  | nil =>
      cases h
      simp [Written.memberValues, hkey, hvalue, Except.toOption]
  | cons member members ih =>
      simp only [Written.memberValues, Option.bind_eq_some_iff, Option.map_eq_some_iff] at h
      obtain ⟨first, hfirst, item, hitem, others, hothers, rfl⟩ := h
      simp [Written.memberValues, hfirst, hitem, ih hothers]

/-- The entries that an object is kept with so far. -/
def KeptMembers (members : List (Quotation × Written)) (found : List (String × Json)) : Prop :=
  ∃ entries, Written.memberValues members = some entries ∧
    found = (SortedMap.ofList entries).toList

theorem KeptMembers.concat {members : List (Quotation × Written)} {found : List (String × Json)}
    {key : Quotation} {name : String} {written : Written} {value : Json}
    (h : KeptMembers members found) (hkey : key.kept = .ok name)
    (hvalue : written.value = some value) :
    KeptMembers (members ++ [(key, written)]) (SortedMap.insertEntry name value found) := by
  obtain ⟨entries, hentries, rfl⟩ := h
  refine ⟨_, memberValues_concat hentries hkey hvalue, ?_⟩
  rw [SortedMap.ofList, SortedMap.ofList, List.foldl_append]
  rfl

theorem value_takes_settled (depth : Nat) :
    (Reader.value depth).Takes fun written value =>
      written.value = some value ∧ value.Settled depth := by
  induction depth using Nat.strongRecOn with
  | ind depth ih =>
      intro tokens found rest hread
      unfold Reader.value at hread
      split at hread
      · cases hread
        exact ⟨.null, rfl, rfl, .null⟩
      · cases hread
        exact ⟨.bool _, rfl, rfl, .bool _⟩
      · next kept skipped after =>
        cases kept with
        | error fault => cases hread
        | ok number =>
            cases hread
            exact ⟨.number (.ok number) skipped, rfl, rfl, .number number⟩
      · next kept skipped after =>
        cases kept with
        | error fault => cases hread
        | ok text =>
            cases hread
            exact ⟨.string ⟨.ok text, skipped⟩, rfl, rfl, .string text⟩
      · next after =>
        cases depth with
        | zero => cases hread
        | succ depth =>
            obtain ⟨values, hitems, rfl⟩ := map_eq_ok hread
            obtain ⟨items, rfl, hvalues⟩ := items_takes (ih depth depth.lt_succ_self) hitems
            refine ⟨.list items, rfl, ?_, .list fun item hitem => ?_⟩
            · simp only [Written.value, itemValues_eq (hvalues.imp fun _ _ h => h.1),
                Option.map_some]
            · obtain ⟨_, -, -, hsettled⟩ := exists_of_forall₂_right hvalues hitem
              exact hsettled
      · next after =>
        cases depth with
        | zero => cases hread
        | succ depth =>
            have hextends : Extends (fun name found => Reader.afterColon
                ((Reader.value depth).map fun v => SortedMap.insertEntry name v found))
                  fun done found => KeptMembers done found ∧
                    ∀ member ∈ found, member.2.Settled depth := by
              rintro done key name state tokens after rest hkey ⟨hdone, hsettled⟩ hread
              have hvalue : ((Reader.value depth).map fun v =>
                  SortedMap.insertEntry name v state).Takes fun written after =>
                    KeptMembers (done ++ [(key, written)]) after ∧
                      ∀ member ∈ after, member.2.Settled depth := by
                refine (ih depth depth.lt_succ_self).map fun _ value hvalue =>
                  ⟨hdone.concat hkey hvalue.1, fun member hmember => ?_⟩
                rcases SortedMap.mem_insertEntry hmember with rfl | hmember
                · exact hvalue.2
                · exact hsettled member hmember
              exact hvalue.afterColon hread
            obtain ⟨found, hmembers, rfl⟩ := map_eq_ok hread
            obtain ⟨members, rfl, ⟨entries, hentries, rfl⟩, hsettled⟩ :=
              members_takes hextends ⟨⟨[], rfl, rfl⟩, nofun⟩ hmembers
            refine ⟨.object members, rfl, ?_, .object (SortedMap.ofList entries).ascending hsettled⟩
            simp only [Written.value, hentries, Option.map_some]
      · exact absurd hread (mismatch_ne_ok _ _)

theorem value_takes (depth : Nat) :
    (Reader.value depth).Takes fun written value => written.value = some value :=
  (value_takes_settled depth).imp fun _ _ h => h.1

/-! ## Values that are skipped -/

/-- Skipping from the start of a value with fewer than so many tokens left passes over one written
value. -/
def SkipsBelow (bound : Nat) : Prop :=
  ∀ (tokens : List Token) (containers : List Container) (rest : List Token),
    tokens.length < bound → skipFrom ⟨containers, .value⟩ tokens = .ok rest →
      ∃ (written : Written) (after : List Token), tokens = written.tokens ++ after ∧
        resume containers after = .ok rest

/-- Items are skipped up to the end of the list that they stand in. -/
theorem skip_items {bound : Nat} (h : SkipsBelow bound) {tokens : List Token}
    {containers : List Container} {rest : List Token} (hbound : tokens.length ≤ bound)
    (hskip : skipFrom ⟨.list :: containers, .commaOrClose⟩ tokens = .ok rest) :
    ∃ items after, tokens = Written.itemTokens items ++ after ∧
      resume containers after = .ok rest := by
  induction hlength : tokens.length using Nat.strongRecOn generalizing tokens with
  | ind length ih =>
      cases tokens with
      | nil => cases hskip
      | cons token tokens =>
          cases token with
          | closeList =>
              rw [@skipFrom_completed _ _ containers rfl] at hskip
              exact ⟨[], tokens, rfl, hskip⟩
          | comma =>
              rw [skipFrom_entered ⟨.list :: containers, .value⟩ rfl (by simp)] at hskip
              simp only [List.length_cons] at hbound hlength
              obtain ⟨written, after, rfl, hresume⟩ := h _ _ _ (by omega) hskip
              simp only [List.length_append] at hbound hlength
              obtain ⟨items, last, rfl, hlast⟩ :=
                ih after.length (by omega) (by omega) hresume rfl
              refine ⟨written :: items, last, ?_, hlast⟩
              rw [Written.itemTokens, List.cons_append, List.append_assoc]
          | _ => cases hskip

theorem skip_key {containers : List Container} {tokens rest : List Token}
    (hskip : skipFrom ⟨containers, .key⟩ tokens = .ok rest) :
    ∃ (key : Quotation) (after : List Token), tokens = key.token :: .colon :: after ∧
      skipFrom ⟨containers, .value⟩ after = .ok rest := by
  match tokens with
  | .string kept (.ok ()) :: tokens =>
      rw [skipFrom_entered ⟨containers, .colon⟩ rfl (by simp)] at hskip
      match tokens with
      | .colon :: after =>
          rw [skipFrom_entered ⟨containers, .value⟩ rfl (by simp)] at hskip
          exact ⟨⟨kept, .ok ()⟩, after, rfl, hskip⟩

/-- Members are skipped up to the end of the object that they stand in. -/
theorem skip_members {bound : Nat} (h : SkipsBelow bound) {tokens : List Token}
    {containers : List Container} {rest : List Token} (hbound : tokens.length ≤ bound)
    (hskip : skipFrom ⟨.object :: containers, .commaOrClose⟩ tokens = .ok rest) :
    ∃ members after, tokens = Written.memberTokens members ++ after ∧
      resume containers after = .ok rest := by
  induction hlength : tokens.length using Nat.strongRecOn generalizing tokens with
  | ind length ih =>
      cases tokens with
      | nil => cases hskip
      | cons token tokens =>
          cases token with
          | closeObject =>
              rw [@skipFrom_completed _ _ containers rfl] at hskip
              exact ⟨[], tokens, rfl, hskip⟩
          | comma =>
              rw [skipFrom_entered ⟨.object :: containers, .key⟩ rfl (by simp)] at hskip
              obtain ⟨key, tokens, rfl, hvalue⟩ := skip_key hskip
              simp only [List.length_cons] at hbound hlength
              obtain ⟨written, after, rfl, hresume⟩ := h _ _ _ (by omega) hvalue
              simp only [List.length_append] at hbound hlength
              obtain ⟨members, last, rfl, hlast⟩ :=
                ih after.length (by omega) (by omega) hresume rfl
              refine ⟨(key, written) :: members, last, ?_, hlast⟩
              rw [Written.memberTokens, List.cons_append, List.cons_append, List.cons_append,
                List.append_assoc]
          | _ => cases hskip

/-- Where a list or an object may close, it does, or else goes on with what stands inside. -/
theorem skip_open {containers : List Container} {tokens : List Token} :
    ((∀ after, tokens ≠ .closeList :: after) →
      skipFrom ⟨.list :: containers, .itemOrClose⟩ tokens =
        skipFrom ⟨.list :: containers, .value⟩ tokens) ∧
    ((∀ after, tokens ≠ .closeObject :: after) →
      skipFrom ⟨.object :: containers, .keyOrClose⟩ tokens =
        skipFrom ⟨.object :: containers, .key⟩ tokens) := by
  cases tokens with
  | nil => exact ⟨fun _ => rfl, fun _ => rfl⟩
  | cons token tokens => cases token <;> simp [skipFrom, Progress.next]

theorem skip_list {bound : Nat} (h : SkipsBelow bound) {tokens : List Token}
    {containers : List Container} {rest : List Token} (hbound : tokens.length < bound)
    (hskip : skipFrom ⟨.list :: containers, .itemOrClose⟩ tokens = .ok rest) :
    ∃ items after, tokens = Written.listTokens items ++ after ∧
      resume containers after = .ok rest := by
  by_cases hclose : ∃ after, tokens = .closeList :: after
  · obtain ⟨after, rfl⟩ := hclose
    rw [@skipFrom_completed _ _ containers rfl] at hskip
    exact ⟨[], after, rfl, hskip⟩
  · rw [skip_open.1 (not_exists.1 hclose)] at hskip
    obtain ⟨written, after, rfl, hresume⟩ := h _ _ _ hbound hskip
    rw [List.length_append] at hbound
    obtain ⟨items, last, rfl, hlast⟩ := skip_items h (by omega) hresume
    exact ⟨written :: items, last, by rw [Written.listTokens, List.append_assoc], hlast⟩

theorem skip_object {bound : Nat} (h : SkipsBelow bound) {tokens : List Token}
    {containers : List Container} {rest : List Token} (hbound : tokens.length < bound)
    (hskip : skipFrom ⟨.object :: containers, .keyOrClose⟩ tokens = .ok rest) :
    ∃ members after, tokens = Written.objectTokens members ++ after ∧
      resume containers after = .ok rest := by
  by_cases hclose : ∃ after, tokens = .closeObject :: after
  · obtain ⟨after, rfl⟩ := hclose
    rw [@skipFrom_completed _ _ containers rfl] at hskip
    exact ⟨[], after, rfl, hskip⟩
  · rw [skip_open.2 (not_exists.1 hclose)] at hskip
    obtain ⟨key, tokens, rfl, hvalue⟩ := skip_key hskip
    simp only [List.length_cons] at hbound
    obtain ⟨written, after, rfl, hresume⟩ := h _ _ _ (by omega) hvalue
    rw [List.length_append] at hbound
    obtain ⟨members, last, rfl, hlast⟩ := skip_members h (by omega) hresume
    refine ⟨(key, written) :: members, last, ?_, hlast⟩
    rw [Written.objectTokens, List.cons_append, List.cons_append, List.append_assoc]

theorem skipsBelow (bound : Nat) : SkipsBelow bound := by
  induction bound with
  | zero => intro tokens containers rest hbound; omega
  | succ bound ih =>
      intro tokens containers rest hbound hskip
      match tokens with
      | .null :: after =>
          rw [@skipFrom_completed _ _ containers rfl] at hskip
          exact ⟨.null, after, rfl, hskip⟩
      | .bool b :: after =>
          rw [@skipFrom_completed _ _ containers rfl] at hskip
          exact ⟨.bool b, after, rfl, hskip⟩
      | .number kept (.ok ()) :: after =>
          rw [@skipFrom_completed _ _ containers rfl] at hskip
          exact ⟨.number kept (.ok ()), after, rfl, hskip⟩
      | .string kept (.ok ()) :: after =>
          rw [@skipFrom_completed _ _ containers rfl] at hskip
          exact ⟨.string ⟨kept, .ok ()⟩, after, rfl, hskip⟩
      | .openList :: tokens =>
          rw [skipFrom_entered ⟨.list :: containers, .itemOrClose⟩ rfl (by simp)] at hskip
          obtain ⟨items, after, rfl, hresume⟩ := skip_list ih (by simpa using hbound) hskip
          exact ⟨.list items, after, rfl, hresume⟩
      | .openObject :: tokens =>
          rw [skipFrom_entered ⟨.object :: containers, .keyOrClose⟩ rfl (by simp)] at hskip
          obtain ⟨members, after, rfl, hresume⟩ := skip_object ih (by simpa using hbound) hskip
          exact ⟨.object members, after, rfl, hresume⟩

theorem skip_takes : Reader.skip.Takes fun _ _ => True := by
  intro tokens a rest hread
  unfold Reader.skip at hread
  cases hskip : skipFrom ⟨[], .value⟩ tokens with
  | error fault => rw [hskip] at hread; cases hread
  | ok after =>
      rw [hskip] at hread
      cases hread
      obtain ⟨written, after', rfl, hresume⟩ := skipsBelow _ _ _ _ tokens.length.lt_succ_self hskip
      cases hresume
      exact ⟨written, rfl, trivial⟩

end Reader

end SchemaLink.Json
