import SchemaLink.Json.Record
import SchemaLink.Proofs.Json.Tokens
import SchemaLink.Proofs.SortedMap

/-! # Reading the tokens of a value

A value that is skipped is passed over as a whole, however deep it is. The members
of an object are read one after another, so reading an object folds what reading a
single member does. -/

namespace SchemaLink.Json

namespace Reader

/-! ## Skipped values -/

/-- What skipping does after a value that stands in the given containers. -/
def resume (containers : List Container) (rest : List Token) : Except Fault (List Token) :=
  if containers.isEmpty then .ok rest else skipFrom ⟨containers, .commaOrClose⟩ rest

theorem skipFrom_completed {progress : Progress} {token : Token} {containers : List Container}
    (h : progress.next token = .ok (.completed containers)) (rest : List Token) :
    skipFrom progress (token :: rest) = resume containers rest := by
  cases containers <;>
    simp [skipFrom, h, resume, Progress.completed, Progress.finished]

theorem skipFrom_entered {progress : Progress} {token : Token} (after : Progress)
    (h : progress.next token = .ok after) (hawaited : after.awaited ≠ .commaOrClose)
    (rest : List Token) : skipFrom progress (token :: rest) = skipFrom after rest := by
  simp [skipFrom, h, Progress.finished, hawaited]

/-- Where a list may close, a value may stand just as well. -/
theorem skipFrom_itemOrClose (containers : List Container) (value : Json) (rest : List Token) :
    skipFrom ⟨containers, .itemOrClose⟩ (tokens value ++ rest) =
      skipFrom ⟨containers, .value⟩ (tokens value ++ rest) := by
  match value with
  | .null | .bool _ | .number _ | .string _ | .list [] | .list (_ :: _) | .object []
  | .object (_ :: _) =>
      cases containers <;> simp [tokens, skipFrom, Progress.next]

mutual

theorem skipFrom_tokens (containers : List Container) (value : Json) (rest : List Token) :
    skipFrom ⟨containers, .value⟩ (tokens value ++ rest) = resume containers rest := by
  match value with
  | .null | .bool _ | .number _ | .string _ => exact skipFrom_completed rfl rest
  | .list [] =>
      simp only [tokens, List.cons_append, List.nil_append]
      rw [skipFrom_entered ⟨.list :: containers, .itemOrClose⟩ rfl (by simp)]
      exact skipFrom_completed rfl rest
  | .list (item :: items) =>
      simp only [tokens, List.cons_append, List.append_assoc, List.nil_append]
      rw [skipFrom_entered ⟨.list :: containers, .itemOrClose⟩ rfl (by simp),
        skipFrom_itemOrClose, skipFrom_tokens (.list :: containers) item]
      exact (skipFrom_itemTokens containers items _).trans (skipFrom_completed rfl rest)
  | .object [] =>
      simp only [tokens, List.cons_append, List.nil_append]
      rw [skipFrom_entered ⟨.object :: containers, .keyOrClose⟩ rfl (by simp)]
      exact skipFrom_completed rfl rest
  | .object ((key, value) :: members) =>
      simp only [tokens, List.cons_append, List.append_assoc, List.nil_append]
      rw [skipFrom_entered ⟨.object :: containers, .keyOrClose⟩ rfl (by simp),
        skipFrom_entered ⟨.object :: containers, .colon⟩ rfl (by simp),
        skipFrom_entered ⟨.object :: containers, .value⟩ rfl (by simp),
        skipFrom_tokens (.object :: containers) value]
      exact (skipFrom_memberTokens containers members _).trans (skipFrom_completed rfl rest)

theorem skipFrom_itemTokens (containers : List Container) (items : List Json)
    (rest : List Token) :
    skipFrom ⟨.list :: containers, .commaOrClose⟩ (itemTokens items ++ rest) =
      skipFrom ⟨.list :: containers, .commaOrClose⟩ rest := by
  match items with
  | [] => rfl
  | item :: items =>
      simp only [itemTokens, List.cons_append, List.append_assoc]
      rw [skipFrom_entered ⟨.list :: containers, .value⟩ rfl (by simp),
        skipFrom_tokens (.list :: containers) item]
      exact skipFrom_itemTokens containers items rest

theorem skipFrom_memberTokens (containers : List Container) (members : List (String × Json))
    (rest : List Token) :
    skipFrom ⟨.object :: containers, .commaOrClose⟩ (memberTokens members ++ rest) =
      skipFrom ⟨.object :: containers, .commaOrClose⟩ rest := by
  match members with
  | [] => rfl
  | (key, value) :: members =>
      simp only [memberTokens, List.cons_append, List.append_assoc]
      rw [skipFrom_entered ⟨.object :: containers, .key⟩ rfl (by simp),
        skipFrom_entered ⟨.object :: containers, .colon⟩ rfl (by simp),
        skipFrom_entered ⟨.object :: containers, .value⟩ rfl (by simp),
        skipFrom_tokens (.object :: containers) value]
      exact skipFrom_memberTokens containers members rest

end

/-- A value is skipped whatever it is. -/
theorem skip_tokens (value : Json) (rest : List Token) :
    skip (tokens value ++ rest) = .ok ((), rest) := by
  rw [skip, skipFrom_tokens]
  rfl

/-- Whether a value reads as a string is told by its first token. -/
theorem string_tokens (value : Json) (rest : List Token) :
    Reader.string (tokens value ++ rest) =
      ((Reader.string (tokens value)).map Prod.fst).map fun text => (text, rest) := by
  match value with
  | .null | .bool _ | .number _ | .string _ | .list [] | .list (_ :: _) | .object []
  | .object (_ :: _) => rfl

/-! ## Members of an object -/

/-- The tokens of an object after its opening brace. -/
def bodyTokens : List (String × Json) → List Token
  | [] => [.closeObject]
  | (key, value) :: members =>
    .string (.ok key) (.ok ()) :: .colon ::
      (tokens value ++ (memberTokens members ++ [.closeObject]))

theorem tokens_object (members : List (String × Json)) :
    tokens (.object members) = .openObject :: bodyTokens members := by
  match members with
  | [] => rfl
  | (key, value) :: members => rfl

variable {ι σ : Type} {read : String → σ → Reader σ} {entry : ι → String × Json}
  {step : σ → ι → Except Fault σ}

/-- On the member that is written for an item, `read` does after the key what `step` says. -/
def Follows (read : String → σ → Reader σ) (entry : ι → String × Json)
    (step : σ → ι → Except Fault σ) (item : ι) : Prop :=
  ∀ state rest, read (entry item).1 state (.colon :: (tokens (entry item).2 ++ rest)) =
    (step state item).map fun state => (state, rest)

theorem length_le_memberTokens (members : List (String × Json)) :
    members.length ≤ (memberTokens members).length := by
  match members with
  | [] => simp
  | (key, value) :: members =>
      have := length_le_memberTokens members
      simp only [memberTokens, List.length_cons, List.length_append]
      omega

theorem moreMembers_tokens (items : List ι) (fuel : Nat) (state : σ) (rest : List Token)
    (h : ∀ item ∈ items, Follows read entry step item) (hfuel : items.length ≤ fuel) :
    moreMembers read fuel state (memberTokens (items.map entry) ++ .closeObject :: rest) =
      (items.foldlM step state).map fun state => (state, rest) := by
  induction items generalizing fuel state with
  | nil => simp [memberTokens, moreMembers, pure, Except.pure, Except.map]
  | cons item items ih =>
      obtain ⟨fuel, rfl⟩ : ∃ n, fuel = n + 1 := ⟨fuel - 1, by simp at hfuel; omega⟩
      have hstep := h item (by simp) state (memberTokens (items.map entry) ++ .closeObject :: rest)
      simp only [List.map_cons, memberTokens, List.cons_append, List.append_assoc, moreMembers,
        member, Reader.key, Except.map, hstep, List.foldlM_cons, bind, Except.bind]
      cases step state item with
      | error fault => rfl
      | ok next =>
          exact ih fuel next (fun item hitem => h item (List.mem_cons_of_mem _ hitem))
            (by simpa using hfuel)

/-- Reading an object folds what is done on its members. -/
theorem members_tokens (items : List ι) (state : σ) (rest : List Token)
    (h : ∀ item ∈ items, Follows read entry step item) :
    Reader.members read state (bodyTokens (items.map entry) ++ rest) =
      (items.foldlM step state).map fun state => (state, rest) := by
  match items with
  | [] => rfl
  | item :: items =>
      have hstep := h item (by simp) state (memberTokens (items.map entry) ++ .closeObject :: rest)
      simp only [List.map_cons, bodyTokens, List.cons_append, List.append_assoc, List.nil_append,
        Reader.members, member, Reader.key, Except.map, hstep, List.foldlM_cons, bind, Except.bind]
      cases step state item with
      | error fault => rfl
      | ok next =>
          refine moreMembers_tokens items _ next rest
            (fun item hitem => h item (List.mem_cons_of_mem _ hitem)) ?_
          have := length_le_memberTokens (items.map entry)
          simp only [List.length_append, List.length_map] at this ⊢
          omega

/-! ## Dictionaries -/

section Dictionary

variable {α β : Type} {item : Nat → Reader α} {toJson : β → Json} {found : β → Except Fault α}

/-- What reading a member of a dictionary does to the entries so far. -/
def insertStep (found : β → Except Fault α) (map : SortedMap String α) (entry : String × β) :
    Except Fault (SortedMap String α) :=
  (found entry.2).map fun a => map.insert entry.1 a

theorem foldlM_insertStep (entries : List (String × β)) (map : SortedMap String α) :
    entries.foldlM (insertStep found) map =
      (SortedMap.traverseEntries (fun _ b => found b) entries).map fun entries =>
        entries.foldl (fun map entry => map.insert entry.1 entry.2) map := by
  induction entries generalizing map with
  | nil => rfl
  | cons entry entries ih =>
      rw [List.foldlM_cons, insertStep, SortedMap.traverseEntries]
      cases found entry.2 with
      | error fault => rfl
      | ok a =>
          refine (ih (map.insert entry.1 a)).trans ?_
          cases SortedMap.traverseEntries (fun _ b => found b) entries <;> rfl

/-- A written map is read value by value. -/
theorem dict_tokens (depth : Nat) (map : SortedMap String β) (rest : List Token)
    (h : ∀ entry ∈ map.toList, ∀ rest, item depth (tokens (toJson entry.2) ++ rest) =
      (found entry.2).map fun a => (a, rest)) :
    dict item (depth + 1)
        (tokens (.object (map.toList.map fun entry => (entry.1, toJson entry.2))) ++ rest) =
      (map.traverse fun _ b => found b).map fun found => (found, rest) := by
  have hfollows : ∀ entry ∈ map.toList, Follows
      (fun name (map : SortedMap String α) =>
        afterColon ((item depth).map fun a => map.insert name a))
      (fun entry => (entry.1, toJson entry.2)) (insertStep found) entry := by
    intro entry hentry state rest
    simp only [afterColon, Reader.map, h entry hentry, insertStep]
    cases found entry.2 <;> rfl
  rw [tokens_object, List.cons_append, dict, members_tokens _ _ rest hfollows, foldlM_insertStep,
    SortedMap.traverse_eq]
  cases SortedMap.traverseEntries (fun _ b => found b) map.toList <;> rfl

end Dictionary

end Reader

/-! ## Closed records with one member

Of such a record only one key is looked at: it may stand once, and all others are
skipped. -/

namespace Record

variable {α : Type} {form : Record α} {member : Member α} {outcome : α → Json → Except Fault α}

/-- What reading a member does to the record and to the modelled keys that came before. -/
def singleStep (key : String) (outcome : α → Json → Except Fault α) :
    α × List String → String × Json → Except Fault (α × List String)
  | (record, seen), (name, value) =>
    if name = key then
      if seen.contains name then .error .misshapen
      else (outcome record value).map fun record => (record, name :: seen)
    else .ok (record, seen)

theorem follows_readMember (hmembers : form.members = [member]) (hkeep : form.keep = none)
    (depth : Nat) (entry : String × Json)
    (h : entry.1 = member.key → ∀ record rest, member.read depth record (tokens entry.2 ++ rest) =
      (outcome record entry.2).map fun record => (record, rest)) :
    Reader.Follows (form.readMember depth) id (singleStep member.key outcome) entry := by
  rintro ⟨record, seen⟩ rest
  rcases entry with ⟨name, value⟩
  by_cases hname : name = member.key
  · subst hname
    simp only [readMember, hmembers, List.find?_cons, beq_self_eq_true, singleStep, if_true, id]
    by_cases hseen : member.key ∈ seen
    · simp [hseen, Except.map]
    · have hread := h rfl record rest
      simp only at hread
      simp only [List.contains_iff_mem, hseen, if_false, Reader.afterColon, Reader.map, hread]
      cases outcome record value <;> rfl
  · have hne : (member.key == name) = false := by simpa using Ne.symm hname
    simp [readMember, hmembers, hkeep, hne, singleStep, hname, Reader.afterColon, Reader.map,
      Reader.skip_tokens, Except.map]

theorem foldlM_singleStep_absent {key : String} {members : List (String × Json)}
    (h : key ∉ members.map Prod.fst) (state : α × List String) :
    members.foldlM (singleStep key outcome) state = .ok state := by
  induction members with
  | nil => rfl
  | cons entry members ih =>
      obtain ⟨hhead, hrest⟩ : key ≠ entry.1 ∧ key ∉ members.map Prod.fst := by simpa using h
      rw [List.foldlM_cons, singleStep, if_neg (Ne.symm hhead)]
      exact ih hrest

/-- A key that came before may not stand again. -/
theorem foldlM_singleStep_again {key : String} {members : List (String × Json)}
    (h : key ∈ members.map Prod.fst) (record : α) :
    members.foldlM (singleStep key outcome) (record, [key]) = .error .misshapen := by
  induction members with
  | nil => cases h
  | cons entry members ih =>
      rw [List.foldlM_cons, singleStep]
      by_cases hname : entry.1 = key
      · simp [hname, bind, Except.bind]
      · rw [if_neg hname]
        exact ih (by simpa [Ne.symm hname] using h)

theorem foldlM_singleStep_once {key : String} {before after : List (String × Json)} {value : Json}
    (hbefore : key ∉ before.map Prod.fst) (hafter : key ∉ after.map Prod.fst) (record : α) :
    (before ++ (key, value) :: after).foldlM (singleStep key outcome) (record, []) =
      (outcome record value).map fun record => (record, [key]) := by
  rw [List.foldlM_append, foldlM_singleStep_absent hbefore]
  simp only [bind, Except.bind, List.foldlM_cons, singleStep, if_true]
  cases outcome record value with
  | error fault => rfl
  | ok record => exact foldlM_singleStep_absent hafter _

variable (outcome) in
/-- Reading the object that is written for some members. -/
theorem read_object (hmembers : form.members = [member]) (hkeep : form.keep = none) (depth : Nat)
    (members : List (String × Json)) (rest : List Token)
    (h : ∀ entry ∈ members, entry.1 = member.key → ∀ record rest,
      member.read depth record (tokens entry.2 ++ rest) =
        (outcome record entry.2).map fun record => (record, rest)) :
    form.read (depth + 1) (tokens (.object members) ++ rest) =
      match members.foldlM (singleStep member.key outcome) (form.blank, []) with
      | .error fault => .error fault
      | .ok (record, seen) =>
        if member.presence != .required || seen.contains member.key then .ok (record, rest)
        else .error .misshapen := by
  have hfollows : ∀ entry ∈ members, Reader.Follows (form.readMember depth) id
      (singleStep member.key outcome) entry := fun entry hentry =>
    follows_readMember hmembers hkeep depth entry (h entry hentry)
  have hread := Reader.members_tokens members (form.blank, []) rest hfollows
  rw [List.map_id] at hread
  rw [Reader.tokens_object, List.cons_append]
  simp only [read, readMembers, hread, hmembers]
  cases members.foldlM (singleStep member.key outcome) (form.blank, []) <;> simp [Except.map]

/-- An object with the modelled key in one place reads as the value there does. -/
theorem read_object_once (hmembers : form.members = [member]) (hkeep : form.keep = none)
    (depth : Nat) (before after : List (String × Json)) (value : Json) (found : α → Except Fault α)
    (hbefore : member.key ∉ before.map Prod.fst) (hafter : member.key ∉ after.map Prod.fst)
    (hread : ∀ record rest, member.read depth record (tokens value ++ rest) =
      (found record).map fun record => (record, rest)) (rest : List Token) :
    form.read (depth + 1) (tokens (.object (before ++ (member.key, value) :: after)) ++ rest) =
      (found form.blank).map fun record => (record, rest) := by
  have hentry : ∀ entry ∈ before ++ (member.key, value) :: after, entry.1 = member.key →
      entry.2 = value := by
    intro entry hentry hkey
    rcases List.mem_append.1 hentry with hentry | hentry
    · exact absurd (hkey ▸ List.mem_map_of_mem hentry) hbefore
    · rcases List.mem_cons.1 hentry with rfl | hentry
      · rfl
      · exact absurd (hkey ▸ List.mem_map_of_mem hentry) hafter
  rw [read_object (fun record _ => found record) hmembers hkeep depth _ rest
    fun entry hmem hkey => by rw [hentry entry hmem hkey]; exact hread,
    foldlM_singleStep_once hbefore hafter]
  cases found form.blank <;> simp [Except.map]

/-- An object without the modelled key reads as the blank record, if it may be missing. -/
theorem read_object_absent (hmembers : form.members = [member]) (hkeep : form.keep = none)
    (hpresence : member.presence ≠ .required) (depth : Nat) {members : List (String × Json)}
    (h : member.key ∉ members.map Prod.fst) (rest : List Token) :
    form.read (depth + 1) (tokens (.object members) ++ rest) = .ok (form.blank, rest) := by
  rw [read_object (fun record _ => .ok record) hmembers hkeep depth _ rest
    fun entry hmem hkey => absurd (hkey ▸ List.mem_map_of_mem hmem) h,
    foldlM_singleStep_absent h]
  simp [hpresence]

variable (outcome) in
/-- An object with the modelled key at its start and again later is refused. -/
theorem read_object_again (hmembers : form.members = [member]) (hkeep : form.keep = none)
    (depth : Nat) (after : List (String × Json)) (value : Json)
    (h : ∀ value record rest, member.read depth record (tokens value ++ rest) =
      (outcome record value).map fun record => (record, rest))
    (hvalue : (outcome form.blank value).isOk) (hagain : member.key ∈ after.map Prod.fst)
    (rest : List Token) :
    form.read (depth + 1) (tokens (.object ((member.key, value) :: after)) ++ rest) =
      .error .misshapen := by
  rw [read_object outcome hmembers hkeep depth _ rest fun entry _ _ => h entry.2,
    List.foldlM_cons, singleStep]
  cases houtcome : outcome form.blank value with
  | error fault => rw [houtcome] at hvalue; cases hvalue
  | ok record =>
      have hfold : after.foldlM (singleStep member.key outcome) (record, [member.key]) =
          .error .misshapen := foldlM_singleStep_again hagain record
      simp [Except.map, bind, Except.bind, hfold]

end Record

end SchemaLink.Json
