import SchemaLink.Document.Basic
import SchemaLink.Proofs.Ids.Allocation

/-! # Requests for the ids of declared fields

A compilation makes one request for every declared field, type by type. What a type
was given is told apart from what the others were, since no type is listed twice. -/

namespace SchemaLink

variable {owner : TypeRef}

/-- The declared fields of a document, in order. -/
def TypeDocument.declared (doc : TypeDocument) : List FieldDeclaration :=
  match doc.data with
  | none => []
  | some data => data.fields

/-- The requests for the ids of some fields of a type. -/
def fieldRequests (owner : TypeRef) (fields : List FieldDeclaration) : List (TypeRef × String) :=
  fields.map fun field => (owner, field.systemName)

/-- The requests for the ids of all declared fields, type by type. -/
def requests (documents : List (TypeRef × TypeDocument)) : List (TypeRef × String) :=
  documents.flatMap fun (owner, doc) => fieldRequests owner doc.declared

/-- The ids among those given to requests that went to a type, in order. -/
def givenTo (type : TypeRef) (requests : List (TypeRef × String)) (given : List String) :
    List String :=
  ((requests.zip given).filter fun entry => entry.1.1 = type).map Prod.snd

/-- The ids among those given to fields that went to those of one name, in order. -/
def idsOfName (name : String) (fields : List FieldDeclaration) (given : List String) :
    List String :=
  ((fields.zip given).filter fun entry => entry.1.systemName = name).map Prod.snd

/-! ## Ids of one type -/

theorem mem_zip_fieldRequests {fields : List FieldDeclaration} {given : List String}
    {entry : (TypeRef × String) × String} (h : entry ∈ (fieldRequests owner fields).zip given) :
    entry.1.1 = owner := by
  obtain ⟨field, -, hfield⟩ := List.mem_map.1 (List.of_mem_zip h).1
  rw [← hfield]

theorem fst_of_mem_requests {docs : List (TypeRef × TypeDocument)} {key : TypeRef × String}
    (h : key ∈ requests docs) : key.1 ∈ docs.map Prod.fst := by
  rcases List.mem_flatMap.1 h with ⟨⟨owner, doc⟩, hdoc, hkey⟩
  rcases List.mem_map.1 hkey with ⟨field, -, rfl⟩
  exact List.mem_map_of_mem hdoc

section TwoParts

variable {docs : List (TypeRef × TypeDocument)} {fields : List FieldDeclaration}
  {given given' : List String}

theorem filter_zip_head (howner : owner ∉ docs.map Prod.fst)
    (h : given.length = (fieldRequests owner fields).length) :
    ((fieldRequests owner fields ++ requests docs).zip (given ++ given')).filter
        (fun entry => entry.1.1 = owner) = (fieldRequests owner fields).zip given := by
  have hhead : ((fieldRequests owner fields).zip given).filter (fun entry => entry.1.1 = owner) =
      (fieldRequests owner fields).zip given :=
    List.filter_eq_self.2 fun entry hentry => decide_eq_true (mem_zip_fieldRequests hentry)
  have hrest : ((requests docs).zip given').filter (fun entry => entry.1.1 = owner) = [] := by
    apply List.filter_eq_nil_iff.2
    intro entry hentry
    have hmem := fst_of_mem_requests (List.of_mem_zip hentry).1
    simpa using fun heq : entry.1.1 = owner => howner (heq ▸ hmem)
  rw [List.zip_append h.symm, List.filter_append, hhead, hrest, List.append_nil]

theorem filter_zip_rest {type : TypeRef} (htype : type ≠ owner)
    (h : given.length = (fieldRequests owner fields).length) :
    ((fieldRequests owner fields ++ requests docs).zip (given ++ given')).filter
        (fun entry => entry.1.1 = type) =
      ((requests docs).zip given').filter fun entry => entry.1.1 = type := by
  have hhead : ((fieldRequests owner fields).zip given).filter (fun entry => entry.1.1 = type) =
      [] := by
    apply List.filter_eq_nil_iff.2
    intro entry hentry
    simpa [mem_zip_fieldRequests hentry] using Ne.symm htype
  rw [List.zip_append h.symm, List.filter_append, hhead, List.nil_append]

/-- The first of some types takes the first of the ids. -/
theorem givenTo_head (howner : owner ∉ docs.map Prod.fst)
    (h : given.length = (fieldRequests owner fields).length) :
    givenTo owner (fieldRequests owner fields ++ requests docs) (given ++ given') = given := by
  rw [givenTo, filter_zip_head howner h, List.map_snd_zip (Nat.le_of_eq h)]

/-- Other types take none of them. -/
theorem givenTo_rest {type : TypeRef} (htype : type ≠ owner)
    (h : given.length = (fieldRequests owner fields).length) :
    givenTo type (fieldRequests owner fields ++ requests docs) (given ++ given') =
      givenTo type (requests docs) given' := by
  rw [givenTo, filter_zip_rest htype h, givenTo]

end TwoParts

section OneType

variable {docs : List (TypeRef × TypeDocument)} {doc : TypeDocument} {given : List String}

/-- What a type was given stands beside its own requests. -/
theorem filter_zip_requests (hdoc : (owner, doc) ∈ docs) (hnodup : (docs.map Prod.fst).Nodup)
    (h : given.length = (requests docs).length) :
    ((requests docs).zip given).filter (fun entry => entry.1.1 = owner) =
        (fieldRequests owner doc.declared).zip (givenTo owner (requests docs) given) ∧
      (givenTo owner (requests docs) given).length = doc.declared.length := by
  induction docs generalizing given with
  | nil => cases hdoc
  | cons entry docs ih =>
      rcases entry with ⟨first, firstDoc⟩
      rcases List.nodup_cons.1 hnodup with ⟨hfirst, hdocs⟩
      have hrequests : requests ((first, firstDoc) :: docs) =
          fieldRequests first firstDoc.declared ++ requests docs := rfl
      obtain ⟨own, others, rfl, hown⟩ : ∃ own others, given = own ++ others ∧
          own.length = (fieldRequests first firstDoc.declared).length := by
        refine ⟨_, _, (List.take_append_drop (fieldRequests first firstDoc.declared).length
          given).symm, ?_⟩
        rw [hrequests, List.length_append] at h
        rw [List.length_take]
        omega
      have hothers : others.length = (requests docs).length := by
        rw [hrequests, List.length_append, List.length_append] at h
        omega
      rw [hrequests]
      by_cases howner : owner = first
      · subst howner
        have hsame : doc = firstDoc := by
          rcases List.mem_cons.1 hdoc with heq | hmem
          · exact (Prod.mk.inj heq).2
          · exact absurd (List.mem_map_of_mem hmem) hfirst
        subst hsame
        rw [filter_zip_head hfirst hown, givenTo_head hfirst hown]
        exact ⟨rfl, by simpa [fieldRequests] using hown⟩
      · have hmem : (owner, doc) ∈ docs := by
          rcases List.mem_cons.1 hdoc with heq | hmem
          · exact absurd (Prod.mk.inj heq).1 howner
          · exact hmem
        rw [filter_zip_rest howner hown, givenTo_rest howner hown]
        exact ih hmem hdocs hothers

theorem length_givenTo (hdoc : (owner, doc) ∈ docs) (hnodup : (docs.map Prod.fst).Nodup)
    (h : given.length = (requests docs).length) :
    (givenTo owner (requests docs) given).length = doc.declared.length :=
  (filter_zip_requests hdoc hnodup h).2

/-- The ids of the declarations of a name are those that its requests were given. -/
theorem idsOfName_givenTo (hdoc : (owner, doc) ∈ docs) (hnodup : (docs.map Prod.fst).Nodup)
    (h : given.length = (requests docs).length) (name : String) :
    idsOfName name doc.declared (givenTo owner (requests docs) given) =
      idsFor (owner, name) (requests docs) given := by
  have hkey : ((requests docs).zip given).filter (fun entry => entry.1 = (owner, name)) =
      (((requests docs).zip given).filter fun entry => entry.1.1 = owner).filter
        fun entry => entry.1.2 = name := by
    rw [List.filter_filter]
    apply List.filter_congr
    intro entry _
    rw [← Bool.decide_and]
    exact decide_eq_decide.2 (by rw [Prod.ext_iff, and_comm])
  rw [idsFor, hkey, (filter_zip_requests hdoc hnodup h).1, idsOfName, fieldRequests,
    List.zip_map_left, List.filter_map, List.map_map]
  rfl

end OneType

theorem length_idsOfName {fields : List FieldDeclaration} {given : List String}
    (h : given.length = fields.length) (name : String) :
    (idsOfName name fields given).length =
      fields.countP fun field => field.systemName = name := by
  rw [idsOfName, List.length_map, ← List.countP_eq_length_filter]
  conv_rhs => rw [← List.map_fst_zip (Nat.le_of_eq h.symm), List.countP_map]
  rfl

theorem idsFor_fieldRequests (owner : TypeRef) (name : String) (fields : List FieldDeclaration)
    (given : List String) :
    idsFor (owner, name) (fieldRequests owner fields) given = idsOfName name fields given := by
  simp [idsFor, fieldRequests, idsOfName, List.zip_map_left, List.filter_map, Function.comp_def]

/-- Ids given to fields are determined by what each name gets. -/
theorem eq_of_idsOfName {fields : List FieldDeclaration} {given given' : List String}
    (hlength : given.length = fields.length) (hlength' : given'.length = fields.length)
    (h : ∀ name, idsOfName name fields given = idsOfName name fields given') : given = given' := by
  -- of whatever type the fields are
  let owner : TypeRef := .entity ""
  have hrequests : (fieldRequests owner fields).length = fields.length := List.length_map _
  refine eq_of_idsFor (hlength.trans hrequests.symm) (hlength'.trans hrequests.symm) fun key => ?_
  rcases key with ⟨type, name⟩
  by_cases htype : type = owner
  · subst htype
    rw [idsFor_fieldRequests, idsFor_fieldRequests, h name]
  · have hnone : (type, name) ∉ fieldRequests owner fields := by simp [fieldRequests, Ne.symm htype]
    have hcount := List.count_eq_zero.2 hnone
    rw [List.eq_nil_of_length_eq_zero ((length_idsFor (hlength.trans hrequests.symm)).trans hcount),
      List.eq_nil_of_length_eq_zero ((length_idsFor (hlength'.trans hrequests.symm)).trans hcount)]

/-- A name is requested as often as it is declared. -/
theorem count_requests {docs : List (TypeRef × TypeDocument)} {doc : TypeDocument}
    (hdoc : (owner, doc) ∈ docs) (hnodup : (docs.map Prod.fst).Nodup) (name : String) :
    (requests docs).count (owner, name) =
      doc.declared.countP fun field => field.systemName = name := by
  let given := (requests docs).map Prod.snd
  have hgiven : given.length = (requests docs).length := List.length_map _
  rw [← length_idsFor hgiven, ← idsOfName_givenTo hdoc hnodup hgiven]
  exact length_idsOfName (length_givenTo hdoc hnodup hgiven) name

/-- No id is requested for a type that is not listed. -/
theorem count_requests_of_not_mem {docs : List (TypeRef × TypeDocument)}
    (howner : owner ∉ docs.map Prod.fst) (name : String) :
    (requests docs).count (owner, name) = 0 :=
  List.count_eq_zero.2 fun h => howner (fst_of_mem_requests h)

end SchemaLink
