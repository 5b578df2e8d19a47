import Mathlib.Logic.Function.Basic
import SchemaLink.Proofs.Ids.Allocation

/-! # Owners of ids

An id belongs to the field that it was minted for. However requests follow one another,
an id is given again only to its owner, as long as this holds of the ids on record and
the minter repeats none. -/

namespace SchemaLink

/-- The type and the name that each id was minted for, as far as ids were minted. -/
abbrev Owners := String → Option (TypeRef × String)

namespace Owners

def Taken (owners : Owners) (id : String) : Prop := (owners id).isSome

/-- Ids keep the owners that they have. -/
def Extends (later earlier : Owners) : Prop :=
  ∀ id key, earlier id = some key → later id = some key

theorem Extends.refl (owners : Owners) : owners.Extends owners := fun _ _ h => h

theorem Extends.trans {first second third : Owners} (h : third.Extends second)
    (h' : second.Extends first) : third.Extends first :=
  fun id key hid => h id key (h' id key hid)

/-- The owners after an id was minted for a field. -/
def mint (owners : Owners) (id : String) (key : TypeRef × String) : Owners :=
  Function.update owners id (some key)

theorem mint_self (owners : Owners) (id : String) (key : TypeRef × String) :
    owners.mint id key id = some key :=
  Function.update_self ..

theorem extends_mint {owners : Owners} {id : String} (h : ¬ owners.Taken id)
    (key : TypeRef × String) : (owners.mint id key).Extends owners := by
  intro other key' hother
  have hne : other ≠ id := by
    rintro rfl
    exact h (Option.isSome_iff_exists.2 ⟨key', hother⟩)
  rw [mint, Function.update_of_ne hne]
  exact hother

/-- What is taken after an id was minted is that id or was taken before. -/
theorem taken_mint {owners : Owners} {id other : String} {key : TypeRef × String}
    (h : (owners.mint id key).Taken other) : other = id ∨ owners.Taken other := by
  by_cases hid : other = id
  · exact .inl hid
  · rw [Taken, mint, Function.update_of_ne hid] at h
    exact .inr h

end Owners

variable {μ : Type} {mint : μ → String × μ} {minter : μ} {history : History}
  {served : List (TypeRef × String)} {owners : Owners}

/-- After an id was minted for a field, the minter still gives ids without an owner only. -/
theorem Fresh.next_owned (h : Fresh mint owners.Taken minter) (key : TypeRef × String) :
    Fresh mint (owners.mint (mint minter).1 key).Taken (mint minter).2 where
  nodup := h.next.nodup
  not_taken {count id} hid htaken := by
    rcases Owners.taken_mint htaken with rfl | htaken
    · exact h.first_not_mem count hid
    · exact h.next.not_taken hid htaken

theorem History.left_cons_subset (key other : TypeRef × String) :
    history.left (key :: served) other ⊆ history.left served other := by
  by_cases h : other = key
  · subst h
    rw [left_cons_self]
    exact (List.tail_sublist _).subset
  · rw [left_cons_of_ne _ _ h]
    exact List.Subset.refl _

/-- Requests are given ids that they own from then on, and no id changes its owner. -/
theorem StableIds.exists_owners (requests : List (TypeRef × String))
    (hleft : ∀ key, ∀ id ∈ history.left served key, owners id = some key)
    (hfresh : Fresh mint owners.Taken minter) :
    let result := (allocate mint).run requests ⟨history, served, minter⟩
    ∃ later : Owners, later.Extends owners ∧ Fresh mint later.Taken result.2.minter ∧
      ∀ entry ∈ requests.zip result.1, later entry.2 = some entry.1 := by
  intro result
  induction requests generalizing served minter owners with
  | nil => exact ⟨owners, .refl _, hfresh, by simp⟩
  | cons first requests ih =>
      cases hrecord : history.left served first with
      | cons id rest =>
          obtain ⟨later, hlater, hfresh', hentries⟩ := ih
            (fun key id hid => hleft key id (History.left_cons_subset first key hid)) hfresh
          have hfirst : owners id = some first := hleft first id (by simp [hrecord])
          simp only [result, run_cons_recorded hrecord]
          refine ⟨later, hlater, hfresh', ?_⟩
          simp only [List.zip_cons_cons, List.forall_mem_cons]
          exact ⟨hlater id first hfirst, hentries⟩
      | nil =>
          -- the ids still on record have owners already, so the minted one is none of them
          have hminted := Owners.extends_mint hfresh.first_not_taken first
          obtain ⟨later, hlater, hfresh', hentries⟩ := ih
            (fun key id hid =>
              hminted id key (hleft key id (History.left_cons_subset first key hid)))
            (hfresh.next_owned first)
          simp only [result, run_cons_minted hrecord]
          refine ⟨later, hlater.trans hminted, hfresh', ?_⟩
          simp only [List.zip_cons_cons, List.forall_mem_cons]
          exact ⟨hlater _ first (owners.mint_self _ first), hentries⟩

end SchemaLink
