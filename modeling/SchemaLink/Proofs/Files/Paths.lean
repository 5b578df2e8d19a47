import SchemaLink.Proofs.Files.Writing
import SchemaLink.Proofs.Text.Pieces

/-! # Paths below a directory

The pieces of a path below a directory are those of the directory and then its own. -/

namespace SchemaLink.Files

open Text (pieces)

variable {path : String}

theorem isAbsolute_join (h : isAbsolute path = false) (directory : String) :
    isAbsolute (join directory path) = isAbsolute directory := by
  unfold join
  rw [h, if_neg Bool.false_ne_true]
  cases hlist : directory.toList with
  | nil =>
      obtain rfl := String.toList_eq_nil_iff.1 hlist
      have hempty : isAbsolute "" = false := rfl
      simpa [hempty] using h
  | cons c cs => split <;> simp [isAbsolute, hlist]

/-- The pieces of the path of a directory are the first ones of paths below it. -/
theorem pieces_join {directory : String} (hempty : directory ≠ "")
    (hslash : directory.toList.getLast? ≠ some '/') (h : isAbsolute path = false) :
    pieces '/' (join directory path) = pieces '/' directory ++ pieces '/' path := by
  refine Text.pieces_append ?_
  simp [join, h, hempty, hslash]

theorem exists_pieces_join (directory : String) :
    ∃ front, ∀ path, isAbsolute path = false →
      pieces '/' (join directory path) = front ++ pieces '/' path := by
  by_cases hempty : directory = ""
  · subst hempty
    refine ⟨[], fun path hpath => ?_⟩
    simp [join, hpath]
  by_cases hslash : directory.toList.getLast? = some '/'
  · obtain ⟨front, hfront⟩ := List.getLast?_eq_some_iff.1 hslash
    refine ⟨pieces '/' (String.ofList front), fun path hpath => ?_⟩
    refine Text.pieces_append ?_
    simp [join, hpath, hfront]
  · exact ⟨pieces '/' directory, fun path hpath => pieces_join hempty hslash hpath⟩

/-! ## Names -/

/-- Names of files and directories hold no slash, at which paths are cut. -/
def Tree.Named (tree : Tree) : Prop :=
  ∀ place ∈ tree.entries.keys, ∀ name ∈ place, '/' ∉ name.toList

instance (tree : Tree) : Decidable tree.Named :=
  inferInstanceAs (Decidable (∀ place ∈ tree.entries.keys, ∀ name ∈ place, '/' ∉ name.toList))

/-- A name that leads from a directory to what has this name there. -/
structure IsEntryName (name : String) : Prop where
  no_slash : '/' ∉ name.toList
  ne_empty : name ≠ ""
  ne_here : name ≠ "."
  ne_above : name ≠ ".."

namespace IsEntryName

variable {name : String} (h : IsEntryName name)

include h

theorem isAbsolute_eq : isAbsolute name = false := by
  have hhead : name.toList.head? ≠ some '/' := fun hhead => h.no_slash (List.mem_of_head? hhead)
  simpa [isAbsolute] using hhead

theorem pieces_eq : pieces '/' name = [name] := Text.pieces_of_not_mem h.no_slash

theorem follow_eq (place : Place) : follow place name = place ++ [name] := by
  have hidle : isIdle name = false := by simp [isIdle, h.ne_empty, h.ne_here]
  rw [follow, hidle, if_neg Bool.false_ne_true, if_neg h.ne_above]

/-- The path of what has the name in a directory ends in the name. -/
theorem exists_toList_join (directory : String) :
    ∃ front, (join directory name).toList = front ++ name.toList := by
  unfold join
  rw [h.isAbsolute_eq, if_neg Bool.false_ne_true]
  split
  · exact ⟨directory.toList, String.toList_append⟩
  · exact ⟨directory.toList ++ ['/'], by simp⟩

theorem join_ne_empty (directory : String) : join directory name ≠ "" := by
  obtain ⟨front, hjoin⟩ := h.exists_toList_join directory
  rw [Ne, ← String.toList_eq_nil_iff, hjoin, List.append_eq_nil_iff, String.toList_eq_nil_iff]
  exact fun hnil => h.ne_empty hnil.2

theorem getLast?_join (directory : String) :
    (join directory name).toList.getLast? ≠ some '/' := by
  obtain ⟨front, hjoin⟩ := h.exists_toList_join directory
  have hname : name.toList ≠ [] := mt String.toList_eq_nil_iff.1 h.ne_empty
  rw [hjoin, List.getLast?_append_of_ne_nil _ hname]
  exact fun hlast => h.no_slash (List.mem_of_getLast? hlast)

end IsEntryName

/-- A path below a directory leads on from where the directory is. -/
theorem exists_target_join (tree : Tree) (directory : String) :
    ∃ base, ∀ first second, IsEntryName first → IsEntryName second →
      tree.target (join (join directory first) second) = base ++ [first, second] := by
  obtain ⟨front, hfront⟩ := exists_pieces_join directory
  refine ⟨front.foldl follow (tree.start directory), fun first second hfirst hsecond => ?_⟩
  have hstart : tree.start (join (join directory first) second) = tree.start directory := by
    unfold Tree.start
    rw [isAbsolute_join hsecond.isAbsolute_eq, isAbsolute_join hfirst.isAbsolute_eq]
  have hpieces : pieces '/' (join (join directory first) second) = front ++ [first, second] := by
    rw [pieces_join (hfirst.join_ne_empty directory) (hfirst.getLast?_join directory)
      hsecond.isAbsolute_eq, hfront first hfirst.isAbsolute_eq, hfirst.pieces_eq,
      hsecond.pieces_eq, List.append_assoc]
    rfl
  rw [Tree.target, hstart, hpieces, List.foldl_append]
  simp [hfirst.follow_eq, hsecond.follow_eq]

end SchemaLink.Files
