import SchemaLink.Files.Disk
import SchemaLink.Proofs.SortedMap

/-! # Writing files

Creating directories adds directories and changes no file, however far it gets. Writing a
text changes the one file that the path leads to; where that fails, the file is as it was, or it
is left with the first bytes of the text. -/

namespace SchemaLink.Files

/-- A disk that writes a text completely or not at all. -/
def Disk.Whole (disk : Disk) : Prop :=
  ∀ tree place text reason count, disk.writing tree place text ≠ .cut reason count

namespace Tree

variable {disk : Disk} {tree after : Tree}

/-! ## Places -/

/-- The content of the file at a place, if there is a file. -/
def file? (tree : Tree) (place : Place) : Option Content :=
  match tree.find? place with
  | some (.file content) => some content
  | _ => none

/-- The place that a path leads to, if it leads anywhere. -/
def target (tree : Tree) (path : String) : Place :=
  (Text.pieces '/' path).foldl follow (tree.start path)

theorem walk_eq_ok {place found : Place} {pieces : List String}
    (h : tree.walk place pieces = .ok found) : found = pieces.foldl follow place := by
  induction pieces generalizing place with
  | nil => cases h; rfl
  | cons piece pieces ih =>
      rw [walk] at h
      split at h
      · cases h
      · cases h
      · split at h
        · cases h
        · exact ih h

theorem locate_eq_ok {path : String} {place : Place} (h : tree.locate path = .ok place) :
    place = tree.target path := by
  unfold locate at h
  split at h
  · cases h
  · exact walk_eq_ok h

/-! ## Entries -/

@[simp] theorem find?_nil (tree : Tree) : tree.find? [] = some .directory := rfl

theorem ne_nil_of_find?_ne {place : Place} (h : tree.find? place ≠ some .directory) :
    place ≠ [] := by
  rintro rfl
  exact h rfl

@[simp] theorem workingDirectory_insert (tree : Tree) (place : Place) (entry : Entry) :
    (tree.insert place entry).workingDirectory = tree.workingDirectory := rfl

theorem find?_insert {place : Place} (hplace : place ≠ []) (tree : Tree) (entry : Entry)
    (other : Place) :
    (tree.insert place entry).find? other =
      if other = place then some entry else tree.find? other := by
  unfold find? insert
  by_cases heq : other = place
  · subst heq
    rw [if_pos rfl, if_neg (by simpa using hplace), SortedMap.find?_insert_self]
  · rw [if_neg heq, SortedMap.find?_insert_of_ne heq]

/-- Directories stay where something else is put in. -/
theorem find?_insert_directory {place other : Place}
    (hentry : tree.find? place ≠ some .directory) (entry : Entry)
    (hother : tree.find? other = some .directory) :
    (tree.insert place entry).find? other = some .directory := by
  have hne : other ≠ place := by rintro rfl; exact hentry hother
  rwa [find?_insert (ne_nil_of_find?_ne hentry), if_neg hne]

theorem file?_insert {place : Place} (hplace : place ≠ []) (tree : Tree) (content : Content)
    (other : Place) :
    (tree.insert place (.file content)).file? other =
      if other = place then some content else tree.file? other := by
  unfold file?
  rw [find?_insert hplace]
  by_cases heq : other = place
  · rw [if_pos heq, if_pos heq]
  · rw [if_neg heq, if_neg heq]

/-! ## Directories -/

/-- Nothing is changed, and nothing but directories is added. -/
structure AddsDirectories (tree after : Tree) : Prop where
  workingDirectory : after.workingDirectory = tree.workingDirectory
  kept : ∀ place entry, tree.find? place = some entry → after.find? place = some entry
  added : ∀ place, tree.find? place = none →
    after.find? place = none ∨ after.find? place = some .directory

namespace AddsDirectories

theorem refl (tree : Tree) : tree.AddsDirectories tree := ⟨rfl, fun _ _ h => h, fun _ h => .inl h⟩

theorem trans {middle : Tree} (h : tree.AddsDirectories middle)
    (h' : middle.AddsDirectories after) : tree.AddsDirectories after where
  workingDirectory := h'.workingDirectory.trans h.workingDirectory
  kept place entry hentry := h'.kept place entry (h.kept place entry hentry)
  added place hnone := by
    rcases h.added place hnone with hmiddle | hmiddle
    · exact h'.added place hmiddle
    · exact .inr (h'.kept place _ hmiddle)

theorem file?_eq (h : tree.AddsDirectories after) (place : Place) :
    after.file? place = tree.file? place := by
  unfold file?
  cases hentry : tree.find? place with
  | some entry => rw [h.kept place entry hentry]
  | none => rcases h.added place hentry with hafter | hafter <;> rw [hafter]

theorem target_eq (h : tree.AddsDirectories after) (path : String) :
    after.target path = tree.target path := by
  unfold target start
  rw [h.workingDirectory]

end AddsDirectories

theorem addsDirectories_insert {place : Place} (h : tree.find? place = none) :
    tree.AddsDirectories (tree.insert place .directory) := by
  have hplace : place ≠ [] := by rintro rfl; cases h
  refine ⟨rfl, fun other entry hentry => ?_, fun other hnone => ?_⟩
  · have hne : other ≠ place := by rintro rfl; rw [h] at hentry; cases hentry
    rwa [find?_insert hplace, if_neg hne]
  · rw [find?_insert hplace]
    split
    · exact .inr rfl
    · exact .inl hnone

theorem createAlong_addsDirectories (disk : Disk) (tree : Tree) (created : Bool) (place : Place)
    (pieces : List String) :
    tree.AddsDirectories (tree.createAlong disk created place pieces).2 := by
  induction pieces generalizing tree created place with
  | nil => exact .refl tree
  | cons piece pieces ih =>
      rw [createAlong]
      split
      · exact .refl tree
      · split
        · exact ih tree created _
        · exact .refl tree
        · next hnone =>
          split
          · exact .refl tree
          · exact (addsDirectories_insert hnone).trans (ih _ true _)

theorem createDirectories_addsDirectories (disk : Disk) (tree : Tree) (path : String) :
    tree.AddsDirectories (tree.createDirectories disk path).2 := by
  unfold createDirectories
  split
  · exact .refl tree
  · split
    · exact .refl tree
    · exact createAlong_addsDirectories ..

/-! ## Texts -/

theorem writeText_eq_ok {path text : String}
    (h : tree.writeText disk path text = (.ok (), after)) :
    tree.locate path = .ok (tree.target path) ∧
      tree.find? (tree.target path) ≠ some .directory ∧
        after = tree.insert (tree.target path) (.file (.text text)) := by
  unfold writeText at h
  split at h
  · cases h
  · next place hplace =>
    obtain rfl := locate_eq_ok hplace
    split at h
    · cases h
    · next hentry =>
      split at h
      · cases h
        exact ⟨hplace, hentry, rfl⟩
      · cases h
      · cases h

/-- Writing a text has failed. Its file is as it was, or the disk has cut the text short and the
file has the first bytes of it. All else is as before. -/
structure BreaksOff (disk : Disk) (tree : Tree) (path text : String) (after : Tree) : Prop where
  workingDirectory : after.workingDirectory = tree.workingDirectory
  unchanged : ∀ place ≠ tree.target path, after.file? place = tree.file? place
  atTarget : after.file? (tree.target path) = tree.file? (tree.target path) ∨
    ∃ reason count, disk.writing tree (tree.target path) text = .cut reason count ∧
      after.file? (tree.target path) = some (.firstBytes text count)
  directories : ∀ place, tree.find? place = some .directory → after.find? place = some .directory

namespace BreaksOff

theorem refl (disk : Disk) (tree : Tree) (path text : String) :
    tree.BreaksOff disk path text tree where
  workingDirectory := rfl
  unchanged _ _ := rfl
  atTarget := .inl rfl
  directories _ h := h

theorem of_cut {path text : String} {reason : FileError} {count : Fin text.utf8ByteSize}
    (hentry : tree.find? (tree.target path) ≠ some .directory)
    (hcut : disk.writing tree (tree.target path) text = .cut reason count) :
    tree.BreaksOff disk path text
      (tree.insert (tree.target path) (.file (.firstBytes text count))) where
  workingDirectory := rfl
  unchanged place hplace := by rw [file?_insert (ne_nil_of_find?_ne hentry), if_neg hplace]
  atTarget := by
    refine .inr ⟨reason, count, hcut, ?_⟩
    rw [file?_insert (ne_nil_of_find?_ne hentry), if_pos rfl]
  directories _ := find?_insert_directory hentry _

/-- No file is changed if the disk cuts no text short. -/
theorem file?_eq (hdisk : disk.Whole) {path text : String}
    (h : tree.BreaksOff disk path text after) (place : Place) :
    after.file? place = tree.file? place := by
  by_cases hplace : place = tree.target path
  · subst hplace
    rcases h.atTarget with hsame | ⟨reason, count, hcut, -⟩
    · exact hsame
    · exact absurd hcut (hdisk _ _ _ reason count)
  · exact h.unchanged place hplace

end BreaksOff

theorem writeText_eq_error {path text : String} {reason : FileError}
    (h : tree.writeText disk path text = (.error reason, after)) :
    tree.BreaksOff disk path text after := by
  unfold writeText at h
  split at h
  · cases h
    exact .refl disk _ path text
  · next place hplace =>
    obtain rfl := locate_eq_ok hplace
    split at h
    · cases h
      exact .refl disk _ path text
    · next hentry =>
      split at h
      · cases h
      · cases h
        exact .refl disk _ path text
      · next hcut =>
        cases h
        exact .of_cut hentry hcut

/-- Texts have been written one after another to files. A file has the text that was written to it
last, and all others are as before. -/
structure Receives (tree : Tree) (written : List (String × String)) (after : Tree) : Prop where
  workingDirectory : after.workingDirectory = tree.workingDirectory
  unchanged : ∀ place ∉ written.map fun output => tree.target output.1,
    after.file? place = tree.file? place
  replaced : ∀ earlier path text later, written = earlier ++ (path, text) :: later →
    tree.target path ∉ later.map (fun output => tree.target output.1) →
      after.file? (tree.target path) = some (.text text)
  directories : ∀ place, tree.find? place = some .directory → after.find? place = some .directory

namespace Receives

theorem of_addsDirectories (h : tree.AddsDirectories after) : tree.Receives [] after where
  workingDirectory := h.workingDirectory
  unchanged place _ := h.file?_eq place
  replaced earlier path text later heq := by simp at heq
  directories place := h.kept place _

theorem after_directories {middle : Tree} {written : List (String × String)}
    (h : tree.AddsDirectories middle) (hwritten : middle.Receives written after) :
    tree.Receives written after where
  workingDirectory := hwritten.workingDirectory.trans h.workingDirectory
  unchanged place hplace := by
    rw [hwritten.unchanged place (by simpa only [h.target_eq] using hplace), h.file?_eq]
  replaced earlier path text later heq hlater := by
    have hreplaced := hwritten.replaced earlier path text later heq
    simp only [h.target_eq] at hreplaced
    exact hreplaced hlater
  directories place hplace := hwritten.directories place (h.kept place _ hplace)

/-- One text more, which is written first. -/
theorem cons {path text : String} {written : List (String × String)}
    (hentry : tree.find? (tree.target path) ≠ some .directory)
    (h : (tree.insert (tree.target path) (.file (.text text))).Receives written after) :
    tree.Receives ((path, text) :: written) after where
  workingDirectory := h.workingDirectory
  unchanged place hmem := by
    rw [List.map_cons, List.mem_cons, not_or] at hmem
    rw [h.unchanged place hmem.2, file?_insert (ne_nil_of_find?_ne hentry), if_neg hmem.1]
  replaced earlier path' text' later heq hlater := by
    cases earlier with
    | nil =>
        cases heq
        rw [h.unchanged _ hlater, file?_insert (ne_nil_of_find?_ne hentry), if_pos rfl]
    | cons first earlier =>
        cases heq
        exact h.replaced earlier path' text' later rfl hlater
  directories place hdirectory :=
    h.directories place (find?_insert_directory hentry _ hdirectory)

theorem target_eq {written : List (String × String)} (h : tree.Receives written after)
    (path : String) : after.target path = tree.target path := by
  unfold target start
  rw [h.workingDirectory]

/-- A text more that cannot be written changes no file if the disk cuts no text short. -/
theorem of_whole {before : Tree} {written : List (String × String)} {path text : String}
    (hdisk : disk.Whole) (h : tree.Receives written before)
    (hbreaks : before.BreaksOff disk path text after) : tree.Receives written after where
  workingDirectory := hbreaks.workingDirectory.trans h.workingDirectory
  unchanged place hplace := by rw [hbreaks.file?_eq hdisk, h.unchanged place hplace]
  replaced earlier path text later heq hlater := by
    rw [hbreaks.file?_eq hdisk, h.replaced earlier path text later heq hlater]
  directories place hplace := hbreaks.directories place (h.directories place hplace)

/-- Where no file is written twice, every file has its text. -/
theorem file?_of_nodup {written : List (String × String)} (h : tree.Receives written after)
    (hnodup : (written.map fun output => tree.target output.1).Nodup) {path text : String}
    (hmem : (path, text) ∈ written) : after.file? (tree.target path) = some (.text text) := by
  obtain ⟨earlier, later, rfl⟩ := List.append_of_mem hmem
  rw [List.map_append, List.map_cons] at hnodup
  exact h.replaced earlier path text later rfl
    (List.nodup_cons.1 (List.nodup_append.1 hnodup).2.1).1

end Receives

/-! ## Texts read back -/

theorem walk_of_directories {place found : Place} {pieces : List String}
    (hdirectories : ∀ place, tree.find? place = some .directory →
      after.find? place = some .directory) (h : tree.walk place pieces = .ok found) :
    after.walk place pieces = .ok found := by
  induction pieces generalizing place with
  | nil => exact h
  | cons piece pieces ih =>
      rw [walk] at h ⊢
      split at h
      · cases h
      · cases h
      · next hplace =>
        rw [hdirectories place hplace]
        dsimp only
        split at h
        · cases h
        · next hlength =>
          rw [if_neg hlength]
          exact ih h

/-- A path leads where it led before if all directories are still there. -/
theorem locate_of_directories {path : String} {place : Place}
    (hstart : after.workingDirectory = tree.workingDirectory)
    (hdirectories : ∀ place, tree.find? place = some .directory →
      after.find? place = some .directory) (h : tree.locate path = .ok place) :
    after.locate path = .ok place := by
  unfold locate at h ⊢
  have hsame : after.start path = tree.start path := by
    unfold start
    rw [hstart]
  rw [hsame]
  split at h
  · cases h
  · exact walk_of_directories hdirectories h

theorem writeText_locate {path text : String}
    (h : tree.writeText disk path text = (.ok (), after)) :
    after.locate path = .ok (tree.target path) := by
  obtain ⟨hlocate, hentry, rfl⟩ := writeText_eq_ok h
  exact locate_of_directories (workingDirectory_insert tree _ _)
    (fun place => find?_insert_directory hentry _) hlocate

theorem readText_of_file? {path text : String} {place : Place}
    (hplace : tree.locate path = .ok place) (hfile : tree.file? place = some (.text text)) :
    tree.readText path = .ok text := by
  unfold file? at hfile
  split at hfile
  · next content hentry =>
    cases hfile
    rw [readText, entry, hplace]
    dsimp only
    rw [hentry]
  · cases hfile

end Tree

end SchemaLink.Files
