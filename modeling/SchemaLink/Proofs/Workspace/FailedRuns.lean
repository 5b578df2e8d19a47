import SchemaLink.Proofs.Files.Writing
import SchemaLink.Proofs.Ids.Allocation
import SchemaLink.Workspace.Run

/-! # Runs that fail

A run that fails before it writes leaves everything as it was. One that fails while writing has
written some of its documents, the first ones in order, and each of them completely. The file that
it fails at may be left with the first bytes of its text. No other file is touched, so none but
this one is ever half replaced. -/

namespace SchemaLink.Workspace

open Files (Disk FileError Tree)

variable {disk : Disk} {tree after : Tree} {path text : String} {error : WorkspaceError}

/-! ## One document -/

/-- A file could not be written, or the directory that it belongs into could not be created. -/
def Fails (path : String) (error : WorkspaceError) : Prop :=
  ∃ place reason, error = .file place reason ∧ (place = path ∨ Files.parent? path = some place)

theorem prepareDirectory_addsDirectories (disk : Disk) (tree : Tree) (path : String) :
    tree.AddsDirectories (prepareDirectory disk tree path).2 := by
  unfold prepareDirectory
  split
  · exact .refl tree
  · exact tree.createDirectories_addsDirectories disk _

theorem fails_of_prepareDirectory (h : (prepareDirectory disk tree path).1 = .error error) :
    Fails path error := by
  unfold prepareDirectory at h
  split at h
  · cases h
  · next directory hdirectory =>
    dsimp only at h
    cases hcreated : (tree.createDirectories disk directory).1 with
    | ok created => rw [hcreated] at h; cases h
    | error reason =>
        rw [hcreated] at h
        cases h
        exact ⟨directory, reason, rfl, .inr hdirectory⟩

/-- The directory of a document cannot be prepared, or the text is written into a prepared one. -/
theorem writeDocument_cases {result : Except WorkspaceError Unit}
    (h : writeDocument disk tree path text = (result, after)) :
    (∃ error, result = .error error ∧ Fails path error ∧ tree.AddsDirectories after) ∨
      ∃ prepared written, result = written.mapError (.file path) ∧
        tree.AddsDirectories prepared ∧ prepared.writeText disk path text = (written, after) := by
  have hprepared := prepareDirectory_addsDirectories disk tree path
  unfold writeDocument at h
  split at h
  · next error _ hprepare =>
    cases h
    rw [hprepare] at hprepared
    exact .inl ⟨error, rfl, fails_of_prepareDirectory (by rw [hprepare]), hprepared⟩
  · next prepared hprepare =>
    cases h
    rw [hprepare] at hprepared
    exact .inr ⟨prepared, _, rfl, hprepared, rfl⟩

theorem exists_prepared_of_ok (h : writeDocument disk tree path text = (.ok (), after)) :
    ∃ prepared, tree.AddsDirectories prepared ∧
      prepared.writeText disk path text = (.ok (), after) := by
  rcases writeDocument_cases h with
    ⟨_, herror, -⟩ | ⟨prepared, written, hwritten, hprepared, hwrite⟩
  · cases herror
  · cases written with
    | error reason => cases hwritten
    | ok _ => exact ⟨prepared, hprepared, hwrite⟩

/-- A document that fails has nothing of its text written, or the disk has cut it short. -/
theorem writeDocument_eq_error (h : writeDocument disk tree path text = (.error error, after)) :
    Fails path error ∧
      ∃ before, tree.AddsDirectories before ∧ before.BreaksOff disk path text after := by
  rcases writeDocument_cases h with
    ⟨_, herror, hfails, hdirectories⟩ | ⟨prepared, written, hwritten, hprepared, hwrite⟩
  · cases herror
    exact ⟨hfails, after, hdirectories, .refl disk after path text⟩
  · cases written with
    | error reason =>
        cases hwritten
        exact ⟨⟨path, reason, rfl, .inl rfl⟩, prepared, hprepared, Tree.writeText_eq_error hwrite⟩
    | ok _ => cases hwritten

theorem writeDocument_eq_ok {written : List (String × String)} {last : Tree}
    (h : writeDocument disk tree path text = (.ok (), after))
    (hwritten : after.Receives written last) : tree.Receives ((path, text) :: written) last := by
  obtain ⟨prepared, hprepared, hwrite⟩ := exists_prepared_of_ok h
  obtain ⟨-, hentry, rfl⟩ := Tree.writeText_eq_ok hwrite
  exact .after_directories hprepared (.cons hentry hwritten)

/-! ## All documents -/

theorem writeDocuments_eq_ok {outputs : List (String × String)}
    (h : writeDocuments disk tree outputs = (.ok (), after)) : tree.Receives outputs after := by
  induction outputs generalizing tree with
  | nil =>
      cases h
      exact .of_addsDirectories (.refl _)
  | cons output outputs ih =>
      rw [writeDocuments] at h
      split at h
      · cases h
      · next middle hfirst => exact writeDocument_eq_ok hfirst (ih h)

/-- The documents before the first that cannot be written are written. -/
theorem writeDocuments_eq_error {outputs : List (String × String)}
    (h : writeDocuments disk tree outputs = (.error error, after)) :
    ∃ written path text rest before, outputs = written ++ (path, text) :: rest ∧
      Fails path error ∧ tree.Receives written before ∧
      before.BreaksOff disk path text after := by
  induction outputs generalizing tree with
  | nil => cases h
  | cons output outputs ih =>
      rcases output with ⟨path, text⟩
      rw [writeDocuments] at h
      split at h
      · next failed hfirst =>
        cases h
        obtain ⟨hfails, before, hdirectories, hbreaks⟩ := writeDocument_eq_error hfirst
        exact ⟨[], path, text, outputs, before, rfl, hfails, .of_addsDirectories hdirectories,
          hbreaks⟩
      · next middle hfirst =>
        obtain ⟨written, path', text', rest, before, rfl, hfails, hwritten, hbreaks⟩ := ih h
        exact ⟨(path, text) :: written, path', text', rest, before, rfl, hfails,
          writeDocument_eq_ok hfirst hwritten, hbreaks⟩

/-! ## Whole runs -/

variable {μ : Type} {mint : μ → String × μ} {settings : Settings} {minter minter' : μ}

/-- A run that fails before everything has been compiled leaves the tree alone. Otherwise it fails
at one of its files, when those before have been written and those from there on have not; only if
the disk cuts texts short can this one have changed. -/
theorem failed_run_keeps_files
    (h : run disk mint tree settings minter = (.error error, after, minter')) :
    ((check mint tree settings minter).1 = .error error ∧ after = tree) ∨
      ∃ report written path text rest before, (check mint tree settings minter).1 = .ok report ∧
        outputs settings report = written ++ (path, text) :: rest ∧ Fails path error ∧
        tree.Receives written before ∧ before.BreaksOff disk path text after ∧
        (disk.Whole → tree.Receives written after) := by
  unfold run at h
  split at h
  · next hcheck =>
    cases h
    exact .inl ⟨by rw [hcheck], rfl⟩
  · next report _ hcheck =>
    split at h
    · next hwrite =>
      cases h
      obtain ⟨written, path, text, rest, before, houtputs, hfails, hwritten, hbreaks⟩ :=
        writeDocuments_eq_error hwrite
      exact .inr ⟨report, written, path, text, rest, before, by rw [hcheck], houtputs, hfails,
        hwritten, hbreaks, fun hdisk => hwritten.of_whole hdisk hbreaks⟩
    · cases h

/-! ## A file that is too long -/

/-- A disk on which no file has more bytes than a limit. -/
def limitedDisk (limit : Nat) : Disk where
  creating _ _ := .ok ()
  writing _ _ text :=
    if h : limit < text.utf8ByteSize then .cut .full ⟨limit, h⟩ else .complete

/-- Two documents, one of which has grown since its output was written. -/
def grownBook : Tree where
  entries := .ofList [
    (["human_readable_config"], .directory),
    (["human_readable_config", "entity"], .directory),
    (["human_readable_config", "entity", "author.json"], .file (.text "\x7b\x7d")),
    (["human_readable_config", "entity", "book.json"], .file (.text "\x7b\"detail\": 1\x7d")),
    (["config"], .directory),
    (["config", "entity"], .directory),
    (["config", "entity", "book.json"], .file (.text "\x7b\x7d"))]

/-- The path that a run failed at, and why. -/
def failedAt? : Except WorkspaceError Report → Option (String × FileError)
  | .error (.file path reason) => some (path, reason)
  | _ => none

theorem eq_of_failedAt? {outcome : Except WorkspaceError Report} {reason : FileError}
    (h : failedAt? outcome = some (path, reason)) : outcome = .error (.file path reason) := by
  unfold failedAt? at h
  split at h
  · cases h
    rfl
  · cases h

/-- The author is written, and of the book as much as there is room for. -/
theorem grownBook_cut : ∃ after minter report written path text rest before,
    run (limitedDisk 2) lengthening grownBook {} 1 =
        (.error (.file "config/entity/book.json" .full), after, minter) ∧
      outputs {} report = written ++ (path, text) :: rest ∧
      Fails path (.file "config/entity/book.json" .full) ∧
      grownBook.Receives written before ∧ before.BreaksOff (limitedDisk 2) path text after ∧
      grownBook.file? ["config", "entity", "book.json"] = some (.text "\x7b\x7d") ∧
      after.file? ["config", "entity", "book.json"] = some (.text "\x7b\n") := by
  have hrun : failedAt? (run (limitedDisk 2) lengthening grownBook {} 1).1 =
        some ("config/entity/book.json", .full) ∧
      (run (limitedDisk 2) lengthening grownBook {} 1).2.1.file?
        ["config", "entity", "book.json"] = some (.text "\x7b\n") := by
    decide +kernel
  generalize hresult : run (limitedDisk 2) lengthening grownBook {} 1 = result at hrun
  rcases result with ⟨outcome, after, minter⟩
  obtain rfl := eq_of_failedAt? hrun.1
  rcases failed_run_keeps_files hresult with ⟨-, rfl⟩ |
    ⟨report, written, path, text, rest, before, -, houtputs, hfails, hwritten, hbreaks, -⟩
  · have hbook : grownBook.file? ["config", "entity", "book.json"] = some (.text "\x7b\n") := hrun.2
    exact absurd hbook (by decide)
  · exact ⟨after, minter, report, written, path, text, rest, before, rfl, houtputs, hfails,
      hwritten, hbreaks, rfl, hrun.2⟩

/-! ## A directory in the way -/

/-- Two documents, and a directory where the output of the second belongs. -/
def blockedProject : Tree where
  entries := .ofList [
    (["human_readable_config"], .directory),
    (["human_readable_config", "entity"], .directory),
    (["human_readable_config", "entity", "author.json"], .file (.text "\x7b\x7d")),
    (["human_readable_config", "entity", "book.json"], .file (.text "\x7b\x7d")),
    (["config"], .directory),
    (["config", "entity"], .directory),
    (["config", "entity", "book.json"], .directory)]

/-- A run that fails has written a file that was not there before: the author, before the book is
found to be blocked. -/
theorem failed_run_writes_author : ∃ error after minter,
    run .sound lengthening blockedProject {} 1 = (.error error, after, minter) ∧
      blockedProject.file? ["config", "entity", "author.json"] = none ∧
      after.file? ["config", "entity", "author.json"] = some (.text "\x7b\x7d") := by
  have hrun : failedAt? (run .sound lengthening blockedProject {} 1).1 =
        some ("config/entity/book.json", .isDirectory) ∧
      (run .sound lengthening blockedProject {} 1).2.1.file? ["config", "entity", "author.json"] =
        some (.text "\x7b\x7d") := by
    decide +kernel
  generalize run .sound lengthening blockedProject {} 1 = result at hrun
  rcases result with ⟨outcome, after, minter⟩
  obtain rfl := eq_of_failedAt? hrun.1
  exact ⟨_, after, minter, rfl, rfl, hrun.2⟩

end SchemaLink.Workspace
