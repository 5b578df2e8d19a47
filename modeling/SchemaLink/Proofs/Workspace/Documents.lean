import SchemaLink.Proofs.Distinct
import SchemaLink.Proofs.Traversal
import SchemaLink.Workspace.Loading

/-! # Documents of a workspace

Every document is read from a file of its own, and its type is named by what precedes the first dot
of the file name. So files whose names agree up to there are documents of one type, and only the
last of them counts. All documents are kept just if there are no such files. -/

namespace SchemaLink.Workspace

open Files (Entry FileError Tree)

/-! ## Files of documents -/

/-- A file in the directory of a kind of documents. -/
structure DocumentFile where
  kind : TypeKind
  name : String
  deriving DecidableEq, Repr

namespace DocumentFile

def path (file : DocumentFile) (settings : Settings) : String :=
  Files.join (settings.documentDirectory file.kind) file.name

/-- The type that the file is about. -/
def type (file : DocumentFile) : TypeRef := ⟨file.kind, Files.stem file.name⟩

/-- The text of the file is a document. -/
def ReadsAs (file : DocumentFile) (tree : Tree) (settings : Settings) (doc : TypeDocument) : Prop :=
  ∃ text, tree.readText (file.path settings) = .ok text ∧ TypeDocument.parse text = .ok doc

end DocumentFile

/-- A name that ends in `.json` and does not start with a dot. -/
def isDocumentName (name : String) : Bool :=
  Files.extension? name = some "json" && name.toList.head? != some '.'

/-- The names of the files of documents in a directory, in order. -/
def documentNames (tree : Tree) (directory : String) : List String :=
  match tree.list directory with
  | .error _ => []
  | .ok entries => entries.filterMap fun (name, entry) =>
      match entry with
      | .file _ => if isDocumentName name then some name else none
      | .directory => none

/-- The files of all documents, in order. -/
def documentFiles (tree : Tree) (settings : Settings) : List DocumentFile :=
  TypeKind.all.flatMap fun kind =>
    (documentNames tree (settings.documentDirectory kind)).map (DocumentFile.mk kind)

/-! ## Names -/

theorem stem_eq_empty_iff (name : String) :
    Files.stem name = "" ↔ name = "" ∨ name.toList.head? = some '.' := by
  rw [Files.stem, ← String.toList_inj, String.toList_ofList, ← String.toList_inj]
  cases name.toList with
  | nil => simp
  | cons c cs => by_cases hc : c = '.' <;> simp [hc]

/-- A file is about a type just if it is a file of documents. -/
theorem typeName?_eq (name : String) :
    typeName? name = if isDocumentName name then some (Files.stem name) else none := by
  unfold typeName? isDocumentName
  by_cases hext : Files.extension? name = some "json"
  · have hne : name ≠ "" := by
      rintro rfl
      cases hext
    have hstem : (!(Files.stem name).isEmpty) = (name.toList.head? != some '.') := by
      rw [Bool.eq_iff_iff]
      simp [stem_eq_empty_iff, hne]
    simp [hext, hstem]
  · simp [hext]

theorem nameBelow?_eq_some {place : Files.Place} {entry : Files.Place × Entry} {name : String}
    {found : Entry} (h : Tree.nameBelow? place entry = some (name, found)) :
    entry = (place ++ [name], found) := by
  unfold Tree.nameBelow? at h
  split at h
  · split at h
    · next hplace =>
      cases h
      exact Prod.ext hplace rfl
    · cases h
  · cases h

variable {tree : Tree} {settings : Settings} {directory : String} {kind : TypeKind}

/-- What is listed stands directly below some place, and no name is listed twice. -/
theorem list_eq_ok {entries : List (String × Entry)} (h : tree.list directory = .ok entries) :
    (entries.map Prod.fst).Nodup ∧
      ∃ place, ∀ entry ∈ entries, (place ++ [entry.1], entry.2) ∈ tree.entries.toList := by
  unfold Tree.list at h
  split at h
  · cases h
  · cases h
  · next place _ =>
    cases h
    constructor
    · rw [List.Nodup, List.pairwise_map, List.pairwise_filterMap]
      refine (List.pairwise_map.1 tree.entries.keys_nodup).imp ?_
      rintro entry entry' hne ⟨name, found⟩ hname ⟨name', found'⟩ hname' rfl
      exact hne (by rw [nameBelow?_eq_some hname, nameBelow?_eq_some hname'])
    · refine ⟨place, fun entry hentry => ?_⟩
      obtain ⟨listed, hlisted, hbelow⟩ := List.mem_filterMap.1 hentry
      exact nameBelow?_eq_some hbelow ▸ hlisted

/-- A file of documents is listed in the directory of its kind. -/
theorem mem_documentFiles {file : DocumentFile} (h : file ∈ documentFiles tree settings) :
    ∃ entries content, tree.list (settings.documentDirectory file.kind) = .ok entries ∧
      (file.name, Files.Entry.file content) ∈ entries ∧ isDocumentName file.name := by
  obtain ⟨kind, -, hkind⟩ := List.mem_flatMap.1 h
  obtain ⟨name, hname, rfl⟩ := List.mem_map.1 hkind
  unfold documentNames at hname
  split at hname
  · cases hname
  · next entries hlist =>
    obtain ⟨⟨listed, entry⟩, hentry, hfound⟩ := List.mem_filterMap.1 hname
    cases entry with
    | directory => cases hfound
    | file content =>
        dsimp only at hfound
        split at hfound
        · next hdocument =>
          cases hfound
          exact ⟨entries, content, hlist, hentry, hdocument⟩
        · cases hfound

theorem documentNames_eq {names : List String} (h : fileNames tree directory = .ok names) :
    documentNames tree directory = names.filter isDocumentName := by
  unfold fileNames at h
  unfold documentNames
  split at h
  · next hlist =>
    cases h
    rw [hlist]
    rfl
  · cases h
  · next entries hlist =>
    cases h
    rw [hlist, List.filter_filterMap]
    refine List.filterMap_congr fun entry _ => ?_
    rcases entry with ⟨name, file | directory⟩
    · rw [Option.filter_some]
    · rfl

/-! ## Reading all documents -/

/-- A document as it is loaded from a file. -/
def DocumentFile.LoadsAs (tree : Tree) (settings : Settings) (file : DocumentFile)
    (entry : TypeRef × TypeDocument) : Prop :=
  entry.1 = file.type ∧ file.ReadsAs tree settings entry.2

theorem forall₂_of_readDocuments {names : List String} {docs : List (TypeRef × TypeDocument)}
    (h : readDocuments tree (settings.documentDirectory kind) kind names = .ok docs) :
    List.Forall₂ (DocumentFile.LoadsAs tree settings)
      ((names.filter isDocumentName).map (DocumentFile.mk kind)) docs := by
  induction names generalizing docs with
  | nil =>
      cases h
      exact .nil
  | cons name names ih =>
      rw [readDocuments, typeName?_eq] at h
      by_cases hname : isDocumentName name
      · rw [if_pos hname] at h
        rw [List.filter_cons_of_pos hname, List.map_cons]
        dsimp only at h
        split at h
        · cases h
        · next text htext =>
          split at h
          · cases h
          · next doc hdoc =>
            split at h
            · cases h
            · next rest hrest =>
              cases h
              exact .cons ⟨rfl, text, htext, hdoc⟩ (ih hrest)
      · rw [if_neg hname] at h
        rw [List.filter_cons_of_neg hname]
        exact ih h

theorem forall₂_of_loadKind {docs : List (TypeRef × TypeDocument)}
    (h : loadKind tree settings kind = .ok docs) :
    List.Forall₂ (DocumentFile.LoadsAs tree settings)
      ((documentNames tree (settings.documentDirectory kind)).map (DocumentFile.mk kind)) docs := by
  unfold loadKind at h
  dsimp only at h
  cases hnames : fileNames tree (settings.documentDirectory kind) with
  | error error =>
      rw [hnames] at h
      cases h
  | ok names =>
      rw [hnames] at h
      rw [documentNames_eq hnames]
      exact forall₂_of_readDocuments h

/-- The documents are loaded from their files one after another. -/
theorem exists_loaded {documents : AuthoredTypes}
    (h : loadDocuments tree settings = .ok documents) : ∃ loaded, documents = .ofList loaded ∧
      List.Forall₂ (DocumentFile.LoadsAs tree settings) (documentFiles tree settings) loaded := by
  unfold loadDocuments at h
  cases hdocs : TypeKind.all.mapM (loadKind tree settings) with
  | error error =>
      rw [hdocs] at h
      cases h
  | ok docs =>
      rw [hdocs] at h
      cases h
      refine ⟨docs.flatten, rfl, ?_⟩
      exact forall₂_flatMap ((forall₂_of_mapM hdocs).imp fun _ _ => forall₂_of_loadKind)

theorem nodup_documentNames (tree : Tree) (directory : String) :
    (documentNames tree directory).Nodup := by
  unfold documentNames
  cases hlist : tree.list directory with
  | error error => exact .nil
  | ok entries =>
      have hnames := List.pairwise_map.1 (list_eq_ok hlist).1
      refine List.pairwise_filterMap.2 (hnames.imp ?_)
      rintro ⟨name, entry⟩ ⟨name', entry'⟩ hne found hfound found' hfound'
      grind

theorem nodup_documentFiles (tree : Tree) (settings : Settings) :
    (documentFiles tree settings).Nodup := by
  unfold documentFiles
  refine List.nodup_flatMap.2 ⟨fun kind _ => ?_, ?_⟩
  · exact (nodup_documentNames tree _).map fun _ _ heq => by cases heq; rfl
  · have hkinds : TypeKind.all.Nodup := by decide
    refine hkinds.imp fun hne file hfile hfile' => ?_
    obtain ⟨_, -, rfl⟩ := List.mem_map.1 hfile
    obtain ⟨_, -, heq⟩ := List.mem_map.1 hfile'
    exact hne (congrArg DocumentFile.kind heq).symm

/-! ## What is kept -/

theorem DocumentFile.ReadsAs.unique {file : DocumentFile} {doc doc' : TypeDocument}
    (h : file.ReadsAs tree settings doc) (h' : file.ReadsAs tree settings doc') : doc = doc' := by
  obtain ⟨text, htext, hdoc⟩ := h
  obtain ⟨text', htext', hdoc'⟩ := h'
  rw [htext] at htext'
  cases htext'
  exact Except.ok.inj (hdoc.symm.trans hdoc')

section Kept

variable {documents : AuthoredTypes} (h : loadDocuments tree settings = .ok documents)

include h

/-- Every file of documents is read. -/
theorem exists_readsAs {file : DocumentFile} (hfile : file ∈ documentFiles tree settings) :
    ∃ doc, file.ReadsAs tree settings doc := by
  obtain ⟨loaded, -, hloaded⟩ := exists_loaded h
  obtain ⟨entry, hentry, -⟩ := exists_mem_zipWith (f := fun _ entry => entry) hloaded hfile
  exact ⟨entry.2, hentry.2⟩

/-- The document of a type is the one in the last of the files that are about it. -/
theorem find?_loaded (type : TypeRef) (doc : TypeDocument) :
    documents.find? type = some doc ↔
      ∃ file, ((documentFiles tree settings).filter fun file => file.type = type).getLast? =
        some file ∧ file.ReadsAs tree settings doc := by
  obtain ⟨loaded, rfl, hloaded⟩ := exists_loaded h
  have hfilter := List.rel_filter (p := fun file : DocumentFile => file.type = type)
    (q := fun entry : TypeRef × TypeDocument => compare entry.1 type == .eq)
    (fun file entry hentry => by simp [hentry.1, Std.LawfulEqCmp.compare_eq_iff_eq]) hloaded
  have hlast := rel_getLast? hfilter
  rw [SortedMap.find?_ofList]
  generalize ((documentFiles tree settings).filter _).getLast? = file? at hlast
  generalize (loaded.filter _).getLast? = entry? at hlast
  cases hlast with
  | none => simp
  | @some file entry hentry =>
      constructor
      · rintro hdoc
        cases hdoc
        exact ⟨file, rfl, hentry.2⟩
      · rintro ⟨file', hfile', hdoc⟩
        cases hfile'
        exact congrArg some (hentry.2.unique hdoc)

/-- As many documents are kept as there are types that files are about. -/
theorem size_eq_length_iff : documents.size = (documentFiles tree settings).length ↔
    ((documentFiles tree settings).map DocumentFile.type).Nodup := by
  obtain ⟨loaded, rfl, hloaded⟩ := exists_loaded h
  have htypes : loaded.map Prod.fst = (documentFiles tree settings).map DocumentFile.type := by
    rw [← List.forall₂_eq_eq_eq, List.forall₂_map_left_iff, List.forall₂_map_right_iff]
    exact hloaded.flip.imp fun _ _ hentry => hentry.1
  rw [hloaded.length_eq, ← htypes]
  exact SortedMap.size_ofList_eq_iff

/-- The document of a file is kept if no other file is about its type. -/
theorem find?_type_of_nodup (hnodup : ((documentFiles tree settings).map DocumentFile.type).Nodup)
    {file : DocumentFile} (hfile : file ∈ documentFiles tree settings) {doc : TypeDocument}
    (hdoc : file.ReadsAs tree settings doc) : documents.find? file.type = some doc := by
  refine (find?_loaded h file.type doc).2 ⟨file, ?_, hdoc⟩
  have hothers : ((documentFiles tree settings).filter fun other => other.type = file.type) =
      [file] := by
    apply List.perm_singleton.1
    apply (List.perm_ext_iff_of_nodup ((nodup_documentFiles tree settings).filter _)
      (List.nodup_singleton file)).2
    intro other
    rw [List.mem_filter, List.mem_singleton, decide_eq_true_iff]
    constructor
    · rintro ⟨hother, htype⟩
      exact List.inj_on_of_nodup_map hnodup hother hfile htype
    · rintro rfl
      exact ⟨hfile, rfl⟩
  rw [hothers]
  rfl

end Kept

/-- Every file of documents is read, and of the files about one type the last counts. All of them
are kept, each under the type that it is about, just if no two are about the same type. -/
theorem documents_kept_iff {documents : AuthoredTypes}
    (h : loadDocuments tree settings = .ok documents) :
    (documentFiles tree settings).Nodup ∧
      (∀ file ∈ documentFiles tree settings, ∃ doc, file.ReadsAs tree settings doc) ∧
      (∀ type doc, documents.find? type = some doc ↔
        ∃ file, ((documentFiles tree settings).filter fun file => file.type = type).getLast? =
          some file ∧ file.ReadsAs tree settings doc) ∧
      ((documents.size = (documentFiles tree settings).length ∧
          ∀ file ∈ documentFiles tree settings, ∀ doc, file.ReadsAs tree settings doc →
            documents.find? file.type = some doc) ↔
        ((documentFiles tree settings).map DocumentFile.type).Nodup) := by
  refine ⟨nodup_documentFiles tree settings, fun file hfile => exists_readsAs h hfile,
    find?_loaded h, ?_⟩
  constructor
  · rintro ⟨hsize, -⟩
    exact (size_eq_length_iff h).1 hsize
  · intro hnodup
    exact ⟨(size_eq_length_iff h).2 hnodup,
      fun file hfile doc hdoc => find?_type_of_nodup h hnodup hfile hdoc⟩

/-! ## Two books -/

/-- A book, and another file of documents beside it. -/
def shelf (name : String) : Tree where
  entries := .ofList [
    (["human_readable_config"], .directory),
    (["human_readable_config", "entity"], .directory),
    (["human_readable_config", "entity", "book.json"], .file (.text "\x7b\"detail\": 1\x7d")),
    (["human_readable_config", "entity", name], .file (.text "\x7b\"detail\": 2\x7d"))]

/-- The number that a document has for its detail. -/
def detailNumber? (doc : TypeDocument) : Option Json.Number :=
  match doc.detail with
  | some (.number number) => some number
  | _ => none

/-- The types that documents are loaded for, with the numbers in these. -/
def loadedNumbers? (tree : Tree) : Option (List (TypeRef × Option Json.Number)) :=
  (loadDocuments tree {}).toOption.map fun documents =>
    documents.toList.map fun (type, doc) => (type, detailNumber? doc)

theorem exists_of_loadedNumbers? {numbers : List (TypeRef × Option Json.Number)}
    (h : loadedNumbers? tree = some numbers) :
    ∃ documents, loadDocuments tree {} = .ok documents ∧
      documents.toList.map (fun (type, doc) => (type, detailNumber? doc)) = numbers := by
  unfold loadedNumbers? at h
  obtain ⟨documents, hdocuments, hnumbers⟩ := Option.map_eq_some_iff.1 h
  cases hload : loadDocuments tree {} with
  | error error => rw [hload] at hdocuments; cases hdocuments
  | ok loaded => rw [hload] at hdocuments; cases hdocuments; exact ⟨_, rfl, hnumbers⟩

theorem shelf_keeps_both : ∃ documents, loadDocuments (shelf "novel.json") {} = .ok documents ∧
    documents.size = 2 ∧
    ∀ file ∈ documentFiles (shelf "novel.json") {}, ∀ doc,
      file.ReadsAs (shelf "novel.json") {} doc → documents.find? file.type = some doc := by
  have hnumbers : loadedNumbers? (shelf "novel.json") =
      some [(.entity "book", some (.integer 1)), (.entity "novel", some (.integer 2))] := by
    decide +kernel
  obtain ⟨documents, hload, -⟩ := exists_of_loadedNumbers? hnumbers
  obtain ⟨-, -, -, hkept⟩ := documents_kept_iff hload
  obtain ⟨hsize, hfiles⟩ := hkept.2 (by decide +kernel)
  exact ⟨documents, hload, hsize, hfiles⟩

/-- Of two files about one type, the first is not kept. -/
theorem shelf_replaces_first : ∃ documents,
    loadDocuments (shelf "book.v2.json") {} = .ok documents ∧
      documentFiles (shelf "book.v2.json") {} =
        [⟨.entity, "book.json"⟩, ⟨.entity, "book.v2.json"⟩] ∧
      documents.size = 1 ∧
      ∀ doc, DocumentFile.ReadsAs ⟨.entity, "book.json"⟩ (shelf "book.v2.json") {} doc →
        documents.find? (.entity "book") ≠ some doc := by
  have hnumbers : loadedNumbers? (shelf "book.v2.json") =
      some [(.entity "book", some (.integer 2))] := by
    decide +kernel
  obtain ⟨documents, hload, hloaded⟩ := exists_of_loadedNumbers? hnumbers
  have hfiles : documentFiles (shelf "book.v2.json") {} =
      [⟨.entity, "book.json"⟩, ⟨.entity, "book.v2.json"⟩] := by
    decide +kernel
  refine ⟨documents, hload, hfiles, ?_, ?_⟩
  · exact (List.length_map _).symm.trans (congrArg List.length hloaded)
  · rintro doc ⟨text, htext, hdoc⟩ hfound
    have hread : (shelf "book.v2.json").readText "human_readable_config/entity/book.json" =
        .ok "\x7b\"detail\": 1\x7d" := by
      decide +kernel
    have hnumber : (TypeDocument.parse "\x7b\"detail\": 1\x7d").toOption.bind detailNumber? =
        some (.integer 1) := by
      decide +kernel
    obtain rfl : text = _ := Except.ok.inj (htext.symm.trans hread)
    rw [hdoc] at hnumber
    have hlast := List.mem_map_of_mem (f := fun (type, doc) => (type, detailNumber? doc))
      (SortedMap.find?_eq_some_iff.1 hfound)
    rw [hloaded, List.mem_singleton, Prod.mk.injEq] at hlast
    exact absurd (hnumber.symm.trans hlast.2) (by decide)

end SchemaLink.Workspace
