import SchemaLink.Proofs.Compilation.FixedPoint
import SchemaLink.Proofs.Compilation.Frame
import SchemaLink.Proofs.Compilation.Sessions
import SchemaLink.Proofs.Files.Paths
import SchemaLink.Proofs.Workspace.Documents
import SchemaLink.Proofs.Workspace.FailedRuns

/-! # Runs that succeed

Every type has a file of its own for its output. A run that succeeds leaves the compiled
documents in these files and touches no other one, and the next run finds on record all ids that
this one has given. -/

namespace SchemaLink.Workspace

open Files (Disk IsEntryName Tree)

variable {disk : Disk} {tree after : Tree} {settings : Settings}

/-! ## Names of types -/

/-- Types are named after files, so their names hold no slash. -/
theorem no_slash_of_loaded (hnamed : tree.Named) {documents : AuthoredTypes}
    (h : loadDocuments tree settings = .ok documents) {type : TypeRef}
    (htype : type ∈ documents.keys) : '/' ∉ type.name.toList := by
  obtain ⟨loaded, rfl, hloaded⟩ := exists_loaded h
  obtain ⟨entry, hentry, rfl⟩ := List.mem_map.1 (SortedMap.mem_keys_ofList.1 htype)
  obtain ⟨file, hfile, hfiletype, -⟩ := exists_of_forall₂_right hloaded hentry
  obtain ⟨entries, content, hlist, hlisted, -⟩ := mem_documentFiles hfile
  obtain ⟨-, place, hplaces⟩ := list_eq_ok hlist
  have hname : '/' ∉ file.name.toList :=
    hnamed _ (List.mem_map_of_mem (hplaces _ hlisted)) file.name (by simp)
  rw [hfiletype, DocumentFile.type, Files.stem, String.toList_ofList]
  exact fun hmem => hname ((List.takeWhile_sublist _).subset hmem)

/-! ## Files of output -/

theorem label_injective {kind kind' : TypeKind} (h : kind.label = kind'.label) : kind = kind' := by
  cases kind <;> cases kind' <;> simp_all [TypeKind.label]

theorem isEntryName_label (kind : TypeKind) : IsEntryName kind.label := by
  cases kind <;> exact ⟨by decide, by decide, by decide, by decide⟩

theorem isEntryName_output {name : String} (h : '/' ∉ name.toList) :
    IsEntryName (name ++ ".json") := by
  have hlong : ∀ short : String, short.length ≤ 2 → name ++ ".json" ≠ short := by
    intro short hshort heq
    have hlength := congrArg String.length heq
    rw [String.length_append] at hlength
    have hextension : ".json".length = 5 := rfl
    omega
  refine ⟨?_, hlong "" (by decide), hlong "." (by decide), hlong ".." (by decide)⟩
  simp [h]

/-- Output of different types leads to different files. -/
theorem eq_of_target_outputPath {type type' : TypeRef} (h : '/' ∉ type.name.toList)
    (h' : '/' ∉ type'.name.toList)
    (heq : tree.target (settings.outputPath type) = tree.target (settings.outputPath type')) :
    type = type' := by
  obtain ⟨base, hbase⟩ := Files.exists_target_join tree settings.outputDirectory
  have htarget : ∀ {type : TypeRef}, '/' ∉ type.name.toList →
      tree.target (settings.outputPath type) = base ++ [type.kind.label, type.name ++ ".json"] :=
    fun h => hbase _ _ (isEntryName_label _) (isEntryName_output h)
  rw [htarget h, htarget h'] at heq
  obtain ⟨hlabel, hname⟩ : type.kind.label = type'.kind.label ∧
      type.name ++ ".json" = type'.name ++ ".json" := by
    simpa using heq
  rcases type with ⟨kind, name⟩
  rcases type' with ⟨kind', name'⟩
  obtain rfl : kind = kind' := label_injective hlabel
  obtain rfl : name = name' := by
    rw [← String.toList_inj, String.toList_append, String.toList_append] at hname
    exact String.toList_inj.1 (List.append_cancel_right hname)
  rfl

/-! ## Texts read back -/

theorem writeDocument_locate {path text : String}
    (h : writeDocument disk tree path text = (.ok (), after)) :
    after.locate path = .ok (tree.target path) := by
  obtain ⟨prepared, hprepared, hwrite⟩ := exists_prepared_of_ok h
  rw [Tree.writeText_locate hwrite, hprepared.target_eq]

/-- What has been written is found where it was written. -/
theorem writeDocuments_locate {outputs : List (String × String)}
    (h : writeDocuments disk tree outputs = (.ok (), after)) {path text : String}
    (hmem : (path, text) ∈ outputs) : after.locate path = .ok (tree.target path) := by
  induction outputs generalizing tree with
  | nil => cases hmem
  | cons output outputs ih =>
      rw [writeDocuments] at h
      split at h
      · cases h
      · next middle hfirst =>
        have hrest := writeDocuments_eq_ok h
        rcases List.mem_cons.1 hmem with rfl | hmem
        · exact Tree.locate_of_directories hrest.workingDirectory hrest.directories
            (writeDocument_locate hfirst)
        · have hmiddle := writeDocument_eq_ok hfirst (.of_addsDirectories (.refl middle))
          rw [ih h hmem, hmiddle.target_eq]

theorem writeDocuments_readText {outputs : List (String × String)}
    (h : writeDocuments disk tree outputs = (.ok (), after))
    (hnodup : (outputs.map fun output => tree.target output.1).Nodup) {path text : String}
    (hmem : (path, text) ∈ outputs) : after.readText path = .ok text :=
  Tree.readText_of_file? (writeDocuments_locate h hmem)
    ((writeDocuments_eq_ok h).file?_of_nodup hnodup hmem)

/-! ## The next run -/

/-- The ids in the output of a report are those of its fields. -/
theorem find?_outputNames_texts {report : Report} {indent : Nat} (hread : report.Readable indent)
    {type : TypeRef} {id name : String} :
    (History.outputNames (report.texts indent) type).find? id = some name ↔
      ∃ field, report.field? type id = some field ∧ field.systemName = name := by
  constructor
  · intro hname
    obtain ⟨text, names, hmem, htext, hfound⟩ := History.exists_output_of_find?_outputNames hname
    obtain ⟨entry, hentry, heq⟩ := List.mem_map.1 hmem
    obtain ⟨rfl, rfl⟩ := Prod.mk.inj heq
    obtain ⟨-, rfl⟩ := CompiledDocument.readOutput_text_eq_ok_iff.1 htext
    exact Report.exists_field?_of_systemNames (SortedMap.find?_eq_some_iff.2 hentry) hfound
  · rintro ⟨field, hfield, rfl⟩
    obtain ⟨output, data, houtput, hdata, hfound⟩ := Report.field?_eq_some_iff.1 hfield
    rw [Report.outputNames_texts hread houtput, CompiledDocument.systemNames, hdata]
    dsimp only
    rw [SortedMap.find?_mapWithKey, hfound]
    rfl

theorem loadHistory_eq {report : Report} {indent : Nat}
    (h : ∀ type doc, report.documents.find? type = some doc →
      tree.readText (settings.outputPath type) = .ok (doc.text indent)) :
    loadHistory tree settings report.documents.keys = .ofOutputs (report.texts indent) := by
  unfold loadHistory History.ofOutputs Report.texts SortedMap.keys
  rw [List.foldl_map, List.foldl_map]
  refine List.foldl_ext _ _ _ fun history entry hentry => ?_
  rw [recallType, h entry.1 entry.2 (SortedMap.find?_eq_some_iff.2 hentry)]
  rfl

/-! ## Whole runs -/

variable {μ : Type} {mint : μ → String × μ} {minter minter' : μ} {report : Report}

theorem compileAll_eq_ok {documents : AuthoredTypes}
    (h : (compileAll mint tree settings minter).1 = .ok (documents, report)) :
    ∃ registry state, loadDocuments tree settings = .ok documents ∧
      compile (StableIds.allocate mint) registry documents
        (.start (loadHistory tree settings documents.keys) minter) = (.ok report, state) := by
  unfold compileAll at h
  dsimp only at h
  cases hregistry : loadRegistry tree settings with
  | error error =>
      rw [hregistry] at h
      cases h
  | ok registry =>
      cases hload : loadDocuments tree settings with
      | error error =>
          rw [hregistry, hload] at h
          cases h
      | ok loaded =>
          rw [hregistry, hload] at h
          dsimp only [bind, Except.bind, pure, Except.pure] at h
          split at h
          · cases h
          · next compiled ids hcompile =>
            cases h
            exact ⟨registry, ids, rfl, hcompile⟩

theorem run_eq_ok (h : run disk mint tree settings minter = (.ok report, after, minter')) :
    ∃ registry documents state, loadDocuments tree settings = .ok documents ∧
      compile (StableIds.allocate mint) registry documents
          (.start (loadHistory tree settings documents.keys) minter) = (.ok report, state) ∧
      writeDocuments disk tree (outputs settings report) = (.ok (), after) := by
  unfold run at h
  split at h
  · cases h
  · next found _ hcheck =>
    split at h
    · cases h
    · next hwrite =>
      cases h
      obtain ⟨documents, hcompiled⟩ : ∃ documents,
          (compileAll mint tree settings minter).1 = .ok (documents, report) := by
        have hresult := congrArg Prod.fst hcheck
        obtain ⟨⟨documents, _⟩, hcompiled, rfl⟩ := exists_of_map_eq_ok hresult
        exact ⟨documents, hcompiled⟩
      obtain ⟨registry, state, hload, hcompile⟩ := compileAll_eq_ok hcompiled
      exact ⟨registry, documents, state, hload, hcompile, hwrite⟩

/-- A run that succeeds has compiled the documents that it loaded. The output of every type is a
file of its own and has the compiled document as it is stored; all other files are as before. From
the output, the ids of all fields are on record under their names, in ascending order. -/
theorem successful_run_writes_outputs (hnamed : tree.Named)
    (h : run disk mint tree settings minter = (.ok report, after, minter')) :
    ∃ documents, loadDocuments tree settings = .ok documents ∧
      report.documents.keys = documents.keys ∧
      (documents.keys.map settings.outputPath).Nodup ∧
      (∀ type doc, report.documents.find? type = some doc →
        after.readText (settings.outputPath type) = .ok (doc.text settings.indent)) ∧
      (∀ place ∉ documents.keys.map fun type => tree.target (settings.outputPath type),
        after.file? place = tree.file? place) ∧
      ∀ type name,
        ((loadHistory after settings documents.keys).ids type name).Pairwise
          (fun a b => compare a b = .lt) ∧
        ∀ id, id ∈ (loadHistory after settings documents.keys).ids type name ↔
          ∃ field, report.field? type id = some field ∧ field.systemName = name := by
  obtain ⟨registry, documents, state, hload, hcompile, hwrite⟩ := run_eq_ok h
  have hkeys := keys_of_compile hcompile
  have htargets : (documents.keys.map fun type => tree.target (settings.outputPath type)).Nodup :=
    documents.keys_nodup.map_on fun type htype type' htype' heq =>
      eq_of_target_outputPath (no_slash_of_loaded hnamed hload htype)
        (no_slash_of_loaded hnamed hload htype') heq
  have houtputs : (outputs settings report).map (fun output => tree.target output.1) =
      documents.keys.map fun type => tree.target (settings.outputPath type) := by
    rw [← hkeys, outputs, SortedMap.keys, List.map_map, List.map_map]
    rfl
  have hread : ∀ type doc, report.documents.find? type = some doc →
      after.readText (settings.outputPath type) = .ok (doc.text settings.indent) := by
    intro type doc hdoc
    refine writeDocuments_readText hwrite (houtputs ▸ htargets) ?_
    exact List.mem_map.2 ⟨(type, doc), SortedMap.find?_eq_some_iff.1 hdoc, rfl⟩
  refine ⟨documents, hload, hkeys, ?_, hread, ?_, ?_⟩
  · refine List.Nodup.of_map tree.target ?_
    rwa [List.map_map]
  · rw [← houtputs]
    exact (writeDocuments_eq_ok hwrite).unchanged
  · have hparsed : ∀ owner doc, documents.find? owner = some doc →
        ∃ text, TypeDocument.parse text = .ok doc := by
      intro owner doc hdoc
      obtain ⟨file, -, text, -, htext⟩ := (find?_loaded hload owner doc).1 hdoc
      exact ⟨text, htext⟩
    have hreadable := Report.readable_of_parse hcompile hparsed settings.indent
    intro type name
    rw [← hkeys, loadHistory_eq hread, History.ids_ofOutputs _ _ (report.nodup_texts _)]
    refine ⟨idsNamed_ascending _ name, fun id => ?_⟩
    rw [mem_idsNamed]
    exact find?_outputNames_texts hreadable

/-! ## A type that is gone -/

/-- A book is authored, and output of an author is left over. -/
def abandonedAuthor : Tree where
  entries := .ofList [
    (["human_readable_config"], .directory),
    (["human_readable_config", "entity"], .directory),
    (["human_readable_config", "entity", "book.json"],
      .file (.text "\x7b\"data\": \x7b\"fields\": [\x7b\"system_name\": \"title\"\x7d]\x7d\x7d")),
    (["config"], .directory),
    (["config", "entity"], .directory),
    (["config", "entity", "author.json"], .file (.text "left over"))]

/-- The title of the book is found again under its new id, and the author stays as it was. -/
theorem abandonedAuthor_left_alone : ∃ report after minter,
    run .sound lengthening abandonedAuthor {} 1 = (.ok report, after, minter) ∧
      after.file? ["config", "entity", "author.json"] = some (.text "left over") ∧
      "n" ∈ (loadHistory after {} [.entity "book"]).ids (.entity "book") "title" := by
  have hrun : (run .sound lengthening abandonedAuthor {} 1).1.toOption.map (fun report =>
      (report.documents.keys,
        (report.field? (.entity "book") "n").map FieldDeclaration.systemName)) =
        some ([.entity "book"], some "title") := by
    decide +kernel
  generalize hresult : run .sound lengthening abandonedAuthor {} 1 = result at hrun
  rcases result with ⟨error | report, after, minter⟩
  · cases hrun
  · obtain ⟨hbook, htitle⟩ := Prod.mk.inj (Option.some.inj hrun)
    obtain ⟨documents, -, hkeys, -, -, hunchanged, hids⟩ :=
      successful_run_writes_outputs (by decide +kernel) hresult
    rw [← hkeys, hbook] at hunchanged hids
    refine ⟨report, after, minter, rfl, ?_, ?_⟩
    · rw [hunchanged _ (by decide +kernel)]
      rfl
    · exact ((hids (.entity "book") "title").2 "n").2 (Option.map_eq_some_iff.1 htitle)

end SchemaLink.Workspace
