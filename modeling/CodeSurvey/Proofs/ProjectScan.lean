import CodeSurvey.Scan.Basic
import CodeSurvey.Proofs.WalkOrder

/-!
# What a scan collects from its projects

A scan that is not cancelled looks at every file of every project. This file says which contents
and texts it takes from a file, what of them reaches the candidates and the identifiers of a
project, and from what the report is put together.

## Key results

- `scan_eq`: a scan gives a report, if its workers can be had
- `candidates_scanProject`: the candidates of a project are its hashable files, in walk order
- `identifierDetails_scanProject`: its identifiers are the blocks of its parsed files
- `held_record` / `parsed_record`: what is hashed and what is parsed of one file
-/

namespace CodeSurvey

/-! ## Drafts -/

namespace ProjectDraft

/-- The candidate that the record of a hashable file adds to a draft. -/
def candidateOf (draft : ProjectDraft) (record : FileRecord) : Candidate :=
  ⟨draft.index, draft.project.name, record.relativePath, record.absolutePath⟩

@[simp] theorem index_addRecord (draft : ProjectDraft) (record : FileRecord) :
    (draft.addRecord record).index = draft.index := rfl

@[simp] theorem name_addRecord (draft : ProjectDraft) (record : FileRecord) :
    (draft.addRecord record).project.name = draft.project.name := by
  simp only [addRecord]
  split <;> rfl

@[simp] theorem candidateOf_addRecord (draft : ProjectDraft) (record : FileRecord) :
    candidateOf (draft.addRecord record) = candidateOf draft := by
  funext other
  simp only [candidateOf, index_addRecord, name_addRecord]

theorem rootPath_addRecord (draft : ProjectDraft) (record : FileRecord) :
    (draft.addRecord record).project.rootPath = draft.project.rootPath := by
  simp only [addRecord]
  split <;> rfl

theorem candidates_addRecord (draft : ProjectDraft) (record : FileRecord) :
    (draft.addRecord record).candidates =
      draft.candidates ++ if record.hashable then [draft.candidateOf record] else [] := by
  simp only [addRecord]
  split
  · rfl
  · exact (List.append_nil _).symm

theorem identifierDetails_addRecord (draft : ProjectDraft) (record : FileRecord) :
    (draft.addRecord record).project.identifierDetails =
      draft.project.identifierDetails ++ record.parsed.elim [] ParsedFile.identifiers := by
  simp only [addRecord]
  cases record.parsed with
  | none => exact (List.append_nil _).symm
  | some parsed => rfl

theorem files_addRecord (draft : ProjectDraft) (record : FileRecord) :
    (draft.addRecord record).project.files =
      draft.project.files ++ (record.parsed.map ParsedFile.summary).toList := by
  simp only [addRecord]
  cases record.parsed with
  | none => exact (List.append_nil _).symm
  | some parsed => rfl

/-- Records add the candidates of the hashable ones among them, in order. -/
theorem candidates_foldl_addRecord (draft : ProjectDraft) (records : List FileRecord) :
    (records.foldl addRecord draft).candidates =
      draft.candidates ++ (records.filter FileRecord.hashable).map draft.candidateOf := by
  induction records generalizing draft with
  | nil => exact (List.append_nil _).symm
  | cons record rest ih =>
    rw [List.foldl_cons, ih, candidates_addRecord, candidateOf_addRecord, List.append_assoc,
      List.filter_cons]
    split <;> rfl

/-- What each record adds to the end of a list of the project, all records add in order. -/
theorem foldl_addRecord_appends {α : Type} (list : Project → List α) (part : FileRecord → List α)
    (hadd : ∀ (draft : ProjectDraft) (record : FileRecord),
      list (draft.addRecord record).project = list draft.project ++ part record)
    (draft : ProjectDraft) (records : List FileRecord) :
    list (records.foldl addRecord draft).project = list draft.project ++ records.flatMap part := by
  induction records generalizing draft with
  | nil => exact (List.append_nil _).symm
  | cons record rest ih =>
    rw [List.foldl_cons, ih, hadd, List.append_assoc, List.flatMap_cons]

/-- What no record changes of the project stays. -/
theorem foldl_addRecord_keeps {α : Type} (part : Project → α)
    (hadd : ∀ (draft : ProjectDraft) (record : FileRecord),
      part (draft.addRecord record).project = part draft.project)
    (draft : ProjectDraft) (records : List FileRecord) :
    part (records.foldl addRecord draft).project = part draft.project := by
  induction records generalizing draft with
  | nil => rfl
  | cons record rest ih => rw [List.foldl_cons, ih, hadd]

end ProjectDraft

/-! ## Files -/

namespace Analysis

/-- The content that a file brings to the search for duplicates: its name is not ignored, and it
has between one and `maxFileSize` bytes. -/
def content? (system : FileSystem) (settings : ScanSettings) (path : Path) : Option ByteArray :=
  if settings.isIgnoredFile (path.fileName?.getD "") then none
  else (system.read? path).filter fun content => isHashable settings content.size

/-- The text that is parsed of a file: besides, its extension is not binary and it is UTF-8. -/
def parsedText? (system : FileSystem) (settings : ScanSettings) (path : Path) : Option String :=
  if path.extension?.any settings.isBinaryExtension then none
  else (content? system settings path).bind String.fromUTF8?

/-- A file that can be read has the size of its content. -/
theorem size?_of_read? {system : FileSystem} {path : Path} {content : ByteArray}
    (h : system.read? path = some content) : system.size? path = some content.size := by
  simp only [FileSystem.read?, Option.bind_eq_some_iff] at h
  obtain ⟨entry, hentry, hcontent⟩ := h
  cases entry with
  | file other =>
    obtain rfl := Option.some.inj hcontent
    rw [FileSystem.size?, hentry]
    rfl
  -- only files have a content
  | directory entries => exact nomatch hcontent
  | link target => exact nomatch hcontent

variable (system : FileSystem) (settings : Settings) (root path : Path)

/-- A file with an ignored name leaves no record. -/
theorem record_examine_of_ignored
    (h : settings.scan.isIgnoredFile (path.fileName?.getD "") = true) :
    (examine system settings root path).record = none := by
  rw [examine, if_pos h]

/-- The text of a file is read exactly if it is to be parsed. -/
theorem source_eq_ok_some_iff {size : Nat} (hsize : system.size? path = some size)
    (h : settings.scan.isIgnoredFile (path.fileName?.getD "") = false) (text : String) :
    source system settings.scan path size = .ok (some text) ↔
      parsedText? system settings.scan path = some text := by
  simp only [source, parsedText?, content?, h]
  by_cases hbinary : path.extension?.any settings.scan.isBinaryExtension = true
  · simp only [hbinary, Bool.true_or, if_true]
    split <;> simp
  · rw [Bool.not_eq_true] at hbinary
    simp only [hbinary, Bool.false_or, decide_eq_true_eq, Bool.false_eq_true, if_false]
    cases hread : system.read? path with
    | none =>
      -- a file that cannot be read has no text, whatever its size
      split
      · simp
      · split <;> simp
    | some content =>
      obtain rfl := Option.some.inj (hsize.symm.trans (size?_of_read? hread))
      by_cases hlarge : settings.scan.maxFileSize < content.size
      · have hsmall : isHashable settings.scan content.size = false := by
          simp [isHashable]
          omega
        simp [hlarge, hsmall, Option.filter_some]
      · by_cases hempty : content.size = 0
        · simp [hempty, isHashable, Option.filter_some]
        · have hhashable : isHashable settings.scan content.size = true := by
            simp [isHashable]
            omega
          simp only [hlarge, hempty, hhashable, if_false, Option.filter_some, if_true,
            Option.bind_some]
          cases String.fromUTF8? content <;> simp

/-- What the record of a file says, whatever comes of reading it. -/
theorem record_examine (h : settings.scan.isIgnoredFile (path.fileName?.getD "") = false) :
    (examine system settings root path).record = some {
      relativePath := root.relativeText path
      absolutePath := path
      technologies := settings.technologies.forFile path
      hashable := (system.size? path).any (isHashable settings.scan)
      parsed := (parsedText? system settings.scan path).map fun text =>
        ParsedFile.ofExtraction (root.relativeText path) path
          (Extraction.ofText settings.scan.blockTextLimit text) } := by
  rw [examine, if_neg (by simp [h])]
  cases hsize : system.size? path with
  | none =>
    have hread : system.read? path = none := by
      cases hread : system.read? path with
      | none => rfl
      | some content => simp [size?_of_read? hread] at hsize
    have hparsed : parsedText? system settings.scan path = none := by
      simp [parsedText?, content?, hread]
    simp [hparsed]
  | some size =>
    have htext := source_eq_ok_some_iff system settings path hsize h
    dsimp only
    split
    · rename_i text hsource
      rw [(htext text).1 hsource]
      rfl
    · rename_i hsource
      cases hparsed : parsedText? system settings.scan path with
      | none => rfl
      | some text => exact absurd ((htext text).2 hparsed) (hsource text)

/-- What is hashed of one file: the candidate that its record adds, with the content. -/
theorem held_record (draft : ProjectDraft) :
    (((examine system settings root path).record.filter FileRecord.hashable).map
        draft.candidateOf).bind (fun candidate =>
      (system.read? candidate.absolutePath).map fun content => (candidate, content)) =
    (content? system settings.scan path).map fun content =>
      (⟨draft.index, draft.project.name, root.relativeText path, path⟩, content) := by
  by_cases hignored : settings.scan.isIgnoredFile (path.fileName?.getD "") = true
  · rw [record_examine_of_ignored system settings root path hignored, content?, if_pos hignored]
    rfl
  · rw [Bool.not_eq_true] at hignored
    rw [record_examine system settings root path hignored, content?, if_neg (by simp [hignored]),
      Option.filter_some]
    -- a file that cannot be read may leave a candidate, but that has no content
    cases hread : system.read? path with
    | none => split <;> simp [ProjectDraft.candidateOf, hread]
    | some content =>
      rw [size?_of_read? hread, Option.any_some, Option.filter_some]
      split <;> simp [ProjectDraft.candidateOf, hread]

/-- What is parsed of one file. -/
theorem parsed_record :
    (examine system settings root path).record.bind FileRecord.parsed =
      (parsedText? system settings.scan path).map fun text =>
        ParsedFile.ofExtraction (root.relativeText path) path
          (Extraction.ofText settings.scan.blockTextLimit text) := by
  by_cases hignored : settings.scan.isIgnoredFile (path.fileName?.getD "") = true
  · have hnone : parsedText? system settings.scan path = none := by
      rw [parsedText?, content?, if_pos hignored]
      split <;> rfl
    rw [record_examine_of_ignored system settings root path hignored, hnone]
    rfl
  · rw [Bool.not_eq_true] at hignored
    rw [record_examine system settings root path hignored, Option.bind_some]

/-- What the record of a file says about where the file is. -/
structure FitsPath (record : FileRecord) : Prop where
  relativePath : record.relativePath = root.relativeText path
  absolutePath : record.absolutePath = path
  summary : ∀ parsed ∈ record.parsed, parsed.summary.relativePath = root.relativeText path ∧
    parsed.summary.absolutePath = path

theorem fitsPath_of_record {record : FileRecord}
    (h : (examine system settings root path).record = some record) : FitsPath root path record := by
  by_cases hignored : settings.scan.isIgnoredFile (path.fileName?.getD "") = true
  · rw [record_examine_of_ignored system settings root path hignored] at h
    exact nomatch h
  · rw [Bool.not_eq_true] at hignored
    rw [record_examine system settings root path hignored] at h
    obtain rfl := Option.some.inj h
    refine ⟨rfl, rfl, fun parsed hparsed => ?_⟩
    obtain ⟨text, -, rfl⟩ := Option.map_eq_some_iff.1 hparsed
    exact ⟨rfl, rfl⟩

/-- Nothing is left out as long as nothing is cancelled. -/
theorem examineAll_of_not_cancelled (paths : List Path) (cancelled : Nat → Bool)
    (h : ∀ position, cancelled position = false) :
    examineAll system settings root paths cancelled = paths.map (examine system settings root) := by
  simp only [examineAll, h, Bool.false_eq_true, if_false, List.filterMap_eq_map']
  have hfirst : (fun entry : Path × Nat => examine system settings root entry.1) =
      examine system settings root ∘ Prod.fst := rfl
  rw [hfirst, ← List.map_map, List.zipIdx_map_fst]

end Analysis

/-! ## Projects -/

/-- Resolution leaves names as they are. -/
theorem Resolution.name_resolveProject (known : List KnownName) (project : Project) :
    (resolveProject known project).name = project.name := rfl

namespace Scanner

variable (scanner : Scanner)

/-- The draft of a project before any of its files has been looked at. -/
def emptyDraft (detected : Detected) : ProjectDraft :=
  .start detected.index detected.name detected.root

/-- What comes of looking at a file of a project. -/
def examination (detected : Detected) (path : Path) : Examination :=
  Analysis.examine scanner.system scanner.settings detected.root path

/-- The records of a project whose scan is not cancelled, in walk order. -/
def recordsOf (detected : Detected) : List FileRecord :=
  (scanner.walk detected.root).files.filterMap fun path =>
    (scanner.examination detected path).record

/-- Without cancellation a project is made from the records of all its files. -/
theorem scanProject_idle (detected : Detected) :
    scanner.scanProject .idle detected =
      let draft := ((scanner.recordsOf detected).foldl ProjectDraft.addRecord
        (emptyDraft detected)).addTechnologies
          (Manifest.technologies scanner.system scanner.settings.technologies detected.root).toList
      { project := draft.finish (scanner.versionControl.hasUncommittedChanges detected.root)
        candidates := draft.candidates
        stats := Analysis.stats
          ((scanner.walk detected.root).files.map (scanner.examination detected)) } := by
  have hall := Analysis.examineAll_of_not_cancelled scanner.system scanner.settings detected.root
    (scanner.walk detected.root).files
    (fun position => Token.idle (.file detected.index position)) fun _ => rfl
  -- the records are what the examinations have left
  have hrecords : Analysis.records
      ((scanner.walk detected.root).files.map (scanner.examination detected)) =
      scanner.recordsOf detected := List.filterMap_map
  rw [scanProject]
  simp only [hall]
  rw [← hrecords]
  rfl

/-- The draft of a project with the records of all its files. -/
def recordedDraft (detected : Detected) : ProjectDraft :=
  (scanner.recordsOf detected).foldl ProjectDraft.addRecord (emptyDraft detected)

/-- What a scan adds to the project of this draft. -/
theorem project_scanProject (detected : Detected) :
    (scanner.scanProject .idle detected).project =
      { (scanner.recordedDraft detected).project with
        technologies := (scanner.recordedDraft detected).project.technologies.addAll
          (Manifest.technologies scanner.system scanner.settings.technologies detected.root).toList
        hasUncommittedChanges := scanner.versionControl.hasUncommittedChanges detected.root } := by
  rw [scanProject_idle]
  rfl

/-- The candidates of a project are its hashable files, in walk order. -/
theorem candidates_scanProject (detected : Detected) :
    (scanner.scanProject .idle detected).candidates =
      ((scanner.recordsOf detected).filter FileRecord.hashable).map
        (emptyDraft detected).candidateOf := by
  have hdraft : (scanner.scanProject .idle detected).candidates =
      (scanner.recordedDraft detected).candidates := by
    rw [scanProject_idle]
    rfl
  rw [hdraft, recordedDraft, ProjectDraft.candidates_foldl_addRecord]
  exact List.nil_append _

/-- The identifiers of a project are the blocks of its parsed files, in walk order. -/
theorem identifierDetails_scanProject (detected : Detected) :
    (scanner.scanProject .idle detected).project.identifierDetails =
      (scanner.recordsOf detected).flatMap fun record =>
        record.parsed.elim [] ParsedFile.identifiers := by
  have hrecords := ProjectDraft.foldl_addRecord_appends Project.identifierDetails _
    ProjectDraft.identifierDetails_addRecord (emptyDraft detected) (scanner.recordsOf detected)
  rw [project_scanProject]
  dsimp only
  rw [recordedDraft, hrecords]
  exact List.nil_append _

/-- The files of a project are the summaries of its parsed files, in walk order. -/
theorem files_scanProject (detected : Detected) :
    (scanner.scanProject .idle detected).project.files =
      (scanner.recordsOf detected).flatMap fun record =>
        (record.parsed.map ParsedFile.summary).toList := by
  have hrecords := ProjectDraft.foldl_addRecord_appends Project.files _
    ProjectDraft.files_addRecord (emptyDraft detected) (scanner.recordsOf detected)
  rw [project_scanProject]
  dsimp only
  rw [recordedDraft, hrecords]
  exact List.nil_append _

/-- A project keeps the name under which it was detected. -/
theorem name_scanProject (detected : Detected) :
    (scanner.scanProject .idle detected).project.name = detected.name := by
  rw [project_scanProject]
  dsimp only
  rw [recordedDraft, ProjectDraft.foldl_addRecord_keeps Project.name ProjectDraft.name_addRecord]
  rfl

/-- A project keeps the directory in which it was detected. -/
theorem rootPath_scanProject (detected : Detected) :
    (scanner.scanProject .idle detected).project.rootPath = detected.root := by
  rw [project_scanProject]
  dsimp only
  rw [recordedDraft,
    ProjectDraft.foldl_addRecord_keeps Project.rootPath ProjectDraft.rootPath_addRecord]
  rfl

/-! ## Detected projects -/

/-- A project knows its position. -/
theorem index_of_getElem? {position : Nat} {project : Detected}
    (h : scanner.detected[position]? = some project) : project.index = position := by
  simp only [detected, List.getElem?_map, List.getElem?_zipIdx, Option.map_map,
    Option.map_eq_some_iff, Function.comp_apply, Nat.zero_add] at h
  obtain ⟨_, _, rfl⟩ := h
  rfl

theorem getElem?_detected {project : Detected} (h : project ∈ scanner.detected) :
    scanner.detected[project.index]? = some project := by
  obtain ⟨position, hposition⟩ := List.mem_iff_getElem?.1 h
  rw [scanner.index_of_getElem? hposition, hposition]

theorem zipIdx_detected :
    scanner.detected.zipIdx = scanner.detected.map fun project => (project, project.index) := by
  apply List.ext_getElem?
  intro position
  rw [List.getElem?_zipIdx, List.getElem?_map, Nat.zero_add]
  cases hposition : scanner.detected[position]? with
  | none => rfl
  | some project => simp [scanner.index_of_getElem? hposition]

/-- A position belongs to one project. -/
theorem eq_of_index_eq {a b : Detected} (ha : a ∈ scanner.detected) (hb : b ∈ scanner.detected)
    (h : a.index = b.index) : a = b := by
  have hposition := scanner.getElem?_detected ha
  rw [h, scanner.getElem?_detected hb] at hposition
  exact (Option.some.inj hposition).symm

/-- The roots of the projects are the directories that detection selects. -/
theorem map_root_detected :
    scanner.detected.map Detected.root =
      Detection.detect scanner.system scanner.settings.scan scanner.root
        (scanner.walk scanner.root).dirs := by
  have hroot : Detected.root ∘ (fun entry : (Path × String) × Nat =>
      (⟨entry.2, entry.1.1, entry.1.2⟩ : Detected)) = Prod.fst ∘ Prod.fst := rfl
  have hlength := Detection.length_displayNames scanner.settings.scan scanner.root
    (Detection.detect scanner.system scanner.settings.scan scanner.root
      (scanner.walk scanner.root).dirs)
  -- positions and names are put beside the directories
  simp only [detected, List.map_map, hroot]
  rw [← List.map_map, List.zipIdx_map_fst, List.map_fst_zip (Nat.le_of_eq hlength.symm)]

/-- A walk that follows no links meets what the tree holds where it starts. -/
theorem walk_eq_of_place? {root : Path} {place : FileSystem.Place} {entry : Entry}
    (hlinks : scanner.settings.scan.followLinks = false)
    (hplace : scanner.system.place? root = some place)
    (hentry : scanner.system.root.at? place.names = some entry) :
    scanner.walk root =
      let visits := entry.visits scanner.settings.scan.ignoreSet.skips
        (fun names => FileSystem.opens (root.joinNames? names)) []
      ⟨((visits.filter fun visit => !visit.isDirectory).filterMap fun visit =>
          NativeText.texts? visit.names).map root.joinAll,
        ((visits.filter fun visit => visit.isDirectory && visit.names != []).filterMap fun visit =>
          NativeText.texts? visit.names).map root.joinAll⟩ := by
  simp only [walk, hlinks, FileSystem.walk, FileSystem.fileNames, FileSystem.dirNames,
    FileSystem.collect, FileSystem.visits, hplace, hentry]
  rfl

/-- No project is met twice. -/
theorem nodup_map_root_detected (hformed : scanner.system.root.WellFormed) :
    (scanner.detected.map Detected.root).Nodup := by
  have hdirs := FileSystem.nodup_dirs hformed scanner.root scanner.settings.scan.ignoreSet
    scanner.settings.scan.followLinks
  rw [map_root_detected, walk]
  exact hdirs.filter _

/-! ## Scans -/

/-- The projects of a scan that is not cancelled, in the order of detection. -/
def scannedProjects : List ScannedProject :=
  scanner.detected.map (scanner.scanProject .idle)

/-- The candidates of all projects. -/
def candidates : List Candidate :=
  scanner.scannedProjects.flatMap ScannedProject.candidates

/-- A candidate is that of a record of a project. -/
theorem exists_record_of_mem_candidates {candidate : Candidate}
    (h : candidate ∈ scanner.candidates) :
    ∃ project ∈ scanner.detected, ∃ record ∈ scanner.recordsOf project,
      candidate = (emptyDraft project).candidateOf record := by
  obtain ⟨scanned, hscanned, hcandidate⟩ := List.mem_flatMap.1 h
  obtain ⟨project, hproject, rfl⟩ := List.mem_map.1 hscanned
  rw [candidates_scanProject] at hcandidate
  obtain ⟨record, hrecord, rfl⟩ := List.mem_map.1 hcandidate
  exact ⟨project, hproject, record, (List.mem_filter.1 hrecord).1, rfl⟩

/-- The projects of a report. -/
def reportedProjects : List Project :=
  Resolution.resolve (scanner.scannedProjects.map ScannedProject.project)

/-- The projects of a report are the detected ones, in their order. -/
theorem reportedProjects_eq_map :
    scanner.reportedProjects = scanner.detected.map fun detected =>
      Resolution.resolveProject
        (Resolution.knownNames
          ((scanner.scannedProjects.map ScannedProject.project).map Project.name))
        (scanner.scanProject .idle detected).project := by
  rw [reportedProjects, Resolution.resolve, List.map_map, scannedProjects, List.map_map]
  rfl

/-- Resolution leaves the directories and the files of projects as they are. -/
theorem exists_detected_of_mem_reported {project : Project}
    (h : project ∈ scanner.reportedProjects) :
    ∃ detected ∈ scanner.detected, project.rootPath = detected.root ∧
      project.files = (scanner.scanProject .idle detected).project.files := by
  rw [reportedProjects_eq_map] at h
  obtain ⟨detected, hdetected, rfl⟩ := List.mem_map.1 h
  exact ⟨detected, hdetected, scanner.rootPath_scanProject detected, rfl⟩

/-- The name of a project of a report, by its position. -/
theorem name_reportedProjects {project : Detected} (h : project ∈ scanner.detected) :
    (scanner.reportedProjects[project.index]?).map Project.name = some project.name := by
  rw [reportedProjects_eq_map, List.getElem?_map, scanner.getElem?_detected h, Option.map_some,
    Option.map_some]
  rw [Resolution.name_resolveProject, name_scanProject]

/-- The index of all candidates, and what was counted while they were hashed. -/
def fingerprints : FingerprintIndex × Stats :=
  FingerprintIndex.build scanner.system scanner.candidates
    (List.range scanner.candidates.length) fun _ => false

/-- What a scan that is not cancelled reports and counts. -/
def outcome : ScanResult where
  report := {
    projects := scanner.reportedProjects
    duplicates := scanner.fingerprints.1.duplicates
    sharedIdentifiers := Sharing.identifiers scanner.reportedProjects }
  stats :=
    (Stats.add { projects := UInt64.ofNat scanner.scannedProjects.length }
      (Stats.sum (scanner.scannedProjects.map ScannedProject.stats))).add scanner.fingerprints.2

theorem conclude_scannedProjects :
    scanner.conclude .idle scanner.scannedProjects = .ok scanner.outcome := rfl

/-- With its workers at hand, only version control cancels a scan whose token does not fire. -/
theorem execute_idle :
    scanner.execute .idle =
      if scanner.isInterrupted then .error .cancelled else .ok scanner.outcome := by
  rw [← conclude_scannedProjects]
  rfl

theorem withPool_of_none {α : Type} (h : scanner.poolFault? = none) (result : Except ScanError α) :
    scanner.withPool result = result := by
  rw [withPool, h]

theorem withPool_of_some {α : Type} {fault : ScanError} (h : scanner.poolFault? = some fault)
    (result : Except ScanError α) : scanner.withPool result = .error fault := by
  rw [withPool, h]

/-- What comes to a result has got its workers. -/
theorem poolFault?_eq_none_of_withPool {α : Type} {result : Except ScanError α} {value : α}
    (h : scanner.withPool result = .ok value) : scanner.poolFault? = none := by
  rw [withPool] at h
  split at h
  · cases h
  · assumption

/-- A scan gives a report, if its workers can be had. -/
theorem scan_eq : scanner.scan = scanner.withPool (.ok scanner.outcome) := by
  have hquiet : scanner.undisturbed.isInterrupted = false := List.any_eq_false.2 nofun
  rw [scan, scanWith, execute_idle, hquiet]
  rfl

/-- Without version control nothing but the token cancels a scan. -/
theorem scanWith_idle_of_clean (h : scanner.versionControl = .clean) :
    scanner.scanWith .idle = scanner.withPool (.ok scanner.outcome) := by
  have hquiet : scanner.isInterrupted = false := by
    rw [isInterrupted, h]
    exact List.any_eq_false.2 nofun
  rw [scanWith, execute_idle, hquiet]
  rfl

/-! ## A workspace with nested projects -/

/-- A workspace with a project in a project and one file, which both of them hold. -/
def nested : Scanner where
  system := ⟨.directory [("ws", .directory [("a", .directory [("m",
    .directory [("m", .file "function f() {}".toUTF8)])])])], []⟩
  root := ⟨"/ws"⟩
  settings := { scan := { projectMarkers := ["m"] } }
  versionControl := .clean

theorem detected_nested :
    nested.detected = [⟨0, ⟨"/ws/a"⟩, "a"⟩, ⟨1, ⟨"/ws/a/m"⟩, "m"⟩] := by
  have hplace : nested.system.place? nested.root = some ⟨["ws"], FileSystem.linkLimit⟩ := by
    decide +kernel
  have hdirs : (nested.walk nested.root).dirs = [⟨"/ws/a"⟩, ⟨"/ws/a/m"⟩] := by
    rw [nested.walk_eq_of_place? rfl hplace rfl]
    simp only [Entry.visits_directory_singleton, ScanSettings.ignoreSet, IgnoreSet.skips_text,
      IgnoreSet.contains_ofNames]
    decide +kernel
  rw [detected, hdirs]
  decide +kernel

theorem files_nested : ∀ project ∈ nested.detected,
    (nested.walk project.root).files = [⟨"/ws/a/m/m"⟩] := by
  have houter : nested.system.place? ⟨"/ws/a"⟩ = some ⟨["ws", "a"], FileSystem.linkLimit⟩ := by
    decide +kernel
  have hinner : nested.system.place? ⟨"/ws/a/m"⟩ =
      some ⟨["ws", "a", "m"], FileSystem.linkLimit⟩ := by decide +kernel
  rw [detected_nested]
  rw [List.forall_mem_cons, List.forall_mem_singleton, nested.walk_eq_of_place? rfl houter rfl,
    nested.walk_eq_of_place? rfl hinner rfl]
  simp only [Entry.visits_directory_singleton, ScanSettings.ignoreSet, IgnoreSet.skips_text,
    IgnoreSet.contains_ofNames]
  decide +kernel

theorem wellFormed_nested : nested.system.root.WellFormed := by
  decide +kernel

theorem scan_nested : nested.scan = .ok nested.outcome :=
  nested.scan_eq

theorem scanWith_nested : nested.scanWith .idle = .ok nested.outcome :=
  nested.scanWith_idle_of_clean rfl

end Scanner

end CodeSurvey
