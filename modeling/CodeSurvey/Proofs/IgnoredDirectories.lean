import CodeSurvey.Proofs.FingerprintOrder
import CodeSurvey.Proofs.ReportNames
import CodeSurvey.Proofs.TreeAgreement

/-!
# Ignored directories

What lies below ignored directories does not influence a scan. A scan walks the workspace and each
of its projects, looks for markers and manifests, and reads the files that it has met. None of this
leads below an ignored directory, although a marker may itself be one.

## Key results

- `Scanner.detected_withSystem` / `scanProject_withSystem` / `outcome_withSystem`: what a scan finds
  in file systems that agree outside ignored directories
- `Scanner.staysOutside_outcome`: no path in a report leads below an ignored directory
- `Scanner.scan_eq_of_agreeOutside`: scans of workspaces that agree outside give the same result
-/

namespace CodeSurvey

/-! ## What is read of a file system -/

/-- What comes of looking at a file depends on its size and content only. -/
theorem Analysis.examine_congr {system other : FileSystem} {path : Path}
    (hsize : system.size? path = other.size? path) (hread : system.read? path = other.read? path)
    (settings : Settings) (root : Path) :
    examine system settings root path = examine other settings root path := by
  have hsource : ∀ size, source system settings.scan path size =
      source other settings.scan path size := by
    simp only [source, hread, implies_true]
  simp only [examine, hsize, hsource]

/-- The index of candidates depends on their contents only. -/
theorem FingerprintIndex.build_congr {system other : FileSystem} {candidates : List Candidate}
    (h : ∀ candidate ∈ candidates,
      system.read? candidate.absolutePath = other.read? candidate.absolutePath)
    (order : List Nat) :
    build system candidates order (fun _ => false) =
      build other candidates order (fun _ => false) := by
  have hdigest : ∀ position : Nat, ∀ candidate, candidates[position]? = some candidate →
      digest? system candidate = digest? other candidate := fun position candidate hcandidate => by
    rw [digest?, digest?, h candidate (List.mem_of_getElem? hcandidate)]
  have hhashed : ∀ position : Nat,
      hashed? system candidates position = hashed? other candidates position := fun position => by
    rw [hashed?, hashed?]
    cases hcandidate : candidates[position]? with
    | none => rfl
    | some candidate => simp [hdigest position candidate hcandidate]
  have hcounts : (order.filterMap fun position => candidates[position]?).map (hashCount system) =
      (order.filterMap fun position => candidates[position]?).map (hashCount other) := by
    apply List.map_congr_left
    intro candidate hmem
    obtain ⟨position, -, hcandidate⟩ := List.mem_filterMap.1 hmem
    rw [hashCount, hashCount, hdigest position candidate hcandidate]
  rw [build_never, build_never, hcounts, funext hhashed]

/-! ## Reports without ignored directories -/

/-- No path in a report on the workspace at `root` leads below an ignored directory. The files of a
project stand below the directory of the project, which itself is not ignored. -/
structure Report.StaysOutside (report : Report) (root : Path) (ignore : IgnoreSet) : Prop where
  projects : ∀ project ∈ report.projects, ∃ names, ignore.Admits names ∧
    project.rootPath = root.joinAll names
  files : ∀ project ∈ report.projects, ∀ file ∈ project.files, ∃ names, ignore.Reveals names ∧
    file.absolutePath = project.rootPath.joinAll names ∧ file.relativePath = "/".intercalate names
  duplicates : ∀ entry ∈ report.duplicates, ∀ label ∈ entry.files,
    ∃ project ∈ report.projects, ∃ names, ignore.Reveals names ∧
      label = project.name ++ "/" ++ "/".intercalate names

namespace Scanner

/-! ## Paths of a scan -/

section Paths

variable {scanner : Scanner} (hlinks : scanner.settings.scan.followLinks = false)
  (hformed : scanner.system.root.WellFormed)

include hlinks hformed

/-- The directories on a walk are no ignored ones and do not lie below any. -/
theorem exists_admits_of_mem_dirs {root dir : Path} (h : dir ∈ (scanner.walk root).dirs) :
    ∃ names, scanner.settings.scan.ignoreSet.Admits names ∧ dir = root.joinAll names := by
  rw [walk, hlinks] at h
  obtain ⟨names, hnames, rfl⟩ := List.mem_map.1 h
  have hvisit := (FileSystem.mem_dirNames_iff.1 hnames).2
  exact ⟨names, (FileSystem.reveals_of_mem_visits hformed hvisit).2 rfl, rfl⟩

/-- The files on a walk do not lie below an ignored directory. -/
theorem exists_reveals_of_mem_files {root file : Path} (h : file ∈ (scanner.walk root).files) :
    ∃ names, scanner.settings.scan.ignoreSet.Reveals names ∧ file = root.joinAll names := by
  rw [walk, hlinks] at h
  obtain ⟨names, hnames, rfl⟩ := List.mem_map.1 h
  have hvisit := FileSystem.mem_fileNames_iff.1 hnames
  exact ⟨names, (FileSystem.reveals_of_mem_visits hformed hvisit).1, rfl⟩

/-- Projects are no ignored directories and do not lie below any. -/
theorem exists_admits_of_mem_detected {project : Detected} (h : project ∈ scanner.detected) :
    ∃ names, scanner.settings.scan.ignoreSet.Admits names ∧
      project.root = scanner.root.joinAll names := by
  have hroot := List.mem_map_of_mem (f := Detected.root) h
  rw [map_root_detected] at hroot
  exact exists_admits_of_mem_dirs hlinks hformed (Detection.mem_detect.1 hroot).1

/-- Nor do the files of projects. -/
theorem exists_reveals_of_mem_detected {project : Detected} (h : project ∈ scanner.detected)
    {file : Path} (hfile : file ∈ (scanner.walk project.root).files) :
    ∃ names, scanner.settings.scan.ignoreSet.Reveals names ∧
      file = scanner.root.joinAll names := by
  obtain ⟨names, hnames, hroot⟩ := exists_admits_of_mem_detected hlinks hformed h
  obtain ⟨below, hbelow, rfl⟩ := exists_reveals_of_mem_files hlinks hformed hfile
  exact ⟨names ++ below, hnames.append hbelow, by rw [hroot, Path.joinAll_append]⟩

omit hlinks hformed in
/-- A record of a project is that of one of its files. -/
theorem exists_file_of_mem_recordsOf {project : Detected} {record : FileRecord}
    (h : record ∈ scanner.recordsOf project) :
    ∃ file ∈ (scanner.walk project.root).files, Analysis.FitsPath project.root file record := by
  obtain ⟨file, hfile, hrecord⟩ := List.mem_filterMap.1 h
  exact ⟨file, hfile, Analysis.fitsPath_of_record _ _ _ _ hrecord⟩

omit hlinks hformed in
/-- A candidate is a file of a project. -/
theorem exists_file_of_mem_candidates {candidate : Candidate} (h : candidate ∈ scanner.candidates) :
    ∃ project ∈ scanner.detected, ∃ file ∈ (scanner.walk project.root).files,
      candidate.project = project.name ∧
      candidate.relativePath = project.root.relativeText file ∧ candidate.absolutePath = file := by
  obtain ⟨project, hproject, record, hrecord, rfl⟩ := scanner.exists_record_of_mem_candidates h
  obtain ⟨file, hfile, hfits⟩ := exists_file_of_mem_recordsOf hrecord
  exact ⟨project, hproject, file, hfile, rfl, hfits.relativePath, hfits.absolutePath⟩

end Paths

/-! ## Scans of two file systems -/

/-- The scanner in another file system. -/
def withSystem (scanner : Scanner) (system : FileSystem) : Scanner :=
  { scanner with system }

@[simp] theorem system_withSystem (scanner : Scanner) (system : FileSystem) :
    (scanner.withSystem system).system = system := rfl

@[simp] theorem root_withSystem (scanner : Scanner) (system : FileSystem) :
    (scanner.withSystem system).root = scanner.root := rfl

@[simp] theorem settings_withSystem (scanner : Scanner) (system : FileSystem) :
    (scanner.withSystem system).settings = scanner.settings := rfl

@[simp] theorem versionControl_withSystem (scanner : Scanner) (system : FileSystem) :
    (scanner.withSystem system).versionControl = scanner.versionControl := rfl

section Agreement

variable {scanner : Scanner} {other : FileSystem}
variable (hlinks : scanner.settings.scan.followLinks = false)
  (hmarkers : ∀ marker ∈ scanner.settings.scan.projectMarkers, IsPlainName marker)
  (h : FileSystem.AgreeBelow scanner.settings.scan.ignoreSet scanner.root scanner.system other)

include h

/-- Markers are the same, even where they are ignored directories. -/
theorem hasMarker_eq
    (hmarkers : ∀ marker ∈ scanner.settings.scan.projectMarkers, IsPlainName marker)
    {names : List String} (hnames : scanner.settings.scan.ignoreSet.Admits names) :
    Detection.hasMarker other scanner.settings.scan (scanner.root.joinAll names) =
      Detection.hasMarker scanner.system scanner.settings.scan (scanner.root.joinAll names) := by
  rw [Detection.hasMarker, Detection.hasMarker, Bool.eq_iff_iff, List.any_eq_true, List.any_eq_true]
  refine exists_congr fun marker => and_congr_right fun hmarker => ?_
  -- a marker is the last name on its path, and what stands there can be seen
  have hreveals := hnames.append (IgnoreSet.reveals_singleton (hmarkers marker hmarker))
  rw [← Path.joinAll_concat, h.contains_eq hreveals]

/-- The manifest of a project is the same. -/
theorem technologies_eq {names : List String}
    (hnames : scanner.settings.scan.ignoreSet.Admits names) (tables : TechnologyTables) :
    Manifest.technologies other tables (scanner.root.joinAll names) =
      Manifest.technologies scanner.system tables (scanner.root.joinAll names) := by
  have hplain : IsPlainName Manifest.fileName := by decide +kernel
  have hreveals := hnames.append (IgnoreSet.reveals_singleton hplain)
  rw [Manifest.technologies, Manifest.technologies, FileSystem.readText?, FileSystem.readText?,
    ← Path.joinAll_concat, h.read?_eq hreveals]

include hlinks

theorem walk_withSystem {names : List String}
    (hnames : scanner.settings.scan.ignoreSet.Admits names) :
    (scanner.withSystem other).walk (scanner.root.joinAll names) =
      scanner.walk (scanner.root.joinAll names) := by
  have hvisits := h.visits_eq hnames
  simp only [walk, system_withSystem, settings_withSystem, hlinks, FileSystem.walk,
    FileSystem.fileNames, FileSystem.dirNames, FileSystem.collect, hvisits]

/-- A project comes out the same. -/
theorem scanProject_withSystem {project : Detected} (hproject : project ∈ scanner.detected) :
    (scanner.withSystem other).scanProject .idle project = scanner.scanProject .idle project := by
  obtain ⟨names, hnames, hroot⟩ := exists_admits_of_mem_detected hlinks h.formed hproject
  have hwalk := walk_withSystem hlinks h hnames
  have htechnologies := technologies_eq h hnames scanner.settings.technologies
  rw [← hroot] at hwalk htechnologies
  -- the files of the project are met on its walk, so they do not lie below ignored directories
  have hexamination : ∀ file ∈ (scanner.walk project.root).files,
      (scanner.withSystem other).examination project file = scanner.examination project file := by
    intro file hfile
    obtain ⟨below, hbelow, rfl⟩ := exists_reveals_of_mem_detected hlinks h.formed hproject hfile
    exact Analysis.examine_congr (h.size?_eq hbelow).symm (h.read?_eq hbelow).symm _ _
  have hrecords : (scanner.withSystem other).recordsOf project = scanner.recordsOf project := by
    rw [recordsOf, recordsOf, hwalk]
    exact List.filterMap_congr fun file hfile => by rw [hexamination file hfile]
  rw [scanProject_idle, scanProject_idle, hrecords, hwalk, List.map_congr_left hexamination]
  simp only [system_withSystem, settings_withSystem, versionControl_withSystem, htechnologies]

include hmarkers

/-- The same projects are detected. -/
theorem detected_withSystem : (scanner.withSystem other).detected = scanner.detected := by
  have hwalk : (scanner.withSystem other).walk scanner.root = scanner.walk scanner.root :=
    walk_withSystem hlinks h IgnoreSet.admits_nil
  have hselected : Detection.detect other scanner.settings.scan scanner.root
      (scanner.walk scanner.root).dirs =
      Detection.detect scanner.system scanner.settings.scan scanner.root
        (scanner.walk scanner.root).dirs := by
    refine List.filter_congr fun dir hdir => ?_
    obtain ⟨names, hnames, rfl⟩ := exists_admits_of_mem_dirs hlinks h.formed hdir
    rw [Detection.isProject, Detection.isProject, hasMarker_eq h hmarkers hnames]
  simp only [detected, system_withSystem, root_withSystem, settings_withSystem, hwalk, hselected]

/-- The report is the same, and the same is counted. -/
theorem outcome_withSystem : (scanner.withSystem other).outcome = scanner.outcome := by
  have hscanned : (scanner.withSystem other).scannedProjects = scanner.scannedProjects := by
    rw [scannedProjects, scannedProjects, detected_withSystem hlinks hmarkers h]
    exact List.map_congr_left fun project hproject => scanProject_withSystem hlinks h hproject
  have hcandidates : (scanner.withSystem other).candidates = scanner.candidates := by
    rw [candidates, candidates, hscanned]
  have hreported : (scanner.withSystem other).reportedProjects = scanner.reportedProjects := by
    rw [reportedProjects, reportedProjects, hscanned]
  have hfingerprints : (scanner.withSystem other).fingerprints = scanner.fingerprints := by
    rw [fingerprints, fingerprints, hcandidates]
    -- contents are read once more, but only those of candidates
    refine FingerprintIndex.build_congr (fun candidate hcandidate => ?_) _
    obtain ⟨project, hproject, file, hfile, -, -, hpath⟩ :=
      exists_file_of_mem_candidates hcandidate
    obtain ⟨names, hnames, rfl⟩ := exists_reveals_of_mem_detected hlinks h.formed hproject hfile
    rw [hpath]
    exact (h.read?_eq hnames).symm
  rw [outcome, outcome, hscanned, hreported, hfingerprints]

end Agreement

/-! ## Paths in a report -/

/-- The files of a project of a report lie below it, and not below an ignored directory. -/
theorem files_stayOutside {scanner : Scanner} (hlinks : scanner.settings.scan.followLinks = false)
    (hformed : scanner.system.root.WellFormed) {project : Detected} {file : FileSummary}
    (h : file ∈ (scanner.scanProject .idle project).project.files) :
    ∃ names, scanner.settings.scan.ignoreSet.Reveals names ∧
      file.absolutePath = project.root.joinAll names ∧
      file.relativePath = "/".intercalate names := by
  rw [files_scanProject, List.mem_flatMap] at h
  obtain ⟨record, hrecord, hfile⟩ := h
  rw [Option.mem_toList, Option.map_eq_some_iff] at hfile
  obtain ⟨parsed, hparsed, rfl⟩ := hfile
  obtain ⟨path, hpath, hfits⟩ := exists_file_of_mem_recordsOf hrecord
  obtain ⟨names, hnames, rfl⟩ := exists_reveals_of_mem_files hlinks hformed hpath
  obtain ⟨hrelative, habsolute⟩ := hfits.summary parsed hparsed
  exact ⟨names, hnames, habsolute, hrelative.trans (Path.relativeText_joinAll _ hnames.1)⟩

/-- No path in the report of a scan that is not cancelled leads below an ignored directory. -/
theorem staysOutside_outcome {scanner : Scanner}
    (hlinks : scanner.settings.scan.followLinks = false)
    (hformed : scanner.system.root.WellFormed) :
    scanner.outcome.report.StaysOutside scanner.root scanner.settings.scan.ignoreSet where
  projects := by
    intro project hproject
    obtain ⟨detected, hdetected, hroot, -⟩ := scanner.exists_detected_of_mem_reported hproject
    obtain ⟨names, hnames, hnamed⟩ := exists_admits_of_mem_detected hlinks hformed hdetected
    exact ⟨names, hnames, hroot.trans hnamed⟩
  files := by
    intro project hproject file hfile
    obtain ⟨detected, -, hroot, hfiles⟩ := scanner.exists_detected_of_mem_reported hproject
    rw [hroot]
    exact files_stayOutside hlinks hformed (hfiles ▸ hfile)
  duplicates := by
    intro entry hentry label hlabel
    -- labels are those of candidates, and these are files of projects
    obtain ⟨files, hfiles, hsome⟩ := scanner.exists_files_of_mem_duplicates hentry
    obtain ⟨-, hlabels, -⟩ := FingerprintIndex.duplicateOf?_eq_some hsome
    rw [hlabels] at hlabel
    obtain ⟨candidate, hcandidate, rfl⟩ := List.mem_map.1 hlabel
    obtain ⟨detected, hdetected, path, hpath, hname, hrelative, -⟩ :=
      exists_file_of_mem_candidates (hfiles hcandidate)
    obtain ⟨names, hnames, rfl⟩ := exists_reveals_of_mem_files hlinks hformed hpath
    obtain ⟨project, hproject, hsame⟩ := scanner.lists_name_of_mem_detected hdetected
    refine ⟨project, hproject, names, hnames, ?_⟩
    rw [Candidate.label, hname, hrelative, hsame, Path.relativeText_joinAll _ hnames.1]

/-! ## Scans -/

/-- When a scanner is made, and what it is. -/
theorem new_eq_ok_iff {system : FileSystem} {path : Path} {settings : Settings}
    {git : VersionControl} {threads : ThreadSupply} {scanner : Scanner} :
    new system path settings git threads = .ok scanner ↔
      system.canonical? path = some scanner.root ∧ system.isDirectory scanner.root = true ∧
      settings.scan.fault? = none ∧ scanner = {
        system, settings, threads, root := scanner.root
        versionControl := if settings.scan.checkVcs then git else .clean } := by
  constructor
  · intro h
    rw [new] at h
    split at h
    · exact nomatch h
    · rename_i root hroot
      split at h
      · exact nomatch h
      · rename_i hdirectory
        split at h
        · exact nomatch h
        · rename_i hfault
          obtain rfl := Except.ok.inj h
          exact ⟨hroot, by simpa using hdirectory, hfault, rfl⟩
  · rintro ⟨hroot, hdirectory, hfault, hscanner⟩
    rw [new, hroot]
    simp only [hdirectory, hfault, Bool.not_true, Bool.false_eq_true, if_false]
    exact congrArg Except.ok hscanner.symm

/-- Without version control and links, two workspaces that agree outside ignored directories have
the same scan, and no path in its report leads below an ignored directory. -/
theorem scan_eq_of_agreeOutside {system other : FileSystem} {path : Path} {settings : Settings}
    {git otherGit : VersionControl} {threads : ThreadSupply} {scanner : Scanner}
    (hnew : new system path settings git threads = .ok scanner)
    (hcontrol : settings.scan.checkVcs = false) (hlinks : settings.scan.followLinks = false)
    (hmarkers : ∀ marker ∈ settings.scan.projectMarkers, IsPlainName marker) {tree changed : Entry}
    (htree : system.IsWorkspace path scanner.root tree)
    (hchanged : other.IsWorkspace path scanner.root changed)
    (hagree : tree.AgreeOutside settings.scan.ignoreSet.skips changed) :
    ∃ again result, new other path settings otherGit threads = .ok again ∧
      scanner.scan = scanner.withPool (.ok result) ∧ again.scan = scanner.scan ∧
      result.report.StaysOutside scanner.root settings.scan.ignoreSet := by
  obtain ⟨-, hdirectory, hfault, hscanner⟩ := new_eq_ok_iff.1 hnew
  obtain rfl : scanner.system = system := by rw [hscanner]
  obtain rfl : scanner.settings = settings := by rw [hscanner]
  obtain rfl : scanner.threads = threads := by rw [hscanner]
  have hclean : scanner.versionControl = .clean := by rw [hscanner, hcontrol]; rfl
  rw [htree.isDirectory_eq] at hdirectory
  have hbelow := htree.agreeBelow hchanged hdirectory hagree
  -- the scanner of the other workspace differs in the file system only
  have hagain : new other path scanner.settings otherGit scanner.threads =
      .ok (scanner.withSystem other) := by
    refine new_eq_ok_iff.2 ⟨hchanged.canonical, ?_, hfault, ?_⟩
    · exact hchanged.isDirectory_eq.trans (hagree.isDirectory_eq.trans hdirectory)
    · rw [hcontrol, withSystem, hclean]
      rfl
  refine ⟨scanner.withSystem other, scanner.outcome, hagain, scanner.scan_eq, ?_,
    staysOutside_outcome hlinks htree.formed⟩
  rw [scan_eq, scan_eq, outcome_withSystem hlinks hmarkers hbelow]
  rfl

/-! ### A project marked by an ignored directory -/

/-- Settings without version control. -/
def uncontrolled : Settings := { scan := { checkVcs := false } }

/-- A project of one file, marked by an ignored directory that holds `hidden`. -/
def checkoutEntries (hidden : List (NativeText × Entry)) : List (NativeText × Entry) :=
  [("app", .directory [(".git", .directory hidden), ("main.js", .file "function f() {}".toUTF8)])]

/-- A workspace with this project. -/
def checkout (hidden : List (NativeText × Entry)) : Scanner where
  system := ⟨.directory [("ws", .directory (checkoutEntries hidden))], []⟩
  root := ⟨"/ws"⟩
  settings := uncontrolled
  versionControl := .clean

theorem isWorkspace_checkout {hidden : List (NativeText × Entry)}
    (hformed : (checkout hidden).system.root.WellFormed)
    (hlinks : (Entry.directory hidden).LinkFree) :
    (checkout hidden).system.IsWorkspace ⟨"/ws"⟩ (checkout hidden).root
      (.directory (checkoutEntries hidden)) := by
  have hlinkFree : (Entry.directory (checkoutEntries hidden)).LinkFree := by
    refine .directory ?_
    simp only [checkoutEntries, List.forall_mem_singleton]
    refine .directory ?_
    simpa using ⟨hlinks, .file _⟩
  have hstands : (checkout hidden).system.Stands ⟨"/ws"⟩ (checkoutEntries hidden) :=
    ⟨["ws"], by decide +kernel, by decide +kernel, rfl⟩
  have hreach : FileSystem.isWithinReach ⟨"/ws"⟩ = true := by decide +kernel
  have hfound := @FileSystem.find?_joinAll _ _ _ hstands hlinkFree [] (by simp)
  exact {
    formed := hformed
    canonical := by rfl
    found := hfound.trans (if_pos hreach)
    linkFree := hlinkFree }

theorem agreeOutside_checkout (hidden others : List (NativeText × Entry)) :
    Entry.AgreeOutside uncontrolled.scan.ignoreSet.skips
      (.directory (checkoutEntries hidden)) (.directory (checkoutEntries others)) := by
  have hignored : uncontrolled.scan.ignoreSet.skips ".git" = true := by
    rw [uncontrolled, ScanSettings.ignoreSet, IgnoreSet.skips_text, IgnoreSet.contains_ofNames]
    decide +kernel
  refine Entry.agreeOutside_directory (.cons ⟨rfl, rfl, fun _ => ?_⟩ .nil)
  refine Entry.agreeOutside_directory (.cons ⟨rfl, rfl, fun hkept => ?_⟩ (.cons ?_ .nil))
  · exact absurd (hignored.symm.trans hkept) (by simp)
  · exact ⟨rfl, rfl, fun _ => .refl _⟩

/-- A source file that stands in the ignored directory. -/
def hiddenSource : List (NativeText × Entry) :=
  [("app.js", .file "let a = 1;".toUTF8)]

theorem detected_checkout : (checkout []).detected = [⟨0, ⟨"/ws/app"⟩, "app"⟩] := by
  have hplace : (checkout []).system.place? (checkout []).root =
      some ⟨["ws"], FileSystem.linkLimit⟩ := by decide +kernel
  have hdirs : ((checkout []).walk (checkout []).root).dirs = [⟨"/ws/app"⟩] := by
    rw [(checkout []).walk_eq_of_place? rfl hplace rfl]
    simp (disch := decide) only [checkoutEntries, Entry.visits_directory_of_pairwise,
      List.flatMap_cons, List.flatMap_nil, Entry.visitsAt, ScanSettings.ignoreSet,
      IgnoreSet.skips_text, IgnoreSet.contains_ofNames]
    decide +kernel
  rw [detected, hdirs]
  decide +kernel

/-- What the ignored directory holds does not matter, although it marks the project. -/
theorem scan_eq_of_agreeOutside_checkout :
    ∃ result, (checkout hiddenSource).scan = .ok result ∧
      (checkout []).scan = .ok result ∧ result.report.projects.map Project.name = ["app"] ∧
      result.report.StaysOutside ⟨"/ws"⟩ uncontrolled.scan.ignoreSet := by
  have hnew : new (checkout hiddenSource).system ⟨"/ws"⟩ uncontrolled .clean =
      .ok (checkout hiddenSource) :=
    new_eq_ok_iff.2 ⟨by rfl, by rfl, by decide +kernel, rfl⟩
  have hempty : new (checkout []).system ⟨"/ws"⟩ uncontrolled .clean = .ok (checkout []) :=
    new_eq_ok_iff.2 ⟨by rfl, by rfl, by decide +kernel, rfl⟩
  have htree := isWorkspace_checkout
    (by decide +kernel : (checkout hiddenSource).system.root.WellFormed)
    (.directory (by simpa [hiddenSource] using .file _))
  have hbare := isWorkspace_checkout
    (by decide +kernel : (checkout []).system.root.WellFormed) (.directory (by simp))
  obtain ⟨again, result, hagain, hscan, hsame, houtside⟩ :=
    scan_eq_of_agreeOutside hnew rfl rfl (by decide +kernel) htree hbare (agreeOutside_checkout _ _)
  obtain rfl := Except.ok.inj (hempty.symm.trans hagain)
  have hbareScan : (checkout []).scan = .ok result := hsame.trans hscan
  refine ⟨result, hscan, hbareScan, ?_, houtside⟩
  obtain rfl : (checkout []).outcome = result :=
    Except.ok.inj ((checkout []).scan_eq.symm.trans hbareScan)
  exact (checkout []).map_name_reportedProjects.trans (by rw [detected_checkout]; rfl)

end Scanner

end CodeSurvey
