import CodeSurvey.Proofs.IgnoredDirectories
import CodeSurvey.Proofs.WalkContents

/-!
# Files belong to the projects above them

A scan walks each project by itself. Where links are not followed this meets what the walk of the
workspace meets below the project, so a file is seen once by each project above it, and the path in
its record leads from the project to the file.

## Key results

- `Path.join_relativeText_joinAll`: the text of a path below another one leads back to it
- `Scanner.files_walk_detected`: the files of a project
- `Scanner.files_eq_filter_liesBelow`: files are seen by the projects above them
-/

namespace CodeSurvey

namespace Path

/-- A text that starts with a plain name starts with no slash. -/
theorem front?_append_ne_slash {name : String} (h : IsPlainName name) (back : String) :
    (name ++ back).front? ≠ some '/' := by
  have hempty : name.toList ≠ [] := fun hnil => h.ne_empty (String.toList_eq_nil_iff.1 hnil)
  rw [String.front?_eq, String.toList_append, List.head?_append_of_ne_nil _ hempty]
  exact fun heq => h.no_slash (List.mem_of_mem_head? heq)

/-- Behind a text that ends with a plain name a slash is put. -/
theorem join_of_append_plain {name rest : String} (h : IsPlainName name)
    (hrest : rest.front? ≠ some '/') (front : String) :
    join ⟨front ++ name⟩ rest = ⟨front ++ name ++ "/" ++ rest⟩ := by
  have hempty : name.toList ≠ [] := fun hnil => h.ne_empty (String.toList_eq_nil_iff.1 hnil)
  have hback : (front ++ name).back? ≠ some '/' := by
    rw [String.back?_eq, String.toList_append, List.getLast?_append_of_ne_nil _ hempty]
    exact fun heq => h.no_slash (List.mem_of_getLast? heq)
  have hwhole : front ++ name ≠ "" := by
    intro heq
    rw [← String.toList_inj, String.toList_append] at heq
    exact hempty (List.append_eq_nil_iff.1 heq).2
  unfold join
  rw [if_neg hrest, if_neg (by simp [hwhole, hback])]

/-- A name with more behind a slash is joined step by step. -/
theorem join_append_slash (path : Path) {name rest : String} (h : IsPlainName name)
    (hrest : rest.front? ≠ some '/') :
    path.join (name ++ "/" ++ rest) = (path.join name).join rest := by
  have hname := front?_append_ne_slash h ""
  rw [String.append_empty] at hname
  have hwhole := front?_append_ne_slash h ("/" ++ rest)
  rw [← String.append_assoc] at hwhole
  rw [join, if_neg hwhole, join.eq_1 path name, if_neg hname]
  -- in either case the name is put behind some text first
  split
  · rw [join_of_append_plain h hrest]
    simp only [String.append_assoc]
  · rw [join_of_append_plain h hrest]
    simp only [String.append_assoc]

/-- Names with slashes between them are joined one by one. -/
theorem join_intercalate (path : Path) {names : List String} (hne : names ≠ [])
    (hplain : ∀ name ∈ names, IsPlainName name) :
    path.join ("/".intercalate names) = path.joinAll names := by
  induction names generalizing path with
  | nil => exact absurd rfl hne
  | cons name rest ih =>
    rw [List.forall_mem_cons] at hplain
    cases rest with
    | nil =>
      rw [String.intercalate_singleton]
      rfl
    | cons next rest =>
      have hnext := hplain.2 next List.mem_cons_self
      have hfront : ("/".intercalate (next :: rest)).front? ≠ some '/' := by
        cases rest with
        | nil => simpa using front?_append_ne_slash hnext ""
        | cons last rest =>
          rw [String.intercalate_cons_cons, String.append_assoc]
          exact front?_append_ne_slash hnext _
      rw [String.intercalate_cons_cons, join_append_slash path hplain.1 hfront,
        ih _ (List.cons_ne_nil next rest) hplain.2]
      rfl

/-- The text of a path below another one leads from there back to the path. -/
theorem join_relativeText_joinAll (root : Path) {names : List String} (hne : names ≠ [])
    (hplain : ∀ name ∈ names, IsPlainName name) :
    root.join (root.relativeText (root.joinAll names)) = root.joinAll names := by
  rw [relativeText_joinAll root hplain, join_intercalate root hne hplain]

end Path

namespace Scanner

/-- A directory stands at the root of a workspace. -/
theorem exists_stands_root {system : FileSystem} {path : Path} {settings : Settings}
    {git : VersionControl} {threads : ThreadSupply} {scanner : Scanner}
    (hnew : new system path settings git threads = .ok scanner)
    (hformed : system.root.WellFormed) :
    scanner.system = system ∧ scanner.settings = settings ∧
      ∃ entries, scanner.system.Stands scanner.root entries ∧
        scanner.system.find? scanner.root = some (.directory entries) := by
  obtain ⟨hroot, hdirectory, -, hscanner⟩ := new_eq_ok_iff.1 hnew
  obtain rfl : scanner.system = system := by rw [hscanner]
  exact ⟨rfl, by rw [hscanner], FileSystem.stands_of_canonical? hformed hroot hdirectory⟩

variable {scanner : Scanner}

/-- A project is a directory of the walk of the workspace. -/
theorem exists_visit_of_mem_detected (hlinks : scanner.settings.scan.followLinks = false)
    {project : Detected} (h : project ∈ scanner.detected) :
    ∃ names : List String, ⟨names.map .text, true⟩ ∈
        scanner.system.visits scanner.root scanner.settings.scan.ignoreSet false ∧
      project.root = scanner.root.joinAll names := by
  have hroot := List.mem_map_of_mem (f := Detected.root) h
  rw [map_root_detected, Detection.mem_detect, walk, hlinks] at hroot
  obtain ⟨names, hnames, hpath⟩ := List.mem_map.1 hroot.1
  exact ⟨names, (FileSystem.mem_dirNames_iff.1 hnames).2, hpath.symm⟩

section Walks

variable (hformed : scanner.system.root.WellFormed)
  (hlinks : scanner.settings.scan.followLinks = false)

include hformed hlinks

/-- The files of a project are those of the workspace that lie below the project, in the same
order. -/
theorem files_walk_detected {entries : List (NativeText × Entry)}
    (hstands : scanner.system.Stands scanner.root entries)
    (hfound : scanner.system.find? scanner.root = some (.directory entries)) {project : Detected}
    (h : project ∈ scanner.detected) :
    (scanner.walk project.root).files =
      (scanner.walk scanner.root).files.filter (·.LiesBelow project.root) := by
  obtain ⟨names, hvisit, hroot⟩ := exists_visit_of_mem_detected hlinks h
  rw [walk, walk, hlinks, hroot]
  exact FileSystem.files_walk_joinAll hformed hstands hfound hvisit

/-- A file of a walk of a project is reached from the project by plain names. -/
theorem exists_names_of_mem_files {entries : List (NativeText × Entry)}
    (hstands : scanner.system.Stands scanner.root entries)
    (hfound : scanner.system.find? scanner.root = some (.directory entries)) {project : Detected}
    (h : project ∈ scanner.detected) {file : Path}
    (hfile : file ∈ (scanner.walk project.root).files) :
    ∃ names ≠ [], (∀ name ∈ names, IsPlainName name) ∧ file = project.root.joinAll names := by
  obtain ⟨front, hvisit, hroot⟩ := exists_visit_of_mem_detected hlinks h
  rw [walk, hlinks] at hfile
  obtain ⟨names, hnames, rfl⟩ := List.mem_map.1 hfile
  refine ⟨names, ?_, (FileSystem.pairwise_fileNames hformed _ _ _).2 names hnames, rfl⟩
  rintro rfl
  -- a project is a directory, so no file stands where it starts
  rw [hroot, FileSystem.mem_fileNames_joinAll_iff hformed hstands hfound hvisit,
    List.append_nil, FileSystem.mem_fileNames_iff_isMet hformed hfound] at hnames
  have hdirectory := (FileSystem.mem_visits_iff_isMet hformed hfound _).1 hvisit
  obtain ⟨reached, hreached, -, hkind⟩ := hdirectory.found
  obtain ⟨other, hother, -, hfile⟩ := hnames.found
  obtain rfl := Option.some.inj (hreached.symm.trans hother)
  exact Bool.false_ne_true (hfile.symm.trans hkind)

end Walks

/-- The record of a file of a project leads from the project to the file. -/
theorem join_relativePath_of_record {project : Detected} {names : List String} (hne : names ≠ [])
    (hplain : ∀ name ∈ names, IsPlainName name) {record : FileRecord}
    (h : (scanner.examination project (project.root.joinAll names)).record = some record) :
    project.root.join record.relativePath = record.absolutePath := by
  obtain ⟨hrelative, habsolute, -⟩ := Analysis.fitsPath_of_record _ _ _ _ h
  rw [hrelative, habsolute, Path.join_relativeText_joinAll project.root hne hplain]

/-- Where links are not followed, a project holds the files of the workspace that lie below it, in
the order of the walk: each of them once, and no other. What is recorded of a file leads from the
project to the file. -/
theorem files_eq_filter_liesBelow {system : FileSystem} {path : Path} {settings : Settings}
    {git : VersionControl} {threads : ThreadSupply}
    (hnew : new system path settings git threads = .ok scanner)
    (hformed : system.root.WellFormed) (hlinks : settings.scan.followLinks = false)
    {project : Detected} (hproject : project ∈ scanner.detected) :
    (scanner.walk project.root).files =
        (scanner.walk scanner.root).files.filter (·.LiesBelow project.root) ∧
      (∀ file, (scanner.walk project.root).files.count file =
        if file ∈ (scanner.walk scanner.root).files ∧ file.LiesBelow project.root then 1 else 0) ∧
      ∀ file ∈ (scanner.walk project.root).files,
        ∀ record ∈ (scanner.examination project file).record,
          record.absolutePath = file ∧ project.root.join record.relativePath = file := by
  obtain ⟨rfl, rfl, entries, hstands, hfound⟩ := exists_stands_root hnew hformed
  have hfiles := files_walk_detected hformed hlinks hstands hfound hproject
  refine ⟨hfiles, fun file => ?_, fun file hfile record hrecord => ?_⟩
  · have hnodup : (scanner.walk project.root).files.Nodup :=
      FileSystem.nodup_files hformed project.root _ _
    rw [hnodup.count]
    simp only [hfiles, List.mem_filter, decide_eq_true_eq]
  · obtain ⟨names, hne, hplain, rfl⟩ :=
      exists_names_of_mem_files hformed hlinks hstands hfound hproject hfile
    have hjoin := join_relativePath_of_record hne hplain hrecord
    have habsolute := (Analysis.fitsPath_of_record _ _ _ _ hrecord).absolutePath
    exact ⟨habsolute, hjoin.trans habsolute⟩

/-- In the workspace `nested` the one file belongs to the inner project as well. -/
theorem files_eq_filter_liesBelow_nested :
    new nested.system ⟨"/ws"⟩ nested.settings .clean = .ok nested ∧
      nested.system.root.WellFormed ∧ nested.settings.scan.followLinks = false ∧
      ⟨1, ⟨"/ws/a/m"⟩, "m"⟩ ∈ nested.detected ∧
      (nested.walk ⟨"/ws/a/m"⟩).files = [⟨"/ws/a/m/m"⟩] ∧
      (nested.walk nested.root).files.filter (·.LiesBelow ⟨"/ws/a/m"⟩) = [⟨"/ws/a/m/m"⟩] := by
  have hnew : new nested.system ⟨"/ws"⟩ nested.settings .clean = .ok nested :=
    new_eq_ok_iff.2 ⟨by rfl, by rfl, by decide +kernel, rfl⟩
  have hinner : ⟨1, ⟨"/ws/a/m"⟩, "m"⟩ ∈ nested.detected := by
    rw [detected_nested]
    decide +kernel
  obtain ⟨hfilter, -, -⟩ := files_eq_filter_liesBelow hnew wellFormed_nested rfl hinner
  have hfiles := files_nested _ hinner
  exact ⟨hnew, wellFormed_nested, rfl, hinner, hfiles, hfilter.symm.trans hfiles⟩

end Scanner

end CodeSurvey
