import CodeSurvey.Proofs.DuplicateDetection
import CodeSurvey.Proofs.ReportNames

/-!
# Labels of duplicates

A report lists each copy of a content that several projects hold under a label: the name of the
project, a slash and the path below the project. Names of projects may hold slashes themselves. So
a label does not always tell where the name ends, and a copy in one project can be listed under the
label of another copy in a project whose name runs on into the path of the first.

## Key results

- `Copy.label_eq_iff`: when two copies have one label
- `Scanner.labels_perm`: the labels in a report are those of the copies that projects share
- `Scanner.nodup_labels_iff`: when the labels in a report are unambiguous
-/

namespace CodeSurvey

namespace Copy

/-- The path of a copy below its project. -/
def relativePath (copy : Copy) : String :=
  copy.project.root.relativeText copy.path

/-- The name of the project of one copy runs on into the path of another copy: `api/util.js` in a
project `core` runs into `util.js` in a project `core/api`. -/
def RunsInto (copy other : Copy) : Prop :=
  ∃ middle, other.project.name = copy.project.name ++ "/" ++ middle ∧
    copy.relativePath = middle ++ "/" ++ other.relativePath

/-- Copies have one label if they have the same name and path, or if one runs into the other. -/
theorem label_eq_iff (a b : Copy) :
    a.label = b.label ↔
      (a.project.name = b.project.name ∧ a.relativePath = b.relativePath) ∨
        a.RunsInto b ∨ b.RunsInto a :=
  Path.append_slash_eq_iff

/-- A name without slashes runs on from no other one. -/
theorem not_runsInto_of_no_slash {copy other : Copy} (h : '/' ∉ other.project.name.toList) :
    ¬ copy.RunsInto other := by
  rintro ⟨middle, hname, -⟩
  exact h (by simp [hname])

/-- A copy does not run into itself: its name would be longer than it is. -/
theorem not_runsInto_self (copy : Copy) : ¬ copy.RunsInto copy := by
  rintro ⟨middle, hname, -⟩
  have hlength := congrArg String.length hname
  simp only [String.length_append] at hlength
  have hslash : "/".length = 1 := rfl
  omega

end Copy

/-- Another project holds what a copy holds. -/
def IsShared (copies : List Copy) (copy : Copy) : Prop :=
  ∃ other ∈ copies, other.digest = copy.digest ∧ other.project ≠ copy.project

instance (copies : List Copy) (copy : Copy) : Decidable (IsShared copies copy) :=
  inferInstanceAs (Decidable (∃ other ∈ copies,
    other.digest = copy.digest ∧ other.project ≠ copy.project))

/-- The labels under which the copies of one digest are listed. -/
theorem labels_duplicateOf? {copies : List Copy} (digest : Digest)
    (h : ∀ a ∈ copies, ∀ b ∈ copies, a.project.index = b.project.index → a.project = b.project) :
    (FingerprintIndex.duplicateOf?
        ((copies.filter fun copy => copy.digest = digest).map Copy.candidate)).elim []
        Duplicate.files =
      ((copies.filter fun copy => IsShared copies copy).filter
        fun copy => copy.digest = digest).map Copy.label := by
  have hlabels : Candidate.label ∘ Copy.candidate = Copy.label := rfl
  have hindex : Candidate.projectIndex ∘ Copy.candidate =
      fun copy => copy.project.index := rfl
  rw [FingerprintIndex.duplicateOf?, List.map_map, List.map_map, List.map_map, hindex, hlabels,
    List.filter_filter]
  by_cases hfew : ((copies.filter fun copy => copy.digest = digest).map
      fun copy => copy.project.index).eraseDups.length < 2
  · -- all copies lie in one project, so none of them is shared
    rw [if_pos hfew]
    rw [List.length_eraseDups_lt_two_iff] at hfew
    simp only [List.forall_mem_map, List.mem_filter, decide_eq_true_eq, and_imp] at hfew
    symm
    rw [Option.elim_none, List.map_eq_nil_iff, List.filter_eq_nil_iff]
    intro copy hcopy hboth
    simp only [Bool.and_eq_true, decide_eq_true_eq] at hboth
    obtain ⟨hdigest, other, hother, hsame, hne⟩ := hboth
    exact hne (h other hother copy hcopy
      (hfew other hother (hsame.trans hdigest) copy hcopy hdigest))
  · -- copies lie in two projects, so each of them is shared with one of these
    rw [if_neg hfew, Option.elim_some]
    rw [List.length_eraseDups_lt_two_iff] at hfew
    simp only [List.forall_mem_map, List.mem_filter, decide_eq_true_eq, not_forall] at hfew
    obtain ⟨a, ⟨ha, hadigest⟩, b, ⟨hb, hbdigest⟩, hne⟩ := hfew
    show List.map Copy.label _ = List.map Copy.label _
    congr 1
    refine List.filter_congr fun copy hcopy => ?_
    rw [Bool.eq_iff_iff, Bool.and_eq_true, decide_eq_true_eq, decide_eq_true_eq, iff_self_and]
    intro hdigest
    by_cases hfirst : a.project = copy.project
    · refine ⟨b, hb, hbdigest.trans hdigest.symm, fun hsecond => hne ?_⟩
      rw [hfirst, hsecond]
    · exact ⟨a, ha, hadigest.trans hdigest.symm, hfirst⟩

namespace Scanner

variable (scanner : Scanner)

/-- The copies that are listed in a report: what they hold is held in another project too. -/
def listed : List Copy :=
  scanner.copies.filter fun copy => IsShared scanner.copies copy

theorem nodup_listed (hformed : scanner.system.root.WellFormed) : scanner.listed.Nodup :=
  (List.Nodup.of_map _ (scanner.nodup_copies hformed)).filter _

/-- A copy lies below its project. -/
theorem exists_path_of_mem_copies (hformed : scanner.system.root.WellFormed) {copy : Copy}
    (h : copy ∈ scanner.copies) :
    ∃ names : List String, (∀ name ∈ names, IsPlainName name) ∧
      copy.path = copy.project.root.joinAll names := by
  obtain ⟨-, hpath, -⟩ := scanner.mem_copies_iff.1 h
  exact FileSystem.exists_plain_of_mem_files hformed hpath

/-- A project and a path below it belong to one copy. -/
theorem copy_eq_of_relativePath_eq (hformed : scanner.system.root.WellFormed) {a b : Copy}
    (ha : a ∈ scanner.copies) (hb : b ∈ scanner.copies)
    (hname : a.project.name = b.project.name) (hpath : a.relativePath = b.relativePath) :
    a = b := by
  have hproject : a.project = b.project := scanner.eq_of_name_eq hformed
    (scanner.project_mem_of_mem_copies ha) (scanner.project_mem_of_mem_copies hb) hname
  obtain ⟨here, hhere, haplace⟩ := scanner.exists_path_of_mem_copies hformed ha
  obtain ⟨there, hthere, hbplace⟩ := scanner.exists_path_of_mem_copies hformed hb
  -- relative paths are the names below the project with slashes between them
  have hnames : here = there := by
    rw [Copy.relativePath, Copy.relativePath, haplace, hbplace, Path.relativeText_joinAll _ hhere,
      Path.relativeText_joinAll _ hthere] at hpath
    exact Path.intercalate_inj hhere hthere hpath
  have hplace : (a.project.root, a.path) = (b.project.root, b.path) := by
    rw [haplace, hbplace, hproject, hnames]
  exact List.inj_on_of_nodup_map (scanner.nodup_copies hformed) ha hb hplace

/-- The labels in a report are those of the copies that projects share. -/
theorem labels_perm :
    (scanner.outcome.report.duplicates.flatMap Duplicate.files).Perm
      (scanner.listed.map Copy.label) := by
  have hindex : ∀ a ∈ scanner.copies, ∀ b ∈ scanner.copies,
      a.project.index = b.project.index → a.project = b.project := fun a ha b hb =>
    scanner.eq_of_index_eq (scanner.project_mem_of_mem_copies ha)
      (scanner.project_mem_of_mem_copies hb)
  have hlabels : scanner.outcome.report.duplicates.flatMap Duplicate.files =
      ((scanner.copies.map Copy.digest).eraseDups.flatMap fun digest =>
        scanner.listed.filter fun copy => copy.digest = digest).map Copy.label := by
    rw [duplicates_eq_filterMap, List.map_flatMap, List.filterMap_eq_flatMap_toList,
      List.flatMap_assoc]
    refine List.flatMap_congr fun digest _ => ?_
    rw [listed, ← labels_duplicateOf? digest hindex]
    cases FingerprintIndex.duplicateOf? _ <;> simp
  rw [hlabels]
  refine (List.flatMap_filter_perm Copy.digest (List.nodup_eraseDups _) ?_).map Copy.label
  intro copy hcopy
  exact List.mem_eraseDups.2 (List.mem_map_of_mem (List.mem_filter.1 hcopy).1)

/-- No label of a scan that is not cancelled stands for two copies, unless one runs into another. -/
theorem nodup_labels_outcome_iff (hformed : scanner.system.root.WellFormed) :
    (scanner.outcome.report.duplicates.flatMap Duplicate.files).Nodup ↔
      ∀ copy ∈ scanner.listed, ∀ other ∈ scanner.listed, ¬ copy.RunsInto other := by
  rw [scanner.labels_perm.nodup_iff, List.nodup_map_iff_inj_on (scanner.nodup_listed hformed)]
  constructor
  · intro hinj copy hcopy other hother hruns
    have hsame := hinj copy hcopy other hother ((Copy.label_eq_iff _ _).2 (.inr (.inl hruns)))
    exact Copy.not_runsInto_self other (hsame ▸ hruns)
  · intro hapart a ha b hb hlabel
    rcases (Copy.label_eq_iff a b).1 hlabel with ⟨hname, hpath⟩ | hruns | hruns
    · exact scanner.copy_eq_of_relativePath_eq hformed (List.mem_filter.1 ha).1
        (List.mem_filter.1 hb).1 hname hpath
    · exact absurd hruns (hapart a ha b hb)
    · exact absurd hruns (hapart b hb a ha)

/-- The labels in the report of a scan are unambiguous exactly if no copy that is listed runs into
another one. -/
theorem nodup_labels_iff (hformed : scanner.system.root.WellFormed) {token : Token}
    (hpossible : token.IsPossible) {result : ScanResult}
    (hscan : scanner.scanWith token = .ok result) :
    (result.report.duplicates.flatMap Duplicate.files).Nodup ↔
      ∀ copy ∈ scanner.listed, ∀ other ∈ scanner.listed, ¬ copy.RunsInto other := by
  rw [scanner.eq_outcome_of_scanWith hpossible hscan]
  exact scanner.nodup_labels_outcome_iff hformed

/-- The labels in the report on the workspace `nested` are unambiguous: the names of its projects
hold no slashes. -/
theorem nodup_labels_nested :
    nested.system.root.WellFormed ∧ Token.idle.IsPossible ∧
      nested.scanWith .idle = .ok nested.outcome ∧
      (nested.outcome.report.duplicates.flatMap Duplicate.files).Nodup := by
  refine ⟨wellFormed_nested, Token.idle_isPossible, scanWith_nested,
    (nested.nodup_labels_iff wellFormed_nested Token.idle_isPossible scanWith_nested).2 ?_⟩
  intro copy _ other hother
  have hproject := nested.project_mem_of_mem_copies (List.mem_filter.1 hother).1
  rw [detected_nested] at hproject
  have hslash : ∀ project ∈ [(⟨0, ⟨"/ws/a"⟩, "a"⟩ : Detected), ⟨1, ⟨"/ws/a/m"⟩, "m"⟩],
      '/' ∉ project.name.toList := by decide +kernel
  exact Copy.not_runsInto_of_no_slash (hslash _ hproject)

/-! ### Names that run on -/

/-- A workspace in which a path reads like the name of a project. The directory `libs/core` is a
project `core` with a file in its directory `api`. Two directories are named `api` and projects, so
these are listed by their paths, one of them as `core/api`. -/
def crossed : Scanner where
  system :=
    let manifest : NativeText × Entry := ("package.json", .file "\x7b\x7d".toUTF8)
    let source : NativeText × Entry := ("util.js", .file "function f() {}".toUTF8)
    ⟨.directory [("ws", .directory [
      ("core", .directory [("api", .directory [manifest, source])]),
      ("libs", .directory [("core", .directory [("api", .directory [source]), manifest])]),
      ("other", .directory [("api", .directory [manifest])])])], []⟩
  root := ⟨"/ws"⟩
  settings := {}
  versionControl := .clean

theorem detected_crossed :
    crossed.detected = [⟨0, ⟨"/ws/core/api"⟩, "core/api"⟩, ⟨1, ⟨"/ws/libs/core"⟩, "core"⟩,
      ⟨2, ⟨"/ws/other/api"⟩, "other/api"⟩] := by
  have hplace : crossed.system.place? crossed.root = some ⟨["ws"], FileSystem.linkLimit⟩ := by
    decide +kernel
  have hdirs : (crossed.walk crossed.root).dirs =
      [⟨"/ws/core"⟩, ⟨"/ws/core/api"⟩, ⟨"/ws/libs"⟩, ⟨"/ws/libs/core"⟩, ⟨"/ws/libs/core/api"⟩,
        ⟨"/ws/other"⟩, ⟨"/ws/other/api"⟩] := by
    rw [crossed.walk_eq_of_place? rfl hplace rfl]
    simp (disch := decide) only [Entry.visits_directory_of_pairwise, List.flatMap_cons,
      List.flatMap_nil, Entry.visitsAt, ScanSettings.ignoreSet, IgnoreSet.skips_text,
      IgnoreSet.contains_ofNames]
    decide +kernel
  rw [detected, hdirs]
  decide +kernel

/-- The file in `libs/core/api` as a copy of the project `core`. -/
def crossedOuter : Copy :=
  ⟨⟨1, ⟨"/ws/libs/core"⟩, "core"⟩, ⟨"/ws/libs/core/api/util.js"⟩, "function f() {}".toUTF8⟩

/-- The file in `core/api` as a copy of the project `core/api`. -/
def crossedInner : Copy :=
  ⟨⟨0, ⟨"/ws/core/api"⟩, "core/api"⟩, ⟨"/ws/core/api/util.js"⟩, "function f() {}".toUTF8⟩

theorem mem_copies_crossed : crossedOuter ∈ crossed.copies ∧ crossedInner ∈ crossed.copies := by
  have houter : crossed.system.place? crossedOuter.project.root =
      some ⟨["ws", "libs", "core"], FileSystem.linkLimit⟩ := by decide +kernel
  have hinner : crossed.system.place? crossedInner.project.root =
      some ⟨["ws", "core", "api"], FileSystem.linkLimit⟩ := by decide +kernel
  have hfiles : crossedOuter.path ∈ (crossed.walk crossedOuter.project.root).files ∧
      crossedInner.path ∈ (crossed.walk crossedInner.project.root).files := by
    rw [crossed.walk_eq_of_place? rfl houter rfl, crossed.walk_eq_of_place? rfl hinner rfl]
    simp (disch := decide) only [Entry.visits_directory_of_pairwise, List.flatMap_cons,
      List.flatMap_nil, Entry.visitsAt, ScanSettings.ignoreSet, IgnoreSet.skips_text,
      IgnoreSet.contains_ofNames]
    decide +kernel
  rw [mem_copies_iff, mem_copies_iff, detected_crossed]
  exact ⟨⟨by decide, hfiles.1, by decide +kernel⟩, by decide, hfiles.2, by decide +kernel⟩

/-- Both files are listed as `core/api/util.js`, so this label is ambiguous. -/
theorem not_nodup_labels_crossed :
    crossed.system.root.WellFormed ∧ crossed.scan = .ok crossed.outcome ∧
      ¬ (crossed.outcome.report.duplicates.flatMap Duplicate.files).Nodup := by
  have hformed : crossed.system.root.WellFormed := by decide +kernel
  obtain ⟨houter, hinner⟩ := mem_copies_crossed
  refine ⟨hformed, crossed.scan_eq, fun hnodup => ?_⟩
  -- the projects are different, so both copies are listed
  have houterListed : crossedOuter ∈ crossed.listed :=
    List.mem_filter.2 ⟨houter, decide_eq_true ⟨crossedInner, hinner, rfl, by decide⟩⟩
  have hinnerListed : crossedInner ∈ crossed.listed :=
    List.mem_filter.2 ⟨hinner, decide_eq_true ⟨crossedOuter, houter, rfl, by decide⟩⟩
  have hruns : crossedOuter.RunsInto crossedInner := ⟨"api", by decide +kernel, by decide +kernel⟩
  exact (crossed.nodup_labels_outcome_iff hformed).1 hnodup _ houterListed _ hinnerListed hruns

end Scanner

end CodeSurvey
