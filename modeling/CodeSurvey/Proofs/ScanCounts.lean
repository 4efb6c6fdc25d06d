import Mathlib.Algebra.Order.BigOperators.Group.List
import Mathlib.Algebra.Order.Ring.Nat
import CodeSurvey.Proofs.ReportNames
import CodeSurvey.Proofs.SourceFiles

/-!
# What a scan counts

Workers count as they go along. Every look at a file counts the file once, either as parsed or as
skipped, and every candidate is counted once, either as hashed or as failed. So the counters of a
scan agree with what the scan reports, up to the size of a counter.

## Key results

- `Stats.IsAdditive.sum_map`: an additive counter counts what the workers count together
- `Analysis.stats_examine`: what is counted for a file
- `Scanner.accounts_outcome`: the counters of a scan that is not cancelled
- `Scanner.accounts_of_scanWith`: the counters of a scan that comes to a result
-/

namespace CodeSurvey

namespace Stats

/-! ## Counters -/

/-- What a counter, or a sum of counters, does: it starts at zero, and for two workers together it
counts what it counts for each of them. -/
structure IsAdditive (counter : Stats → UInt64) : Prop where
  zero : counter .zero = 0
  add : ∀ a b, counter (Stats.add a b) = counter a + counter b

theorem isAdditive_filesSeen : IsAdditive filesSeen := ⟨rfl, fun _ _ => rfl⟩

theorem isAdditive_filesParsed : IsAdditive filesParsed := ⟨rfl, fun _ _ => rfl⟩

theorem isAdditive_filesSkipped : IsAdditive filesSkipped := ⟨rfl, fun _ _ => rfl⟩

theorem isAdditive_filesHashed : IsAdditive filesHashed := ⟨rfl, fun _ _ => rfl⟩

theorem isAdditive_hashFailures : IsAdditive hashFailures := ⟨rfl, fun _ _ => rfl⟩

theorem isAdditive_blocksExtracted : IsAdditive blocksExtracted := ⟨rfl, fun _ _ => rfl⟩

theorem isAdditive_projects : IsAdditive projects := ⟨rfl, fun _ _ => rfl⟩

namespace IsAdditive

variable {counter other : Stats → UInt64}

/-- Two counters count together what each of them counts. -/
theorem together (h : IsAdditive counter) (hother : IsAdditive other) :
    IsAdditive fun stats => counter stats + other stats := by
  refine ⟨?_, fun a b => ?_⟩
  · show counter .zero + other .zero = 0
    rw [h.zero, hother.zero]
    rfl
  · show counter (a.add b) + other (a.add b) = _
    rw [h.add, hother.add]
    ac_rfl

/-- Workers count together what each of them counts. -/
theorem sum_map (h : IsAdditive counter) {α : Type} {stats : α → Stats} {size : α → Nat}
    {l : List α} (hsize : ∀ a ∈ l, counter (stats a) = UInt64.ofNat (size a)) :
    counter (sum (l.map stats)) = UInt64.ofNat (l.map size).sum := by
  induction l with
  | nil => exact h.zero
  | cons a rest ih =>
    rw [List.forall_mem_cons] at hsize
    rw [List.map_cons, sum_cons, h.add, hsize.1, ih hsize.2, List.map_cons, List.sum_cons,
      UInt64.ofNat_add]

end IsAdditive

end Stats

namespace Analysis

/-! ## Files -/

/-- A file is counted as parsed, with its blocks, or as skipped. -/
theorem stats_examine (system : FileSystem) (settings : Settings) (root path : Path) :
    (examine system settings root path).stats =
      ((examine system settings root path).record.bind FileRecord.parsed).elim .oneSkipped
        fun parsed => .oneParsed parsed.identifiers.length := by
  unfold examine
  split
  · rfl
  · dsimp only
    split
    · rfl
    · split
      · -- there is a detail for every block
        show Stats.oneParsed _ = Stats.oneParsed _
        rw [ParsedFile.ofExtraction, List.length_map]
      · rfl

end Analysis

namespace Scanner

variable (scanner : Scanner)

/-! ## Projects -/

section Projects

variable (detected : Detected)

/-- What was read from a file of a project. -/
def parsedFile? (path : Path) : Option ParsedFile :=
  (scanner.examination detected path).record.bind FileRecord.parsed

theorem filterMap_parsedFile? :
    (scanner.walk detected.root).files.filterMap (scanner.parsedFile? detected) =
      scanner.parsedFiles detected := by
  rw [parsedFiles, recordsOf, List.filterMap_filterMap]
  rfl

/-- What is counted in a project is counted file by file. -/
theorem counter_scanProject {counter : Stats → UInt64} (h : Stats.IsAdditive counter)
    (size : Option ParsedFile → Nat) (hskipped : counter .oneSkipped = .ofNat (size none))
    (hparsed : ∀ parsed : ParsedFile,
      counter (.oneParsed parsed.identifiers.length) = .ofNat (size (some parsed))) :
    counter (scanner.scanProject .idle detected).stats =
      .ofNat ((scanner.walk detected.root).files.map
        fun path => size (scanner.parsedFile? detected path)).sum := by
  have hfile : ∀ path ∈ (scanner.walk detected.root).files,
      counter (scanner.examination detected path).stats =
        .ofNat (size (scanner.parsedFile? detected path)) := by
    intro path _
    rw [examination, Analysis.stats_examine]
    show counter ((scanner.parsedFile? detected path).elim _ _) = _
    cases scanner.parsedFile? detected path with
    | none => exact hskipped
    | some parsed => exact hparsed parsed
  rw [scanProject_idle]
  show counter (Stats.sum _) = _
  rw [List.map_map]
  exact h.sum_map hfile

/-- Only parsed files matter for a size that skipped files do not have. -/
theorem sum_size_parsedFile? (size : ParsedFile → Nat) :
    ((scanner.walk detected.root).files.map
        fun path => (scanner.parsedFile? detected path).elim 0 size).sum =
      ((scanner.parsedFiles detected).map size).sum := by
  rw [← filterMap_parsedFile?]
  induction (scanner.walk detected.root).files with
  | nil => rfl
  | cons path rest ih =>
    rw [List.map_cons, List.sum_cons, ih, List.filterMap_cons]
    cases scanner.parsedFile? detected path with
    | none => exact Nat.zero_add _
    | some parsed => rw [List.map_cons, List.sum_cons, Option.elim_some]

/-- There is a candidate for each hashable file. -/
theorem length_candidates_scanProject :
    (scanner.scanProject .idle detected).candidates.length =
      (scanner.walk detected.root).files.countP
        (Analysis.isCandidate scanner.system scanner.settings.scan) := by
  rw [candidates_scanProject, List.length_map, ← List.countP_eq_length_filter, recordsOf,
    List.countP_filterMap]
  apply List.countP_congr
  intro path _
  rw [← Analysis.any_hashable_record scanner.system scanner.settings detected.root path]
  show ((scanner.examination detected path).record.map _).getD false = true ↔
    (scanner.examination detected path).record.any _ = true
  cases (scanner.examination detected path).record <;> rfl

/-- All parsed files are hashable. -/
theorem length_parsedFiles_le :
    (scanner.parsedFiles detected).length ≤ (scanner.walk detected.root).files.countP
      (Analysis.isCandidate scanner.system scanner.settings.scan) := by
  have hlength := congrArg List.length (scanner.map_absolutePath_parsedFiles detected)
  rw [List.length_map, ← List.countP_eq_length_filter] at hlength
  rw [hlength]
  exact List.countP_mono_left fun path _ => Analysis.isCandidate_of_isSource scanner.system path

end Projects

/-- What resolution leaves as it is, reported projects have from the scan of the detected ones. -/
theorem map_reportedProjects {α : Type} (part : Project → α)
    (hpart : ∀ known project, part (Resolution.resolveProject known project) = part project) :
    scanner.reportedProjects.map part =
      scanner.detected.map fun detected => part (scanner.scanProject .idle detected).project := by
  rw [reportedProjects_eq_map, List.map_map]
  apply List.map_congr_left
  intro detected _
  exact hpart _ _

/-! ## Scans -/

/-- How many files take part in the search for duplicates, each as often as a project holds it. -/
def candidateCount : Nat :=
  (scanner.detected.map fun detected => (scanner.walk detected.root).files.countP
    (Analysis.isCandidate scanner.system scanner.settings.scan)).sum

theorem length_candidates : scanner.candidates.length = scanner.candidateCount := by
  rw [candidates, scannedProjects, List.flatMap_map, List.length_flatMap, candidateCount]
  congr 1
  apply List.map_congr_left
  intro detected _
  exact scanner.length_candidates_scanProject detected

/-- Every candidate is counted as hashed or as failed, and nothing else is counted meanwhile. -/
theorem exists_stats_fingerprints :
    ∃ hashed failed : Nat, hashed + failed = scanner.candidateCount ∧
      scanner.fingerprints.2 =
        { filesHashed := .ofNat hashed, hashFailures := .ofNat failed } := by
  have hstats := FingerprintIndex.stats_build_of_perm scanner.system scanner.candidates
    (.refl (List.range scanner.candidates.length))
  rw [FingerprintIndex.sum_hashCount] at hstats
  have hlength := FingerprintIndex.length_eq_hashed_add_failed scanner.system scanner.candidates
  rw [length_candidates] at hlength
  exact ⟨_, _, hlength, hstats⟩

/-- What a counter counts is what it counts for the projects, for their files and for the
candidates. -/
theorem counter_outcome {counter : Stats → UInt64} (h : Stats.IsAdditive counter) :
    counter scanner.outcome.stats =
      counter { projects := .ofNat scanner.detected.length } +
        counter (Stats.sum (scanner.detected.map fun detected =>
          (scanner.scanProject .idle detected).stats)) +
        counter scanner.fingerprints.2 := by
  show counter ((Stats.add _ _).add _) = _
  rw [h.add, h.add, scannedProjects, List.length_map, List.map_map]
  rfl

/-- What only looks at files count, a scan counts file by file. -/
theorem counter_outcome_of_files {counter : Stats → UInt64} (h : Stats.IsAdditive counter)
    (hprojects : ∀ count, counter { projects := count } = 0)
    (hhashes : ∀ hashed failed, counter { filesHashed := hashed, hashFailures := failed } = 0)
    (size : Option ParsedFile → Nat) (hskipped : counter .oneSkipped = .ofNat (size none))
    (hparsed : ∀ parsed : ParsedFile,
      counter (.oneParsed parsed.identifiers.length) = .ofNat (size (some parsed))) :
    counter scanner.outcome.stats = .ofNat (scanner.detected.map fun detected =>
      ((scanner.walk detected.root).files.map
        fun path => size (scanner.parsedFile? detected path)).sum).sum := by
  obtain ⟨hashed, failed, -, hstats⟩ := scanner.exists_stats_fingerprints
  have hfiles := h.sum_map (l := scanner.detected) fun detected _ =>
    scanner.counter_scanProject detected h size hskipped hparsed
  rw [counter_outcome scanner h, hprojects, hstats, hhashes, hfiles, UInt64.zero_add,
    UInt64.add_zero]

/-- What only parsed files count, a scan counts project by project in its report. -/
theorem counter_outcome_of_parsedFiles {counter : Stats → UInt64} (h : Stats.IsAdditive counter)
    (hprojects : ∀ count, counter { projects := count } = 0)
    (hhashes : ∀ hashed failed, counter { filesHashed := hashed, hashFailures := failed } = 0)
    (size : ParsedFile → Nat) (hskipped : counter .oneSkipped = 0)
    (hparsed : ∀ parsed : ParsedFile,
      counter (.oneParsed parsed.identifiers.length) = .ofNat (size parsed))
    (part : Project → Nat)
    (hresolve : ∀ known project, part (Resolution.resolveProject known project) = part project)
    (hpart : ∀ detected, part (scanner.scanProject .idle detected).project =
      ((scanner.parsedFiles detected).map size).sum) :
    counter scanner.outcome.stats = .ofNat (scanner.reportedProjects.map part).sum := by
  have hfiles := scanner.counter_outcome_of_files h hprojects hhashes (Option.elim · 0 size)
    hskipped hparsed
  rw [hfiles, map_reportedProjects scanner part hresolve]
  congr 2
  apply List.map_congr_left
  intro detected _
  rw [hpart, sum_size_parsedFile?]

/-- What no look at a file counts comes from the projects and the hashes alone. -/
theorem counter_outcome_of_hashes {counter : Stats → UInt64} (h : Stats.IsAdditive counter)
    (hskipped : counter .oneSkipped = 0) (hparsed : ∀ blocks, counter (.oneParsed blocks) = 0) :
    counter scanner.outcome.stats = counter { projects := .ofNat scanner.detected.length } +
      counter scanner.fingerprints.2 := by
  have hfiles := h.sum_map (l := scanner.detected) fun detected _ =>
    scanner.counter_scanProject detected h (fun _ => 0) hskipped fun _ => hparsed _
  rw [counter_outcome scanner h, hfiles]
  simp

/-- The counters of a result agree with the files that were walked and with what is reported. -/
structure Accounts (result : ScanResult) : Prop where
  projects : result.stats.projects = .ofNat result.report.projects.length
  seen : result.stats.filesSeen = .ofNat (scanner.detected.map fun detected =>
    (scanner.walk detected.root).files.length).sum
  seen_eq_add : result.stats.filesSeen = result.stats.filesParsed + result.stats.filesSkipped
  parsed : result.stats.filesParsed =
    .ofNat (result.report.projects.map fun project => project.files.length).sum
  blocks : result.stats.blocksExtracted =
    .ofNat (result.report.projects.map fun project => project.identifierDetails.length).sum
  hashed : result.stats.filesHashed + result.stats.hashFailures = .ofNat scanner.candidateCount
  /-- The files of a project are the source files of its walk. -/
  files : List.Forall₂ (fun project detected => project.rootPath = detected.root ∧
    project.files.map FileSummary.absolutePath = (scanner.walk detected.root).files.filter
      (Analysis.isSource scanner.system scanner.settings.scan))
    result.report.projects scanner.detected
  parsed_le_candidates :
    (result.report.projects.map fun project => project.files.length).sum ≤ scanner.candidateCount
  /-- Unless a counter has started again at zero, no more files are parsed than hashed. -/
  parsed_le_hashed : scanner.candidateCount < UInt64.size →
    result.stats.filesParsed ≤ result.stats.filesHashed + result.stats.hashFailures

/-- Files that are parsed are among those that take part in the search for duplicates. -/
theorem sum_length_files_le :
    (scanner.reportedProjects.map fun project => project.files.length).sum ≤
      scanner.candidateCount := by
  rw [scanner.map_reportedProjects (fun project => project.files.length) fun _ _ => rfl,
    candidateCount]
  apply List.sum_le_sum
  intro detected _
  rw [files_eq_map_parsedFiles, List.length_map]
  exact scanner.length_parsedFiles_le detected

/-- Each file that was walked is counted as seen, and as parsed or as skipped. -/
theorem filesSeen_outcome :
    scanner.outcome.stats.filesSeen = .ofNat (scanner.detected.map fun detected =>
        (scanner.walk detected.root).files.length).sum ∧
      scanner.outcome.stats.filesSeen =
        scanner.outcome.stats.filesParsed + scanner.outcome.stats.filesSkipped := by
  have hseen := scanner.counter_outcome_of_files Stats.isAdditive_filesSeen (fun _ => rfl)
    (fun _ _ => rfl) (fun _ => 1) rfl fun _ => rfl
  have hboth := scanner.counter_outcome_of_files
    (Stats.isAdditive_filesParsed.together Stats.isAdditive_filesSkipped) (fun _ => rfl)
    (fun _ _ => rfl) (fun _ => 1) rfl fun _ => rfl
  refine ⟨?_, hseen.trans hboth.symm⟩
  rw [hseen]
  simp

/-- Each parsed file is counted. -/
theorem filesParsed_outcome : scanner.outcome.stats.filesParsed =
    .ofNat (scanner.reportedProjects.map fun project => project.files.length).sum := by
  apply scanner.counter_outcome_of_parsedFiles Stats.isAdditive_filesParsed (fun _ => rfl)
    (fun _ _ => rfl) (fun _ => 1) rfl (fun _ => rfl) _ fun _ _ => rfl
  intro detected
  rw [files_eq_map_parsedFiles, List.length_map]
  simp

/-- Each block of a parsed file is counted. -/
theorem blocksExtracted_outcome : scanner.outcome.stats.blocksExtracted =
    .ofNat (scanner.reportedProjects.map fun project => project.identifierDetails.length).sum := by
  apply scanner.counter_outcome_of_parsedFiles Stats.isAdditive_blocksExtracted (fun _ => rfl)
    (fun _ _ => rfl) (fun parsed => parsed.identifiers.length) rfl (fun _ => rfl) _ fun _ _ => rfl
  intro detected
  rw [identifierDetails_eq_flatMap_parsedFiles, List.length_flatMap]

/-- Each file with a size that allows it is counted as hashed or as failed. -/
theorem filesHashed_outcome :
    scanner.outcome.stats.filesHashed + scanner.outcome.stats.hashFailures =
      .ofNat scanner.candidateCount := by
  obtain ⟨hashed, failed, hcount, hstats⟩ := scanner.exists_stats_fingerprints
  have hhashed := scanner.counter_outcome_of_hashes
    (Stats.isAdditive_filesHashed.together Stats.isAdditive_hashFailures) rfl fun _ => rfl
  rw [hhashed, hstats, ← hcount, UInt64.ofNat_add]
  exact UInt64.zero_add _

/-- Each reported project is counted. -/
theorem projects_outcome :
    scanner.outcome.stats.projects = .ofNat scanner.reportedProjects.length := by
  obtain ⟨hashed, failed, -, hstats⟩ := scanner.exists_stats_fingerprints
  have hprojects := scanner.counter_outcome_of_hashes Stats.isAdditive_projects rfl fun _ => rfl
  rw [hprojects, hstats, reportedProjects_eq_map, List.length_map]
  exact UInt64.add_zero _

/-- A reported project holds the source files of the walk of its directory. -/
theorem forall₂_files_reportedProjects :
    List.Forall₂ (fun project detected => project.rootPath = detected.root ∧
      project.files.map FileSummary.absolutePath = (scanner.walk detected.root).files.filter
        (Analysis.isSource scanner.system scanner.settings.scan))
      scanner.reportedProjects scanner.detected := by
  rw [reportedProjects_eq_map, List.forall₂_map_left_iff, List.forall₂_same]
  intro detected _
  -- resolution changes neither the directory nor the files
  show (scanner.scanProject .idle detected).project.rootPath = detected.root ∧
    (scanner.scanProject .idle detected).project.files.map FileSummary.absolutePath = _
  rw [rootPath_scanProject, files_eq_map_parsedFiles, List.map_map, ← map_absolutePath_parsedFiles]
  exact ⟨rfl, rfl⟩

/-- The counters of a scan that is not cancelled. -/
theorem accounts_outcome : scanner.Accounts scanner.outcome := by
  obtain ⟨hseen, hadd⟩ := scanner.filesSeen_outcome
  have hparsed := scanner.filesParsed_outcome
  have hhashed := scanner.filesHashed_outcome
  have hle := scanner.sum_length_files_le
  exact {
    projects := scanner.projects_outcome
    seen := hseen
    seen_eq_add := hadd
    parsed := hparsed
    blocks := scanner.blocksExtracted_outcome
    hashed := hhashed
    files := scanner.forall₂_files_reportedProjects
    parsed_le_candidates := hle
    parsed_le_hashed := by
      intro hlt
      rw [hhashed, hparsed, UInt64.le_iff_toNat_le, UInt64.toNat_ofNat_of_lt' hlt,
        UInt64.toNat_ofNat_of_lt' (Nat.lt_of_le_of_lt hle hlt)]
      exact hle }

/-- The counters of a scan that comes to a result agree with the files that were walked and with
what is reported. -/
theorem accounts_of_scanWith {token : Token} (hpossible : token.IsPossible) {result : ScanResult}
    (hscan : scanner.scanWith token = .ok result) : scanner.Accounts result := by
  rw [scanner.eq_outcome_of_scanWith hpossible hscan]
  exact scanner.accounts_outcome

/-- In the workspace `nested` two projects hold the one file. -/
theorem accounts_of_scanWith_nested :
    Token.idle.IsPossible ∧ nested.scanWith .idle = .ok nested.outcome ∧
      nested.Accounts nested.outcome ∧ nested.outcome.stats.filesSeen = 2 := by
  have haccounts := nested.accounts_of_scanWith Token.idle_isPossible scanWith_nested
  refine ⟨Token.idle_isPossible, scanWith_nested, haccounts, ?_⟩
  rw [haccounts.seen]
  have hfiles : nested.detected.map (fun detected => (nested.walk detected.root).files.length) =
      [1, 1] := by
    rw [List.map_congr_left fun detected hdetected =>
      congrArg List.length (files_nested detected hdetected), detected_nested]
    rfl
  rw [hfiles]
  rfl

end Scanner

end CodeSurvey
