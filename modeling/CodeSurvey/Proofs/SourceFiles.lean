import CodeSurvey.Proofs.ProjectScan

/-!
# Which files are parsed

A file is looked at in steps, each of which may be the last one. This file says which files come
how far, and that the parsed files of a project, in the order of the walk, are what the project is
made of.

## Key results

- `Analysis.any_hashable_record`: which files take part in the search for duplicates
- `Analysis.isSome_parsedText?`: which files are parsed
- `Scanner.parsedFiles_eq_filterMap`: what is read from the files of a project
- `Scanner.map_absolutePath_parsedFiles`: the parsed files are the source files of the walk
-/

namespace CodeSurvey

namespace Analysis

/-- Whether a file takes part in the search for duplicates: its name is not ignored, and it has
between one and `maxFileSize` bytes. -/
def isCandidate (system : FileSystem) (settings : ScanSettings) (path : Path) : Bool :=
  !settings.isIgnoredFile (path.fileName?.getD "") &&
    (system.size? path).any fun size => 1 ≤ size && size ≤ settings.maxFileSize

/-- Whether a file is a source file: besides, its extension is not binary, and it is UTF-8. -/
def isSource (system : FileSystem) (settings : ScanSettings) (path : Path) : Bool :=
  isCandidate system settings path && !path.extension?.any settings.isBinaryExtension &&
    (system.readText? path).isSome

variable (system : FileSystem) (settings : Settings) (root path : Path)

theorem any_hashable_record :
    (examine system settings root path).record.any FileRecord.hashable =
      isCandidate system settings.scan path := by
  unfold isCandidate
  by_cases hignored : settings.scan.isIgnoredFile (path.fileName?.getD "") = true
  · rw [record_examine_of_ignored system settings root path hignored, hignored]
    rfl
  · rw [Bool.not_eq_true] at hignored
    rw [record_examine system settings root path hignored, hignored]
    rfl

/-- The source files are those that are parsed. -/
theorem isSome_parsedText? :
    (parsedText? system settings.scan path).isSome = isSource system settings.scan path := by
  have hcandidate : isCandidate system settings.scan path =
      (!settings.scan.isIgnoredFile (path.fileName?.getD "") &&
        (system.size? path).any (isHashable settings.scan)) := rfl
  unfold isSource parsedText? content? FileSystem.readText?
  rw [hcandidate]
  by_cases hignored : settings.scan.isIgnoredFile (path.fileName?.getD "") = true
  · simp [hignored]
  · by_cases hbinary : path.extension?.any settings.scan.isBinaryExtension = true
    · simp [hbinary]
    · cases hread : system.read? path with
      | none => simp
      | some content =>
        -- a file that can be read has the size of its content
        rw [size?_of_read? hread, Option.any_some]
        by_cases hhashable : isHashable settings.scan content.size = true
        · simp [hignored, hbinary, hhashable, Option.filter_some]
        · simp [hhashable, Option.filter_some]

theorem isCandidate_of_isSource {settings : ScanSettings}
    (h : isSource system settings path = true) : isCandidate system settings path = true := by
  unfold isSource at h
  simp only [Bool.and_eq_true] at h
  exact h.1.1

end Analysis

namespace Scanner

variable (scanner : Scanner) (detected : Detected)

/-- What was read from the source files of a project, in walk order. -/
def parsedFiles : List ParsedFile :=
  (scanner.recordsOf detected).filterMap FileRecord.parsed

theorem parsedFiles_eq_filterMap :
    scanner.parsedFiles detected = (scanner.walk detected.root).files.filterMap fun path =>
      (Analysis.parsedText? scanner.system scanner.settings.scan path).map fun text =>
        ParsedFile.ofExtraction (detected.root.relativeText path) path
          (Extraction.ofText scanner.settings.scan.blockTextLimit text) := by
  rw [parsedFiles, recordsOf, List.filterMap_filterMap]
  apply List.filterMap_congr
  intro path _
  exact Analysis.parsed_record scanner.system scanner.settings detected.root path

/-- The paths of the parsed files are the source files of the walk. -/
theorem map_absolutePath_parsedFiles :
    (scanner.parsedFiles detected).map (fun parsed => parsed.summary.absolutePath) =
      (scanner.walk detected.root).files.filter
        (Analysis.isSource scanner.system scanner.settings.scan) := by
  rw [parsedFiles_eq_filterMap, List.map_filterMap, ← List.filterMap_eq_filter]
  apply List.filterMap_congr
  intro path _
  rw [Option.map_map, Option.guard, ← Analysis.isSome_parsedText?]
  -- what is read from a file names its path
  cases Analysis.parsedText? scanner.system scanner.settings.scan path <;> rfl

theorem files_eq_map_parsedFiles :
    (scanner.scanProject .idle detected).project.files =
      (scanner.parsedFiles detected).map ParsedFile.summary := by
  rw [files_scanProject, parsedFiles, List.map_filterMap, List.filterMap_eq_flatMap_toList]

theorem identifierDetails_eq_flatMap_parsedFiles :
    (scanner.scanProject .idle detected).project.identifierDetails =
      (scanner.parsedFiles detected).flatMap ParsedFile.identifiers := by
  rw [identifierDetails_scanProject, parsedFiles, List.filterMap_eq_flatMap_toList,
    List.flatMap_assoc]
  apply List.flatMap_congr
  intro record _
  cases record.parsed <;> simp

end Scanner

end CodeSurvey
