import CodeSurvey.Project.Basic
import CodeSurvey.ScanError
import CodeSurvey.Settings.Basic
import CodeSurvey.Stats

/-!
# Analysis of files

What becomes of one file of a project. A file with an ignored name leaves no record. Any other
file is listed with its technologies; it is hashed if it is neither empty nor too large, and read
as source text if besides it is not binary by its extension and is UTF-8.
-/

namespace CodeSurvey

/-- What was read from a source file. -/
structure ParsedFile where
  summary : FileSummary
  declarations : List ScopedVariable
  identifiers : List IdentifierDetail
  references : List String
deriving DecidableEq

/-- What is known about a file after it was looked at. -/
structure FileRecord where
  relativePath : String
  absolutePath : Path
  technologies : List String
  /-- Whether the content of the file takes part in the search for duplicates. -/
  hashable : Bool
  parsed : Option ParsedFile
deriving DecidableEq

/-- What comes of looking at a file: a record, unless its name is ignored, and what is counted. -/
structure Examination where
  record : Option FileRecord
  stats : Stats
deriving DecidableEq

namespace Stats

/-- A file was seen and passed over. -/
def oneSkipped : Stats := { filesSeen := 1, filesSkipped := 1 }

/-- A file was seen and parsed, with so many blocks. -/
def oneParsed (blocks : Nat) : Stats :=
  { filesSeen := 1, filesParsed := 1, blocksExtracted := UInt64.ofNat blocks }

end Stats

namespace ParsedFile

/-- What is read from the text of a file. -/
def ofExtraction (relativePath : String) (absolutePath : Path) (extraction : Extraction) :
    ParsedFile :=
  { summary := {
      relativePath, absolutePath
      variableNames := extraction.variableNames
      functions := extraction.functions
      classes := extraction.classes
      methods := extraction.methods }
    declarations := extraction.declarations
    identifiers := extraction.blocks.map (·.detail relativePath)
    references := extraction.references }

end ParsedFile

namespace Analysis

/-- Whether the content of a file of this size takes part in the search for duplicates. -/
def isHashable (settings : ScanSettings) (size : Nat) : Bool :=
  0 < size && size ≤ settings.maxFileSize

/-- The text of a file of a given size. There is none if the file is empty or binary by its
extension. -/
def source (system : FileSystem) (settings : ScanSettings) (path : Path) (size : Nat) :
    Except ScanError (Option String) :=
  if settings.maxFileSize < size then .error (.oversized path size)
  else if path.extension?.any settings.isBinaryExtension || size = 0 then .ok none
  else
    match system.read? path with
    | none => .error (.unreadable path "it is not a file")
    | some content =>
      match String.fromUTF8? content with
      | none => .error (.unreadable path "it is not UTF-8 text")
      | some text => .ok (some text)

/-- Looks at a file of the project at `root`. -/
def examine (system : FileSystem) (settings : Settings) (root path : Path) : Examination :=
  if settings.scan.isIgnoredFile (path.fileName?.getD "") then ⟨none, .oneSkipped⟩
  else
    let record : FileRecord :=
      { relativePath := root.relativeText path
        absolutePath := path
        technologies := settings.technologies.forFile path
        hashable := false
        parsed := none }
    match system.size? path with
    | none => ⟨some record, .oneSkipped⟩
    | some size =>
      let record := { record with hashable := isHashable settings.scan size }
      match source system settings.scan path size with
      | .ok (some text) =>
        let extraction := Extraction.ofText settings.scan.blockTextLimit text
        let parsed := ParsedFile.ofExtraction record.relativePath path extraction
        ⟨some { record with parsed := some parsed }, .oneParsed extraction.blocks.length⟩
      | _ => ⟨some record, .oneSkipped⟩

/-- Looks at the files of the project at `root`, but for those at whose position the scan has been
cancelled already. -/
def examineAll (system : FileSystem) (settings : Settings) (root : Path) (paths : List Path)
    (cancelled : Nat → Bool) : List Examination :=
  paths.zipIdx.filterMap fun (path, position) =>
    if cancelled position then none else some (examine system settings root path)

/-- The records among what came of looking at files. -/
def records (examinations : List Examination) : List FileRecord :=
  examinations.filterMap Examination.record

/-- What was counted while looking at files. -/
def stats (examinations : List Examination) : Stats :=
  Stats.sum (examinations.map Examination.stats)

end Analysis

end CodeSurvey
