import CodeSurvey.Settings.Error

/-!
# Errors of a scan

Why a scan, or the reading of one file, fails, and the message for each cause. A file that cannot be
read or is too large is passed over; every other cause ends the scan.
-/

namespace CodeSurvey

/-- Why a scan or the reading of a file fails. -/
inductive ScanError where
  | rootNotFound (path : Path)
  | notADirectory (path : Path)
  | invalidSettings (detail : String)
  | pathNotText (path : String)
  | cancelled
  | unreadable (path : Path) (detail : String)
  | oversized (path : Path) (size : Nat)
deriving Repr, DecidableEq

namespace ScanError

/-- The message for a cause. -/
def message : ScanError → String
  | rootNotFound path => s!"root directory not found: {path.text}"
  | notADirectory path => s!"root path is not a directory: {path.text}"
  | invalidSettings detail => s!"invalid configuration: {detail}"
  | pathNotText path => s!"path is not valid UTF-8: {path}"
  | cancelled => "scan cancelled"
  | unreadable path detail => s!"failed to read file {path.text}: {detail}"
  | oversized path size => s!"file {path.text} is too large to scan ({size} bytes)"

/-- The error of a scan with settings that cannot be used. -/
def ofSettings (error : SettingsError) : ScanError :=
  invalidSettings error.message

/-- Whether a scan goes on without the file concerned. -/
def isRecoverable : ScanError → Bool
  | unreadable .. => true
  | oversized .. => true
  | _ => false

/-- Whether the error ends a scan. -/
def isFatal (error : ScanError) : Bool :=
  !error.isRecoverable

/-- The path concerned, if the error keeps one. -/
def path? : ScanError → Option Path
  | rootNotFound path => some path
  | notADirectory path => some path
  | unreadable path _ => some path
  | oversized path _ => some path
  | _ => none

end ScanError

end CodeSurvey
