import CodeSurvey.Path

/-!
# Errors in settings

Why settings cannot be used, and the message for each cause.
-/

namespace CodeSurvey

/-- Why settings cannot be used. -/
inductive SettingsError where
  | invalidPath (path : Path) (reason : String)
  | missingDirectory (path : Path)
  | notADirectory (path : Path)
  | invalidOption (option reason : String)
  /-- The file cannot be read as text. -/
  | unreadable (detail : String)
  /-- The text does not spell settings. -/
  | malformed (detail : String)
deriving Repr, DecidableEq

namespace SettingsError

/-- What the message of a file that cannot be read starts with. -/
def unreadableNotice : String := "failed to read configuration"

/-- What the message of a text that does not spell settings starts with. -/
def malformedNotice : String := "failed to parse configuration"

/-- The message for a cause. -/
def message : SettingsError → String
  | invalidPath path reason => s!"invalid path '{path.text}': {reason}"
  | missingDirectory path => s!"missing required directory: {path.text}"
  | notADirectory path => s!"not a directory: {path.text}"
  | invalidOption option reason => s!"invalid configuration option '{option}': {reason}"
  | unreadable detail => s!"{unreadableNotice}: {detail}"
  | malformed detail => s!"{malformedNotice}: {detail}"

end SettingsError

end CodeSurvey
