import CodeSurvey.FileSystem.Basic
import CodeSurvey.Text.Blank

/-!
# Version control

Whether the directory of a project holds changes that are not committed. A directory without a
repository of its own holds none, and neither does one about which nothing can be learned.
-/

namespace CodeSurvey

/-- What version control says about directories. -/
structure VersionControl where
  /-- Whether a directory holds changes that are not committed. -/
  hasUncommittedChanges : Path → Bool
  /-- Whether the scan is cancelled while it asks about a directory. -/
  interrupts : Path → Bool := fun _ => false

namespace VersionControl

/-- No directory holds changes. -/
def clean : VersionControl := { hasUncommittedChanges := fun _ => false }

/-- The name of the directory with a repository. -/
def repositoryName : String := ".git"

/-- Version control by git. `status` lists the changes in a directory, a line each, if it can. -/
def git (system : FileSystem) (status : Path → Option String) : VersionControl :=
  { hasUncommittedChanges := fun root =>
      system.isDirectory (root.join repositoryName)
        && (status root).any fun lines => !(Text.trim lines.toList).isEmpty }

end VersionControl

end CodeSurvey
