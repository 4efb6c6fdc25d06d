import CodeSurvey.FileSystem.Basic
import CodeSurvey.Settings.Scan

/-!
# Detection of projects

Which directories of a workspace are projects, and what they are called. A project is a directory
that holds a marker and neither holds other projects by its name nor lies in a directory of
serverless functions. Names that several projects share, whatever their case, are replaced by
paths.
-/

namespace CodeSurvey.Detection

/-- Whether a directory holds one of the markers of a project. -/
def hasMarker (system : FileSystem) (settings : ScanSettings) (dir : Path) : Bool :=
  settings.projectMarkers.any fun marker => system.contains (dir.join marker)

/-- Whether a directory holds projects and is none, by its name and the name of what holds it. -/
def isContainer (settings : ScanSettings) (dir : Path) : Bool :=
  match dir.fileName? with
  | none => false
  | some name =>
    Text.equalIgnoringAsciiCase name settings.containerRoot
      || (dir.parentName?.any (Text.equalIgnoringAsciiCase · settings.containerRoot)
        && settings.containerNames.any (Text.equalIgnoringAsciiCase · name))

/-- Where among some names the directory above one with serverless functions stands, if that one
follows it. -/
def serverlessIndex? (settings : ScanSettings) : List String → Option Nat
  | parent :: child :: rest =>
    if Text.equalIgnoringAsciiCase parent settings.serverlessParent
        && Text.equalIgnoringAsciiCase child settings.serverlessChild then some 0
    else (serverlessIndex? settings (child :: rest)).map (· + 1)
  | _ => none

/-- Whether a directory of serverless functions stands on some steps. -/
def isServerless (settings : ScanSettings) (steps : List PathComponent) : Bool :=
  (serverlessIndex? settings (Path.namesOf steps)).isSome

/-- Whether a directory of the workspace at `root` is a project. -/
def isProject (system : FileSystem) (settings : ScanSettings) (root dir : Path) : Bool :=
  !dir.sameSteps root && hasMarker system settings dir && !isContainer settings dir
    && !isServerless settings (root.relativeSteps dir)

/-- The projects among the directories of the workspace at `root`. -/
def detect (system : FileSystem) (settings : ScanSettings) (root : Path) (dirs : List Path) :
    List Path :=
  dirs.filter (isProject system settings root)

/-- The name of a project: that of the directory above the serverless ones if it lies in one, and
otherwise its own. -/
def projectName (settings : ScanSettings) (root dir : Path) : String :=
  let names := Path.namesOf (root.relativeSteps dir)
  let owner :=
    match serverlessIndex? settings names with
    | some (index + 1) => names[index]?
    | _ => none
  owner.getD (dir.fileName?.getD dir.text)

/-- The names of a directory below the root, with slashes between them. -/
def qualifiedName (root dir : Path) : String :=
  "/".intercalate (Path.namesOf (root.relativeSteps dir))

/-- The names under which projects are listed. A name that is another project's too, whatever the
case, gives way to the path. -/
def displayNames (settings : ScanSettings) (root : Path) (dirs : List Path) : List String :=
  let names := dirs.map (projectName settings root)
  let lowered := names.map Text.lower
  dirs.map fun dir =>
    let name := projectName settings root dir
    if lowered.count (Text.lower name) < 2 then name else qualifiedName root dir

theorem mem_detect {system : FileSystem} {settings : ScanSettings} {root dir : Path}
    {dirs : List Path} :
    dir ∈ detect system settings root dirs
      ↔ dir ∈ dirs ∧ isProject system settings root dir = true := by
  simp [detect]

@[simp] theorem length_displayNames (settings : ScanSettings) (root : Path) (dirs : List Path) :
    (displayNames settings root dirs).length = dirs.length := by
  simp [displayNames]

end CodeSurvey.Detection
