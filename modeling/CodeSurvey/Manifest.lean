import CodeSurvey.FileSystem.Basic
import CodeSurvey.Json.Parser
import CodeSurvey.NameSet
import CodeSurvey.Settings.Technology

/-!
# Package manifests

The technologies that the package manifest of a project names. A manifest that cannot be read names
none. What the packages of a manifest are set to does not matter, but it has to be a sound value.
-/

namespace CodeSurvey.Manifest

/-- The name of a package manifest. -/
def fileName : String := "package.json"

/-- How deep a manifest nests the values of its packages. -/
def packageDepth : Nat := 2

/-- The names of the packages on a list of dependencies. -/
def packages? (value : Json) : Option (List String) := do
  let members ← value.members?
  if members.all fun member => member.2.isSoundWithin (Json.depthLimit - packageDepth) then
    some (members.map Prod.fst)
  else none

/-- The names of the packages that a manifest lists. -/
def ofJson? (value : Json) : Option (List String) := do
  let record ← value.record? ["dependencies", "devDependencies"]
  let own ← record.getD "dependencies" (Json.optional? packages?) none
  let development ← record.getD "devDependencies" (Json.optional? packages?) none
  return own.getD [] ++ development.getD []

/-- The technologies named by the manifest of the project at a path, if it has one. -/
def technologies (system : FileSystem) (tables : TechnologyTables) (root : Path) : NameSet :=
  let source? := system.readText? (root.join fileName)
  match source?.bind fun source => (Json.parse? source).bind ofJson? with
  | none => .empty
  | some names => .ofList (tables.manifestLabel :: names.filterMap tables.forPackage?)

end CodeSurvey.Manifest
