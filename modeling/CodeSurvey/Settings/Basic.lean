import CodeSurvey.FileSystem.Basic
import CodeSurvey.Json.Parser
import CodeSurvey.Settings.Scan
import CodeSurvey.Settings.Technology

/-!
# Settings

The settings of a scan together with the technology tables, and how they are loaded from a JSON
file. Loading fails if there is no such file, if it is not text, if the text does not spell
settings, and if no scan is possible with them, in this order.
-/

namespace CodeSurvey

/-- The settings of a scan and the technology tables. -/
structure Settings where
  scan : ScanSettings := {}
  technologies : TechnologyTables := {}
deriving DecidableEq

namespace Settings

instance : Inhabited Settings := ⟨{}⟩

/-- The names of the two parts in order. -/
def fieldNames : List String := ["scan", "technologies"]

/-- How settings are written. -/
def toJson (settings : Settings) : Json :=
  .ofMembers [("scan", settings.scan.toJson), ("technologies", settings.technologies.toJson)]

/-- The settings that a value spells. What is missing has its default. -/
def ofJson? (value : Json) : Option Settings := do
  let record ← value.record? fieldNames
  let defaults : Settings := {}
  return {
    scan := ← record.getD "scan" ScanSettings.ofJson? defaults.scan
    technologies := ← record.getD "technologies" TechnologyTables.ofJson? defaults.technologies }

/-- The settings that a text spells. -/
def parse? (source : String) : Option Settings :=
  (Json.parse? source).bind ofJson?

/-- Loads settings from a file. -/
def load (system : FileSystem) (path : Path) : Except SettingsError Settings :=
  match system.read? path with
  | none => .error (.invalidPath path "configuration file not found")
  | some content =>
    match String.fromUTF8? content with
    | none => .error (.unreadable "the file is not UTF-8 text")
    | some source =>
      match parse? source with
      | none => .error (.malformed "the text does not spell settings")
      | some settings =>
        match settings.scan.fault? with
        | some fault => .error fault
        | none => .ok settings

end Settings

end CodeSurvey
