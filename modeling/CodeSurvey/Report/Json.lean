import CodeSurvey.Project.Json
import CodeSurvey.Report.Edge

/-!
# Reports as JSON

How reports, their parts and edges are written and read. Every field has to be given.
-/

namespace CodeSurvey

namespace Strength

/-- How a strength is written. -/
def toJson (strength : Strength) : Json := .ofString strength.word

/-- The strength that a value spells. -/
def ofJson? (value : Json) : Option Strength := value.word?.bind ofWord?

end Strength

namespace EdgeKind

/-- How a kind of edge is written. -/
def toJson (kind : EdgeKind) : Json := .ofString kind.word

/-- The kind of edge that a value spells. -/
def ofJson? (value : Json) : Option EdgeKind := value.word?.bind ofWord?

end EdgeKind

namespace Edge

/-- How an edge is written. -/
def toJson (edge : Edge) : Json :=
  .ofMembers [
    ("source", .ofString edge.source),
    ("target", .ofString edge.target),
    ("kind", edge.kind.toJson),
    ("weight", .ofNat edge.weight)]

end Edge

namespace Duplicate

/-- How files held alike are written. -/
def toJson (duplicate : Duplicate) : Json :=
  .ofMembers [("projects", duplicate.projects.toJson), ("files", .ofStrings duplicate.files)]

/-- The files held alike that a value spells. -/
def ofJson? (value : Json) : Option Duplicate := do
  let record ← value.record? ["projects", "files"]
  return {
    projects := ← record.require "projects" Json.nameSet?
    files := ← record.require "files" (Json.list? Json.text?) }

end Duplicate

namespace SharedIdentifier

/-- How a shared identifier is written. -/
def toJson (shared : SharedIdentifier) : Json :=
  .ofMembers [
    ("name", .ofString shared.name),
    ("kind", shared.kind.toJson),
    ("projects", shared.projects.toJson),
    ("strength", shared.strength.toJson),
    ("hardOverlapGroups", .array (shared.hardOverlapGroups.map NameSet.toJson))]

/-- The shared identifier that a value spells. -/
def ofJson? (value : Json) : Option SharedIdentifier := do
  let record ← value.record? ["name", "kind", "projects", "strength", "hardOverlapGroups"]
  return {
    name := ← record.require "name" Json.text?
    kind := ← record.require "kind" BlockKind.ofJson?
    projects := ← record.require "projects" Json.nameSet?
    strength := ← record.require "strength" Strength.ofJson?
    hardOverlapGroups := ← record.require "hardOverlapGroups" (Json.list? Json.nameSet?) }

end SharedIdentifier

namespace Report

/-- How a report is written. -/
def toJson (report : Report) : Json :=
  .ofMembers [
    ("projects", .array (report.projects.map Project.toJson)),
    ("duplicates", .array (report.duplicates.map Duplicate.toJson)),
    ("sharedIdentifiers", .array (report.sharedIdentifiers.map SharedIdentifier.toJson))]

/-- The report that a value spells. -/
def ofJson? (value : Json) : Option Report := do
  let record ← value.record? ["projects", "duplicates", "sharedIdentifiers"]
  return {
    projects := ← record.require "projects" (Json.list? Project.ofJson?)
    duplicates := ← record.require "duplicates" (Json.list? Duplicate.ofJson?)
    sharedIdentifiers :=
      ← record.require "sharedIdentifiers" (Json.list? SharedIdentifier.ofJson?) }

end Report

end CodeSurvey
