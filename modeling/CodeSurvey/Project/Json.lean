import CodeSurvey.Project.Basic

/-!
# Projects as JSON

How kinds, scopes, spans, blocks, details, files and projects are written and read. Every field
has to be given. The details and mentions of a project are not written, so a project is read back
without them.
-/

namespace CodeSurvey

namespace BlockKind

/-- How a kind is written. -/
def toJson (kind : BlockKind) : Json := .ofString kind.word

/-- The kind that a value spells. -/
def ofJson? (value : Json) : Option BlockKind := value.word?.bind ofWord?

@[simp] theorem ofJson?_toJson (kind : BlockKind) : ofJson? kind.toJson = some kind := by
  cases kind <;> decide

end BlockKind

namespace Scope

/-- How a scope is written. -/
def toJson (scope : Scope) : Json := .ofString scope.word

/-- The scope that a value spells. -/
def ofJson? (value : Json) : Option Scope := value.word?.bind ofWord?

@[simp] theorem ofJson?_toJson (scope : Scope) : ofJson? scope.toJson = some scope := by
  cases scope <;> decide

end Scope

namespace NameSet

/-- How a set of names is written. -/
def toJson (set : NameSet) : Json := .ofStrings set.toList

end NameSet

namespace Digest

/-- How a digest is written. -/
def toJson (digest : Digest) : Json := .ofString digest.toHex

/-- The digest that a value spells. -/
def ofJson? (value : Json) : Option Digest := value.text?.bind ofHex?

end Digest

namespace Span

/-- How a span is written. -/
def toJson (span : Span) : Json :=
  .ofMembers [("start", .ofNat span.first), ("end", .ofNat span.last)]

/-- The span that a value spells. -/
def ofJson? (value : Json) : Option Span := do
  let record ← value.record? ["start", "end"]
  return ⟨← record.require "start" Json.nat?, ← record.require "end" Json.nat?⟩

end Span

namespace Block

/-- How a block is written. -/
def toJson (block : Block) : Json :=
  .ofMembers [
    ("name", .ofString block.name),
    ("kind", block.kind.toJson),
    ("normalized", .ofString block.normalText),
    ("span", block.span.toJson)]

/-- The block that a value spells. -/
def ofJson? (value : Json) : Option Block := do
  let record ← value.record? ["name", "kind", "normalized", "span"]
  return {
    name := ← record.require "name" Json.text?
    kind := ← record.require "kind" BlockKind.ofJson?
    normalText := ← record.require "normalized" Json.text?
    span := ← record.require "span" Span.ofJson? }

end Block

namespace IdentifierDetail

/-- How a detail is written. -/
def toJson (detail : IdentifierDetail) : Json :=
  .ofMembers [
    ("name", .ofString detail.name),
    ("kind", detail.kind.toJson),
    ("file", .ofString detail.file),
    ("contentHash", detail.contentHash.toJson)]

end IdentifierDetail

namespace FileSummary

/-- How the summary of a file is written. -/
def toJson (file : FileSummary) : Json :=
  .ofMembers [
    ("relativePath", .ofString file.relativePath),
    ("absolutePath", .ofString file.absolutePath.text),
    ("variables", .ofStrings file.variableNames),
    ("functions", .ofStrings file.functions),
    ("classes", .ofStrings file.classes),
    ("methods", .ofStrings file.methods)]

/-- The summary of a file that a value spells. -/
def ofJson? (value : Json) : Option FileSummary := do
  let record ← value.record?
    ["relativePath", "absolutePath", "variables", "functions", "classes", "methods"]
  let names := Json.list? Json.text?
  return {
    relativePath := ← record.require "relativePath" Json.text?
    absolutePath := ⟨← record.require "absolutePath" Json.text?⟩
    variableNames := ← record.require "variables" names
    functions := ← record.require "functions" names
    classes := ← record.require "classes" names
    methods := ← record.require "methods" names }

end FileSummary

namespace VariablesByScope

/-- How the variables of all scopes are written. -/
def toJson (sets : VariablesByScope) : Json :=
  .ofMembers [
    ("global", sets.global.toJson),
    ("class", sets.classBody.toJson),
    ("function", sets.function.toJson),
    ("method", sets.method.toJson)]

/-- The variables of all scopes that a value spells. -/
def ofJson? (value : Json) : Option VariablesByScope := do
  let record ← value.record? ["global", "class", "function", "method"]
  return {
    global := ← record.require "global" Json.nameSet?
    classBody := ← record.require "class" Json.nameSet?
    function := ← record.require "function" Json.nameSet?
    method := ← record.require "method" Json.nameSet? }

end VariablesByScope

namespace Project

/-- The names of the fields of a project in order. -/
def fieldNames : List String :=
  ["name", "rootPath", "files", "technologies", "hasUncommittedChanges", "variablesByScope",
    "variables", "functions", "classes", "methods", "references", "externalReferences"]

/-- How a project is written. -/
def toJson (project : Project) : Json :=
  .ofMembers [
    ("name", .ofString project.name),
    ("rootPath", .ofString project.rootPath.text),
    ("files", .array (project.files.map FileSummary.toJson)),
    ("technologies", project.technologies.toJson),
    ("hasUncommittedChanges", .bool project.hasUncommittedChanges),
    ("variablesByScope", project.variablesByScope.toJson),
    ("variables", project.variableNames.toJson),
    ("functions", project.functions.toJson),
    ("classes", project.classes.toJson),
    ("methods", project.methods.toJson),
    ("references", .ofStrings project.references),
    ("externalReferences", .ofStrings project.externalReferences)]

/-- The project that a value spells. -/
def ofJson? (value : Json) : Option Project := do
  let record ← value.record? fieldNames
  let names := Json.list? Json.text?
  return {
    name := ← record.require "name" Json.text?
    rootPath := ⟨← record.require "rootPath" Json.text?⟩
    files := ← record.require "files" (Json.list? FileSummary.ofJson?)
    technologies := ← record.require "technologies" Json.nameSet?
    hasUncommittedChanges := ← record.require "hasUncommittedChanges" Json.bool?
    variablesByScope := ← record.require "variablesByScope" VariablesByScope.ofJson?
    variableNames := ← record.require "variables" Json.nameSet?
    functions := ← record.require "functions" Json.nameSet?
    classes := ← record.require "classes" Json.nameSet?
    methods := ← record.require "methods" Json.nameSet?
    references := ← record.require "references" names
    externalReferences := ← record.require "externalReferences" names }

end Project

end CodeSurvey
