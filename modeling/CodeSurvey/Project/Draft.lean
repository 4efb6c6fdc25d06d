import CodeSurvey.Analysis

/-!
# Drafts of projects

A project that is being put together record by record, with the files whose contents will be
compared.
-/

namespace CodeSurvey

/-- A file whose content takes part in the search for duplicates. -/
structure Candidate where
  /-- The position of its project among all. -/
  projectIndex : Nat
  /-- The name of its project. -/
  project : String
  relativePath : String
  absolutePath : Path
deriving Repr, DecidableEq

namespace Candidate

/-- How a file is named in a list of duplicates. -/
def label (candidate : Candidate) : String :=
  candidate.project ++ "/" ++ candidate.relativePath

end Candidate

/-- A project that is being put together. -/
structure ProjectDraft where
  /-- The position of the project among all. -/
  index : Nat
  project : Project
  candidates : List Candidate
deriving DecidableEq

namespace ProjectDraft

/-- A project without files. -/
def start (index : Nat) (name : String) (rootPath : Path) : ProjectDraft :=
  ⟨index, { name, rootPath }, []⟩

/-- The names of the variables in a scope. -/
def namesIn (scope : Scope) (declarations : List ScopedVariable) : List String :=
  (declarations.filter (·.scope == scope)).map ScopedVariable.name

/-- The variables of all scopes with more variables added. -/
def addVariables (sets : VariablesByScope) (declarations : List ScopedVariable) :
    VariablesByScope :=
  Scope.all.foldl (fun sets scope => sets.addAll scope (namesIn scope declarations)) sets

/-- Adds import targets to the end of a list on which none is repeated. -/
def addMentions (mentions targets : List String) : List String :=
  targets.foldl (fun mentions target =>
    if mentions.contains target then mentions else mentions ++ [target]) mentions

/-- The project with what was read from a source file added. -/
def absorbParsed (project : Project) (parsed : ParsedFile) : Project :=
  { project with
    variablesByScope := addVariables project.variablesByScope parsed.declarations
    identifierDetails := project.identifierDetails ++ parsed.identifiers
    mentions := addMentions project.mentions parsed.references }.absorb parsed.summary

/-- The draft with technologies added. -/
def addTechnologies (draft : ProjectDraft) (labels : List String) : ProjectDraft :=
  { draft with
    project := { draft.project with technologies := draft.project.technologies.addAll labels } }

/-- The draft with the record of a file added. -/
def addRecord (draft : ProjectDraft) (record : FileRecord) : ProjectDraft :=
  let draft := draft.addTechnologies record.technologies
  { draft with
    candidates :=
      if record.hashable then
        draft.candidates
          ++ [⟨draft.index, draft.project.name, record.relativePath, record.absolutePath⟩]
      else draft.candidates
    project :=
      match record.parsed with
      | none => draft.project
      | some parsed => absorbParsed draft.project parsed }

/-- How many source files the draft holds. -/
def fileCount (draft : ProjectDraft) : Nat :=
  draft.project.files.length

/-- The finished project. -/
def finish (draft : ProjectDraft) (hasUncommittedChanges : Bool) : Project :=
  { draft.project with hasUncommittedChanges }

end ProjectDraft

end CodeSurvey
