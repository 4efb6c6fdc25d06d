import CodeSurvey.Digest.Basic
import CodeSurvey.Extraction
import CodeSurvey.Json.Record
import CodeSurvey.Path

/-!
# Projects

What is known about a project and its files. `Project.absorb` adds a file to a project: its names go
into the sets of the project, and the file to the end of its files.
-/

namespace CodeSurvey

/-- A block by its name, its kind, its file and the digest of its normal form. -/
structure IdentifierDetail where
  name : String
  kind : BlockKind
  file : String
  contentHash : Digest
deriving DecidableEq

/-- The names that a source file declares. -/
structure FileSummary where
  relativePath : String
  absolutePath : Path
  variableNames : List String := []
  functions : List String := []
  classes : List String := []
  methods : List String := []
deriving DecidableEq

/-- Names of variables, a set for every scope. -/
structure VariablesByScope where
  global : NameSet := .empty
  classBody : NameSet := .empty
  function : NameSet := .empty
  method : NameSet := .empty
deriving DecidableEq

/-- What is known about a project. -/
structure Project where
  name : String
  rootPath : Path
  files : List FileSummary := []
  technologies : NameSet := .empty
  hasUncommittedChanges : Bool := false
  variablesByScope : VariablesByScope := {}
  variableNames : NameSet := .empty
  functions : NameSet := .empty
  classes : NameSet := .empty
  methods : NameSet := .empty
  /-- The names of other projects that are mentioned. -/
  references : List String := []
  /-- The mentions that name no other project. -/
  externalReferences : List String := []
  identifierDetails : List IdentifierDetail := []
  /-- The import targets of all files, in order of their first occurrence. -/
  mentions : List String := []
deriving DecidableEq

/-- The digest of the normal form of a block. -/
def Block.digest (block : Block) : Digest :=
  Digest.ofText block.normalText

/-- The detail that stands for a block of a file. -/
def Block.detail (block : Block) (file : String) : IdentifierDetail :=
  ⟨block.name, block.kind, file, block.digest⟩

namespace VariablesByScope

/-- The names in a scope. -/
def get (sets : VariablesByScope) : Scope → NameSet
  | .global => sets.global
  | .classBody => sets.classBody
  | .function => sets.function
  | .method => sets.method

/-- The sets with names added to that of one scope. -/
def addAll (sets : VariablesByScope) (scope : Scope) (names : List String) :
    VariablesByScope :=
  match scope with
  | .global => { sets with global := sets.global.addAll names }
  | .classBody => { sets with classBody := sets.classBody.addAll names }
  | .function => { sets with function := sets.function.addAll names }
  | .method => { sets with method := sets.method.addAll names }

/-- The sets with a name added to that of its scope. -/
def insert (sets : VariablesByScope) (scope : Scope) (name : String) : VariablesByScope :=
  sets.addAll scope [name]

/-- How many names the four sets hold together. -/
def size (sets : VariablesByScope) : Nat :=
  sets.global.size + sets.classBody.size + sets.function.size
    + sets.method.size

/-- Whether no scope holds a name. -/
def isEmpty (sets : VariablesByScope) : Bool :=
  sets.size == 0

end VariablesByScope

namespace Project

/-- The project with a file added. -/
def absorb (project : Project) (file : FileSummary) : Project :=
  { project with
    variableNames := project.variableNames.addAll file.variableNames
    functions := project.functions.addAll file.functions
    classes := project.classes.addAll file.classes
    methods := project.methods.addAll file.methods
    files := project.files ++ [file] }

/-- The project without what is left out where projects are written. -/
def forgetSources (project : Project) : Project :=
  { project with identifierDetails := [], mentions := [] }

end Project

end CodeSurvey
