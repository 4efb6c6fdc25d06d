import CodeSurvey.Project.Basic

/-!
# Reports

What a scan finds: the projects, the files that several projects hold alike, and the identifiers
that several projects declare.
-/

namespace CodeSurvey

/-- Files of several projects with one content. -/
structure Duplicate where
  projects : NameSet
  files : List String
deriving DecidableEq

/-- How much the projects that declare an identifier agree. -/
inductive Strength where
  /-- By its name and kind only. -/
  | soft
  /-- By the text of a block too. -/
  | hard
deriving Repr, DecidableEq

namespace Strength

/-- The word for a strength. -/
def word : Strength → String
  | soft => "soft"
  | hard => "hard"

/-- The strength with a given word. -/
def ofWord? (text : String) : Option Strength :=
  [soft, hard].find? fun strength => strength.word == text

/-- Whether texts agree too. -/
def isHard : Strength → Bool
  | soft => false
  | hard => true

end Strength

/-- A name and kind of block that several projects declare. -/
structure SharedIdentifier where
  name : String
  kind : BlockKind
  projects : NameSet
  strength : Strength
  /-- For every text that several projects share, the names of those projects. -/
  hardOverlapGroups : List NameSet
deriving DecidableEq

/-- What a scan finds. -/
structure Report where
  projects : List Project
  duplicates : List Duplicate
  sharedIdentifiers : List SharedIdentifier
deriving DecidableEq

namespace Report

/-- The first project with a given name. -/
def project? (report : Report) (name : String) : Option Project :=
  report.projects.find? (·.name == name)

/-- The names of the projects. -/
def projectNames (report : Report) : NameSet :=
  .ofList (report.projects.map Project.name)

/-- The shared identifiers on whose text projects agree. -/
def hardIdentifiers (report : Report) : List SharedIdentifier :=
  report.sharedIdentifiers.filter (·.strength.isHard)

end Report

end CodeSurvey
