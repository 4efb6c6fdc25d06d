import CodeSurvey.Report.Basic

/-!
# Shared identifiers

Which blocks several projects declare under one name and kind, and whether their texts agree. The
identifiers are listed by name and then by kind, the groups of agreeing projects by the digests of
the texts.
-/

namespace CodeSurvey.Sharing

/-- A block declared in the project at a position. -/
structure Occurrence where
  name : String
  kind : BlockKind
  body : Digest
  project : Nat
deriving DecidableEq

namespace Occurrence

/-- Whether an occurrence comes no later than another by name and kind. -/
def keyLe (a b : Occurrence) : Bool :=
  a.name < b.name || (a.name == b.name && a.kind.rank ≤ b.kind.rank)

/-- Whether two occurrences have one name and kind. -/
def sameKey (a b : Occurrence) : Bool :=
  a.name == b.name && a.kind == b.kind

/-- Whether an occurrence comes no later than another by its text. -/
def bodyLe (a b : Occurrence) : Bool :=
  !b.body.precedes a.body

end Occurrence

/-- The blocks of all projects. -/
def occurrences (projects : List Project) : List Occurrence :=
  projects.zipIdx.flatMap fun (project, index) =>
    project.identifierDetails.map fun detail =>
      ⟨detail.name, detail.kind, detail.contentHash, index⟩

/-- The positions of the projects with one of some blocks, without repetitions. -/
def owners (group : List Occurrence) : List Nat :=
  (group.map Occurrence.project).eraseDups

/-- The names of the projects at some positions. -/
def namesAt (projects : List Project) (positions : List Nat) : NameSet :=
  .ofList (positions.filterMap fun position => (projects[position]?).map Project.name)

/-- The groups of projects that agree on a text, of blocks of one name and kind. -/
def overlaps (projects : List Project) (group : List Occurrence) : List NameSet :=
  let byBody := (group.mergeSort Occurrence.bodyLe).splitBy fun a b => a.body == b.body
  (byBody.filter fun same => 1 < (owners same).length).map fun same =>
    namesAt projects (owners same)

/-- The identifier that blocks of one name and kind are, if they lie in several projects. -/
def ofGroup? (projects : List Project) : List Occurrence → Option SharedIdentifier
  | [] => none
  | first :: rest =>
    let group := first :: rest
    if (owners group).length < 2 then none
    else
      let overlaps := overlaps projects group
      some {
        name := first.name
        kind := first.kind
        projects := namesAt projects (owners group)
        strength := if overlaps.isEmpty then .soft else .hard
        hardOverlapGroups := overlaps }

/-- The identifiers that several projects declare. -/
def identifiers (projects : List Project) : List SharedIdentifier :=
  (((occurrences projects).mergeSort Occurrence.keyLe).splitBy Occurrence.sameKey).filterMap
    (ofGroup? projects)

end CodeSurvey.Sharing
