import CodeSurvey.Report.Basic

/-!
# Relationship edges

The graph that a report draws between projects: two projects are joined by the files that they hold
alike, and by the references between them. Edges have no direction; the name that comes first is the
source. They are listed by kind, source and target.
-/

namespace CodeSurvey

/-- Why two projects are joined. -/
inductive EdgeKind where
  | duplicate
  | reference
deriving Repr, DecidableEq

namespace EdgeKind

/-- The word for a kind. -/
def word : EdgeKind → String
  | duplicate => "duplicate"
  | reference => "reference"

/-- The kind with a given word. -/
def ofWord? (text : String) : Option EdgeKind :=
  [duplicate, reference].find? fun kind => kind.word == text

/-- The place of a kind among both. -/
def rank : EdgeKind → Nat
  | duplicate => 0
  | reference => 1

end EdgeKind

/-- Two projects that are joined, and how closely. -/
structure Edge where
  kind : EdgeKind
  source : String
  target : String
  weight : Nat
deriving Repr, DecidableEq

namespace Edge

/-- Whether two edges join the same projects for the same reason. -/
def sameEnds (a b : Edge) : Bool :=
  a.kind == b.kind && a.source == b.source && a.target == b.target

/-- Whether an edge is listed before another. -/
def precedes (a b : Edge) : Bool :=
  a.kind.rank < b.kind.rank
    || (a.kind == b.kind
      && (a.source < b.source || (a.source == b.source && a.target < b.target)))

/-- The edge between two different names. -/
def between (kind : EdgeKind) (a b : String) (weight : Nat) : Option Edge :=
  if a = b then none
  else if a < b then some ⟨kind, a, b, weight⟩
  else some ⟨kind, b, a, weight⟩

/-- Puts an edge in front of others. If the first of them has the same ends it gets the weight. -/
def add (edge : Edge) : List Edge → List Edge
  | [] => [edge]
  | next :: rest =>
    if edge.sameEnds next then { next with weight := edge.weight + next.weight } :: rest
    else edge :: next :: rest

/-- Every pair of an element of a list and a later one. -/
def pairs : List String → List (String × String)
  | [] => []
  | a :: rest => rest.map (fun b => (a, b)) ++ pairs rest

/-- The edges that files held alike give. -/
def ofDuplicate (duplicate : Duplicate) : List Edge :=
  (pairs duplicate.projects.toList).filterMap fun pair =>
    between .duplicate pair.1 pair.2 duplicate.files.length

/-- The edges that the references of a project give. -/
def ofReferences (project : Project) : List Edge :=
  project.references.filterMap fun target => between .reference project.name target 1

end Edge

namespace Report

/-- All edges of a report before they are put together. -/
def rawEdges (report : Report) : List Edge :=
  report.duplicates.flatMap Edge.ofDuplicate ++ report.projects.flatMap Edge.ofReferences

/-- The edges of a report, in order, one for two projects and a kind. -/
def edges (report : Report) : List Edge :=
  (report.rawEdges.mergeSort fun a b => !b.precedes a).foldr Edge.add []

end Report

end CodeSurvey
