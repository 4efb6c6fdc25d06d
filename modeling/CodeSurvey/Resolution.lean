import CodeSurvey.Project.Basic
import CodeSurvey.Text.Lowercase

/-!
# Resolution of references

Which projects the import targets of a project mention. Names and mentions are compared in lower
case. A mention that names no other project is external.
-/

namespace CodeSurvey.Resolution

/-- Whether a text occurs in another. -/
def occursIn (part : List Char) : List Char → Bool
  | [] => part.isEmpty
  | c :: rest => part.isPrefixOf (c :: rest) || occursIn part rest

/-- Whether a mention names a project: it is its name, or the name stands in it behind a slash at
the end or before another one, behind an at sign or a colon, or before a slash or a point. -/
def mentionNames (mention name : String) : Bool :=
  let text := mention.toList
  let part := name.toList
  mention == name
    || ('/' :: part).isSuffixOf text
    || occursIn ('/' :: (part ++ ['/'])) text
    || occursIn ('@' :: part) text
    || occursIn (':' :: part) text
    || occursIn (part ++ ['/']) text
    || occursIn (part ++ ['.']) text

/-- A name of a project with its lower-case form. -/
structure KnownName where
  lowered : String
  name : String
deriving Repr, DecidableEq

/-- The names of projects that can be mentioned: none is empty, and of several that differ in case
only the first counts. -/
def knownNames (names : List String) : List KnownName :=
  (names.filter (· != "")).foldl (fun known name =>
    let lowered := Text.lower name
    if known.any (·.lowered == lowered) then known else known ++ [⟨lowered, name⟩]) []

/-- The projects that a mention names, other than the one that makes it. -/
def named (known : List KnownName) (own mention : String) : List String :=
  let lowered := Text.lower mention
  (known.filter fun other => other.lowered != own && mentionNames lowered other.lowered).map
    KnownName.name

/-- The references of a project with these mentions: the projects named, by the first mention of
each. -/
def references (known : List KnownName) (own : String) (mentions : List String) : List String :=
  firstOccurrences (mentions.flatMap (named known own))

/-- The mentions that name no other project. -/
def external (known : List KnownName) (own : String) (mentions : List String) : List String :=
  firstOccurrences (mentions.filter fun mention => (named known own mention).isEmpty)

/-- A project with its mentions resolved. -/
def resolveProject (known : List KnownName) (project : Project) : Project :=
  let own := Text.lower project.name
  { project with
    references := references known own project.mentions
    externalReferences := external known own project.mentions }

/-- Projects with their mentions resolved. -/
def resolve (projects : List Project) : List Project :=
  projects.map (resolveProject (knownNames (projects.map Project.name)))

end CodeSurvey.Resolution
