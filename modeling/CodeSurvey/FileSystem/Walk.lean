import CodeSurvey.FileSystem.Basic
import CodeSurvey.IgnoreSet

/-!
# Walks

The files and directories below a path, a directory before what it holds and siblings in the order
of their names. Directories with an ignored name are passed over with all that they hold; the name
of the path itself does not matter. A directory whose path is too long is met, but nothing that it
holds. A link below the path is passed over, unless links are followed: then it stands for what it
leads to, except where it leads nowhere or back to a directory that is being walked. All links on
the way to a place count towards those that its path may take. What is met is listed by its path,
unless the path is not UTF-8.
-/

namespace CodeSurvey

/-- A file or directory met on a walk, by its names below the start of the walk. -/
structure Visit where
  names : List NativeText
  isDirectory : Bool
deriving Repr, DecidableEq

/-- Groups of visits in the order of the names of the groups. -/
def inNameOrder (groups : List (NativeText × List Visit)) : List Visit :=
  (groups.mergeSort fun a b => decide (a.1 ≤ b.1)).flatMap Prod.snd

namespace Entry

mutual

/-- The visits of a walk at an entry that is reached by `names`. A directory can be looked into if
`opens` holds of the names by which it is reached. -/
def visits (skip : NativeText → Bool) (opens : List NativeText → Bool)
    (names : List NativeText) : Entry → List Visit
  | file _ => [⟨names, false⟩]
  | link _ => []
  | directory entries =>
    ⟨names, true⟩ :: (if opens names then inNameOrder (visitsOf skip opens names entries) else [])

/-- The visits at each entry of a directory that is reached by `names`. -/
def visitsOf (skip : NativeText → Bool) (opens : List NativeText → Bool)
    (names : List NativeText) : List (NativeText × Entry) → List (NativeText × List Visit)
  | [] => []
  | (name, entry) :: rest =>
    (name, if entry.isDirectory && skip name then [] else visits skip opens (names ++ [name]) entry)
      :: visitsOf skip opens names rest

end

end Entry

/-- The path behind another one to which names lead, if it is UTF-8. -/
def Path.joinNames? (path : Path) (names : List NativeText) : Option Path :=
  (NativeText.texts? names).map path.joinAll

/-- Where a walk has come to: the path that it has taken, if it is UTF-8, where this path leads, and
the directories that are being walked, the innermost first. -/
structure Trail where
  path : Option Path
  place : FileSystem.Place
  above : List (List NativeText)
deriving Repr, DecidableEq

namespace Trail

/-- The trail to what has a name in the directory at the end of a trail. -/
def step (trail : Trail) (name : NativeText) : Trail :=
  { trail with
    path := trail.path.bind fun path => path.joinNames? [name]
    place := { trail.place with names := trail.place.names ++ [name] } }

/-- The trail with its end among the directories that are being walked. -/
def enter (trail : Trail) : Trail :=
  { trail with above := trail.place.names :: trail.above }

end Trail

namespace Entry

mutual

/-- The entry at the end of a trail without ignored directories and with every link replaced by what
`follow` says. -/
def expandWith (skip : NativeText → Bool) (follow : Trail → Option Entry) (trail : Trail) :
    Entry → Option Entry
  | file content => some (file content)
  | link _ => follow trail
  | directory entries => some (directory (expandAll skip follow trail.enter entries))

/-- The entries of the directory at the end of a trail without ignored directories and with every
link replaced by what `follow` says. -/
def expandAll (skip : NativeText → Bool) (follow : Trail → Option Entry) (trail : Trail) :
    List (NativeText × Entry) → List (NativeText × Entry)
  | [] => []
  | (name, entry) :: rest =>
    if entry.isDirectory && skip name then expandAll skip follow trail rest
    else
      match expandWith skip follow (trail.step name) entry with
      | some expanded => (name, expanded) :: expandAll skip follow trail rest
      | none => expandAll skip follow trail rest

end

end Entry

/-- The files and directories met on a walk. -/
structure Walk where
  files : List Path
  dirs : List Path
deriving Repr, DecidableEq

namespace FileSystem

/-- Whether a directory can be looked into by its path. Where the path is not UTF-8 it does not
matter, as nothing below it is listed. -/
def opens (path : Option Path) : Bool :=
  path.all isWithinReach

/-- What the link at the end of a trail stands for: a file, or a directory that is neither ignored
nor being walked, in which links are treated in the same way. At most `depth` links are nested in
each other. -/
def followLink (system : FileSystem) (skip : NativeText → Bool) :
    (depth : Nat) → (trail : Trail) → Option Entry
  | 0, _ => none
  | depth + 1, trail =>
    if !opens trail.path then none
    else
      match resolve system.root trail.place.links [] trail.place.names with
      | none => none
      | some place =>
        match system.root.at? place.names with
        | some (.file content) => some (.file content)
        | some (.directory entries) =>
          if place.names ∈ trail.above || trail.place.names.getLast?.any skip then none
          else
            Entry.expandWith skip (followLink system skip depth) { trail with place }
              (.directory entries)
        | _ => none

/-- The visits of a walk that starts at a path. If the path itself is a link it is followed. A path
takes a link for each link that the walk has followed to come there, so no more of them than a path
may take are nested. -/
def visits (system : FileSystem) (root : Path) (ignore : IgnoreSet) (follow : Bool) : List Visit :=
  match system.place? root with
  | none => []
  | some place =>
    match system.root.at? place.names with
    | none => []
    | some entry =>
      let opens (names : List NativeText) : Bool := opens (root.joinNames? names)
      if follow then
        match entry.expandWith ignore.skips (system.followLink ignore.skips linkLimit)
            ⟨root, place, []⟩ with
        | none => []
        | some expanded => expanded.visits ignore.skips opens []
      else entry.visits ignore.skips opens []

/-- The names by which a walk comes to what `keep` holds of, as far as they are UTF-8. -/
def collect (system : FileSystem) (root : Path) (ignore : IgnoreSet) (follow : Bool)
    (keep : Visit → Bool) : List (List String) :=
  ((system.visits root ignore follow).filter keep).filterMap fun visit =>
    NativeText.texts? visit.names

/-- The names of the files met on a walk. -/
def fileNames (system : FileSystem) (root : Path) (ignore : IgnoreSet) (follow : Bool) :
    List (List String) :=
  system.collect root ignore follow fun visit => !visit.isDirectory

/-- The names of the directories met on a walk, but for the start. -/
def dirNames (system : FileSystem) (root : Path) (ignore : IgnoreSet) (follow : Bool) :
    List (List String) :=
  system.collect root ignore follow fun visit => visit.isDirectory && visit.names != []

/-- The files met on a walk, and the directories but for the start. -/
def walk (system : FileSystem) (root : Path) (ignore : IgnoreSet) (follow : Bool) : Walk :=
  ⟨(system.fileNames root ignore follow).map root.joinAll,
    (system.dirNames root ignore follow).map root.joinAll⟩

end FileSystem

end CodeSurvey
