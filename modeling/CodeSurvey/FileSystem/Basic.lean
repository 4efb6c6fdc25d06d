import CodeSurvey.NativeText

/-!
# File systems

A file system is a tree of files, directories and links, with a directory from which relative paths
start. Names, and what links say, are native texts, which need not be UTF-8. Paths are resolved step
by step: a step of two dots goes to the directory that holds the one reached, a link is replaced by
what it says, and a path that takes too many links leads nowhere, as does one that is too long. A
path may lead to a free place in a directory, where a file can be written. `resolveWith_of_at?` says
that plain names lead where they lead in the tree.
-/

namespace CodeSurvey

/-- What a name in a directory stands for. -/
inductive Entry where
  | file (content : ByteArray)
  | directory (entries : List (NativeText × Entry))
  | link (target : NativeText)

namespace Entry

instance : Inhabited Entry := ⟨directory []⟩

/-- Whether an entry is a directory. -/
def isDirectory : Entry → Bool
  | directory _ => true
  | _ => false

/-- The content of a file. -/
def content? : Entry → Option ByteArray
  | file content => some content
  | _ => none

/-- The size in bytes that a directory is said to have. -/
def directorySize : Nat := 4096

/-- The size in bytes of a file or directory. A link has the size of what it says. -/
def size : Entry → Nat
  | file content => content.size
  | directory _ => directorySize
  | link target => target.size

/-- The entry with a given name in a directory. -/
def child? (name : NativeText) : Entry → Option Entry
  | directory entries => entries.lookup name
  | _ => none

/-- The entry that is reached name by name, links not followed. -/
def at? (entry : Entry) : List NativeText → Option Entry
  | [] => some entry
  | name :: rest => (entry.child? name).bind fun child => child.at? rest

/-- Changes the entry of one name in a list of entries, or adds one. -/
def alterName (name : NativeText) (change : Option Entry → Entry) :
    List (NativeText × Entry) → List (NativeText × Entry)
  | [] => [(name, change none)]
  | (other, entry) :: rest =>
    if other = name then (other, change (some entry)) :: rest
    else (other, entry) :: alterName name change rest

/-- Changes the entry that is reached name by name, or adds one, with the directories on the way.
Nothing changes if a file or a link stands in the way. -/
def alter (change : Option Entry → Entry) : List NativeText → Option Entry → Entry
  | [], entry => change entry
  | name :: rest, none => directory [(name, alter change rest none)]
  | name :: rest, some (directory entries) =>
    directory (alterName name (fun child => alter change rest child) entries)
  | _ :: _, some entry => entry

end Entry

/-- Files, directories and links, and the directory from which relative paths start. -/
structure FileSystem where
  root : Entry
  workingDirectory : List NativeText

namespace FileSystem

/-- How many links a path may take. -/
def linkLimit : Nat := 40

/-- How many bytes a name may have. -/
def nameLimit : Nat := 255

/-- How many bytes a path may have. -/
def pathLimit : Nat := 4095

/-- Where a path leads: the names from the root on, none of them a link, and how many more links
the path may take. -/
structure Place where
  names : List NativeText
  links : Nat
deriving Repr, DecidableEq

/-- Steps down from the root, the last one first: the name of each and what stands there. -/
abbrev Steps := List (NativeText × Entry)

namespace Steps

/-- The names of steps, the first one first. -/
def names (steps : Steps) : List NativeText :=
  (steps.map Prod.fst).reverse

/-- What steps from `root` lead to. -/
def target (root : Entry) : Steps → Entry
  | [] => root
  | (_, entry) :: _ => entry

end Steps

/-- Goes on from `steps` along `segments`, with `links` more links to take. `follow` goes on where a
link says something else. What the last segment names need not be there. -/
def resolveWith (root : Entry) (links : Nat)
    (follow : (steps : Steps) → (segments : List NativeText) → Option Place) :
    (steps : Steps) → (segments : List NativeText) → Option Place
  | steps, [] => some ⟨steps.names, links⟩
  | steps, segment :: rest =>
    match steps.target root with
    | .directory entries =>
      if segment = "" || segment = "." then resolveWith root links follow steps rest
      else if segment = ".." then resolveWith root links follow (steps.drop 1) rest
      else
        match entries.lookup segment with
        | none => if rest.isEmpty then some ⟨steps.names ++ [segment], links⟩ else none
        | some (.link target) =>
          follow (if target.isAbsolute then [] else steps) (target.segments ++ rest)
        | some entry => resolveWith root links follow ((segment, entry) :: steps) rest
    | _ => none

/-- Goes on from `steps` along `segments`, taking at most as many links as given. -/
def resolve (root : Entry) :
    (links : Nat) → (steps : Steps) → (segments : List NativeText) → Option Place
  | 0 => resolveWith root 0 fun _ _ => none
  | links + 1 => resolveWith root (links + 1) (resolve root links)

/-- The segments of a path behind those of the directory from which it starts. -/
def segmentsOf (system : FileSystem) (path : Path) : List NativeText :=
  let segments := (Path.segments path.text).map NativeText.text
  if path.isAbsolute then segments else system.workingDirectory ++ segments

/-- Where the steps of a path lead, however long it is. -/
def follow? (system : FileSystem) (path : Path) : Option Place :=
  if path.text = "" then none
  else resolve system.root linkLimit [] (system.segmentsOf path)

/-- Whether a path is short enough to be looked at. -/
def isWithinReach (path : Path) : Bool :=
  path.text.utf8ByteSize ≤ pathLimit

/-- Where a path leads. The place may be free, but its directory is there. -/
def place? (system : FileSystem) (path : Path) : Option Place :=
  if isWithinReach path then system.follow? path else none

/-- What a path leads to. -/
def find? (system : FileSystem) (path : Path) : Option Entry :=
  (system.place? path).bind fun place => system.root.at? place.names

/-- The path without links that leads where a path does, if it is UTF-8. The path may have any
length. -/
def canonical? (system : FileSystem) (path : Path) : Option Path :=
  match system.follow? path with
  | none => none
  | some place =>
    if (system.root.at? place.names).isSome then
      (NativeText.texts? place.names).map Path.absolute
    else none

/-- Whether a path leads anywhere. -/
def contains (system : FileSystem) (path : Path) : Bool :=
  (system.find? path).isSome

/-- Whether a path leads to a directory. -/
def isDirectory (system : FileSystem) (path : Path) : Bool :=
  (system.find? path).any Entry.isDirectory

/-- The size in bytes of what a path leads to. -/
def size? (system : FileSystem) (path : Path) : Option Nat :=
  (system.find? path).map Entry.size

/-- The content of the file that a path leads to. -/
def read? (system : FileSystem) (path : Path) : Option ByteArray :=
  (system.find? path).bind Entry.content?

/-- The text of the file that a path leads to, if it is UTF-8. -/
def readText? (system : FileSystem) (path : Path) : Option String :=
  (system.read? path).bind String.fromUTF8?

/-- Whether a file can be written at a place: a file is there, or nothing is and the name can be
given to a file. -/
def isWritable (system : FileSystem) (names : List NativeText) : Bool :=
  match system.root.at? names with
  | some (.file _) => true
  | some _ => false
  | none =>
    names.getLast?.any fun name => name.size ≤ nameLimit && !name.holdsZero

/-- The file system with another entry at the place with the given names. -/
def put (system : FileSystem) (names : List NativeText) (change : Option Entry → Entry) :
    FileSystem :=
  { system with root := Entry.alter change names (some system.root) }

/-- The file system with a directory at the place with the given names; one that is there stays. -/
def addDirectory (system : FileSystem) (names : List NativeText) : FileSystem :=
  system.put names fun
    | some (.directory entries) => .directory entries
    | _ => .directory []

/-- The file system after a content has been written to the file that a path leads to, or to a new
file. It fails if the path leads to a directory or the directory of the file is missing. -/
def write? (system : FileSystem) (path : Path) (content : ByteArray) : Option FileSystem :=
  match system.place? path with
  | none => none
  | some place =>
    if system.isWritable place.names then some (system.put place.names fun _ => .file content)
    else none

/-- Plain names lead from directory to directory as they do in the tree. -/
theorem resolveWith_of_at? {root entry : Entry} {links : Nat}
    {follow : Steps → List NativeText → Option Place} {steps : Steps} {names : List NativeText}
    (hentry : (steps.target root).at? names = some entry)
    (hlink : ∀ target, entry ≠ .link target)
    (hplain : ∀ name ∈ names, name ≠ "" ∧ name ≠ "." ∧ name ≠ "..") :
    resolveWith root links follow steps names = some ⟨steps.names ++ names, links⟩ := by
  induction names generalizing steps with
  | nil => simp [resolveWith]
  | cons name rest ih =>
    obtain ⟨hempty, hdot, hdots⟩ := hplain name List.mem_cons_self
    rw [Entry.at?, Option.bind_eq_some_iff] at hentry
    obtain ⟨child, hchild, hrest⟩ := hentry
    cases htarget : steps.target root with
    | file content => simp [htarget, Entry.child?] at hchild
    | link target => simp [htarget, Entry.child?] at hchild
    | directory entries =>
      rw [htarget, Entry.child?] at hchild
      have hstep : resolveWith root links follow ((name, child) :: steps) rest =
          some ⟨Steps.names ((name, child) :: steps) ++ rest, links⟩ :=
        ih hrest fun other hother => hplain other (List.mem_cons_of_mem name hother)
      cases child with
      | link target =>
        cases rest with
        | nil => exact absurd (Option.some.inj hrest).symm (hlink target)
        | cons next rest => simp [Entry.at?, Entry.child?] at hrest
      | _ => simp [resolveWith, htarget, hempty, hdot, hdots, hchild, hstep, Steps.names]

end FileSystem

end CodeSurvey
