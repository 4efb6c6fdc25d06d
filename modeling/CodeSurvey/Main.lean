import CodeSurvey.CommandLine.Basic

/-!
# The program

The command on the files of this computer. What the command can reach is loaded first, git is asked
about the projects in it, the command runs on all this, and the report it has written is stored.
Files that cannot be read, and names that are not UTF-8, are left out. How git is asked is up to
whoever runs the program; by itself it asks nobody, and gives up where it would have to.
-/

namespace CodeSurvey

/-- The names on the way to a real path. -/
def namesOfPath (text : String) : List NativeText :=
  (Path.namesOf (Path.components ⟨text⟩)).map .text

/-- Runs an action that may fail. -/
def attempt {α : Type} (action : IO α) : IO (Option α) := do
  try
    return some (← action)
  catch _ =>
    return none

/-- Loads what an entry of a directory is. A link leads straight to where it ends. Devices and the
like are left out. -/
partial def loadEntry (entry : IO.FS.DirEntry) : IO (Option Entry) := do
  match (← entry.path.symlinkMetadata).type with
  | .file => return (← attempt (IO.FS.readBinFile entry.path)).map Entry.file
  | .symlink =>
    let target ← attempt (IO.FS.realPath entry.path)
    return target.map fun target => .link target.toString
  | .dir =>
    let children := (← attempt entry.path.readDir).getD #[]
    let entries ← children.toList.filterMapM fun child => do
      return (← attempt (loadEntry child)).join.map fun entry => (.text child.fileName, entry)
    return some (.directory entries)
  | .other => return none

mutual

/-- Where the links of an entry lead. -/
def linkTargets : Entry → List String
  | .file _ => []
  | .link target => target.text?.toList
  | .directory entries => linkTargetsOf entries

/-- Where the links of some entries lead. -/
def linkTargetsOf : List (NativeText × Entry) → List String
  | [] => []
  | (_, entry) :: rest => linkTargets entry ++ linkTargetsOf rest

end

/-- What has been loaded, and the names on the ways to the places that are loaded in full. -/
structure Loaded where
  system : FileSystem
  places : List (List NativeText)

/-- Loads what is at a path, and where its links lead. Directories behind links are loaded with what
they hold only if links are followed. -/
partial def loadPath (follow : Bool) (loaded : Loaded) (text : String) : IO Loaded := do
  let some real ← attempt (IO.FS.realPath text) | return loaded
  let names := namesOfPath real.toString
  if loaded.places.any (·.isPrefixOf names) then return loaded
  let some (some entry) ← attempt (loadEntry ⟨real, ""⟩) | return loaded
  let mut loaded : Loaded := ⟨loaded.system.put names fun _ => entry, names :: loaded.places⟩
  for target in linkTargets entry do
    let leadsToDirectory := (← attempt (IO.FS.realPath target >>= (·.isDir))).getD false
    if leadsToDirectory && !follow then
      loaded := { loaded with system := loaded.system.addDirectory (namesOfPath target) }
    else
      loaded ← loadPath follow loaded target
  return loaded

/-- Loads the directory at a path, without what it holds, if there is one. -/
def loadDirectory (system : FileSystem) (text : String) : IO FileSystem := do
  let some real ← attempt (IO.FS.realPath text) | return system
  return if ← real.isDir then system.addDirectory (namesOfPath real.toString) else system

/-- The path of the directory that a path is in. -/
def directoryPath (text : String) : String :=
  match (text.toList.reverse.dropWhile (· != '/')).reverse with
  | [] => "."
  | directory => String.ofList directory

/-- Loads what a command can reach. -/
def loadFor (config : Option String) (command : CommandLine.Command) (system : FileSystem) :
    IO FileSystem := do
  let mut loaded : Loaded := ⟨system, []⟩
  let mut follow := false
  if let some config := config then
    loaded ← loadPath false loaded config
    if let .ok settings := Settings.load loaded.system ⟨config⟩ then
      follow := settings.scan.followLinks
  match command with
  | .edges target => return (← loadPath follow loaded target.dir).system
  | .scan target _ none => return (← loadPath follow loaded target.dir).system
  | .scan target _ (some output) => do
    loaded ← loadPath follow loaded target.dir
    loadDirectory (← loadDirectory loaded.system (directoryPath output)) output

/-- The target of a command. -/
def targetOf : CommandLine.Command → CommandLine.Target
  | .scan target _ _ => target
  | .edges target => target

/-- Asks git about the projects of a target that have a repository of their own, if the settings say
that it is to be asked. -/
def askAbout (askGit : Path → IO (Option String)) (system : FileSystem) (config : Option String)
    (target : CommandLine.Target) : IO (List (Path × String)) := do
  let .ok scanner := CommandLine.scannerFor system (fun _ => none) config target | return []
  if !scanner.settings.scan.checkVcs then return []
  scanner.detected.filterMapM fun project => do
    if system.isDirectory (project.root.join VersionControl.repositoryName) then
      return (← askGit project.root).map fun status => (project.root, status)
    return none

/-- Stores the report that a command has written. -/
def store (command : CommandLine.Command) (system : FileSystem) : IO Unit := do
  if let .scan _ _ (some output) := command then
    if let some content := system.read? ⟨output⟩ then
      IO.FS.writeBinFile output content

/-- Runs the command line and gives the exit code. `askGit` lists the changes in a directory, a line
each, if it can. -/
def runProgram (askGit : Path → IO (Option String)) (arguments : List String) : IO UInt32 := do
  let environment ← IO.getEnv "ATLAS_CONFIG"
  let here ← IO.currentDir
  let start : FileSystem := ⟨.directory [], namesOfPath here.toString⟩
  let start := start.addDirectory start.workingDirectory
  let request := CommandLine.request arguments environment
  let (system, answers) ←
    match request with
    | .run config command => do
      let system ← loadFor config command start
      pure (system, ← askAbout askGit system config (targetOf command))
    | _ => pure (start, [])
  let outcome := CommandLine.run system (fun root => answers.lookup root) arguments environment
  IO.print outcome.output
  if let some error := outcome.errors then
    for message in error.messages do
      IO.eprintln ("Error: " ++ message)
  if let .run _ command := request then
    if outcome.exitCode == 0 then store command outcome.system
  return UInt32.ofNat outcome.exitCode

/-- Nobody is there to ask git. A directory with a repository is not taken for unchanged. -/
def askNobody (root : Path) : IO (Option String) :=
  throw (IO.userError ("git cannot be asked about " ++ root.text ++ ", use --no-vcs"))

end CodeSurvey

/-- The program. -/
def main (arguments : List String) : IO UInt32 := do
  try
    CodeSurvey.runProgram CodeSurvey.askNobody arguments
  catch error =>
    IO.eprintln ("Error: " ++ error.toString)
    return 1
