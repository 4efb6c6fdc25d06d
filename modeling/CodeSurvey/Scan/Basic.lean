import CodeSurvey.Detection
import CodeSurvey.FileSystem.Walk
import CodeSurvey.Fingerprint
import CodeSurvey.Manifest
import CodeSurvey.Resolution
import CodeSurvey.Sharing
import CodeSurvey.VersionControl

/-!
# Scans

A scan walks a workspace, detects its projects, looks at their files, compares them and reports.
Where the settings say how many workers it may have, it gets a pool of its own first, and fails if
there are no threads for them. It can be cancelled at any moment: workers look at a token before
each file and each hash and leave out what is still to do once it has fired, and the scan itself
looks at it at three places and gives up there. `Token` says what each of these looks sees, so one
value stands for one course of events.
-/

namespace CodeSurvey

/-- A moment at which a scan looks at its token. -/
inductive Checkpoint where
  /-- After the projects have been detected. -/
  | detected
  /-- Before the file at a position of the project at a position. -/
  | file (project position : Nat)
  /-- After all projects have been looked at. -/
  | analyzed
  /-- Before the content of the candidate at a position is hashed. -/
  | hash (position : Nat)
  /-- After all contents have been hashed. -/
  | hashed
deriving Repr, DecidableEq

namespace Checkpoint

/-- The stage of a scan to which a look at the token belongs. The looks of one stage may come in any
order, those of a later stage come after all those of an earlier one. -/
def stage : Checkpoint → Nat
  | detected => 0
  | file _ _ => 1
  | analyzed => 2
  | hash _ => 3
  | hashed => 4

end Checkpoint

/-- Whether each look at the token sees that it has fired. -/
def Token := Checkpoint → Bool

namespace Token

/-- A token that never fires. -/
def idle : Token := fun _ => false

/-- A token that has fired before the scan. -/
def fired : Token := fun _ => true

/-- A fired token stays fired: a look at a later stage than one that sees it fired sees it too. -/
def IsPossible (token : Token) : Prop :=
  ∀ a b : Checkpoint, a.stage < b.stage → token a = true → token b = true

theorem idle_isPossible : idle.IsPossible := by
  simp [IsPossible, idle]

end Token

/-- The threads of the computer. -/
structure ThreadSupply where
  /-- Why a pool of so many threads cannot be built, if it cannot. -/
  shortage? : Nat → Option String := fun _ => none

/-- A workspace that can be scanned. -/
structure Scanner where
  system : FileSystem
  /-- The directory of the workspace, without links on its path. -/
  root : Path
  settings : Settings
  versionControl : VersionControl
  threads : ThreadSupply := {}

/-- The report of a scan and what was counted on the way. -/
structure ScanResult where
  report : Report
  stats : Stats
deriving DecidableEq

/-- What is told about a project as soon as it has been looked at. -/
structure ProjectSummary where
  name : String
  rootPath : Path
  files : Nat
  technologies : NameSet
  hasUncommittedChanges : Bool
deriving DecidableEq

namespace ProjectSummary

/-- The summary of a project. -/
def ofProject (project : Project) : ProjectSummary :=
  { name := project.name
    rootPath := project.rootPath
    files := project.files.length
    technologies := project.technologies
    hasUncommittedChanges := project.hasUncommittedChanges }

end ProjectSummary

/-- A project that has been detected: its position, its directory and its name. -/
structure Detected where
  index : Nat
  root : Path
  name : String
deriving Repr, DecidableEq

/-- What comes of looking at a project. -/
structure ScannedProject where
  project : Project
  candidates : List Candidate
  stats : Stats
deriving DecidableEq

namespace Scanner

/-- A scanner for the workspace at a path. The path has to lead to a directory, and the settings
have to make a scan possible. They also say whether version control is asked. -/
def new (system : FileSystem) (path : Path) (settings : Settings) (git : VersionControl)
    (threads : ThreadSupply := {}) : Except ScanError Scanner :=
  match system.canonical? path with
  | none => .error (.rootNotFound path)
  | some root =>
    if !system.isDirectory root then .error (.notADirectory path)
    else
      match settings.scan.fault? with
      | some fault => .error (.ofSettings fault)
      | none =>
        .ok {
          system, root, settings, threads
          versionControl := if settings.scan.checkVcs then git else .clean }

/-- The scanner with another version control, whatever the settings say. -/
def withVersionControl (scanner : Scanner) (versionControl : VersionControl) : Scanner :=
  { scanner with versionControl }

/-- The scanner where nothing but the scan itself fires the token: version control answers, but does
not cancel. -/
def undisturbed (scanner : Scanner) : Scanner :=
  { scanner with versionControl := { scanner.versionControl with interrupts := fun _ => false } }

/-- Why the pool of workers that the settings ask for cannot be built, if it cannot. -/
def poolFault? (scanner : Scanner) : Option ScanError :=
  (scanner.settings.scan.maxParallelJobs.bind scanner.threads.shortage?).map fun detail =>
    .invalidSettings s!"failed to build worker pool: {detail}"

/-- What comes of work for which there has to be a pool of workers first. -/
def withPool {α : Type} (scanner : Scanner) (result : Except ScanError α) : Except ScanError α :=
  match scanner.poolFault? with
  | some fault => .error fault
  | none => result

/-- The walk of a directory of the workspace. -/
def walk (scanner : Scanner) (root : Path) : Walk :=
  scanner.system.walk root scanner.settings.scan.ignoreSet scanner.settings.scan.followLinks

/-- The projects of the workspace, in the order of the walk. -/
def detected (scanner : Scanner) : List Detected :=
  let settings := scanner.settings.scan
  let roots :=
    Detection.detect scanner.system settings scanner.root (scanner.walk scanner.root).dirs
  let names := Detection.displayNames settings scanner.root roots
  (roots.zip names).zipIdx.map fun ((root, name), index) => ⟨index, root, name⟩

/-- Looks at the files of a project, as far as the token allows, and at its manifest. -/
def scanProject (scanner : Scanner) (token : Token) (detected : Detected) : ScannedProject :=
  let files := (scanner.walk detected.root).files
  let examinations := Analysis.examineAll scanner.system scanner.settings detected.root files
    fun position => token (.file detected.index position)
  let draft := (Analysis.records examinations).foldl ProjectDraft.addRecord
    (ProjectDraft.start detected.index detected.name detected.root)
  let draft := draft.addTechnologies
    (Manifest.technologies scanner.system scanner.settings.technologies detected.root).toList
  { project := draft.finish (scanner.versionControl.hasUncommittedChanges detected.root)
    candidates := draft.candidates
    stats := Analysis.stats examinations }

/-- Compares the projects that have been looked at and reports. -/
def conclude (scanner : Scanner) (token : Token) (scanned : List ScannedProject) :
    Except ScanError ScanResult :=
  let projects := Resolution.resolve (scanned.map ScannedProject.project)
  let candidates := scanned.flatMap ScannedProject.candidates
  let (index, hashStats) := FingerprintIndex.build scanner.system candidates
    (List.range candidates.length) fun position => token (.hash position)
  if token .hashed then .error .cancelled
  else
    let counted : Stats := { projects := UInt64.ofNat scanned.length }
    .ok {
      report := ⟨projects, index.duplicates, Sharing.identifiers projects⟩
      stats := (counted.add (Stats.sum (scanned.map ScannedProject.stats))).add hashStats }

/-- Whether version control fires the token while it is asked about some project. -/
def isInterrupted (scanner : Scanner) : Bool :=
  scanner.detected.any fun project => scanner.versionControl.interrupts project.root

/-- Scans the workspace with the workers at hand, unless the token fires in time. -/
def execute (scanner : Scanner) (token : Token) : Except ScanError ScanResult :=
  if token .detected then .error .cancelled
  else
    let scanned := scanner.detected.map (scanner.scanProject token)
    if token .analyzed || scanner.isInterrupted then .error .cancelled
    else scanner.conclude token scanned

/-- Scans the workspace, unless the token fires in time. -/
def scanWith (scanner : Scanner) (token : Token) : Except ScanError ScanResult :=
  scanner.withPool (scanner.execute token)

/-- Scans the workspace. The token is known to nobody else, so the scan is not cancelled. -/
def scan (scanner : Scanner) : Except ScanError ScanResult :=
  scanner.undisturbed.scanWith .idle

end Scanner

/-- The report on the workspace at a path, with more directories to ignore than by default. -/
def scanReport (system : FileSystem) (path : Path) (extraIgnored : List String)
    (git : VersionControl) (threads : ThreadSupply := {}) : Except ScanError Report := do
  let settings : Settings := { scan := ({} : ScanSettings).withExtraIgnored extraIgnored }
  let scanner ← Scanner.new system path settings git threads
  let result ← scanner.scan
  return result.report

end CodeSurvey
