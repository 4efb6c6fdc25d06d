import CodeSurvey.Scan.Basic

/-!
# Workers of a scan

How a scan comes about, step by step. It begins if its workers can be had. They share the files of
all projects, and later the contents to be hashed, and take them in any order: each looks at the
token before a task, leaves the task out if the token has fired, and otherwise works on it while the
others go on. The scan waits for its workers at the end of a phase and looks at the token before it
goes on. The token may fire between any two steps.
-/

namespace CodeSurvey

/-- Tasks that workers share. -/
structure Pool (α : Type) where
  waiting : List α
  running : List α
  /-- What has been done, in the order in which it was finished. -/
  finished : List α
  /-- What was left out because the token had fired. -/
  dropped : List α

namespace Pool

/-- Nothing has been done yet. -/
def ofTasks {α : Type} (tasks : List α) : Pool α := ⟨tasks, [], [], []⟩

/-- No worker has anything left to do. -/
def IsIdle {α : Type} (pool : Pool α) : Prop :=
  pool.waiting = [] ∧ pool.running = []

/-- What one worker does, and the task that it has finished then, if any. -/
inductive Step {α : Type} (fired : Bool) : Pool α → Pool α → Option α → Prop where
  /-- It takes a task, as the token has not fired. -/
  | start {waiting running finished dropped : List α} {task : α} {rest : List α}
      (hlook : fired = false) (htask : waiting.Perm (task :: rest)) :
      Step fired ⟨waiting, running, finished, dropped⟩
        ⟨rest, task :: running, finished, dropped⟩ none
  /-- It leaves a task out, as the token has fired. -/
  | drop {waiting running finished dropped : List α} {task : α} {rest : List α}
      (hlook : fired = true) (htask : waiting.Perm (task :: rest)) :
      Step fired ⟨waiting, running, finished, dropped⟩
        ⟨rest, running, finished, task :: dropped⟩ none
  /-- It finishes its task, whether the token has fired meanwhile or not. -/
  | finish {waiting running finished dropped : List α} {task : α} {rest : List α}
      (htask : running.Perm (task :: rest)) :
      Step fired ⟨waiting, running, finished, dropped⟩
        ⟨waiting, rest, finished ++ [task], dropped⟩ (some task)

end Pool

/-- A file that is to be looked at: its project, its position there and its path. -/
structure FileTask where
  project : Detected
  position : Nat
  path : Path
deriving Repr, DecidableEq

/-- How far a scan has come. -/
inductive ScanStage where
  /-- The pool of workers is being built. -/
  | starting
  /-- The projects are being detected. -/
  | detecting
  /-- Files are being looked at, and version control has yet to be asked about some projects. -/
  | analyzing (files : Pool FileTask) (unasked : List Detected)
  /-- All projects have been looked at, and the contents of their candidates are being hashed. -/
  | hashing (scanned : List ScannedProject) (positions : Pool Nat) (index : FingerprintIndex)
  /-- The scan is over. -/
  | ended (result : Except ScanError ScanResult)

/-- A scan that is under way: whether its token has fired, what has been counted so far, and how far
it has come. -/
structure ScanState where
  fired : Bool
  stats : Stats
  stage : ScanStage

/-- A scan that has not begun. -/
def ScanState.start : ScanState := ⟨false, .zero, .starting⟩

/-- The token as the workers have seen it that look at the files of projects. -/
def Token.ofDropped (dropped : List FileTask) : Token
  | .file project position =>
    dropped.any fun task => task.project.index == project && task.position == position
  | _ => false

namespace Scanner

/-- The files of all projects. -/
def fileTasks (scanner : Scanner) : List FileTask :=
  scanner.detected.flatMap fun project =>
    (scanner.walk project.root).files.zipIdx.map fun (path, position) =>
      ⟨project, position, path⟩

/-- What a worker counts that looks at a file. -/
def fileStats (scanner : Scanner) (task : FileTask) : Stats :=
  (Analysis.examine scanner.system scanner.settings task.project.root task.path).stats

/-- One step of a scan. -/
inductive Step (scanner : Scanner) : ScanState → ScanState → Prop where
  /-- The token fires. -/
  | fire {stats : Stats} {stage : ScanStage} :
      Step scanner ⟨false, stats, stage⟩ ⟨true, stats, stage⟩
  /-- The pool of workers cannot be built. -/
  | refuse {fired : Bool} {stats : Stats} {fault : ScanError}
      (hfault : scanner.poolFault? = some fault) :
      Step scanner ⟨fired, stats, .starting⟩ ⟨fired, stats, .ended (.error fault)⟩
  /-- The workers are there. -/
  | start {fired : Bool} {stats : Stats} (hpool : scanner.poolFault? = none) :
      Step scanner ⟨fired, stats, .starting⟩ ⟨fired, stats, .detecting⟩
  /-- The projects have been detected, and the token has fired. -/
  | stopDetecting {stats : Stats} :
      Step scanner ⟨true, stats, .detecting⟩ ⟨true, stats, .ended (.error .cancelled)⟩
  /-- The projects have been detected, and workers begin to look at their files. -/
  | detect {stats : Stats} :
      Step scanner ⟨false, stats, .detecting⟩
        ⟨false, { stats with projects := UInt64.ofNat scanner.detected.length },
          .analyzing (.ofTasks scanner.fileTasks) scanner.detected⟩
  /-- A worker does something about a file. -/
  | file {fired : Bool} {stats : Stats} {files next : Pool FileTask} {done : Option FileTask}
      {unasked : List Detected} (hfiles : files.Step fired next done) :
      Step scanner ⟨fired, stats, .analyzing files unasked⟩
        ⟨fired, stats.add (.sum (done.toList.map scanner.fileStats)), .analyzing next unasked⟩
  /-- Version control answers about a project. -/
  | answer {fired : Bool} {stats : Stats} {files : Pool FileTask} {unasked rest : List Detected}
      {project : Detected} (hproject : unasked.Perm (project :: rest)) :
      Step scanner ⟨fired, stats, .analyzing files unasked⟩
        ⟨fired || scanner.versionControl.interrupts project.root, stats, .analyzing files rest⟩
  /-- All projects have been looked at, and the token has fired. -/
  | stopAnalyzing {stats : Stats} {files : Pool FileTask} (hidle : files.IsIdle) :
      Step scanner ⟨true, stats, .analyzing files []⟩ ⟨true, stats, .ended (.error .cancelled)⟩
  /-- All projects have been looked at, and workers begin to hash. -/
  | analyze {stats : Stats} {files : Pool FileTask} {scanned : List ScannedProject}
      {candidates : List Candidate} (hidle : files.IsIdle)
      (hscanned : scanned = scanner.detected.map (scanner.scanProject (.ofDropped files.dropped)))
      (hcandidates : candidates = scanned.flatMap ScannedProject.candidates) :
      Step scanner ⟨false, stats, .analyzing files []⟩
        ⟨false, stats, .hashing scanned (.ofTasks (List.range candidates.length))
          (.start candidates)⟩
  /-- A worker does something about the content of a candidate. -/
  | hash {fired : Bool} {stats counted : Stats} {scanned : List ScannedProject}
      {positions next : Pool Nat} {done : Option Nat} {index filled : FingerprintIndex}
      (hpositions : positions.Step fired next done)
      (hfilled : (filled, counted) = done.toList.foldl
        (fun state position => FingerprintIndex.hashOne scanner.system position state)
        (index, stats)) :
      Step scanner ⟨fired, stats, .hashing scanned positions index⟩
        ⟨fired, counted, .hashing scanned next filled⟩
  /-- All contents have been hashed, and the token has fired. -/
  | stopHashing {stats : Stats} {scanned : List ScannedProject} {positions : Pool Nat}
      {index : FingerprintIndex} (hidle : positions.IsIdle) :
      Step scanner ⟨true, stats, .hashing scanned positions index⟩
        ⟨true, stats, .ended (.error .cancelled)⟩
  /-- All contents have been hashed; the groups are read in any order. -/
  | report {stats : Stats} {scanned : List ScannedProject} {positions : Pool Nat}
      {index : FingerprintIndex} {groups : List (Digest × List Nat)} {projects : List Project}
      (hidle : positions.IsIdle) (hgroups : groups.Perm index.groups)
      (hprojects : projects = Resolution.resolve (scanned.map ScannedProject.project)) :
      Step scanner ⟨false, stats, .hashing scanned positions index⟩
        ⟨false, stats, .ended (.ok
          ⟨⟨projects, FingerprintIndex.duplicates { index with groups },
            Sharing.identifiers projects⟩, stats⟩)⟩

end Scanner

end CodeSurvey
