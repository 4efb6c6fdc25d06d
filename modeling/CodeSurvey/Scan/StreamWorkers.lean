import CodeSurvey.Scan.Stream
import CodeSurvey.Scan.Workers

/-!
# Workers of a scan that tells how far it is

How a scan with a receiver comes about, step by step. It says nothing before its workers are there.
Updates go through a channel with room for a number of them: whoever sends one waits until there is
room. The receiver takes updates at any time, also after the scan has returned, and may be dropped
between any two steps. Then what it has not taken is lost, and the channel refuses what is sent from
then on. Only a refused update fires the token.
-/

namespace CodeSurvey

/-- A channel for updates. -/
structure Channel where
  capacity : Nat
  /-- What has been sent and not been received yet. -/
  queue : List ScanUpdate
  received : List ScanUpdate
  /-- Whether the receiver has been dropped. -/
  closed : Bool

namespace Channel

/-- A channel through which nothing has been sent. -/
def empty (capacity : Nat) : Channel := ⟨capacity, [], [], false⟩

/-- What comes of sending an update, and whether it is refused. -/
inductive Send (update : ScanUpdate) : Channel → Channel → Bool → Prop where
  /-- There is room for it. -/
  | queue {capacity : Nat} {queue received : List ScanUpdate} (hroom : queue.length < capacity) :
      Send update ⟨capacity, queue, received, false⟩
        ⟨capacity, queue ++ [update], received, false⟩ false
  /-- The receiver has been dropped. -/
  | refuse {capacity : Nat} {queue received : List ScanUpdate} :
      Send update ⟨capacity, queue, received, true⟩ ⟨capacity, queue, received, true⟩ true

end Channel

/-- The files of projects are being looked at. -/
def ScanStage.IsAnalyzing : ScanStage → Prop
  | .analyzing _ _ => True
  | _ => False

/-- A scan with a receiver that is under way. -/
structure StreamState where
  scan : ScanState
  channel : Channel
  /-- Whether the number of projects has been sent. -/
  announced : Bool
  /-- The projects that no update has been sent about. -/
  untold : List Detected
  /-- What the scan has returned, if it has. -/
  returned : Option (Except ScanError Unit)

/-- What a scan returns that has ended with an error: none, if it has been cancelled and the
receiver has been dropped. -/
def answerTo (error : ScanError) (closed : Bool) : Except ScanError Unit :=
  if error = .cancelled ∧ closed = true then .ok () else .error error

namespace Scanner

/-- The update about a project, as far as the token has allowed to look at its files. -/
def scannedUpdate (scanner : Scanner) (token : Token) (project : Detected) : ScanUpdate :=
  .projectScanned (.ofProject (scanner.scanProject token project).project)

/-- A scan with a receiver that has not begun. -/
def streamStart (scanner : Scanner) (capacity : Nat) : StreamState :=
  ⟨.start, .empty capacity, false, scanner.detected, none⟩

/-- One step of a scan with a receiver. -/
inductive StreamStep (scanner : Scanner) : StreamState → StreamState → Prop where
  /-- The projects have been detected, and their number is sent. -/
  | announce {fired refused : Bool} {stats : Stats} {channel next : Channel}
      {untold : List Detected} {returned : Option (Except ScanError Unit)}
      (hsend : channel.Send (.projectsDetected scanner.detected.length) next refused) :
      StreamStep scanner
        ⟨⟨fired, stats, .detecting⟩, channel, false, untold, returned⟩
        ⟨⟨fired || refused, stats, .detecting⟩, next, true, untold, returned⟩
  /-- The scan goes on. It sends the number of projects before it looks at them, and waits until
  updates about all of them have been sent before it compares them. -/
  | work {scan next : ScanState} {channel : Channel} {announced : Bool} {untold : List Detected}
      {returned : Option (Except ScanError Unit)} (hstep : scanner.undisturbed.Step scan next)
      (hfired : next.fired = scan.fired) (hsaid : scan.stage = .detecting → announced = true)
      (hwait : scan.stage.IsAnalyzing → next.stage.IsAnalyzing ∨ untold = []) :
      StreamStep scanner ⟨scan, channel, announced, untold, returned⟩
        ⟨next, channel, announced, untold, returned⟩
  /-- All files of a project have been looked at and version control has answered about it, and the
  update about it is sent. -/
  | tell {fired refused announced : Bool} {stats : Stats} {files : Pool FileTask}
      {unasked untold rest : List Detected} {project : Detected} {channel next : Channel}
      {returned : Option (Except ScanError Unit)} (hproject : untold.Perm (project :: rest))
      (hfiles : ∀ task ∈ files.waiting ++ files.running, task.project ≠ project)
      (hasked : project ∉ unasked)
      (hsend : channel.Send (scanner.scannedUpdate (.ofDropped files.dropped) project)
        next refused) :
      StreamStep scanner
        ⟨⟨fired, stats, .analyzing files unasked⟩, channel, announced, untold, returned⟩
        ⟨⟨fired || refused, stats, .analyzing files unasked⟩, next, announced, rest, returned⟩
  /-- The scan has come to a result, which is sent. It does not matter whether it is refused. -/
  | complete {fired refused announced : Bool} {stats : Stats} {result : ScanResult}
      {channel next : Channel} {untold : List Detected}
      (hsend : channel.Send (.complete result) next refused) :
      StreamStep scanner
        ⟨⟨fired, stats, .ended (.ok result)⟩, channel, announced, untold, none⟩
        ⟨⟨fired, stats, .ended (.ok result)⟩, next, announced, untold, some (.ok ())⟩
  /-- The scan has ended with an error. -/
  | stop {fired announced : Bool} {stats : Stats} {error : ScanError} {channel : Channel}
      {untold : List Detected} :
      StreamStep scanner
        ⟨⟨fired, stats, .ended (.error error)⟩, channel, announced, untold, none⟩
        ⟨⟨fired, stats, .ended (.error error)⟩, channel, announced, untold,
          some (answerTo error channel.closed)⟩
  /-- The receiver takes an update. -/
  | receive {scan : ScanState} {capacity : Nat} {update : ScanUpdate}
      {queue received : List ScanUpdate} {announced : Bool} {untold : List Detected}
      {returned : Option (Except ScanError Unit)} :
      StreamStep scanner
        ⟨scan, ⟨capacity, update :: queue, received, false⟩, announced, untold, returned⟩
        ⟨scan, ⟨capacity, queue, received ++ [update], false⟩, announced, untold, returned⟩
  /-- The receiver is dropped. -/
  | drop {scan : ScanState} {capacity : Nat} {queue received : List ScanUpdate}
      {announced : Bool} {untold : List Detected} {returned : Option (Except ScanError Unit)} :
      StreamStep scanner ⟨scan, ⟨capacity, queue, received, false⟩, announced, untold, returned⟩
        ⟨scan, ⟨capacity, [], received, true⟩, announced, untold, returned⟩

end Scanner

end CodeSurvey
