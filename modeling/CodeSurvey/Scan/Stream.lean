import CodeSurvey.Scan.Basic

/-!
# Scans that tell how far they are

A scan that sends updates to a receiver: how many projects there are, each project as soon as it
has been looked at, and the result. Projects are finished in any order. A receiver may be dropped;
the first update that it does not take cancels the scan, which then ends without an error. Nothing
else does: the token is that of the scan, so version control cannot fire it. Without its pool of
workers the scan fails before it sends anything.
-/

namespace CodeSurvey

/-- What a receiver is told. -/
inductive ScanUpdate where
  | projectsDetected (count : Nat)
  | projectScanned (summary : ProjectSummary)
  | complete (result : ScanResult)
deriving DecidableEq

/-- How many updates a receiver takes before it is dropped; none if it never is. -/
abbrev Receiver := Option Nat

/-- The updates that were taken, and whether one was not. -/
structure Delivery where
  taken : List ScanUpdate := []
  refused : Bool := false
deriving DecidableEq

namespace Delivery

/-- Sends one more update. -/
def send (receiver : Receiver) (delivery : Delivery) (update : ScanUpdate) : Delivery :=
  if delivery.refused || receiver.any (· ≤ delivery.taken.length) then
    { delivery with refused := true }
  else { delivery with taken := delivery.taken ++ [update] }

/-- The token of the scan: an update that was not taken has fired it. -/
def token (delivery : Delivery) : Token := fun _ => delivery.refused

end Delivery

/-- How far the projects have come: the updates, and what came of the projects finished so far. -/
structure StreamProgress where
  delivery : Delivery
  finished : List (Nat × ScannedProject)

namespace Scanner

/-- Looks at the project at a position and tells about it. -/
def finishProject (scanner : Scanner) (receiver : Receiver) (detected : List Detected)
    (progress : StreamProgress) (position : Nat) : StreamProgress :=
  match detected[position]? with
  | none => progress
  | some project =>
    let scanned := scanner.scanProject progress.delivery.token project
    { delivery :=
        progress.delivery.send receiver (.projectScanned (.ofProject scanned.project))
      finished := (position, scanned) :: progress.finished }

/-- Scans the workspace with the workers at hand and sends updates to a receiver, the projects being
finished in the order of the positions given. -/
def executeFor (scanner : Scanner) (order : List Nat) (receiver : Receiver) :
    Delivery × Except ScanError Unit :=
  let detected := scanner.detected
  let begun := Delivery.send receiver {} (.projectsDetected detected.length)
  if begun.refused then (begun, .ok ())
  else
    let progress := order.foldl (scanner.finishProject receiver detected) ⟨begun, []⟩
    if progress.delivery.refused then (progress.delivery, .ok ())
    else
      let scanned := (List.range detected.length).filterMap fun position =>
        progress.finished.lookup position
      match scanner.conclude .idle scanned with
      | .error error => (progress.delivery, .error error)
      | .ok result => (progress.delivery.send receiver (.complete result), .ok ())

/-- Scans the workspace and sends updates to a receiver, the projects being finished in the order of
the positions given. The result says which updates were taken, and whether the scan ended well. -/
def stream (scanner : Scanner) (order : List Nat) (receiver : Receiver) :
    Delivery × Except ScanError Unit :=
  match scanner.poolFault? with
  | some fault => ({}, .error fault)
  | none => scanner.executeFor order receiver

end Scanner

end CodeSurvey
