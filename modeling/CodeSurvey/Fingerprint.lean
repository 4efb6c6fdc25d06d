import CodeSurvey.Project.Draft
import CodeSurvey.Report.Basic

/-!
# Fingerprints

Which files have equal contents. Workers hash the candidates in any order and put each into the
group of its digest; the list of duplicates does not show that order. A group counts if its files
lie in at least two projects.
-/

namespace CodeSurvey

/-- The positions of candidates, grouped by the digests of their contents. The order of the groups
and of the positions in them is that in which they came. -/
structure FingerprintIndex where
  candidates : List Candidate
  groups : List (Digest × List Nat)
deriving DecidableEq

namespace FingerprintIndex

/-- Nothing has been hashed. -/
def start (candidates : List Candidate) : FingerprintIndex := ⟨candidates, []⟩

/-- Puts a position into the group of a digest. -/
def insertMember (digest : Digest) (position : Nat) :
    List (Digest × List Nat) → List (Digest × List Nat)
  | [] => [(digest, [position])]
  | (other, members) :: rest =>
    if other = digest then (other, members ++ [position]) :: rest
    else (other, members) :: insertMember digest position rest

/-- The index with a candidate in the group of its digest. -/
def insert (index : FingerprintIndex) (digest : Digest) (position : Nat) : FingerprintIndex :=
  { index with groups := insertMember digest position index.groups }

/-- The digest of the content of a candidate, if its file can be read. -/
def digest? (system : FileSystem) (candidate : Candidate) : Option Digest :=
  (system.read? candidate.absolutePath).map Digest.ofBytes

/-- What one worker adds to the index and to the counts for the candidate at a position. -/
def hashOne (system : FileSystem) (position : Nat) (state : FingerprintIndex × Stats) :
    FingerprintIndex × Stats :=
  match state.1.candidates[position]? with
  | none => state
  | some candidate =>
    match digest? system candidate with
    | some digest => (state.1.insert digest position, state.2.add { filesHashed := 1 })
    | none => (state.1, state.2.add { hashFailures := 1 })

/-- The index after the workers have taken the candidates in a given order, but for those at whose
position the scan had been cancelled already; and what they counted. -/
def build (system : FileSystem) (candidates : List Candidate) (order : List Nat)
    (cancelled : Nat → Bool) : FingerprintIndex × Stats :=
  order.foldl
    (fun state position => if cancelled position then state else hashOne system position state)
    (start candidates, .zero)

/-- How many different contents there are. -/
def size (index : FingerprintIndex) : Nat :=
  index.groups.length

/-- Whether no content has been hashed. -/
def isEmpty (index : FingerprintIndex) : Bool :=
  index.groups.isEmpty

/-- The candidates at some positions, in the order of their positions. -/
def filesAt (index : FingerprintIndex) (positions : List Nat) : List Candidate :=
  positions.filterMap fun position => index.candidates[position]?

/-- The duplicate that a group is, with the position of its first file. -/
def duplicate? (index : FingerprintIndex) (members : List Nat) : Option (Nat × Duplicate) :=
  let positions := members.mergeSort fun a b => decide (a ≤ b)
  let files := index.filesAt positions
  if (files.map Candidate.projectIndex).eraseDups.length < 2 then none
  else
    positions.head?.map fun first =>
      (first, ⟨.ofList (files.map Candidate.project), files.map Candidate.label⟩)

/-- The groups of files of at least two projects with one content, by their first files. -/
def duplicates (index : FingerprintIndex) : List Duplicate :=
  let entries := index.groups.filterMap fun group => index.duplicate? group.2
  (entries.mergeSort fun a b => decide (a.1 ≤ b.1)).map Prod.snd

end FingerprintIndex

end CodeSurvey
