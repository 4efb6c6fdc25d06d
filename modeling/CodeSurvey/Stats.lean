import CodeSurvey.Json.Record
import CodeSurvey.Percent

/-!
# Statistics

What a scan counts. Counters have sixty-four bits and start again at zero after the last number, so
that the order in which workers count does not matter: `add_comm`, `add_assoc` and `sum_perm`.
-/

namespace CodeSurvey

/-- The counters of a scan. -/
structure Stats where
  projects : UInt64 := 0
  filesSeen : UInt64 := 0
  filesParsed : UInt64 := 0
  filesSkipped : UInt64 := 0
  filesHashed : UInt64 := 0
  hashFailures : UInt64 := 0
  blocksExtracted : UInt64 := 0
deriving Repr, DecidableEq

namespace Stats

/-- Nothing has been counted. -/
def zero : Stats := {}

instance : Inhabited Stats := ⟨zero⟩

/-- The counts of two workers together. -/
def add (a b : Stats) : Stats :=
  { projects := a.projects + b.projects
    filesSeen := a.filesSeen + b.filesSeen
    filesParsed := a.filesParsed + b.filesParsed
    filesSkipped := a.filesSkipped + b.filesSkipped
    filesHashed := a.filesHashed + b.filesHashed
    hashFailures := a.hashFailures + b.hashFailures
    blocksExtracted := a.blocksExtracted + b.blocksExtracted }

/-- The counts of several workers together. -/
def sum (counts : List Stats) : Stats :=
  counts.foldl add zero

/-- The share of the files seen that were parsed, with six decimals. -/
def parsedPercent (stats : Stats) : String :=
  (percentage stats.filesParsed.toNat stats.filesSeen.toNat).sixDecimals

/-- The counters by name, in order. -/
def counters (stats : Stats) : List (String × UInt64) :=
  [("projects", stats.projects), ("files_seen", stats.filesSeen),
    ("files_parsed", stats.filesParsed), ("files_skipped", stats.filesSkipped),
    ("files_hashed", stats.filesHashed), ("hash_failures", stats.hashFailures),
    ("blocks_extracted", stats.blocksExtracted)]

/-- How counters are written. -/
def toJson (stats : Stats) : Json :=
  .ofMembers (stats.counters.map fun counter => (counter.1, .ofNat counter.2.toNat))

/-- The counters that a value spells. Every counter has to be given. -/
def ofJson? (value : Json) : Option Stats := do
  let record ← value.record? (zero.counters.map Prod.fst)
  let count (name : String) : Option UInt64 := (record.require name Json.nat?).map UInt64.ofNat
  return {
    projects := ← count "projects"
    filesSeen := ← count "files_seen"
    filesParsed := ← count "files_parsed"
    filesSkipped := ← count "files_skipped"
    filesHashed := ← count "files_hashed"
    hashFailures := ← count "hash_failures"
    blocksExtracted := ← count "blocks_extracted" }

theorem add_comm (a b : Stats) : a.add b = b.add a := by
  simp [add, UInt64.add_comm]

theorem add_assoc (a b c : Stats) : (a.add b).add c = a.add (b.add c) := by
  simp [add, UInt64.add_assoc]

@[simp] theorem zero_add (a : Stats) : zero.add a = a := by
  simp [add, zero]

@[simp] theorem add_zero (a : Stats) : a.add zero = a := by
  simp [add, zero]

theorem foldl_add (start : Stats) (counts : List Stats) :
    counts.foldl add start = start.add (sum counts) := by
  induction counts generalizing start with
  | nil => exact (add_zero start).symm
  | cons count rest ih => rw [sum, List.foldl_cons, List.foldl_cons, ih, ih, zero_add, add_assoc]

@[simp] theorem sum_nil : sum [] = zero := rfl

@[simp] theorem sum_cons (count : Stats) (rest : List Stats) :
    sum (count :: rest) = count.add (sum rest) := by
  rw [sum, List.foldl_cons, foldl_add, zero_add]

@[simp] theorem sum_append (counts others : List Stats) :
    sum (counts ++ others) = (sum counts).add (sum others) := by
  rw [sum, List.foldl_append, foldl_add]
  rfl

theorem sum_flatMap {α : Type} (l : List α) (counts : α → List Stats) :
    sum (l.flatMap counts) = sum (l.map fun a => sum (counts a)) := by
  induction l with
  | nil => rfl
  | cons a rest ih => rw [List.flatMap_cons, sum_append, ih, List.map_cons, sum_cons]

/-- Workers may count in any order. -/
theorem sum_perm {counts others : List Stats} (h : counts.Perm others) :
    sum counts = sum others :=
  h.foldl_eq' (fun a _ b _ start => by rw [add_assoc, add_comm a, ← add_assoc]) zero

end Stats

end CodeSurvey
