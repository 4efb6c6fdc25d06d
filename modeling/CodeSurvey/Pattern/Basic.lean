/-!
# Patterns

Patterns over texts and how they match. Runs are taken as long as possible and given back character
by character, and of two alternatives the first that lets the rest of the pattern match wins.

A `Search` tells for every place of a text how a pattern that has come there ends. `before` puts a
pattern in front of a search. For a run it tells all places at once, from the end of the text on, so
that no character is looked at twice by the same part of a pattern; `outcome_before_many` says that
this is the same as going on character by character. `findAll` collects the matches of a text from
left to right, none overlapping another.
-/

namespace CodeSurvey

/-- What a stretch of text can look like. -/
inductive Pattern where
  /-- The given characters. -/
  | word (text : List Char)
  /-- One character in a set. -/
  | one (set : Char → Bool)
  /-- A run of characters in a set, possibly empty. -/
  | many (set : Char → Bool)
  /-- One pattern after another. -/
  | seq (first second : Pattern)
  /-- One pattern or, failing that, another. -/
  | either (first second : Pattern)
  /-- A pattern whose text is kept. -/
  | capture (inner : Pattern)

/-- One match: bytes `start` to `stop` (exclusive), with the text kept by the pattern, if it keeps
any. -/
structure Match where
  start : Nat
  stop : Nat
  group : Option String
deriving Repr, DecidableEq

/-- How a match ends that has come to a place: the place where it stops, and where the text to keep
starts and stops as far as that lies ahead. Places are counted in characters. -/
structure Outcome where
  stop : Nat
  keptFrom : Option Nat
  keptTo : Option Nat
deriving Repr, DecidableEq

/-- How a pattern that has come to a place ends, for every place of a text at which it matches. -/
structure Search where
  outcome : Nat → Option Outcome

namespace Search

/-- Nothing is left to match. -/
def done : Search :=
  ⟨fun place => some ⟨place, none, none⟩⟩

/-- The text to keep starts here. -/
def opening (search : Search) : Search :=
  ⟨fun place => (search.outcome place).map ({ · with keptFrom := some place })⟩

/-- The text to keep stops here. -/
def closing (search : Search) : Search :=
  ⟨fun place => (search.outcome place).map ({ · with keptTo := some place })⟩

/-- One search or, failing that, another. Kept out of line so that neither is set up again for every
place. -/
@[noinline] def orElse (preferred other : Search) : Search :=
  ⟨fun place => (preferred.outcome place).or (other.outcome place)⟩

end Search

namespace Pattern

/-- A pattern or nothing, the pattern first. -/
def optional (inner : Pattern) : Pattern :=
  either inner (word [])

/-- A run of at least one character in a set. -/
def many1 (set : Char → Bool) : Pattern :=
  seq (one set) (many set)

/-- Patterns one after another. -/
def inOrder : List Pattern → Pattern
  | [] => word []
  | [p] => p
  | p :: rest => seq p (inOrder rest)

/-- Whether the character at a place is in a set. -/
@[inline] def isIn (set : Char → Bool) (text : Array Char) (place : Nat) : Bool :=
  match text[place]? with
  | some c => set c
  | none => false

/-- Whether a text goes on with `word` at a place. -/
def goesOnWith (text : Array Char) : (word : List Char) → (place : Nat) → Bool
  | [], _ => true
  | c :: rest, place =>
    match text[place]? with
    | some found => if found = c then goesOnWith text rest (place + 1) else false
    | none => false

/-- The outcomes of a run at the first `count` places, in front of `later`, those at the places
behind: the run goes on if it can, and otherwise it ends. -/
def runOutcomes (text : Array Char) (set : Char → Bool) (next : Search) :
    (count : Nat) → (later : List (Option Outcome)) → List (Option Outcome)
  | 0, later => later
  | place + 1, later =>
    let goingOn := if isIn set text place then later.head?.join else none
    runOutcomes text set next place (goingOn.or (next.outcome place) :: later)

/-- The outcomes of a run at all places, the end of the text included. -/
def runTable (text : Array Char) (set : Char → Bool) (next : Search) : Array (Option Outcome) :=
  (runOutcomes text set next (text.size + 1) []).toArray

/-- The search for a pattern in a text and then for `next`. -/
def before (text : Array Char) : Pattern → (next : Search) → Search
  | word characters, next =>
    ⟨fun place =>
      if goesOnWith text characters place then next.outcome (place + characters.length) else none⟩
  | one set, next =>
    ⟨fun place => if isIn set text place then next.outcome (place + 1) else none⟩
  | many set, next =>
    let table := Thunk.mk fun _ => runTable text set next
    ⟨fun place => table.get[place]?.join⟩
  | seq first second, next => before text first (before text second next)
  | either first second, next => (before text first next).orElse (before text second next)
  | capture inner, next => (before text inner next.closing).opening

/-- The places of matches with their outcomes, put behind `found`, which is reversed: those of the
next `count` places from `place` on. Places before `resume` lie inside the previous match and are
passed over. -/
def findFrom (search : Search) :
    (count place resume : Nat) → (found : List (Nat × Outcome)) → List (Nat × Outcome)
  | 0, _, _, found => found.reverse
  | count + 1, place, resume, found =>
    if place < resume then findFrom search count (place + 1) resume found
    else
      match search.outcome place with
      | none => findFrom search count (place + 1) resume found
      | some outcome =>
        findFrom search count (place + 1) outcome.stop ((place, outcome) :: found)

/-- For every place of a text, the end included, the number of bytes before it. -/
def byteOffsets (text : Array Char) : Array Nat :=
  (text.foldl (fun (offsets, offset) c =>
    let next := offset + c.utf8Size
    (offsets.push next, next)) (#[0], 0)).1

/-- The text kept by an outcome. -/
def keptText (text : Array Char) (outcome : Outcome) : Option String := do
  let first ← outcome.keptFrom
  let last ← outcome.keptTo
  return String.ofList (text.extract first last).toList

/-- The matches of a text from left to right, none overlapping another: each is the preferred match
at the first place after the previous one that has any. -/
def findAll (pattern : Pattern) (text : List Char) : List Match :=
  let characters := text.toArray
  let found := findFrom (pattern.before characters .done) (characters.size + 1) 0 0 []
  let offsets := Thunk.mk fun _ => byteOffsets characters
  found.map fun (place, outcome) =>
    ⟨offsets.get[place]?.getD 0, offsets.get[outcome.stop]?.getD 0, keptText characters outcome⟩

/-- What the matches of a text keep, in order. -/
def groups (pattern : Pattern) (text : List Char) : List String :=
  (pattern.findAll text).filterMap Match.group

theorem runOutcomes_eq_append (text : Array Char) (set : Char → Bool) (next : Search)
    (count : Nat) (later : List (Option Outcome)) :
    ∃ front, runOutcomes text set next count later = front ++ later ∧ front.length = count := by
  induction count generalizing later with
  | zero => exact ⟨[], rfl, rfl⟩
  | succ place ih =>
    rw [runOutcomes]
    obtain ⟨front, heq, hlength⟩ := ih (Option.or
      (if isIn set text place then later.head?.join else none) (next.outcome place) :: later)
    exact ⟨front ++ [_], by rw [heq, List.append_assoc, List.singleton_append], by simp [hlength]⟩

/-- Each outcome of a run follows from the one at the place behind. -/
theorem getElem?_runOutcomes {text : Array Char} {set : Char → Bool} {next : Search}
    {count place : Nat} (later : List (Option Outcome)) (h : place < count) :
    (runOutcomes text set next count later)[place]? =
      some (Option.or
        (if isIn set text place then
          (runOutcomes text set next count later)[place + 1]?.join else none)
        (next.outcome place)) := by
  induction count generalizing later with
  | zero => omega
  | succ last ih =>
    rw [runOutcomes]
    by_cases hlast : place = last
    · subst hlast
      obtain ⟨front, heq, hlength⟩ := runOutcomes_eq_append text set next place (Option.or
        (if isIn set text place then later.head?.join else none) (next.outcome place) :: later)
      have hhead : later.head? = later[0]? := by cases later <;> rfl
      rw [heq, List.getElem?_append_right (by omega), List.getElem?_append_right (by omega)]
      simp [hlength, hhead]
    · exact ih _ (by omega)

/-- A run goes on for as long as it can, and is given back character by character. -/
theorem outcome_before_many {text : Array Char} {set : Char → Bool} {next : Search} {place : Nat}
    (h : place ≤ text.size) :
    (before text (many set) next).outcome place =
      Option.or
        (if isIn set text place then (before text (many set) next).outcome (place + 1) else none)
        (next.outcome place) := by
  simp only [before, Thunk.get, runTable, List.getElem?_toArray]
  rw [getElem?_runOutcomes [] (show place < text.size + 1 by omega)]
  rfl

end Pattern

end CodeSurvey
