/-!
# Spans

A stretch of bytes with both its ends inside. A span whose last byte lies before its first is empty
but keeps its numbers.
-/

namespace CodeSurvey

/-- The bytes from `first` to `last`, both included. -/
structure Span where
  first : Nat
  last : Nat
deriving Repr, DecidableEq

namespace Span

/-- How far the last byte lies behind the first, zero if it lies before it. -/
def width (span : Span) : Nat :=
  span.last - span.first

/-- Whether a byte offset lies on the span. -/
def contains (span : Span) (offset : Nat) : Bool :=
  span.first ≤ offset && offset ≤ span.last

@[simp] theorem contains_iff (span : Span) (offset : Nat) :
    span.contains offset = true ↔ span.first ≤ offset ∧ offset ≤ span.last := by
  simp [contains]

end Span

end CodeSurvey
