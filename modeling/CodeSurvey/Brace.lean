import CodeSurvey.Span
import CodeSurvey.Text.Cursor

/-!
# Braces

The brace that closes the one at a given byte, and the span from a given byte to the end of the
first block behind it. Braces are counted wherever they stand, in strings and comments too. An
opening brace that nothing closes is taken for its own end, and so is a byte that is no opening
brace.
-/

namespace CodeSurvey.Brace

open Text (Cursor)

/-- The offset at which as many braces have been closed as `depth` and those opened on the way. -/
def closeFrom : (depth offset : Nat) → List Char → Option Nat
  | _, _, [] => none
  | depth, offset, c :: rest =>
    if c = '\x7b' then closeFrom (depth + 1) (offset + 1) rest
    else if c = '\x7d' then
      if depth ≤ 1 then some offset else closeFrom (depth - 1) (offset + 1) rest
    else closeFrom depth (offset + c.utf8Size) rest

/-- The offset of the brace that closes the one at a place, or the place itself. -/
def closing (cursor : Cursor) : Nat :=
  match cursor.rest with
  | '\x7b' :: rest => (closeFrom 1 (cursor.offset + 1) rest).getD cursor.offset
  | _ => cursor.offset

/-- The offset of the brace that closes the one at byte `opening`. -/
def blockEnd (text : List Char) (opening : Nat) : Nat :=
  match Cursor.seek text opening with
  | some cursor => closing cursor
  | none => opening

/-- The first place at or behind an offset with an opening brace. -/
def openFrom : (offset : Nat) → List Char → Option Cursor
  | _, [] => none
  | offset, c :: rest =>
    if c = '\x7b' then some ⟨offset, c :: rest⟩ else openFrom (offset + c.utf8Size) rest

/-- The span from a place to the end of the first block behind it, if a brace opens one. -/
def spanAt (cursor : Cursor) : Option Span :=
  (openFrom cursor.offset cursor.rest).map fun opening => ⟨cursor.offset, closing opening⟩

/-- The span from byte `start` to the end of the first block behind it. There is none if no brace
opens a block, and none past the end of the text or inside a character. -/
def blockSpan (text : List Char) (start : Nat) : Option Span :=
  (Cursor.seek text start).bind spanAt

/-- A byte that is no opening brace is its own block end. -/
theorem closing_eq_offset {cursor : Cursor} (h : cursor.rest.head? ≠ some '\x7b') :
    closing cursor = cursor.offset := by
  unfold closing
  split
  · simp_all
  · rfl

/-- A span that was found starts where it was asked for. -/
theorem blockSpan_first {text : List Char} {start : Nat} {span : Span}
    (h : blockSpan text start = some span) : span.first = start := by
  simp only [blockSpan, spanAt, Option.bind_eq_some_iff, Option.map_eq_some_iff] at h
  obtain ⟨cursor, hcursor, _, _, rfl⟩ := h
  exact Cursor.seek_offset hcursor

end CodeSurvey.Brace
