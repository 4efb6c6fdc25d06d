/-!
# Places in a text

A `Cursor` is a place between two characters of a text: the number of UTF-8 bytes before it and the
characters after it. `seek` finds the cursor at a byte offset; it fails past the end and inside a
character. `seek_offset` says that a cursor that was found stands where it was asked for.
`seekAll` finds many cursors at the cost of one if they are asked for from left to right, and
`seekAll_eq_map` says that they are the same ones.
-/

namespace CodeSurvey.Text

/-- The number of bytes of some characters. -/
def byteLength (text : List Char) : Nat :=
  text.foldl (fun length c => length + c.utf8Size) 0

theorem foldl_utf8Size (length : Nat) (text : List Char) :
    text.foldl (fun length c => length + c.utf8Size) length = length + byteLength text := by
  induction text generalizing length with
  | nil => rfl
  | cons c rest ih =>
    rw [byteLength, List.foldl_cons, List.foldl_cons, ih, ih, Nat.zero_add, Nat.add_assoc]

theorem byteLength_cons (c : Char) (rest : List Char) :
    byteLength (c :: rest) = c.utf8Size + byteLength rest := by
  rw [byteLength, List.foldl_cons, foldl_utf8Size, Nat.zero_add]

theorem byteLength_append (front back : List Char) :
    byteLength (front ++ back) = byteLength front + byteLength back := by
  rw [byteLength, List.foldl_append, foldl_utf8Size]
  rfl

/-- A place in a text. -/
structure Cursor where
  /-- The number of bytes before the place. -/
  offset : Nat
  /-- The characters after the place. -/
  rest : List Char
deriving Repr, DecidableEq

namespace Cursor

/-- The place before the first character. -/
def start (text : List Char) : Cursor :=
  ⟨0, text⟩

/-- The place at byte `target`, sought from a place at byte `offset`. -/
def seekFrom (target : Nat) : (offset : Nat) → List Char → Option Cursor
  | offset, [] => if offset = target then some ⟨offset, []⟩ else none
  | offset, c :: rest =>
    if offset = target then some ⟨offset, c :: rest⟩
    else if target < offset then none
    else seekFrom target (offset + c.utf8Size) rest

/-- The place at byte `target` of a text, if a character starts or the text ends there. -/
def seek (text : List Char) (target : Nat) : Option Cursor :=
  seekFrom target 0 text

/-- The place at byte `target`, sought from another place of the text if that lies before it. -/
def seekOn (text : List Char) (cursor : Cursor) (target : Nat) : Option Cursor :=
  if cursor.offset ≤ target then seekFrom target cursor.offset cursor.rest else seek text target

/-- The places at some bytes of a text, put behind `found`, which is reversed. Each is sought from
the one before. -/
def seekAllFrom (text : List Char) :
    (cursor : Cursor) → (found : List (Option Cursor)) → (targets : List Nat) →
      List (Option Cursor)
  | _, found, [] => found.reverse
  | cursor, found, target :: rest =>
    let place := seekOn text cursor target
    seekAllFrom text (place.getD cursor) (place :: found) rest

/-- The places at some bytes of a text. -/
def seekAll (text : List Char) (targets : List Nat) : List (Option Cursor) :=
  seekAllFrom text (start text) [] targets

/-- The characters before byte `stop` of a text that starts at byte `offset`. -/
def takeFrom (stop : Nat) : (offset : Nat) → List Char → List Char
  | _, [] => []
  | offset, c :: rest =>
    if offset < stop then c :: takeFrom stop (offset + c.utf8Size) rest else []

/-- The characters between a place and byte `stop`. -/
def upTo (cursor : Cursor) (stop : Nat) : List Char :=
  takeFrom stop cursor.offset cursor.rest

theorem seekFrom_offset {target offset : Nat} {text : List Char} {cursor : Cursor}
    (h : seekFrom target offset text = some cursor) : cursor.offset = target := by
  induction text generalizing offset with
  | nil =>
    simp only [seekFrom] at h
    split at h <;> simp_all
    exact h ▸ rfl
  | cons c r ih =>
    simp only [seekFrom] at h
    split at h
    · simp_all
      exact h ▸ rfl
    · split at h
      · simp at h
      · exact ih h

theorem le_of_seekFrom {target offset : Nat} {text : List Char} {cursor : Cursor}
    (h : seekFrom target offset text = some cursor) : offset ≤ target := by
  cases text <;> grind [seekFrom]

theorem seekFrom_append (offset : Nat) (front rest : List Char) :
    seekFrom (offset + byteLength front) offset (front ++ rest) =
      some ⟨offset + byteLength front, rest⟩ := by
  induction front generalizing offset with
  | nil => cases rest <;> simp [seekFrom, byteLength]
  | cons c front ih =>
    have hpos := c.utf8Size_pos
    rw [List.cons_append, seekFrom, byteLength_cons, if_neg (by omega), if_neg (by omega),
      ← Nat.add_assoc]
    exact ih (offset + c.utf8Size)

/-- Behind the first characters of a text stands the rest. -/
theorem seek_append (front rest : List Char) :
    seek (front ++ rest) (byteLength front) = some ⟨byteLength front, rest⟩ := by
  have h := seekFrom_append 0 front rest
  rwa [Nat.zero_add] at h

/-- A cursor that was found stands where it was asked for. -/
theorem seek_offset {text : List Char} {target : Nat} {cursor : Cursor}
    (h : seek text target = some cursor) : cursor.offset = target :=
  seekFrom_offset h

/-- A place behind another is found from there. -/
theorem seekFrom_of_seekFrom {first target offset : Nat} {text : List Char} {cursor : Cursor}
    (h : seekFrom first offset text = some cursor) (hle : first ≤ target) :
    seekFrom target cursor.offset cursor.rest = seekFrom target offset text := by
  induction text generalizing offset with
  | nil =>
    simp only [seekFrom] at h
    split at h
    · injection h with h
      rw [← h]
    · simp at h
  | cons c rest ih =>
    rw [seekFrom] at h
    split at h
    · injection h with h
      rw [← h]
    · split at h
      · simp at h
      · rw [ih h, seekFrom, if_neg (by omega), if_neg (by omega)]

theorem seekOn_eq_seek {text : List Char} {cursor : Cursor} (target : Nat)
    (h : seek text cursor.offset = some cursor) :
    seekOn text cursor target = seek text target := by
  unfold seekOn
  split
  · exact seekFrom_of_seekFrom h ‹_›
  · rfl

theorem seekAllFrom_eq {text : List Char} {cursor : Cursor} (found : List (Option Cursor))
    (targets : List Nat) (h : seek text cursor.offset = some cursor) :
    seekAllFrom text cursor found targets = found.reverse ++ targets.map (seek text) := by
  induction targets generalizing cursor found with
  | nil => simp [seekAllFrom]
  | cons target rest ih =>
    rw [seekAllFrom, seekOn_eq_seek target h]
    cases hplace : seek text target with
    | none => simp [ih _ h, hplace]
    | some place =>
      have hreached : seek text place.offset = some place := by rw [seek_offset hplace, hplace]
      simp [ih _ hreached, hplace]

/-- Places that are sought one from the other are those that are sought one by one. -/
theorem seekAll_eq_map (text : List Char) (targets : List Nat) :
    seekAll text targets = targets.map (seek text) := by
  have h : seek text (start text).offset = some (start text) := by
    cases text <;> simp [seek, start, seekFrom]
  rw [seekAll, seekAllFrom_eq [] targets h, List.reverse_nil, List.nil_append]

end Cursor

end CodeSurvey.Text
