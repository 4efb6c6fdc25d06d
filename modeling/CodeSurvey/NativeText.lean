import CodeSurvey.Path

/-!
# Native texts

Names of files, and what links say, are bytes to the system. Most of them are texts in UTF-8; of the
others only the bytes are known. The order is that of the bytes. `lt_iff_toBytes_lt` in the theory
says so of texts too, which are compared character by character.
-/

namespace CodeSurvey

/-- The bytes of a text in UTF-8. -/
def Text.utf8Bytes (text : String) : List UInt8 :=
  text.toUTF8.data.toList

/-- Bytes that the system takes for a text. -/
inductive NativeText where
  /-- The bytes of a text in UTF-8. -/
  | text (value : String)
  /-- Bytes that are no text in UTF-8. -/
  | raw (bytes : List UInt8) (notText : String.fromUTF8? ⟨bytes.toArray⟩ = none)
deriving Repr, DecidableEq

namespace NativeText

instance : Coe String NativeText := ⟨text⟩

/-- The byte of a slash. -/
def slash : UInt8 := 0x2F

/-- The native text of some bytes. -/
def ofBytes (bytes : List UInt8) : NativeText :=
  match h : String.fromUTF8? ⟨bytes.toArray⟩ with
  | some value => text value
  | none => raw bytes h

/-- What the system sees. -/
def toBytes : NativeText → List UInt8
  | text value => Text.utf8Bytes value
  | raw bytes _ => bytes

/-- The text that the bytes are in UTF-8, if they are one. -/
def text? : NativeText → Option String
  | text value => some value
  | raw _ _ => none

/-- The texts that some native texts are, if all of them are texts. -/
def texts? : List NativeText → Option (List String)
  | [] => some []
  | text value :: rest => (texts? rest).map (value :: ·)
  | raw _ _ :: _ => none

/-- How many bytes there are. -/
def size : NativeText → Nat
  | text value => value.utf8ByteSize
  | raw bytes _ => bytes.length

/-- Whether one of the bytes is zero. -/
def holdsZero : NativeText → Bool
  | text value => value.toList.contains '\x00'
  | raw bytes _ => bytes.contains 0

/-- Whether the first byte is a slash, as on a path that starts at the root. -/
def isAbsolute : NativeText → Bool
  | text value => Path.isAbsolute ⟨value⟩
  | raw bytes _ => bytes.head? == some slash

/-- The stretches of bytes between slashes, empty ones included. -/
def splitBytes : List UInt8 → List (List UInt8)
  | [] => [[]]
  | byte :: rest =>
    if byte = slash then [] :: splitBytes rest
    else
      match splitBytes rest with
      | [] => [[byte]]
      | first :: others => (byte :: first) :: others

/-- The stretches between slashes, empty ones included. -/
def segments : NativeText → List NativeText
  | text value => (Path.segments value).map text
  | raw bytes _ => (splitBytes bytes).map ofBytes

instance : LT NativeText where
  lt a b :=
    match a, b with
    | text a, text b => a < b
    | a, b => a.toBytes < b.toBytes

instance : LE NativeText where
  le a b := ¬ b < a

instance (a b : NativeText) : Decidable (a < b) :=
  match a, b with
  | text a, text b => inferInstanceAs (Decidable (a < b))
  | text a, raw b h => inferInstanceAs (Decidable ((text a).toBytes < (raw b h).toBytes))
  | raw a h, text b => inferInstanceAs (Decidable ((raw a h).toBytes < (text b).toBytes))
  | raw a h, raw b k => inferInstanceAs (Decidable ((raw a h).toBytes < (raw b k).toBytes))

instance (a b : NativeText) : Decidable (a ≤ b) :=
  inferInstanceAs (Decidable (¬ b < a))

theorem texts?_map_text_append (values : List String) (names : List NativeText) :
    texts? (values.map text ++ names) = (texts? names).map (values ++ ·) := by
  induction values with
  | nil => simp
  | cons value rest ih =>
    rw [List.map_cons, List.cons_append, texts?, ih, Option.map_map]
    rfl

@[simp] theorem texts?_map_text (values : List String) :
    texts? (values.map text) = some values := by
  have hall := texts?_map_text_append values []
  rwa [List.append_nil, texts?, Option.map_some, List.append_nil] at hall

theorem texts?_eq_some_iff {names : List NativeText} {values : List String} :
    texts? names = some values ↔ names = values.map text := by
  constructor
  · induction names generalizing values with
    | nil =>
      rintro ⟨⟩
      rfl
    | cons name rest ih =>
      intro h
      cases name with
      | raw bytes hbytes => exact nomatch h
      | text value =>
        obtain ⟨others, hothers, rfl⟩ := Option.map_eq_some_iff.1 h
        rw [ih hothers, List.map_cons]
  · rintro rfl
    exact texts?_map_text values

end NativeText

end CodeSurvey
