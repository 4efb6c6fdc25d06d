import CodeSurvey.Json.Basic
import CodeSurvey.Text.Hexadecimal

/-!
# JSON tokens

Splitting a JSON text into brackets, braces, commas, colons and simple values. White space between
tokens is space, tab, line feed and carriage return. `length_readText` and `length_readNumber` say
that a token takes at least one character, which is why the splitting ends.
-/

namespace CodeSurvey

/-- The smallest parts of a JSON text. A quoted text is none where an escape spells no character. -/
inductive JsonToken where
  | openArray
  | closeArray
  | openObject
  | closeObject
  | comma
  | colon
  | null
  | bool (value : Bool)
  | number (value : JsonNumber)
  | text (value : Option String)
deriving Repr, DecidableEq

namespace JsonToken

open Text (hexValue?)

/-- The number that four hexadecimal digits stand for. -/
def hexValue4? (a b c d : Char) : Option Nat := do
  let a ← hexValue? a
  let b ← hexValue? b
  let c ← hexValue? c
  let d ← hexValue? d
  return ((a * 16 + b) * 16 + c) * 16 + d

/-- The character that a backslash and a letter stand for. -/
def escaped? (c : Char) : Option Char :=
  match c with
  | '"' => some '"'
  | '\\' => some '\\'
  | '/' => some '/'
  | 'b' => some '\x08'
  | 'f' => some '\x0c'
  | 'n' => some '\n'
  | 'r' => some '\r'
  | 't' => some '\t'
  | _ => none

/-- How far a quoted text has been read: its characters, the last first, the first half of a
surrogate pair that waits for its second, and whether all escapes before it spell characters. -/
structure Quoted where
  done : List Char
  waiting : Option Nat
  whole : Bool

namespace Quoted

/-- Nothing has been read. -/
def start : Quoted := ⟨[], none, true⟩

/-- One more character. -/
def push (quoted : Quoted) (c : Char) : Quoted :=
  ⟨c :: quoted.done, none, quoted.whole && quoted.waiting.isNone⟩

/-- One more code unit of UTF-16, given by an escape. -/
def pushUnit (quoted : Quoted) (unit : Nat) : Quoted :=
  if 0xD800 ≤ unit && unit < 0xDC00 then
    ⟨quoted.done, some unit, quoted.whole && quoted.waiting.isNone⟩
  else if 0xDC00 ≤ unit && unit < 0xE000 then
    match quoted.waiting with
    | some first =>
      ⟨Char.ofNat (0x10000 + (first - 0xD800) * 0x400 + (unit - 0xDC00)) :: quoted.done, none,
        quoted.whole⟩
    | none => ⟨quoted.done, none, false⟩
  else quoted.push (Char.ofNat unit)

/-- The text, if every escape spells a character. -/
def finish (quoted : Quoted) : Option String :=
  if quoted.whole && quoted.waiting.isNone then some (String.ofList quoted.done.reverse) else none

end Quoted

/-- Reads a quoted text behind its first quote, up to and with its last. -/
def readText (quoted : Quoted) : List Char → Option (Option String × List Char)
  | [] => none
  | '"' :: rest => some (quoted.finish, rest)
  | '\\' :: 'u' :: a :: b :: c :: d :: rest =>
    match hexValue4? a b c d with
    | some unit => readText (quoted.pushUnit unit) rest
    | none => none
  | '\\' :: c :: rest =>
    match escaped? c with
    | some c => readText (quoted.push c) rest
    | none => none
  | c :: rest => if c.toNat < 0x20 then none else readText (quoted.push c) rest

/-- The value of a decimal digit. -/
def digitValue (c : Char) : Nat :=
  c.toNat - 0x30

/-- The largest number that the digits of a number can stand for: that of 64 bits. -/
def digitsLimit : Nat := UInt64.size - 1

/-- Puts digits behind `value` for as long as they fit: the value, and how many there are with the
`taken` ones before. -/
def takeDigits (value taken : Nat) : List Char → Nat × Nat
  | [] => (value, taken)
  | c :: rest =>
    let next := 10 * value + digitValue c
    if next ≤ digitsLimit then takeDigits next (taken + 1) rest else (value, taken)

/-- From here on exponents are not told apart. -/
def exponentLimit : Nat := 1 <<< 31

/-- The exponent that a row of decimal digits stands for. -/
def exponentValue (digits : List Char) : Nat :=
  digits.foldl (fun value c =>
    if value < exponentLimit then 10 * value + digitValue c else value) 0

/-- The number with the given digits before and behind the point, and the given exponent. -/
def numberOf (negative : Bool) (whole fraction : List Char) (exponent : Option Int) :
    JsonNumber :=
  let (value, taken) := takeDigits 0 0 whole
  let (digits, behind) := takeDigits value 0 fraction
  { negative, digits
    scale := (whole.length - taken : Nat) - (behind : Int) + exponent.getD 0
    plain := fraction.isEmpty && exponent.isNone }

/-- Reads the digits of a fraction, if there is a point. -/
def readFraction : List Char → Option (List Char × List Char)
  | '.' :: rest =>
    let digits := rest.takeWhile Char.isDigit
    if digits.isEmpty then none else some (digits, rest.dropWhile Char.isDigit)
  | rest => some ([], rest)

/-- Reads the digits of an exponent. -/
def readExponentDigits (negative : Bool) (rest : List Char) : Option (Int × List Char) :=
  let digits := rest.takeWhile Char.isDigit
  if digits.isEmpty then none
  else
    let value : Int := exponentValue digits
    some (if negative then -value else value, rest.dropWhile Char.isDigit)

/-- Reads an exponent, if there is one. -/
def readExponent : List Char → Option (Option Int × List Char)
  | c :: rest =>
    if c = 'e' || c = 'E' then
      let read :=
        match rest with
        | '+' :: rest => readExponentDigits false rest
        | '-' :: rest => readExponentDigits true rest
        | rest => readExponentDigits false rest
      read.map fun exponent => (some exponent.1, exponent.2)
    else some (none, c :: rest)
  | [] => some (none, [])

/-- Reads a number without its sign. A first digit zero stands alone. -/
def readUnsigned (negative : Bool) (text : List Char) : Option (JsonNumber × List Char) := do
  let whole := text.takeWhile Char.isDigit
  if whole.isEmpty || (whole.head? == some '0' && whole.length != 1) then none
  else
    let (fraction, rest) ← readFraction (text.dropWhile Char.isDigit)
    let (exponent, rest) ← readExponent rest
    return (numberOf negative whole fraction exponent, rest)

/-- Reads a number. -/
def readNumber : List Char → Option (JsonNumber × List Char)
  | '-' :: rest => readUnsigned true rest
  | unsigned => readUnsigned false unsigned

/-- Reads the token at the start of a text that does not start with white space. -/
def read : List Char → Option (JsonToken × List Char)
  | '[' :: rest => some (openArray, rest)
  | ']' :: rest => some (closeArray, rest)
  | '\x7b' :: rest => some (openObject, rest)
  | '\x7d' :: rest => some (closeObject, rest)
  | ',' :: rest => some (comma, rest)
  | ':' :: rest => some (colon, rest)
  | '"' :: rest => (readText Quoted.start rest).map fun found => (text found.1, found.2)
  | 'n' :: 'u' :: 'l' :: 'l' :: rest => some (null, rest)
  | 't' :: 'r' :: 'u' :: 'e' :: rest => some (bool true, rest)
  | 'f' :: 'a' :: 'l' :: 's' :: 'e' :: rest => some (bool false, rest)
  | rest => (readNumber rest).map fun found => (number found.1, found.2)

/-- Holds for the white space of JSON. -/
def isSpace (c : Char) : Bool :=
  c == ' ' || c == '\t' || c == '\n' || c == '\r'

theorem length_readText {quoted : Quoted} {source rest : List Char} {found : Option String}
    (h : readText quoted source = some (found, rest)) : rest.length < source.length := by
  fun_induction readText quoted source with
  | case1 => simp at h
  | case2 => simp_all
  | case3 quoted a b c d rest' unit hunit ih => have := ih h; simp; omega
  | case4 => simp at h
  | case5 quoted c rest' hu c' hc ih => have := ih h; simp; omega
  | case6 => simp at h
  | case7 => simp at h
  | case8 quoted c rest' _ _ _ hc ih => have := ih h; simp; omega

theorem length_dropWhile_le (p : Char → Bool) (source : List Char) :
    (source.dropWhile p).length ≤ source.length :=
  (List.dropWhile_sublist p).length_le

theorem length_readFraction {source rest digits : List Char}
    (h : readFraction source = some (digits, rest)) : rest.length ≤ source.length := by
  unfold readFraction at h
  split at h
  · next tail =>
    have := length_dropWhile_le Char.isDigit tail
    grind
  · simp_all

theorem length_readExponentDigits {negative : Bool} {source rest : List Char} {value : Int}
    (h : readExponentDigits negative source = some (value, rest)) :
    rest.length ≤ source.length := by
  have := length_dropWhile_le Char.isDigit source
  unfold readExponentDigits at h
  grind

theorem length_readExponent {source rest : List Char} {value : Option Int}
    (h : readExponent source = some (value, rest)) : rest.length ≤ source.length := by
  unfold readExponent at h
  split at h
  · next c tail =>
    split at h
    · simp only [Option.map_eq_some_iff] at h
      obtain ⟨⟨value', rest'⟩, hread, heq⟩ := h
      simp only [Prod.mk.injEq] at heq
      obtain ⟨-, rfl⟩ := heq
      split at hread <;> have := length_readExponentDigits hread <;> simp_all <;> omega
    · simp_all
  · simp_all

theorem length_readUnsigned {negative : Bool} {source rest : List Char} {value : JsonNumber}
    (h : readUnsigned negative source = some (value, rest)) : rest.length < source.length := by
  unfold readUnsigned at h
  simp only at h
  split at h
  · simp at h
  · next hwhole =>
    simp only [Option.bind_eq_bind, Option.bind_eq_some_iff, Option.pure_def, Option.some.injEq,
      Prod.mk.injEq] at h
    obtain ⟨⟨fraction, rest1⟩, hfraction, ⟨exponent, rest2⟩, hexponent, -, rfl⟩ := h
    have h1 := length_readFraction hfraction
    have h2 := length_readExponent hexponent
    have h3 : 0 < (source.takeWhile Char.isDigit).length := by
      cases hw : source.takeWhile Char.isDigit with
      | nil => simp [hw] at hwhole
      | cons => simp
    have h4 := congrArg List.length
      (List.takeWhile_append_dropWhile (p := Char.isDigit) (l := source))
    simp only [List.length_append] at h4
    simp only at h1 h2 ⊢
    omega

theorem length_readNumber {source rest : List Char} {value : JsonNumber}
    (h : readNumber source = some (value, rest)) : rest.length < source.length := by
  unfold readNumber at h
  split at h
  · have := length_readUnsigned h; simp; omega
  · exact length_readUnsigned h

/-- A token takes at least one character. -/
theorem length_read {source rest : List Char} {token : JsonToken}
    (h : read source = some (token, rest)) : rest.length < source.length := by
  unfold read at h
  split at h
  case h_7 =>
    simp only [Option.map_eq_some_iff, Prod.mk.injEq, Prod.exists] at h
    obtain ⟨_, _, hread, -, rfl⟩ := h
    have := length_readText hread
    simp; omega
  case h_11 =>
    simp only [Option.map_eq_some_iff, Prod.mk.injEq, Prod.exists] at h
    obtain ⟨_, _, hread, -, rfl⟩ := h
    exact length_readNumber hread
  all_goals
    simp only [Option.some.injEq, Prod.mk.injEq] at h
    obtain ⟨-, rfl⟩ := h
    simp only [List.length_cons]
    omega

/-- The tokens of what is left of a text, put behind `done`, which is reversed. -/
def tokensFrom (done : List JsonToken) (source : List Char) : Option (List JsonToken) :=
  match source with
  | [] => some done.reverse
  | c :: rest =>
    if isSpace c then tokensFrom done rest
    else
      match _read : read (c :: rest) with
      | none => none
      | some (token, after) => tokensFrom (token :: done) after
termination_by source.length
decreasing_by
  · simp
  · exact length_read _read

/-- The tokens of a JSON text, if all of it splits into tokens. -/
def tokens (source : String) : Option (List JsonToken) :=
  tokensFrom [] source.toList

end JsonToken

end CodeSurvey
