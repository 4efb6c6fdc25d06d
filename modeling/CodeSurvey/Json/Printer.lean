import CodeSurvey.Json.Basic
import CodeSurvey.Text.Hexadecimal

/-!
# Writing JSON

Two layouts: compact, without any white space, and indented, with a line for every item and two
spaces for every level. A character below the space is escaped, by a letter where there is one,
and so are the quote and the backslash; all other characters stand for themselves.
-/

namespace CodeSurvey.Json

open Text (hexDigit)

/-- How a character is written within quotes. -/
def escape (c : Char) : String :=
  match c with
  | '"' => "\\\""
  | '\\' => "\\\\"
  | '\x08' => "\\b"
  | '\x0c' => "\\f"
  | '\n' => "\\n"
  | '\r' => "\\r"
  | '\t' => "\\t"
  | c =>
    if c.toNat < 0x20 then
      "\\u00" ++ String.ofList [hexDigit (c.toNat / 16), hexDigit (c.toNat % 16)]
    else c.toString

/-- A text within quotes. -/
def quoted (text : String) : String :=
  "\"" ++ text.toList.foldl (fun written c => written ++ escape c) "" ++ "\""

/-- A number: its digits, and its scale if it is not written plainly. -/
def numberText (number : JsonNumber) : String :=
  (if number.negative then "-" else "") ++ toString number.digits
    ++ (if number.plain && number.scale == 0 then "" else "e" ++ toString number.scale)

/-- Either layout. The compact one has no levels. -/
inductive Layout where
  | compact
  | indented (level : Nat)

namespace Layout

/-- What starts a line, if the layout has lines. -/
def newline : Layout → String
  | compact => ""
  | indented level => String.ofList ('\n' :: List.replicate (2 * level) ' ')

/-- The layout one level further in. -/
def inner : Layout → Layout
  | compact => compact
  | indented level => indented (level + 1)

/-- What stands between a name and its value. -/
def colon : Layout → String
  | compact => ":"
  | indented _ => ": "

/-- Items between brackets, or the brackets alone. -/
def bracketed (layout : Layout) (opening closing : String) : List String → String
  | [] => opening ++ closing
  | items =>
    opening ++ layout.inner.newline ++ String.intercalate ("," ++ layout.inner.newline) items
      ++ layout.newline ++ closing

end Layout

mutual

/-- Writes a value in a layout. -/
def write (layout : Layout) : Json → String
  | null => "null"
  | bool value => if value then "true" else "false"
  | number value => numberText value
  | text value => quoted (value.getD "")
  | array items => layout.bracketed "[" "]" (writeItems layout.inner items)
  | object members => layout.bracketed "\x7b" "\x7d" (writeMembers layout.inner members)

/-- Writes the items of an array. -/
def writeItems (layout : Layout) : List Json → List String
  | [] => []
  | item :: rest => write layout item :: writeItems layout rest

/-- Writes the members of an object. -/
def writeMembers (layout : Layout) : List (Option String × Json) → List String
  | [] => []
  | (name, value) :: rest =>
    (quoted (name.getD "") ++ layout.colon ++ write layout value) :: writeMembers layout rest

end

/-- A value on one line, without white space. -/
def compact (value : Json) : String :=
  write .compact value

/-- A value with a line for every item. -/
def pretty (value : Json) : String :=
  write (.indented 0) value

end CodeSurvey.Json
