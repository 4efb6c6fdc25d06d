import CodeSurvey.Json.Token

/-!
# Reading JSON

A JSON text is read token by token, with the arrays and objects that are still open on a list, the
innermost first. Nesting has no limit here: whoever keeps a value checks that it is sound.
-/

namespace CodeSurvey.Json

/-- An array or object that is still open: what it holds so far, the last first. -/
inductive Opened where
  | array (items : List Json)
  | object (members : List (Option String × Json))
  /-- An object with a name that waits for its value. -/
  | member (name : Option String) (members : List (Option String × Json))

/-- What may come next. -/
inductive Expected where
  | value
  /-- A value, or the end of an empty array. -/
  | valueOrEnd
  | name
  /-- A name, or the end of an empty object. -/
  | nameOrEnd
  | colon
  /-- A comma or the end of the innermost array or object. -/
  | separator
  /-- Nothing: the whole value has been read. -/
  | done (value : Json)

/-- The state of a reader. -/
structure Reader where
  opened : List Opened
  expected : Expected

namespace Reader

/-- Nothing has been read. -/
def start : Reader := ⟨[], .value⟩

/-- Puts a complete value where it belongs. -/
def place (value : Json) : List Opened → Option Reader
  | [] => some ⟨[], .done value⟩
  | .array items :: outer => some ⟨.array (value :: items) :: outer, .separator⟩
  | .member name members :: outer => some ⟨.object ((name, value) :: members) :: outer, .separator⟩
  | .object _ :: _ => none

/-- Reads a token where a value may start. -/
def stepValue (opened : List Opened) : JsonToken → Option Reader
  | .null => place .null opened
  | .bool value => place (.bool value) opened
  | .number value => place (.number value) opened
  | .text value => place (.text value) opened
  | .openArray => some ⟨.array [] :: opened, .valueOrEnd⟩
  | .openObject => some ⟨.object [] :: opened, .nameOrEnd⟩
  | _ => none

/-- Reads a token that may end the innermost array or object. -/
def stepEnd : List Opened → JsonToken → Option Reader
  | .array items :: outer, .closeArray => place (.array items.reverse) outer
  | .object members :: outer, .closeObject => place (.object members.reverse) outer
  | _, _ => none

/-- Reads a token where a name has to stand. -/
def stepName : List Opened → JsonToken → Option Reader
  | .object members :: outer, .text name => some ⟨.member name members :: outer, .colon⟩
  | _, _ => none

/-- Reads a token. -/
def step (reader : Reader) (token : JsonToken) : Option Reader :=
  match reader.expected, token with
  | .value, token => stepValue reader.opened token
  | .valueOrEnd, .closeArray => stepEnd reader.opened .closeArray
  | .valueOrEnd, token => stepValue reader.opened token
  | .name, token => stepName reader.opened token
  | .nameOrEnd, .closeObject => stepEnd reader.opened .closeObject
  | .nameOrEnd, token => stepName reader.opened token
  | .colon, .colon => some ⟨reader.opened, .value⟩
  | .separator, .comma =>
    match reader.opened with
    | .array _ :: _ => some ⟨reader.opened, .value⟩
    | .object _ :: _ => some ⟨reader.opened, .name⟩
    | _ => none
  | .separator, token => stepEnd reader.opened token
  | _, _ => none

/-- The value, if a whole one has been read. -/
def value? (reader : Reader) : Option Json :=
  match reader.expected with
  | .done value => some value
  | _ => none

end Reader

/-- The value that a JSON text spells, if it spells one. -/
def parse? (source : String) : Option Json := do
  let tokens ← JsonToken.tokens source
  let reader ← tokens.foldlM Reader.step Reader.start
  reader.value?

end CodeSurvey.Json
