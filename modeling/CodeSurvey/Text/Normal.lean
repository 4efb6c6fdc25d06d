import CodeSurvey.Text.Blank

/-!
# Normal form of source text

The form under which two pieces of source text are compared: without line comments, with double
quotes only, every stretch of white space one space, and none at the ends. Strings are not
recognised, so two slashes start a comment inside them too.
-/

namespace CodeSurvey.Text

/-- Drops comments from what is left of a text: a comment goes from two slashes to the end of its
line. `inside` tells whether the text starts within one; `done` is reversed. -/
def dropCommentsFrom : (inside : Bool) → (done : List Char) → List Char → List Char
  | _, done, [] => done.reverse
  | true, done, c :: rest =>
    if c = '\r' || c = '\n' then dropCommentsFrom false (c :: done) rest
    else dropCommentsFrom true done rest
  | false, done, c :: rest =>
    if c = '/' && rest.head? = some '/' then dropCommentsFrom true done rest
    else dropCommentsFrom false (c :: done) rest

/-- A text without its line comments. -/
def dropComments (text : List Char) : List Char :=
  dropCommentsFrom false [] text

/-- A double quote for a single one, and every other character for itself. -/
def doubleQuote (c : Char) : Char :=
  if c = '\x27' then '"' else c

/-- Writes one space for every stretch of white space in what is left of a text. `inside` tells
whether such a stretch has been written already; `done` is reversed. -/
def squeezeFrom : (inside : Bool) → (done : List Char) → List Char → List Char
  | _, done, [] => done.reverse
  | inside, done, c :: rest =>
    if isBlank c then squeezeFrom true (if inside then done else ' ' :: done) rest
    else squeezeFrom false (c :: done) rest

/-- A text with one space for every stretch of white space. -/
def squeeze (text : List Char) : List Char :=
  squeezeFrom false [] text

/-- The normal form of a piece of source text. -/
def normal (text : List Char) : List Char :=
  trim (squeeze ((dropComments text).map doubleQuote))

/-- The first `limit` characters of a text. -/
def truncate (limit : Nat) (text : List Char) : List Char :=
  text.take limit

end CodeSurvey.Text
