import CodeSurvey.Brace.Pairs
import CodeSurvey.Pattern.Source
import CodeSurvey.Text.NormalStart

/-!
# Blocks

The functions, methods and classes of a source text. A block starts where its header does and goes
on to the brace that closes the first one behind that place. Its text is kept in normal form, cut
to a number of characters.
-/

namespace CodeSurvey

open Text (Cursor)

/-- What kind of block a header opens. -/
inductive BlockKind where
  | function
  | method
  | classBody
deriving Repr, DecidableEq

namespace BlockKind

/-- The kinds in the order in which blocks are listed. -/
def all : List BlockKind := [function, method, classBody]

/-- The word for a kind. -/
def word : BlockKind → String
  | function => "function"
  | method => "method"
  | classBody => "class"

/-- The kind with a given word. -/
def ofWord? (text : String) : Option BlockKind :=
  all.find? fun kind => kind.word == text

/-- The place of a kind among all, which is also the order of kinds. -/
def rank : BlockKind → Nat
  | function => 0
  | method => 1
  | classBody => 2

/-- Which of the blocks around a place gives it its scope: the smallest number wins. -/
def priority : BlockKind → Nat
  | method => 0
  | function => 1
  | classBody => 2

/-- The pattern of a header. -/
def header : BlockKind → Pattern
  | function => Pattern.functionHeader
  | method => Pattern.methodHeader
  | classBody => Pattern.classHeader

end BlockKind

/-- A named block of source text. -/
structure Block where
  name : String
  kind : BlockKind
  /-- The text in normal form, cut to the length that was asked for. -/
  normalText : String
  span : Span
deriving Repr, DecidableEq

namespace Block

/-- The block that a header opens which stands at a place, where `span` is that of the block. -/
def ofHeader (limit : Nat) (kind : BlockKind) (header : Match) (place : Cursor) (span : Span) :
    Option Block :=
  header.group.map fun name =>
    ⟨name, kind, String.ofList (Text.normalUpTo limit (span.last + 1) place), span⟩

/-- The blocks of one kind, in the order of their headers. -/
def ofKind (limit : Nat) (text : List Char) (kind : BlockKind) : List Block :=
  let headers := kind.header.findAll text
  let starts := headers.map Match.start
  let places := (Cursor.seekAll text starts).zip (Brace.spans text starts)
  (headers.zip places).filterMap fun (header, place, span) =>
    place.bind fun place => span.bind (ofHeader limit kind header place)

/-- The blocks of a source text: functions, methods and classes. -/
def extract (limit : Nat) (text : List Char) : List Block :=
  BlockKind.all.flatMap (ofKind limit text)

/-- The blocks of one kind, header by header. -/
theorem ofKind_eq_filterMap (limit : Nat) (text : List Char) (kind : BlockKind) :
    ofKind limit text kind =
      (kind.header.findAll text).filterMap fun header =>
        (Cursor.seek text header.start).bind fun place =>
          (Brace.blockSpan text header.start).bind (ofHeader limit kind header place) := by
  simp only [ofKind, Cursor.seekAll_eq_map, Brace.spans_eq_map, List.map_map]
  induction kind.header.findAll text with
  | nil => rfl
  | cons header rest ih =>
    simp only [List.map_cons, List.zip_cons_cons, List.filterMap_cons, Function.comp_apply, ih]

/-- The text of a block is the normal form of the source text of its span, cut to the limit. -/
theorem normalText_of_ofHeader {limit : Nat} {kind : BlockKind} {header : Match} {place : Cursor}
    {span : Span} {block : Block} (h : ofHeader limit kind header place span = some block) :
    block.normalText =
      String.ofList (Text.truncate limit (Text.normal (place.upTo (block.span.last + 1)))) := by
  obtain ⟨name, _, rfl⟩ := Option.map_eq_some_iff.1 h
  rw [Text.normalUpTo_eq_truncate]

theorem kind_of_mem_ofKind {limit : Nat} {text : List Char} {kind : BlockKind} {block : Block}
    (h : block ∈ ofKind limit text kind) : block.kind = kind := by
  simp only [ofKind_eq_filterMap, List.mem_filterMap, ofHeader, Option.bind_eq_some_iff,
    Option.map_eq_some_iff] at h
  obtain ⟨header, _, place, _, span, _, name, _, rfl⟩ := h
  rfl

end Block

end CodeSurvey
