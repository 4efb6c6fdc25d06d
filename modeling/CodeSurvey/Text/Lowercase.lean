import CodeSurvey.Text.CaseTable

/-!
# Lower case

Full lower-casing of a text: every character by its own table entry, the capital I with a dot by two
characters, and the capital sigma by its final form where it ends a word. Comparisons that ignore
ASCII case only are here too.
-/

namespace CodeSurvey.Text

/-- Whether a code point lies in one of the given ranges. -/
def inRanges (ranges : List (Nat × Nat)) (c : Char) : Bool :=
  ranges.any fun range => range.1 ≤ c.toNat && c.toNat ≤ range.2

/-- Holds for letters that have, or belong to, a case. -/
def isCased (c : Char) : Bool :=
  inRanges casedRanges c

/-- Holds for the marks that are passed over when one looks for the next letter of a word. -/
def isCaseIgnorable (c : Char) : Bool :=
  inRanges caseIgnorableRanges c

/-- The lower-case form of a character taken by itself. -/
def lowerChar (c : Char) : List Char :=
  if c.toNat < 0x80 then [c.toLower]
  else if c.toNat == 0x130 then ['i', Char.ofNat 0x307]
  else
    match lowerRanges.find? (·.covers c.toNat) with
    | some range => [Char.ofNat (range.lower c.toNat)]
    | none => [c]

/-- Whether the next letter, marks passed over, is a cased one. -/
def meetsCased (text : List Char) : Bool :=
  match text.dropWhile isCaseIgnorable with
  | [] => false
  | c :: _ => isCased c

/-- The lower-case form of a capital sigma between two texts, the first of them reversed: final
where a word ends with it. -/
def lowerSigma (before after : List Char) : Char :=
  if meetsCased before && !meetsCased after then Char.ofNat 0x3C2 else Char.ofNat 0x3C3

/-- Lower-cases what is left of a text. `before` holds the characters already passed, the last
first, and `done` the lower-case forms already written, the last first. -/
def lowerFrom : (before done : List Char) → List Char → List Char
  | _, done, [] => done.reverse
  | before, done, c :: rest =>
    let image := if c.toNat == 0x3A3 then [lowerSigma before rest] else lowerChar c
    lowerFrom (c :: before) (image.reverse ++ done) rest

/-- The lower-case form of a text. -/
def lower (text : String) : String :=
  String.ofList (lowerFrom [] [] text.toList)

/-- The form under which texts are compared when only ASCII case is ignored. -/
def asciiFold (text : String) : List Char :=
  text.toList.map Char.toLower

/-- Whether two texts are equal but for the case of ASCII letters. -/
def equalIgnoringAsciiCase (a b : String) : Bool :=
  asciiFold a == asciiFold b

end CodeSurvey.Text
