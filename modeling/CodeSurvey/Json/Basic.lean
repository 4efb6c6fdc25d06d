import CodeSurvey.Rounding

/-!
# JSON values

JSON values as they are written: members of an object keep their order and may repeat, numbers keep
their spelling apart as far as it matters, and a text may hold an escape that is half of a surrogate
pair and spells no character.
-/

namespace CodeSurvey

/-- A JSON number: `digits` times ten to the power of `scale`, with a sign. Of its digits those are
kept that fit into 64 bits, from the first on; the others only count for the scale. It is `plain` if
it is written without fraction and exponent. -/
structure JsonNumber where
  negative : Bool
  digits : Nat
  scale : Int
  plain : Bool
deriving Repr, DecidableEq

/-- A JSON value. A quoted text is none where an escape in it spells no character. -/
inductive Json where
  | null
  | bool (value : Bool)
  | number (value : JsonNumber)
  | text (value : Option String)
  | array (items : List Json)
  | object (members : List (Option String × Json))
deriving Repr

namespace JsonNumber

/-- A natural number. -/
def ofNat (n : Nat) : JsonNumber := ⟨false, n, 0, true⟩

/-- The natural number that is written, if the number is one: it has no sign, fraction or exponent,
and all its digits fit. -/
def toNat? (number : JsonNumber) : Option Nat :=
  if number.plain && !number.negative && number.scale == 0 then some number.digits else none

/-- The largest power of ten that is a floating-point number is that of this exponent. -/
def largestScale : Int := 308

/-- From here on a floating-point number is infinite. -/
def infinity : Nat := Nat.pow 2 1024

/-- Whether a number is finite as a floating-point number. It is the product of its digits and a
power of ten, both of which are rounded first. -/
def isFinite (number : JsonNumber) : Bool :=
  if number.digits = 0 || number.scale < 0 then true
  else if largestScale < number.scale then false
  else
    let power : Fraction := .ofNat (Nat.pow 10 number.scale.toNat)
    let product := (Fraction.ofNat number.digits).nearest.multiply power.nearest
    product.numerator < infinity * product.denominator

@[simp] theorem toNat?_ofNat (n : Nat) : (ofNat n).toNat? = some n := rfl

end JsonNumber

namespace Json

/-- A text. -/
def ofString (value : String) : Json := text (some value)

/-- A natural number. -/
def ofNat (n : Nat) : Json := number (JsonNumber.ofNat n)

/-- A list of texts. -/
def ofStrings (values : List String) : Json := array (values.map ofString)

/-- An object with the given members in order. -/
def ofMembers (members : List (String × Json)) : Json :=
  object (members.map fun member => (some member.1, member.2))

/-- A value or, for none, null. -/
def ofOption : Option Json → Json
  | none => null
  | some value => value

/-- The deepest nesting of arrays and objects that a value may have where it is kept. -/
def depthLimit : Nat := 127

/-- Whether a value is nested no deeper than `depth`, spells characters by all its texts and holds
finite numbers only. Values that are read and kept have to be sound; values that are passed over
need not be. -/
def isSoundWithin (depth : Nat) : Json → Bool
  | null => true
  | bool _ => true
  | number value => value.isFinite
  | text value => value.isSome
  | array items =>
    match depth with
    | 0 => false
    | depth + 1 => items.all (isSoundWithin depth)
  | object members =>
    match depth with
    | 0 => false
    | depth + 1 => members.all fun member => member.1.isSome && isSoundWithin depth member.2
termination_by depth

end Json

end CodeSurvey
