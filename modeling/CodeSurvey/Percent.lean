import CodeSurvey.Rounding

/-!
# Percentages

The share of one count in another, computed in binary floating-point numbers of fifty-three bits and
written with six decimals. Each of the four steps (two counts, quotient, product with a hundred) is
rounded once; the text is rounded once more, to the nearest millionth.
-/

namespace CodeSurvey

namespace Fraction

/-- A number with six decimals. -/
def sixDecimals (x : Fraction) : String :=
  let millionths := roundQuotient (x.numerator * 1000000) x.denominator
  let digits := toString (millionths % 1000000)
  toString (millionths / 1000000) ++ "."
    ++ String.ofList (List.replicate (6 - digits.length) '0') ++ digits

end Fraction

/-- The share of `part` in `whole` as a percentage; a part of nothing is all of it. -/
def percentage (part whole : Nat) : Fraction :=
  if whole = 0 then .ofNat 100
  else ((Fraction.ofNat part).nearest.divide (Fraction.ofNat whole).nearest).multiply (.ofNat 100)

end CodeSurvey
