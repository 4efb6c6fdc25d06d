/-!
# Rounding

Binary floating-point numbers of fifty-three bits, as fractions of natural numbers, without bounds
on their exponents. Every result is the nearest such number; of two nearest ones the even one is
taken.
-/

namespace CodeSurvey

/-- The quotient of two natural numbers, rounded to the nearest one, to the even one of two. -/
def roundQuotient (numerator denominator : Nat) : Nat :=
  let quotient := numerator / denominator
  let twice := 2 * (numerator % denominator)
  if twice < denominator then quotient
  else if denominator < twice then quotient + 1
  else if quotient % 2 = 0 then quotient
  else quotient + 1

/-- A fraction of natural numbers. -/
structure Fraction where
  numerator : Nat
  denominator : Nat
deriving Repr, DecidableEq

namespace Fraction

/-- A natural number. -/
def ofNat (n : Nat) : Fraction := ⟨n, 1⟩

/-- How many bits a significand has. -/
def precision : Nat := 53

/-- A power of two. -/
def power (exponent : Nat) : Nat := Nat.pow 2 exponent

/-- The nearest number with a significand of fifty-three bits, or zero. Scaling by a power of two
brings the quotient to fifty-three bits, give or take one; a quotient with one bit more is halved.
-/
def nearest (x : Fraction) : Fraction :=
  if x.numerator = 0 || x.denominator = 0 then ⟨0, 1⟩
  else
    let up := precision + x.denominator.log2 - x.numerator.log2
    let down := x.numerator.log2 - x.denominator.log2 - precision
    let numerator := x.numerator * power up
    let denominator := x.denominator * power down
    if numerator / denominator < power precision then
      ⟨roundQuotient numerator denominator * power down, power up⟩
    else ⟨roundQuotient numerator (2 * denominator) * power (down + 1), power up⟩

/-- The rounded quotient of two numbers. -/
def divide (x y : Fraction) : Fraction :=
  nearest ⟨x.numerator * y.denominator, x.denominator * y.numerator⟩

/-- The rounded product of two numbers. -/
def multiply (x y : Fraction) : Fraction :=
  nearest ⟨x.numerator * y.numerator, x.denominator * y.denominator⟩

end Fraction

/-- A rounded quotient is at most half a unit away. -/
theorem roundQuotient_bounds {numerator denominator : Nat} (h : 0 < denominator) :
    2 * numerator ≤ 2 * (roundQuotient numerator denominator * denominator) + denominator
      ∧ 2 * (roundQuotient numerator denominator * denominator) ≤ 2 * numerator + denominator := by
  have hdiv := Nat.div_add_mod numerator denominator
  have hmod := Nat.mod_lt numerator h
  rw [Nat.mul_comm] at hdiv
  have hsucc : (numerator / denominator + 1) * denominator
      = numerator / denominator * denominator + denominator := by
    rw [Nat.add_mul, Nat.one_mul]
  unfold roundQuotient
  simp only
  split
  · omega
  · split
    · omega
    · split <;> omega

end CodeSurvey
