/-!
# Finite binary64 numbers

The fractional numbers of filters and rows are the finite numbers of the IEEE 754 format binary64.
Here such a number is its sign, a whole significand and a power of two, and all arithmetic is exact
arithmetic on natural numbers followed by one rounding. Nothing depends on the machine's own
floating-point unit, so every result can be computed inside a proof.

* `round` is the number nearest to a given fraction, a tie going to the even significand; there is
  none when the fraction is too large for the format.
* `mul` and `div` round the exact product and quotient.
* `ofBits64?` and `ofBits32?` read the interchange formats; infinities and not-a-number have no
  counterpart.
-/

namespace LinkQuery

/-- A finite binary64 number: `±significand * 2 ^ exponent`. The numbers made by `round` are in
lowest form: `exponent = -1074`, or the significand has all of its 53 bits. -/
structure Binary64 where
  negative : Bool
  significand : Nat
  exponent : Int
  deriving DecidableEq, Repr

namespace Binary64

/-- The exponent of the smallest positive number. -/
def minExponent : Int := -1074

/-- The exponent of the largest number. -/
def maxExponent : Int := 971

/-- One more than the largest significand: `2 ^ 53`. -/
def significandBound : Nat := 9007199254740992

/-- Positive zero. -/
def zero : Binary64 := ⟨false, 0, minExponent⟩

/-- The number of opposite sign. -/
def neg (x : Binary64) : Binary64 := { x with negative := !x.negative }

/-- Both zeros are zero. -/
def isZero (x : Binary64) : Bool := x.significand == 0

/-- Whether two numbers are numerically equal: the two zeros are, although they differ in sign. -/
def same (x y : Binary64) : Bool := x == y || (x.isZero && y.isZero)

/-- The whole number nearest to `num / den`, a tie going to the even one. -/
def roundToEven (num den : Nat) : Nat :=
  let quotient := num / den
  let twice := 2 * (num % den)
  if twice < den ∨ (twice = den ∧ quotient % 2 = 0) then quotient else quotient + 1

/-- The power of two `2 ^ k` as numerator and denominator. -/
def twoPow (k : Int) : Nat × Nat := (Nat.pow 2 k.toNat, Nat.pow 2 (-k).toNat)

/-- The largest `k` with `2 ^ k ≤ num / den`, for positive `num` and `den`. -/
def floorLog2 (num den : Nat) : Int :=
  -- The leading bits alone determine the power up to one.
  let guess : Int := (Nat.log2 num : Int) - (Nat.log2 den : Int)
  let (up, down) := twoPow guess
  if den * up ≤ num * down then guess else guess - 1

/-- The number nearest to `num / den`, if the format reaches that far. -/
def round (negative : Bool) (num den : Nat) : Option Binary64 :=
  if num = 0 then some { zero with negative := negative }
  else
    -- The last of the 53 bits, unless the format ends before it.
    let exponent := max (floorLog2 num den - 52) minExponent
    let (up, down) := twoPow exponent
    let significand := roundToEven (num * down) (den * up)
    -- Rounding up may carry into one more bit.
    let (significand, exponent) :=
      if significand = significandBound then (significand / 2, exponent + 1)
      else (significand, exponent)
    if exponent ≤ maxExponent then some ⟨negative, significand, exponent⟩ else none

/-- The number nearest to `m * 2 ^ e`. -/
def ofScaled (negative : Bool) (m : Nat) (e : Int) : Option Binary64 :=
  round negative (m * (twoPow e).1) (twoPow e).2

/-- The number nearest to a natural number. -/
def ofNat (n : Nat) : Option Binary64 := round false n 1

/-- The number nearest to an integer. -/
def ofInt (i : Int) : Option Binary64 := round (i < 0) i.natAbs 1

/-- The rounded product. -/
def mul (x y : Binary64) : Option Binary64 :=
  ofScaled (x.negative != y.negative) (x.significand * y.significand) (x.exponent + y.exponent)

/-- The rounded quotient by a number that is not zero. -/
def div (x y : Binary64) : Option Binary64 :=
  let (up, down) := twoPow (x.exponent - y.exponent)
  round (x.negative != y.negative) (x.significand * up) (y.significand * down)

/-! ### Interchange formats -/

/-- The finite number with the given bits in an interchange format: from the highest bit down a
sign, an exponent field and a fraction, of the given widths. The exponent field of subnormal numbers
is zero and stands for the exponent `low`; a field of all ones marks what is not a finite number. -/
def ofBits? (exponentWidth fractionWidth : Nat) (low : Int) (bits : Nat) : Option Binary64 :=
  let part (start width : Nat) : Nat := bits / Nat.pow 2 start % Nat.pow 2 width
  let negative := part (fractionWidth + exponentWidth) 1 == 1
  let field := part fractionWidth exponentWidth
  let fraction := part 0 fractionWidth
  if field = Nat.pow 2 exponentWidth - 1 then none
  else if field = 0 then ofScaled negative fraction low
  else ofScaled negative (Nat.pow 2 fractionWidth + fraction) (low + (field : Int) - 1)

/-- The finite number with the given 64 bits. -/
def ofBits64? (bits : Nat) : Option Binary64 := ofBits? 11 52 (-1074) bits

/-- The finite number of the narrower format binary32 with the given 32 bits; widening is exact. -/
def ofBits32? (bits : Nat) : Option Binary64 := ofBits? 8 23 (-149) bits

end Binary64

end LinkQuery
