/-!
# Numbers of 64 bits

Offsets, sizes and the integers of filters are bounded by what 64 bits hold, with or without a sign.
Here are the bounds; the arithmetic itself is on unbounded numbers.
-/

namespace LinkQuery

/-- The largest number of 64 bits without a sign. -/
def maxWord : Nat := 18446744073709551615

/-- The least number of 64 bits with a sign. -/
def minSigned : Int := -9223372036854775808

/-- The largest number of 64 bits with a sign. -/
def maxSigned : Int := 9223372036854775807

/-- Whether a number fits into 64 bits with a sign. -/
def fitsSigned (i : Int) : Bool := minSigned ≤ i && i ≤ maxSigned

theorem fitsSigned_iff {i : Int} : fitsSigned i ↔ minSigned ≤ i ∧ i ≤ maxSigned := by
  simp [fitsSigned]

end LinkQuery
