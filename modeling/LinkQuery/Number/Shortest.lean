import LinkQuery.Number.Binary64

/-!
# The shortest decimal of a binary64 number

A number is written with the fewest digits that read back as the same number. The reals that round
to a given number form an interval around it, and the decimals with the fewest digits are those on
the coarsest grid of multiples of a power of ten that has a point in that interval. Of two such
points the nearer one is taken, and of two equally near ones the even one.

* `Binary64.shortest` is that decimal, as digits and a power of ten.
-/

namespace LinkQuery.Binary64

/-- The interval of reals that round to a positive number, in units of a quarter of its last place:
lower end, the number itself, upper end. The lower half-gap is smaller at a power of two, where the
exponent changes. -/
def roundingInterval (x : Binary64) : Nat × Nat × Nat :=
  let value := 4 * x.significand
  let narrow := x.significand = significandBound / 2 ∧ minExponent < x.exponent
  (if narrow then value - 1 else value - 2, value, value + 2)

/-- The multiple of `10 ^ power` to write for the positive number `x`, as a factor of that power:
one of its two neighbours on this grid, if one of them rounds to `x`. -/
def onGrid (x : Binary64) (power : Int) : Option Nat :=
  let (low, value, high) := x.roundingInterval
  -- In a common unit, `value * scale` is the number and `d * unit` a point of the grid.
  let (up, down) := twoPow (x.exponent - 2)
  let scale := up * Nat.pow 10 (-power).toNat
  let unit := down * Nat.pow 10 power.toNat
  -- The ends of the interval round to an even significand.
  let inside (d : Nat) : Bool :=
    if x.significand % 2 = 0 then low * scale ≤ d * unit ∧ d * unit ≤ high * scale
    else low * scale < d * unit ∧ d * unit < high * scale
  -- The neighbours on the grid are `d` and `d + 1`.
  let d := value * scale / unit
  let fromBelow := value * scale - d * unit
  let fromAbove := (d + 1) * unit - value * scale
  match inside d, inside (d + 1) with
  | true, true =>
    if fromBelow < fromAbove ∨ (fromBelow = fromAbove ∧ d % 2 = 0) then some d else some (d + 1)
  | true, false => some d
  | false, true => some (d + 1)
  | false, false => none

/-- The finest grid to look at: every binary64 number lies on it to within its interval. -/
def finestPower : Int := -343

/-- Looks at the grids from `10 ^ (finestPower + steps)` down to the finest one, and takes the first
point found. -/
def searchGrids (x : Binary64) : Nat → Nat × Int
  | 0 => ((x.onGrid finestPower).getD 0, finestPower)
  | steps + 1 =>
    let power := finestPower + (steps + 1 : Nat)
    match x.onGrid power with
    | some digits => (digits, power)
    | none => searchGrids x steps

/-- The shortest decimal `digits * 10 ^ power` that reads back as the positive number `x`. -/
def shortest (x : Binary64) : Nat × Int := x.searchGrids 652

end LinkQuery.Binary64
