import LinkQuery.Document
import LinkQuery.Number.Word

/-!
# Number literals

A number literal is read in two steps: into its digits (`Literal.ofChars?`), which settles whether
it is well formed, and into a number (`Literal.value`), which settles what it denotes.

A literal without fraction and exponent is an integer if it lies between `-2 ^ 63` and `2 ^ 64 - 1`;
the literal `-0` is the negative zero, which is no integer. Any other literal is a binary64 number,
found as follows. As many leading digits as fit into 64 bits form the significand, digits beyond
them count only for the magnitude, and the significand is multiplied or divided by a power of ten.
The significand, the power and the result are each rounded to the nearest number. A result beyond
the largest number is out of range.
-/

namespace LinkQuery.Json

/-- The digits of a well-formed number literal. -/
structure Literal where
  negative : Bool
  whole : List Nat
  fraction : List Nat
  /-- The digits after the mark of the exponent, and whether they count downwards. -/
  exponent : Option (Bool × List Nat)
  deriving DecidableEq, Repr

namespace Literal

/-- The leading decimal digits of `cs`, and what follows them. -/
def spanDigits (cs : List Char) : List Nat × List Char :=
  ((cs.takeWhile Char.isDigit).map fun c => c.toNat - '0'.toNat, cs.dropWhile Char.isDigit)

/-- The whole part: a zero alone, or digits that do not start with a zero. -/
def whole? (cs : List Char) : Option (List Nat × List Char) :=
  match spanDigits cs with
  | ([], _) => none
  | (0 :: _ :: _, _) => none
  | (digits, rest) => some (digits, rest)

/-- The fraction: absent, or a point and at least one digit. -/
def fraction? : List Char → Option (List Nat × List Char)
  | '.' :: cs =>
    match spanDigits cs with
    | ([], _) => none
    | (digits, rest) => some (digits, rest)
  | cs => some ([], cs)

/-- The digits of an exponent, at least one. -/
def exponentDigits? (down : Bool) (cs : List Char) : Option (Option (Bool × List Nat)) :=
  match spanDigits cs with
  | ([], _) => none
  | (digits, []) => some (some (down, digits))
  | (_, _ :: _) => none

/-- The exponent, with which a literal ends: absent, or `e`, a sign if there is one, and digits. -/
def exponent? : List Char → Option (Option (Bool × List Nat))
  | [] => some none
  | e :: cs =>
    if e = 'e' ∨ e = 'E' then
      match cs with
      | '+' :: rest => exponentDigits? false rest
      | '-' :: rest => exponentDigits? true rest
      | rest => exponentDigits? false rest
    else none

/-- The literal after its sign. -/
def unsigned? (negative : Bool) (cs : List Char) : Option Literal := do
  let (whole, cs) ← whole? cs
  let (fraction, cs) ← fraction? cs
  let exponent ← exponent? cs
  some ⟨negative, whole, fraction, exponent⟩

/-- The literal with the given characters, if they form one. -/
def ofChars? : List Char → Option Literal
  | '-' :: cs => unsigned? true cs
  | cs => unsigned? false cs

/-! ### The number denoted -/

/-- Extends the significand `n` by digits as long as it fits into 64 bits; the digits that do not
fit are left over. -/
def absorb (n : Nat) : List Nat → Nat × List Nat
  | [] => (n, [])
  | d :: ds => if n * 10 + d ≤ maxWord then absorb (n * 10 + d) ds else (n, d :: ds)

/-- The number with the given decimal digits. -/
def ofDigits (digits : List Nat) : Nat := digits.foldl (fun n d => n * 10 + d) 0

/-- The power `10 ^ k`, rounded. -/
def tenPow (k : Nat) : Option Binary64 := Binary64.ofNat (Nat.pow 10 k)

/-- `x / 10 ^ k`. -/
def divideByPow (x : Binary64) (k : Nat) : Option Binary64 := (tenPow k).bind fun p => x.div p

/-- `x * 10 ^ k`. -/
def multiplyByPow (x : Binary64) (k : Nat) : Option Binary64 := (tenPow k).bind fun p => x.mul p

/-- `x * 10 ^ e`. A power beyond `10 ^ 308` exceeds the format: it stays out of range upwards, and
is divided out in two steps downwards. -/
def scale (x : Binary64) (e : Int) : Option Binary64 :=
  if x.isZero then some x
  else if 308 < e then none
  else if 0 ≤ e then multiplyByPow x e.toNat
  else if -308 ≤ e then divideByPow x (-e).toNat
  else if -616 ≤ e then (divideByPow x 308).bind fun y => divideByPow y (-e - 308).toNat
  else some Binary64.zero

/-- The power of ten that the exponent stands for. -/
def power (l : Literal) : Int :=
  match l.exponent with
  | none => 0
  | some (down, digits) => if down then -(ofDigits digits : Int) else ofDigits digits

/-- The literal as a binary64 number. -/
def toBinary64 (l : Literal) : Option Binary64 := do
  let (n, skipped) := absorb 0 l.whole
  let (n, ignored) := absorb n l.fraction
  let places : Int := (l.fraction.length : Int) - ignored.length
  let x ← scale (← Binary64.ofNat n) (skipped.length - places + l.power)
  some (if l.negative then x.neg else x)

/-- The number that a literal denotes. -/
def value (l : Literal) : Document :=
  let n := ofDigits l.whole
  if l.fraction = [] ∧ l.exponent = none then
    if !l.negative ∧ n ≤ maxWord then .integer n
    else if l.negative ∧ 0 < n ∧ minSigned ≤ -n then .integer (-n)
    else .real l.toBinary64
  else .real l.toBinary64

end Literal

end LinkQuery.Json
