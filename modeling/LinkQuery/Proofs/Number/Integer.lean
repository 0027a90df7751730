import LinkQuery.Number.Word
import LinkQuery.Proofs.Number.Rounding

/-!
# Integers as floats

A float has 53 bits. Of the integers with 64 bits, with or without a sign, those in the upper half
of the numbers without a sign are rounded to a multiple of 2048, of which there is a float for each
(`Binary64.ofMultiple`).

* `Binary64.ofInt_eq`: what an integer in the upper half is rounded to.
* `Binary64.toRat_ofMultiple`, `Binary64.ofMultiple_inj`: which number this is, and that it is
  another one for another multiple.
-/

namespace LinkQuery

/-- Whether a number has 64 bits, with or without a sign. -/
def IsWord (z : Int) : Prop := minSigned ≤ z ∧ z ≤ maxWord

instance (z : Int) : Decidable (IsWord z) := inferInstanceAs (Decidable (_ ∧ _))

namespace Binary64

/-- The value of a number. -/
def toRat (x : Binary64) : ℚ := if x.negative then -x.magnitude else x.magnitude

/-- Rounding changes everything but multiples. -/
theorem mul_roundToEven_eq_iff (num : Nat) {den : Nat} (hden : 0 < den) :
    den * roundToEven num den = num ↔ den ∣ num := by
  constructor
  · intro heq
    exact ⟨_, heq.symm⟩
  · rintro ⟨k, rfl⟩
    -- a multiple has no remainder that could be rounded
    have hround : roundToEven (den * k) den = k := by
      rw [roundToEven, Nat.mul_mod_right, Nat.mul_div_cancel_left k hden]
      exact if_pos (.inl hden)
    rw [hround]

/-- The logarithm of an integer is where the powers of two enclose it. -/
theorem floorLog2_one_eq {n k : Nat} (hlow : 2 ^ k ≤ n) (hhigh : n < 2 ^ (k + 1)) :
    floorLog2 n 1 = k := by
  have hpos : 0 < n := Nat.lt_of_lt_of_le (Nat.pow_pos (by decide)) hlow
  obtain ⟨hfloor, hnext⟩ := floorLog2_spec hpos Nat.one_pos
  rw [Nat.cast_one, div_one] at hfloor hnext
  -- the bounds of the logarithm are stated in the rationals
  have hlow' : (2 : ℚ) ^ (k : Int) ≤ n := by
    rw [zpow_natCast]
    exact_mod_cast hlow
  have hhigh' : (n : ℚ) < 2 ^ ((k : Int) + 1) := by
    rw [← Nat.cast_succ, zpow_natCast]
    exact_mod_cast hhigh
  have hle : floorLog2 n 1 < k + 1 :=
    (zpow_lt_zpow_iff_right₀ (by norm_num)).1 (lt_of_le_of_lt hfloor hhigh')
  have hge : (k : Int) < floorLog2 n 1 + 1 :=
    (zpow_lt_zpow_iff_right₀ (by norm_num)).1 (lt_of_le_of_lt hlow' hnext)
  omega

/-- A multiple of 2048 in the upper half, which may be the first number beyond. -/
def ofMultiple (k : Nat) : Binary64 :=
  if k = significandBound then ⟨false, significandBound / 2, 12⟩ else ⟨false, k, 11⟩

/-- The float of a multiple has the value of the multiple. -/
theorem toRat_ofMultiple (k : Nat) : (ofMultiple k).toRat = 2048 * k := by
  unfold ofMultiple
  split
  -- rounded up to the bound, the significand has one digit more
  next h =>
    rw [h, significandBound]
    norm_num [toRat, magnitude]
  next =>
    show (k : ℚ) * 2 ^ (11 : Int) = 2048 * k
    norm_num [mul_comm]

/-- Different multiples have different floats. -/
theorem ofMultiple_inj {k l : Nat} : ofMultiple k = ofMultiple l ↔ k = l := by
  refine ⟨fun h => ?_, fun h => h ▸ rfl⟩
  have hvalue := congrArg toRat h
  rw [toRat_ofMultiple, toRat_ofMultiple] at hvalue
  exact Nat.cast_injective (mul_left_cancel₀ (by norm_num) hvalue)

/-- **What an integer in the upper half is rounded to**: the nearest multiple of 2048, of two the
even one. -/
theorem ofInt_eq {z : Int} (hlow : maxSigned < z) (hhigh : z ≤ maxWord) :
    ofInt z = some (ofMultiple (roundToEven z.toNat 2048)) := by
  have hnonneg : 0 ≤ z := Int.le_trans (by decide) (Int.le_of_lt hlow)
  obtain ⟨n, rfl⟩ := Int.eq_ofNat_of_zero_le hnonneg
  have hfloor : 2 ^ 63 ≤ n ∧ n < 2 ^ 64 := by
    rw [maxSigned] at hlow
    rw [maxWord] at hhigh
    omega
  -- a number of 64 bits has 53 of them in its significand
  have hlast : lastPlace n 1 = 11 := by
    rw [lastPlace, floorLog2_one_eq hfloor.1 hfloor.2]
    rfl
  have hplace : inLastPlace n 1 = roundToEven n 2048 := by
    rw [inLastPlace, hlast]
    show roundToEven (n * 1) (1 * 2048) = roundToEven n 2048
    rw [Nat.mul_one]
  have hsign : ¬ (n : Int) < 0 := Int.not_lt.2 hnonneg
  rw [ofInt, decide_eq_false hsign, Int.natAbs_natCast, Int.toNat_natCast,
    round_eq false (by omega), hlast, hplace, ofMultiple]
  split
  next => rfl
  next => rfl

end Binary64

end LinkQuery
