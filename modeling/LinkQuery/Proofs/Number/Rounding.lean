import Mathlib.Algebra.Order.Field.Power
import Mathlib.Tactic.Linarith
import Mathlib.Tactic.Positivity
import Mathlib.Tactic.Ring
import Mathlib.Tactic.FieldSimp
import Mathlib.Tactic.NormNum
import Mathlib.Data.Rat.Cast.Order
import LinkQuery.Number.Binary64

/-!
# The range of rounded numbers

Rounding stays in the format: what `round` yields has a significand of 53 bits at most and an
exponent between the ends. It fails only for what is too large, and its error is at most one part in
`2 ^ 53` where the number is not subnormal.

* `Binary64.IsInRange` holds of the numbers of the format, `isInRange_of_round` of what is rounded.
* `Binary64.isSome_round`: a fraction below `roundingLimit` is rounded.
* `Binary64.magnitude_of_round` is the bound on the error.
-/

namespace LinkQuery.Binary64

/-- Whether a number is one of the format. -/
def IsInRange (x : Binary64) : Prop :=
  x.significand < significandBound ∧ minExponent ≤ x.exponent ∧ x.exponent ≤ maxExponent

instance (x : Binary64) : Decidable x.IsInRange := inferInstanceAs (Decidable (_ ∧ _ ∧ _))

theorem isInRange_zero : zero.IsInRange := by decide

/-- The absolute value of a number. -/
def magnitude (x : Binary64) : ℚ := x.significand * 2 ^ x.exponent

/-! ### Powers of two -/

theorem twoPow_fst_pos (k : Int) : 0 < (twoPow k).1 := Nat.pow_pos (by decide)

theorem twoPow_snd_pos (k : Int) : 0 < (twoPow k).2 := Nat.pow_pos (by decide)

/-- A power of two is its numerator over its denominator. -/
theorem twoPow_div (k : Int) : ((twoPow k).1 : ℚ) / (twoPow k).2 = 2 ^ k := by
  unfold twoPow
  obtain ⟨n, rfl | rfl⟩ := k.eq_nat_or_neg
  · simp
  · simp

theorem two_zpow_pos (k : Int) : (0 : ℚ) < 2 ^ k := zpow_pos (by norm_num) k

/-- What is left of a fraction after a power of two is divided out. -/
theorem scaled_div (num den : Nat) (k : Int) :
    ((num * (twoPow k).2 : Nat) : ℚ) / ((den * (twoPow k).1 : Nat) : ℚ) = num / den / 2 ^ k := by
  have hup : ((twoPow k).1 : ℚ) ≠ 0 := Nat.cast_ne_zero.2 (twoPow_fst_pos k).ne'
  have hdown : ((twoPow k).2 : ℚ) ≠ 0 := Nat.cast_ne_zero.2 (twoPow_snd_pos k).ne'
  rw [← twoPow_div, Nat.cast_mul, Nat.cast_mul]
  by_cases hden : (den : ℚ) = 0
  · simp [hden]
  · field_simp

/-- The power of two below a fraction. -/
theorem floorLog2_spec {num den : Nat} (hnum : 0 < num) (hden : 0 < den) :
    (2 : ℚ) ^ floorLog2 num den ≤ num / den ∧ (num : ℚ) / den < 2 ^ (floorLog2 num den + 1) := by
  have hdenpos : (0 : ℚ) < den := Nat.cast_pos.2 hden
  have hnumlow : (2 : ℚ) ^ (num.log2 : Int) ≤ num := by
    rw [zpow_natCast]
    exact_mod_cast Nat.log2_self_le hnum.ne'
  have hnumhigh : (num : ℚ) < 2 ^ (num.log2 : Int) * 2 := by
    rw [zpow_natCast, ← pow_succ]
    exact_mod_cast Nat.lt_log2_self
  have hdenlow : (2 : ℚ) ^ (den.log2 : Int) ≤ den := by
    rw [zpow_natCast]
    exact_mod_cast Nat.log2_self_le hden.ne'
  have hdenhigh : (den : ℚ) < 2 ^ (den.log2 : Int) * 2 := by
    rw [zpow_natCast, ← pow_succ]
    exact_mod_cast Nat.lt_log2_self
  -- the guess is right up to one, in either direction
  have hguess : (2 : ℚ) ^ ((num.log2 : Int) - den.log2) * 2 ^ (den.log2 : Int) =
      2 ^ (num.log2 : Int) := by
    rw [← zpow_add₀ (by norm_num), sub_add_cancel]
  have hpos := two_zpow_pos ((num.log2 : Int) - den.log2)
  unfold floorLog2
  dsimp only
  generalize hg : (num.log2 : Int) - den.log2 = guess at hguess hpos
  have htest : den * (twoPow guess).1 ≤ num * (twoPow guess).2 ↔ (2 : ℚ) ^ guess ≤ num / den := by
    have hdown : (0 : ℚ) < (twoPow guess).2 := Nat.cast_pos.2 (twoPow_snd_pos guess)
    rw [← twoPow_div, div_le_div_iff₀ hdown hdenpos, ← Nat.cast_mul, ← Nat.cast_mul, Nat.cast_le,
      Nat.mul_comm den]
  split
  next h =>
    refine ⟨htest.1 h, ?_⟩
    rw [div_lt_iff₀ hdenpos, zpow_add_one₀ (by norm_num)]
    nlinarith
  next h =>
    have hless : (num : ℚ) / den < 2 ^ guess := not_le.1 fun hle => h (htest.2 hle)
    rw [sub_add_cancel]
    refine ⟨?_, hless⟩
    rw [le_div_iff₀ hdenpos, zpow_sub_one₀ (by norm_num)]
    nlinarith

/-! ### Rounding to whole numbers -/

/-- Rounding misses the quotient by half a unit at most. -/
theorem roundToEven_error (num : Nat) {den : Nat} (hden : 0 < den) :
    |(roundToEven num den : ℚ) - num / den| ≤ 1 / 2 := by
  have hdenpos : (0 : ℚ) < den := Nat.cast_pos.2 hden
  have hdivision : (num : ℚ) = den * (num / den : Nat) + (num % den : Nat) := by
    exact_mod_cast (Nat.div_add_mod num den).symm
  have hless : ((num % den : Nat) : ℚ) < den := Nat.cast_lt.2 (Nat.mod_lt num hden)
  have hrest : (num : ℚ) / den = (num / den : Nat) + (num % den : Nat) / den := by
    rw [hdivision]
    field_simp
  unfold roundToEven
  dsimp only
  rw [hrest]
  split
  next h =>
    have hhalf : 2 * ((num % den : Nat) : ℚ) ≤ den := by
      exact_mod_cast h.elim Nat.le_of_lt fun h => h.1.le
    have hfraction : ((num % den : Nat) : ℚ) / den ≤ 1 / 2 := by
      rw [div_le_iff₀ hdenpos]
      linarith
    have hnonneg : 0 ≤ ((num % den : Nat) : ℚ) / den := by positivity
    rw [abs_le]
    constructor <;> linarith
  next h =>
    have hhalf : (den : ℚ) ≤ 2 * ((num % den : Nat) : ℚ) := by
      have : den ≤ 2 * (num % den) := by omega
      exact_mod_cast this
    have hfraction : 1 / 2 ≤ ((num % den : Nat) : ℚ) / den := by
      rw [le_div_iff₀ hdenpos]
      linarith
    have hone : ((num % den : Nat) : ℚ) / den ≤ 1 := by
      rw [div_le_one hdenpos]
      exact hless.le
    rw [abs_le, Nat.cast_add, Nat.cast_one]
    constructor <;> linarith

/-! ### Rounding to the format -/

/-- The exponent of the last place that a fraction is rounded to. -/
def lastPlace (num den : Nat) : Int := max (floorLog2 num den - 52) minExponent

/-- A fraction in units of its last place, rounded. -/
def inLastPlace (num den : Nat) : Nat :=
  roundToEven (num * (twoPow (lastPlace num den)).2) (den * (twoPow (lastPlace num den)).1)

/-- Rounding up may carry into one more bit, and then the exponent grows. -/
theorem round_eq (negative : Bool) {num : Nat} (hnum : num ≠ 0) (den : Nat) :
    round negative num den =
      if inLastPlace num den = significandBound then
        if lastPlace num den + 1 ≤ maxExponent then
          some ⟨negative, significandBound / 2, lastPlace num den + 1⟩
        else none
      else if lastPlace num den ≤ maxExponent then
        some ⟨negative, inLastPlace num den, lastPlace num den⟩
      else none := by
  rw [round, if_neg hnum]
  unfold inLastPlace lastPlace
  dsimp only
  split
  next hcarry => simp only [hcarry]
  next => rfl

section

variable {num den : Nat}

/-- A significand misses the number by half a unit in the last place at most. -/
theorem inLastPlace_error (num : Nat) (hden : 0 < den) :
    |(inLastPlace num den : ℚ) - num / den / 2 ^ lastPlace num den| ≤ 1 / 2 := by
  rw [← scaled_div]
  exact roundToEven_error _ (Nat.mul_pos hden (twoPow_fst_pos _))

/-- A fraction has at most 53 bits before its last place. -/
theorem div_lastPlace_lt (hnum : 0 < num) (hden : 0 < den) :
    (num : ℚ) / den / 2 ^ lastPlace num den < significandBound := by
  have hlast : floorLog2 num den + 1 ≤ lastPlace num den + 53 := by
    have := le_max_left (floorLog2 num den - 52) minExponent
    unfold lastPlace
    omega
  rw [div_lt_iff₀ (two_zpow_pos _)]
  calc (num : ℚ) / den < 2 ^ (floorLog2 num den + 1) := (floorLog2_spec hnum hden).2
    _ ≤ 2 ^ (lastPlace num den + 53) := zpow_le_zpow_right₀ (by norm_num) hlast
    _ = significandBound * 2 ^ lastPlace num den := by
        rw [zpow_add₀ (by norm_num), significandBound, mul_comm]
        norm_num

/-- A significand may only be rounded up to the bound itself. -/
theorem inLastPlace_le (hnum : 0 < num) (hden : 0 < den) :
    inLastPlace num den ≤ significandBound := by
  have herror := (abs_le.1 (inLastPlace_error num hden)).2
  have hless := div_lastPlace_lt hnum hden
  have hnat : (inLastPlace num den : ℚ) < (significandBound + 1 : Nat) := by
    push_cast
    linarith
  exact Nat.le_of_lt_succ (Nat.cast_lt.1 hnat)

/-- **What is rounded is in the format.** -/
theorem isInRange_of_round {negative : Bool} {x : Binary64} (hden : 0 < den)
    (h : round negative num den = some x) : x.IsInRange := by
  by_cases hnum : num = 0
  · rw [round, if_pos hnum] at h
    obtain rfl := Option.some.inj h
    exact isInRange_zero
  -- a significand has more than 53 bits only after a carry, and is then halved
  have hle := inLastPlace_le (Nat.pos_of_ne_zero hnum) hden
  have hmin : minExponent ≤ lastPlace num den := le_max_right _ _
  rw [round_eq negative hnum] at h
  split at h
  next =>
    split at h
    next hmax =>
      obtain rfl := Option.some.inj h
      have hhalf : significandBound / 2 < significandBound := by decide
      exact ⟨hhalf, Int.le_add_one hmin, hmax⟩
    next => exact absurd h nofun
  next hcarry =>
    split at h
    next hmax =>
      obtain rfl := Option.some.inj h
      exact ⟨Nat.lt_of_le_of_ne hle hcarry, hmin, hmax⟩
    next => exact absurd h nofun

/-- The end of the fractions that are rounded: what lies half a unit above the largest number, or
higher, has no number of the format. -/
def roundingLimit : ℚ := (significandBound - 1 / 2) * 2 ^ maxExponent

theorem roundingLimit_mul_two :
    roundingLimit * 2 = (((2 * significandBound - 1) * 2 ^ 971 : Nat) : ℚ) := by
  have hpower : (2 : ℚ) ^ maxExponent = ((2 ^ 971 : Nat) : ℚ) := by
    rw [Nat.cast_pow, ← zpow_natCast]
    rfl
  rw [roundingLimit, hpower, Nat.cast_mul, significandBound]
  generalize ((2 ^ 971 : Nat) : ℚ) = power
  norm_num
  ring

/-- **What lies below the limit is rounded.** -/
theorem isSome_round (negative : Bool) (hden : 0 < den) (h : (num : ℚ) / den < roundingLimit) :
    (round negative num den).isSome := by
  by_cases hnum : num = 0
  · rw [round, if_pos hnum]
    rfl
  have hpos := Nat.pos_of_ne_zero hnum
  have hlast : lastPlace num den ≤ maxExponent := by
    -- the limit is below the next power of two
    have hpower : (2 : ℚ) ^ floorLog2 num den < 2 ^ (1024 : Int) :=
      calc (2 : ℚ) ^ floorLog2 num den ≤ num / den := (floorLog2_spec hpos hden).1
        _ < roundingLimit := h
        _ < 2 ^ (1024 : Int) := by
            rw [roundingLimit, significandBound, maxExponent,
              show (1024 : Int) = 53 + 971 by norm_num, zpow_add₀ (by norm_num)]
            exact mul_lt_mul_of_pos_right (by norm_num) (two_zpow_pos _)
    have hlog : floorLog2 num den < 1024 := (zpow_lt_zpow_iff_right₀ (by norm_num)).1 hpower
    unfold lastPlace
    refine max_le ?_ (by decide)
    rw [maxExponent]
    omega
  rw [round_eq negative hnum]
  split
  next hcarry =>
    -- a carry from the last place of the largest number starts at the limit
    have hlower : lastPlace num den ≠ maxExponent := by
      intro heq
      have herror := (abs_le.1 (inLastPlace_error num hden)).2
      rw [hcarry, heq] at herror
      have hbelow : (num : ℚ) / den / 2 ^ maxExponent < significandBound - 1 / 2 := by
        rw [div_lt_iff₀ (two_zpow_pos _)]
        exact h
      linarith
    rw [if_pos (by omega)]
    rfl
  next => rfl

/-- What is rounded has the magnitude of its significand in the last place. -/
theorem magnitude_of_round_eq {negative : Bool} {x : Binary64} (hnum : num ≠ 0)
    (h : round negative num den = some x) :
    x.magnitude = inLastPlace num den * 2 ^ lastPlace num den := by
  rw [round_eq negative hnum] at h
  split at h
  next hcarry =>
    split at h
    next =>
      obtain rfl := Option.some.inj h
      rw [magnitude, hcarry, zpow_add_one₀ (by norm_num), significandBound]
      norm_num
      ring
    next => exact absurd h nofun
  next =>
    split at h
    next =>
      obtain rfl := Option.some.inj h
      rfl
    next => exact absurd h nofun

/-- **The error of rounding** is at most one part in `2 ^ 53`, where the number is not subnormal. -/
theorem magnitude_of_round {negative : Bool} {x : Binary64} (hden : 0 < den)
    (hnormal : 2 ^ (-1022 : Int) ≤ (num : ℚ) / den) (h : round negative num den = some x) :
    |x.magnitude - num / den| ≤ num / den * 2 ^ (-53 : Int) := by
  have hfraction : 0 < (num : ℚ) / den := lt_of_lt_of_le (two_zpow_pos _) hnormal
  have hnum : 0 < num := by
    refine Nat.pos_of_ne_zero fun hzero => ?_
    rw [hzero] at hfraction
    simp at hfraction
  obtain ⟨hlow, hhigh⟩ := floorLog2_spec hnum hden
  -- the last place is 52 places behind the first
  have hlast : lastPlace num den = floorLog2 num den - 52 := by
    have hlog : -1022 < floorLog2 num den + 1 :=
      (zpow_lt_zpow_iff_right₀ (show (1 : ℚ) < 2 by norm_num)).1 (lt_of_le_of_lt hnormal hhigh)
    unfold lastPlace
    refine max_eq_left ?_
    rw [minExponent]
    omega
  have hpos := two_zpow_pos (lastPlace num den)
  have herror := mul_le_mul_of_nonneg_right (inLastPlace_error num hden) hpos.le
  have hscaled : |(inLastPlace num den : ℚ) - num / den / 2 ^ lastPlace num den| *
      2 ^ lastPlace num den = |x.magnitude - num / den| := by
    rw [magnitude_of_round_eq hnum.ne' h, ← abs_of_pos hpos, ← abs_mul, abs_of_pos hpos, sub_mul,
      div_mul_cancel₀ _ hpos.ne']
  calc |x.magnitude - num / den| ≤ 1 / 2 * 2 ^ lastPlace num den := hscaled ▸ herror
    _ = 2 ^ floorLog2 num den * 2 ^ (-53 : Int) := by
        rw [hlast, show floorLog2 num den - 52 = floorLog2 num den + -53 + 1 by ring,
          zpow_add_one₀ (by norm_num), zpow_add₀ (by norm_num)]
        ring
    _ ≤ num / den * 2 ^ (-53 : Int) := mul_le_mul_of_nonneg_right hlow (two_zpow_pos _).le

end

/-! ### Arithmetic -/

variable {x y : Binary64}

theorem magnitude_nonneg (x : Binary64) : 0 ≤ x.magnitude :=
  mul_nonneg (Nat.cast_nonneg _) (two_zpow_pos _).le

theorem isInRange_neg (hx : x.IsInRange) : x.neg.IsInRange := hx

/-- A number of the format lies half a unit below the limit at least. -/
theorem magnitude_lt_roundingLimit (hx : x.IsInRange) : x.magnitude < roundingLimit := by
  have hsignificand : (x.significand : ℚ) ≤ significandBound - 1 := by
    have : x.significand + 1 ≤ significandBound := hx.1
    have : ((x.significand + 1 : Nat) : ℚ) ≤ significandBound := Nat.cast_le.2 this
    push_cast at this
    linarith
  calc x.magnitude ≤ (significandBound - 1) * 2 ^ maxExponent :=
        mul_le_mul hsignificand (zpow_le_zpow_right₀ (by norm_num) hx.2.2) (two_zpow_pos _).le
          (by rw [significandBound]; norm_num)
    _ < roundingLimit := mul_lt_mul_of_pos_right (by linarith) (two_zpow_pos _)

theorem isInRange_ofNat {n : Nat} (h : ofNat n = some x) : x.IsInRange :=
  isInRange_of_round Nat.one_pos h

/-- A number below the rounding limit is rounded to a float. -/
theorem isSome_ofNat {n : Nat} (h : (n : ℚ) < roundingLimit) : (ofNat n).isSome :=
  isSome_round false Nat.one_pos (by rwa [Nat.cast_one, div_one])

/-- Rounding a number misses it by a small part of it. -/
theorem magnitude_ofNat {n : Nat} (hn : 0 < n) (h : ofNat n = some x) :
    |x.magnitude - n| ≤ n * 2 ^ (-53 : Int) := by
  have hone : (1 : ℚ) ≤ n := Nat.one_le_cast.2 hn
  have hnormal : (2 : ℚ) ^ (-1022 : Int) ≤ (n : ℚ) / (1 : Nat) := by
    rw [Nat.cast_one, div_one]
    exact le_trans (zpow_le_one_of_nonpos₀ (by norm_num) (by norm_num)) hone
  simpa using magnitude_of_round Nat.one_pos hnormal h

theorem isInRange_mul {z : Binary64} (h : x.mul y = some z) : z.IsInRange :=
  isInRange_of_round (twoPow_snd_pos _) h

/-- A product below the rounding limit is a float. -/
theorem isSome_mul (h : x.magnitude * y.magnitude < roundingLimit) : (x.mul y).isSome := by
  refine isSome_round _ (twoPow_snd_pos _) ?_
  rw [Nat.cast_mul, mul_div_assoc, twoPow_div, Nat.cast_mul, zpow_add₀ (by norm_num)]
  unfold magnitude at h
  calc (x.significand : ℚ) * y.significand * (2 ^ x.exponent * 2 ^ y.exponent)
      = x.significand * 2 ^ x.exponent * (y.significand * 2 ^ y.exponent) := by ring
    _ < roundingLimit := h

theorem isInRange_div {z : Binary64} (hy : 0 < y.significand) (h : x.div y = some z) :
    z.IsInRange :=
  isInRange_of_round (Nat.mul_pos hy (twoPow_snd_pos _)) h

/-- A quotient below the rounding limit is a float. -/
theorem isSome_div (hy : 0 < y.significand) (h : x.magnitude / y.magnitude < roundingLimit) :
    (x.div y).isSome := by
  refine isSome_round _ (Nat.mul_pos hy (twoPow_snd_pos _)) ?_
  show ((x.significand * (twoPow (x.exponent - y.exponent)).1 : Nat) : ℚ) /
    ((y.significand * (twoPow (x.exponent - y.exponent)).2 : Nat) : ℚ) < roundingLimit
  unfold magnitude at h
  rw [Nat.cast_mul, Nat.cast_mul, mul_div_mul_comm, twoPow_div, zpow_sub₀ (by norm_num),
    ← mul_div_mul_comm]
  exact h

end LinkQuery.Binary64
