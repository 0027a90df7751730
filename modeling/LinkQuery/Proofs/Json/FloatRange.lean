import LinkQuery.Json.Number
import LinkQuery.Proofs.Json.Literal
import LinkQuery.Proofs.Number.Rounding

/-!
# The range of floats in literals

A literal is read with two roundings or three: its digits, the power of ten, and their product or
quotient. So a literal just below the end of the format might be read as one beyond it. That does
not happen to the literals that are written: the error of reading is less than a unit for all but
the two largest numbers, and these can be looked at one by one.

* `Literal.isInRange_toBinary64`: what a literal is read as is a number of the format.
* `Literal.isSome_toBinary64`: a literal that lies so far below the end that no error leads there is
  read.
* `Binary64.isSome_reread?`: **the literal of every number of the format is read**.
-/

namespace LinkQuery

namespace Json.Literal

open Binary64 (roundingLimit)

/-- By how much the result of a rounding may exceed what was rounded. -/
def roundingFactor : ℚ := 1 + 2 ^ (-53 : Int)

/-! ### Powers of ten -/

theorem ten_zpow_pos (k : Int) : (0 : ℚ) < 10 ^ k := zpow_pos (by norm_num) k

theorem ten_pow_lt_roundingLimit {k : Nat} (hk : k ≤ 308) :
    ((10 ^ k : Nat) : ℚ) < roundingLimit := by
  have hlimit : 10 ^ k * 2 < (2 * Binary64.significandBound - 1) * 2 ^ 971 :=
    calc 10 ^ k * 2 ≤ 10 ^ 308 * 2 := Nat.mul_le_mul_right 2 (Nat.pow_le_pow_right (by decide) hk)
      _ < (2 * Binary64.significandBound - 1) * 2 ^ 971 := by decide +kernel
  have htwice : ((10 ^ k : Nat) : ℚ) * 2 < roundingLimit * 2 := by
    rw [Binary64.roundingLimit_mul_two]
    exact_mod_cast hlimit
  exact lt_of_mul_lt_mul_right htwice (by norm_num)

theorem magnitude_tenPow {k : Nat} {p : Binary64} (h : tenPow k = some p) :
    |p.magnitude - 10 ^ k| ≤ 10 ^ k * 2 ^ (-53 : Int) := by
  have herror := Binary64.magnitude_ofNat (n := 10 ^ k) (Nat.pow_pos (by decide)) h
  rwa [Nat.cast_pow, Nat.cast_ofNat] at herror

/-- A rounded power of ten is half of it at least. -/
theorem le_magnitude_tenPow {k : Nat} {p : Binary64} (h : tenPow k = some p) :
    (10 : ℚ) ^ k / 2 ≤ p.magnitude := by
  have herror := (abs_le.1 (magnitude_tenPow h)).1
  have hhalf : (10 : ℚ) ^ k * 2 ^ (-53 : Int) ≤ 10 ^ k * (1 / 2) :=
    mul_le_mul_of_nonneg_left (by norm_num) (by positivity)
  generalize (10 : ℚ) ^ k * 2 ^ (-53 : Int) = error at herror hhalf
  linarith

theorem significand_tenPow_pos {k : Nat} {p : Binary64} (h : tenPow k = some p) :
    0 < p.significand := by
  have hpos : (0 : ℚ) < 10 ^ k / 2 := by positivity
  refine Nat.pos_of_ne_zero fun hzero => ?_
  have hmagnitude := lt_of_lt_of_le hpos (le_magnitude_tenPow h)
  rw [Binary64.magnitude, hzero] at hmagnitude
  simp at hmagnitude

/-! ### Scaling -/

theorem isInRange_divideByPow {x y : Binary64} {k : Nat} (h : divideByPow x k = some y) :
    y.IsInRange := by
  obtain ⟨p, hp, h⟩ := Option.bind_eq_some_iff.1 h
  exact Binary64.isInRange_div (significand_tenPow_pos hp) h

theorem isInRange_scale {x y : Binary64} {e : Int} (hx : x.IsInRange) (h : scale x e = some y) :
    y.IsInRange := by
  unfold scale at h
  split at h
  · obtain rfl := Option.some.inj h
    exact hx
  split at h
  · exact absurd h nofun
  split at h
  · obtain ⟨p, -, h⟩ := Option.bind_eq_some_iff.1 h
    exact Binary64.isInRange_mul h
  split at h
  · exact isInRange_divideByPow h
  split at h
  · obtain ⟨z, -, h⟩ := Option.bind_eq_some_iff.1 h
    exact isInRange_divideByPow h
  · obtain rfl := Option.some.inj h
    exact Binary64.isInRange_zero

/-- A number of the format stays in range when it is divided. -/
theorem exists_divideByPow {x : Binary64} (hx : x.IsInRange) {k : Nat} (hpos : 0 < k)
    (hk : k ≤ 308) :
    ∃ y, divideByPow x k = some y := by
  obtain ⟨p, hp⟩ := Option.isSome_iff_exists.1
    (Binary64.isSome_ofNat (n := 10 ^ k) (ten_pow_lt_roundingLimit hk))
  have hone : 1 ≤ p.magnitude := by
    have hten : (10 : ℚ) ^ 1 ≤ 10 ^ k := pow_le_pow_right₀ (by norm_num) hpos
    have hhalf := le_magnitude_tenPow (p := p) hp
    linarith
  have hlimit : x.magnitude / p.magnitude < roundingLimit :=
    lt_of_le_of_lt (div_le_self x.magnitude_nonneg hone) (Binary64.magnitude_lt_roundingLimit hx)
  obtain ⟨y, hy⟩ := Option.isSome_iff_exists.1
    (Binary64.isSome_div (significand_tenPow_pos hp) hlimit)
  exact ⟨y, Option.bind_eq_some_iff.2 ⟨p, hp, hy⟩⟩

/-- Two roundings up, of the number and of the power, do not lead a product beyond the limit. -/
theorem exists_multiplyByPow {n k : Nat} {x : Binary64} (hn : 0 < n)
    (hx : Binary64.ofNat n = some x)
    (hk : k ≤ 308) (h : (n : ℚ) * 10 ^ k * roundingFactor ^ 2 < roundingLimit) :
    ∃ y, multiplyByPow x k = some y := by
  obtain ⟨p, hp⟩ := Option.isSome_iff_exists.1
    (Binary64.isSome_ofNat (n := 10 ^ k) (ten_pow_lt_roundingLimit hk))
  have hxle : x.magnitude ≤ n * roundingFactor := by
    have herror := (abs_le.1 (Binary64.magnitude_ofNat hn hx)).2
    unfold roundingFactor
    linarith
  have hple : p.magnitude ≤ 10 ^ k * roundingFactor := by
    have herror := (abs_le.1 (magnitude_tenPow (p := p) hp)).2
    unfold roundingFactor
    linarith
  have hlimit : x.magnitude * p.magnitude < roundingLimit :=
    calc x.magnitude * p.magnitude ≤ n * roundingFactor * (10 ^ k * roundingFactor) :=
          mul_le_mul hxle hple p.magnitude_nonneg (x.magnitude_nonneg.trans hxle)
      _ = n * 10 ^ k * roundingFactor ^ 2 := by ring
      _ < roundingLimit := h
  obtain ⟨y, hy⟩ := Option.isSome_iff_exists.1 (Binary64.isSome_mul hlimit)
  exact ⟨y, Option.bind_eq_some_iff.2 ⟨p, hp, hy⟩⟩

/-- A literal below the limit has no power of ten beyond it. -/
theorem le_of_lt_roundingLimit {n : Nat} {e : Int} (hn : 0 < n)
    (h : n * 10 ^ e * roundingFactor ^ 2 < roundingLimit) : e ≤ 308 := by
  refine not_lt.1 fun he => not_lt.2 ?_ h
  have hone : (1 : ℚ) ≤ n := Nat.one_le_cast.2 hn
  have hfactor : (1 : ℚ) ≤ roundingFactor ^ 2 := one_le_pow₀ (by unfold roundingFactor; norm_num)
  have hbeyond : (2 * Binary64.significandBound - 1) * 2 ^ 971 < 10 ^ 309 * 2 := by decide +kernel
  have htwice : roundingLimit * 2 < (10 : ℚ) ^ 309 * 2 := by
    rw [Binary64.roundingLimit_mul_two]
    exact_mod_cast hbeyond
  calc roundingLimit ≤ 10 ^ (309 : Int) := (lt_of_mul_lt_mul_right htwice (by norm_num)).le
    _ ≤ 10 ^ e := zpow_le_zpow_right₀ (by norm_num) he
    _ ≤ n * 10 ^ e := le_mul_of_one_le_left (ten_zpow_pos e).le hone
    _ ≤ n * 10 ^ e * roundingFactor ^ 2 :=
        le_mul_of_one_le_right (mul_nonneg (Nat.cast_nonneg n) (ten_zpow_pos e).le) hfactor

/-- **What lies below the limit even after two roundings up is in range.** -/
theorem isSome_scale {n : Nat} {x : Binary64} {e : Int} (hx : Binary64.ofNat n = some x)
    (h : n * 10 ^ e * roundingFactor ^ 2 < roundingLimit) : (scale x e).isSome := by
  have hrange := Binary64.isInRange_ofNat hx
  unfold scale
  split
  next => rfl
  next hzero =>
    have hn : 0 < n := by
      refine Nat.pos_of_ne_zero fun hn => ?_
      rw [hn] at hx
      obtain rfl := Option.some.inj hx
      exact hzero rfl
    have hle := le_of_lt_roundingLimit hn h
    rw [if_neg (not_lt.2 hle)]
    split
    next hnonneg =>
      obtain ⟨k, rfl⟩ := Int.eq_ofNat_of_zero_le hnonneg
      rw [zpow_natCast] at h
      exact Option.isSome_iff_exists.2 (exists_multiplyByPow hn hx (by omega) h)
    split
    next =>
      exact Option.isSome_iff_exists.2 (exists_divideByPow hrange (by omega) (by omega))
    split
    next =>
      -- the first quotient is a number of the format again
      obtain ⟨y, hy⟩ := exists_divideByPow hrange (k := 308) (by decide) (by decide)
      obtain ⟨z, hz⟩ := exists_divideByPow (isInRange_divideByPow hy) (k := (-e - 308).toNat)
        (by omega) (by omega)
      exact Option.isSome_iff_exists.2 ⟨z, Option.bind_eq_some_iff.2 ⟨y, hy, hz⟩⟩
    next => rfl

/-! ### Digits -/

/-- Digits that fit are all absorbed. -/
theorem absorb_of_le {n : Nat} {ds : List Nat} (h : n * 10 ^ ds.length + ofDigits ds ≤ maxWord) :
    absorb n ds = (n * 10 ^ ds.length + ofDigits ds, []) := by
  induction ds generalizing n with
  | nil => rw [absorb]; simp [ofDigits]
  | cons d ds ih =>
    have hsame : n * 10 ^ (d :: ds).length + ofDigits (d :: ds) =
        (n * 10 + d) * 10 ^ ds.length + ofDigits ds := by
      rw [← foldl_digits, List.foldl_cons, foldl_digits]
    rw [hsame] at h ⊢
    have hpow : 0 < 10 ^ ds.length := Nat.pow_pos (by decide)
    have hfits : n * 10 + d ≤ maxWord := by
      have := Nat.le_mul_of_pos_right (n * 10 + d) hpow
      omega
    rw [absorb, if_pos hfits]
    exact ih h

/-- What is absorbed has 64 bits, and does not exceed the digits that were there. -/
theorem absorb_spec {n : Nat} (hn : n ≤ maxWord) (ds : List Nat) :
    (absorb n ds).1 ≤ maxWord ∧
      (absorb n ds).1 * 10 ^ (absorb n ds).2.length ≤ n * 10 ^ ds.length + ofDigits ds := by
  induction ds generalizing n with
  | nil => exact ⟨hn, Nat.le_add_right _ _⟩
  | cons d ds ih =>
    rw [absorb]
    split
    next hfits =>
      have hsame : n * 10 ^ (d :: ds).length + ofDigits (d :: ds) =
          (n * 10 + d) * 10 ^ ds.length + ofDigits ds := by
        rw [← foldl_digits, List.foldl_cons, foldl_digits]
      rw [hsame]
      exact ih hfits
    next => exact ⟨hn, Nat.le_add_right _ _⟩

/-! ### Literals -/

/-- The absolute value of the number that a literal is written for. -/
def magnitude (l : Literal) : ℚ :=
  ofDigits (l.whole ++ l.fraction) * 10 ^ (l.power - l.fraction.length)

theorem magnitude_of_writesFloat {l : Literal} {digits : Nat} {power : Int}
    (h : l.WritesFloat digits power) : l.magnitude = digits * 10 ^ power := by
  obtain ⟨zeros, hdigits, hplaces⟩ := h.digits
  rw [magnitude, hdigits, hplaces, zpow_sub₀ (by norm_num), zpow_natCast, Nat.cast_mul,
    Nat.cast_pow, Nat.cast_ofNat]
  field_simp

/-- **What a literal is read as is a number of the format.** -/
theorem isInRange_toBinary64 {l : Literal} {x : Binary64} (h : l.toBinary64 = some x) :
    x.IsInRange := by
  obtain ⟨y, hy, h⟩ := Option.bind_eq_some_iff.1 h
  obtain ⟨z, hz, h⟩ := Option.bind_eq_some_iff.1 h
  have hrange := isInRange_scale (Binary64.isInRange_ofNat hy) hz
  obtain rfl := Option.some.inj h
  split
  · exact Binary64.isInRange_neg hrange
  · exact hrange

/-- **A literal that lies below the limit even after two roundings up is read.** -/
theorem isSome_toBinary64 {l : Literal} (hwhole : ofDigits l.whole ≤ maxWord)
    (h : l.magnitude * roundingFactor ^ 2 < roundingLimit) : l.toBinary64.isSome := by
  have habsorb : absorb 0 l.whole = (ofDigits l.whole, []) := by
    have hvalue : 0 * 10 ^ l.whole.length + ofDigits l.whole = ofDigits l.whole := by omega
    rw [absorb_of_le (by rwa [hvalue]), hvalue]
  obtain ⟨hword, hdigits⟩ := absorb_spec hwhole l.fraction
  have hsame : ofDigits (l.whole ++ l.fraction) =
      ofDigits l.whole * 10 ^ l.fraction.length + ofDigits l.fraction := ofDigits_append _ _
  rw [← hsame] at hdigits
  unfold toBinary64
  rw [habsorb]
  dsimp only
  generalize (absorb (ofDigits l.whole) l.fraction).1 = n at hword hdigits
  generalize (absorb (ofDigits l.whole) l.fraction).2 = ignored at hdigits
  -- the digits absorbed, in their place, are no more than the literal
  generalize hplace : (([] : List Nat).length : Int) -
    ((l.fraction.length : Int) - ignored.length) +
    l.power = place
  have hmagnitude : (n : ℚ) * 10 ^ place ≤ l.magnitude := by
    have hsplit : place = ignored.length + (l.power - l.fraction.length) := by
      rw [← hplace, List.length_nil]
      omega
    have hcast : (n : ℚ) * 10 ^ ignored.length ≤ ofDigits (l.whole ++ l.fraction) := by
      exact_mod_cast hdigits
    calc (n : ℚ) * 10 ^ place = n * 10 ^ ignored.length * 10 ^ (l.power - l.fraction.length) := by
          rw [hsplit, zpow_add₀ (by norm_num), zpow_natCast, mul_assoc]
      _ ≤ l.magnitude := mul_le_mul_of_nonneg_right hcast (ten_zpow_pos _).le
  have hfactor : (0 : ℚ) ≤ roundingFactor ^ 2 := sq_nonneg _
  have hlimit : (n : ℚ) * 10 ^ place * roundingFactor ^ 2 < roundingLimit :=
    lt_of_le_of_lt (mul_le_mul_of_nonneg_right hmagnitude hfactor) h
  have hn : (n : ℚ) < roundingLimit := by
    have htop : ((maxWord : Nat) : ℚ) ≤ (10 ^ 20 : Nat) := Nat.cast_le.2 (by decide)
    exact lt_of_le_of_lt ((Nat.cast_le.2 hword).trans htop) (ten_pow_lt_roundingLimit (by decide))
  obtain ⟨x, hx⟩ := Option.isSome_iff_exists.1 (Binary64.isSome_ofNat hn)
  obtain ⟨y, hy⟩ := Option.isSome_iff_exists.1 (isSome_scale hx hlimit)
  rw [hx, Option.bind_eq_bind, Option.bind_some, hy]
  rfl

end Json.Literal

namespace Binary64

open Json.Literal (roundingFactor)

/-! ### The shortest decimal -/

/-- The upper end of the reals that round to a positive number. -/
def upperEnd (x : Binary64) : ℚ := (x.significand + 1 / 2) * 2 ^ x.exponent

theorem upperEnd_pos (x : Binary64) : 0 < x.upperEnd :=
  mul_pos (by positivity) (two_zpow_pos _)

theorem le_of_onGrid {x : Binary64} {power : Int} {d : Nat} (h : x.onGrid power = some d) :
    d * ((twoPow (x.exponent - 2)).2 * Nat.pow 10 power.toNat) ≤
      (4 * x.significand + 2) * ((twoPow (x.exponent - 2)).1 * Nat.pow 10 (-power).toNat) := by
  have hhigh : x.roundingInterval.2.2 = 4 * x.significand + 2 := rfl
  rw [← hhigh]
  unfold onGrid at h
  dsimp only at h
  generalize (twoPow (x.exponent - 2)).1 * Nat.pow 10 (-power).toNat = scale at h ⊢
  generalize (twoPow (x.exponent - 2)).2 * Nat.pow 10 power.toNat = unit at h ⊢
  -- a neighbour that is taken lies inside the interval, with or without its ends
  have hinside : ∀ d, (if x.significand % 2 = 0 then
      decide (x.roundingInterval.1 * scale ≤ d * unit ∧ d * unit ≤ x.roundingInterval.2.2 * scale)
      else decide (x.roundingInterval.1 * scale < d * unit ∧
        d * unit < x.roundingInterval.2.2 * scale)) = true →
      d * unit ≤ x.roundingInterval.2.2 * scale := by
    intro d hd
    split at hd
    · exact (of_decide_eq_true hd).2
    · exact (of_decide_eq_true hd).2.le
  split at h
  next hbelow habove =>
    split at h
    · exact Option.some.inj h ▸ hinside _ hbelow
    · exact Option.some.inj h ▸ hinside _ habove
  next hbelow _ => exact Option.some.inj h ▸ hinside _ hbelow
  next _ habove => exact Option.some.inj h ▸ hinside _ habove
  next => exact absurd h nofun

/-- A grid point that rounds to a number is not beyond its upper end. -/
theorem le_upperEnd_of_onGrid {x : Binary64} {power : Int} {d : Nat} (h : x.onGrid power = some d) :
    (d : ℚ) * 10 ^ power ≤ x.upperEnd := by
  have hcast : (d : ℚ) * ((twoPow (x.exponent - 2)).2 * 10 ^ power.toNat) ≤
      (4 * x.significand + 2) * ((twoPow (x.exponent - 2)).1 * 10 ^ (-power).toNat) := by
    exact_mod_cast le_of_onGrid h
  have hten : (10 : ℚ) ^ power.toNat = 10 ^ power * 10 ^ (-power).toNat := by
    rw [← zpow_natCast, ← zpow_natCast, ← zpow_add₀ (by norm_num)]
    congr 1
    omega
  have hdown : (0 : ℚ) < (twoPow (x.exponent - 2)).2 := Nat.cast_pos.2 (twoPow_snd_pos _)
  have hzeros : (0 : ℚ) < 10 ^ (-power).toNat := by positivity
  have hpower := twoPow_div (x.exponent - 2)
  rw [div_eq_iff hdown.ne'] at hpower
  rw [hten, hpower] at hcast
  -- the denominators are the same on both sides
  have hcommon : (d : ℚ) * 10 ^ power * ((twoPow (x.exponent - 2)).2 * 10 ^ (-power).toNat) ≤
      (4 * x.significand + 2) * 2 ^ (x.exponent - 2) *
        ((twoPow (x.exponent - 2)).2 * 10 ^ (-power).toNat) := by
    linarith
  calc (d : ℚ) * 10 ^ power ≤ (4 * x.significand + 2) * 2 ^ (x.exponent - 2) :=
        le_of_mul_le_mul_right hcommon (mul_pos hdown hzeros)
    _ = x.upperEnd := by
        rw [upperEnd, zpow_sub₀ (by norm_num)]
        norm_num
        ring

theorem searchGrids_le_upperEnd (x : Binary64) (steps : Nat) :
    ((x.searchGrids steps).1 : ℚ) * 10 ^ (x.searchGrids steps).2 ≤ x.upperEnd := by
  induction steps with
  | zero =>
    unfold searchGrids
    cases hgrid : x.onGrid finestPower with
    | none => simpa using x.upperEnd_pos.le
    | some d => exact le_upperEnd_of_onGrid hgrid
  | succ steps ih =>
    unfold searchGrids
    dsimp only
    split
    next d hd => exact le_upperEnd_of_onGrid hd
    next => exact ih

theorem written_le_upperEnd (x : Binary64) : (x.written.1 : ℚ) * 10 ^ x.written.2 ≤ x.upperEnd := by
  unfold written
  split
  · simpa using x.upperEnd_pos.le
  · exact x.searchGrids_le_upperEnd 652

/-! ### Reading what was written -/

theorem upperEnd_le {x : Binary64} {significand : Nat} {exponent : Int}
    (hsignificand : x.significand ≤ significand) (hexponent : x.exponent ≤ exponent) :
    x.upperEnd ≤ (significand + 1 / 2) * 2 ^ exponent := by
  have hle : (x.significand : ℚ) + 1 / 2 ≤ significand + 1 / 2 := by
    have : (x.significand : ℚ) ≤ significand := Nat.cast_le.2 hsignificand
    linarith
  exact mul_le_mul hle (zpow_le_zpow_right₀ (by norm_num) hexponent) (two_zpow_pos _).le
    (by positivity)

/-- Two roundings up from the upper end of a number do not lead beyond the format, but for the two
largest numbers. -/
theorem upperEnd_lt_roundingLimit {x : Binary64} (hx : x.IsInRange)
    (h : x.significand ≤ significandBound - 3 ∨ x.exponent ≤ maxExponent - 1) :
    x.upperEnd * roundingFactor ^ 2 < roundingLimit := by
  have hpos : (0 : ℚ) < 2 ^ maxExponent := two_zpow_pos _
  unfold roundingLimit
  rcases h with hsignificand | hexponent
  · have hless : ((significandBound - 3 : Nat) + 1 / 2) * roundingFactor ^ 2 <
        (significandBound - 1 / 2 : ℚ) := by
      rw [significandBound, roundingFactor]
      norm_num
    calc x.upperEnd * roundingFactor ^ 2
        ≤ ((significandBound - 3 : Nat) + 1 / 2) * 2 ^ maxExponent * roundingFactor ^ 2 :=
          mul_le_mul_of_nonneg_right (upperEnd_le hsignificand hx.2.2) (sq_nonneg _)
      _ = ((significandBound - 3 : Nat) + 1 / 2) * roundingFactor ^ 2 * 2 ^ maxExponent :=
          mul_right_comm _ _ _
      _ < (significandBound - 1 / 2) * 2 ^ maxExponent := mul_lt_mul_of_pos_right hless hpos
  · have hless : ((significandBound - 1 : Nat) + 1 / 2) * (roundingFactor ^ 2 / 2) <
        (significandBound - 1 / 2 : ℚ) := by
      rw [significandBound, roundingFactor]
      norm_num
    have hhalf : (2 : ℚ) ^ (maxExponent - 1) = 2 ^ maxExponent / 2 := by
      rw [zpow_sub_one₀ (by norm_num), div_eq_mul_inv]
    calc x.upperEnd * roundingFactor ^ 2
        ≤ ((significandBound - 1 : Nat) + 1 / 2) * 2 ^ (maxExponent - 1) * roundingFactor ^ 2 :=
          mul_le_mul_of_nonneg_right (upperEnd_le (Nat.le_pred_of_lt hx.1) hexponent) (sq_nonneg _)
      _ = ((significandBound - 1 : Nat) + 1 / 2) * (roundingFactor ^ 2 / 2) * 2 ^ maxExponent := by
          rw [hhalf]
          generalize (2 : ℚ) ^ maxExponent = power
          ring
      _ < (significandBound - 1 / 2) * 2 ^ maxExponent := mul_lt_mul_of_pos_right hless hpos

theorem isSome_reread?_of_upperEnd {x : Binary64}
    (h : x.upperEnd * roundingFactor ^ 2 < roundingLimit) : x.reread?.isSome := by
  obtain ⟨l, hread, hwrites⟩ := Json.Literal.exists_floatChars x
  have hmagnitude : l.magnitude ≤ x.upperEnd := by
    rw [Json.Literal.magnitude_of_writesFloat hwrites]
    exact x.written_le_upperEnd
  have hlimit : l.magnitude * roundingFactor ^ 2 < roundingLimit :=
    lt_of_le_of_lt (mul_le_mul_of_nonneg_right hmagnitude (sq_nonneg _)) h
  rw [reread?, hread, Option.bind_some]
  exact Json.Literal.isSome_toBinary64 hwrites.whole hlimit

/-- The two largest numbers, with either sign. -/
theorem isSome_reread?_largest : ∀ negative : Bool,
    (reread? ⟨negative, significandBound - 1, maxExponent⟩).isSome ∧
      (reread? ⟨negative, significandBound - 2, maxExponent⟩).isSome := by
  decide +kernel

/-- **The literal of every number of the format is read.** -/
theorem isSome_reread? {x : Binary64} (hx : x.IsInRange) : x.reread?.isSome := by
  -- the bound on the error is too coarse for the two largest numbers
  by_cases hlarge : x.significand ≤ significandBound - 3 ∨ x.exponent ≤ maxExponent - 1
  · exact isSome_reread?_of_upperEnd (upperEnd_lt_roundingLimit hx hlarge)
  · obtain ⟨negative, significand, exponent⟩ := x
    obtain ⟨hsignificand, -, hexponent⟩ := hx
    have hmax : exponent = maxExponent := by
      dsimp only at hlarge hexponent
      omega
    have hlast : significand = significandBound - 1 ∨ significand = significandBound - 2 := by
      dsimp only [significandBound] at hlarge hsignificand ⊢
      omega
    subst hmax
    rcases hlast with rfl | rfl
    · exact (isSome_reread?_largest negative).1
    · exact (isSome_reread?_largest negative).2

end Binary64

end LinkQuery
