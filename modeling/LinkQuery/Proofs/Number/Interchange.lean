import LinkQuery.Proofs.Number.Rounding

/-!
# Interchange formats

The bits of a finite number in an interchange format are read as this number, without rounding it
away: the formats are narrower than binary64, or are binary64 itself. What is not read is what is
not finite, and this is told by the exponent field alone (`Binary64.ofBits?_eq_none_iff`).
-/

namespace LinkQuery.Binary64

/-- A scaled significand in the range of the finite numbers is a number. -/
theorem isSome_ofScaled {negative : Bool} {m : Nat} {e : Int} (h : IsInRange ⟨negative, m, e⟩) :
    (ofScaled negative m e).isSome := by
  have hmagnitude : ((m * (twoPow e).1 : Nat) : ℚ) / ((twoPow e).2 : Nat) =
      magnitude ⟨negative, m, e⟩ := by
    rw [magnitude, ← twoPow_div, Nat.cast_mul, mul_div_assoc]
  refine isSome_round negative (twoPow_snd_pos e) ?_
  rw [hmagnitude]
  exact magnitude_lt_roundingLimit h

/-- **What is no finite number**: only an exponent field of all ones, if the finite numbers of the
format are numbers of binary64. -/
theorem ofBits?_eq_none_iff {exponentWidth fractionWidth : Nat} {low : Int}
    (hfraction : 2 * 2 ^ fractionWidth ≤ significandBound) (hlow : minExponent ≤ low)
    (hmax : low ≤ maxExponent) (hhigh : low + (2 ^ exponentWidth : Nat) - 3 ≤ maxExponent)
    (bits : Nat) :
    ofBits? exponentWidth fractionWidth low bits = none ↔
      bits / 2 ^ fractionWidth % 2 ^ exponentWidth = 2 ^ exponentWidth - 1 := by
  have hfield : bits / 2 ^ fractionWidth % 2 ^ exponentWidth < 2 ^ exponentWidth :=
    Nat.mod_lt _ (Nat.pow_pos (by decide))
  have hpart : bits / 2 ^ 0 % 2 ^ fractionWidth < 2 ^ fractionWidth :=
    Nat.mod_lt _ (Nat.pow_pos (by decide))
  -- every exponent but the last gives a number of the range
  have hsome : ∀ {negative : Bool} {m : Nat} {e : Int}, m < significandBound → minExponent ≤ e →
      e ≤ maxExponent → ofScaled negative m e ≠ none := fun hm hmin hmax =>
    Option.isSome_iff_ne_none.1 (isSome_ofScaled ⟨hm, hmin, hmax⟩)
  show (if bits / 2 ^ fractionWidth % 2 ^ exponentWidth = 2 ^ exponentWidth - 1 then none
    else if bits / 2 ^ fractionWidth % 2 ^ exponentWidth = 0 then ofScaled _
      (bits / 2 ^ 0 % 2 ^ fractionWidth) low
    else ofScaled _ (2 ^ fractionWidth + bits / 2 ^ 0 % 2 ^ fractionWidth)
      (low + ((bits / 2 ^ fractionWidth % 2 ^ exponentWidth : Nat) : Int) - 1)) = none ↔ _
  -- only the bounds of the fields matter from here on
  generalize bits / 2 ^ fractionWidth % 2 ^ exponentWidth = field at hfield ⊢
  generalize bits / 2 ^ 0 % 2 ^ fractionWidth = part at hpart ⊢
  generalize 2 ^ exponentWidth = fields at hfield hhigh ⊢
  generalize 2 ^ fractionWidth = fractions at hfraction hpart ⊢
  by_cases hones : field = fields - 1
  · simp [hones]
  · rw [if_neg hones]
    have hnotnone : ∀ x : Option Binary64, x ≠ none → (x = none ↔ field = fields - 1) := fun x hx =>
      iff_of_false hx hones
    split
    next => exact hnotnone _ (hsome (by omega) hlow hmax)
    next => exact hnotnone _ (hsome (by omega) (by omega) (by omega))

end LinkQuery.Binary64
