import LinkQuery.Json.Printer
import Mathlib.Algebra.Group.Nat.Defs
import Mathlib.Data.List.Basic

/-!
# Reading back the literals of numbers

* `Literal.exists_intChars`: an integer of 64 bits is read back from its literal. `intDocument` is
  what any integer is read as.
* `Literal.exists_floatChars`: the literal of a float is well formed, shows that it is a float, and
  denotes its shortest decimal. What it is read as, `Binary64.reread?`, need not be the float that
  was written, for a float is read with more than one rounding.
* `Literal.isWordChar_of_ofChars?`: a literal is a word, so it is read as one token.
-/

namespace LinkQuery

namespace Json

/-! ### Digits -/

/-- The value of a decimal digit. -/
def digitValue (c : Char) : Nat := c.toNat - '0'.toNat

theorem natChars_isDigit {n : Nat} {c : Char} (h : c ∈ natChars n) : c.isDigit :=
  Nat.isDigit_of_mem_toDigits (by decide) (by decide) h

theorem natChars_ne_nil (n : Nat) : natChars n ≠ [] := Nat.toDigits_ne_nil

/-- A positive number does not start with a zero. -/
theorem head?_natChars {n : Nat} (h : 0 < n) : (natChars n).head? ≠ some '0' := by
  unfold natChars
  induction n using Nat.strongRecOn with
  | _ n ih =>
    by_cases hsmall : n < 10
    · rw [Nat.toDigits_of_lt_base hsmall]
      intro heq
      have hzero : n = 0 := Nat.digitChar_eq_zero.1 (by simpa using heq)
      omega
    · -- the leading digits are those of the tenth part
      rw [Nat.toDigits_of_base_le (by decide) (by omega)]
      rw [List.head?_append_of_ne_nil _ Nat.toDigits_ne_nil]
      exact ih (n / 10) (by omega) (by omega)

namespace Literal

/-- The digits of a number have its value. -/
theorem ofDigits_natChars (n : Nat) : ofDigits ((natChars n).map digitValue) = n := by
  have hfold : ∀ (cs : List Char) (init : Nat),
      (cs.map digitValue).foldl (fun n d => n * 10 + d) init = Nat.ofDigitChars 10 cs init := by
    intro cs init
    rw [Nat.ofDigitChars_eq_foldl, List.foldl_map]
    simp only [digitValue, Nat.mul_comm 10]
  rw [ofDigits, hfold]
  exact Nat.ofDigitChars_ten_toDigits

/-- What digits are worth behind a number. -/
theorem foldl_digits (n : Nat) (ds : List Nat) :
    ds.foldl (fun n d => n * 10 + d) n = n * 10 ^ ds.length + ofDigits ds := by
  unfold ofDigits
  induction ds generalizing n with
  | nil => simp
  | cons d ds ih =>
    rw [List.foldl_cons, List.foldl_cons, ih (n * 10 + d), ih (0 * 10 + d), List.length_cons,
      Nat.pow_succ, Nat.add_mul, Nat.mul_assoc, Nat.mul_comm 10, Nat.zero_mul, Nat.zero_add,
      Nat.add_assoc]

/-- Digits that follow others count them as so many powers of ten. -/
theorem ofDigits_append (ds es : List Nat) :
    ofDigits (ds ++ es) = ofDigits ds * 10 ^ es.length + ofDigits es := by
  rw [ofDigits, List.foldl_append, foldl_digits]
  rfl

theorem ofDigits_zeros (n : Nat) : ofDigits ((List.replicate n '0').map digitValue) = 0 := by
  induction n with
  | zero => rfl
  | succ n ih =>
    rw [List.replicate_succ', List.map_append, ofDigits_append, ih, Nat.zero_mul, Nat.zero_add]
    rfl

theorem digitValue_lt {c : Char} (h : c.isDigit) : digitValue c < 10 := by
  simp only [Char.isDigit, Bool.and_eq_true, decide_eq_true_eq] at h
  have hle : c.toNat ≤ '9'.toNat := h.2
  have hnine : '9'.toNat = 57 := rfl
  have hzero : '0'.toNat = 48 := rfl
  unfold digitValue
  omega

/-- So many digits stay below that power of ten. -/
theorem ofDigits_lt {ds : List Char} (h : ∀ c ∈ ds, c.isDigit) :
    ofDigits (ds.map digitValue) < 10 ^ ds.length := by
  induction ds with
  | nil => exact Nat.one_pos
  | cons d ds ih =>
    have hd := digitValue_lt (h d List.mem_cons_self)
    have hds := ih fun c hc => h c (List.mem_cons_of_mem d hc)
    have hfirst : ofDigits [digitValue d] = digitValue d := Nat.zero_add _
    rw [List.map_cons, ← List.singleton_append, ofDigits_append, hfirst, List.length_map,
      List.length_cons, Nat.pow_succ]
    have hmul := Nat.mul_le_mul_right (10 ^ ds.length) (Nat.le_of_lt_succ hd)
    omega

/-- Digits are read up to the first character that is none. -/
theorem spanDigits_append {ds : List Char} (hds : ∀ c ∈ ds, c.isDigit) (rest : List Char)
    (hrest : ∀ c ∈ rest.head?, c.isDigit = false) :
    spanDigits (ds ++ rest) = (ds.map digitValue, rest) := by
  have hspan : (ds ++ rest).takeWhile Char.isDigit = ds ∧
      (ds ++ rest).dropWhile Char.isDigit = rest := by
    induction ds with
    | nil =>
      cases rest with
      | nil => exact ⟨rfl, rfl⟩
      | cons c rest =>
        have hc : c.isDigit = false := hrest c rfl
        simp [hc]
    | cons d ds ih =>
      have hd : d.isDigit = true := hds d List.mem_cons_self
      have ih := ih fun c hc => hds c (List.mem_cons_of_mem d hc)
      simp [hd, ih.1, ih.2]
  rw [spanDigits, hspan.1, hspan.2]
  rfl

/-- Digits that may stand before the point: without a zero in front, or a zero alone. -/
structure IsWhole (ds : List Char) : Prop where
  isDigit : ∀ c ∈ ds, c.isDigit
  ne_nil : ds ≠ []
  head : ds.head? = some '0' → ds = ['0']

theorem isWhole_zero : IsWhole ['0'] := ⟨List.all_eq_true.1 rfl, by decide, fun _ => rfl⟩

/-- A number is written without leading zeros. -/
theorem isWhole_natChars (n : Nat) : IsWhole (natChars n) := by
  refine ⟨fun c => natChars_isDigit, natChars_ne_nil n, fun hhead => ?_⟩
  by_cases hn : 0 < n
  · exact absurd hhead (head?_natChars hn)
  · obtain rfl : n = 0 := by omega
    rfl

/-- More digits may follow where the first one is no zero. -/
theorem IsWhole.append {ds zeros : List Char} (h : IsWhole ds) (hhead : ds.head? ≠ some '0')
    (hzeros : ∀ c ∈ zeros, c.isDigit) : IsWhole (ds ++ zeros) := by
  refine ⟨fun c hc => (List.mem_append.1 hc).elim (h.isDigit c) (hzeros c), ?_, fun hfirst => ?_⟩
  · simp [h.ne_nil]
  · rw [List.head?_append_of_ne_nil _ h.ne_nil] at hfirst
    exact absurd hfirst hhead

/-- Fewer digits may stand there where the first one is no zero. -/
theorem IsWhole.take {ds : List Char} (h : IsWhole ds) (hhead : ds.head? ≠ some '0') {n : Nat}
    (hn : 0 < n) : IsWhole (ds.take n) := by
  have hfirst : (ds.take n).head? = ds.head? := by rw [List.head?_take, if_neg (Nat.ne_of_gt hn)]
  refine ⟨fun c hc => h.isDigit c (List.mem_of_mem_take hc), ?_, fun hzero => ?_⟩
  · rw [Ne, List.take_eq_nil_iff]
    exact fun hnil => hnil.elim (Nat.ne_of_gt hn) h.ne_nil
  · exact absurd (hfirst ▸ hzero) hhead

theorem digitValue_eq_zero {c : Char} (h : c.isDigit) (hzero : digitValue c = 0) : c = '0' := by
  simp only [Char.isDigit, Bool.and_eq_true, decide_eq_true_eq] at h
  have hge : '0'.toNat ≤ c.toNat := h.1
  have hle : c.toNat ≤ '0'.toNat := Nat.le_of_sub_eq_zero hzero
  exact Char.toNat_inj.1 (Nat.le_antisymm hle hge)

/-- The whole part ends where the digits do. -/
theorem whole?_append {ds : List Char} (h : IsWhole ds) (rest : List Char)
    (hrest : ∀ c ∈ rest.head?, c.isDigit = false) :
    whole? (ds ++ rest) = some (ds.map digitValue, rest) := by
  rw [whole?, spanDigits_append h.isDigit rest hrest]
  match ds with
  | [] => exact absurd rfl h.ne_nil
  | [d] => split <;> simp_all
  | d :: e :: ds =>
    -- a zero in front of other digits is refused
    have hd : digitValue d ≠ 0 := by
      intro hzero
      obtain rfl := digitValue_eq_zero (h.isDigit d List.mem_cons_self) hzero
      simpa using h.head rfl
    split <;> simp_all

/-- A fraction is a point with digits behind it. -/
theorem fraction?_point {ds : List Char} (hds : ∀ c ∈ ds, c.isDigit) (hne : ds ≠ [])
    (rest : List Char) (hrest : ∀ c ∈ rest.head?, c.isDigit = false) :
    fraction? ('.' :: (ds ++ rest)) = some (ds.map digitValue, rest) := by
  rw [fraction?, spanDigits_append hds rest hrest]
  cases ds with
  | nil => exact absurd rfl hne
  | cons d ds => rfl

/-- An exponent is its mark, its sign and its digits. -/
theorem exponent?_mark {ds : List Char} (down : Prop) [Decidable down] (hds : ∀ c ∈ ds, c.isDigit)
    (hne : ds ≠ []) :
    exponent? ('e' :: (if down then '-' else '+') :: ds) =
      some (some (decide down, ds.map digitValue)) := by
  have hspan : spanDigits ds = (ds.map digitValue, []) := by
    simpa using spanDigits_append hds [] (by simp)
  have hdigits : ∀ down, exponentDigits? down ds = some (some (down, ds.map digitValue)) := by
    intro down
    rw [exponentDigits?, hspan]
    cases ds with
    | nil => exact absurd rfl hne
    | cons d ds => rfl
  by_cases hdown : down <;> simp [hdown, exponent?, hdigits]

/-! ### Integers -/

theorem ofChars?_of_unsigned? {cs : List Char} {l : Literal} (h : unsigned? false cs = some l) :
    ofChars? cs = some l := by
  unfold ofChars?
  split
  next rest =>
    -- a sign is no digit
    simp [unsigned?, whole?, spanDigits] at h
  next => exact h

/-- A whole part alone is read as a literal. -/
theorem unsigned?_whole {ds : List Char} (h : IsWhole ds) (negative : Bool) :
    unsigned? negative ds = some ⟨negative, ds.map digitValue, [], none⟩ := by
  have hwhole := whole?_append h [] (by simp)
  rw [List.append_nil] at hwhole
  simp [unsigned?, hwhole, fraction?, exponent?]

/-- **An integer of 64 bits is read back from its literal**, and any other one is read as a float.
-/
theorem exists_intChars (i : Int) :
    ∃ l, ofChars? (intChars i) = some l ∧
      l.value = if minSigned ≤ i ∧ i ≤ maxWord then .integer i else .real l.toBinary64 := by
  cases i with
  | ofNat n =>
    refine ⟨_, ofChars?_of_unsigned? (unsigned?_whole (isWhole_natChars n) false), ?_⟩
    have hmin : minSigned ≤ Int.ofNat n := Int.le_trans (by decide) (Int.natCast_nonneg n)
    by_cases hmax : n ≤ maxWord
    · rw [if_pos ⟨hmin, Int.ofNat_le.2 hmax⟩]
      simp [value, ofDigits_natChars, hmax]
    · rw [if_neg fun h => hmax (Int.ofNat_le.1 h.2)]
      simp [value, ofDigits_natChars, hmax]
  | negSucc n =>
    refine ⟨_, unsigned?_whole (isWhole_natChars (n + 1)) true, ?_⟩
    have hnonneg : (0 : Int) ≤ maxWord := by decide
    have hmax : Int.negSucc n ≤ maxWord :=
      Int.le_trans (Int.le_of_lt (Int.negSucc_lt_zero n)) hnonneg
    have hneg : -((n + 1 : Nat) : Int) = Int.negSucc n := rfl
    simp only [value, ofDigits_natChars, and_self, if_true, hneg]
    rw [if_neg (by simp)]
    by_cases hmin : minSigned ≤ Int.negSucc n
    · rw [if_pos ⟨trivial, Nat.succ_pos n, hmin⟩, if_pos ⟨hmin, hmax⟩]
    · rw [if_neg fun h => hmin h.2.2, if_neg fun h => hmin h.1]

/-! ### Floats -/

/-- So is a whole part with a fraction. -/
theorem unsigned?_fraction {w f : List Char} (hw : IsWhole w) (hf : ∀ c ∈ f, c.isDigit)
    (hne : f ≠ []) (negative : Bool) :
    unsigned? negative (w ++ '.' :: f) =
      some ⟨negative, w.map digitValue, f.map digitValue, none⟩ := by
  have hwhole := whole?_append hw ('.' :: f) (by simp)
  have hfraction := fraction?_point hf hne [] (by simp)
  rw [List.append_nil] at hfraction
  simp [unsigned?, hwhole, hfraction, exponent?]

/-- So is a whole part with an exponent. -/
theorem unsigned?_exponent {w ds : List Char} (hw : IsWhole w) (hds : ∀ c ∈ ds, c.isDigit)
    (hne : ds ≠ []) (negative : Bool) (down : Prop) [Decidable down] :
    unsigned? negative (w ++ 'e' :: (if down then '-' else '+') :: ds) =
      some ⟨negative, w.map digitValue, [], some (decide down, ds.map digitValue)⟩ := by
  have hwhole := whole?_append hw ('e' :: (if down then '-' else '+') :: ds) (by simp)
  have hexponent := exponent?_mark down hds hne
  simp [unsigned?, hwhole, fraction?, hexponent]

/-- So is a whole part with a fraction and an exponent. -/
theorem unsigned?_fraction_exponent {w f ds : List Char} (hw : IsWhole w)
    (hf : ∀ c ∈ f, c.isDigit) (hfne : f ≠ []) (hds : ∀ c ∈ ds, c.isDigit) (hne : ds ≠ [])
    (negative : Bool) (down : Prop) [Decidable down] :
    unsigned? negative (w ++ '.' :: (f ++ 'e' :: (if down then '-' else '+') :: ds)) =
      some ⟨negative, w.map digitValue, f.map digitValue,
        some (decide down, ds.map digitValue)⟩ := by
  have hwhole := whole?_append hw
    ('.' :: (f ++ 'e' :: (if down then '-' else '+') :: ds)) (by simp)
  have hfraction := fraction?_point hf hfne
    ('e' :: (if down then '-' else '+') :: ds) (by simp)
  have hexponent := exponent?_mark down hds hne
  simp [unsigned?, hwhole, hfraction, hexponent]

/-- Whether a literal shows that it is a float. -/
def showsFloat (l : Literal) : Prop := ¬ (l.fraction = [] ∧ l.exponent = none)

/-- A literal that looks like a float is read as one. -/
theorem value_of_showsFloat {l : Literal} (h : l.showsFloat) : l.value = .real l.toBinary64 := by
  rw [value]
  exact if_neg h

/-- Whether a literal shows that it is a float and denotes `digits * 10 ^ power`, so that the digits
before its point form a number of 64 bits. It may have further zeros behind the digits. -/
structure WritesFloat (l : Literal) (digits : Nat) (power : Int) : Prop where
  showsFloat : l.showsFloat
  whole : ofDigits l.whole ≤ maxWord
  digits : ∃ zeros : Nat, ofDigits (l.whole ++ l.fraction) = digits * 10 ^ zeros ∧
    l.power - l.fraction.length = power - zeros

theorem ofDigits_le_maxWord {ds : List Char} (h : ∀ c ∈ ds, c.isDigit) (hlength : ds.length ≤ 16) :
    ofDigits (ds.map digitValue) ≤ maxWord := by
  have hpow : 10 ^ ds.length ≤ 10 ^ 16 := Nat.pow_le_pow_right (by decide) hlength
  exact Nat.le_of_lt (Nat.lt_of_lt_of_le (ofDigits_lt h) (Nat.le_trans hpow (by decide)))

/-- The exponent that is written is the one that is read. -/
theorem power_mark (negative : Bool) (whole fraction : List Nat) (e : Int) :
    power ⟨negative, whole, fraction, some (decide (e < 0), (natChars e.natAbs).map digitValue)⟩ =
      e := by
  simp only [power, ofDigits_natChars, decide_eq_true_eq]
  split <;> omega

/-- The layout with a point: what counts are the digits, and how many of them stand behind it. -/
theorem exists_unsigned?_point {digits : Nat} {power : Int} {w f : List Char} (hw : IsWhole w)
    (zeros : Nat) (hlength : w.length ≤ 16) (hf : ∀ c ∈ f, c.isDigit) (hne : f ≠ [])
    (hdigits : ofDigits ((w ++ f).map digitValue) = digits * 10 ^ zeros)
    (hplaces : -(f.length : Int) = power - zeros) (negative : Bool) :
    ∃ l, unsigned? negative (w ++ '.' :: f) = some l ∧ l.WritesFloat digits power := by
  refine ⟨_, unsigned?_fraction hw hf hne negative, fun hnone => ?_,
    ofDigits_le_maxWord hw.isDigit hlength, zeros, ?_, ?_⟩
  · exact hne (List.map_eq_nil_iff.1 hnone.1)
  · rw [← List.map_append, hdigits]
  · rw [List.length_map, ← hplaces, Literal.power, Int.zero_sub]

/-- The layout with an exponent: one digit, and the others behind the point. -/
theorem exists_unsigned?_mantissa {digits : Nat} {power leading : Int}
    (hleading : power + (natChars digits).length - 1 = leading) (negative : Bool) :
    ∃ l, unsigned? negative
        ((match natChars digits with
          | [] => []
          | [d] => [d]
          | d :: rest => d :: '.' :: rest) ++
          'e' :: (if leading < 0 then '-' else '+') :: natChars leading.natAbs) = some l ∧
      l.WritesFloat digits power := by
  have hdigits : ∀ c ∈ natChars digits, c.isDigit := fun c => natChars_isDigit
  have hvalue := ofDigits_natChars digits
  have hexponent : ∀ c ∈ natChars leading.natAbs, c.isDigit := fun c => natChars_isDigit
  have hne := natChars_ne_nil leading.natAbs
  match hds : natChars digits with
  | [] => exact absurd hds (natChars_ne_nil digits)
  | [d] =>
    have hw : IsWhole [d] := hds ▸ isWhole_natChars digits
    rw [hds] at hleading hvalue
    refine ⟨_, unsigned?_exponent hw hexponent hne negative (leading < 0), fun hnone => ?_,
      ofDigits_le_maxWord hw.isDigit (by simp), 0, ?_, ?_⟩
    · exact absurd hnone.2 nofun
    · rw [List.append_nil, hvalue, Nat.pow_zero, Nat.mul_one]
    · rw [power_mark, ← hleading]
      simp
  | d :: e :: rest =>
    rw [hds] at hleading hvalue hdigits
    have hw : IsWhole [d] := ⟨fun c hc => hdigits c (by simp_all), by simp, by simp⟩
    have hf : ∀ c ∈ e :: rest, c.isDigit := fun c hc => hdigits c (List.mem_cons_of_mem d hc)
    have hread := unsigned?_fraction_exponent hw hf (List.cons_ne_nil e rest) hexponent hne negative
      (leading < 0)
    refine ⟨_, hread, fun hnone => ?_, ofDigits_le_maxWord hw.isDigit (by simp), 0, ?_, ?_⟩
    · exact absurd hnone.2 nofun
    · rw [← List.map_append, List.singleton_append, hvalue, Nat.pow_zero, Nat.mul_one]
    · simp only [List.length_cons] at hleading
      rw [power_mark, List.length_map, List.length_cons]
      omega

/-- A decimal that does not start with a zero, or that is small enough for an exponent, is written
as a literal that shows that it is a float. -/
theorem exists_unsigned?_decimalChars {digits : Nat} {power : Int} (h : 0 < digits ∨ power < -5)
    (negative : Bool) :
    ∃ l, unsigned? negative (decimalChars digits power) = some l ∧ l.WritesFloat digits power := by
  have hwhole := isWhole_natChars digits
  have hvalue := ofDigits_natChars digits
  have hzeros : ∀ n, ∀ c ∈ List.replicate n '0', c.isDigit := by
    intro n c hc
    rw [(List.mem_replicate.1 hc).2]
    decide
  have hhead : -5 ≤ power + (natChars digits).length - 1 → (natChars digits).head? ≠ some '0' := by
    intro hleading
    refine head?_natChars (Nat.pos_of_ne_zero fun hzero => ?_)
    -- a zero has one digit, so its exponent would be the power
    have hone : (natChars digits).length = 1 := by rw [hzero]; rfl
    rw [hone] at hleading
    omega
  unfold decimalChars
  dsimp only
  split
  next hcase =>
    -- zeros up to the point, and one behind it
    have hw := hwhole.append (hhead (by omega)) (hzeros power.toNat)
    refine exists_unsigned?_point hw (power.toNat + 1) ?_ isWhole_zero.isDigit
      isWhole_zero.ne_nil ?_ ?_
      negative
    · rw [List.length_append, List.length_replicate]
      omega
    · rw [List.append_assoc, ← List.replicate_succ', List.map_append, ofDigits_append, hvalue,
        ofDigits_zeros, List.length_map, List.length_replicate, Nat.add_zero]
    · rw [List.length_singleton]
      omega
  next hcase =>
    split
    next hleading =>
      -- the point stands between the digits
      generalize hplace : (power + (natChars digits).length - 1 + 1).toNat = place
      have hw : IsWhole ((natChars digits).take place) := hwhole.take (hhead (by omega)) (by omega)
      refine exists_unsigned?_point hw 0 ?_
        (fun c hc => hwhole.isDigit c (List.mem_of_mem_drop hc)) ?_ ?_ ?_ negative
      · rw [List.length_take]
        omega
      · rw [Ne, List.drop_eq_nil_iff]
        omega
      · rw [List.take_append_drop, hvalue, Nat.pow_zero, Nat.mul_one]
      · rw [List.length_drop]
        omega
    next hleading =>
      split
      next hsmall =>
        -- zeros behind the point
        generalize hcount : (-(power + (natChars digits).length - 1) - 1).toNat = count
        refine exists_unsigned?_point isWhole_zero 0 (by decide)
          (fun c hc => (List.mem_append.1 hc).elim (hzeros count c) (hwhole.isDigit c)) ?_ ?_ ?_
            negative
        · exact List.append_ne_nil_of_right_ne_nil _ hwhole.ne_nil
        · rw [← List.append_assoc, List.map_append, ofDigits_append, hvalue, List.singleton_append,
            ← List.replicate_succ, ofDigits_zeros, Nat.zero_mul, Nat.zero_add, Nat.pow_zero,
            Nat.mul_one]
        · rw [List.length_append, List.length_replicate]
          omega
      next hsmall => exact exists_unsigned?_mantissa rfl negative

end Literal

/-! ### The shortest decimal -/

end Json

namespace Binary64

/-- A grid point that rounds to a number other than zero is not zero. -/
theorem pos_of_onGrid {x : Binary64} {power : Int} {d : Nat} (hx : x.isZero = false)
    (h : x.onGrid power = some d) : 0 < d := by
  have hsignificand : 0 < x.significand := by
    simpa [isZero, Nat.pos_iff_ne_zero] using hx
  have hlow : 0 < x.roundingInterval.1 := by
    unfold roundingInterval
    dsimp only
    split <;> omega
  have hscale : 0 < (twoPow (x.exponent - 2)).1 * Nat.pow 10 (-power).toNat :=
    Nat.mul_pos (Nat.pow_pos (by decide)) (Nat.pow_pos (by decide))
  -- zero lies below the lower end of the interval
  have hend := Nat.mul_pos hlow hscale
  unfold onGrid at h
  dsimp only at h
  generalize (twoPow (x.exponent - 2)).1 * Nat.pow 10 (-power).toNat = scale at h hend
  generalize (twoPow (x.exponent - 2)).2 * Nat.pow 10 power.toNat = unit at h
  generalize x.roundingInterval.2.1 * scale / unit = below at h
  have houtside : below = 0 → (if x.significand % 2 = 0 then
      decide (x.roundingInterval.1 * scale ≤ below * unit ∧
        below * unit ≤ x.roundingInterval.2.2 * scale)
      else decide (x.roundingInterval.1 * scale < below * unit ∧
        below * unit < x.roundingInterval.2.2 * scale)) = false := by
    rintro rfl
    rw [Nat.zero_mul]
    split <;> exact decide_eq_false (by omega)
  split at h
  next hbelow _ =>
    have hpos : below ≠ 0 := fun hzero =>
      Bool.false_ne_true ((houtside hzero).symm.trans hbelow)
    split at h <;> (have hd := Option.some.inj h; omega)
  next hbelow _ =>
    have hpos : below ≠ 0 := fun hzero =>
      Bool.false_ne_true ((houtside hzero).symm.trans hbelow)
    have hd := Option.some.inj h
    omega
  next =>
    have hd := Option.some.inj h
    omega
  next => simp at h

theorem searchGrids_spec {x : Binary64} (hx : x.isZero = false) (steps : Nat) :
    0 < (x.searchGrids steps).1 ∨ (x.searchGrids steps).2 = finestPower := by
  induction steps with
  | zero => exact .inr rfl
  | succ steps ih =>
    unfold searchGrids
    dsimp only
    split
    next d hd => exact .inl (pos_of_onGrid hx hd)
    next => exact ih

end Binary64

/-- The decimal that a float is written as. -/
def Binary64.written (x : Binary64) : Nat × Int := if x.isZero then (0, 0) else x.shortest

namespace Json.Literal

/-- **The literal of a float is well formed**, and it shows that it is a float. -/
theorem exists_floatChars (x : Binary64) :
    ∃ l, ofChars? (floatChars x) = some l ∧ l.WritesFloat x.written.1 x.written.2 := by
  have hmagnitude : ∀ negative, ∃ l, unsigned? negative
      (if x.isZero then ['0', '.', '0'] else decimalChars x.shortest.1 x.shortest.2) = some l ∧
        l.WritesFloat x.written.1 x.written.2 := by
    intro negative
    unfold Binary64.written
    cases hzero : x.isZero with
    | true =>
      have hread := unsigned?_fraction isWhole_zero isWhole_zero.isDigit isWhole_zero.ne_nil
          negative
      exact ⟨_, hread, fun hnone => by simp at hnone, Nat.zero_le maxWord, 1, rfl, rfl⟩
    | false =>
      have hshortest := Binary64.searchGrids_spec hzero 652
      refine exists_unsigned?_decimalChars (hshortest.imp id fun hpower => ?_) negative
      rw [Binary64.shortest, hpower]
      decide
  unfold floatChars
  dsimp only
  cases x.negative with
  | true => exact hmagnitude true
  | false =>
    obtain ⟨l, hread, hwrites⟩ := hmagnitude false
    exact ⟨l, ofChars?_of_unsigned? hread, hwrites⟩

end Json.Literal

/-- What the literal of an integer is read as. -/
def Json.intDocument (i : Int) : Document :=
  if minSigned ≤ i ∧ i ≤ maxWord then .integer i
  else .real ((Json.Literal.ofChars? (Json.intChars i)).bind Json.Literal.toBinary64)

/-- What the literal of a float is read as. -/
def Binary64.reread? (x : Binary64) : Option Binary64 :=
  (Json.Literal.ofChars? (Json.floatChars x)).bind Json.Literal.toBinary64

namespace Json

/-! ### Words -/

/-- A number literal is a word of its value. -/
theorem word?_of_ofChars? {cs : List Char} {l : Literal} (h : Literal.ofChars? cs = some l) :
    word? cs = some (.scalar l.value) := by
  have hne : ∀ word, Literal.ofChars? word = none → cs ≠ word := by
    rintro word hword rfl
    rw [hword] at h
    exact absurd h nofun
  rw [word?, if_neg (hne _ (by decide)), if_neg (hne _ (by decide)), if_neg (hne _ (by decide)), h]
  rfl

/-- An integer is read back from its digits. -/
theorem word?_intChars (i : Int) : word? (intChars i) = some (.scalar (intDocument i)) := by
  obtain ⟨l, hread, hvalue⟩ := Literal.exists_intChars i
  rw [word?_of_ofChars? hread, hvalue, intDocument, hread, Option.bind_some]

/-- A float is read back as the nearest one to its literal. -/
theorem word?_floatChars (x : Binary64) :
    word? (floatChars x) = some (.scalar (.real x.reread?)) := by
  obtain ⟨l, hread, hwrites⟩ := Literal.exists_floatChars x
  rw [word?_of_ofChars? hread, Literal.value_of_showsFloat hwrites.showsFloat, Binary64.reread?,
    hread, Option.bind_some]

theorem isWordChar_of_isDigit {c : Char} (h : c.isDigit) : isWordChar c := by
  simp [isWordChar, Char.isAlphanum, h]

namespace Literal

variable {cs rest : List Char} {c : Char}

theorem isWordChar_or_mem_of_spanDigits {digits : List Nat}
    (h : spanDigits cs = (digits, rest)) (hc : c ∈ cs) : isWordChar c ∨ c ∈ rest := by
  have hrest : cs.dropWhile Char.isDigit = rest := congrArg Prod.snd h
  rw [← List.takeWhile_append_dropWhile (p := Char.isDigit) (l := cs), hrest] at hc
  refine (List.mem_append.1 hc).imp (fun hc => isWordChar_of_isDigit ?_) id
  exact List.all_eq_true.1 List.all_takeWhile c hc

theorem isWordChar_or_mem_of_whole? {digits : List Nat} (h : whole? cs = some (digits, rest))
    (hc : c ∈ cs) : isWordChar c ∨ c ∈ rest := by
  unfold whole? at h
  split at h
  next => simp at h
  next => simp at h
  next hspan =>
    obtain ⟨-, rfl⟩ := Prod.mk.inj (Option.some.inj h)
    exact isWordChar_or_mem_of_spanDigits hspan hc

theorem isWordChar_or_mem_of_fraction? {digits : List Nat}
    (h : fraction? cs = some (digits, rest)) (hc : c ∈ cs) : isWordChar c ∨ c ∈ rest := by
  unfold fraction? at h
  split at h
  next =>
    split at h
    next => simp at h
    next hspan =>
      obtain ⟨-, rfl⟩ := Prod.mk.inj (Option.some.inj h)
      rcases List.mem_cons.1 hc with rfl | hc
      · exact .inl rfl
      · exact isWordChar_or_mem_of_spanDigits hspan hc
  next =>
    obtain ⟨-, rfl⟩ := Prod.mk.inj (Option.some.inj h)
    exact .inr hc

theorem isWordChar_of_exponentDigits? {down : Bool} {e : Option (Bool × List Nat)}
    (h : exponentDigits? down cs = some e) (hc : c ∈ cs) : isWordChar c := by
  unfold exponentDigits? at h
  split at h
  next => simp at h
  next hspan => simpa using isWordChar_or_mem_of_spanDigits hspan hc
  next => simp at h

theorem isWordChar_of_exponent? {e : Option (Bool × List Nat)} (h : exponent? cs = some e)
    (hc : c ∈ cs) : isWordChar c := by
  unfold exponent? at h
  split at h
  next => simp at hc
  next mark tail =>
    split at h
    next hmark =>
      rcases List.mem_cons.1 hc with rfl | hc
      · rcases hmark with rfl | rfl <;> rfl
      · -- behind the mark stands a sign or the first digit
        split at h
        next =>
          rcases List.mem_cons.1 hc with rfl | hc
          · rfl
          · exact isWordChar_of_exponentDigits? h hc
        next =>
          rcases List.mem_cons.1 hc with rfl | hc
          · rfl
          · exact isWordChar_of_exponentDigits? h hc
        next => exact isWordChar_of_exponentDigits? h hc
    next => simp at h

/-- A number literal consists of the characters of a word. -/
theorem isWordChar_of_unsigned? {negative : Bool} {l : Literal}
    (h : unsigned? negative cs = some l) (hc : c ∈ cs) : isWordChar c := by
  obtain ⟨⟨digits, rest⟩, hwhole, h⟩ := Option.bind_eq_some_iff.1 h
  obtain ⟨⟨digits', rest'⟩, hfraction, h⟩ := Option.bind_eq_some_iff.1 h
  obtain ⟨exponent, hexponent, -⟩ := Option.bind_eq_some_iff.1 h
  rcases isWordChar_or_mem_of_whole? hwhole hc with hword | hc
  · exact hword
  · rcases isWordChar_or_mem_of_fraction? hfraction hc with hword | hc
    · exact hword
    · exact isWordChar_of_exponent? hexponent hc

/-- A literal is a word. -/
theorem isWordChar_of_ofChars? {l : Literal} (h : ofChars? cs = some l) (hc : c ∈ cs) :
    isWordChar c := by
  unfold ofChars? at h
  split at h
  next =>
    rcases List.mem_cons.1 hc with rfl | hc
    · rfl
    · exact isWordChar_of_unsigned? h hc
  next => exact isWordChar_of_unsigned? h hc

theorem ne_nil_of_ofChars? {l : Literal} (h : ofChars? cs = some l) : cs ≠ [] := by
  rintro rfl
  have hnone : ofChars? [] = none := by decide
  rw [hnone] at h
  exact absurd h nofun

end Literal

end Json

end LinkQuery
