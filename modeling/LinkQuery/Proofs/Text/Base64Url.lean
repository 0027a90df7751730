import LinkQuery.Text.Base64Url

/-!
# Base64 round trip

The digits of a list of bytes are read back as these bytes (`decode?_encode`), and they are taken
from the alphabet (`mem_alphabet_of_mem_encode`).
-/

namespace LinkQuery.Text.Base64Url

/-- A digit has the value it was made from. -/
theorem value?_digit {n : Nat} (h : n < 64) : value? (digit n) = some n := by
  have hall : ∀ i : Fin 64, value? (digit i) = some i.val := by decide +kernel
  exact hall ⟨n, h⟩

/-- Every digit is one of the alphabet. -/
theorem digit_mem_alphabet (n : Nat) : digit n ∈ alphabet := by
  unfold digit
  rw [List.getD_eq_getElem?_getD]
  cases hdigit : alphabet[n]? with
  | none => exact (by decide : 'A' ∈ alphabet)
  | some c => exact List.mem_of_getElem? hdigit

/-- A number is made of its digits, of which there are two, three or four. -/
theorem join_two (n : Nat) : n / 64 * 64 + n % 64 = n := by omega

theorem join_three (n : Nat) : n / 4096 * 4096 + n / 64 % 64 * 64 + n % 64 = n := by
  have hdiv : n / 4096 = n / 64 / 64 := (Nat.div_div_eq_div_mul n 64 64).symm
  rw [hdiv]
  omega

theorem join_four (n : Nat) :
    n / 262144 * 262144 + n / 4096 % 64 * 4096 + n / 64 % 64 * 64 + n % 64 = n := by
  have hdiv : n / 4096 = n / 64 / 64 := (Nat.div_div_eq_div_mul n 64 64).symm
  have hdiv' : n / 262144 = n / 64 / 64 / 64 := by
    rw [Nat.div_div_eq_div_mul n 64 64, Nat.div_div_eq_div_mul n (64 * 64) 64]
  rw [hdiv, hdiv']
  omega

/-- **The digits of bytes are read back.** -/
theorem decode?_encode (bytes : List UInt8) : decode? (encode bytes) = some bytes := by
  match bytes with
  | [] => rfl
  -- one byte left over takes two digits, with four spare bits
  | [a] =>
    have ha := a.toNat_lt
    rw [encode, decode?, value?_digit (by omega), value?_digit (by omega)]
    have hspare : a.toNat * 16 % 16 = 0 := by omega
    have hfirst : a.toNat * 16 / 16 = a.toNat := by omega
    simp [join_two, hspare, hfirst]
  -- two bytes take three digits, with two spare bits
  | [a, b] =>
    have ha := a.toNat_lt
    have hb := b.toNat_lt
    rw [encode, decode?, value?_digit (by omega), value?_digit (by omega), value?_digit (by omega)]
    generalize hn : a.toNat * 1024 + b.toNat * 4 = n
    have hspare : n % 4 = 0 := by omega
    have hfirst : n / 1024 = a.toNat := by omega
    have hsecond : n / 4 % 256 = b.toNat := by omega
    simp [join_three, hspare, hfirst, hsecond]
  -- three bytes are four digits and leave nothing spare
  | a :: b :: c :: rest =>
    have ha := a.toNat_lt
    have hb := b.toNat_lt
    have hc := c.toNat_lt
    rw [encode, decode?, value?_digit (by omega), value?_digit (by omega), value?_digit (by omega),
      value?_digit (by omega), decode?_encode rest]
    generalize hn : a.toNat * 65536 + b.toNat * 256 + c.toNat = n
    have hfirst : n / 65536 = a.toNat := by omega
    have hsecond : n / 256 % 256 = b.toNat := by omega
    have hthird : n % 256 = c.toNat := by omega
    simp [join_four, hfirst, hsecond, hthird]

/-- An encoded text consists of digits only. -/
theorem mem_alphabet_of_mem_encode {bytes : List UInt8} {c : Char} (h : c ∈ encode bytes) :
    c ∈ alphabet := by
  fun_induction encode bytes with
  | case1 a b c' rest n ih =>
    -- four digits, and then those of the rest
    simp only [List.mem_cons] at h
    rcases h with rfl | rfl | rfl | rfl | h
    · exact digit_mem_alphabet _
    · exact digit_mem_alphabet _
    · exact digit_mem_alphabet _
    · exact digit_mem_alphabet _
    · exact ih h
  | case2 a b n =>
    simp only [List.mem_cons, List.not_mem_nil, or_false] at h
    rcases h with rfl | rfl | rfl <;> exact digit_mem_alphabet _
  | case3 a n =>
    simp only [List.mem_cons, List.not_mem_nil, or_false] at h
    rcases h with rfl | rfl <;> exact digit_mem_alphabet _
  | case4 => simp at h

end LinkQuery.Text.Base64Url
