/-!
# The order of names

Names are ordered by the code points of their characters, from left to right: a name comes before
those that continue it, and otherwise the first character in which two names differ decides. This is
also the order of their encodings as bytes.

`Text.precedes` is the order. It is strict and total: `precedes_irrefl`, `precedes_trans` and
`precedes_trichotomy`.
-/

namespace LinkQuery.Text

/-- The order of characters by code point, lifted to texts. -/
def precedesChars : List Char → List Char → Bool
  | [], [] => false
  | [], _ :: _ => true
  | _ :: _, [] => false
  | a :: as, b :: bs => a.toNat < b.toNat || (a == b && precedesChars as bs)

/-- Whether one name comes before another. -/
def precedes (a b : String) : Bool := precedesChars a.toList b.toList

/-! ### Lemmas -/

theorem precedesChars_irrefl (s : List Char) : precedesChars s s = false := by
  induction s with
  | nil => rfl
  | cons c cs ih => simp [precedesChars, ih]

theorem precedesChars_trans {s t u : List Char} (hst : precedesChars s t)
    (htu : precedesChars t u) : precedesChars s u := by
  induction s generalizing t u with
  | nil => cases t <;> cases u <;> simp_all [precedesChars]
  | cons a as ih =>
    cases t with
    | nil => simp [precedesChars] at hst
    | cons b bs =>
      cases u with
      | nil => simp [precedesChars] at htu
      | cons c cs =>
        simp only [precedesChars, Bool.or_eq_true, decide_eq_true_eq, Bool.and_eq_true,
          beq_iff_eq] at *
        rcases hst with hab | ⟨rfl, has⟩
        · rcases htu with hbc | ⟨rfl, _⟩
          · exact .inl (Nat.lt_trans hab hbc)
          · exact .inl hab
        · rcases htu with hbc | ⟨rfl, hbs⟩
          · exact .inl hbc
          · exact .inr ⟨rfl, ih has hbs⟩

theorem precedesChars_trichotomy (s t : List Char) :
    precedesChars s t ∨ s = t ∨ precedesChars t s := by
  induction s generalizing t with
  | nil => cases t <;> simp [precedesChars]
  | cons a as ih =>
    cases t with
    | nil => simp [precedesChars]
    | cons b bs =>
      simp only [precedesChars, Bool.or_eq_true, decide_eq_true_eq, Bool.and_eq_true, beq_iff_eq,
        List.cons.injEq]
      rcases Nat.lt_trichotomy a.toNat b.toNat with h | h | h
      · exact .inl (.inl h)
      · have hab : a = b := Char.toNat_inj.1 h
        rcases ih bs with h | h | h
        · exact .inl (.inr ⟨hab, h⟩)
        · exact .inr (.inl ⟨hab, h⟩)
        · exact .inr (.inr (.inr ⟨hab.symm, h⟩))
      · exact .inr (.inr (.inl h))

/-- No name comes before itself. -/
theorem precedes_irrefl (a : String) : precedes a a = false := precedesChars_irrefl a.toList

theorem precedes_trans {a b c : String} (hab : precedes a b) (hbc : precedes b c) : precedes a c :=
  precedesChars_trans hab hbc

/-- Of two different names one comes before the other. -/
theorem precedes_trichotomy (a b : String) : precedes a b ∨ a = b ∨ precedes b a := by
  rcases precedesChars_trichotomy a.toList b.toList with h | h | h
  · exact .inl h
  · exact .inr (.inl (String.toList_inj.1 h))
  · exact .inr (.inr h)

end LinkQuery.Text
