import Mathlib.Data.List.Forall2

/-!
# Outcomes of steps

A computation that may fail consists of steps, and it succeeds if each of its steps does. The lemmas
here take a success apart into the successes of the steps: `bind_eq_ok_iff` for one step after
another, `mapM_eq_ok_iff` for a step at each member of a list. `SucceedTogether` compares two
computations, step by step. `FailsOnly` says what a computation can fail with.
-/

namespace LinkQuery

variable {ε ε' α β : Type}

/-- A sequence succeeds when both of its steps do. -/
theorem bind_eq_ok_iff {x : Except ε α} {f : α → Except ε β} {b : β} :
    (x >>= f) = .ok b ↔ ∃ a, x = .ok a ∧ f a = .ok b := by
  cases x with
  | error e => simp [bind, Except.bind]
  | ok a => simp [bind, Except.bind]

/-- A sequence fails with the error of the step that fails. -/
theorem bind_eq_error_iff {x : Except ε α} {f : α → Except ε β} {e : ε} :
    (x >>= f) = .error e ↔ x = .error e ∨ ∃ a, x = .ok a ∧ f a = .error e := by
  cases x with
  | error e' => simp [bind, Except.bind]
  | ok a => simp [bind, Except.bind]

theorem map_eq_ok_iff {x : Except ε α} {f : α → β} {b : β} :
    x.map f = .ok b ↔ ∃ a, x = .ok a ∧ f a = b := by
  cases x with
  | error e => simp [Except.map]
  | ok a => simp [Except.map]

theorem map_eq_error_iff {x : Except ε α} {f : α → β} {e : ε} :
    x.map f = .error e ↔ x = .error e := by
  cases x with
  | error e' => simp [Except.map]
  | ok a => simp [Except.map]

theorem mapError_eq_ok_iff {x : Except ε α} {f : ε → ε'} {a : α} :
    x.mapError f = .ok a ↔ x = .ok a := by
  cases x with
  | error e => simp [Except.mapError]
  | ok b => simp [Except.mapError]

theorem toOption_eq_some_iff {x : Except ε α} {a : α} : x.toOption = some a ↔ x = .ok a := by
  cases x with
  | error e => simp [Except.toOption]
  | ok b => simp [Except.toOption]

/-- What is computed from the outcome of a run, where the outcome is known. -/
theorem eq_of_map_toOption {x : Except ε α} {a : α} (h : x = .ok a) {f : α → β} {b : β}
    (hf : x.toOption.map f = some b) : f a = b := by
  rw [h] at hf
  exact Option.some.inj hf

/-- To fail is not to succeed. -/
theorem exists_error_iff {x : Except ε α} : (∃ e, x = .error e) ↔ ¬ ∃ a, x = .ok a := by
  cases x with
  | error e => simp
  | ok a => simp

/-! ### Results that are changed -/

theorem bind_of_map {γ : Type} {x : Except ε α} {f : α → β} {g : β → Except ε γ} :
    x.map f >>= g = x >>= fun a => g (f a) := by
  cases x <;> rfl

theorem map_of_bind {γ : Type} {x : Except ε α} {f : α → Except ε β} {g : β → γ} :
    (x >>= f).map g = x >>= fun a => (f a).map g := by
  cases x <;> rfl

/-! ### Going through lists -/

/-- Going through a list succeeds if each step does, and gives what the steps give. -/
theorem mapM_eq_ok_iff {f : α → Except ε β} {as : List α} {bs : List β} :
    as.mapM f = .ok bs ↔ List.Forall₂ (fun a b => f a = .ok b) as bs := by
  induction as generalizing bs with
  | nil => cases bs <;> simp [pure, Except.pure]
  | cons a rest ih =>
    -- the first element and then the rest, neither of which may fail
    rw [List.mapM_cons, bind_eq_ok_iff]
    simp only [bind_eq_ok_iff, pure, Except.pure, Except.ok.injEq]
    constructor
    · rintro ⟨b, ha, bs, hrest, rfl⟩
      exact .cons ha (ih.1 hrest)
    · rintro (_ | ⟨ha, hrest⟩)
      exact ⟨_, ha, _, ih.2 hrest, rfl⟩

/-- A list is mapped when each element is. -/
theorem exists_mapM_eq_ok_iff {f : α → Except ε β} {as : List α} :
    (∃ bs, as.mapM f = .ok bs) ↔ ∀ a ∈ as, ∃ b, f a = .ok b := by
  induction as with
  | nil => simp [pure, Except.pure]
  | cons a as ih =>
    rw [List.forall_mem_cons, ← ih, List.mapM_cons]
    simp [bind_eq_ok_iff, pure, Except.pure]

/-- The results of a mapped list stand at the places of its elements. -/
theorem mapM_eq_some_iff {f : α → Option β} {as : List α} {bs : List β} :
    as.mapM f = some bs ↔ List.Forall₂ (fun a b => f a = some b) as bs := by
  induction as generalizing bs with
  | nil => cases bs <;> simp
  | cons a as ih =>
    simp only [List.mapM_cons, Option.bind_eq_bind, Option.bind_eq_some_iff, Option.pure_def,
      Option.some.injEq]
    constructor
    · rintro ⟨b, ha, bs, hrest, rfl⟩
      exact .cons ha (ih.1 hrest)
    · rintro (_ | ⟨ha, hrest⟩)
      exact ⟨_, ha, _, ih.2 hrest, rfl⟩

/-- Mapping a list stops where an element has no result. -/
theorem mapM_eq_none_iff {f : α → Option β} {as : List α} :
    as.mapM f = none ↔ ∃ a ∈ as, f a = none := by
  induction as with
  | nil => simp
  | cons a as ih =>
    rw [List.exists_mem_cons_iff, ← ih, List.mapM_cons]
    -- the first element fails, or one of the others does
    cases f a with
    | none => simp
    | some b => cases as.mapM f <;> simp

/-- A check of a list succeeds if the check of each member does. -/
theorem forM_eq_ok_iff {f : α → Except ε Unit} {as : List α} :
    as.forM f = .ok () ↔ ∀ a ∈ as, f a = .ok () := by
  induction as with
  | nil => simp [List.forM, pure, Except.pure]
  | cons a rest ih =>
    rw [List.forall_mem_cons, ← ih]
    constructor
    · intro h
      obtain ⟨⟨⟩, ha, hrest⟩ := bind_eq_ok_iff.1 h
      exact ⟨ha, hrest⟩
    · rintro ⟨ha, hrest⟩
      exact bind_eq_ok_iff.2 ⟨(), ha, hrest⟩

/-- What holds of each step holds of the lists, member by member. -/
theorem forall₂_of_mapM_eq_ok {f : α → Except ε β} {as : List α} {bs : List β}
    (h : as.mapM f = .ok bs) {R : α → β → Prop} (hstep : ∀ a ∈ as, ∀ b, f a = .ok b → R a b) :
    List.Forall₂ R as bs := by
  have hsteps := mapM_eq_ok_iff.1 h
  -- the steps that have been taken are all that the induction is about
  clear h
  induction hsteps with
  | nil => exact .nil
  | @cons a b as bs ha _ ih =>
    have hrest : ∀ a' ∈ as, ∀ b', f a' = .ok b' → R a' b' :=
      fun a' ha' => hstep a' (List.mem_cons_of_mem a ha')
    exact .cons (hstep a List.mem_cons_self b ha) (ih hrest)

/-! ### One computation next to another -/

/-- Both computations succeed, and what they give is related, or both fail. -/
def SucceedTogether (R : α → β → Prop) : Except ε α → Except ε' β → Prop
  | .ok a, .ok b => R a b
  | .error _, .error _ => True
  | _, _ => False

/-- Either both succeed with related results, or both fail. -/
theorem succeedTogether_iff {R : α → β → Prop} {x : Except ε α} {y : Except ε' β} :
    SucceedTogether R x y ↔
      (∃ a b, x = .ok a ∧ y = .ok b ∧ R a b) ∨ ∃ e e', x = .error e ∧ y = .error e' := by
  cases x <;> cases y <;> simp [SucceedTogether]

namespace SucceedTogether

variable {α' β' γ : Type} {R : α → β → Prop} {S : α' → β' → Prop}
  {x : Except ε α} {y : Except ε' β}

protected theorem ok {a : α} {b : β} (h : R a b) :
    SucceedTogether R (.ok a : Except ε α) (.ok b : Except ε' β) := h

protected theorem error {e : ε} {e' : ε'} :
    SucceedTogether R (.error e : Except ε α) (.error e' : Except ε' β) := True.intro

/-- A weaker relation may be asked of the results. -/
theorem mono {R' : α → β → Prop} (h : SucceedTogether R x y) (hR : ∀ a b, R a b → R' a b) :
    SucceedTogether R' x y := by
  obtain ⟨a, b, rfl, rfl, hab⟩ | ⟨e, e', rfl, rfl⟩ := succeedTogether_iff.1 h
  · exact .ok (hR a b hab)
  · exact .error

/-- What is related are the results. -/
theorem with_eq (h : SucceedTogether R x y) :
    SucceedTogether (fun a b => R a b ∧ x = .ok a ∧ y = .ok b) x y := by
  obtain ⟨a, b, rfl, rfl, hab⟩ | ⟨e, e', rfl, rfl⟩ := succeedTogether_iff.1 h
  · exact .ok ⟨hab, rfl, rfl⟩
  · exact .error

/-- The one on the right succeeds when the one on the left does. -/
theorem exists_right (h : SucceedTogether R x y) {a : α} (ha : x = .ok a) :
    ∃ b, y = .ok b ∧ R a b := by
  subst ha
  obtain ⟨_, b, ⟨⟩, rfl, hab⟩ | ⟨_, _, ⟨⟩, -⟩ := succeedTogether_iff.1 h
  exact ⟨b, rfl, hab⟩

/-- Sequences whose steps succeed together succeed together. -/
theorem bind {f : α → Except ε α'} {g : β → Except ε' β'} (h : SucceedTogether R x y)
    (hstep : ∀ a b, R a b → SucceedTogether S (f a) (g b)) :
    SucceedTogether S (x >>= f) (y >>= g) := by
  obtain ⟨a, b, rfl, rfl, hab⟩ | ⟨e, e', rfl, rfl⟩ := succeedTogether_iff.1 h
  · exact hstep a b hab
  · exact .error

/-- The steps after one and the same computation. -/
theorem bind_self {f : α → Except ε α'} {g : α → Except ε β'}
    (hstep : ∀ a, x = .ok a → SucceedTogether S (f a) (g a)) :
    SucceedTogether S (x >>= f) (x >>= g) := by
  cases x with
  | error e => exact .error
  | ok a => exact hstep a rfl

theorem map {f : α → α'} {g : β → β'} (h : SucceedTogether R x y)
    (hstep : ∀ a b, R a b → S (f a) (g b)) : SucceedTogether S (x.map f) (y.map g) :=
  bind (f := fun a => .ok (f a)) (g := fun b => .ok (g b)) h fun a b hab => .ok (hstep a b hab)

theorem mapM {f : α → Except ε α'} {g : β → Except ε' β'} {as : List α} {bs : List β}
    (h : List.Forall₂ R as bs) (hstep : ∀ a ∈ as, ∀ b, R a b → SucceedTogether S (f a) (g b)) :
    SucceedTogether (List.Forall₂ S) (as.mapM f) (bs.mapM g) := by
  induction h with
  | nil => exact .ok .nil
  -- both sides take their steps together, and the first that fails ends both
  | @cons a b as bs hab _ ih =>
    rw [List.mapM_cons, List.mapM_cons]
    refine (hstep a List.mem_cons_self b hab).bind fun a' b' hab' => ?_
    refine (ih fun a ha => hstep a (List.mem_cons_of_mem _ ha)).bind fun as' bs' hrest => ?_
    exact .ok (.cons hab' hrest)

/-- Computations that agree in what is kept of their results. -/
theorem of_map_eq {x y : Except ε α} {p : α → γ} (h : y.map p = x.map p) :
    SucceedTogether (fun a b => p b = p a) x y := by
  cases x <;> cases y <;> simp_all [SucceedTogether, Except.map]

/-- Two computations next to a third one. -/
theorem trans_symm {T : γ → β → Prop} {z : Except ε γ} (h : SucceedTogether R x y)
    (h' : SucceedTogether T z y) : SucceedTogether (fun a c => ∃ b, R a b ∧ T c b) x z := by
  obtain ⟨a, b, rfl, rfl, hab⟩ | ⟨e, e', rfl, rfl⟩ := succeedTogether_iff.1 h
  · obtain ⟨c, _, rfl, ⟨⟩, hcb⟩ | ⟨_, _, -, ⟨⟩⟩ := succeedTogether_iff.1 h'
    exact .ok ⟨b, hab, hcb⟩
  · obtain ⟨_, _, -, ⟨⟩, -⟩ | ⟨_, _, rfl, -⟩ := succeedTogether_iff.1 h'
    exact .error

end SucceedTogether

/-! ### Why computations fail -/

/-- Why a computation fails, if it does. -/
def fault? : Except ε α → Option ε
  | .ok _ => none
  | .error e => some e

/-- There is no error exactly when there is a result. -/
theorem fault?_eq_none_iff {x : Except ε α} : fault? x = none ↔ ∃ a, x = .ok a := by
  cases x with
  | error e => simp [fault?]
  | ok a => simp [fault?]

/-- If this fails, then with a failure of the given kind. -/
def FailsOnly (p : ε → Prop) (x : Except ε α) : Prop := ∀ e, x = .error e → p e

namespace FailsOnly

variable {p : ε → Prop} {x : Except ε α}

protected theorem ok (a : α) : FailsOnly p (.ok a) := nofun

protected theorem error {e : ε} (h : p e) : FailsOnly p (.error e : Except ε α) := by
  rintro _ ⟨⟩
  exact h

theorem of_eq_ok {a : α} (h : x = .ok a) : FailsOnly p x := h ▸ .ok a

/-- What follows is only asked where it follows something. -/
theorem bind {f : α → Except ε β} (hx : FailsOnly p x)
    (hf : ∀ a, x = .ok a → FailsOnly p (f a)) : FailsOnly p (x >>= f) := by
  cases x with
  | error e => exact .error (hx e rfl)
  | ok a => exact hf a rfl

theorem map (hx : FailsOnly p x) (f : α → β) : FailsOnly p (x.map f) :=
  fun e he => hx e (map_eq_error_iff.1 he)

theorem mapM {f : α → Except ε β} {as : List α} (hf : ∀ a ∈ as, FailsOnly p (f a)) :
    FailsOnly p (as.mapM f) := by
  induction as with
  | nil => exact .ok []
  | cons a as ih =>
    obtain ⟨hfirst, hrest⟩ := List.forall_mem_cons.1 hf
    rw [List.mapM_cons]
    exact hfirst.bind fun b _ => (ih hrest).bind fun bs _ => .ok (b :: bs)

theorem foldlM {f : β → α → Except ε β} {as : List α} (hf : ∀ b, ∀ a ∈ as, FailsOnly p (f b a))
    (b : β) : FailsOnly p (as.foldlM f b) := by
  induction as generalizing b with
  | nil => exact .ok b
  | cons a as ih =>
    rw [List.foldlM_cons]
    exact (hf b a List.mem_cons_self).bind fun c _ =>
      ih (fun c a' ha' => hf c a' (List.mem_cons_of_mem a ha')) c

theorem forM {f : α → Except ε Unit} {as : List α} (hf : ∀ a ∈ as, FailsOnly p (f a)) :
    FailsOnly p (as.forM f) := by
  induction as with
  | nil => exact .ok ()
  | cons a as ih =>
    obtain ⟨hfirst, hrest⟩ := List.forall_mem_cons.1 hf
    exact hfirst.bind fun _ _ => ih hrest

end FailsOnly

/-! ### Lists side by side -/

/-- What stands on the right has a partner on the left. -/
theorem exists_left_of_forall₂ {R : α → β → Prop} {as : List α} {bs : List β}
    (h : List.Forall₂ R as bs) {b : β} (hb : b ∈ bs) : ∃ a ∈ as, R a b := by
  induction h with
  | nil => simp at hb
  | @cons a b' as bs ha _ ih =>
    rcases List.mem_cons.1 hb with rfl | hb
    · exact ⟨a, by simp, ha⟩
    · obtain ⟨a', ha', hstep⟩ := ih hb
      exact ⟨a', List.mem_cons_of_mem a ha', hstep⟩

/-- What stands on the left has a partner on the right. -/
theorem exists_right_of_forall₂ {R : α → β → Prop} {as : List α} {bs : List β}
    (h : List.Forall₂ R as bs) {a : α} (ha : a ∈ as) : ∃ b ∈ bs, R a b := by
  -- the same lemma with the two lists in each other's place
  have hflip : List.Forall₂ (flip R) bs as := List.Forall₂.flip h
  exact exists_left_of_forall₂ hflip ha

end LinkQuery
