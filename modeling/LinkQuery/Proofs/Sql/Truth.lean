/-!
# Three truth values

A condition on a row is true, false or unknown, the last if a value that it needs is not there. The
connectives are those of the database: `and` is the least of two values and `or` the greatest, where
unknown lies between false and true, and `not` exchanges false and true.

* `Truth` are the values; `Truth.conj` and `Truth.disj` connect any number of them.
-/

namespace LinkQuery.Sql

/-- The values of a condition. -/
inductive Truth where
  | yes
  | no
  | unknown
  deriving DecidableEq, Repr

namespace Truth

/-- False if one of them is, true if both are. -/
def and : Truth → Truth → Truth
  | no, _ => no
  | _, no => no
  | yes, yes => yes
  | _, _ => unknown

/-- True if one of them is, false if both are. -/
def or : Truth → Truth → Truth
  | yes, _ => yes
  | _, yes => yes
  | no, no => no
  | _, _ => unknown

/-- The opposite, which of unknown is unknown. -/
def not : Truth → Truth
  | yes => no
  | no => yes
  | unknown => unknown

/-- All together. -/
def conj (ts : List Truth) : Truth := ts.foldr and yes

/-- At least one of them. -/
def disj (ts : List Truth) : Truth := ts.foldr or no

/-- Conjunctions can be read from either side. -/
theorem and_assoc (a b c : Truth) : (a.and b).and c = a.and (b.and c) := by
  cases a <;> cases b <;> cases c <;> rfl

/-- Disjunctions can be read from either side. -/
theorem or_assoc (a b c : Truth) : (a.or b).or c = a.or (b.or c) := by
  cases a <;> cases b <;> cases c <;> rfl

@[simp] theorem and_yes (a : Truth) : a.and yes = a := by
  cases a <;> rfl

@[simp] theorem or_no (a : Truth) : a.or no = a := by
  cases a <;> rfl

@[simp] theorem conj_singleton (a : Truth) : conj [a] = a := and_yes a

@[simp] theorem disj_singleton (a : Truth) : disj [a] = a := or_no a

/-- A conjunction is true if all of its members are. -/
theorem conj_eq_yes_iff {ts : List Truth} : conj ts = yes ↔ ∀ t ∈ ts, t = yes := by
  induction ts with
  | nil => simp [conj]
  | cons t rest ih =>
    -- a conjunction of two is yes when both are
    have hand : ∀ a b : Truth, a.and b = yes ↔ a = yes ∧ b = yes := by
      intro a b
      cases a <;> cases b <;> simp [and]
    rw [conj, List.foldr_cons, hand, List.forall_mem_cons]
    exact and_congr_right' ih

end Truth

end LinkQuery.Sql
