import LinkQuery.Text.EditDistance
import Mathlib.Data.List.Induction
import Mathlib.Order.Bounds.Defs
import Mathlib.Order.MinMax

/-!
# The nearest of several names

A name that is not found is answered with the nearest known name. Here it is said which one that is,
without the table of distances that it is found by.

* `Edit` is one edit of a text: a character is inserted, deleted or replaced. `Edits n` are `n` of
  them, one after the other.
* `isLeast_editDistance`: the edit distance is the least number of edits that lead from one text to
  the other. That many edits can be read off the table (`edits_distance`). Fewer never lead there,
  since a single edit changes no distance by more than one (`Edit.distance_le`).
* `suggestion_concat` is what one more candidate changes, and `suggestion_nearest` what follows for
  all of them.
-/

namespace LinkQuery.Text

/-! ### Edits -/

/-- One edit of a text. -/
inductive Edit : List Char → List Char → Prop
  | insertion (before : List Char) (c : Char) (after : List Char) :
      Edit (before ++ after) (before ++ c :: after)
  | deletion (before : List Char) (c : Char) (after : List Char) :
      Edit (before ++ c :: after) (before ++ after)
  | replacement (before : List Char) (c d : Char) (after : List Char) :
      Edit (before ++ c :: after) (before ++ d :: after)

/-- A number of edits, one after the other. -/
inductive Edits : Nat → List Char → List Char → Prop
  | none (a : List Char) : Edits 0 a a
  | next {n : Nat} {a b c : List Char} (h : Edit a b) (hrest : Edits n b c) : Edits (n + 1) a c

theorem Edit.cons {a b : List Char} (h : Edit a b) (c : Char) : Edit (c :: a) (c :: b) := by
  cases h with
  | insertion before d after => exact .insertion (c :: before) d after
  | deletion before d after => exact .deletion (c :: before) d after
  | replacement before d e after => exact .replacement (c :: before) d e after

/-- What is edited may stand behind a character. -/
theorem Edits.cons {n : Nat} {a b : List Char} (h : Edits n a b) (c : Char) :
    Edits n (c :: a) (c :: b) := by
  induction h with
  | none a => exact .none (c :: a)
  | next h _ ih => exact .next (h.cons c) ih

/-! ### The table of distances -/

/-- The edit distance of two texts, given by their characters. -/
def distance (a b : List Char) : Nat := (distances a b).headD 0

/-- What it costs to have the one character in the place of the other. -/
def mismatch (x y : Char) : Nat := if x = y then 0 else 1

@[simp] theorem mismatch_self (x : Char) : mismatch x x = 0 := if_pos rfl

theorem mismatch_le_one (x y : Char) : mismatch x y ≤ 1 := by
  unfold mismatch
  split <;> omega

theorem mismatch_triangle (x y z : Char) : mismatch x z ≤ mismatch x y + mismatch y z := by
  unfold mismatch
  grind

/-- A row without its first entry is the row for a text without its first character. -/
theorem tail_distances (a : List Char) (y : Char) (b : List Char) :
    (distances a (y :: b)).tail = distances a b := by
  induction a with
  | nil => simp [distances, List.range_succ]
  | cons x a ih => rw [distances, nextDistances, List.tail_cons, ih, distances]

theorem distance_nil (b : List Char) : distance [] b = b.length := by
  simp [distance, distances, List.range_succ]

theorem distance_cons_nil (x : Char) (a : List Char) : distance (x :: a) [] = distance a [] + 1 :=
  rfl

/-- The rule that the table is filled in by. -/
theorem distance_cons_cons (x : Char) (a : List Char) (y : Char) (b : List Char) :
    distance (x :: a) (y :: b) =
      min (min (distance (x :: a) b + 1) (distance a (y :: b) + 1))
        (distance a b + mismatch x y) := by
  show (nextDistances x (y :: b) (distances a (y :: b))).headD 0 = _
  rw [nextDistances, tail_distances]
  rfl

/-! ### As many edits lead to the other text -/

/-- A text is made from nothing by as many insertions as it has characters. -/
theorem edits_nil (b : List Char) : Edits b.length [] b := by
  induction b with
  | nil => exact .none []
  | cons y b ih => exact .next (.insertion [] y []) (ih.cons y)

/-- **The distance is a number of edits that lead from one text to the other.** -/
theorem edits_distance (a b : List Char) : Edits (distance a b) a b := by
  -- over the table of distances, row by row and in each row column by column
  induction a generalizing b with
  | nil =>
    rw [distance_nil]
    exact edits_nil b
  | cons x a iha =>
    induction b with
    | nil =>
      rw [distance_cons_nil]
      exact .next (.deletion [] x a) (iha [])
    | cons y b ihb =>
      have hinsertion : Edits (distance (x :: a) b + 1) (x :: a) (y :: b) :=
        .next (.insertion [] y (x :: a)) (ihb.cons y)
      have hdeletion : Edits (distance a (y :: b) + 1) (x :: a) (y :: b) :=
        .next (.deletion [] x a) (iha (y :: b))
      have hreplacement : Edits (distance a b + mismatch x y) (x :: a) (y :: b) := by
        by_cases hxy : x = y
        · subst hxy
          rw [mismatch_self]
          exact (iha b).cons x
        · rw [mismatch, if_neg hxy]
          exact .next (.replacement [] x y a) ((iha b).cons y)
      -- the entry of the table is one of the three
      have hshift := min_rec' (Edits · (x :: a) (y :: b)) hinsertion hdeletion
      rw [distance_cons_cons]
      exact min_rec' (Edits · (x :: a) (y :: b)) hshift hreplacement

/-! ### Fewer edits do not -/

theorem distance_cons_right_le (a : List Char) (y : Char) (b : List Char) :
    distance a (y :: b) ≤ distance a b + 1 := by
  cases a with
  | nil =>
    rw [distance_nil, distance_nil]
    exact Nat.le_of_eq List.length_cons
  | cons x a =>
    rw [distance_cons_cons]
    omega

/-- A deletion in front changes no distance by more than one. -/
theorem distance_cons_left_le (x : Char) (a b : List Char) :
    distance (x :: a) b ≤ distance a b + 1 := by
  cases b with
  | nil => exact Nat.le_of_eq (distance_cons_nil x a)
  | cons y b =>
    rw [distance_cons_cons]
    omega

/-- An insertion in front changes no distance by more than one. -/
theorem distance_le_cons_left (x : Char) (a b : List Char) :
    distance a b ≤ distance (x :: a) b + 1 := by
  induction b with
  | nil =>
    rw [distance_cons_nil]
    omega
  | cons y b ih =>
    -- along a row of the table, where two neighbours differ by one at most
    have hright := distance_cons_right_le a y b
    rw [distance_cons_cons]
    omega

/-- If two texts are about as far from every text, then so are the texts that one more character in
front makes of them. A difference between the characters adds to that of the texts. -/
theorem distance_cons_le_cons {a a' : List Char} {k : Nat}
    (h : ∀ b, distance a b ≤ distance a' b + k) (x y : Char) (b : List Char) :
    distance (x :: a) b ≤ distance (y :: a') b + (mismatch x y + k) := by
  -- a change of the first character moves the whole row by no more than that
  induction b with
  | nil =>
    have hnil := h []
    rw [distance_cons_nil, distance_cons_nil]
    omega
  | cons z b ih =>
    have hdeletion := h (z :: b)
    have hreplacement := h b
    have htriangle := mismatch_triangle x y z
    rw [distance_cons_cons, distance_cons_cons]
    omega

/-- Nor does it matter what stands in front of both texts, if it is the same. -/
theorem distance_append_le_append {a a' : List Char} {k : Nat}
    (h : ∀ b, distance a b ≤ distance a' b + k) (before b : List Char) :
    distance (before ++ a) b ≤ distance (before ++ a') b + k := by
  induction before generalizing b with
  | nil => exact h b
  | cons c before ih => simpa using distance_cons_le_cons ih c c b

/-- **A single edit changes no distance by more than one.** -/
theorem Edit.distance_le {a a' : List Char} (h : Edit a a') (b : List Char) :
    distance a b ≤ distance a' b + 1 := by
  cases h with
  | insertion before c after =>
    exact distance_append_le_append (distance_le_cons_left c after) before b
  | deletion before c after =>
    exact distance_append_le_append (distance_cons_left_le c after) before b
  | replacement before c d after =>
    refine distance_append_le_append (fun b => ?_) before b
    have hsame : ∀ b, distance after b ≤ distance after b + 0 := fun _ => Nat.le_refl _
    -- the two characters are exchanged at a cost of one at most
    have hreplaced := distance_cons_le_cons hsame c d b
    have hone := mismatch_le_one c d
    omega

theorem distance_self (a : List Char) : distance a a = 0 := by
  induction a with
  | nil => rfl
  | cons x a ih =>
    rw [distance_cons_cons, ih, mismatch_self, Nat.min_zero]

/-- No number of edits leads further than to that distance. -/
theorem Edits.distance_le {n : Nat} {a b : List Char} (h : Edits n a b) : distance a b ≤ n := by
  induction h with
  | none a => exact Nat.le_of_eq (distance_self a)
  | next h _ ih => exact Nat.le_trans (h.distance_le _) (Nat.add_le_add_right ih 1)

/-- **The edit distance is the least number of edits.** -/
theorem isLeast_editDistance (a b : String) :
    IsLeast {n | Edits n a.toList b.toList} (editDistance a b) :=
  ⟨edits_distance a.toList b.toList, fun _ h => h.distance_le⟩

/-! ### The first of the nearest -/

section FirstLeast

variable {α : Type} (cost : α → Nat)

theorem firstLeast_eq_none_iff {l : List α} : firstLeast cost l = none ↔ l = [] := by
  cases l with
  | nil => simp [firstLeast]
  | cons a rest =>
    rw [firstLeast]
    grind

/-- One more entry is taken only if it costs less than all before it. -/
theorem firstLeast_concat (l : List α) (a : α) :
    firstLeast cost (l ++ [a]) =
      match firstLeast cost l with
      | none => some a
      | some b => if cost b ≤ cost a then some b else some a := by
  induction l with
  | nil => rfl
  | cons c l ih =>
    rw [List.cons_append, firstLeast, firstLeast, ih]
    -- the later element is taken only if it costs less
    cases firstLeast cost l with
    | none => rfl
    | some b => grind

end FirstLeast

/-- What one more candidate changes: it is suggested if it is within the tolerance and strictly
nearer than what was suggested without it. -/
theorem suggestion_concat (name : String) (candidates : List String) (candidate : String) :
    suggestion name (candidates ++ [candidate]) =
      if editDistance name candidate ≤ tolerance name ∧
          ∀ best ∈ suggestion name candidates, editDistance name candidate < editDistance name best
      then some candidate else suggestion name candidates := by
  unfold suggestion
  -- a candidate beyond the tolerance is filtered out
  by_cases hnear : editDistance name candidate ≤ tolerance name
  · have hfilter : [candidate].filter (fun c => editDistance name c ≤ tolerance name) =
        [candidate] := List.filter_cons_of_pos (decide_eq_true hnear)
    rw [List.filter_append, hfilter, firstLeast_concat]
    cases firstLeast (editDistance name) _ with
    | none => simp [hnear]
    | some best => grind
  · have hfilter : [candidate].filter (fun c => editDistance name c ≤ tolerance name) = [] :=
      List.filter_cons_of_neg (by simpa using hnear)
    rw [List.filter_append, hfilter, List.append_nil, if_neg fun h => hnear h.1]

theorem suggestion_eq_none_iff {name : String} {candidates : List String} :
    suggestion name candidates = none ↔
      ∀ candidate ∈ candidates, tolerance name < editDistance name candidate := by
  rw [suggestion, firstLeast_eq_none_iff, List.filter_eq_nil_iff]
  simp

/-- The candidate is the nearest one, and of several equally near ones the earliest. -/
def IsFirstNearest (name : String) (candidates : List String) (candidate : String) : Prop :=
  ∃ before after, candidates = before ++ candidate :: after ∧
    (∀ other ∈ before, editDistance name candidate < editDistance name other) ∧
    ∀ other ∈ after, editDistance name candidate ≤ editDistance name other

namespace IsFirstNearest

variable {name best : String} {candidates : List String}

theorem mem (h : IsFirstNearest name candidates best) : best ∈ candidates := by
  obtain ⟨before, after, rfl, -, -⟩ := h
  exact List.mem_append_right before List.mem_cons_self

theorem le (h : IsFirstNearest name candidates best) {other : String}
    (hother : other ∈ candidates) :
    editDistance name best ≤ editDistance name other := by
  obtain ⟨before, after, rfl, hbefore, hafter⟩ := h
  rcases List.mem_append.1 hother with hmem | hmem
  · exact Nat.le_of_lt (hbefore other hmem)
  · rcases List.mem_cons.1 hmem with rfl | hmem
    · exact Nat.le_refl _
    · exact hafter other hmem

theorem concat (h : IsFirstNearest name candidates best) {candidate : String}
    (hle : editDistance name best ≤ editDistance name candidate) :
    IsFirstNearest name (candidates ++ [candidate]) best := by
  obtain ⟨before, after, rfl, hbefore, hafter⟩ := h
  refine ⟨before, after ++ [candidate], by simp, hbefore, fun other hother => ?_⟩
  rcases List.mem_append.1 hother with hmem | hmem
  · exact hafter other hmem
  · rw [List.mem_singleton.1 hmem]
    exact hle

/-- No two candidates are the first of the nearest. -/
theorem unique {other : String} (h : IsFirstNearest name candidates best)
    (h' : IsFirstNearest name candidates other) : best = other := by
  have hle := h.le h'.mem
  have hge := h'.le h.mem
  obtain ⟨before, after, rfl, hbefore, -⟩ := h
  obtain ⟨before', after', heq, hbefore', -⟩ := h'
  -- one of the two stands first among the candidates
  rcases List.append_eq_append_iff.1 heq with ⟨between, rfl, hrest⟩ | ⟨between, rfl, hrest⟩
  · cases between with
    | nil => exact (List.cons.inj hrest).1
    | cons c between =>
      -- then the other one stands behind this one and would have to be nearer
      obtain ⟨rfl, -⟩ := List.cons.inj hrest
      have hlt := hbefore' best (by simp)
      omega
  · cases between with
    | nil => exact (List.cons.inj hrest).1.symm
    | cons c between =>
      obtain ⟨rfl, -⟩ := List.cons.inj hrest
      have hlt := hbefore other (by simp)
      omega

end IsFirstNearest

/-- What is suggested is the first of the nearest candidates, however many have been looked at. -/
theorem isFirstNearest_of_suggestion {name best : String} {candidates : List String}
    (h : suggestion name candidates = some best) :
    editDistance name best ≤ tolerance name ∧ IsFirstNearest name candidates best := by
  induction candidates using List.reverseRecOn generalizing best with
  | nil => simp at h
  | append_singleton candidates candidate ih =>
    rw [suggestion_concat] at h
    split at h
    case isTrue htaken =>
      obtain rfl := Option.some.inj h
      obtain ⟨hnear, hnearer⟩ := htaken
      refine ⟨hnear, candidates, [], rfl, fun other hother => ?_, nofun⟩
      cases hbest : suggestion name candidates with
      | none => exact Nat.lt_of_le_of_lt hnear (suggestion_eq_none_iff.1 hbest other hother)
      | some best => exact Nat.lt_of_lt_of_le (hnearer best hbest) ((ih hbest).2.le hother)
    case isFalse hnot =>
      obtain ⟨hnear, hfirst⟩ := ih h
      refine ⟨hnear, hfirst.concat ?_⟩
      -- a nearer candidate would be within the tolerance too
      by_contra hlt
      refine hnot ⟨by omega, fun b hb => ?_⟩
      obtain rfl : best = b := Option.some.inj (h.symm.trans hb)
      omega

/-- **The nearest candidate is suggested.** There is a suggestion just if some candidate can be made
from the name by as few edits as are tolerated, and then it is the first of the candidates for which
the fewest edits are needed. -/
theorem suggestion_nearest (name : String) (candidates : List String) :
    (∀ candidate : String,
      IsLeast {n | Edits n name.toList candidate.toList} (editDistance name candidate)) ∧
    ((∃ candidate, suggestion name candidates = some candidate) ↔
      ∃ candidate ∈ candidates, editDistance name candidate ≤ tolerance name) ∧
    ∀ candidate, suggestion name candidates = some candidate ↔
      editDistance name candidate ≤ tolerance name ∧ IsFirstNearest name candidates candidate := by
  have hexists : (∃ candidate, suggestion name candidates = some candidate) ↔
      ∃ candidate ∈ candidates, editDistance name candidate ≤ tolerance name := by
    rw [← Option.ne_none_iff_exists', Ne, suggestion_eq_none_iff]
    simp
  refine ⟨isLeast_editDistance name, hexists, fun candidate =>
    ⟨isFirstNearest_of_suggestion, fun ⟨hnear, hfirst⟩ => ?_⟩⟩
  -- some candidate is suggested, and it is the first of the nearest
  obtain ⟨best, hbest⟩ := hexists.2 ⟨candidate, hfirst.mem, hnear⟩
  rw [hbest, (isFirstNearest_of_suggestion hbest).2.unique hfirst]

/-- Of two equally near names the first is suggested. -/
example : suggestion "temas" ["users", "teams", "terms"] = some "teams" := by decide +kernel

/-- How much is tolerated goes by the bytes of a name, how far it is from another by its characters.
-/
example : suggestion "ñú" ["xy"] = some "xy" ∧ suggestion "nu" ["xy"] = none := by decide +kernel

end LinkQuery.Text
