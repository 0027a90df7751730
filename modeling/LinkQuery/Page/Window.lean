import LinkQuery.Error
import LinkQuery.Number.Word

/-!
# Windows

A page is a window of the ordered rows of a query: so many rows, so far away from the first row or
from the last. Offsets and sizes are numbers of 64 bits. A sum that would exceed them stays at the
largest, which is no offset that any window may have.

* `Window.check` tells whether a window is in range: a page has between one and `maxPageSize` rows,
  and its offset fits into a signed number of 64 bits.
* `Window.after` and `Window.before` are the adjacent windows. Before the first row and after the
  last there is none, and next to them a window is cut short rather than moved.
-/

namespace LinkQuery

/-- The number of rows of a page unless the request says otherwise. -/
def defaultPageSize : Nat := 20

/-- The largest offset of a window: the largest number of 64 bits with a sign. -/
def maxWindowOffset : Nat := 9223372036854775807

/-- The end of the rows from which a window is counted. -/
inductive Anchor where
  | front
  | back
  deriving DecidableEq, Repr

/-- `size` rows, `offset` rows away from the anchor. -/
structure Window where
  anchor : Anchor
  offset : Nat
  size : Nat
  deriving DecidableEq, Repr

namespace Window

/-- The window `offset` rows after the first row. -/
def front (offset size : Nat) : Window := ⟨.front, offset, size⟩

/-- The window `offset` rows before the last row. -/
def back (offset size : Nat) : Window := ⟨.back, offset, size⟩

/-- Whether a window is in range, and if not, why. -/
def check (w : Window) : Except WindowFault Unit :=
  if w.size = 0 ∨ maxPageSize < w.size then .error (.size w.size)
  else if maxWindowOffset < w.offset then .error (.offset w.offset)
  else .ok ()

/-- The number that two numbers of 64 bits add up to, or else the largest. -/
def saturatingAdd (a b : Nat) : Nat := min (a + b) maxWord

/-- The window on the other side of `w` from its anchor. -/
def away (w : Window) (size : Nat) : Window := ⟨w.anchor, saturatingAdd w.offset w.size, size⟩

/-- The window between `w` and its anchor, if there are rows between. -/
def towards (w : Window) (size : Nat) : Option Window :=
  if w.offset = 0 then none else some ⟨w.anchor, w.offset - size, min size w.offset⟩

/-- The window of up to `size` rows right after `w`. -/
def after (w : Window) (size : Nat) : Option Window :=
  match w.anchor with
  | .front => some (w.away size)
  | .back => w.towards size

/-- The window of up to `size` rows right before `w`. -/
def before (w : Window) (size : Nat) : Option Window :=
  match w.anchor with
  | .front => w.towards size
  | .back => some (w.away size)

@[simp] theorem after_front (offset size n : Nat) :
    (front offset size).after n = some (front (saturatingAdd offset size) n) := rfl

@[simp] theorem before_back (offset size n : Nat) :
    (back offset size).before n = some (back (saturatingAdd offset size) n) := rfl

theorem check_eq_ok_iff {w : Window} :
    w.check = .ok () ↔ (0 < w.size ∧ w.size ≤ maxPageSize) ∧ w.offset ≤ maxWindowOffset := by
  simp only [check]
  split
  · simp; omega
  · split <;> simp <;> omega

end Window

end LinkQuery
