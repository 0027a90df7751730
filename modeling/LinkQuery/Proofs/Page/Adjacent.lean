import LinkQuery.Page.Fetch

/-!
# Windows side by side

Whichever end a window is counted from, it covers the rows from one position to another. A window
right after another one begins where that one stops, and a window right before it stops where it
begins. Where a window leaves off is where the window next to it is found again: each of the two
steps undoes the other.

At either end there is a window with no window next to it. The page that is handed out there lies
beyond the end, but what it carries is the window that it was left from. So a page is described by a
`Place`, which tells apart what the window of the page does not.

* `Window.rowsOf` are the rows of a window, `Query.recordsOf_fetched` finds them among those
  fetched.
* `Window.start_of_after` and `Window.stop_of_before` are adjacency, `Window.before_of_after` and
  `Window.after_of_before` the way back.
* `PageStep.place` is the place that a step leads to, and `Query.pageAt` the page of a place.
-/

namespace LinkQuery

/-! ### The rows of a window -/

/-- The rows in the order in which they are fetched from an end. -/
def Anchor.turn (anchor : Anchor) (rows : List Row) : List Row :=
  match anchor with
  | .front => rows
  | .back => rows.reverse

namespace Window

/-- The position at which a window of `count` rows begins. -/
def start (w : Window) (count : Nat) : Nat :=
  match w.anchor with
  | .front => w.offset
  | .back => count - w.offset - w.size

/-- The position at which a window of `count` rows stops. -/
def stop (w : Window) (count : Nat) : Nat :=
  match w.anchor with
  | .front => w.offset + w.size
  | .back => count - w.offset

/-- The rows of a window. -/
def rowsOf (w : Window) (rows : List Row) : List Row :=
  (rows.take (w.stop rows.length)).drop (w.start rows.length)

/-- What the page of a window says about further rows: at the start whether there is a row behind
the window, at the end whether the window keeps away from the last row. -/
def showsMore (w : Window) (count : Nat) : Bool :=
  match w.anchor with
  | .front => w.offset + w.size < count
  | .back => 0 < w.offset

theorem start_le_stop (w : Window) (count : Nat) : w.start count ≤ w.stop count := by
  unfold start stop
  cases w.anchor with
  | front => exact Nat.le_add_right _ _
  | back => exact Nat.sub_le _ _

theorem length_rowsOf (w : Window) (rows : List Row) :
    (w.rowsOf rows).length = min (w.stop rows.length) rows.length - w.start rows.length := by
  rw [rowsOf, List.length_drop, List.length_take]

end Window

/-- The rows of a window, counted from its anchor. -/
theorem Window.rowsOf_eq_turn (w : Window) (rows : List Row) :
    w.rowsOf rows = w.anchor.turn (((w.anchor.turn rows).drop w.offset).take w.size) := by
  obtain ⟨anchor, offset, size⟩ := w
  cases anchor with
  | front =>
    show (rows.take (offset + size)).drop offset = (rows.drop offset).take size
    rw [List.drop_take, Nat.add_sub_cancel_left]
  | back =>
    -- the rows come in reverse: leaving out the first ones leaves out the last ones
    symm
    calc ((rows.reverse.drop offset).take size).reverse
        = (((rows.take (rows.length - offset)).reverse).take size).reverse := by
          rw [List.drop_reverse]
      _ = (rows.take (rows.length - offset)).drop
            ((rows.take (rows.length - offset)).length - size) := by
          rw [List.take_reverse, List.reverse_reverse]
      _ = (rows.take (rows.length - offset)).drop (rows.length - offset - size) := by
          rw [List.length_take, Nat.min_eq_left (Nat.sub_le _ _)]

/-- **What is fetched for a window are its rows**, once the row that looks ahead is cut off or the
order is turned round. -/
theorem Query.recordsOf_fetched (w : Window) (rows : List Row) :
    recordsOf w (((w.anchor.turn rows).drop w.offset).take (fetchLimit w).1) =
      (w.rowsOf rows, w.showsMore rows.length) := by
  rw [Window.rowsOf_eq_turn]
  obtain ⟨anchor, offset, size⟩ := w
  cases anchor with
  | front =>
    have hrows : ((rows.drop offset).take (size + 1)).take size = (rows.drop offset).take size := by
      rw [List.take_take, Nat.min_eq_left (Nat.le_succ size)]
    -- one row more than the window has been asked for
    have hmore :
        size < ((rows.drop offset).take (size + 1)).length ↔ offset + size < rows.length := by
      rw [List.length_take, List.length_drop]
      omega
    exact Prod.ext hrows (decide_eq_decide.2 hmore)
  | back => rfl

/-! ### Adjacent windows -/

namespace Window

variable {w v : Window} {size : Nat}

/-- Nothing saturates next to a window in range. -/
theorem saturatingAdd_of_check (hw : w.check = .ok ()) :
    saturatingAdd w.offset w.size = w.offset + w.size := by
  obtain ⟨⟨-, hsize⟩, hoffset⟩ := check_eq_ok_iff.1 hw
  unfold maxPageSize at hsize
  unfold maxWindowOffset at hoffset
  exact Nat.min_eq_left (by unfold maxWord; omega)

theorem towards_eq_some_iff :
    w.towards size = some v ↔
      w.offset ≠ 0 ∧ v = ⟨w.anchor, w.offset - size, min size w.offset⟩ := by
  unfold towards
  split
  · simp [*]
  · simp [*, eq_comm]

/-- There is no window after one at the last row. -/
theorem after_eq_none_iff : w.after size = none ↔ w.anchor = .back ∧ w.offset = 0 := by
  unfold after towards
  cases w.anchor <;> simp

/-- There is no window before one at the first row. -/
theorem before_eq_none_iff : w.before size = none ↔ w.anchor = .front ∧ w.offset = 0 := by
  unfold before towards
  cases w.anchor <;> simp

/-- The window right after a window begins where that one stops. -/
theorem start_of_after (hw : w.check = .ok ()) (h : w.after size = some v) (count : Nat) :
    v.start count = w.stop count := by
  unfold after at h
  -- away from the start the offset grows, and saturates only beyond what is valid
  cases hanchor : w.anchor with
  | front =>
    rw [hanchor] at h
    obtain rfl := Option.some.inj h
    simp only [start, stop, away, hanchor]
    exact saturatingAdd_of_check hw
  | back =>
    rw [hanchor] at h
    obtain ⟨hoffset, rfl⟩ := towards_eq_some_iff.1 h
    simp only [start, stop, hanchor]
    omega

/-- The window right before a window stops where that one begins. -/
theorem stop_of_before (hw : w.check = .ok ()) (h : w.before size = some v) (count : Nat) :
    v.stop count = w.start count := by
  -- towards the start the offset shrinks, and the size with it at the border
  unfold before at h
  cases hanchor : w.anchor with
  | front =>
    rw [hanchor] at h
    obtain ⟨hoffset, rfl⟩ := towards_eq_some_iff.1 h
    simp only [start, stop, hanchor]
    omega
  | back =>
    rw [hanchor] at h
    obtain rfl := Option.some.inj h
    simp only [start, stop, away, hanchor, saturatingAdd_of_check hw]
    omega

/-- Going away from the anchor and back again. -/
theorem towards_away (hw : w.check = .ok ()) : (w.away size).towards w.size = some w := by
  obtain ⟨⟨hsize, -⟩, -⟩ := check_eq_ok_iff.1 hw
  rw [towards_eq_some_iff, away, saturatingAdd_of_check hw]
  obtain ⟨anchor, offset, count⟩ := w
  dsimp only at hsize ⊢
  refine ⟨by omega, ?_⟩
  rw [Nat.add_sub_cancel, Nat.min_eq_left (Nat.le_add_left count offset)]

/-- Going towards the anchor and back again. -/
theorem away_of_towards (hw : w.check = .ok ()) (h : w.towards size = some v) :
    v.away w.size = w := by
  obtain ⟨-, hoffset⟩ := check_eq_ok_iff.1 hw
  obtain ⟨hpos, rfl⟩ := towards_eq_some_iff.1 h
  have hsum : saturatingAdd (w.offset - size) (min size w.offset) = w.offset := by
    unfold maxWindowOffset at hoffset
    unfold saturatingAdd maxWord
    omega
  rw [away, hsum]

/-- **A step on and a step back** in the old size lead to the window where they began. -/
theorem before_of_after (hw : w.check = .ok ()) (h : w.after size = some v) :
    v.before w.size = some w := by
  unfold after at h
  unfold before
  -- a step away is undone by one towards the anchor
  cases hanchor : w.anchor with
  | front =>
    rw [hanchor] at h
    obtain rfl := Option.some.inj h
    simp only [away, hanchor]
    rw [← towards_away hw, away, hanchor]
  -- and one towards it by a step away, which cuts nothing
  | back =>
    rw [hanchor] at h
    obtain ⟨-, hv⟩ := towards_eq_some_iff.1 h
    have hback : v.anchor = .back := by rw [hv, hanchor]
    rw [hback]
    exact congrArg some (away_of_towards hw h)

/-- **A step back and a step on** in the old size lead to the window where they began. -/
theorem after_of_before (hw : w.check = .ok ()) (h : w.before size = some v) :
    v.after w.size = some w := by
  unfold before at h
  unfold after
  cases hanchor : w.anchor with
  | front =>
    rw [hanchor] at h
    obtain ⟨-, hv⟩ := towards_eq_some_iff.1 h
    have hfront : v.anchor = .front := by rw [hv, hanchor]
    rw [hfront]
    exact congrArg some (away_of_towards hw h)
  | back =>
    rw [hanchor] at h
    obtain rfl := Option.some.inj h
    simp only [away, hanchor]
    rw [← towards_away hw, away, hanchor]

end Window

/-! ### Places -/

/-- Where a page lies: at a window of the rows, or beyond an end of them, in front of the first row
or behind the last. In the latter case the window is the one that the page was left from. -/
inductive Place where
  | inside (w : Window)
  | beforeFirst (w : Window)
  | behindLast (w : Window)
  deriving DecidableEq, Repr

namespace Place

/-- The window that the page of a place carries. -/
def window : Place → Window
  | inside w | beforeFirst w | behindLast w => w

/-- Whether a place is that of a window. -/
def isInside : Place → Bool
  | inside _ => true
  | beforeFirst _ | behindLast _ => false

/-- How many of `count` rows lie in front of the end of a place. The rows behind it are the others.
-/
def passed (count : Nat) : Place → Nat
  | inside w => w.stop count
  | beforeFirst _ => 0
  | behindLast _ => count

/-- The rows at a place. -/
def rowsOf (rows : List Row) : Place → List Row
  | inside w => w.rowsOf rows
  | beforeFirst _ | behindLast _ => []

theorem rowsOf_eq (place : Place) (rows : List Row) :
    place.rowsOf rows = if place.isInside then place.window.rowsOf rows else [] := by
  cases place <;> rfl

/-- What the page of a place says about further rows. -/
def showsMore (count : Nat) : Place → Bool
  | inside w => w.showsMore count
  | beforeFirst _ | behindLast _ => false

/-- What there is to do for the page of a place. -/
def target (q : Query) : Place → PageTarget
  | inside w => .window q w
  | beforeFirst w | behindLast w => .beyond q w

end Place

namespace PageStep

/-- The place that a step leads to from a window. -/
def place (step : PageStep) (w : Window) (size : Nat) : Place :=
  match step with
  | next => (w.after size).elim (.behindLast w) .inside
  | previous => (w.before size).elim (.beforeFirst w) .inside
  | first => .inside (.front 0 size)
  | last => .inside (.back 0 size)

/-- The step in the other direction. -/
def opposite : PageStep → PageStep
  | next => previous
  | previous => next
  | first => last
  | last => first

theorem place_next {w v : Window} {size : Nat} (h : w.after size = some v) :
    next.place w size = .inside v := by
  rw [place, h]
  rfl

theorem place_previous {w v : Window} {size : Nat} (h : w.before size = some v) :
    previous.place w size = .inside v := by
  rw [place, h]
  rfl

theorem target_eq (step : PageStep) (q : Query) (w : Window) (size : Nat) :
    step.target q w size = (step.place w size).target q := by
  -- a step that finds no window leads beyond the rows
  cases step with
  | next =>
    unfold target place
    cases w.after size <;> rfl
  | previous =>
    unfold target place
    cases w.before size <;> rfl
  | first | last => rfl

end PageStep

/-- The page of a place. -/
def Query.pageAt (q : Query) (rows : List Row) (place : Place) : Page where
  records := place.rowsOf rows
  cursor := (q.cursor place.window).encode
  more := place.showsMore rows.length
  query := q
  window := place.window

end LinkQuery
