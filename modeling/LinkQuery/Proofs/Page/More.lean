import LinkQuery.Proofs.Page.Visit

/-!
# Whether rows follow

A page says whether rows follow it. For a window at the start that is found out by fetching one row
more, for a window at the end it is read off the offset, and a page beyond an end never says so. The
three rules agree with the rows but for two cases. A page in front of the first row says that
nothing follows, though all rows do. And if there are no rows then a window that keeps away from the
end says that some follow.

* `Place.rowsBehind` are the rows that follow a place.
* `Page.more_iff` tells which pages say the truth; `Page.more_false_of_first` and
  `Page.more_true_of_empty` are pages that do not.
-/

namespace LinkQuery

variable {rows : List Row}

/-! ### The rows behind a place -/

namespace Place

/-- The rows behind a place. -/
def rowsBehind (rows : List Row) (place : Place) : List Row := rows.drop (place.passed rows.length)

theorem rowsBehind_ne_nil_iff {place : Place} :
    place.rowsBehind rows ≠ [] ↔ place.passed rows.length < rows.length := by
  rw [rowsBehind, ne_eq, List.drop_eq_nil_iff, Nat.not_le]

/-- A window at the start says whether rows follow. -/
theorem showsMore_front {w : Window} (hanchor : w.anchor = .front) :
    (inside w).showsMore rows.length = true ↔ (inside w).rowsBehind rows ≠ [] := by
  rw [rowsBehind_ne_nil_iff, showsMore, Window.showsMore, passed, Window.stop, hanchor]
  exact decide_eq_true_iff

/-- A window at the end says so if it keeps away from the end, which is right if there is any row.
-/
theorem showsMore_back {w : Window} (hanchor : w.anchor = .back) :
    ((inside w).showsMore rows.length = true ↔ (inside w).rowsBehind rows ≠ []) ↔
      ¬ (0 < w.offset ∧ rows = []) := by
  -- a back window looks at its offset alone
  have hmore : (inside w).showsMore rows.length = true ↔ 0 < w.offset := by
    rw [showsMore, Window.showsMore, hanchor]
    exact decide_eq_true_iff
  rw [hmore, rowsBehind_ne_nil_iff, passed, Window.stop, hanchor, ← List.length_eq_zero_iff]
  -- no rows are behind it exactly when the table is empty or the window ends at its end
  dsimp only
  omega

theorem showsMore_beforeFirst {w : Window} :
    ((beforeFirst w).showsMore rows.length = true ↔ (beforeFirst w).rowsBehind rows ≠ []) ↔
      rows = [] := by
  rw [rowsBehind, passed, List.drop_zero, showsMore]
  simp

theorem showsMore_behindLast {w : Window} :
    (behindLast w).showsMore rows.length = true ↔ (behindLast w).rowsBehind rows ≠ [] := by
  rw [rowsBehind, passed, List.drop_length, showsMore]
  simp

end Place

/-! ### Pages -/

namespace Page

/-- **Which pages say the truth about the rows that follow**: all that a walk may come to, except a
page in front of the first row, if there is one, and a page of a window that keeps away from the
end, if there are no rows. -/
theorem more_iff {σ : Type} {cmp : String → Row → Row → Ordering}
    [∀ column, Std.TransCmp (cmp column)] {transport : Transport (StateM σ)} {q : Query}
    {place : Place} {p : Page}
    (hq : q.IsServed cmp rows transport) (hp : q.Reaches transport place p) :
    (p.more = true ↔ place.rowsBehind rows ≠ []) ↔
      ¬ ((∃ w, place = .beforeFirst w) ∧ rows ≠ []) ∧
        ¬ ((∃ w, place = .inside w ∧ w.anchor = .back ∧ 0 < w.offset) ∧ rows = []) := by
  rw [(hp.stands hq).more_eq]
  -- one case for each kind of place, each by what it shows and what lies behind it
  cases place with
  | inside w =>
    cases hanchor : w.anchor with
    | front => simp [Place.showsMore_front hanchor, hanchor]
    | back => simp [Place.showsMore_back hanchor, hanchor]
  | beforeFirst w => simp [Place.showsMore_beforeFirst]
  | behindLast w => simp [Place.showsMore_behindLast]

/-- The second of three rows, with one behind it. -/
theorem more_iff_second_row :
    ∃ p : Page, (allNumbered.paginate (numberedDatabase 3) (.offset 1 1)).run () = (.ok p, ()) ∧
      p.more = true := by
  have hq := isServed_allNumbered 3
  have hfirst : (Window.front 1 1).check = .ok () := by decide
  have hskipped : 1 ≤ maxRequestOffset := by decide
  obtain ⟨p, _, hp, -⟩ := hq.run_offset isWalkable_allNumbered hskipped hfirst ()
  -- the window passes two of the three rows
  have hbehind : (Place.inside (.front 1 1)).rowsBehind (numberedRows 3) = [numberedRow 3] := rfl
  have htrue := (more_iff hq (.offset hp)).2 ⟨by simp, by simp [Window.front]⟩
  exact ⟨p, hp, htrue.2 (by rw [hbehind]; simp)⟩

/-- Three rows follow the page in front of the first row. -/
theorem more_false_of_first :
    ∃ p p' : Page,
      (allNumbered.paginate (numberedDatabase 3) (.offset 2 0)).run () = (.ok p, ()) ∧
      (p.go (numberedDatabase 3) .previous none).run () = (.ok p', ()) ∧
      allNumbered.Reaches (numberedDatabase 3) (.beforeFirst (.front 0 2)) p' ∧ p'.more = false ∧
      (Place.beforeFirst (.front 0 2)).rowsBehind (numberedRows 3) =
        [numberedRow 1, numberedRow 2, numberedRow 3] := by
  have hq := isServed_allNumbered 3
  have hwalk := isWalkable_allNumbered
  have hfirst : (Window.front 0 2).check = .ok () := by decide
  obtain ⟨p, _, hp, hstands⟩ := hq.run_offset hwalk (Nat.zero_le _) hfirst ()
  have hwindow : p.window = .front 0 2 := hstands.window_eq
  -- stepping back from the first rows leaves the window as it is
  obtain ⟨p', _, hp', hstands'⟩ := hstands.go hq hwalk .previous none () (by rw [hwindow]; decide)
  have hshares := hstands.query.shares hq.isProper
  have hreaches := Query.Reaches.relative (.offset hp) hshares.schema hshares.table hp'
  rw [hwindow] at hstands' hreaches
  exact ⟨p, p', hp, hp', hreaches, hstands'.more_eq, rfl⟩

/-- No rows follow the page before the last one if there are no rows. -/
theorem more_true_of_empty :
    ∃ p p' : Page,
      (allNumbered.paginate (numberedDatabase 0) (.lastOf 2)).run () = (.ok p, ()) ∧
      (p.go (numberedDatabase 0) .previous none).run () = (.ok p', ()) ∧ p'.more = true := by
  have hq := isServed_allNumbered 0
  have hwalk := isWalkable_allNumbered
  have hlast : (Window.back 0 2).check = .ok () := by decide
  obtain ⟨p, _, hp, hstands⟩ := hq.run_lastOf hwalk hlast ()
  have hwindow : p.window = .back 0 2 := hstands.window_eq
  -- stepping back from the last rows moves on, though the table has none
  obtain ⟨p', _, hp', hstands'⟩ := hstands.go hq hwalk .previous none () (by rw [hwindow]; decide)
  rw [hwindow] at hstands'
  exact ⟨p, p', hp, hp', hstands'.more_eq⟩

end Page

end LinkQuery
