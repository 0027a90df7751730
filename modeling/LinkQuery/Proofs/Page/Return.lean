import LinkQuery.Proofs.Page.Visit

/-!
# There and back

A step from a page and the opposite step, in the size of the page, lead back to the records of the
page, as long as both pages lie among the rows. The page without records that lies beyond an end
carries the window that it was left from. So the way back from there does not end at that window but
at the one next to it, a page too far.

* `Window.eq_nil_of_rowsOf_away`: a window at an end and the one next to it share no rows.
* `PageStep.place_opposite` and `PageStep.place_opposite_of_outside` are the two ways back.
* `Page.turned_back_iff` tells when a step is undone by the opposite step.
* `Page.first_not_turned_back` is the way back from in front of the first page.
-/

namespace LinkQuery

variable {rows : List Row}

/-! ### Windows at an end -/

namespace Anchor

theorem turn_eq_nil_iff {anchor : Anchor} : anchor.turn rows = [] ↔ rows = [] := by
  cases anchor with
  | front => exact Iff.rfl
  | back => exact List.reverse_eq_nil_iff

theorem length_turn (anchor : Anchor) : (anchor.turn rows).length = rows.length := by
  cases anchor with
  | front => rfl
  | back => exact List.length_reverse

theorem nodup_turn {anchor : Anchor} (h : rows.Nodup) : (anchor.turn rows).Nodup := by
  cases anchor with
  | front => exact h
  | back => exact List.nodup_reverse.2 h

theorem turn_injective (anchor : Anchor) : Function.Injective anchor.turn := by
  cases anchor with
  | front => exact Function.injective_id
  | back => exact List.reverse_injective

end Anchor

namespace Window

variable {w : Window} {size : Nat}

theorem size_pos (hw : w.check = .ok ()) : 0 < w.size := (check_eq_ok_iff.1 hw).1.1

/-- A window right at its end has rows if there are any. -/
theorem rowsOf_eq_nil_iff (hw : w.check = .ok ()) (hoffset : w.offset = 0) :
    w.rowsOf rows = [] ↔ rows = [] := by
  have hsize := size_pos hw
  rw [rowsOf_eq_turn, Anchor.turn_eq_nil_iff, hoffset, List.drop_zero, List.take_eq_nil_iff,
    Anchor.turn_eq_nil_iff]
  exact or_iff_right hsize.ne'

/-- The window next to a window at an end has the rows that come after as many as that has. -/
theorem rowsOf_away (hw : w.check = .ok ()) (hoffset : w.offset = 0) :
    (w.away size).rowsOf rows = w.anchor.turn (((w.anchor.turn rows).drop w.size).take size) := by
  rw [rowsOf_eq_turn, away, saturatingAdd_of_check hw, hoffset, Nat.zero_add]

theorem rowsOf_away_eq_nil_iff (hw : w.check = .ok ()) (hoffset : w.offset = 0) :
    (w.away w.size).rowsOf rows = [] ↔ rows.length ≤ w.size := by
  have hsize := size_pos hw
  rw [rowsOf_away hw hoffset, Anchor.turn_eq_nil_iff, List.take_eq_nil_iff, List.drop_eq_nil_iff,
    Anchor.length_turn]
  omega

/-- A window at an end and the one next to it share no rows. -/
theorem rowsOf_away_eq_iff (hw : w.check = .ok ()) (hoffset : w.offset = 0) (hrows : rows.Nodup) :
    (w.away size).rowsOf rows = w.rowsOf rows ↔ rows = [] := by
  constructor
  · intro h
    rw [← rowsOf_eq_nil_iff hw hoffset]
    -- the window and the one a step away show disjoint parts of the rows, so they agree only if
    -- both are empty
    rw [rowsOf_away hw hoffset, rowsOf_eq_turn, hoffset, List.drop_zero] at h
    have hsame := Anchor.turn_injective w.anchor h
    have hnodup : (w.anchor.turn rows).Nodup := Anchor.nodup_turn hrows
    have hdisjoint := List.disjoint_take_drop hnodup (le_refl w.size)
    rw [rowsOf_eq_turn, Anchor.turn_eq_nil_iff, hoffset, List.drop_zero]
    refine List.eq_nil_iff_forall_not_mem.2 fun row hrow => hdisjoint hrow ?_
    exact List.mem_of_mem_take (hsame ▸ hrow)
  · rintro rfl
    rw [rowsOf, rowsOf, List.take_nil, List.take_nil, List.drop_nil, List.drop_nil]

/-- The window next to a window at an end is in range. -/
theorem check_away (hw : w.check = .ok ()) (hoffset : w.offset = 0) :
    (w.away w.size).check = .ok () := by
  obtain ⟨⟨hpos, hsize⟩, -⟩ := check_eq_ok_iff.1 hw
  rw [check_eq_ok_iff, away, saturatingAdd_of_check hw, hoffset, Nat.zero_add]
  refine ⟨⟨hpos, hsize⟩, hsize.trans ?_⟩
  decide

end Window

/-! ### The way back -/

namespace PageStep

variable {step : PageStep} {w v : Window} {size : Nat}

/-- From a window, the way back leads to the window where it began. -/
theorem place_opposite (hw : w.check = .ok ()) (hstep : step = .next ∨ step = .previous)
    (h : step.place w size = .inside v) : step.opposite.place v w.size = .inside w := by
  -- each direction is undone by the other wherever it led inside the rows
  rcases hstep with rfl | rfl
  · cases hafter : w.after size with
    | none => simp [place, hafter] at h
    | some v' =>
      obtain rfl : v' = v := by simpa [place, hafter] using h
      rw [opposite, place, Window.before_of_after hw hafter]
      rfl
  · cases hbefore : w.before size with
    | none => simp [place, hbefore] at h
    | some v' =>
      obtain rfl : v' = v := by simpa [place, hbefore] using h
      rw [opposite, place, Window.after_of_before hw hbefore]
      rfl

/-- A step leads beyond the rows only from a window at the end there, and from that window the way
back leads away from the end. -/
theorem place_opposite_of_outside (hstep : step = .next ∨ step = .previous)
    (h : (step.place w size).isInside = false) :
    w.offset = 0 ∧ ∀ n, step.opposite.place w n = .inside (w.away n) := by
  -- leaving at either end needs an offset of zero, and the opposite step turns away from it
  rcases hstep with rfl | rfl
  · cases hafter : w.after size with
    | some v => simp [place, hafter, Place.isInside] at h
    | none =>
      obtain ⟨hanchor, hoffset⟩ := Window.after_eq_none_iff.1 hafter
      refine ⟨hoffset, fun n => ?_⟩
      rw [opposite, place, Window.before, hanchor]
      rfl
  · cases hbefore : w.before size with
    | some v => simp [place, hbefore, Place.isInside] at h
    | none =>
      obtain ⟨hanchor, hoffset⟩ := Window.before_eq_none_iff.1 hbefore
      refine ⟨hoffset, fun n => ?_⟩
      rw [opposite, place, Window.after, hanchor]
      rfl

end PageStep

section Walk

variable {σ : Type} {cmp : String → Row → Row → Ordering} {transport : Transport (StateM σ)}
  {q : Query} {place : Place} {p : Page}

/-- A page beyond an end of the rows has been left from a window at that end. -/
theorem Query.Reaches.offset_eq_zero (h : q.Reaches transport place p)
    (hinside : place.isInside = false) : place.window.offset = 0 := by
  -- a window stays as it was when a step leaves the rows, so its offset is still zero
  cases h with
  | offset | lastOf => exact absurd hinside nofun
  | @relative _ p' _ _ step size _ _ hp hschema htable h =>
    have hstep : step = .next ∨ step = .previous := by
      cases step with
      | next => exact .inl rfl
      | previous => exact .inr rfl
      | first | last => exact absurd hinside nofun
    rw [PageStep.window_place hinside]
    exact (PageStep.place_opposite_of_outside hstep hinside).1

variable [∀ column, Std.TransCmp (cmp column)]

/-- No row of a query stands twice among its rows. -/
theorem Query.IsServed.nodup (hq : q.IsServed cmp rows transport) (hwalk : q.IsWalkable) :
    rows.Nodup := by
  obtain ⟨w, statement, hcompile⟩ := hwalk.compiles
  obtain ⟨table, htable, -⟩ := Query.pagesBy_of_compilePage hcompile
  refine (hq.lists.key_ne table htable).imp fun {a b} hne heq => hne ?_
  rw [heq]
  exact Std.ReflCmp.compare_self

namespace Page

/-- The records of the page to which the way back leads. -/
theorem exists_turn_back (hq : q.IsServed cmp rows transport) (hwalk : q.IsWalkable)
    (hp : q.Reaches transport place p) {step : PageStep} (hstep : step = .next ∨ step = .previous)
    {size : Option Nat} {s s' : σ} {p' : Page}
    (h : (p.go transport step size).run s = (.ok p', s')) (t : σ) :
    ∃ back t', (p'.go transport step.opposite (some p.window.size)).run t = (.ok back, t') ∧
      back.records =
        if (step.place p.window (size.getD p.window.size)).isInside then p.window.rowsOf rows
        else (p.window.away p.window.size).rowsOf rows := by
  have hstands := hp.stands hq
  have hw : p.window.check = .ok () := hstands.window_eq ▸ hstands.check
  have hshares := hstands.query.shares hq.isProper
  have hp' := Query.Reaches.relative hp hshares.schema hshares.table h
  have hstands' := hp'.stands hq
  have hshares' := hstands'.query.shares hq.isProper
  -- the opposite step lands inside the rows, where the server answers with its window
  have hback : ∀ w : Window, w.check = .ok () →
      step.opposite.place p'.window p.window.size = .inside w →
      ∃ back t', (p'.go transport step.opposite (some p.window.size)).run t = (.ok back, t') ∧
        back.records = w.rowsOf rows := by
    intro w hw hplace
    have hrun := hstands'.run hq hwalk hshares'.schema hshares'.table step.opposite
      (some p.window.size) t
    rw [Option.getD_some, hplace] at hrun
    obtain ⟨back, t', hrun, hback⟩ := hrun.1 hw
    exact ⟨back, t', hrun, hback.records_eq⟩
  cases hplace : step.place p.window (size.getD p.window.size) with
  -- a step inside is undone
  | inside v =>
    have hwindow : p'.window = v := by rw [hstands'.window_eq, hplace]; rfl
    have hreturn := PageStep.place_opposite hw hstep hplace
    exact hback p.window hw (hwindow ▸ hreturn)
  -- a step outside kept the window, and coming back skips what that window shows
  | beforeFirst v | behindLast v =>
    have hinside : (step.place p.window (size.getD p.window.size)).isInside = false := by
      rw [hplace]
      rfl
    have hwindow : p'.window = p.window := hstands'.window_eq.trans (PageStep.window_place hinside)
    obtain ⟨hoffset, hreturn⟩ := PageStep.place_opposite_of_outside hstep hinside
    exact hback _ (Window.check_away hw hoffset) (hwindow ▸ hreturn p.window.size)

/-- **When a step is undone.** From the page that a step to the next page or to the previous one has
led to, the opposite step, in the size of the page that it was taken from, always leads to a page.
It has the records of that page if both pages lie among the rows. If one of them lies beyond an end
then it has not, unless there are no rows at all; and neither if both do, unless there are no more
rows than the page is meant to have. -/
theorem turned_back_iff (hq : q.IsServed cmp rows transport) (hwalk : q.IsWalkable)
    (hp : q.Reaches transport place p) {step : PageStep} (hstep : step = .next ∨ step = .previous)
    {size : Option Nat} {s s' : σ} {p' : Page}
    (h : (p.go transport step size).run s = (.ok p', s')) (t : σ) :
    let place' := step.place p.window (size.getD p.window.size)
    ∃ back t', (p'.go transport step.opposite (some p.window.size)).run t = (.ok back, t') ∧
      (back.records = p.records ↔ (place.isInside ∧ place'.isInside) ∨ rows = [] ∨
        ¬ place.isInside ∧ ¬ place'.isInside ∧ rows.length ≤ p.window.size) := by
  intro place'
  obtain ⟨back, t', hback, hrecords⟩ := exists_turn_back hq hwalk hp hstep h t
  refine ⟨back, t', hback, ?_⟩
  have hstands := hp.stands hq
  have hw : p.window.check = .ok () := hstands.window_eq ▸ hstands.check
  have hrows := hq.nodup hwalk
  rw [hrecords, hstands.records_eq, place.rowsOf_eq, ← hstands.window_eq]
  -- the page and the step from it each lie inside or outside, which makes four cases
  cases hinside : place.isInside with
  | true =>
    cases hinside' : (step.place p.window (size.getD p.window.size)).isInside with
    | true => simp
    | false =>
      have hoffset := (PageStep.place_opposite_of_outside hstep hinside').1
      simp [Window.rowsOf_away_eq_iff hw hoffset hrows]
  | false =>
    have hoffset : p.window.offset = 0 := by
      rw [hstands.window_eq]
      exact hp.offset_eq_zero hinside
    cases hinside' : (step.place p.window (size.getD p.window.size)).isInside with
    | true => simp [Window.rowsOf_eq_nil_iff hw hoffset]
    | false =>
      -- an empty table has no more rows than any size
      have hfew : rows = [] → rows.length ≤ p.window.size := by
        rintro rfl
        exact Nat.zero_le _
      simpa [place', hinside', Window.rowsOf_away_eq_nil_iff hw hoffset] using hfew

end Page

end Walk

/-- From the first page of three rows to a shorter second one, and back. -/
theorem Page.turned_back_iff_first_page :
    ∃ p p' back : Page,
      (allNumbered.paginate (numberedDatabase 3) (.offset 2 0)).run () = (.ok p, ()) ∧
      (p.go (numberedDatabase 3) .next (some 1)).run () = (.ok p', ()) ∧
      (p'.go (numberedDatabase 3) .previous (some 2)).run () = (.ok back, ()) ∧
      p'.records = [numberedRow 3] ∧ back.records = [numberedRow 1, numberedRow 2] := by
  have hq := isServed_allNumbered 3
  have hwalk := isWalkable_allNumbered
  have hfirst : (Window.front 0 2).check = .ok () := by decide
  obtain ⟨p, _, hp, hstands⟩ := hq.run_offset hwalk (Nat.zero_le _) hfirst ()
  have hwindow : p.window = .front 0 2 := hstands.window_eq
  obtain ⟨p', _, hp', hstands'⟩ := hstands.go hq hwalk .next (some 1) () (by rw [hwindow]; decide)
  obtain ⟨back, _, hback, hiff⟩ := Page.turned_back_iff hq hwalk (.offset hp) (.inl rfl) hp' ()
  rw [hwindow] at hback hiff hstands'
  have hrecords : back.records = p.records := hiff.2 (.inl ⟨rfl, rfl⟩)
  exact ⟨p, p', back, hp, hp', hback, hstands'.records_eq, hrecords.trans hstands.records_eq⟩

/-- From the first page of three rows back, and on again: the first page is skipped. -/
theorem Page.first_not_turned_back :
    ∃ p p' back : Page,
      (allNumbered.paginate (numberedDatabase 3) (.offset 2 0)).run () = (.ok p, ()) ∧
      (p.go (numberedDatabase 3) .previous none).run () = (.ok p', ()) ∧
      (p'.go (numberedDatabase 3) .next (some p.window.size)).run () = (.ok back, ()) ∧
      p.records = [numberedRow 1, numberedRow 2] ∧ p'.records = [] ∧
      back.records = [numberedRow 3] := by
  have hq := isServed_allNumbered 3
  have hwalk := isWalkable_allNumbered
  have hfirst : (Window.front 0 2).check = .ok () := by decide
  obtain ⟨p, _, hp, hstands⟩ := hq.run_offset hwalk (Nat.zero_le _) hfirst ()
  have hwindow : p.window = .front 0 2 := hstands.window_eq
  obtain ⟨p', _, hp', hstands'⟩ := hstands.go hq hwalk .previous none () (by rw [hwindow]; decide)
  obtain ⟨back, _, hback, hrecords⟩ := Page.exists_turn_back hq hwalk (.offset hp) (.inr rfl) hp' ()
  -- the window before the first row is the one it was left from
  rw [hwindow] at hrecords hstands'
  exact ⟨p, p', back, hp, hp', hback, hstands.records_eq, hstands'.records_eq, hrecords⟩

end LinkQuery
