import LinkQuery.Proofs.Page.More

/-!
# Following a cursor

A walk follows the cursor of each page to the next one, in sizes that may change from step to step.
Forwards it goes on while rows follow, backwards until a page has no records. Either way it meets
every row once: each page begins where the one before it stops, or stops where that one begins, and
the walk does not end before the rows do.

Backwards it is only the page without records that tells of the end, and the window of that page
lies in front of all rows. If there are so many rows that its offset would be out of range then the
request for it is refused, once all rows have been met.

* `Query.follow` is the walk, `WalkEnd` how it ends.
* `Page.Stands.follow_next` and `Page.Stands.follow_previous` are the walks from any window on.
* `Query.follow_partitions` puts them together, `Query.follow_previous_never_empty` is a walk that
  ends with a refusal.
-/

namespace LinkQuery

/-! ### Walks in one direction -/

/-- How a walk ends. -/
inductive WalkEnd where
  /-- The walk does not go on from its last page. -/
  | finished
  /-- The request for a further page has failed. -/
  | failed (e : Error)
  /-- The walk would go on, but there is no size left to ask for. -/
  | unfinished

/-- How a walk backwards may end in front of `count` rows: with a page without records, or with the
refusal of an offset that is out of range, and less than the size of a page greater than the number
of rows. -/
def WalkEnd.IsInFront (count : Nat) (ending : WalkEnd) : Prop :=
  ending = .finished ∨ ∃ offset, ending = .failed (.invalidPage (.offset offset)) ∧
    maxWindowOffset < offset ∧ offset < count + maxPageSize

/-- The pages to which the cursors lead from a page on, as long as `goesOn` holds of the page at
hand, and how that ends. All requests go through the query `r`. -/
def Query.follow {m : Type → Type} [Monad m] (transport : Transport m) (r : Query) (step : PageStep)
    (goesOn : Page → Bool) : List Nat → Page → m (List Page × WalkEnd)
  | [], p => pure ([], if goesOn p then .unfinished else .finished)
  | size :: sizes, p =>
    if goesOn p then do
      match ← r.paginate transport (.relative step p.cursor (some size)) with
      | .error e => pure ([], .failed e)
      | .ok p' => do
        let (pages, ending) ← follow transport r step goesOn sizes p'
        pure (p' :: pages, ending)
    else pure ([], .finished)

section Steps

variable {σ : Type} {transport : Transport (StateM σ)} {r : Query} {step : PageStep}
  {goesOn : Page → Bool} {size : Nat} {sizes : List Nat} {p p' : Page} {s s' s'' : σ}

theorem Query.follow_run_finished (hgoes : goesOn p = false) :
    (r.follow transport step goesOn sizes p).run s = (([], .finished), s) := by
  cases sizes with
  | nil => rw [follow, hgoes]; rfl
  | cons size sizes => rw [follow, hgoes]; rfl

theorem Query.follow_run_ok (hgoes : goesOn p = true)
    (h : (r.paginate transport (.relative step p.cursor (some size))).run s = (.ok p', s'))
    {pages : List Page} {ending : WalkEnd}
    (hrest : (r.follow transport step goesOn sizes p').run s' = ((pages, ending), s'')) :
    (r.follow transport step goesOn (size :: sizes) p).run s = ((p' :: pages, ending), s'') := by
  rw [follow, if_pos hgoes, StateT.run_bind, h]
  show (r.follow transport step goesOn sizes p' >>= _).run s' = _
  rw [StateT.run_bind, hrest]
  rfl

theorem Query.follow_run_error (hgoes : goesOn p = true) {e : Error}
    (h : (r.paginate transport (.relative step p.cursor (some size))).run s = (.error e, s')) :
    (r.follow transport step goesOn (size :: sizes) p).run s = (([], .failed e), s') := by
  rw [follow, if_pos hgoes, StateT.run_bind, h]
  rfl

end Steps

/-! ### Windows one after the other -/

namespace Window

variable {w v : Window} {rows : List Row} {size : Nat}

/-- How far a window is from the end of `count` rows. -/
def left (w : Window) (count : Nat) : Nat :=
  match w.anchor with
  | .front => count - (w.offset + w.size)
  | .back => w.offset

theorem showsMore_iff (w : Window) (count : Nat) : w.showsMore count = true ↔ 0 < w.left count := by
  unfold showsMore left
  cases w.anchor with
  | front => simp
  | back => simp

/-- Nothing lies behind a window that has arrived at the end. -/
theorem rowsBehind_of_left (h : w.left rows.length = 0) :
    (Place.inside w).rowsBehind rows = [] := by
  unfold left at h
  rw [Place.rowsBehind, Place.passed, stop, List.drop_eq_nil_iff]
  cases hanchor : w.anchor with
  | front => rw [hanchor] at h; dsimp only at h ⊢; omega
  | back => rw [hanchor] at h; dsimp only at h ⊢; omega

/-- Before the end there is a next window, in range and nearer to the end. -/
theorem exists_after (hw : w.check = .ok ()) {count : Nat} (hcount : count ≤ maxWindowOffset)
    (hleft : 0 < w.left count) (hsize : 0 < size ∧ size ≤ maxPageSize) :
    ∃ v, w.after size = some v ∧ v.check = .ok () ∧ v.left count < w.left count := by
  obtain ⟨⟨hpos, -⟩, hoffset⟩ := check_eq_ok_iff.1 hw
  unfold left at hleft
  cases hanchor : w.anchor with
  -- a window away from the start moves on by the rows it shows
  | front =>
    rw [hanchor] at hleft
    refine ⟨w.away size, by rw [after, hanchor], ?_⟩
    rw [check_eq_ok_iff, left, left, away, saturatingAdd_of_check hw, hanchor]
    dsimp only at hleft ⊢
    omega
  -- one towards the start comes nearer to it
  | back =>
    rw [hanchor] at hleft
    dsimp only at hleft
    refine ⟨⟨w.anchor, w.offset - size, min size w.offset⟩, ?_⟩
    rw [after, hanchor, check_eq_ok_iff, left, left, hanchor]
    refine ⟨towards_eq_some_iff.2 ⟨hleft.ne', by rw [hanchor]⟩, ?_⟩
    dsimp only
    omega

/-- A window and what lies behind it. -/
theorem rowsOf_append_rowsBehind (w : Window) (rows : List Row) :
    w.rowsOf rows ++ (Place.inside w).rowsBehind rows = rows.drop (w.start rows.length) := by
  -- what the window shows and what lies behind it are the rows from its start on
  have hstop : w.start rows.length + (w.stop rows.length - w.start rows.length) =
      w.stop rows.length := Nat.add_sub_of_le (w.start_le_stop rows.length)
  rw [rowsOf, Place.rowsBehind, Place.passed, List.drop_take]
  calc (rows.drop (w.start rows.length)).take (w.stop rows.length - w.start rows.length) ++
        rows.drop (w.stop rows.length)
      = (rows.drop (w.start rows.length)).take (w.stop rows.length - w.start rows.length) ++
          (rows.drop (w.start rows.length)).drop (w.stop rows.length - w.start rows.length) := by
        rw [List.drop_drop, hstop]
    _ = rows.drop (w.start rows.length) := List.take_append_drop _ _

/-- What lies in front of a window, and the window. -/
theorem take_start_append_rowsOf (w : Window) (rows : List Row) :
    rows.take (w.start rows.length) ++ w.rowsOf rows = rows.take (w.stop rows.length) := by
  have hstart : rows.take (w.start rows.length) =
      (rows.take (w.stop rows.length)).take (w.start rows.length) := by
    rw [List.take_take, Nat.min_eq_left (w.start_le_stop rows.length)]
  rw [hstart, rowsOf, List.take_append_drop]

/-- A window at the end has rows if its offset leaves any. -/
theorem rowsOf_ne_nil_iff (hw : w.check = .ok ()) (hanchor : w.anchor = .back) :
    w.rowsOf rows ≠ [] ↔ w.offset < rows.length := by
  obtain ⟨⟨hpos, -⟩, -⟩ := check_eq_ok_iff.1 hw
  rw [← List.length_pos_iff, length_rowsOf, start, stop, hanchor]
  dsimp only
  omega

/-- A window at the end that reaches up to the first row begins there. -/
theorem start_of_length_le (hanchor : w.anchor = .back) {count : Nat}
    (h : count ≤ w.offset + w.size) : w.start count = 0 := by
  rw [start, hanchor]
  dsimp only
  omega

/-- A window of a size in range is refused for its offset. -/
theorem offset_of_check_error (hsize : 0 < w.size ∧ w.size ≤ maxPageSize) {fault : WindowFault}
    (h : w.check = .error fault) : fault = .offset w.offset ∧ maxWindowOffset < w.offset := by
  rw [check, if_neg (by omega)] at h
  split at h
  next hfar => exact ⟨(Except.error.inj h).symm, hfar⟩
  next => cases h

end Window

/-! ### The walks -/

section Walks

variable {σ : Type} {cmp : String → Row → Row → Ordering} [∀ column, Std.TransCmp (cmp column)]
  {rows : List Row} {transport : Transport (StateM σ)} {q r : Query} {sizes : List Nat}
  {w : Window} {p : Page}

namespace Page.Stands

theorem more_iff_left (h : p.Stands q rows (.inside w)) :
    p.more = true ↔ 0 < w.left rows.length := by
  rw [h.more_eq]
  exact w.showsMore_iff rows.length

/-- **Forwards from a window, the walk meets all that lies behind the window.** -/
theorem follow_next (hq : q.IsServed cmp rows transport) (hwalk : q.IsWalkable)
    (hschema : r.schema = q.schema) (htable : r.table = q.table)
    (hcount : rows.length ≤ maxWindowOffset)
    (hsizes : ∀ size ∈ sizes, 0 < size ∧ size ≤ maxPageSize) (h : p.Stands q rows (.inside w))
    (hleft : w.left rows.length ≤ sizes.length) (s : σ) :
    ∃ pages s', (r.follow transport .next Page.more sizes p).run s = ((pages, .finished), s') ∧
      pages.flatMap (·.records) = (Place.inside w).rowsBehind rows := by
  -- each step brings the walk nearer to the end, so there is a size left for the next one
  induction sizes generalizing p w s with
  | nil =>
    have hend : w.left rows.length = 0 := Nat.le_zero.1 hleft
    -- nothing is left, so the page shows no more
    have hmore : p.more = false := by simp [← Bool.not_eq_true, h.more_iff_left, hend]
    exact ⟨[], s, Query.follow_run_finished hmore, (Window.rowsBehind_of_left hend).symm⟩
  | cons size sizes ih =>
    obtain ⟨hsize, hsizes⟩ := List.forall_mem_cons.1 hsizes
    by_cases hend : w.left rows.length = 0
    · have hmore : p.more = false := by simp [← Bool.not_eq_true, h.more_iff_left, hend]
      exact ⟨[], s, Query.follow_run_finished hmore, (Window.rowsBehind_of_left hend).symm⟩
    · have hw : w.check = .ok () := h.check
      have hpos := Nat.pos_of_ne_zero hend
      obtain ⟨v, hafter, hv, hless⟩ := Window.exists_after hw hcount hpos hsize
      have hrun := h.run hq hwalk hschema htable .next (some size) s
      rw [Option.getD_some, h.window_eq, Place.window, PageStep.place_next hafter] at hrun
      obtain ⟨p', s₁, hpage, hp'⟩ := hrun.1 hv
      have hleft' : v.left rows.length ≤ sizes.length :=
        Nat.le_of_lt_succ (Nat.lt_of_lt_of_le hless hleft)
      obtain ⟨pages, s₂, hpages, hrows⟩ := ih hsizes hp' hleft' s₁
      refine ⟨p' :: pages, s₂, Query.follow_run_ok (h.more_iff_left.2 hpos) hpage hpages, ?_⟩
      -- what the page and the walk behind it show is all that was left
      calc (p' :: pages).flatMap (·.records)
          = v.rowsOf rows ++ (Place.inside v).rowsBehind rows := by
            rw [List.flatMap_cons, hrows, hp'.records_eq, Place.rowsOf]
        _ = rows.drop (v.start rows.length) := v.rowsOf_append_rowsBehind rows
        _ = (Place.inside w).rowsBehind rows := by
            rw [Window.start_of_after hw hafter, Place.rowsBehind, Place.passed]

theorem not_isEmpty_iff (h : p.Stands q rows (.inside w)) (hanchor : w.anchor = .back) :
    (!p.records.isEmpty) = true ↔ w.offset < rows.length := by
  have hw : w.check = .ok () := h.check
  rw [h.records_eq, Place.rowsOf, ← Window.rowsOf_ne_nil_iff hw hanchor]
  simp

/-- The page of a window that has passed all rows is the last one, and nothing lies in front of it.
-/
theorem follow_previous_of_length_le (h : p.Stands q rows (.inside w)) (hanchor : w.anchor = .back)
    (hend : rows.length ≤ w.offset) (sizes : List Nat) (s : σ) :
    (r.follow transport .previous (fun p => !p.records.isEmpty) sizes p).run s =
        (([], .finished), s) ∧
      rows.take (w.start rows.length) = [] := by
  refine ⟨Query.follow_run_finished ?_, ?_⟩
  · rw [← Bool.not_eq_true, h.not_isEmpty_iff hanchor]
    exact Nat.not_lt.2 hend
  · rw [Window.start_of_length_le hanchor (Nat.le_add_right_of_le hend), List.take_zero]

/-- **Backwards from a window at the end, the walk meets all that lies in front of the window.** -/
theorem follow_previous (hq : q.IsServed cmp rows transport) (hwalk : q.IsWalkable)
    (hschema : r.schema = q.schema) (htable : r.table = q.table)
    (hcount : rows.length ≤ maxWindowOffset)
    (hsizes : ∀ size ∈ sizes, 0 < size ∧ size ≤ maxPageSize) (h : p.Stands q rows (.inside w))
    (hanchor : w.anchor = .back) (hleft : rows.length - w.offset ≤ sizes.length) (s : σ) :
    ∃ pages ending s', (r.follow transport .previous (fun p => !p.records.isEmpty) sizes p).run s =
        ((pages, ending), s') ∧
      pages.reverse.flatMap (·.records) = rows.take (w.start rows.length) ∧
      ending.IsInFront rows.length := by
  -- each step leads away from the end by the rows of the page before
  induction sizes generalizing p w s with
  | nil =>
    have hend := Nat.sub_eq_zero_iff_le.1 (Nat.le_zero.1 hleft)
    obtain ⟨hrun, hnil⟩ := h.follow_previous_of_length_le hanchor hend [] s
    exact ⟨[], .finished, s, hrun, hnil.symm, .inl rfl⟩
  | cons size sizes ih =>
    obtain ⟨hsize, hsizes⟩ := List.forall_mem_cons.1 hsizes
    by_cases hend : rows.length ≤ w.offset
    · obtain ⟨hrun, hnil⟩ := h.follow_previous_of_length_le hanchor hend (size :: sizes) s
      exact ⟨[], .finished, s, hrun, hnil.symm, .inl rfl⟩
    · have hw : w.check = .ok () := h.check
      obtain ⟨⟨hpos, hmax⟩, -⟩ := Window.check_eq_ok_iff.1 hw
      have hgoes := (h.not_isEmpty_iff hanchor).2 (Nat.not_le.1 hend)
      have hbefore : w.before size = some (w.away size) := by rw [Window.before, hanchor]
      -- a valid window is far from the bound at which offsets saturate
      have hoffset : (w.away size).offset = w.offset + w.size := Window.saturatingAdd_of_check hw
      have hrun := h.run hq hwalk hschema htable .previous (some size) s
      rw [Option.getD_some, h.window_eq, Place.window, PageStep.place_previous hbefore] at hrun
      cases hcheck : (w.away size).check with
      | ok =>
        obtain ⟨p', s₁, hpage, hp'⟩ := hrun.1 hcheck
        have hleft' : rows.length - (w.away size).offset ≤ sizes.length := by
          rw [hoffset]
          rw [List.length_cons] at hleft
          omega
        obtain ⟨pages, ending, s₂, hpages, hrows, hending⟩ := ih hsizes hp' hanchor hleft' s₁
        refine ⟨p' :: pages, ending, s₂, Query.follow_run_ok hgoes hpage hpages, ?_, hending⟩
        -- the pages are in reverse, so those of the walk come before the page itself
        calc (p' :: pages).reverse.flatMap (·.records)
            = rows.take ((w.away size).start rows.length) ++ (w.away size).rowsOf rows := by
              rw [List.reverse_cons, List.flatMap_append, hrows, List.flatMap_singleton,
                hp'.records_eq, Place.rowsOf]
          _ = rows.take ((w.away size).stop rows.length) :=
              (w.away size).take_start_append_rowsOf rows
          _ = rows.take (w.start rows.length) := by rw [Window.stop_of_before hw hbefore]
      | error fault =>
        -- the window would lie in front of all rows
        obtain ⟨rfl, hfar⟩ := Window.offset_of_check_error hsize hcheck
        have hpage := hrun.2 _ hcheck
        rw [hoffset] at hfar hpage
        refine ⟨[], _, s, Query.follow_run_error hgoes hpage, ?_, .inr ⟨_, rfl, hfar, by omega⟩⟩
        rw [Window.start_of_length_le hanchor (hcount.trans hfar.le), List.take_zero]
        rfl

end Page.Stands

/-- A page in front of the first row has been left from a window at the start. -/
theorem Query.Reaches.anchor_eq_front (h : q.Reaches transport (.beforeFirst w) p) :
    w.anchor = .front := by
  generalize hplace : Place.beforeFirst w = place at h
  -- only a step back leads before the first row, and only from a window that has that anchor
  cases h with
  | offset | lastOf => cases hplace
  | @relative _ p' _ _ step size _ _ hp hschema htable h =>
    cases step with
    | next =>
      rw [PageStep.place] at hplace
      cases hafter : p'.window.after (size.getD p'.window.size) with
      | none => rw [hafter] at hplace; cases hplace
      | some v => rw [hafter] at hplace; cases hplace
    | previous =>
      rw [PageStep.place] at hplace
      cases hbefore : p'.window.before (size.getD p'.window.size) with
      | none =>
        rw [hbefore] at hplace
        obtain rfl : w = p'.window := Place.beforeFirst.inj hplace
        exact (Window.before_eq_none_iff.1 hbefore).1
      | some v => rw [hbefore] at hplace; cases hplace
    | first | last => cases hplace

/-- **Walks meet every row once.** Forwards from the first page, in any sizes, as long as rows
follow, the pages together are all rows in order. Backwards from the last page until a page has no
records, the pages together are all rows in order; the walk ends with a page without records, or
with the refusal of a window whose offset is out of range, which there is only if there are nearly
as many rows as there are offsets. Forwards from any page at the end, the pages together are the
rows behind that page. The sizes are the beginning of any sequence of sizes: none is asked for
beyond the number of rows, or beyond the offset of the page. -/
theorem Query.follow_partitions (hq : q.IsServed cmp rows transport) (hwalk : q.IsWalkable)
    (hcount : rows.length ≤ maxWindowOffset) (hschema : r.schema = q.schema)
    (htable : r.table = q.table)
    (hsizes : ∀ size ∈ sizes, 0 < size ∧ size ≤ maxPageSize) (s : σ) :
    (∀ first, 0 < first → first ≤ maxPageSize → rows.length ≤ sizes.length → ∃ p pages s₁ s₂,
      (q.paginate transport (.offset first 0)).run s = (.ok p, s₁) ∧
      (r.follow transport .next Page.more sizes p).run s₁ = ((pages, .finished), s₂) ∧
      (p :: pages).flatMap (·.records) = rows) ∧
    (∀ last, 0 < last → last ≤ maxPageSize → rows.length ≤ sizes.length → ∃ p pages ending s₁ s₂,
      (q.paginate transport (.lastOf last)).run s = (.ok p, s₁) ∧
      (r.follow transport .previous (fun p => !p.records.isEmpty) sizes p).run s₁ =
        ((pages, ending), s₂) ∧
      (p :: pages).reverse.flatMap (·.records) = rows ∧ ending.IsInFront rows.length) ∧
    ∀ place p, q.Reaches transport place p → p.window.anchor = .back →
      p.window.offset ≤ sizes.length → ∃ pages s₁,
        (r.follow transport .next Page.more sizes p).run s = ((pages, .finished), s₁) ∧
        pages.flatMap (·.records) = place.rowsBehind rows := by
  refine ⟨fun first hpos hmax hlength => ?_, fun last hpos hmax hlength => ?_,
    fun place p hp hanchor hlength => ?_⟩
  · -- forwards: the first page and all that is left after it
    have hw : (Window.front 0 first).check = .ok () :=
      Window.check_eq_ok_iff.2 ⟨⟨hpos, hmax⟩, Nat.zero_le _⟩
    obtain ⟨p, s₁, hpage, h⟩ := hq.run_offset hwalk (Nat.zero_le _) hw s
    have hleft : (Window.front 0 first).left rows.length ≤ sizes.length :=
      (Nat.sub_le _ _).trans hlength
    obtain ⟨pages, s₂, hpages, hrows⟩ :=
      h.follow_next hq hwalk hschema htable hcount hsizes hleft s₁
    refine ⟨p, pages, s₁, s₂, hpage, hpages, ?_⟩
    rw [List.flatMap_cons, hrows, h.records_eq, Place.rowsOf, Window.rowsOf_append_rowsBehind]
    exact List.drop_zero
  · -- backwards: the last page and all that stands before it
    have hw : (Window.back 0 last).check = .ok () :=
      Window.check_eq_ok_iff.2 ⟨⟨hpos, hmax⟩, Nat.zero_le _⟩
    obtain ⟨p, s₁, hpage, h⟩ := hq.run_lastOf hwalk hw s
    obtain ⟨pages, ending, s₂, hpages, hrows, hending⟩ :=
      h.follow_previous hq hwalk hschema htable hcount hsizes rfl
        ((Nat.sub_le _ _).trans hlength) s₁
    refine ⟨p, pages, ending, s₁, s₂, hpage, hpages, ?_, hending⟩
    rw [List.reverse_cons, List.flatMap_append, hrows, List.flatMap_singleton, h.records_eq,
      Place.rowsOf, Window.take_start_append_rowsOf]
    exact List.take_length
  · -- from any page at the end: what lies behind its place
    have h := hp.stands hq
    rw [h.window_eq] at hanchor hlength
    cases place with
    | inside w =>
      have hback : w.anchor = .back := hanchor
      have hleft : w.left rows.length ≤ sizes.length := by
        rw [Window.left, hback]
        exact hlength
      exact h.follow_next hq hwalk hschema htable hcount hsizes hleft s
    | beforeFirst w => exact absurd (hanchor.symm.trans hp.anchor_eq_front) nofun
    | behindLast w =>
      refine ⟨[], s, Query.follow_run_finished h.more_eq, ?_⟩
      rw [Place.rowsBehind, Place.passed, List.drop_length]
      rfl

end Walks

/-- Five rows, forwards from the first and backwards from the last, in growing sizes. -/
theorem Query.follow_partitions_five_rows :
    ∃ p pages p' pages' ending,
      (allNumbered.paginate (numberedDatabase 5) (.offset 1 0)).run () = (.ok p, ()) ∧
      (allNumbered.follow (numberedDatabase 5) .next Page.more [1, 2, 3, 4, 5] p).run () =
        ((pages, .finished), ()) ∧
      (p :: pages).flatMap (·.records) = numberedRows 5 ∧
      (allNumbered.paginate (numberedDatabase 5) (.lastOf 1)).run () = (.ok p', ()) ∧
      (allNumbered.follow (numberedDatabase 5) .previous (fun p => !p.records.isEmpty)
        [1, 2, 3, 4, 5] p').run () = ((pages', ending), ()) ∧
      (p' :: pages').reverse.flatMap (·.records) = numberedRows 5 ∧ ending = .finished := by
  have hlength := length_numberedRows 5
  have hcount : (numberedRows 5).length ≤ maxWindowOffset := by rw [hlength]; decide
  have hsizes : ∀ size ∈ [1, 2, 3, 4, 5], 0 < size ∧ size ≤ maxPageSize := by decide
  obtain ⟨hnext, hprevious, -⟩ := Query.follow_partitions (r := allNumbered)
    (isServed_allNumbered 5) isWalkable_allNumbered hcount rfl rfl hsizes ()
  obtain ⟨p, pages, _, _, hp, hpages, hrows⟩ := hnext 1 (by decide) (by decide) hlength.le
  obtain ⟨p', pages', ending, _, _, hp', hpages', hrows', hending⟩ :=
    hprevious 1 (by decide) (by decide) hlength.le
  refine ⟨p, pages, p', pages', ending, hp, hpages, hrows, hp', hpages', hrows', ?_⟩
  rcases hending with hending | ⟨offset, -, hfar, hnear⟩
  · exact hending
  · -- the border is beyond five rows
    rw [hlength] at hnear
    unfold maxWindowOffset at hfar
    unfold maxPageSize at hnear
    omega

theorem lt_length_of_dvd {w : Window} (hw : w.check = .ok ()) (hdvd : 1000 ∣ w.offset) :
    w.offset < (numberedRows maxWindowOffset).length := by
  rw [length_numberedRows]
  refine Nat.lt_of_le_of_ne (Window.check_eq_ok_iff.1 hw).2 fun heq => ?_
  rw [heq] at hdvd
  exact absurd hdvd (by decide)

/-- With as many rows as the largest offset of a window, the walk backwards in pages of a thousand
never comes to a page without records: an offset that is a multiple of a thousand either leaves rows
or is out of range. -/
theorem Query.follow_previous_never_empty :
    let database := numberedDatabase maxWindowOffset
    ∃ p : Page, (allNumbered.paginate database (.lastOf 1000)).run () = (.ok p, ()) ∧
      ∀ count pages ending,
        (allNumbered.follow database .previous (fun p => !p.records.isEmpty)
          (List.replicate count 1000) p).run () = ((pages, ending), ()) → ending ≠ .finished := by
  intro database
  have hq := isServed_allNumbered maxWindowOffset
  have hwalk := isWalkable_allNumbered
  have hlength := length_numberedRows maxWindowOffset
  have hlast : (Window.back 0 1000).check = .ok () := by decide
  obtain ⟨p, _, hpage, hp⟩ := hq.run_lastOf hwalk hlast ()
  refine ⟨p, hpage, fun count => ?_⟩
  -- the offsets stay multiples of a thousand
  have hstands : ∃ w : Window, w.anchor = .back ∧ w.size = 1000 ∧ 1000 ∣ w.offset ∧
      p.Stands allNumbered (numberedRows maxWindowOffset) (.inside w) :=
    ⟨_, rfl, rfl, Nat.dvd_zero _, hp⟩
  clear hpage hp
  induction count generalizing p with
  | zero =>
    obtain ⟨w, hanchor, -, hdvd, h⟩ := hstands
    intro pages ending hrun
    have hgoes := (h.not_isEmpty_iff hanchor).2 (lt_length_of_dvd h.check hdvd)
    rw [List.replicate_zero, follow, if_pos hgoes] at hrun
    obtain rfl := (Prod.mk.inj (Prod.mk.inj hrun).1).2
    rintro ⟨⟩
  | succ count ih =>
    obtain ⟨w, hanchor, hsize, hdvd, h⟩ := hstands
    intro pages ending hrun
    have hw : w.check = .ok () := h.check
    have hgoes := (h.not_isEmpty_iff hanchor).2 (lt_length_of_dvd hw hdvd)
    have hbefore : w.before 1000 = some (w.away 1000) := by rw [Window.before, hanchor]
    have hstep := h.run hq hwalk (r := allNumbered) rfl rfl .previous (some 1000) ()
    rw [Option.getD_some, h.window_eq, Place.window, PageStep.place_previous hbefore] at hstep
    -- either another page with rows is reached, or its window is refused
    cases hcheck : (w.away 1000).check with
    | ok =>
      obtain ⟨p', _, hpage, hp'⟩ := hstep.1 hcheck
      have hdvd' : 1000 ∣ (w.away 1000).offset := by
        rw [Window.away, Window.saturatingAdd_of_check hw, hsize]
        exact Nat.dvd_add hdvd (Nat.dvd_refl _)
      rw [List.replicate_succ, follow_run_ok hgoes hpage rfl] at hrun
      obtain rfl := (Prod.mk.inj (Prod.mk.inj hrun).1).2
      exact ih p' ⟨w.away 1000, hanchor, rfl, hdvd', hp'⟩ _ _ rfl
    | error fault =>
      rw [List.replicate_succ, follow_run_error hgoes (hstep.2 _ hcheck)] at hrun
      obtain rfl := (Prod.mk.inj (Prod.mk.inj hrun).1).2
      rintro ⟨⟩

end LinkQuery
