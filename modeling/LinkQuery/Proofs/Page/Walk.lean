import LinkQuery.Page.Stream
import LinkQuery.Proofs.Page.Statement

/-!
# Walking through all rows

A record stream hands out every row exactly once, however many of the calls to the database fail and
whenever they are tried again.

The database is `unreliable`: it holds the rows in the order asked for, and some of its calls fail.
It reads what is wanted from the text of the statement.

* `RecordStream.IsAt` is the invariant: what is in the buffer, together with the rows that have not
  been fetched, is what follows the rows that have been handed out. A page is pending only if there
  are rows on it, the first page apart.
* `RecordStream.next_run` says what a step does: it fails and leaves the stream as it is, or it
  hands out the row whose turn it is.
* `RecordStream.drainFrom_run` says what is drawn from the database without a stop, and in how many
  calls.
* `RecordStream.drain_eq_next`: draining a stream is taking steps until the first failure.
-/

namespace LinkQuery

/-! ### The database -/

/-- What a database answers that holds `rows` in the order asked for. -/
def answer (rows : List Row) (statement : Sql.Statement) : Except TransportError (List Row) :=
  match statement.pageClause? with
  | some clause => .ok ((rows.drop clause.offset).take clause.limit)
  | none => .error ⟨"the statement asks for no page", []⟩

/-- A database that holds `rows` in the order asked for. It counts its calls, and those fail for
which `failures` has a failure. -/
def unreliable (failures : Nat → Option TransportError) (rows : List Row) :
    Transport (StateM Nat) := fun statement calls =>
  match failures calls with
  | some e => (.error e, calls + 1)
  | none => (answer rows statement, calls + 1)

variable {q : Query} {order : List SortTerm} {batch : Nat} {rows : List Row}
  {failures : Nat → Option TransportError}

theorem Query.fetch_run_of_failure (hq : q.PagesBy order) {w : Window} (hw : w.check = .ok ())
    {calls : Nat} {e : TransportError} (he : failures calls = some e) :
    (q.fetch (unreliable failures rows) w).run calls = (.error (.transport e), calls + 1) := by
  obtain ⟨statement, hstatement, -⟩ := hq w hw
  have hcall : (unreliable failures rows statement).run calls = (.error e, calls + 1) := by
    simp only [unreliable, StateT.run, he]
  exact fetch_run_of_no_answer hstatement hcall

/-- The rows of a page are those that the text of its statement asks for. -/
theorem Query.fetch_run (hq : q.PagesBy order) {w : Window} (hw : w.check = .ok ()) {calls : Nat}
    (hcalls : failures calls = none) :
    (q.fetch (unreliable failures rows) w).run calls =
      (.ok (q.page w ((rows.drop (fetchLimit w).2).take (fetchLimit w).1)), calls + 1) := by
  obtain ⟨statement, hstatement, hclause⟩ := hq w hw
  have hcall : (unreliable failures rows statement).run calls =
      (.ok ((rows.drop (fetchLimit w).2).take (fetchLimit w).1), calls + 1) := by
    simp only [unreliable, StateT.run, hcalls, answer, hclause]
  exact fetch_run_of_answer hstatement hcall

/-- The page of a window at the start: its rows, and whether there are rows behind them. -/
theorem Query.page_front (q : Query) (batch : Nat) {offset : Nat} (hoffset : offset ≤ rows.length) :
    let page := q.page (.front offset batch) ((rows.drop offset).take (batch + 1))
    page.records = (rows.drop offset).take batch ∧
      page.more = decide (offset + batch < rows.length) := by
  refine ⟨?_, ?_⟩
  · -- the row that was fetched to look ahead is cut off
    simp [page, recordsOf, Window.front, List.take_take]
  · -- it has come if there are rows behind the page
    simp only [page, recordsOf, Window.front, List.length_take, List.length_drop]
    congr 1
    apply propext
    omega

/-! ### Numbers of pages -/

/-- How many pages of `batch` rows it takes for `count` rows. The first page is fetched even if
there are no rows. -/
def pageCount (count batch : Nat) : Nat := max 1 ((count + batch - 1) / batch)

theorem pageCount_of_le {count : Nat} (h : count ≤ batch) : pageCount count batch = 1 := by
  have hdiv : (count + batch - 1) / batch ≤ 1 := by
    rcases Nat.eq_zero_or_pos batch with rfl | hbatch
    · simp
    · exact Nat.le_of_lt_succ (Nat.div_lt_of_lt_mul (by omega))
  exact Nat.max_eq_left hdiv

theorem pageCount_of_lt {count : Nat} (hbatch : 1 ≤ batch) (h : batch < count) :
    pageCount count batch = pageCount (count - batch) batch + 1 := by
  have hdiv : (count + batch - 1) / batch = (count - batch + batch - 1) / batch + 1 := by
    rw [← Nat.add_div_right _ hbatch]
    congr 1
    omega
  have hone : 1 ≤ (count - batch + batch - 1) / batch := Nat.div_pos (by omega) hbatch
  unfold pageCount
  rw [hdiv, Nat.max_eq_right hone, Nat.max_eq_right (by omega)]

/-- Drawing one page of those behind an offset leaves one page less. -/
theorem pageCount_sub {count offset : Nat} (hbatch : 1 ≤ batch) (h : offset + batch < count) :
    pageCount (count - offset) batch = pageCount (count - (offset + batch)) batch + 1 := by
  rw [pageCount_of_lt hbatch (by omega), Nat.sub_sub]

/-! ### Steps -/

namespace RecordStream

/-- The rows that a stream has not fetched. -/
def unfetched (rows : List Row) (s : RecordStream) : List Row :=
  match s.pending with
  | none => []
  | some offset => rows.drop offset

/-- The stream has handed out `handed` of the rows of the query. -/
structure IsAt (q : Query) (batch : Nat) (rows : List Row) (handed : Nat) (s : RecordStream) :
    Prop where
  query_eq : s.query = q
  batch_eq : s.batch = batch
  handed_le : handed ≤ rows.length
  buffer_append : s.buffer ++ s.unfetched rows = rows.drop handed
  /-- There are rows on the next page to fetch, the first page apart. -/
  pending_lt : ∀ offset ∈ s.pending, offset = 0 ∨ offset < rows.length

/-- A stream without rows left has nothing to fetch and nothing to hand out. -/
def IsOver (s : RecordStream) : Prop := s.pending = none ∧ s.buffer = []

theorem isAt_records (q : Query) (batch : Nat) (rows : List Row) :
    (q.records batch).IsAt q batch rows 0 where
  query_eq := rfl
  batch_eq := rfl
  handed_le := Nat.zero_le _
  buffer_append := rfl
  pending_lt := by
    rintro offset ⟨⟩
    exact .inl rfl

theorem IsAt.offset_le {handed : Nat} {s : RecordStream} (h : s.IsAt q batch rows handed)
    {offset : Nat} (hpending : s.pending = some offset) : offset ≤ rows.length := by
  rcases h.pending_lt offset hpending with rfl | hlt
  · exact Nat.zero_le _
  · exact Nat.le_of_lt hlt

/-- Handing out the next row of the buffer. -/
theorem IsAt.pop {handed : Nat} {s : RecordStream} {row : Row} {buffer : List Row}
    (h : s.IsAt q batch rows handed) (hbuffer : s.buffer = row :: buffer) :
    s.pop.1 = rows[handed]? ∧ s.pop.2.IsAt q batch rows (handed + 1) := by
  have happend := h.buffer_append
  rw [hbuffer, List.cons_append] at happend
  have hhead : rows[handed]? = some row := by
    rw [← List.head?_drop, ← happend]
    rfl
  have htail : buffer ++ s.unfetched rows = rows.drop (handed + 1) := by
    rw [← List.tail_drop, ← happend]
    rfl
  have hlt : handed < rows.length := (List.getElem?_eq_some_iff.1 hhead).1
  refine ⟨by rw [RecordStream.pop, hbuffer, hhead]; rfl, ?_⟩
  exact {
    query_eq := h.query_eq
    batch_eq := h.batch_eq
    handed_le := hlt
    buffer_append := by
      rw [RecordStream.pop, hbuffer]
      exact htail
    pending_lt := h.pending_lt }

/-- The offset of the page behind a page that has rows behind it. -/
theorem nextOffset_eq {offset : Nat} (hrows : rows.length ≤ maxWindowOffset)
    (hmore : offset + batch < rows.length) : nextOffset offset batch = offset + batch := by
  unfold nextOffset Window.saturatingAdd
  unfold maxWindowOffset at hrows
  exact Nat.min_eq_left (by unfold maxWord; omega)

/-- A page has come for a stream whose buffer was empty. -/
theorem IsAt.received {handed offset : Nat} {s : RecordStream} (h : s.IsAt q batch rows handed)
    (hrows : rows.length ≤ maxWindowOffset) (hbuffer : s.buffer = [])
    (hpending : s.pending = some offset) :
    (s.received offset
      (q.page (.front offset batch) ((rows.drop offset).take (batch + 1)))).IsAt
        q batch rows handed := by
  obtain ⟨hrecords, hmore⟩ := q.page_front batch (h.offset_le hpending)
  have happend := h.buffer_append
  rw [hbuffer, List.nil_append, unfetched, hpending] at happend
  dsimp only at happend
  have hnext : offset + batch < rows.length → nextOffset offset s.batch = offset + batch := by
    intro hlt
    rw [h.batch_eq]
    exact nextOffset_eq hrows hlt
  refine ⟨h.query_eq, h.batch_eq, h.handed_le, ?_, ?_⟩
  · -- nothing is lost between the page and what has not been fetched
    rw [← happend, unfetched, RecordStream.received, hrecords, hmore]
    by_cases hlt : offset + batch < rows.length
    · simp only [hlt, decide_true, if_true, hnext hlt]
      rw [← List.drop_drop, List.take_append_drop]
    · have htake : (rows.drop offset).length ≤ batch := by
        rw [List.length_drop]
        omega
      simp [hlt, List.take_of_length_le htake]
  · -- another page is pending only if a row has been seen on it
    intro next hsome
    rw [RecordStream.received, hmore] at hsome
    by_cases hlt : offset + batch < rows.length
    · simp only [hlt, decide_true, if_true, hnext hlt, Option.mem_def, Option.some.injEq] at hsome
      exact .inr (hsome ▸ hlt)
    · simp [hlt] at hsome

theorem pop_of_buffer_nil {s : RecordStream} (h : s.buffer = []) : s.pop = (none, s) := by
  obtain ⟨query, batch, pending, buffer⟩ := s
  obtain rfl : buffer = [] := h
  rfl

/-- If nothing is on a page then nothing is behind it. -/
theorem isOver_received {s : RecordStream} {offset : Nat} (hbatch : 1 ≤ batch)
    (hoffset : offset ≤ rows.length)
    (hempty : (s.received offset
      (q.page (.front offset batch) ((rows.drop offset).take (batch + 1)))).buffer = []) :
    (s.received offset
      (q.page (.front offset batch) ((rows.drop offset).take (batch + 1)))).IsOver := by
  obtain ⟨hrecords, hmore⟩ := q.page_front batch hoffset
  refine ⟨?_, hempty⟩
  -- an empty page is behind the last row, so the look-ahead has found nothing either
  rw [received, hrecords] at hempty
  have hlast : rows.length ≤ offset := by
    have hlength := congrArg List.length hempty
    simp only [List.length_take, List.length_drop, List.length_nil] at hlength
    omega
  have hno : ¬ offset + batch < rows.length := by omega
  simp [received, hmore, hno]

theorem next_of_isOver {m : Type → Type} [Monad m] (transport : Transport m) {s : RecordStream}
    (h : s.IsOver) : s.next transport = pure (.ok none, s) := by
  unfold next
  rw [h.1, h.2]

/-- With rows to hand out and all of them handed out, a stream is over: the last page has shown that
no other one follows. -/
theorem IsAt.isOver {s : RecordStream} (h : s.IsAt q batch rows rows.length) (hne : rows ≠ []) :
    s.IsOver := by
  have happend := h.buffer_append
  rw [List.drop_length, List.append_eq_nil_iff] at happend
  refine ⟨?_, happend.1⟩
  cases hpending : s.pending with
  | none => rfl
  | some offset =>
    have hunfetched := happend.2
    -- a pending page without rows could only be the first one, and there are rows
    rw [unfetched, hpending] at hunfetched
    have hlast : rows.length ≤ offset := List.drop_eq_nil_iff.1 hunfetched
    have hpos : 0 < rows.length := List.length_pos_iff.2 hne
    rcases h.pending_lt offset hpending with rfl | hlt <;> omega

theorem check_front {offset : Nat} (hbatch : 1 ≤ batch ∧ batch ≤ maxPageSize)
    (hoffset : offset ≤ maxWindowOffset) : (Window.front offset batch).check = .ok () :=
  Window.check_eq_ok_iff.2 ⟨hbatch, hoffset⟩

/-- The page at an offset, with the row behind it to look ahead. -/
theorem fetch_front_run {offset calls : Nat} (hq : q.PagesBy order)
    (hbatch : 1 ≤ batch ∧ batch ≤ maxPageSize) (hrows : rows.length ≤ maxWindowOffset)
    (hoffset : offset ≤ rows.length) (hcalls : failures calls = none) :
    (q.fetch (unreliable failures rows) (.front offset batch)).run calls =
      (.ok (q.page (.front offset batch) ((rows.drop offset).take (batch + 1))), calls + 1) :=
  q.fetch_run hq (check_front hbatch (Nat.le_trans hoffset hrows)) hcalls

/-- With a row in the buffer, of the stream itself or of a page that has come for it, the row is the
one whose turn it is. -/
theorem IsAt.handsOut_pop {handed : Nat} {s : RecordStream} {row : Row} {buffer : List Row}
    (h : s.IsAt q batch rows handed) (hbuffer : s.buffer = row :: buffer) :
    s.pop.1 = rows[handed]? ∧ s.pop.2.IsAt q batch rows (min (handed + 1) rows.length) ∧
      (handed = rows.length → s.pop.2.IsOver) := by
  obtain ⟨hrow, hafter⟩ := h.pop hbuffer
  refine ⟨hrow, ?_, fun hend => ?_⟩
  · rw [Nat.min_eq_left hafter.handed_le]
    exact hafter
  · exact absurd hafter.handed_le (by omega)

/-- A stream that is over has handed out everything. -/
theorem IsAt.handsOut_none {handed : Nat} {s : RecordStream} (h : s.IsAt q batch rows handed)
    (hover : s.IsOver) :
    none = rows[handed]? ∧ s.IsAt q batch rows (min (handed + 1) rows.length) ∧
      (handed = rows.length → s.IsOver) := by
  have hempty := h.buffer_append
  rw [hover.2, unfetched, hover.1, List.nil_append, eq_comm, List.drop_eq_nil_iff] at hempty
  have hend : handed = rows.length := Nat.le_antisymm h.handed_le hempty
  refine ⟨(List.getElem?_eq_none hempty).symm, ?_, fun _ => hover⟩
  rw [Nat.min_eq_right (by omega), ← hend]
  exact h

/-- **A step** either fails and leaves the stream as it is, or it hands out the row whose turn it
is, which is none at the end. -/
theorem IsAt.next_run {handed calls : Nat} {s : RecordStream} (hq : q.PagesBy order)
    (hbatch : 1 ≤ batch ∧ batch ≤ maxPageSize) (hrows : rows.length ≤ maxWindowOffset)
    (h : s.IsAt q batch rows handed) {item : Except Error (Option Row)} {s' : RecordStream}
    {calls' : Nat} (hnext : (s.next (unreliable failures rows)).run calls = ((item, s'), calls')) :
    (∃ e, failures calls = some e ∧ item = .error (.transport e) ∧ s' = s) ∨
      (item = .ok rows[handed]? ∧ s'.IsAt q batch rows (min (handed + 1) rows.length) ∧
        (handed = rows.length → s'.IsOver)) := by
  cases hbuffer : s.buffer with
  | cons row buffer =>
    -- no call is made while there are rows in the buffer
    have hpure : s.next (unreliable failures rows) = pure (.ok s.pop.1, s.pop.2) := by
      unfold next
      rw [hbuffer]
    rw [hpure] at hnext
    obtain ⟨⟨rfl, rfl⟩, -⟩ := Prod.mk.inj hnext |>.imp Prod.mk.inj id
    obtain ⟨hrow, hafter⟩ := h.handsOut_pop hbuffer
    exact .inr ⟨congrArg Except.ok hrow, hafter⟩
  | nil =>
    cases hpending : s.pending with
    | none =>
      rw [next_of_isOver _ ⟨hpending, hbuffer⟩] at hnext
      obtain ⟨⟨rfl, rfl⟩, -⟩ := Prod.mk.inj hnext |>.imp Prod.mk.inj id
      obtain ⟨hnone, hafter⟩ := h.handsOut_none ⟨hpending, hbuffer⟩
      exact .inr ⟨congrArg Except.ok hnone, hafter⟩
    | some offset =>
      have hoffset := h.offset_le hpending
      have hcheck := check_front hbatch (Nat.le_trans hoffset hrows)
      unfold next at hnext
      rw [hbuffer, hpending] at hnext
      dsimp only at hnext
      rw [h.query_eq, h.batch_eq, StateT.run_bind] at hnext
      cases hfailure : failures calls with
      | some e =>
        -- the pending page is put back, so the stream is the one from before the call
        rw [q.fetch_run_of_failure hq hcheck hfailure] at hnext
        obtain ⟨⟨rfl, rfl⟩, -⟩ := Prod.mk.inj hnext |>.imp Prod.mk.inj id
        exact .inl ⟨e, rfl, rfl, rfl⟩
      | none =>
        rw [fetch_front_run hq hbatch hrows hoffset hfailure] at hnext
        obtain ⟨⟨rfl, rfl⟩, -⟩ := Prod.mk.inj hnext |>.imp Prod.mk.inj id
        have hreceived := h.received hrows hbuffer hpending
        refine .inr ?_
        -- the row is handed out from the page that has come, unless that is empty
        cases hpage : (s.received offset
            (q.page (.front offset batch) ((rows.drop offset).take (batch + 1)))).buffer with
        | cons row buffer =>
          obtain ⟨hrow, hafter⟩ := hreceived.handsOut_pop hpage
          exact ⟨congrArg Except.ok hrow, hafter⟩
        | nil =>
          rw [pop_of_buffer_nil hpage]
          obtain ⟨hnone, hafter⟩ :=
            hreceived.handsOut_none (isOver_received hbatch.1 hoffset hpage)
          exact ⟨congrArg Except.ok hnone, hafter⟩

/-! ### Runs -/

/-- The rows among what steps yield. -/
def handedOut (items : List (Except Error (Option Row))) : List Row :=
  items.filterMap fun
    | .ok row => row
    | .error _ => none

theorem pull_run_succ {m : Type → Type} [Monad m] [LawfulMonad m] (transport : Transport m)
    (count : Nat) (s : RecordStream) :
    s.pull transport (count + 1) = (do
      let (items, s) ← s.pull transport count
      let (item, s) ← s.next transport
      pure (items ++ [item], s)) := by
  induction count generalizing s with
  | zero =>
    rw [pull]
    simp [pull]
  | succ count ih =>
    -- a run starts with its first step, so the last one is taken off the rest of the run
    conv_lhs => rw [pull]
    conv_rhs => rw [pull]
    simp only [ih, bind_assoc, pure_bind, List.cons_append]

theorem handedOut_append (items items' : List (Except Error (Option Row))) :
    handedOut (items ++ items') = handedOut items ++ handedOut items' :=
  List.filterMap_append

/-- **A run of steps** hands out the rows from the first one on, in order and without a gap. -/
theorem pull_run {count calls : Nat} {items : List (Except Error (Option Row))} {s : RecordStream}
    (hq : q.PagesBy order) (hbatch : 1 ≤ batch ∧ batch ≤ maxPageSize)
    (hrows : rows.length ≤ maxWindowOffset)
    (hpull : ((q.records batch).pull (unreliable failures rows) count).run 0 =
      ((items, s), calls)) :
    s.IsAt q batch rows (handedOut items).length ∧
      handedOut items = rows.take (handedOut items).length := by
  induction count generalizing items s calls with
  | zero =>
    obtain ⟨⟨rfl, rfl⟩, -⟩ := Prod.mk.inj hpull |>.imp Prod.mk.inj id
    exact ⟨isAt_records q batch rows, by simp [handedOut]⟩
  | succ count ih =>
    rw [pull_run_succ, StateT.run_bind] at hpull
    obtain ⟨⟨⟨before, s₀⟩, calls₀⟩, hbefore⟩ : ∃ r, ((q.records batch).pull
        (unreliable failures rows) count).run 0 = r := ⟨_, rfl⟩
    obtain ⟨⟨⟨item, s₁⟩, calls₁⟩, hnext⟩ : ∃ r, (s₀.next (unreliable failures rows)).run calls₀ =
        r := ⟨_, rfl⟩
    rw [hbefore] at hpull
    change StateT.run (s₀.next (unreliable failures rows) >>= _) calls₀ = _ at hpull
    rw [StateT.run_bind, hnext] at hpull
    obtain ⟨⟨rfl, rfl⟩, -⟩ := Prod.mk.inj hpull |>.imp Prod.mk.inj id
    obtain ⟨hat, htake⟩ := ih hbefore
    rw [handedOut_append]
    rcases hat.next_run hq hbatch hrows hnext with ⟨e, -, rfl, rfl⟩ | ⟨rfl, hafter, -⟩
    · -- the step fails
      have hnone : handedOut [.error (.transport e)] = [] := rfl
      rw [hnone, List.append_nil]
      exact ⟨hat, htake⟩
    · rcases Nat.lt_or_ge (handedOut before).length rows.length with hlt | hge
      · -- the step hands out a row
        have hone : handedOut [.ok rows[(handedOut before).length]?] =
            [rows[(handedOut before).length]] := by
          rw [List.getElem?_eq_getElem hlt]
          rfl
        rw [hone, List.length_append, List.length_singleton]
        rw [Nat.min_eq_left hlt] at hafter
        refine ⟨hafter, ?_⟩
        rw [List.take_add_one, List.getElem?_eq_getElem hlt, ← htake]
        rfl
      · -- there is no further row
        have hnone : handedOut [.ok rows[(handedOut before).length]?] = [] := by
          rw [List.getElem?_eq_none hge]
          rfl
        have hend : (handedOut before).length = rows.length :=
          Nat.le_antisymm hat.handed_le hge
        rw [hnone, List.append_nil]
        rw [Nat.min_eq_right (by omega), ← hend] at hafter
        exact ⟨hafter, htake⟩

/-- Once a stream is over, every step says so. -/
theorem pull_of_isOver {m : Type → Type} [Monad m] [LawfulMonad m] (transport : Transport m)
    {s : RecordStream} (h : s.IsOver) (count : Nat) :
    s.pull transport count = pure (List.replicate count (.ok none), s) := by
  induction count with
  | zero => rfl
  | succ count ih =>
    rw [pull, next_of_isOver transport h, pure_bind]
    dsimp only
    rw [ih, pure_bind]
    rfl

/-! ### Draining a stream -/

theorem drainFrom_eq {m : Type → Type} [Monad m] (transport : Transport m) (q : Query)
    {offset : Nat} (h : (Window.front offset batch).check = .ok ()) :
    drainFrom transport q batch offset = (do
      match ← q.fetch transport (.front offset batch) with
      | .error e => pure ([], some e)
      | .ok page =>
        if page.more then do
          let (rows, failure) ← drainFrom transport q batch (nextOffset offset batch)
          pure (page.records ++ rows, failure)
        else pure (page.records, none)) := by
  rw [drainFrom]
  split
  next fault hfault => rw [h] at hfault; simp at hfault
  next => rfl

/-- Drawing a page that does not fail, and what is behind it. -/
theorem drainFrom_run_page {offset calls : Nat} (hq : q.PagesBy order)
    (hbatch : 1 ≤ batch ∧ batch ≤ maxPageSize) (hrows : rows.length ≤ maxWindowOffset)
    (hoffset : offset ≤ rows.length) (hcalls : failures calls = none) :
    (drainFrom (unreliable failures rows) q batch offset).run calls =
      if offset + batch < rows.length then
        let rest :=
          (drainFrom (unreliable failures rows) q batch (offset + batch)).run (calls + 1)
        (((rows.drop offset).take batch ++ rest.1.1, rest.1.2), rest.2)
      else ((rows.drop offset, none), calls + 1) := by
  have hcheck := check_front hbatch (Nat.le_trans hoffset hrows)
  obtain ⟨hrecords, hmore⟩ := q.page_front batch hoffset
  rw [drainFrom_eq _ _ hcheck, StateT.run_bind,
    fetch_front_run hq hbatch hrows hoffset hcalls]
  change StateT.run (if _ then _ else _) (calls + 1) = _
  rw [hrecords, hmore]
  by_cases hlt : offset + batch < rows.length
  · simp only [hlt, decide_true, if_true, nextOffset_eq hrows hlt]
    rw [StateT.run_bind]
    rfl
  · -- the last page has all rows that are left
    have htake : (rows.drop offset).length ≤ batch := by
      rw [List.length_drop]
      omega
    simp only [hlt, decide_false, if_false, List.take_of_length_le htake]
    rfl

theorem drainFrom_run_of_failure {offset calls : Nat} {e : TransportError} (hq : q.PagesBy order)
    (hbatch : 1 ≤ batch ∧ batch ≤ maxPageSize) (hrows : rows.length ≤ maxWindowOffset)
    (hoffset : offset ≤ rows.length) (he : failures calls = some e) :
    (drainFrom (unreliable failures rows) q batch offset).run calls =
      (([], some (.transport e)), calls + 1) := by
  have hcheck := check_front hbatch (Nat.le_trans hoffset hrows)
  rw [drainFrom_eq _ _ hcheck, StateT.run_bind, q.fetch_run_of_failure hq hcheck he]
  rfl

/-- Without a failure all rows from an offset on are drawn, a page at each call. -/
theorem drainFrom_run {offset calls : Nat} (hq : q.PagesBy order)
    (hbatch : 1 ≤ batch ∧ batch ≤ maxPageSize) (hrows : rows.length ≤ maxWindowOffset)
    (hoffset : offset ≤ rows.length)
    (hcalls : ∀ i < pageCount (rows.length - offset) batch, failures (calls + i) = none) :
    (drainFrom (unreliable failures rows) q batch offset).run calls =
      ((rows.drop offset, none), calls + pageCount (rows.length - offset) batch) := by
  -- by induction on how many rows are left
  induction hleft : rows.length - offset using Nat.strongRecOn generalizing offset calls with
  | _ left ih =>
    subst hleft
    have hfirst : failures calls = none :=
      hcalls 0 (Nat.lt_of_lt_of_le Nat.zero_lt_one (Nat.le_max_left _ _))
    rw [drainFrom_run_page hq hbatch hrows hoffset hfirst]
    by_cases hlt : offset + batch < rows.length
    · have hcount := pageCount_sub hbatch.1 hlt
      have hlater : ∀ i < pageCount (rows.length - (offset + batch)) batch,
          failures (calls + 1 + i) = none := by
        intro i hi
        rw [Nat.add_assoc, Nat.add_comm 1]
        exact hcalls (i + 1) (by omega)
      have hrest : (drainFrom (unreliable failures rows) q batch (offset + batch)).run (calls + 1) =
          ((rows.drop (offset + batch), none),
            calls + 1 + pageCount (rows.length - (offset + batch)) batch) :=
        ih _ (by omega) (by omega) hlater rfl
      rw [if_pos hlt, hrest, hcount]
      dsimp only
      rw [← List.drop_drop, List.take_append_drop, Nat.add_assoc, Nat.add_comm 1]
    · rw [if_neg hlt, pageCount_of_le (by omega)]

/-- Up to a failure the pages in front of it are drawn, and then the failure. -/
theorem drainFrom_run_failure {offset calls i : Nat} {e : TransportError} (hq : q.PagesBy order)
    (hbatch : 1 ≤ batch ∧ batch ≤ maxPageSize) (hrows : rows.length ≤ maxWindowOffset)
    (hoffset : offset ≤ rows.length) (hi : i < pageCount (rows.length - offset) batch)
    (he : failures (calls + i) = some e) (hcalls : ∀ j < i, failures (calls + j) = none) :
    (drainFrom (unreliable failures rows) q batch offset).run calls =
      (((rows.drop offset).take (i * batch), some (.transport e)), calls + i + 1) := by
  -- by induction on how many calls succeed before the one that fails
  induction i generalizing offset calls with
  | zero =>
    rw [Nat.add_zero] at he
    rw [drainFrom_run_of_failure hq hbatch hrows hoffset he]
    simp
  | succ i ih =>
    have hfirst : failures calls = none := hcalls 0 (Nat.succ_pos i)
    -- the first page is not the last one, as there is a call behind it
    have hlt : offset + batch < rows.length := by
      by_contra hnot
      rw [pageCount_of_le (by omega)] at hi
      omega
    have hcount := pageCount_sub hbatch.1 hlt
    have hlater : ∀ j, failures (calls + 1 + j) = failures (calls + (j + 1)) := by
      intro j
      rw [Nat.add_assoc, Nat.add_comm 1]
    have hrest : (drainFrom (unreliable failures rows) q batch (offset + batch)).run (calls + 1) =
        (((rows.drop (offset + batch)).take (i * batch), some (.transport e)),
          calls + 1 + i + 1) :=
      ih (by omega) (by omega) (by rw [hlater]; exact he)
        fun j hj => by rw [hlater]; exact hcalls (j + 1) (by omega)
    rw [drainFrom_run_page hq hbatch hrows hoffset hfirst, if_pos hlt, hrest]
    dsimp only
    rw [← List.drop_drop, Nat.succ_mul, Nat.add_comm (i * batch), List.take_add]
    congr 1
    omega

/-- How many rows a stream has fetched. -/
def fetched (rows : List Row) (s : RecordStream) : Nat := s.pending.getD rows.length

/-- How many pages a stream has still to fetch. -/
def pagesLeft (rows : List Row) (s : RecordStream) : Nat :=
  match s.pending with
  | none => 0
  | some offset => pageCount (rows.length - offset) s.batch

variable {handed calls : Nat} {s : RecordStream}

theorem IsAt.drain_run (hq : q.PagesBy order) (hbatch : 1 ≤ batch ∧ batch ≤ maxPageSize)
    (hrows : rows.length ≤ maxWindowOffset) (h : s.IsAt q batch rows handed)
    (hcalls : ∀ i < s.pagesLeft rows, failures (calls + i) = none) :
    (s.drain (unreliable failures rows)).run calls =
      ((rows.drop handed, none), calls + s.pagesLeft rows) := by
  rw [← h.buffer_append]
  unfold drain unfetched
  unfold pagesLeft at hcalls ⊢
  cases hpending : s.pending with
  | none =>
    dsimp only
    rw [List.append_nil]
    rfl
  | some offset =>
    simp only [hpending] at hcalls
    dsimp only
    rw [h.query_eq, h.batch_eq, StateT.run_bind,
      drainFrom_run hq hbatch hrows (h.offset_le hpending) (h.batch_eq ▸ hcalls)]
    rfl

theorem IsAt.drain_run_failure {i : Nat} {e : TransportError} (hq : q.PagesBy order)
    (hbatch : 1 ≤ batch ∧ batch ≤ maxPageSize) (hrows : rows.length ≤ maxWindowOffset)
    (h : s.IsAt q batch rows handed) (hi : i < s.pagesLeft rows)
    (he : failures (calls + i) = some e) (hcalls : ∀ j < i, failures (calls + j) = none) :
    (s.drain (unreliable failures rows)).run calls =
      (((rows.take (s.fetched rows + i * batch)).drop handed, some (.transport e)),
        calls + i + 1) := by
  unfold pagesLeft at hi
  cases hpending : s.pending with
  | none => simp [hpending] at hi
  | some offset =>
    simp only [hpending, h.batch_eq] at hi
    have hoffset := h.offset_le hpending
    have happend := h.buffer_append
    rw [unfetched, hpending] at happend
    dsimp only at happend
    have hlength : s.buffer.length + (rows.length - offset) = rows.length - handed := by
      have hlengths := congrArg List.length happend
      simpa only [List.length_append, List.length_drop] using hlengths
    -- the buffer and `i` pages behind it
    have hrows' : (rows.take (offset + i * batch)).drop handed =
        s.buffer ++ (rows.drop offset).take (i * batch) := by
      have hhanded := h.handed_le
      have hcount : offset + i * batch - handed - s.buffer.length = i * batch := by omega
      calc (rows.take (offset + i * batch)).drop handed
          = (rows.drop handed).take (offset + i * batch - handed) := List.drop_take
        _ = (s.buffer ++ rows.drop offset).take (offset + i * batch - handed) := by rw [happend]
        _ = s.buffer ++ (rows.drop offset).take (i * batch) := by
            rw [List.take_append, List.take_of_length_le (by omega), hcount]
    have hfetched : s.fetched rows = offset := by rw [fetched, hpending]; rfl
    rw [hfetched, hrows', drain, hpending]
    dsimp only
    rw [h.query_eq, h.batch_eq, StateT.run_bind,
      drainFrom_run_failure hq hbatch hrows hoffset hi he hcalls]
    rfl

/-- What is left of a stream once a page has come for it. -/
theorem drain_received {m : Type → Type} [Monad m] [LawfulMonad m] (transport : Transport m)
    (s : RecordStream) (offset : Nat) (page : Page) :
    (s.received offset page).drain transport =
      if page.more then do
        let (rows, failure) ← drainFrom transport s.query s.batch (nextOffset offset s.batch)
        pure (page.records ++ rows, failure)
      else pure (page.records, none) := by
  cases hmore : page.more <;> simp [drain, received, hmore]

/-- A row of the buffer comes first. -/
theorem drain_of_buffer {m : Type → Type} [Monad m] [LawfulMonad m] (transport : Transport m)
    {s : RecordStream} {row : Row} {buffer : List Row} (hbuffer : s.buffer = row :: buffer) :
    s.drain transport = (do
      let (rows, failure) ← s.pop.2.drain transport
      pure (row :: rows, failure)) := by
  obtain ⟨query, batch, pending, _⟩ := s
  obtain rfl := hbuffer
  cases pending <;> simp [drain, pop]

/-- Without rows in the buffer the next page is drawn. -/
theorem drain_of_pending {m : Type → Type} [Monad m] [LawfulMonad m] (transport : Transport m)
    {s : RecordStream} {offset : Nat} (hbuffer : s.buffer = [])
    (hpending : s.pending = some offset) :
    s.drain transport = drainFrom transport s.query s.batch offset := by
  simp [drain, hbuffer, hpending]

/-- A page without records has nothing behind it. -/
theorem more_of_records_nil (q : Query) (offset : Nat) (hbatch : 0 < batch) {rows : List Row}
    (h : (q.page (.front offset batch) rows).records = []) :
    (q.page (.front offset batch) rows).more = false := by
  have hlength : (rows.take batch).length = 0 := congrArg List.length h
  rw [List.length_take] at hlength
  have hle : ¬ batch < rows.length := by omega
  exact decide_eq_false hle

/-- Once a page has come, the row that it hands out is drawn before the others. -/
theorem drain_received_eq_pop {m : Type → Type} [Monad m] [LawfulMonad m] (transport : Transport m)
    {s : RecordStream} (hbatch : 0 < s.batch) (offset : Nat) (rows : List Row) :
    let t := s.received offset (s.query.page (.front offset s.batch) rows)
    t.drain transport =
      match t.pop with
      | (some row, t') => do
        let (rows, failure) ← t'.drain transport
        pure (row :: rows, failure)
      | (none, _) => pure ([], none) := by
  intro t
  cases hbuffer : t.buffer with
  | cons row buffer =>
    rw [drain_of_buffer transport hbuffer, pop, hbuffer]
    rfl
  | nil =>
    have hrecords : (s.query.page (.front offset s.batch) rows).records = [] := hbuffer
    have hmore := more_of_records_nil s.query offset hbatch hrecords
    rw [pop_of_buffer_nil hbuffer, drain_received, hmore, hrecords]
    rfl

theorem fetch_of_check_error {m : Type → Type} [Monad m] (transport : Transport m) (q : Query)
    {w : Window} {fault : WindowFault} (h : w.check = .error fault) :
    q.fetch transport w = pure (.error (.invalidPage fault)) := by
  unfold Query.fetch
  rw [Query.compilePage_of_check_error h]

theorem drainFrom_of_check_error {m : Type → Type} [Monad m] (transport : Transport m) (q : Query)
    {offset : Nat} {fault : WindowFault} (h : (Window.front offset batch).check = .error fault) :
    drainFrom transport q batch offset = pure ([], some (.invalidPage fault)) := by
  rw [drainFrom]
  split
  next fault' hfault =>
    obtain rfl : fault = fault' := Except.error.inj (h.symm.trans hfault)
    rfl
  next hok =>
    rw [h] at hok
    simp at hok

/-- **Draining a stream is taking steps** until there is no further row, or until a step fails. -/
theorem drain_eq_next {m : Type → Type} [Monad m] [LawfulMonad m] (transport : Transport m)
    (s : RecordStream) :
    s.drain transport = (do
      match ← s.next transport with
      | (.ok (some row), s') => do
        let (rows, failure) ← s'.drain transport
        pure (row :: rows, failure)
      | (.ok none, _) => pure ([], none)
      | (.error e, _) => pure ([], some e)) := by
  cases hbuffer : s.buffer with
  | cons row buffer =>
    have hnext : s.next transport = pure (.ok (some row), s.pop.2) := by
      unfold next
      rw [hbuffer]
      simp [pop, hbuffer]
    rw [hnext, pure_bind]
    exact drain_of_buffer transport hbuffer
  | nil =>
    cases hpending : s.pending with
    | none =>
      rw [next_of_isOver transport ⟨hpending, hbuffer⟩, pure_bind]
      unfold drain
      rw [hpending, hbuffer]
    | some offset =>
      rw [drain_of_pending transport hbuffer hpending]
      unfold next
      rw [hbuffer, hpending]
      dsimp only
      cases hcheck : (Window.front offset s.batch).check with
      | error fault =>
        rw [drainFrom_of_check_error transport s.query hcheck,
          fetch_of_check_error transport s.query hcheck]
        simp only [pure_bind]
      | ok =>
        have hbatch : 0 < s.batch := (Window.check_eq_ok_iff.1 hcheck).1.1
        rw [drainFrom_eq _ _ hcheck]
        -- both go on from what the one call answers
        unfold Query.fetch
        cases s.query.compilePage (.front offset s.batch) with
        | error e => simp only [pure_bind]
        | ok statement =>
          simp only [bind_assoc]
          refine bind_congr fun result => ?_
          cases result with
          | error e => simp only [pure_bind]
          | ok rows =>
            simp only [pure_bind]
            rw [← drain_received, drain_received_eq_pop transport hbatch]
            obtain ⟨_ | row, t⟩ := (s.received offset
              (s.query.page (.front offset s.batch) rows)).pop <;> rfl

end RecordStream

/-! ### Every row exactly once -/

open RecordStream

/-- **Every row is handed out exactly once, whatever fails.** The first part is about any number of
steps from the start: what has been handed out is a beginning of the rows; one more step either
fails with the call that it makes, and leaves the stream where it is, or it hands out the row whose
turn it is; nothing is handed out only after all rows, and from then on always. The second part is
about draining the stream at that point: all rows that are left, or those fetched in front of the
first call that fails and then its failure. The third part is about all rows at once. -/
theorem Query.records_exactly_once {q : Query} {w : Window} {statement : Sql.Statement}
    (hcompile : q.compilePage w = .ok statement) {batch : Nat}
    (hbatch : 1 ≤ batch ∧ batch ≤ maxPageSize) {rows : List Row}
    (hrows : rows.length ≤ maxWindowOffset) (failures : Nat → Option TransportError) :
    (∀ count items s calls,
      ((q.records batch).pull (unreliable failures rows) count).run 0 = ((items, s), calls) →
      handedOut items <+: rows ∧
      (∀ item s' calls', (s.next (unreliable failures rows)).run calls = ((item, s'), calls') →
        ((∃ e, failures calls = some e ∧ item = .error (.transport e) ∧ s' = s ∧
            s'.position = s.position) ∨
          item = .ok rows[(handedOut items).length]?) ∧
        (item = .ok none → handedOut items = rows ∧
          ∀ n, (s'.pull (unreliable failures rows) n).run calls' =
            ((List.replicate n (.ok none), s'), calls')) ∧
        (rows ≠ [] → handedOut items = rows → item = .ok none)) ∧
      ((∀ i < s.pagesLeft rows, failures (calls + i) = none) →
        (s.drain (unreliable failures rows)).run calls =
          ((rows.drop (handedOut items).length, none), calls + s.pagesLeft rows)) ∧
      (∀ i < s.pagesLeft rows, ∀ e, failures (calls + i) = some e →
        (∀ j < i, failures (calls + j) = none) →
        (s.drain (unreliable failures rows)).run calls =
          (((rows.take (s.fetched rows + i * batch)).drop (handedOut items).length,
            some (.transport e)), calls + i + 1))) ∧
    ((∀ call, failures call = none) →
      (q.all (unreliable failures rows) batch).run 0 =
        (.ok rows, max 1 ((rows.length + batch - 1) / batch))) := by
  obtain ⟨table, -, hq⟩ := pagesBy_of_compilePage hcompile
  refine ⟨fun count items s calls hpull => ?_, fun hnone => ?_⟩
  · -- after any number of steps the invariant holds, and everything is read off it
    obtain ⟨hat, htake⟩ := pull_run hq hbatch hrows hpull
    refine ⟨?_, fun item s' calls' hnext => ⟨?_, fun hnothing => ?_, fun hne hall => ?_⟩,
      hat.drain_run hq hbatch hrows,
      fun i hi e he hcalls => hat.drain_run_failure hq hbatch hrows hi he hcalls⟩
    · -- a beginning of the rows
      rw [htake]
      exact List.take_prefix _ _
    · -- one more step
      rcases hat.next_run hq hbatch hrows hnext with ⟨e, he, hitem, rfl⟩ | ⟨hitem, -, -⟩
      · exact .inl ⟨e, he, hitem, rfl, rfl⟩
      · exact .inr hitem
    · -- a step that hands out nothing
      rcases hat.next_run hq hbatch hrows hnext with ⟨e, -, hitem, -⟩ | ⟨hitem, -, hover⟩
      · rw [hitem] at hnothing
        simp at hnothing
      · rw [hitem] at hnothing
        have hge := List.getElem?_eq_none_iff.1 (Except.ok.inj hnothing)
        rw [List.take_of_length_le hge] at htake
        refine ⟨htake, fun n => ?_⟩
        rw [pull_of_isOver _ (hover (Nat.le_antisymm hat.handed_le hge))]
        rfl
    · -- with all rows handed out, the next step says so
      rw [hall] at hat
      rw [next_of_isOver _ (hat.isOver hne)] at hnext
      exact (Prod.mk.inj (Prod.mk.inj hnext).1).1.symm
  · -- all rows at once are what is drained from the start
    have hpages : 0 + (q.records batch).pagesLeft rows =
        max 1 ((rows.length + batch - 1) / batch) := Nat.zero_add _
    have hrecords : ((q.records batch).drain (unreliable failures rows)).run 0 =
        ((rows, none), 0 + (q.records batch).pagesLeft rows) :=
      (isAt_records q batch rows).drain_run hq hbatch hrows fun i _ => hnone _
    rw [hpages] at hrecords
    unfold Query.all
    rw [StateT.run_bind, hrecords]
    rfl

/-- Three rows of a table, two at a time: without a failure two calls fetch them, and if the second
call fails then draining the stream yields two rows and the failure. -/
theorem records_exactly_once_three_rows :
    let q := Query.new ⟨[Table.named "t"]⟩ "t"
    let rows : List Row := [[("n", .int 1)], [("n", .int 2)], [("n", .int 3)]]
    let lost : TransportError := ⟨"connection lost", []⟩
    q.compilePage (.front 0 2) =
        .ok ⟨"select * from \"t\" order by \"xata_id\" asc limit $1", [.int 3]⟩ ∧
      (q.all (unreliable (fun _ => none) rows) 2).run 0 = (.ok rows, 2) ∧
      ((q.records 2).drain (unreliable (fun call => if call = 1 then some lost else none) rows)).run
        0 = (([[("n", .int 1)], [("n", .int 2)]], some (.transport lost)), 2) := by
  intro q rows lost
  have hcompile : q.compilePage (.front 0 2) =
      .ok ⟨"select * from \"t\" order by \"xata_id\" asc limit $1", [.int 3]⟩ := by
    decide +kernel
  have hbatch : 1 ≤ 2 ∧ 2 ≤ maxPageSize := by decide
  have hrows : rows.length ≤ maxWindowOffset := by decide
  refine ⟨hcompile, ?_, ?_⟩
  · have hall := (Query.records_exactly_once hcompile hbatch hrows fun _ => none).2 fun _ => rfl
    have hcalls : max 1 ((rows.length + 2 - 1) / 2) = 2 := by simp [rows]
    rw [hcalls] at hall
    exact hall
  · have hstart := (Query.records_exactly_once hcompile hbatch hrows
      fun call => if call = 1 then some lost else none).1 0 [] (q.records 2) 0 rfl
    exact hstart.2.2.2 1 (by decide) lost rfl (by decide)

end LinkQuery
