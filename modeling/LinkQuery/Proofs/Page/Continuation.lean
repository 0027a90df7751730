import LinkQuery.Proofs.Faults
import LinkQuery.Proofs.Page.Replay
import LinkQuery.Proofs.Page.Statement

/-!
# Going on from a page

A page hands out a cursor from which the walk through the rows may go on, at any later time and
through any query on the same table. Whether that cursor is accepted is decided by how deep the
filter of the page is nested, for a token is read only to a certain depth. Nothing of that is asked
when the cursor is made, so a page may be fetched although nothing can be fetched from its cursor.

* `Page.IsOf` is what holds of every page that is fetched (`Query.isOf_of_paginate`).
* `Query.restore_blames`: once a token is accepted, whatever fails is no fault of the cursor.
* `Page.continued_iff_depth_le`: the cursor of a page is accepted if the filter is not nested too
  deep, and refused otherwise.
* `Page.deeply_nested_not_continued` is a page that is fetched and cannot be gone on from.
-/

namespace LinkQuery

open Json (Value)

/-! ### What a page is made of -/

/-- What holds of every query whose pages are asked for through `q`: it is the query itself, or one
restored from a cursor, whose filter is nested no deeper than a token is read. -/
structure Query.IsAskedThrough (query q : Query) : Prop where
  table : query.table = q.table
  filter : query.filterValue.IsProper
  depth : query = q ∨ query.filterValue.depth ≤ Cursor.maxFilterDepth

/-- What holds of every page that is asked for through `q`. -/
structure Page.IsOf (p : Page) (q : Query) : Prop where
  query : p.query.IsAskedThrough q
  cursor : p.cursor = (p.query.cursor p.window).encode
  window : p.window.check = .ok ()

/-- What holds of everything that is asked for through `q`. The window of a page is checked when its
statement is compiled, that of a cursor when the cursor is read. -/
def PageTarget.IsOf (q : Query) : PageTarget → Prop
  | .window query _ => query.IsAskedThrough q
  | .beyond query w => query.IsAskedThrough q ∧ w.check = .ok ()

theorem PageStep.isOf_target {query q : Query} (hquery : query.IsAskedThrough q) {w : Window}
    (hw : w.check = .ok ()) (step : PageStep) (size : Nat) : (step.target query w size).IsOf q := by
  -- each step leads to a window, or beyond one that was valid
  cases step with
  | next =>
    unfold target
    cases w.after size with
    | some v => exact hquery
    | none => exact ⟨hquery, hw⟩
  | previous =>
    unfold target
    cases w.before size with
    | some v => exact hquery
    | none => exact ⟨hquery, hw⟩
  | first | last => exact hquery

namespace Query

variable {σ : Type} {transport : Transport (StateM σ)} {q r : Query} {s s' : σ}

/-- The filter of a restored query is that of the cursor, or demands nothing at all. -/
theorem filterValue_of_restore {token : String} {restored : Query} {w : Window}
    (h : q.restore token = .ok (restored, w)) :
    ∃ c, Cursor.decode token = .ok c ∧ c.window = w ∧ restored.table = q.table ∧
      (restored.filterValue = c.filter ∨ restored.filterValue = .object []) := by
  obtain ⟨c, hdecode, h⟩ := bind_eq_ok_iff.1 h
  split at h
  -- a cursor of another table is refused
  next => exact absurd h nofun
  next =>
    obtain ⟨filter, -, h⟩ := bind_eq_ok_iff.1 h
    obtain ⟨rfl, rfl⟩ := Prod.mk.inj (Except.ok.inj h)
    refine ⟨c, hdecode, rfl, rfl, ?_⟩
    -- a vacuous filter leaves an empty layer
    cases filter.isVacuous with
    | true => exact .inr rfl
    | false => exact .inl rfl

/-- The filter of a restored query can be written, and is nested no deeper than a token is read. -/
theorem isProper_of_restore {token : String} {restored : Query} {w : Window}
    (h : q.restore token = .ok (restored, w)) :
    restored.filterValue.IsProper ∧ restored.filterValue.depth ≤ Cursor.maxFilterDepth := by
  obtain ⟨c, hdecode, -, -, hfilter⟩ := filterValue_of_restore h
  obtain ⟨-, hproper, hdepth⟩ := Cursor.isProper_of_decode hdecode
  rcases hfilter with hfilter | hfilter
  · rw [hfilter]
    exact ⟨hproper, hdepth⟩
  · rw [hfilter]
    exact ⟨⟨List.nodup_nil, trivial⟩, by decide⟩

theorem isAskedThrough_of_restore {token : String} {restored : Query} {w : Window}
    (h : q.restore token = .ok (restored, w)) : restored.IsAskedThrough q ∧ w.check = .ok () := by
  obtain ⟨c, hdecode, rfl, htable, -⟩ := filterValue_of_restore h
  obtain ⟨hproper, hdepth⟩ := isProper_of_restore h
  exact ⟨⟨htable, hproper, .inr hdepth⟩, (Cursor.isProper_of_decode hdecode).1⟩

theorem isOf_of_target {request : PageRequest} {target : PageTarget}
    (hq : q.filterValue.IsProper) (h : request.target q = .ok target) : target.IsOf q := by
  have hself : q.IsAskedThrough q := ⟨rfl, hq, .inl rfl⟩
  -- a fresh request is answered by the query itself, a relative one by the restored query
  cases request with
  | offset size skipped =>
    rw [PageRequest.target] at h
    split at h
    · cases h
    · obtain rfl := Except.ok.inj h
      exact hself
  | lastOf size =>
    obtain rfl := Except.ok.inj h
    exact hself
  | relative step token size =>
    obtain ⟨⟨restored, w⟩, hrestore, h⟩ := bind_eq_ok_iff.1 h
    obtain rfl := Except.ok.inj h
    obtain ⟨hrestored, hw⟩ := isAskedThrough_of_restore hrestore
    exact PageStep.isOf_target hrestored hw step _

/-- A fetch fails where the statement is not compiled or the database fails, and what it yields
otherwise is the page that the rows of the answer make for the window. -/
theorem fetch_run_cases {w : Window} {result : Except Error Page}
    (h : (q.fetch transport w).run s = (result, s')) :
    (∃ e, q.compilePage w = .error e ∧ result = .error e) ∨
      (∃ e, result = .error (.transport e)) ∨
        ∃ statement rows, q.compilePage w = .ok statement ∧
          (transport statement).run s = (.ok rows, s') ∧ result = .ok (q.page w rows) := by
  unfold fetch at h
  cases hcompile : q.compilePage w with
  | error e =>
    rw [hcompile] at h
    exact .inl ⟨e, rfl, (congrArg Prod.fst h).symm⟩
  | ok statement =>
    rw [hcompile] at h
    dsimp only at h
    rw [StateT.run_bind] at h
    -- the statement is sent, and the answer is an error or rows
    cases hcall : (transport statement).run s with
    | mk answer s₁ =>
      rw [hcall] at h
      cases answer with
      | error e => exact .inr (.inl ⟨e, (congrArg Prod.fst h).symm⟩)
      | ok rows =>
        obtain rfl : s₁ = s' := congrArg Prod.snd h
        exact .inr (.inr ⟨statement, rows, rfl, hcall, (congrArg Prod.fst h).symm⟩)

/-- What a request amounts to: a refusal, a fetch, or a page without records. -/
theorem paginate_run_cases {request : PageRequest} {result : Except Error Page}
    (h : (q.paginate transport request).run s = (result, s')) :
    (∃ e, request.target q = .error e ∧ result = .error e) ∨
      (∃ query w, request.target q = .ok (.window query w) ∧
        (query.fetch transport w).run s = (result, s')) ∨
        ∃ query w, request.target q = .ok (.beyond query w) ∧
          result = .ok (query.pageBeyond w) := by
  unfold paginate at h
  cases htarget : request.target q with
  | error e =>
    rw [htarget] at h
    exact .inl ⟨e, rfl, (congrArg Prod.fst h).symm⟩
  | ok target =>
    rw [htarget] at h
    -- a target is a window to fetch, or beyond the rows
    cases target with
    | window query w => exact .inr (.inl ⟨query, w, rfl, h⟩)
    | beyond query w => exact .inr (.inr ⟨query, w, rfl, (congrArg Prod.fst h).symm⟩)

/-- **Every page has the cursor of its window**, of a query on the same table, and the window is in
range. -/
theorem isOf_of_paginate {request : PageRequest} {p : Page} (hq : q.filterValue.IsProper)
    (h : (q.paginate transport request).run s = (.ok p, s')) : p.IsOf q := by
  -- no page comes from an error, and the others are of the query that was asked
  rcases paginate_run_cases h with
    ⟨e, -, he⟩ | ⟨query, w, htarget, hfetch⟩ | ⟨query, w, htarget, hp⟩
  · exact absurd he nofun
  · have hquery : query.IsAskedThrough q := isOf_of_target hq htarget
    rcases fetch_run_cases hfetch with ⟨e, -, he⟩ | ⟨e, he⟩ | ⟨statement, rows, hcompile, -, hp⟩
    · exact absurd he nofun
    · exact absurd he nofun
    · -- there is a statement, so the window was found to be in range
      obtain rfl := Except.ok.inj hp
      obtain ⟨select, hbuild, -⟩ := map_eq_ok_iff.1 hcompile
      exact ⟨hquery, rfl, check_of_buildPage hbuild⟩
  · obtain ⟨hquery, hw⟩ := isOf_of_target hq htarget
    obtain rfl := Except.ok.inj hp
    exact ⟨hquery, rfl, hw⟩

/-! ### What a token is refused for -/

/-- Once a token is accepted, only the filter inside can keep a query from being restored. -/
theorem restore_blames {token : String} {c : Cursor} (hdecode : Cursor.decode token = .ok c)
    (htable : c.table = r.table) : BlamesQuery (r.restore token) := by
  rw [restore, hdecode]
  show BlamesQuery (if c.table ≠ r.table then _ else _)
  rw [if_neg fun hne => hne htable]
  exact (Filter.ofJson_blames c.filter).bind fun filter => .ok _

theorem fetch_not_refused {w : Window} {fault : CursorFault} :
    (q.fetch transport w).run s ≠ (.error (.invalidCursor fault), s') := by
  intro h
  rcases fetch_run_cases h with ⟨e, hcompile, he⟩ | ⟨e, he⟩ | ⟨statement, rows, -, -, hp⟩
  · -- compiling blames the window of the page or the query
    obtain rfl := Except.error.inj he
    rcases compilePage_eq_error hcompile with ⟨windowFault, -, he⟩ | hquery
    · exact absurd he nofun
    · exact absurd hquery nofun
  · exact absurd (Except.error.inj he) nofun
  · exact absurd hp nofun

/-- **Once a token is accepted, no request fails for its cursor.** -/
theorem paginate_not_refused {token : String} {c : Cursor} (hdecode : Cursor.decode token = .ok c)
    (htable : c.table = r.table) (step : PageStep) (size : Option Nat) {fault : CursorFault} :
    (r.paginate transport (.relative step token size)).run s ≠
      (.error (.invalidCursor fault), s') := by
  intro h
  rcases paginate_run_cases h with ⟨e, htarget, he⟩ | ⟨query, w, -, hfetch⟩ | ⟨query, w, -, hp⟩
  · -- what fails before any fetch is the filter, which is a fault of the query
    obtain rfl := Except.error.inj he
    -- reading the cursor back succeeds, so only its filter can be at fault
    have hblames : BlamesQuery (PageRequest.target r (.relative step token size)) :=
      (restore_blames hdecode htable).bind fun _ => .ok _
    exact absurd (hblames _ htarget) nofun
  · exact fetch_not_refused hfetch
  · exact absurd hp nofun

/-- A token that is not decoded is refused before the database is asked. -/
theorem paginate_run_of_decode_error {token : String} {e : Error}
    (hdecode : Cursor.decode token = .error e) (step : PageStep) (size : Option Nat) :
    (r.paginate transport (.relative step token size)).run s = (.error e, s) := by
  have htarget : PageRequest.target r (.relative step token size) = .error e := by
    rw [PageRequest.target, restore, hdecode]
    rfl
  rw [paginate, htarget]
  rfl

end Query

/-! ### Which cursors are accepted -/

namespace Page

variable {σ : Type}

/-- What the cursor of a page is decoded to: itself but for its floats, unless the filter is nested
too deep. -/
theorem decode_cursor {p : Page} {q : Query} (hp : p.IsOf q) :
    Cursor.decode p.cursor = (p.query.cursor p.window).reread?.elim
      (.error (.invalidCursor .undecodable)) .ok := by
  have hwindow : (p.query.cursor p.window).window.check = .ok () := hp.window
  have hfilter : (p.query.cursor p.window).filter.IsProper := hp.query.filter
  rw [hp.cursor, Cursor.decode_encode_bare hwindow hfilter]

theorem accepted_of_depth_le {p : Page} {q r : Query} (hp : p.IsOf q) (htable : r.table = q.table)
    (hdepth : p.query.filterValue.depth ≤ Cursor.maxFilterDepth) (transport : Transport (StateM σ))
    (step : PageStep) (size : Option Nat) (s s' : σ) (fault : CursorFault) :
    (r.paginate transport (.relative step p.cursor size)).run s ≠
      (.error (.invalidCursor fault), s') := by
  -- the filter is not nested too deep, and its floats are read at any rate
  have hread : (p.query.cursor p.window).reread?.isSome := by
    rw [Cursor.reread?, if_pos (show (p.query.cursor p.window).filter.depth ≤ _ from hdepth),
      Option.isSome_map]
    exact Value.isSome_reread? hp.query.filter
  obtain ⟨read, hread⟩ := Option.isSome_iff_exists.1 hread
  have hdecode := decode_cursor hp
  rw [hread] at hdecode
  have htables : read.table = r.table :=
    calc read.table = p.query.table := Cursor.table_of_reread? hread
      _ = q.table := hp.query.table
      _ = r.table := htable.symm
  exact Query.paginate_not_refused hdecode htables step size

theorem refused_of_lt_depth {p : Page} {q : Query} (hp : p.IsOf q)
    (hdepth : Cursor.maxFilterDepth < p.query.filterValue.depth) (r : Query)
    (transport : Transport (StateM σ)) (step : PageStep) (size : Option Nat) (s : σ) :
    (r.paginate transport (.relative step p.cursor size)).run s =
      (.error (.invalidCursor .undecodable), s) := by
  -- the filter is nested too deep to be read back
  have hread : (p.query.cursor p.window).reread? = none := by
    rw [Cursor.reread?,
      if_neg (show ¬ (p.query.cursor p.window).filter.depth ≤ _ from not_le.2 hdepth)]
    rfl
  have hdecode := decode_cursor hp
  rw [hread] at hdecode
  exact Query.paginate_run_of_decode_error hdecode step size

/-- **Which pages can be gone on from.** If the filter of a page is nested no deeper than a token is
read, then no request relative to the cursor of the page is refused for the cursor, whatever the
step and the size, the query on its table that receives it, and the database. Otherwise each of
these requests is refused, before the database is asked, and the page is one of the query itself: a
page that was asked for by a cursor can be gone on from. -/
theorem continued_iff_depth_le {q r : Query} {transport : Transport (StateM σ)}
    {request : PageRequest} {s s' : σ} {p : Page} (hlayers : ∀ layer ∈ q.layers, layer.IsProper)
    (hpage : (q.paginate transport request).run s = (.ok p, s')) (htable : r.table = q.table)
    {τ : Type} (transport' : Transport (StateM τ)) (t : τ) (step : PageStep) (size : Option Nat) :
    (p.query.filterValue.depth ≤ Cursor.maxFilterDepth → ∀ fault t',
      (r.paginate transport' (.relative step p.cursor size)).run t ≠
        (.error (.invalidCursor fault), t')) ∧
    (Cursor.maxFilterDepth < p.query.filterValue.depth → p.query = q ∧
      (r.paginate transport' (.relative step p.cursor size)).run t =
        (.error (.invalidCursor .undecodable), t)) := by
  -- whatever was asked for, the page is one of the query
  have hp : p.IsOf q := Query.isOf_of_paginate (Query.isProper_filterValue hlayers) hpage
  refine ⟨fun hdepth fault t' => ?_, fun hdepth => ⟨?_, ?_⟩⟩
  · exact accepted_of_depth_le hp htable hdepth transport' step size t t' fault
  · exact hp.query.depth.resolve_right (not_le.2 hdepth)
  · exact refused_of_lt_depth hp hdepth r transport' step size t

/-- The second row that a filter selects, with a further row behind it. -/
theorem continued_iff_depth_le_second_row :
    let q := (Query.new ⟨[Table.named "t"]⟩ "t").addColumnFilter "n" (.object [("$ge", .int 3)])
    let transport : Transport (StateM Nat) := fun _ calls =>
      (.ok [[("n", .int 3)], [("n", .int 4)]], calls + 1)
    ∃ p : Page, (q.paginate transport (.offset 1 1)).run 0 = (.ok p, 1) ∧
      p.records = [[("n", .int 3)]] ∧
      ∀ step size fault t', (q.paginate transport (.relative step p.cursor size)).run 1 ≠
        (.error (.invalidCursor fault), t') := by
  intro q transport
  have hlayers : ∀ layer ∈ q.layers, layer.IsProper := by
    intro layer hlayer
    obtain rfl := List.mem_singleton.1 hlayer
    exact ⟨by simp, ⟨by simp, ⟨by decide, by decide⟩, trivial⟩, trivial⟩
  have hcompile : q.compilePage (.front 1 1) =
      .ok ⟨"select * from \"t\" where \"n\" >= $1 order by \"xata_id\" asc limit $2 offset $3",
        [.int 3, .int 2, .int 1]⟩ := by
    decide +kernel
  have hpage : (q.paginate transport (.offset 1 1)).run 0 =
      (.ok (q.page (.front 1 1) [[("n", .int 3)], [("n", .int 4)]]), 1) := by
    rw [Query.paginate, PageRequest.target, if_neg (by decide)]
    show (q.fetch transport (.front 1 1)).run 0 = _
    rw [Query.fetch, hcompile]
    rfl
  have hdepth : q.filterValue.depth ≤ Cursor.maxFilterDepth := by decide
  refine ⟨_, hpage, rfl, fun step size fault t' => ?_⟩
  exact (continued_iff_depth_le hlayers hpage rfl transport 1 step size).1 hdepth fault t'

end Page

/-! ### A page that cannot be gone on from -/

/-- A value inside `n` arrays. -/
def Json.Value.inArrays (v : Value) : Nat → Value
  | 0 => v
  | n + 1 => .array [v.inArrays n]

theorem Json.Value.isProper_inArrays {v : Value} (h : v.IsProper) (n : Nat) :
    (v.inArrays n).IsProper := by
  induction n with
  | zero => exact h
  | succ n ih => exact ⟨ih, trivial⟩

/-- **A filter may be nested so deep that its page cannot be gone on from.** Two filters are put
together, each of which can be read from a text. The page is fetched, but its cursor is nested
deeper than a text may be, and is refused. -/
theorem Page.deeply_nested_not_continued :
    let q := (Query.new ⟨[Table.named "t"]⟩ "t")
      |>.addCombined .any [.object [("name", Value.inArrays (.text "a") 122)]]
      |>.addFilter (.object [])
    let transport : Transport (StateM Nat) :=
      fun _ calls => (.ok [[("xata_id", .int 1)]], calls + 1)
    (∀ layer ∈ q.layers, layer.IsProper ∧ layer.depth ≤ Value.maxDepth) ∧
    ∃ p : Page, (q.paginate transport .default).run 0 = (.ok p, 1) ∧
      p.records = [[("xata_id", .int 1)]] ∧
      ∀ step size, (q.paginate transport (.relative step p.cursor size)).run 1 =
        (.error (.invalidCursor .undecodable), 1) := by
  intro q transport
  have hlayers : ∀ layer ∈ q.layers, layer.IsProper ∧ layer.depth ≤ Value.maxDepth := by
    intro layer hlayer
    have hmem :
        layer = .object [("$any", .array [.object [("name", Value.inArrays (.text "a") 122)]])] ∨
        layer = .object [] := by
      simpa [q, Query.addFilter, Query.addCombined, Query.addColumnFilter, Query.new,
        Combinator.key]
        using hlayer
    have hnested := Value.isProper_inArrays (v := .text "a") trivial 122
    rcases hmem with rfl | rfl
    · exact ⟨⟨by simp, ⟨⟨by simp, hnested, trivial⟩, trivial⟩, trivial⟩, by decide +kernel⟩
    · exact ⟨⟨by simp, trivial⟩, by decide⟩
  have hcompile : q.compilePage (.front 0 20) =
      .ok ⟨"select * from \"t\" where \"name\" = $1 order by \"xata_id\" asc limit $2",
        [.text "a", .int 21]⟩ := by
    decide +kernel
  have hpage : (q.paginate transport .default).run 0 =
      (.ok (q.page (.front 0 20) [[("xata_id", .int 1)]]), 1) := by
    show (q.fetch transport (.front 0 20)).run 0 = _
    rw [Query.fetch, hcompile]
    rfl
  have hp : (q.page (.front 0 20) [[("xata_id", .int 1)]]).IsOf q :=
    Query.isOf_of_paginate (Query.isProper_filterValue fun layer hlayer => (hlayers layer hlayer).1)
      hpage
  -- the layers are put together two levels above the deeper one
  have hdepth : Cursor.maxFilterDepth < q.filterValue.depth := by decide +kernel
  refine ⟨hlayers, _, hpage, rfl, fun step size => ?_⟩
  exact Page.refused_of_lt_depth hp hdepth q transport step size 1

end LinkQuery
