import LinkQuery.Proofs.Page.Ordered
import LinkQuery.Proofs.Page.Resume

/-!
# Visiting pages

A walk through the pages of a query starts with a fresh request and goes on from the cursor of any
page that it has come to. All that it meets is fixed by the places: the page is the one of the
place, whatever way has led there.

* `Query.Lists` and `Query.IsServed` are what is asked of the rows and of the database. The database
  may be in any state and change it; it answers the statements of the walk from `rows`, and nothing
  is said about other statements.
* `Query.Reaches` is the walk. It keeps account of the place, which the page itself does not show.
* `Query.Reaches.stands` is the invariant of walks, and `Page.Stands.run` the next step from there.
-/

namespace LinkQuery

variable {σ : Type} {cmp : String → Row → Row → Ordering} {rows : List Row}
  {transport : Transport (StateM σ)} {q query r : Query} {place : Place} {p : Page}

/-! ### The database -/

/-- The database answers a statement from `rows`, whatever state it is in: it orders them as the
text asks, and delivers as many of them as are wanted behind those that are left out. -/
def AnswersFrom (cmp : String → Row → Row → Ordering) (rows : List Row)
    (transport : Transport (StateM σ)) (statement : Sql.Statement) : Prop :=
  ∀ clause, statement.pageClause? = some clause → ∀ s, ∃ sorted s',
    sorted.Perm rows ∧ IsOrdered cmp clause.order sorted ∧
      (transport statement).run s = (.ok ((sorted.drop clause.offset).take clause.limit), s')

theorem Answers.answersFrom (h : Answers cmp rows transport) (statement : Sql.Statement) :
    AnswersFrom cmp rows transport statement := by
  intro clause hclause s
  obtain ⟨sorted, hperm, hsorted, hrun⟩ := h statement clause hclause
  exact ⟨sorted, s, hperm, hsorted, by rw [hrun]; rfl⟩

/-- The rows of a query, in the order of its pages. No term of the order is random, and no two rows
have the same primary key. -/
structure Query.Lists (q : Query) (cmp : String → Row → Row → Ordering) (rows : List Row) :
    Prop where
  not_isRandom : ∀ term ∈ q.sort, ¬ term.isRandom
  key_ne : ∀ table, q.schema.requireTable q.table = .ok table →
    rows.Pairwise fun a b => cmp table.primaryKey a b ≠ .eq
  isOrdered : ∀ table, q.schema.requireTable q.table = .ok table →
    IsOrdered cmp (Query.pageOrder table.primaryKey q.sort) rows

/-- The rows of a query are those of every query on its table with the same order. -/
theorem Query.Lists.congr (h : q.Lists cmp rows) (hschema : r.schema = q.schema)
    (htable : r.table = q.table) (hsort : r.sort = q.sort) : r.Lists cmp rows where
  not_isRandom := by rw [hsort]; exact h.not_isRandom
  key_ne := by rw [hschema, htable]; exact h.key_ne
  isOrdered := by rw [hschema, htable, hsort]; exact h.isOrdered

/-- The database answers for the pages of a walk from the rows of the query. -/
structure Query.IsServed (q : Query) (cmp : String → Row → Row → Ordering) (rows : List Row)
    (transport : Transport (StateM σ)) : Prop where
  isProper : q.filterValue.IsProper
  lists : q.Lists cmp rows
  answers : ∀ query, q.Resumes query → ∀ w statement, query.compilePage w = .ok statement →
    AnswersFrom cmp rows transport statement

namespace Query.IsServed

variable [∀ column, Std.TransCmp (cmp column)]

/-- **Every window in range has its page**, if any window has one. -/
theorem fetch_run (h : q.IsServed cmp rows transport) (hquery : q.Resumes query)
    (hcompiles : ∃ w statement, query.compilePage w = .ok statement) {w : Window}
    (hw : w.check = .ok ()) (s : σ) :
    ∃ s', (query.fetch transport w).run s = (.ok (query.pageAt rows (.inside w)), s') := by
  -- one page of the query compiles, hence every valid window does
  obtain ⟨w₀, statement₀, hcompile⟩ := hcompiles
  obtain ⟨table, htable, hpages⟩ := pagesBy_of_compilePage hcompile
  obtain ⟨statement, hstatement, hclause⟩ := hpages w hw
  obtain ⟨sorted, s', hperm, hsorted, hrun⟩ :=
    h.answers query hquery w statement hstatement _ hclause s
  have hshares := hquery.shares h.isProper
  have hlists := h.lists.congr hshares.schema hshares.table hshares.sort
  -- the key is listed without ties, so the server can answer in one order only
  obtain rfl := eq_turn_of_isOrdered hlists.not_isRandom (hlists.key_ne table htable)
    (hlists.isOrdered table htable) hperm hsorted
  have hpage : query.page w (((w.anchor.turn rows).drop (fetchLimit w).2).take (fetchLimit w).1) =
      query.pageAt rows (.inside w) := by
    rw [fetchLimit_snd, page, recordsOf_fetched]
    rfl
  exact ⟨s', hpage ▸ fetch_run_of_answer hstatement hrun⟩

/-- A page that is fetched is the one of its window, which is in range. -/
theorem eq_pageAt_of_fetch (h : q.IsServed cmp rows transport) (hquery : q.Resumes query)
    {w : Window} {s s' : σ} (hp : (query.fetch transport w).run s = (.ok p, s')) :
    p = query.pageAt rows (.inside w) ∧ w.check = .ok () := by
  rcases fetch_run_cases hp with ⟨e, -, he⟩ | ⟨e, he⟩ | ⟨statement, delivered, hcompile, -, -⟩
  · exact absurd he nofun
  · exact absurd he nofun
  · -- a statement was built, and that only for a valid window
    obtain ⟨select, hbuild, -⟩ := map_eq_ok_iff.1 hcompile
    have hw := check_of_buildPage hbuild
    obtain ⟨s'', hrun⟩ := h.fetch_run hquery ⟨w, statement, hcompile⟩ hw s
    rw [hp] at hrun
    exact ⟨Except.ok.inj (Prod.mk.inj hrun).1, hw⟩

end Query.IsServed

/-! ### Walks -/

/-- The pages of a walk, each with its place: those of fresh requests, and those asked for by the
cursor of a page of the walk, through any query on the table. -/
inductive Query.Reaches (transport : Transport (StateM σ)) (q : Query) : Place → Page → Prop
  | offset {size skipped : Nat} {s s' : σ} {p : Page}
      (h : (q.paginate transport (.offset size skipped)).run s = (.ok p, s')) :
      Reaches transport q (.inside (.front skipped size)) p
  | lastOf {size : Nat} {s s' : σ} {p : Page}
      (h : (q.paginate transport (.lastOf size)).run s = (.ok p, s')) :
      Reaches transport q (.inside (.back 0 size)) p
  | relative {place : Place} {p p' : Page} {r : Query} {step : PageStep} {size : Option Nat}
      {s s' : σ} (hp : Reaches transport q place p) (hschema : r.schema = q.schema)
      (htable : r.table = q.table)
      (h : (r.paginate transport (.relative step p.cursor size)).run s = (.ok p', s')) :
      Reaches transport q (step.place p.window (size.getD p.window.size)) p'

/-- A page stands at a place of a walk through the pages of `q`. -/
structure Page.Stands (p : Page) (q : Query) (rows : List Row) (place : Place) : Prop where
  query : q.Resumes p.query
  page : p = p.query.pageAt rows place
  check : place.window.check = .ok ()

namespace Page.Stands

theorem window_eq (h : p.Stands q rows place) : p.window = place.window := by
  rw [h.page]
  rfl

theorem records_eq (h : p.Stands q rows place) : p.records = place.rowsOf rows := by
  rw [h.page]
  rfl

theorem more_eq (h : p.Stands q rows place) : p.more = place.showsMore rows.length := by
  rw [h.page]
  rfl

theorem cursor_eq (h : p.Stands q rows place) :
    p.cursor = (p.query.cursor place.window).encode := by
  rw [h.page]
  rfl

end Page.Stands

/-- A place without a window carries the window that it was left from. -/
theorem PageStep.window_place {step : PageStep} {w : Window} {size : Nat}
    (h : (step.place w size).isInside = false) : (step.place w size).window = w := by
  unfold place at h ⊢
  cases step with
  | next => cases hafter : w.after size <;> simp_all [Place.isInside, Place.window]
  | previous => cases hbefore : w.before size <;> simp_all [Place.isInside, Place.window]
  | first | last => simp [Place.isInside] at h

/-- What a request by a cursor means, once the cursor is restored. -/
theorem Query.target_relative {token : String} {restored : Query} {w : Window}
    (h : r.restore token = .ok (restored, w)) (step : PageStep) (size : Option Nat) :
    PageRequest.target r (.relative step token size) =
      .ok ((step.place w (size.getD w.size)).target restored) := by
  rw [PageRequest.target, h]
  exact congrArg Except.ok (step.target_eq restored w _)

variable [∀ column, Std.TransCmp (cmp column)]

namespace Query

/-- A page that is asked for stands at its place. -/
theorem IsServed.stands_of_target (hq : q.IsServed cmp rows transport) (hquery : q.Resumes query)
    {request : PageRequest} (htarget : request.target r = .ok (place.target query))
    (hbeyond : place.isInside = false → place.window.check = .ok ()) {s s' : σ}
    (h : (r.paginate transport request).run s = (.ok p, s')) : p.Stands q rows place := by
  unfold paginate at h
  rw [htarget] at h
  cases place with
  -- inside the rows the page is fetched, elsewhere it is empty and nothing is sent
  | inside w =>
    obtain ⟨rfl, hw⟩ := hq.eq_pageAt_of_fetch hquery h
    exact ⟨hquery, rfl, hw⟩
  | beforeFirst w | behindLast w =>
    obtain rfl := Except.ok.inj (Prod.mk.inj h).1
    exact ⟨hquery, rfl, hbeyond rfl⟩

/-- **Every page of a walk stands at its place.** -/
theorem Reaches.stands (hq : q.IsServed cmp rows transport) (h : q.Reaches transport place p) :
    p.Stands q rows place := by
  -- along the steps that reached the page: one lemma serves all three requests
  induction h with
  | @offset size skipped s s' p h =>
    by_cases hskipped : maxRequestOffset < skipped
    · rw [paginate, PageRequest.target, if_pos hskipped] at h
      cases (Prod.mk.inj h).1
    · have htarget : PageRequest.target q (.offset size skipped) =
          .ok ((Place.inside (.front skipped size)).target q) := by
        rw [PageRequest.target, if_neg hskipped]
        rfl
      exact hq.stands_of_target .self htarget (by rintro ⟨⟩) h
  | @lastOf size s s' p h =>
    have htarget : PageRequest.target q (.lastOf size) =
        .ok ((Place.inside (.back 0 size)).target q) := rfl
    exact hq.stands_of_target .self htarget (by rintro ⟨⟩) h
  | @relative place p p' r step size s s' hp hschema htable h ih =>
    have hshares := ih.query.shares hq.isProper
    -- the query that receives the cursor makes no difference
    have hcursor := restore_congr hschema htable p.cursor
    cases hrestored : q.restore p.cursor with
    | error e =>
      have htarget : PageRequest.target r (.relative step p.cursor size) = .error e := by
        rw [PageRequest.target, hcursor, hrestored]
        rfl
      rw [paginate, htarget] at h
      cases (Prod.mk.inj h).1
    | ok restored =>
      obtain ⟨restored, w⟩ := restored
      have htarget := target_relative (hcursor.trans hrestored) step size
      rw [ih.cursor_eq] at hrestored
      obtain ⟨-, rfl⟩ := hshares.of_restore ih.check hrestored
      rw [ih.window_eq]
      have hresumes : q.Resumes restored := .restored ih.query ih.check hrestored
      refine hq.stands_of_target hresumes htarget (fun hinside => ?_) h
      rw [PageStep.window_place hinside]
      exact ih.check

/-- A walk may start at any window in range at the start of the rows. -/
theorem IsServed.run_offset (hq : q.IsServed cmp rows transport) (hwalk : q.IsWalkable)
    {size skipped : Nat} (hskipped : skipped ≤ maxRequestOffset)
    (hw : (Window.front skipped size).check = .ok ()) (s : σ) :
    ∃ p s', (q.paginate transport (.offset size skipped)).run s = (.ok p, s') ∧
      p.Stands q rows (.inside (.front skipped size)) := by
  obtain ⟨s', hfetch⟩ := hq.fetch_run .self hwalk.compiles hw s
  refine ⟨q.pageAt rows (.inside (.front skipped size)), s', ?_, .self, rfl, hw⟩
  rw [paginate, PageRequest.target, if_neg (Nat.not_lt.2 hskipped)]
  exact hfetch

/-- A walk may start at any window in range at the end of the rows. -/
theorem IsServed.run_lastOf (hq : q.IsServed cmp rows transport) (hwalk : q.IsWalkable) {size : Nat}
    (hw : (Window.back 0 size).check = .ok ()) (s : σ) :
    ∃ p s', (q.paginate transport (.lastOf size)).run s = (.ok p, s') ∧
      p.Stands q rows (.inside (.back 0 size)) := by
  obtain ⟨s', hfetch⟩ := hq.fetch_run .self hwalk.compiles hw s
  exact ⟨_, s', hfetch, .self, rfl, hw⟩

end Query

/-- **The next step of a walk**: to the page of the next place, if its window is in range. -/
theorem Page.Stands.run (h : p.Stands q rows place) (hq : q.IsServed cmp rows transport)
    (hwalk : q.IsWalkable) (hschema : r.schema = q.schema) (htable : r.table = q.table)
    (step : PageStep) (size : Option Nat) (s : σ) :
    let next := step.place p.window (size.getD p.window.size)
    (next.window.check = .ok () → ∃ p' s',
      (r.paginate transport (.relative step p.cursor size)).run s = (.ok p', s') ∧
        p'.Stands q rows next) ∧
    ∀ fault, next.window.check = .error fault →
      (r.paginate transport (.relative step p.cursor size)).run s =
        (.error (.invalidPage fault), s) := by
  intro next
  have hwalk' := h.query.isWalkable hwalk
  have hshares := h.query.shares hq.isProper
  -- the cursor of a walkable query is read back, by any query of the same table
  obtain ⟨restored, hrestore⟩ := hwalk'.exists_restore h.check
  have hrestored := hrestore q hshares.schema.symm hshares.table.symm
  have hresumes : q.Resumes restored := .restored h.query h.check hrestored
  have htarget : PageRequest.target r (.relative step p.cursor size) =
      .ok (next.target restored) := by
    have hrestored' := hrestore r (hschema.trans hshares.schema.symm)
      (htable.trans hshares.table.symm)
    rw [← h.cursor_eq, ← h.window_eq] at hrestored'
    exact Query.target_relative hrestored' step size
  rw [Query.paginate, htarget]
  cases hnext : next with
  | inside w =>
    -- a valid window is fetched and an invalid one refused before anything is sent
    refine ⟨fun hcheck => ?_, fun fault hfault => ?_⟩
    · obtain ⟨s', hfetch⟩ := hq.fetch_run hresumes (hresumes.isWalkable hwalk).compiles hcheck s
      exact ⟨_, s', hfetch, hresumes, rfl, hcheck⟩
    · have hrefused := Query.compilePage_of_check_error (q := restored) (w := w) hfault
      show (restored.fetch transport w).run s = _
      rw [Query.fetch, hrefused]
      rfl
  | beforeFirst w | behindLast w =>
    -- an empty page keeps a window that was valid already
    have hinside : next.isInside = false := by rw [hnext]; rfl
    have hwindow : next.window = p.window := PageStep.window_place hinside
    rw [hnext, h.window_eq] at hwindow
    refine ⟨fun hcheck => ⟨_, s, rfl, hresumes, rfl, hcheck⟩, fun fault hfault => ?_⟩
    rw [hwindow, h.check] at hfault
    cases hfault

/-- **The next step of a walk** through the page itself. -/
theorem Page.Stands.go (h : p.Stands q rows place) (hq : q.IsServed cmp rows transport)
    (hwalk : q.IsWalkable) (step : PageStep) (size : Option Nat) (s : σ)
    (hcheck : (step.place p.window (size.getD p.window.size)).window.check = .ok ()) :
    ∃ p' s', (p.go transport step size).run s = (.ok p', s') ∧
      p'.Stands q rows (step.place p.window (size.getD p.window.size)) :=
  have hshares := h.query.shares hq.isProper
  (h.run hq hwalk hshares.schema hshares.table step size s).1 hcheck

/-! ### A table of numbered rows -/

/-- The row with a number for its primary key. -/
def numberedRow (n : Nat) : Row := [("xata_id", .int n)]

/-- The rows with the numbers from one on. -/
def numberedRows (count : Nat) : List Row := (List.range' 1 count).map numberedRow

/-- All rows of a table. -/
def allNumbered : Query := .new ⟨[Table.named "t"]⟩ "t"

/-- Compares rows by the numbers in a column. -/
def byNumber (column : String) : Row → Row → Ordering := compareOn (intIn column)

instance transCmp_byNumber (column : String) : Std.TransCmp (byNumber column) :=
  inferInstanceAs (Std.TransCmp (compareOn (intIn column)))

/-- The database that holds the numbered rows. -/
def numberedDatabase (count : Nat) : Transport (StateM Unit) :=
  sorting byNumber (numberedRows count)

theorem length_numberedRows (count : Nat) : (numberedRows count).length = count := by
  rw [numberedRows, List.length_map, List.length_range']

theorem isWalkable_allNumbered : allNumbered.IsWalkable := by
  have hproper : allNumbered.filterValue.IsProper := ⟨List.nodup_nil, trivial⟩
  have hcompile : allNumbered.compilePage (.front 0 1) =
      .ok ⟨"select * from \"t\" order by \"xata_id\" asc limit $1", [.int 2]⟩ := by decide +kernel
  exact ⟨hproper, ⟨_, _, hcompile⟩, fun w hw => (Query.exists_decode_iff hproper hw).2 (by decide)⟩

theorem byNumber_numberedRow {m n : Nat} (h : m < n) :
    byNumber "xata_id" (numberedRow m) (numberedRow n) = .lt := by
  show compare (m : Int) (n : Int) = .lt
  exact compare_lt_iff_lt.2 (Int.ofNat_lt.2 h)

/-- The numbered rows stand in the order of pages. -/
theorem lists_allNumbered (count : Nat) : allNumbered.Lists byNumber (numberedRows count) := by
  -- the rows are numbered upwards, so no two of them tie
  have hpairwise : (numberedRows count).Pairwise fun a b => byNumber "xata_id" a b = .lt := by
    rw [numberedRows, List.pairwise_map]
    exact (List.pairwise_lt_range' (s := 1)).imp byNumber_numberedRow
  have hkey : ∀ table, allNumbered.schema.requireTable allNumbered.table = .ok table →
      table.primaryKey = "xata_id" := by
    intro table htable
    obtain rfl := Except.ok.inj htable
    rfl
  refine ⟨by simp [allNumbered, Query.new], fun table htable => ?_, fun table htable => ?_⟩
  · rw [hkey table htable]
    exact hpairwise.imp fun hlt heq => by simp [hlt] at heq
  · rw [hkey table htable]
    refine hpairwise.imp fun {a b} hlt => ?_
    -- the key is the only term of the order
    have hcompare : compareBy byNumber (Query.pageOrder "xata_id" allNumbered.sort) a b = .lt := by
      show (byNumber "xata_id" a b).then .eq = .lt
      rw [hlt]
      rfl
    rw [hcompare]
    rfl

theorem isServed_allNumbered (count : Nat) :
    allNumbered.IsServed byNumber (numberedRows count) (numberedDatabase count) :=
  ⟨isWalkable_allNumbered.isProper, lists_allNumbered count,
    fun _ _ _ statement _ => (answers_sorting (List.Perm.refl _)).answersFrom statement⟩

end LinkQuery
