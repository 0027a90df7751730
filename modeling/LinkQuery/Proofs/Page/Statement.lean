import LinkQuery.Proofs.Sql.Casts
import LinkQuery.Proofs.Sql.PageClause

/-!
# The statements of windows

A query that can be compiled for one window can be compiled for all of them: the windows differ only
in the direction of the order and in the limit, and nothing that is checked depends on either.

* `Query.buildOrdered` is what the statements of all windows have in common, and
  `Query.buildPage_eq` says how the one of a window is made from it.
* `Query.PagesBy` says what the database is asked for: of every window in range there is a
  statement, and its text asks for the rows of the window in the given order.
  `Query.pagesBy_of_compilePage` derives it from the statement for any single window.
* `Query.fetch_run_of_answer` and `Query.fetch_run_of_no_answer` say what becomes of the statement
  when it is handed over to a database.
-/

namespace LinkQuery

open Sql

/-! ### Turning an order round -/

@[simp] theorem SortTerm.isRandom_reversed (term : SortTerm) :
    term.reversed.isRandom = term.isRandom := by
  obtain ⟨column, direction⟩ := term
  cases direction <;> rfl

namespace Sql.SelectStatement

variable {schema : Schema} {tableName : String} {selection : Selection} {r : Restriction}

/-- Rows can be ordered by a term if they can be ordered by the opposite one. -/
theorem checkTerm_reversed (table : Table) (links : List String) (term : SortTerm) :
    checkTerm table tableName links term.reversed = checkTerm table tableName links term := by
  unfold checkTerm
  rw [SortTerm.isRandom_reversed, SortTerm.column_reversed]

/-- The terms of an order are checked with the same outcome as those of the opposite order. -/
theorem forM_checkTerm_reversed (table : Table) (links : List String) (order : List SortTerm) :
    (order.map SortTerm.reversed).forM (checkTerm table tableName links) =
      order.forM (checkTerm table tableName links) := by
  rw [List.forM_eq_forM, List.forM_map]
  simp only [checkTerm_reversed]

/-- The columns of the opposite order are those of the order. -/
theorem columns_reversed (order : List SortTerm) :
    ((order.map SortTerm.reversed).filter fun term => !term.isRandom).map (·.column) =
      (order.filter fun term => !term.isRandom).map (·.column) := by
  induction order with
  | nil => rfl
  | cons term rest ih =>
    rw [List.map_cons, List.filter_cons, List.filter_cons, SortTerm.isRandom_reversed]
    split
    · rw [List.map_cons, List.map_cons, ih, SortTerm.column_reversed]
    · exact ih

/-- Nothing that is checked depends on the limit. -/
theorem build_limit (order : List SortTerm) (limit limit' : Option (Nat × Nat)) :
    build schema tableName selection r order limit' =
      (build schema tableName selection r order limit).map fun s => { s with limit := limit' } := by
  unfold build
  cases schema.requireTable tableName with
  | error e => rfl
  | ok table =>
    -- the steps behind the table are the same ones, whatever their outcome
    simp only [bind, Except.bind]
    split
    · rfl
    · split <;> rfl

/-- Nothing that is checked depends on the direction of the order. -/
theorem build_reversed (order : List SortTerm) (limit : Option (Nat × Nat)) :
    build schema tableName selection r (order.map SortTerm.reversed) limit =
      (build schema tableName selection r order limit).map fun s =>
        { s with order := s.order.map SortTerm.reversed } := by
  unfold build
  cases schema.requireTable tableName with
  | error e => rfl
  | ok table =>
    -- the two checks that look at the order give what they give for the opposite one
    simp only [bind, Except.bind, forM_checkTerm_reversed, columns_reversed]
    split
    · rfl
    · split <;> rfl

end Sql.SelectStatement

/-! ### The statement of a window -/

namespace Query

/-- A query's statement depends on a part of the query only through what it builds from it. -/
theorem build_map {q : Query} {order order' : List SortTerm} {limit limit' : Option (Nat × Nat)}
    {f : SelectStatement → SelectStatement}
    (h : ∀ selection r, SelectStatement.build q.schema q.table selection r order' limit' =
      (SelectStatement.build q.schema q.table selection r order limit).map f) :
    q.build order' limit' = (q.build order limit).map f := by
  unfold build
  simp only [h]
  -- the selection and the filter are read before the order is looked at
  cases Selection.ofColumns q.schema q.table (q.columns.getD []) with
  | error e => rfl
  | ok selection =>
    cases Filter.ofJson q.filterValue with
    | error e => rfl
    | ok filter =>
      simp only [bind, Except.bind]
      cases Restriction.ofFilter q.schema q.table filter <;> rfl

/-- The statement for all rows in the order of pages. -/
def buildOrdered (q : Query) : Except Error SelectStatement := do
  let table ← q.schema.requireTable q.table
  q.build (pageOrder table.primaryKey q.sort) none

/-- The statement for a window of the rows of a statement. -/
def forWindow (w : Window) (s : SelectStatement) : SelectStatement :=
  { s with order := fetchOrder w.anchor s.order, limit := some (fetchLimit w) }

/-- The statement in the order that a window is fetched in is made from the one for all rows. -/
theorem build_fetchOrder (q : Query) (w : Window) (order : List SortTerm) :
    q.build (fetchOrder w.anchor order) (some (fetchLimit w)) =
      (q.build order none).map (forWindow w) := by
  unfold forWindow
  cases w.anchor with
  | front => exact build_map fun selection r => SelectStatement.build_limit _ _ _
  | back =>
    -- the limit is set on the statement of the opposite order
    refine build_map fun selection r => ?_
    rw [fetchOrder, SelectStatement.build_reversed, SelectStatement.build_limit order none]
    cases SelectStatement.build q.schema q.table selection r order none <;> rfl

/-- **Windows differ in the direction of the order and in the limit.** -/
theorem buildPage_eq (q : Query) {w : Window} (hw : w.check = .ok ()) :
    q.buildPage w = q.buildOrdered.map (forWindow w) := by
  unfold buildPage buildOrdered
  rw [hw]
  cases q.schema.requireTable q.table with
  | error e => rfl
  | ok table => exact build_fetchOrder q w _

/-- A window that has a statement is in range. -/
theorem check_of_buildPage {q : Query} {w : Window} {s : SelectStatement}
    (h : q.buildPage w = .ok s) : w.check = .ok () := by
  obtain ⟨⟨⟩, hcheck, h⟩ := bind_eq_ok_iff.1 h
  exact mapError_eq_ok_iff.1 hcheck

/-- A window out of range has no statement. -/
theorem compilePage_of_check_error {q : Query} {w : Window} {fault : WindowFault}
    (h : w.check = .error fault) : q.compilePage w = .error (.invalidPage fault) := by
  unfold compilePage buildPage
  rw [h]
  rfl

/-- There is always a term to order pages by. -/
theorem pageOrder_ne_nil (key : String) (sort : List SortTerm) : pageOrder key sort ≠ [] := by
  unfold pageOrder
  split
  next h =>
    rintro rfl
    simp at h
  next => simp

theorem fetchOrder_ne_nil {order : List SortTerm} (h : order ≠ []) (anchor : Anchor) :
    fetchOrder anchor order ≠ [] := by
  cases anchor with
  | front => exact h
  | back => simpa [fetchOrder] using h

/-- Every window in range has a statement, whose text asks for the rows of the window in the given
order. -/
def PagesBy (q : Query) (order : List SortTerm) : Prop :=
  ∀ w : Window, w.check = .ok () → ∃ statement, q.compilePage w = .ok statement ∧
    statement.pageClause? = some
      ⟨(fetchOrder w.anchor order).map SortTerm.shown, (fetchLimit w).1, (fetchLimit w).2⟩

/-- **One window stands for all.** If the statement of some window can be compiled then all of them
can, and they ask for their windows of the rows in the order of pages. -/
theorem pagesBy_of_compilePage {q : Query} {w : Window} {statement : Statement}
    (h : q.compilePage w = .ok statement) :
    ∃ table, q.schema.requireTable q.table = .ok table ∧
      q.PagesBy (pageOrder table.primaryKey q.sort) := by
  obtain ⟨s, hs, -⟩ := map_eq_ok_iff.1 h
  rw [buildPage_eq q (check_of_buildPage hs)] at hs
  obtain ⟨basis, hbasis, -⟩ := map_eq_ok_iff.1 hs
  obtain ⟨table, htable, hbuild⟩ := bind_eq_ok_iff.1 hbasis
  refine ⟨table, htable, fun v hv => ⟨(forWindow v basis).render, ?_, ?_⟩⟩
  · -- there is a statement
    rw [compilePage, buildPage_eq q hv, hbasis]
    rfl
  · -- it asks for the rows of the window
    obtain ⟨selection, filter, r, -, -, -, hs⟩ := exists_of_build hbuild
    obtain ⟨_, -, -, horder, -⟩ := SelectStatement.exists_of_build hs
    have hv : q.build (fetchOrder v.anchor basis.order) (some (fetchLimit v)) =
        .ok (forWindow v basis) := by
      rw [horder, build_fetchOrder, hbuild]
      rfl
    have hne : fetchOrder v.anchor basis.order ≠ [] :=
      fetchOrder_ne_nil (horder ▸ pageOrder_ne_nil _ _) v.anchor
    rw [← horder]
    exact SelectStatement.pageClause?_render (tokens?_of_build hv) hne rfl

/-! ### What becomes of an answer -/

section Answered

variable {σ : Type} {transport : Transport (StateM σ)} {s s' : σ} {q : Query} {w : Window}
  {statement : Statement}

/-- The rows of an answer become the page of the window. -/
theorem fetch_run_of_answer {rows : List Row} (hcompile : q.compilePage w = .ok statement)
    (hanswer : (transport statement).run s = (.ok rows, s')) :
    (q.fetch transport w).run s = (.ok (q.page w rows), s') := by
  rw [fetch, hcompile]
  dsimp only
  rw [StateT.run_bind, hanswer]
  rfl

/-- A failure of the database becomes the failure of the fetch. -/
theorem fetch_run_of_no_answer {e : TransportError} (hcompile : q.compilePage w = .ok statement)
    (hanswer : (transport statement).run s = (.error e, s')) :
    (q.fetch transport w).run s = (.error (.transport e), s') := by
  rw [fetch, hcompile]
  dsimp only
  rw [StateT.run_bind, hanswer]
  rfl

end Answered

end Query

end LinkQuery
