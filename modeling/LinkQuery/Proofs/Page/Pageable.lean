import LinkQuery.Proofs.Linked.Order
import LinkQuery.Proofs.Page.Statement

/-!
# Which queries have pages

The statement of a window is that of the query, put into the order of pages: the primary key is
added to the order, unless the query orders by it already. The added term is checked like any other.
The primary key is always a column of its table, but it may be a link as well, and then it is not
delivered as it is where that link is included.

* `Query.Resolves` are the selection and the restriction that a query is resolved to.
* `Query.exists_build_iff` tells when a query has a statement in a given order, and
  `Query.forall_mem_pageOrder_iff` what the order of pages adds to the order of a query.
* `Query.exists_compilePage_iff` tells which windows of a query have a statement.
-/

namespace LinkQuery

open Sql

namespace Query

variable {q : Query} {table : Table}

/-! ### Statements in a given order -/

/-- The table of the query, and the selection and the restriction that its paths and its filter
resolve to. -/
def Resolves (q : Query) (table : Table) (selection : Selection) (r : Restriction) : Prop :=
  q.schema.table? q.table = some table ∧
    Selection.ofColumns q.schema q.table (q.columns.getD []) = .ok selection ∧
    ∃ filter, Filter.ofJson q.filterValue = .ok filter ∧
      Restriction.ofFilter q.schema q.table filter = .ok r

theorem Resolves.unique {table' : Table} {selection selection' : Selection} {r r' : Restriction}
    (h : q.Resolves table selection r) (h' : q.Resolves table' selection' r') :
    table = table' ∧ selection = selection' ∧ r = r' := by
  obtain ⟨htable, hselection, filter, hfilter, hr⟩ := h
  obtain ⟨htable', hselection', filter', hfilter', hr'⟩ := h'
  obtain rfl := Except.ok.inj (hfilter.symm.trans hfilter')
  exact ⟨Option.some.inj (htable.symm.trans htable'),
    Except.ok.inj (hselection.symm.trans hselection'), Except.ok.inj (hr.symm.trans hr')⟩

/-- A query has a statement in an order if it resolves, if what it resolves to can be written, and
if rows can be ordered by each term. -/
theorem exists_build_iff {order : List SortTerm} {limit : Option (Nat × Nat)} :
    (∃ s, q.build order limit = .ok s) ↔
      ∃ table selection r, q.Resolves table selection r ∧
        (∀ term ∈ order, SelectStatement.Orders table selection r term) ∧
        ∃ s, SelectStatement.build q.schema q.table selection r [] none = .ok s := by
  constructor
  · rintro ⟨s, hs⟩
    obtain ⟨selection, filter, r, hselection, hfilter, hr, hs⟩ := exists_of_build hs
    obtain ⟨table, htable, -⟩ := SelectStatement.exists_of_build hs
    have hfound := Schema.requireTable_eq_ok_iff.1 htable
    exact ⟨table, selection, r, ⟨hfound, hselection, filter, hfilter, hr⟩,
      (SelectStatement.exists_build_iff hfound none).1 ⟨s, hs⟩⟩
  · rintro ⟨table, selection, r, ⟨hfound, hselection, filter, hfilter, hr⟩, hwritten⟩
    obtain ⟨s, hs⟩ := (SelectStatement.exists_build_iff hfound none).2 hwritten
    exact ⟨s, bind_eq_ok_iff.2 ⟨selection, hselection, bind_eq_ok_iff.2 ⟨filter, hfilter,
      bind_eq_ok_iff.2 ⟨r, hr, hs⟩⟩⟩⟩

/-! ### The order of pages -/

/-- What holds of the terms of the order of pages holds of those of the query and of the primary
key, if that is added. -/
theorem forall_mem_pageOrder_iff {key : String} {sort : List SortTerm} {P : SortTerm → Prop} :
    (∀ term ∈ pageOrder key sort, P term) ↔
      (∀ term ∈ sort, P term) ∧ ((∃ term ∈ sort, term.column = key) ∨ P (.asc key)) := by
  unfold pageOrder
  split
  next h =>
    -- the query orders by the key
    have hkey : ∃ term ∈ sort, term.column = key := by simpa using h
    exact ⟨fun hsort => ⟨hsort, .inl hkey⟩, fun hsort => hsort.1⟩
  next h =>
    have hkey : ¬ ∃ term ∈ sort, term.column = key := by simpa using h
    rw [List.forall_mem_append, List.forall_mem_singleton, or_iff_right hkey]

/-- Rows can be ordered by the primary key unless it is a link that is included. -/
theorem orders_primaryKey_iff {selection : Selection} {r : Restriction} :
    SelectStatement.Orders table selection r (.asc table.primaryKey) ↔
      selection.link? table.primaryKey = none ∧
        ∀ sub, (table.primaryKey, sub) ∈ r.links → sub.isTrivial := by
  have hordered : ¬ (SortTerm.asc table.primaryKey).isRandom := Bool.false_ne_true
  have heffective : table.primaryKey ∉ r.effectiveLinks.map (·.1) ↔
      ∀ sub, (table.primaryKey, sub) ∈ r.links → sub.isTrivial := by
    simp [Restriction.effectiveLinks]
  rw [SelectStatement.Orders, or_iff_right hordered, ← heffective]
  exact (and_iff_right table.acceptsColumn_primaryKey).trans
    (and_congr_left' Option.isNone_iff_eq_none)

/-! ### Windows -/

theorem exists_compilePage_iff_buildOrdered {w : Window} :
    (∃ page, q.compilePage w = .ok page) ↔ w.check = .ok () ∧ ∃ s, q.buildOrdered = .ok s := by
  constructor
  · rintro ⟨page, hpage⟩
    obtain ⟨s, hs, -⟩ := map_eq_ok_iff.1 hpage
    have hcheck := check_of_buildPage hs
    rw [buildPage_eq q hcheck] at hs
    obtain ⟨basis, hbasis, -⟩ := map_eq_ok_iff.1 hs
    exact ⟨hcheck, basis, hbasis⟩
  · rintro ⟨hcheck, basis, hbasis⟩
    exact ⟨_, map_eq_ok_iff.2 ⟨_, by rw [buildPage_eq q hcheck, hbasis]; rfl, rfl⟩⟩

/-- **A window of a query has a statement** if it is in range, the query has a statement, and the
primary key can be added to the order: the query orders by it already, or it is no link that is
selected or behind which something is demanded. -/
theorem exists_compilePage_iff (q : Query) (w : Window) :
    (∃ page, q.compilePage w = .ok page) ↔
      ((1 ≤ w.size ∧ w.size ≤ maxPageSize) ∧ w.offset ≤ maxWindowOffset) ∧
      (∃ statement, q.compile = .ok statement) ∧
      ∀ table selection r, q.Resolves table selection r →
        (∃ term ∈ q.sort, term.column = table.primaryKey) ∨
          selection.link? table.primaryKey = none ∧
            ∀ sub, (table.primaryKey, sub) ∈ r.links → sub.isTrivial := by
  have hcompile : (∃ statement, q.compile = .ok statement) ↔ ∃ s, q.build q.sort none = .ok s := by
    simp [compile, map_eq_ok_iff]
  have hordered : (∃ s, q.buildOrdered = .ok s) ↔ ∃ table, q.schema.table? q.table = some table ∧
      ∃ s, q.build (pageOrder table.primaryKey q.sort) none = .ok s := by
    simp only [buildOrdered, bind_eq_ok_iff, Schema.requireTable_eq_ok_iff]
    exact ⟨fun ⟨s, table, htable, hs⟩ => ⟨table, htable, s, hs⟩,
      fun ⟨table, htable, s, hs⟩ => ⟨s, table, htable, hs⟩⟩
  rw [exists_compilePage_iff_buildOrdered, Window.check_eq_ok_iff, hcompile, hordered]
  refine and_congr_right fun _ => ⟨?_, ?_⟩
  · -- the terms of the query are among those of its pages
    rintro ⟨table, htable, hs⟩
    obtain ⟨found, selection, r, hresolves, hterms, hwritten⟩ := exists_build_iff.1 hs
    obtain rfl := Option.some.inj (hresolves.1.symm.trans htable)
    obtain ⟨hsort, hkey⟩ := forall_mem_pageOrder_iff.1 hterms
    refine ⟨exists_build_iff.2 ⟨found, selection, r, hresolves, hsort, hwritten⟩, ?_⟩
    intro table' selection' r' hresolves'
    obtain ⟨rfl, rfl, rfl⟩ := hresolves.unique hresolves'
    exact hkey.imp id orders_primaryKey_iff.1
  · -- the pages have one term more, and resolve to the same
    rintro ⟨hs, hkey⟩
    obtain ⟨table, selection, r, hresolves, hsort, hwritten⟩ := exists_build_iff.1 hs
    refine ⟨table, hresolves.1, exists_build_iff.2 ⟨table, selection, r, hresolves, ?_, hwritten⟩⟩
    exact forall_mem_pageOrder_iff.2
      ⟨hsort, (hkey table selection r hresolves).imp id orders_primaryKey_iff.2⟩

/-- Users with a profile each, whose primary key refers to the user. -/
def profilesOfUsers : Schema :=
  ⟨[(Table.named "profiles").addPrimaryKey "xata_id" "text"
      |>.addForeignKey ⟨"profiles_user_fkey", ["xata_id"], "users", ["xata_id"], .cascade⟩,
    (Table.named "users").addPrimaryKey "xata_id" "text" |>.addColumn "full_name" "text"]⟩

/-- **A query without pages.** The users behind the profiles are selected, and the query has a
statement. No window of it has one, as the primary key that is added to the order is that link. -/
theorem link_at_primaryKey_not_paged :
    let q := (Query.new profilesOfUsers "profiles").select ["xata_id.full_name"]
    (∃ statement, q.compile = .ok statement) ∧
      q.compilePage (.front 0 20) = .error (.unresolved "profiles" "xata_id" .sortedLink) ∧
      ∀ w, ¬ ∃ page, q.compilePage w = .ok page := by
  intro q
  have hrefused : q.compilePage (.front 0 20) =
      .error (.unresolved "profiles" "xata_id" .sortedLink) := by
    decide +kernel
  refine ⟨fault?_eq_none_iff.1 (by decide +kernel), hrefused, ?_⟩
  -- a page of any window would give one of this window
  rintro w ⟨page, hpage⟩
  obtain ⟨table, -, hpages⟩ := pagesBy_of_compilePage hpage
  obtain ⟨first, hfirst, -⟩ := hpages (.front 0 20) rfl
  rw [hrefused] at hfirst
  exact absurd hfirst nofun

end Query

end LinkQuery
