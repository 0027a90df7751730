import LinkQuery.Proofs.Linked.Clear

/-!
# Which orders a statement may have

The terms of an order are checked before a statement is written, each one alone: its column has to
be one of the table, and delivered as it is. Beyond that nothing depends on the order. So a
statement that can be written without an order can be written in any order all of whose terms pass.

* `Outline.mem_linkNames_overlay_iff`: the links that are not delivered as they are.
* `Sql.SelectStatement.Orders` holds of a term by which rows can be ordered.
* `Sql.SelectStatement.exists_build_iff` tells the orders in which a statement can be written.
-/

namespace LinkQuery

open Sql

/-! ### Links that are included -/

/-- A link is selected if there is a selection behind it. -/
theorem Selection.isSome_link?_iff {selection : Selection} {name : String} :
    (selection.link? name).isSome ↔ name ∈ selection.links.map (·.1) := by
  obtain ⟨columns, links⟩ := selection
  rw [link?]
  induction links with
  | nil => simp
  | cons link rest ih =>
    obtain ⟨n, sub⟩ := link
    rw [List.map_cons, List.mem_cons, ← ih, List.lookup_cons]
    -- a look-up stops at the first entry of the name
    by_cases hname : name = n <;> simp [hname, beq_eq_false_iff_ne.2]

/-- **The links included** are those selected and those behind which something is demanded. -/
theorem Outline.mem_linkNames_overlay_iff {selection : Selection} {r : Restriction}
    {name : String} :
    name ∈ (overlay selection r).linkNames ↔
      (selection.link? name).isSome ∨ name ∈ r.effectiveLinks.map (·.1) := by
  rw [linkNames_overlay, List.mem_append, List.mem_filter, Selection.isSome_link?_iff]
  by_cases hname : name ∈ selection.links.map (·.1) <;> simp [hname]

/-! ### Checking the terms -/

theorem Table.checkColumn_eq_ok_iff {table : Table} {column : String} :
    table.checkColumn column = .ok () ↔ table.acceptsColumn column := by
  unfold checkColumn
  split <;> simp_all

/-- The primary key may stand for a column of its table, declared or not. -/
theorem Table.acceptsColumn_primaryKey (table : Table) : table.acceptsColumn table.primaryKey := by
  simp [acceptsColumn]

namespace Sql.SelectStatement

variable {schema : Schema} {tableName : String} {table : Table} {selection : Selection}
  {r : Restriction}

theorem checkTerm_eq_ok_iff {links : List String} {term : SortTerm} :
    checkTerm table tableName links term = .ok () ↔
      term.isRandom ∨ table.acceptsColumn term.column ∧ term.column ∉ links := by
  unfold checkTerm
  split
  next hrandom => simp [hrandom]
  next hordered =>
    rw [bind_eq_ok_iff, Table.requireColumn, ← Table.checkColumn_eq_ok_iff]
    simp only [mapError_eq_ok_iff]
    -- a term that is ordered needs its column, and under no name of a link
    by_cases hlink : term.column ∈ links <;> simp [hlink, hordered, Unique.exists_iff]

/-- Rows of `table` can be ordered by a term, as its column is one of the table and neither selected
nor restricted as a link. -/
def Orders (table : Table) (selection : Selection) (r : Restriction) (term : SortTerm) : Prop :=
  term.isRandom ∨ table.acceptsColumn term.column ∧ (selection.link? term.column).isNone ∧
    term.column ∉ r.effectiveLinks.map (·.1)

theorem checkTerm_overlay_iff {term : SortTerm} :
    checkTerm table tableName (Outline.overlay selection r).linkNames term = .ok () ↔
      Orders table selection r term := by
  rw [checkTerm_eq_ok_iff, Outline.mem_linkNames_overlay_iff, not_or, Bool.not_eq_true,
    Option.isSome_eq_false_iff, Orders]

/-- Rows cannot be ordered by a term that is not random, and whose column is refused or is a link
that is included. -/
theorem not_orders_iff {term : SortTerm} :
    ¬ Orders table selection r term ↔ ¬ term.isRandom ∧
      ((∃ fault, table.checkColumn term.column = .error fault) ∨
        (selection.link? term.column).isSome ∨
          ∃ sub, (term.column, sub) ∈ r.links ∧ sub.isTrivial = false) := by
  -- only the links that restrict anything are emitted
  have heffective : term.column ∈ r.effectiveLinks.map (·.1) ↔
      ∃ sub, (term.column, sub) ∈ r.links ∧ sub.isTrivial = false := by
    simp [Restriction.effectiveLinks]
  have hrefused : (∃ fault, table.checkColumn term.column = .error fault) ↔
      ¬ table.acceptsColumn term.column := by
    rw [exists_error_iff, ← Table.checkColumn_eq_ok_iff, Unique.exists_iff]
  have hselected :
      ¬ (selection.link? term.column).isNone ↔ (selection.link? term.column).isSome := by
    cases selection.link? term.column <;> simp
  rw [Orders, heffective, hrefused, not_or, not_and_or, not_and_or, not_not, hselected]

/-- A statement can be written in an order if rows can be ordered by each term, and there are
selects of the links. -/
theorem exists_build_iff_selectLinks (htable : schema.table? tableName = some table)
    {order : List SortTerm} {limit : Option (Nat × Nat)} :
    (∃ s, build schema tableName selection r order limit = .ok s) ↔
      (∀ term ∈ order, Orders table selection r term) ∧
        ∃ inner, Outline.selectLinks schema table table.name (Outline.overlay selection r).links =
          .ok inner := by
  -- the columns that the order needs are among what is selected, and selecting them does not fail
  have hselect : ∀ extra,
      (∃ s, (Outline.overlay selection r).select schema table none none extra = .ok s) ↔
        ∃ inner, Outline.selectLinks schema table table.name (Outline.overlay selection r).links =
          .ok inner :=
    fun extra => Outline.exists_select_iff
  have hterms : order.forM (checkTerm table tableName (Outline.overlay selection r).linkNames) =
      .ok () ↔ ∀ term ∈ order, Orders table selection r term :=
    forM_eq_ok_iff.trans (forall₂_congr fun _ _ => checkTerm_overlay_iff)
  rw [← hterms]
  constructor
  · rintro ⟨s, hs⟩
    obtain ⟨found, hfound, hs⟩ := bind_eq_ok_iff.1 hs
    obtain rfl := Schema.eq_of_requireTable hfound htable
    obtain ⟨⟨⟩, horder, hs⟩ := bind_eq_ok_iff.1 hs
    obtain ⟨select, hs, -⟩ := bind_eq_ok_iff.1 hs
    exact ⟨horder, (hselect _).1 ⟨select, hs⟩⟩
  · rintro ⟨horder, hinner⟩
    obtain ⟨select, hs⟩ := (hselect _).2 hinner
    exact ⟨_, bind_eq_ok_iff.2 ⟨table, Schema.requireTable_eq_ok_iff.2 htable,
      bind_eq_ok_iff.2 ⟨(), horder, bind_eq_ok_iff.2 ⟨select, hs, rfl⟩⟩⟩⟩

/-- **A statement can be written in an order** if it can be written without one, and rows can be
ordered by each term. -/
theorem exists_build_iff (htable : schema.table? tableName = some table) {order : List SortTerm}
    {limit : Option (Nat × Nat)} (limit' : Option (Nat × Nat)) :
    (∃ s, build schema tableName selection r order limit = .ok s) ↔
      (∀ term ∈ order, Orders table selection r term) ∧
        ∃ s, build schema tableName selection r [] limit' = .ok s := by
  rw [exists_build_iff_selectLinks htable, exists_build_iff_selectLinks htable]
  simp

/-- Where a statement can be written without an order, just the terms of an order can be wrong. -/
theorem exists_build_error_iff (htable : schema.table? tableName = some table)
    {limit' : Option (Nat × Nat)}
    (hwritten : ∃ s, build schema tableName selection r [] limit' = .ok s) {order : List SortTerm}
    {limit : Option (Nat × Nat)} :
    (∃ e, build schema tableName selection r order limit = .error e) ↔
      ∃ term ∈ order, ¬ Orders table selection r term := by
  rw [exists_error_iff, exists_build_iff htable limit', and_iff_left hwritten]
  push Not
  rfl

end Sql.SelectStatement

end LinkQuery
