import LinkQuery.Proofs.Linked.OutputNames
import LinkQuery.Proofs.Page.TotalOrder

/-!
# All columns of an open table

The columns of an open table are not known, so where all of them are selected the database is asked
for a star. The primary key is one of them, and is not put in front as it is elsewhere.

It comes in by another door. A statement that is wrapped in tests delivers the columns that it is
ordered by, and these are written beside the star although the star delivers them already. The
statement of a page is ordered by the key in any case, so if anything is demanded behind a link,
then the key of an open table is there twice.

* `Outline.column_mem_ownColumns_iff` tells which columns stand beside a star.
* `Sql.Select.FetchesStars` says what the levels of a select fetch of open tables.
* `Query.fetchesStars_of_resolves` is about every statement of a query, and about those of its
  pages.
-/

namespace LinkQuery

open Sql

/-! ### Columns beside a star -/

/-- An open table has no column that could be marked as its key. -/
theorem Table.primaryKey_of_isOpen {table : Table} (hopen : table.isOpen) :
    table.primaryKey = defaultPrimaryKey := by
  rw [primaryKey, List.isEmpty_iff.1 hopen]
  rfl

namespace Outline

variable {table : Table} {columns extra links : List String}

/-- Where all columns of an open table are asked for, nothing is put in front of what is asked for.
-/
theorem ownColumns_of_isOpen (hopen : table.isOpen) (hstar : "*" ∈ columns) :
    ownColumns table columns extra links =
      ((columns ++ extra).flatMap (requestedColumns table links)).eraseDups := by
  rw [ownColumns, hopen, List.contains_iff_mem.2 hstar, Bool.true_and, if_pos rfl, List.nil_append]

theorem requestedColumns_star (hopen : table.isOpen) :
    requestedColumns table links "*" = [.star] := by
  rw [requestedColumns, if_pos rfl, if_pos hopen]

theorem requestedColumns_name {name : String} (hname : name ≠ "*") :
    requestedColumns table links name = if name ∈ links then [] else [.column name] := by
  rw [requestedColumns, if_neg hname]
  exact if_congr List.contains_iff_mem rfl rfl

theorem star_mem_ownColumns (hopen : table.isOpen) (hstar : "*" ∈ columns) :
    .star ∈ ownColumns table columns extra links := by
  rw [ownColumns_of_isOpen hopen hstar, List.mem_eraseDups, List.mem_flatMap]
  refine ⟨"*", List.mem_append_left _ hstar, ?_⟩
  rw [requestedColumns_star hopen]
  exact List.mem_singleton.2 rfl

/-- **Beside a star** stand the columns that are asked for by name. -/
theorem column_mem_ownColumns_iff (hopen : table.isOpen) (hstar : "*" ∈ columns) {name : String} :
    .column name ∈ ownColumns table columns extra links ↔
      name ∈ columns ++ extra ∧ name ≠ "*" ∧ name ∉ links := by
  rw [ownColumns_of_isOpen hopen hstar, List.mem_eraseDups, List.mem_flatMap]
  constructor
  · rintro ⟨requested, hrequested, hmem⟩
    by_cases hall : requested = "*"
    · rw [hall, requestedColumns_star hopen] at hmem
      simp at hmem
    · rw [requestedColumns_name hall] at hmem
      split at hmem
      next => cases hmem
      next hlink =>
        obtain rfl := OutputColumn.column.inj (List.mem_singleton.1 hmem)
        exact ⟨hrequested, hall, hlink⟩
  · rintro ⟨hrequested, hall, hlink⟩
    refine ⟨name, hrequested, ?_⟩
    rw [requestedColumns_name hall, if_neg hlink]
    exact List.mem_singleton.2 rfl

end Outline

/-! ### Statements -/

/-- What a select fetches of open tables of which all columns are selected, and the key not by its
name. At each such level it fetches a star. Beside the star stands the key just if the level is the
top and the key is needed for the order. -/
def Sql.Select.FetchesStars (schema : Schema) (table : Table) (selection : Selection)
    (needsKey : Prop) (s : Select) : Prop :=
  ∀ names sub, s.Nests names sub → ∃ target selected,
    schema.tableAlong? names table = some target ∧ selection.HasPart names selected ∧
    (target.isOpen → "*" ∈ selected.columns → target.primaryKey ∉ selected.columns →
      .star ∈ sub.columns ∧ (.column target.primaryKey ∈ sub.columns ↔ names = [] ∧ needsKey))

theorem Sql.Select.FetchesStars.congr {schema : Schema} {table : Table} {selection : Selection}
    {P Q : Prop} {s : Select} (h : s.FetchesStars schema table selection P) (hiff : P ↔ Q) :
    s.FetchesStars schema table selection Q :=
  propext hiff ▸ h

namespace Sql.SelectStatement

variable {schema : Schema} {tableName : String} {selection : Selection} {r : Restriction}
  {order : List SortTerm} {limit : Option (Nat × Nat)} {s : SelectStatement}

/-- The order of a wrapped statement puts the key beside the star, and nothing else does. -/
theorem fetchesStars_of_build (hs : build schema tableName selection r order limit = .ok s)
    {table : Table} (htable : schema.table? tableName = some table) :
    s.select.FetchesStars schema table selection (r.effectiveLinks ≠ [] ∧
      ∃ term ∈ order, term.column = table.primaryKey ∧ ¬ term.isRandom) := by
  intro names sub hsub
  obtain ⟨found, hfound, hselect, horder, -⟩ := exists_of_build hs
  obtain rfl := Schema.eq_of_requireTable hfound htable
  have htested : s.select.tested ≠ [] ↔ r.effectiveLinks ≠ [] := by
    rw [Outline.tested_select hselect, Outline.demanded_overlay, ne_eq, List.map_eq_nil_iff]
  obtain ⟨target, part, selected, correlation, asName, htarget, -, hselected, hcolumns, hlevel⟩ :=
    exists_level_of_nests hs htable hsub
  refine ⟨target, selected, htarget, hselected, fun hopen hstar hkey => ?_⟩
  rw [Outline.columns_select hlevel, hcolumns, Outline.column_mem_ownColumns_iff hopen hstar]
  refine ⟨Outline.star_mem_ownColumns hopen hstar, ?_⟩
  have hname : target.primaryKey ≠ "*" := by
    rw [Table.primaryKey_of_isOpen hopen]
    decide
  constructor
  · rintro ⟨hmem, -, -⟩
    -- the key is not selected by name, so the order asks for it
    have hsorted := (List.mem_append.1 hmem).resolve_left hkey
    split at hsorted
    next hwrapped =>
      obtain ⟨rfl, hwrapped⟩ := hwrapped
      obtain rfl := Option.some.inj htarget
      rw [mem_sortColumns_iff, horder] at hsorted
      exact ⟨rfl, htested.1 hwrapped, hsorted⟩
    next => cases hsorted
  · rintro ⟨rfl, hwrapped, term, hterm, hcolumn, hordered⟩
    obtain rfl := Option.some.inj htarget
    obtain rfl : s.select = sub := hsub
    refine ⟨List.mem_append_right _ ?_, hname, ?_⟩
    · rw [if_pos ⟨rfl, htested.2 hwrapped⟩, mem_sortColumns_iff, horder]
      exact ⟨term, hterm, hcolumn, hordered⟩
    · exact hcolumn ▸ not_mem_subqueries_of_order hs hterm hordered

end Sql.SelectStatement

namespace Query

variable {q : Query} {table : Table} {selection : Selection} {r : Restriction}

/-- A window at the end turns the terms round, but neither their columns nor whether they are
random. -/
theorem key_mem_fetchOrder_iff (anchor : Anchor) {key : String} {order : List SortTerm} :
    (∃ term ∈ fetchOrder anchor order, term.column = key ∧ ¬ term.isRandom) ↔
      ∃ term ∈ order, term.column = key ∧ ¬ term.isRandom := by
  cases anchor with
  | front => exact Iff.rfl
  | back => simp [fetchOrder]

theorem Resolves.fetchesStars_of_build (h : q.Resolves table selection r) {order : List SortTerm}
    {limit : Option (Nat × Nat)} {s : SelectStatement} (hs : q.build order limit = .ok s) :
    s.select.FetchesStars q.schema table selection (r.effectiveLinks ≠ [] ∧
      ∃ term ∈ order, term.column = table.primaryKey ∧ ¬ term.isRandom) := by
  obtain ⟨selection', filter, r', hselection, hfilter, hr, hstatement⟩ := exists_of_build hs
  obtain ⟨-, rfl, rfl⟩ := h.unique ⟨h.1, hselection, filter, hfilter, hr⟩
  exact SelectStatement.fetchesStars_of_build hstatement h.1

/-- **What is fetched of open tables.** Let a query be resolved. Where all columns of an open table
are selected, every statement of the query fetches a star. If the key is not selected by name, it
stands beside the star

* in the statement for an order just at the top, if something is demanded behind a link and the
  order has a term on the key that is not random;
* in the statement for a window just at the top, if something is demanded behind a link, unless all
  terms that the query has on the key are random and it has one. -/
theorem fetchesStars_of_resolves (h : q.Resolves table selection r) :
    (∀ order limit s, q.build order limit = .ok s →
      s.select.FetchesStars q.schema table selection (r.effectiveLinks ≠ [] ∧
        ∃ term ∈ order, term.column = table.primaryKey ∧ ¬ term.isRandom)) ∧
    ∀ w s, q.buildPage w = .ok s →
      s.select.FetchesStars q.schema table selection (r.effectiveLinks ≠ [] ∧
        ((∃ term ∈ q.sort, term.column = table.primaryKey) →
          ∃ term ∈ q.sort, term.column = table.primaryKey ∧ ¬ term.isRandom)) := by
  refine ⟨fun order limit s hs => h.fetchesStars_of_build hs, fun w s hs => ?_⟩
  obtain ⟨-, -, hs⟩ := bind_eq_ok_iff.1 hs
  obtain ⟨found, hfound, hs⟩ := bind_eq_ok_iff.1 hs
  obtain rfl := Schema.eq_of_requireTable hfound h.1
  exact (h.fetchesStars_of_build hs).congr
    (and_congr_right' ((key_mem_fetchOrder_iff w.anchor).trans key_mem_pageOrder_iff))

/-- Logs, of which nothing is known but that users own them. -/
def ownedLogs : Schema :=
  ⟨[(Table.named "logs").addForeignKey ⟨"logs_owner_fkey", ["owner"], "users", ["xata_id"],
    .setNull⟩,
    (Table.named "users").addPrimaryKey "xata_id" "text" |>.addColumn "full_name" "text"]⟩

/-- **The key beside the star.** Logs are filtered by the name of their owner. The first page of
them asks for all columns and for the key, so that any database whose logs have the key delivers it
twice, and the page is ordered by it. -/
theorem key_beside_star :
    let q := (Query.new ownedLogs "logs").addFilter (.object [("owner.full_name", .text "Ada")])
    ownedLogs.tables[0].isOpen ∧
      Selection.ofColumns ownedLogs "logs" (q.columns.getD []) = .ok .everything ∧
      q.compilePage (.front 0 20) =
        .ok ⟨"select * from (select *, \"xata_id\", (select to_json(obj) from " ++
          "(select \"xata_id\" from \"users\" where \"xata_id\" = \"logs\".\"owner\" and " ++
          "\"full_name\" = $1) as obj where obj is not null) as \"owner\" from \"logs\") " ++
          "as \"tmp\" where \"tmp\".\"owner\" is not null " ++
          "order by \"xata_id\" asc limit $2", [.text "Ada", .int 21]⟩ ∧
      ∃ s, q.buildPage (.front 0 20) = .ok s ∧ s.select.columns = [.star, .column "xata_id"] ∧
        ∀ db, "xata_id" ∈ db.columns "logs" → 2 ≤ (s.select.outputs db).count "xata_id" := by
  intro q
  obtain ⟨s, hs⟩ : ∃ s, q.buildPage (.front 0 20) = .ok s :=
    fault?_eq_none_iff.1 (by decide +kernel)
  have hcolumns : s.select.columns = [.star, .column "xata_id"] :=
    eq_of_map_toOption (f := (·.select.columns)) hs (by decide +kernel)
  have hlogs : s.select.tableName = "logs" :=
    eq_of_map_toOption (f := (·.select.tableName)) hs (by decide +kernel)
  refine ⟨rfl, rfl, by decide +kernel, s, hs, hcolumns, fun db hkey => ?_⟩
  -- once among all columns, and once beside them
  have houtputs : s.select.outputs db = db.columns "logs" ++
      ("xata_id" :: s.select.subqueries.map (·.1)) := by
    rw [Select.outputs_eq, hcolumns, hlogs]
    simp [OutputColumn.names]
  rw [houtputs, List.count_append, List.count_cons_self]
  have hall := List.count_pos_iff.2 hkey
  omega

/-- A page of all logs, each with its owner, asks for all columns and for nothing beside them. -/
theorem fetchesStars_of_resolves_logs :
    let q := (Query.new ownedLogs "logs").select ["*", "owner.full_name"]
    ∃ selection r s, q.Resolves ownedLogs.tables[0] selection r ∧
      q.buildPage (.front 0 20) = .ok s ∧
      .star ∈ s.select.columns ∧ .column "xata_id" ∉ s.select.columns := by
  intro q
  obtain ⟨s, hs⟩ : ∃ s, q.buildPage (.front 0 20) = .ok s :=
    fault?_eq_none_iff.1 (by decide +kernel)
  obtain ⟨selection, hselection⟩ :
      ∃ selection, Selection.ofColumns ownedLogs "logs" ["*", "owner.full_name"] = .ok selection :=
    fault?_eq_none_iff.1 (by decide +kernel)
  have hcolumns : selection.columns = ["*"] :=
    eq_of_map_toOption (f := (·.columns)) hselection (by decide +kernel)
  obtain ⟨r, hr⟩ : ∃ r, Restriction.ofFilter ownedLogs "logs" (.group .all []) = .ok r :=
    fault?_eq_none_iff.1 (by decide +kernel)
  have heffective : r.effectiveLinks.map (·.1) = [] :=
    eq_of_map_toOption (f := fun r => r.effectiveLinks.map (·.1)) hr (by decide +kernel)
  have hresolves : q.Resolves ownedLogs.tables[0] selection r :=
    ⟨rfl, hselection, .group .all [], rfl, hr⟩
  obtain ⟨target, selected, htarget, hselected, hstars⟩ :=
    (fetchesStars_of_resolves hresolves).2 _ s hs [] s.select rfl
  obtain rfl := Option.some.inj htarget
  obtain rfl : selection = selected := hselected
  obtain ⟨hstar, hkey⟩ := hstars rfl (by simp [hcolumns]) (by rw [hcolumns]; decide)
  -- nothing is demanded
  refine ⟨selection, r, s, hresolves, hs, hstar, fun hmem => ?_⟩
  exact (hkey.1 hmem).2.1 (List.map_eq_nil_iff.1 heffective)

end Query

end LinkQuery
