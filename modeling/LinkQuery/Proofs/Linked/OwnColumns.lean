import LinkQuery.Proofs.Linked.Columns
import LinkQuery.Proofs.Linked.Result

/-!
# What is asked of a level

A level delivers columns of its own table and linked rows. Its own columns are what it is asked for:
the primary key, the columns that the selection names there, and at the top, if the statement is
wrapped in tests of links, the columns that it is ordered by, as the order sees nothing but what is
delivered under the tests. Each is delivered once, at the place where it is first asked for, and a
column with the name of a link of the level is left to the link, unless it is the primary key.

* `IsFirstOccurrences` is a list without repetition in the order of first occurrence.
* `Sql.Select.columns` and `Sql.Select.tested` are read off a select: its own columns, and the links
  that it is tested for. `Sql.SelectStatement.sortColumns` are read off a statement.
* `Table.asked` is what a level of a declared table is asked for.
* `Outline.isFirstOccurrences_ownColumns` is about one level, and
  `Sql.SelectStatement.own_columns_of_build` about all levels of a statement.
-/

namespace LinkQuery

open Sql

/-! ### First occurrences -/

section

variable {α β : Type} [BEq α]

/-- A list has what another one has, in the order in which it first stands there. As no two places
of the other list are the same, it has nothing twice. -/
structure IsFirstOccurrences (xs asked : List α) : Prop where
  mem_iff : ∀ x, x ∈ xs ↔ x ∈ asked
  ordered : xs.Pairwise fun x y => asked.idxOf x < asked.idxOf y

theorem IsFirstOccurrences.nodup {xs asked : List α} (h : IsFirstOccurrences xs asked) : xs.Nodup :=
  h.ordered.imp fun {x y} hless (heq : x = y) => absurd hless (heq ▸ Nat.lt_irrefl _)

variable [LawfulBEq α] [BEq β] [LawfulBEq β]

theorem isFirstOccurrences_eraseDups (asked : List α) :
    IsFirstOccurrences asked.eraseDups asked := by
  refine ⟨fun x => List.mem_eraseDups, ?_⟩
  induction asked using List.reverseRecOn with
  | nil => exact .nil
  | append_singleton before a ih =>
    -- what stands before keeps its place
    have hbefore : before.eraseDups.Pairwise fun x y =>
        (before ++ [a]).idxOf x < (before ++ [a]).idxOf y := by
      refine ih.imp_of_mem fun hx hy hless => ?_
      rwa [List.idxOf_append_of_mem (List.mem_eraseDups.1 hx),
        List.idxOf_append_of_mem (List.mem_eraseDups.1 hy)]
    rw [eraseDups_concat]
    split
    next => exact hbefore
    next hnew =>
      -- what is new stands behind all of it
      have hfresh : a ∉ before := by simpa using hnew
      refine List.pairwise_append.2 ⟨hbefore, List.pairwise_singleton _ a, fun x hx y hy => ?_⟩
      obtain rfl := List.mem_singleton.1 hy
      rw [List.idxOf_append_of_mem (List.mem_eraseDups.1 hx), List.idxOf_append_of_notMem hfresh]
      exact Nat.lt_add_right _ (List.idxOf_lt_length_of_mem (List.mem_eraseDups.1 hx))

/-- Erasing duplicates commutes with an injective function. -/
theorem eraseDups_map {f : α → β} (hf : Function.Injective f) (as : List α) :
    (as.map f).eraseDups = as.eraseDups.map f := by
  induction as using List.reverseRecOn with
  | nil => rfl
  | append_singleton before a ih =>
    have hcontains : (before.eraseDups.map f).contains (f a) = before.eraseDups.contains a := by
      rw [Bool.eq_iff_iff, List.contains_iff_mem, List.contains_iff_mem,
        List.mem_map_of_injective hf]
    rw [List.map_append, List.map_singleton, eraseDups_concat, eraseDups_concat, ih, hcontains]
    split
    · rfl
    · rw [List.map_append, List.map_singleton]

end

/-! ### Reading a select -/

namespace Sql

namespace Select

/-- The columns that a select delivers of its own table. -/
def columns : Select → List OutputColumn
  | level columns _ _ _ _ _ => columns
  | whereLinked inner _ => inner.columns

/-- The table that a select reads. -/
def tableName : Select → String
  | level _ _ table _ _ _ => table
  | whereLinked inner _ => inner.tableName

/-- The links that a select is tested for, the innermost test first. -/
def tested : Select → List String
  | level _ _ _ _ _ _ => []
  | whereLinked inner link => inner.tested ++ [link]

/-- A select delivers its own columns and its links. -/
theorem outputs_eq (s : Select) (db : Database) :
    s.outputs db = s.columns.flatMap (·.names db s.tableName) ++ s.subqueries.map (·.1) := by
  induction s using Select.columns.induct with
  | case1 columns links table asName correlation condition => rfl
  | case2 inner link ih => exact ih

/-- Where no column stands for several, that is clear without the database. -/
theorem outputs_eq_of_columns {s : Select} {names : List String} (h : s.columns = names.map .column)
    (db : Database) : s.outputs db = names ++ s.subqueries.map (·.1) := by
  rw [outputs_eq, h, List.flatMap_map]
  exact congrArg (· ++ _) (List.flatMap_singleton' names)

end Select

/-- The columns that a statement is ordered by. -/
def SelectStatement.sortColumns (s : SelectStatement) : List String :=
  (s.order.filter fun term => !term.isRandom).map (·.column)

end Sql

namespace Outline

theorem tableName_enclose (s : Select) (demanded : List String) :
    (enclose s demanded).tableName = s.tableName := by
  induction demanded generalizing s with
  | nil => rfl
  | cons name rest ih => exact ih (.whereLinked s name)

theorem columns_enclose (s : Select) (demanded : List String) :
    (enclose s demanded).columns = s.columns := by
  induction demanded generalizing s with
  | nil => rfl
  | cons name rest ih => exact ih (.whereLinked s name)

theorem tested_enclose (s : Select) (demanded : List String) :
    (enclose s demanded).tested = s.tested ++ demanded := by
  induction demanded generalizing s with
  | nil => exact (List.append_nil _).symm
  | cons name rest ih =>
    rw [enclose_cons, ih, Select.tested, List.append_assoc, List.singleton_append]

end Outline

/-! ### What is asked for -/

namespace Table

/-- The columns of a declared table that a requested name stands for. -/
def expand (table : Table) (name : String) : List String :=
  if name = "*" then table.columns.map (·.name) else [name]

/-- What a level of a declared table is asked for, with repetitions, where names are requested and
the level has links of the given names. -/
def asked (table : Table) (requested links : List String) : List String :=
  table.primaryKey :: (requested.flatMap table.expand).filter fun name => !links.contains name

/-- A column that is requested by name is asked for, unless a link has its name. -/
theorem mem_asked_of_mem {table : Table} {requested links : List String} {name : String}
    (h : name ∈ requested) (hstar : name ≠ "*") (hlinks : name ∉ links) :
    name ∈ table.asked requested links := by
  have hexpand : name ∈ table.expand name := by
    rw [expand, if_neg hstar]
    exact List.mem_singleton.2 rfl
  exact List.mem_cons_of_mem _ (List.mem_filter.2
    ⟨List.mem_flatMap.2 ⟨name, h, hexpand⟩, by simpa using hlinks⟩)

/-- Where all columns are requested, every declared column is asked for, unless a link has its name.
-/
theorem mem_asked_or_mem_links {table : Table} {requested links : List String} (h : "*" ∈ requested)
    {column : Column} (hcolumn : column ∈ table.columns) :
    column.name ∈ table.asked requested links ∨ column.name ∈ links := by
  by_cases hlinks : column.name ∈ links
  · exact .inr hlinks
  · have hexpand : column.name ∈ table.expand "*" := List.mem_map.2 ⟨column, hcolumn, rfl⟩
    exact .inl (List.mem_cons_of_mem _ (List.mem_filter.2
      ⟨List.mem_flatMap.2 ⟨"*", h, hexpand⟩, by simpa using hlinks⟩))

/-- Of a table with declared columns the requested ones are those that are no link. -/
theorem requestedColumns_eq {table : Table} (hopen : table.isOpen = false) (links : List String)
    (name : String) : Outline.requestedColumns table links name =
      ((table.expand name).filter fun n => !links.contains n).map .column := by
  unfold Outline.requestedColumns expand
  rw [hopen, if_neg Bool.false_ne_true]
  split
  · rw [List.filter_map, List.map_map]
    rfl
  · by_cases hname : links.contains name
    · rw [if_pos hname, List.filter_cons_of_neg (by simpa using hname)]
      rfl
    · rw [if_neg hname, List.filter_cons_of_pos (by simpa using hname)]
      rfl

end Table

namespace Outline

variable {schema : Schema} {table : Table} {outline : Outline} {correlation : Option Correlation}
  {asName : Option String} {extra : List String} {s : Select}

/-- **The own columns of a level** of a declared table are what it is asked for, each once. -/
theorem ownColumns_eq (hopen : table.isOpen = false) (columns extra links : List String) :
    ownColumns table columns extra links =
      (table.asked (columns ++ extra) links).eraseDups.map .column := by
  have hrequested : (columns ++ extra).flatMap (requestedColumns table links) =
      (((columns ++ extra).flatMap table.expand).filter fun n => !links.contains n).map
        .column := by
    rw [List.filter_flatMap, List.map_flatMap]
    exact List.flatMap_congr fun name _ => Table.requestedColumns_eq hopen links name
  rw [← eraseDups_map fun _ _ => OutputColumn.column.inj, Table.asked, List.map_cons, ownColumns,
    hopen, Bool.false_and, if_neg Bool.false_ne_true, hrequested, List.singleton_append]

theorem tableName_select (hs : outline.select schema table correlation asName extra = .ok s) :
    s.tableName = table.name := by
  obtain ⟨inner, -, rfl⟩ := exists_of_select hs
  exact tableName_enclose _ _

/-- The columns of a level are the own columns of its outline. -/
theorem columns_select (hs : outline.select schema table correlation asName extra = .ok s) :
    s.columns = ownColumns table outline.columns extra (s.subqueries.map (·.1)) := by
  obtain ⟨inner, hinner, rfl⟩ := exists_of_select hs
  rw [columns_enclose, subqueries_enclose, Select.columns, Select.subqueries,
    map_fst_selectLinks hinner]
  rfl

/-- The links tested around a level are those its outline demands. -/
theorem tested_select (hs : outline.select schema table correlation asName extra = .ok s) :
    s.tested = outline.demanded := by
  obtain ⟨inner, -, rfl⟩ := exists_of_select hs
  rw [tested_enclose, Select.tested, List.nil_append]

/-- The select of an outline of a declared table delivers what is asked of it, in the order in which
it is first asked for. -/
theorem isFirstOccurrences_ownColumns (hopen : table.isOpen = false)
    (hs : outline.select schema table correlation asName extra = .ok s) :
    ∃ names, s.columns = names.map .column ∧ IsFirstOccurrences names
      (table.asked (outline.columns ++ extra) (s.subqueries.map (·.1))) :=
  ⟨_, (columns_select hs).trans (ownColumns_eq hopen _ _ _), isFirstOccurrences_eraseDups _⟩

end Outline

/-! ### What a selection asks for -/

/-- What a selection asks for behind links of the given names, one behind the other. Where a link is
not selected that is nothing. -/
def Selection.HasPart : List String → Selection → Selection → Prop
  | [], selection, part => selection = part
  | name :: names, selection, part =>
    (∃ behind, (name, behind) ∈ selection.links ∧ HasPart names behind part) ∨
      name ∉ selection.links.map (·.1) ∧ part = .empty

theorem Selection.eq_empty_of_hasPart {names : List String} {part : Selection}
    (h : empty.HasPart names part) : part = .empty := by
  cases names with
  | nil => exact h.symm
  | cons name names =>
    rcases h with ⟨_, hmem, -⟩ | ⟨-, hpart⟩
    · cases hmem
    · exact hpart

/-- A part of an outline is made of what the selection asks for there. -/
theorem Outline.exists_hasPart_of_nests {selection : Selection} {r : Restriction}
    {names : List String} {part : Outline} (h : (overlay selection r).Nests names part) :
    ∃ selected, selection.HasPart names selected ∧ part.columns = selected.columns := by
  induction names generalizing selection r with
  | nil =>
    obtain rfl : overlay selection r = part := h
    obtain ⟨columns, links⟩ := selection
    exact ⟨⟨columns, links⟩, rfl, rfl⟩
  | cons name names ih =>
    obtain ⟨demanded, behind, hmem, hpart⟩ := h
    obtain ⟨selected, sub, rfl, hselected, -⟩ := exists_of_mem_overlay hmem
    obtain ⟨asked, hasked, hcolumns⟩ := ih hpart
    -- a link that is not selected is there for its filter, and asks for nothing
    rcases hselected with hlink | ⟨hnone, rfl⟩
    · exact ⟨asked, .inl ⟨selected, hlink, hasked⟩, hcolumns⟩
    · exact ⟨asked, .inr ⟨hnone, Selection.eq_empty_of_hasPart hasked⟩, hcolumns⟩

/-! ### Statements -/

namespace Sql.SelectStatement

variable {schema : Schema} {tableName : String} {selection : Selection} {r : Restriction}
  {order : List SortTerm} {limit : Option (Nat × Nat)} {s : SelectStatement}

/-- The columns of the order are those of its terms that are not random. -/
theorem mem_sortColumns_iff {name : String} :
    name ∈ s.sortColumns ↔ ∃ term ∈ s.order, term.column = name ∧ ¬ term.isRandom := by
  simp only [sortColumns, List.mem_map, List.mem_filter, Bool.not_eq_true', Bool.not_eq_true]
  exact ⟨fun ⟨term, ⟨hmem, hordered⟩, hcolumn⟩ => ⟨term, hmem, hcolumn, hordered⟩,
    fun ⟨term, hmem, hcolumn, hordered⟩ => ⟨term, ⟨hmem, hordered⟩, hcolumn⟩⟩

/-- What a statement is ordered by is delivered for the order at its top, if it is wrapped in tests.
-/
theorem orderColumns_eq (hs : build schema tableName selection r order limit = .ok s) :
    (Outline.overlay selection r).orderColumns order =
      if s.select.tested = [] then [] else s.sortColumns := by
  obtain ⟨table, -, hselect, horder, -⟩ := exists_of_build hs
  rw [Outline.tested_select hselect, sortColumns, horder, Outline.orderColumns]
  exact if_congr List.isEmpty_iff rfl rfl

/-- A nested level is written for the part of the selection along its names. -/
theorem exists_level_of_nests (hs : build schema tableName selection r order limit = .ok s)
    {table : Table} (htable : schema.table? tableName = some table) {names : List String}
    {sub : Select} (h : s.select.Nests names sub) :
    ∃ target part selected correlation asName, schema.tableAlong? names table = some target ∧
      (Outline.overlay selection r).Nests names part ∧ selection.HasPart names selected ∧
      part.columns = selected.columns ∧
      part.select schema target correlation asName
        (if names = [] ∧ s.select.tested ≠ [] then s.sortColumns else []) = .ok sub := by
  obtain ⟨found, hfound, hselect, -, -⟩ := exists_of_build hs
  obtain rfl := Schema.eq_of_requireTable hfound htable
  obtain ⟨part, target, correlation, asName, hpart, htarget, hsub⟩ :=
    Outline.exists_part_of_nests hselect h
  obtain ⟨selected, hselected, hcolumns⟩ := Outline.exists_hasPart_of_nests hpart
  refine ⟨target, part, selected, correlation, asName, htarget, hpart, hselected, hcolumns, ?_⟩
  rw [← hsub, orderColumns_eq hs]
  by_cases htop : names = [] <;> by_cases htested : s.select.tested = [] <;> simp [htop, htested]

/-- A statement is ordered only by columns that are no links of its top. -/
theorem not_mem_subqueries_of_order (hs : build schema tableName selection r order limit = .ok s)
    {term : SortTerm} (hterm : term ∈ order) (hordered : ¬ term.isRandom) :
    term.column ∉ s.select.subqueries.map (·.1) := by
  obtain ⟨table, htable, hselect, -, -⟩ := exists_of_build hs
  have hfound := Schema.requireTable_eq_ok_iff.1 htable
  obtain ⟨hterms, -⟩ := (exists_build_iff_selectLinks hfound).1 ⟨s, hs⟩
  obtain ⟨-, hselected, heffective⟩ := (hterms term hterm).resolve_left hordered
  obtain ⟨inner, hinner, hlevel⟩ := Outline.exists_of_select hselect
  rw [hlevel, Outline.subqueries_enclose, Select.subqueries, Outline.map_fst_selectLinks hinner]
  intro hmem
  rcases Outline.mem_linkNames_overlay_iff.1 hmem with hlink | hlink
  · rw [Option.isNone_iff_eq_none.1 hselected] at hlink
    exact Bool.false_ne_true hlink
  · exact heffective hlink

/-- **Which columns each level delivers.** Let a selection and a restriction have a statement in
some order.

* The statement is ordered as it is asked for, and wrapped in a test for each link behind which
  something is demanded.
* Every level is one on the table that links lead to, and is asked for what the selection names
  behind them. If the table has declared columns, then the own columns of the level are just the
  primary key, the columns named and, at the top of a wrapped statement, the columns that the
  statement is ordered by. Here `*` stands for the declared columns, and names of links of the level
  are left out. Nothing is there twice, and all of it is in the order in which it is first asked
  for.
* So a declared column that is asked for by `*` is there as a column or as a link.
* So a wrapped statement delivers the columns that it is ordered by. -/
theorem own_columns_of_build (hs : build schema tableName selection r order limit = .ok s) :
    ∃ table, schema.table? tableName = some table ∧
      (s.order = order ∧ s.select.tested = r.effectiveLinks.map (·.1)) ∧
      (∀ names sub, s.select.Nests names sub → ∃ target selected,
        schema.tableAlong? names table = some target ∧ selection.HasPart names selected ∧
        let sorted := if names = [] ∧ s.select.tested ≠ [] then s.sortColumns else []
        let links := sub.subqueries.map (·.1)
        (¬ target.isOpen → ∃ columns, sub.columns = columns.map .column ∧
          IsFirstOccurrences columns (target.asked (selected.columns ++ sorted) links) ∧
          ("*" ∈ selected.columns ++ sorted → ∀ c ∈ target.columns, c.name ∈ columns ∨
            c.name ∈ links))) ∧
      (s.select.tested ≠ [] → ¬ table.isOpen → ∀ term ∈ order, ¬ term.isRandom → term.column ≠ "*" →
        ∀ db, term.column ∈ s.select.outputs db) := by
  obtain ⟨table, htable, hselect, horder, -⟩ := exists_of_build hs
  have hfound := Schema.requireTable_eq_ok_iff.1 htable
  have htested : s.select.tested = r.effectiveLinks.map (·.1) := by
    rw [Outline.tested_select hselect]
    exact Outline.demanded_overlay selection r
  refine ⟨table, hfound, ⟨horder, htested⟩, fun names sub hsub => ?_, ?_⟩
  · obtain ⟨target, part, selected, correlation, asName, htarget, -, hselected, hcolumns, hpart⟩ :=
      exists_level_of_nests hs hfound hsub
    refine ⟨target, selected, htarget, hselected, fun hopen => ?_⟩
    obtain ⟨columns, hown, hfirst⟩ :=
      Outline.isFirstOccurrences_ownColumns (Bool.eq_false_iff.2 hopen) hpart
    -- the level is made of a part of the outline, which asks for what the selection names
    rw [hcolumns] at hfirst
    exact ⟨columns, hown, hfirst, fun hstar c hc =>
      (Table.mem_asked_or_mem_links hstar hc).imp_left (hfirst.mem_iff _).2⟩
  · intro hwrapped hopen term hterm hordered hstar db
    obtain ⟨columns, hown, hfirst⟩ :=
      Outline.isFirstOccurrences_ownColumns (Bool.eq_false_iff.2 hopen) hselect
    rw [Select.outputs_eq_of_columns hown]
    refine List.mem_append_left _ ((hfirst.mem_iff _).2 ?_)
    have hsorted : term.column ∈ s.sortColumns :=
      mem_sortColumns_iff.2 ⟨term, horder ▸ hterm, rfl, hordered⟩
    refine Table.mem_asked_of_mem ?_ hstar (not_mem_subqueries_of_order hs hterm hordered)
    rw [orderColumns_eq hs, if_neg hwrapped]
    exact List.mem_append_right _ hsorted

/-- All columns of teams are asked for, among them the owner, whose place a link takes, and the
lead, by whom the statement is ordered as well. -/
theorem own_columns_of_build_by_lead :
    let ada := Condition.atom (.compare "full_name" false .eq (.text "Ada") none)
    ∃ s columns, build ownedAndLed "teams" ⟨["*"], [("owner", ⟨["full_name"], []⟩)]⟩
        ⟨none, [("owner", ⟨some ada, []⟩)]⟩ [.desc "lead"] none = .ok s ∧
      s.select.tested = ["owner"] ∧ s.select.columns = columns.map .column ∧
      IsFirstOccurrences columns ["xata_id", "xata_id", "lead", "lead"] := by
  intro ada
  let built := build ownedAndLed "teams" ⟨["*"], [("owner", ⟨["full_name"], []⟩)]⟩
    ⟨none, [("owner", ⟨some ada, []⟩)]⟩ [.desc "lead"] none
  obtain ⟨s, hs⟩ : ∃ s, built = .ok s := fault?_eq_none_iff.1 (by decide +kernel)
  have hlinks : s.select.subqueries.map (·.1) = ["owner"] :=
    eq_of_map_toOption (f := fun s => s.select.subqueries.map (·.1)) hs (by decide +kernel)
  obtain ⟨teams, hteams, ⟨horder, htested⟩, hlevels, -⟩ := own_columns_of_build hs
  obtain rfl : ownedAndLed.tables[0] = teams := Option.some.inj hteams
  obtain ⟨target, selected, htarget, hselected, hown⟩ := hlevels [] s.select rfl
  obtain rfl := Option.some.inj htarget
  obtain rfl := hselected
  obtain ⟨columns, hcolumns, hfirst, -⟩ := hown (by decide)
  have hasked : ownedAndLed.tables[0].asked (["*"] ++ s.sortColumns) ["owner"] =
      ["xata_id", "xata_id", "lead", "lead"] := by
    rw [sortColumns, horder]
    decide +kernel
  refine ⟨s, columns, hs, htested, hcolumns, ?_⟩
  rwa [hlinks, if_pos ⟨rfl, htested ▸ List.cons_ne_nil _ _⟩, hasked] at hfirst

end Sql.SelectStatement

end LinkQuery
