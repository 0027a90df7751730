import LinkQuery.Proofs.Linked.Addresses
import LinkQuery.Proofs.Linked.NameFaults
import LinkQuery.Proofs.Linked.Resolved
import LinkQuery.Proofs.Schema.Column
import LinkQuery.Proofs.Sql.Names

/-!
# Columns in statements

A statement quotes the columns that it names as they are given, and the database refuses it if a
table has no column of the name. The names come from the paths, the filter and the order of a query,
each of which is checked against the table that it is used on, and from the schema.

Every name is checked before anything is written, so a query with a name that its table does not
accept has no statement. What is accepted and yet no column of a table with declared columns is `*`,
or the constraint of a link, and both are written like columns.

* `Query.UsesColumn` are the names that a query uses for columns, each with the table that it uses
  it on.
* `Query.UsesColumn.acceptsColumn`: once a query is resolved, they are accepted.
* `Query.UsesColumn.of_nests`: a select names columns of its own table and what the query uses on
  it.
* `Query.columns_of_build` puts it together.
-/

namespace LinkQuery

open Sql SelectStatement

/-! ### Names that a filter uses -/

/-- A filter on a table uses a name for a column of `target`. A filter on a link is one on the table
that the link leads to under its own name. -/
inductive Filter.UsesColumn (schema : Schema) (target : Table) (name : String) :
    Table → Filter → Prop where
  | column (predicate : Predicate) : UsesColumn schema target name target (.column name predicate)
  | present (expected : Bool) : UsesColumn schema target name target (.present name expected)
  | member {table : Table} {combinator : Combinator} {members : List Filter} {filter : Filter}
      (hmem : filter ∈ members) (h : UsesColumn schema target name table filter) :
      UsesColumn schema target name table (.group combinator members)
  | link {table next : Table} {written : String} {link key : Link} {filter : Filter}
      (hlink : table.link? written = some link) (hkey : table.link? link.name = some key)
      (hnext : schema.table? key.targetTable = some next)
      (h : UsesColumn schema target name next filter) :
      UsesColumn schema target name table (.link written filter)

namespace Filter

variable {schema : Schema} {table target : Table} {name : String}

/-- A filter that is well formed uses names that are accepted. -/
theorem UsesColumn.acceptsColumn {filter : Filter} (h : filter.UsesColumn schema target name table)
    (hformed : filter.IsWellFormed schema table) : target.acceptsColumn name := by
  -- on how the filter uses the column: a well-formed filter has every part of it checked
  induction h with
  | column predicate =>
    obtain ⟨⟨hname, -⟩⟩ := hformed
    exact hname
  | present expected =>
    obtain ⟨⟨_⟩⟩ := hformed
    assumption
  | member hmem _ ih =>
    cases hformed with
    | ofLocal hlocal =>
      cases hlocal with
      | group hmembers _ => exact ih (.ofLocal (hmembers _ hmem))
    | all hmembers => exact ih (hmembers _ hmem)
  | link hlink hkey hnext _ ih =>
    cases hformed with
    | ofLocal hlocal => cases hlocal
    | link hnamed hfound htarget hbehind =>
      -- both ways of resolving the link lead to the same table
      obtain rfl := Option.some.inj (hlink.symm.trans hnamed)
      obtain rfl := Option.some.inj (hkey.symm.trans hfound)
      obtain rfl := Option.some.inj (hnext.symm.trans htarget)
      exact ih hbehind

/-- What is used behind a link that is set apart is used by the filter. -/
theorem UsesColumn.of_mem_linkFilters {filter behind : Filter} {written : String}
    (hmem : (written, behind) ∈ filter.linkFilters)
    (h : (Filter.link written behind).UsesColumn schema target name table) :
    filter.UsesColumn schema target name table :=
  linkFilters_induction (motive := fun filter => filter.UsesColumn schema target name table) h
    (fun _ _ hmember hused => .member hmember hused) hmem

theorem UsesColumn.exists_of_conjunction {filters : List Filter}
    (h : (conjunction filters).UsesColumn schema target name table) :
    ∃ filter ∈ filters, filter.UsesColumn schema target name table := by
  -- a single filter stands for itself
  unfold conjunction at h
  split at h
  next => exact ⟨_, List.mem_singleton.2 rfl, h⟩
  next =>
    cases h with
    | member hmem h => exact ⟨_, hmem, h⟩

end Filter

/-! ### Names in conditions -/

namespace Sql.Condition

variable {P : String → Prop}

mutual

/-- What holds of the columns of all tests holds of the names in a condition. -/
theorem forall_quotedNames {c : Condition} (h : c.Forall fun a => P a.column) :
    ∀ name ∈ c.quotedNames, P name := by
  match c with
  | atom a => exact List.forall_mem_singleton.2 h
  | group _ _ members =>
    intro name hname
    obtain ⟨names, hnames, hname⟩ := List.mem_flatten.1 hname
    exact forall_quotedNamesOfMembers h names hnames name hname

theorem forall_quotedNamesOfMembers {cs : List Condition}
    (h : ForallMembers (fun a => P a.column) cs) :
    ∀ names ∈ quotedNamesOfMembers cs, ∀ name ∈ names, P name := by
  match cs with
  | [] => exact List.forall_mem_nil _
  | c :: rest =>
    exact List.forall_mem_cons.2 ⟨forall_quotedNames h.1, forall_quotedNamesOfMembers h.2⟩

end

end Sql.Condition

theorem presenceTest_column (column : String) (expected : Bool) :
    (presenceTest column expected).Forall (·.column = column) := by
  cases expected <;> exact rfl

theorem Table.comparison_column {table : Table} {column : String} {op : Sql.Comparison}
    {value : Json.Value} {c : Condition} (h : table.comparison column op value = .ok c) :
    c.Forall (·.column = column) := by
  -- a null is tested for presence and any other operand compared, always in the same column
  unfold comparison at h
  split at h
  · split at h
    · obtain rfl := Except.ok.inj h
      exact presenceTest_column column false
    · obtain rfl := Except.ok.inj h
      exact presenceTest_column column true
    · cases h
  · split at h <;>
    · obtain rfl := Except.ok.inj h
      exact rfl

/-- All tests of a predicate are of its column. -/
theorem Predicate.condition_column {table : Table} {column : String} {predicate : Predicate}
    {result : Option Condition} (h : predicate.condition table column = .ok result) :
    ∀ c ∈ result, c.Forall (·.column = column) := by
  -- along the predicate: every atom of it is about the column
  refine condition_induction (motive := fun _ result => ∀ c ∈ result, c.Forall (·.column = column))
    ?_ ?_ ?_ ?_ h
  · rintro op value c hc _ ⟨⟩
    exact Table.comparison_column hc
  · rintro op operand _ ⟨⟩
    exact rfl
  · rintro expected _ ⟨⟩
    exact presenceTest_column column expected
  · intro combinator members results result hmembers hcombine
    exact Combinator.forall_of_combine hcombine (forall_mem_flatMap_toList hmembers)

namespace Filter

variable {schema : Schema} {table : Table}

/-- All tests of the condition are of columns that the filter uses. -/
def TestsUsed (schema : Schema) (table : Table) (filter : Filter) (result : Option Condition) :
    Prop :=
  ∀ c ∈ result, c.Forall fun a => filter.UsesColumn schema table a.column table

theorem TestsUsed.of_members {combinator : Combinator} {members : List Filter}
    {results : List (Option Condition)} (h : List.Forall₂ (TestsUsed schema table) members results)
    {result : Option Condition}
    (hcombine : combinator.combine (results.flatMap Option.toList) = .ok result) :
    TestsUsed schema table (.group combinator members) result := by
  -- an atom of the group is an atom of one of its members
  refine Combinator.forall_of_combine hcombine fun c hc => ?_
  obtain ⟨member, hmember, hused⟩ := exists_member_of_mem h hc
  exact (hused c rfl).mono fun a ha => .member hmember ha

theorem testsUsed_localCondition {filter : Filter} {result : Option Condition}
    (h : filter.localCondition table = .ok result) : TestsUsed schema table filter result := by
  -- along the compilation of the filter, in the cases of its own recursion
  refine localCondition_induction (motive := TestsUsed schema table) ?_ ?_ ?_ h
  · intro name predicate result hresult c hc
    refine (Predicate.condition_column hresult c hc).mono fun a ha => ?_
    rw [ha]
    exact .column predicate
  · rintro name expected _ ⟨⟩
    refine (presenceTest_column name expected).mono fun a ha => ?_
    rw [ha]
    exact .present expected
  · intro combinator members results result hmembers hcombine
    exact .of_members hmembers hcombine

theorem testsUsed_condition {filter : Filter} {result : Option Condition}
    (h : filter.condition table = .ok result) : TestsUsed schema table filter result := by
  refine condition_induction (motive := TestsUsed schema table) ?_ ?_ ?_ h
  · intro filter result _ hlocal
    exact testsUsed_localCondition hlocal
  · -- a filter on a link is compiled to nothing
    rintro name behind found _ _ ⟨⟩
  · intro members results result hmembers hcombine
    exact .of_members hmembers hcombine

end Filter

/-! ### Names in restrictions -/

namespace Restriction

/-- The condition behind links of the given names, one behind the other, is about a column. -/
def Tests (column : String) : List String → Restriction → Prop
  | [], r => ∃ c ∈ r.own, column ∈ c.quotedNames
  | name :: names, r => ∃ sub, (name, sub) ∈ r.links ∧ Tests column names sub

theorem not_tests_trivial {column : String} {names : List String} :
    ¬ trivial.Tests column names := by
  cases names <;> simp [Tests, trivial]

/-- **A restriction tests what the filter uses.** -/
theorem usesColumn_of_tests {schema : Schema} {tableName : String} {table : Table} {filter : Filter}
    {r : Restriction} (htable : schema.requireTable tableName = .ok table)
    (h : ofFilter schema tableName filter = .ok r) {names : List String} {target : Table}
    (htarget : schema.tableAlong? names table = some target) {column : String}
    (htests : r.Tests column names) : filter.UsesColumn schema target column table := by
  -- on the restriction: a test here is of an own filter, one behind a link of its filters
  refine ofFilter_induction (motive := fun table filter r => ∀ names target,
    schema.tableAlong? names table = some target → r.Tests column names →
      filter.UsesColumn schema target column table) ?_ htable h names target htarget htests
  intro table filter own links hown hlinks names target htarget htests
  cases names with
  | nil =>
    obtain rfl := Option.some.inj htarget
    obtain ⟨c, hc, hcolumn⟩ := htests
    have hused : c.Forall fun a => filter.UsesColumn schema table a.column table :=
      Filter.testsUsed_condition hown c hc
    exact Condition.forall_quotedNames (P := fun n => filter.UsesColumn schema table n table) hused
      column hcolumn
  | cons name names =>
    obtain ⟨sub, hsub, htests⟩ := htests
    obtain ⟨link, next, hlink, hnext, hrest⟩ := Schema.tableAlong?_cons_iff.1 htarget
    obtain ⟨group, hgroup, hname, key, behind, hkey, hbehind, huses⟩ :=
      exists_group_of_mem hlinks hsub
    obtain rfl := Option.some.inj (hlink.symm.trans hkey)
    obtain rfl := Option.some.inj (hnext.symm.trans hbehind)
    -- one of the filters on the link uses the column, under whichever name it was written
    obtain ⟨f, hf, hused⟩ := (huses names target hrest htests).exists_of_conjunction
    obtain ⟨written, found, hmem, hfound, hcanonical⟩ := Filter.exists_of_mem_linkGroups hgroup hf
    have hagain : table.link? found.name = some link := by
      rw [hcanonical, ← hname]
      exact hlink
    exact .of_mem_linkFilters hmem (.link hfound hagain hnext hused)

end Restriction

/-! ### Names in outlines -/

namespace Outline

variable {schema : Schema}

/-- The part of an outline behind links of the given names, one behind the other. -/
def Nests : List String → Outline → Outline → Prop
  | [], outline, part => outline = part
  | name :: names, outline, part =>
    ∃ demanded behind, (name, demanded, behind) ∈ outline.links ∧ Nests names behind part

/-- Behind an included link stands what is selected there and what is demanded there, either of
which may be nothing. -/
theorem exists_of_mem_overlay {selection : Selection} {r : Restriction} {name : String}
    {demanded : Bool}
    {behind : Outline} (h : (name, demanded, behind) ∈ (overlay selection r).links) :
    ∃ selected sub, behind = overlay selected sub ∧
      ((name, selected) ∈ selection.links ∨ name ∉ selection.links.map (·.1) ∧ selected = .empty) ∧
      (sub = .trivial ∨ (name, sub) ∈ r.links) := by
  obtain ⟨columns, links⟩ := selection
  rw [overlay, overlayLinks_eq, ofLinks_eq] at h
  rcases List.mem_append.1 h with h | h
  · -- the link is selected
    obtain ⟨⟨n, selected⟩, hmem, heq⟩ := List.mem_map.1 h
    obtain ⟨rfl, hbehind⟩ := Prod.mk.inj heq
    obtain ⟨-, rfl⟩ := Prod.mk.inj hbehind
    refine ⟨selected, _, rfl, .inl hmem, ?_⟩
    -- it may be restricted as well
    cases hdemand : (r.link? n).filter fun r => !r.isTrivial with
    | none => exact .inl rfl
    | some sub => exact .inr (mem_of_lookup_eq_some (Option.filter_eq_some_iff.1 hdemand).1)
  · -- the link is only restricted
    obtain ⟨h, hunselected⟩ := List.mem_filter.1 h
    obtain ⟨⟨n, sub⟩, hsub, heq⟩ := List.mem_map.1 h
    obtain ⟨rfl, hbehind⟩ := Prod.mk.inj heq
    obtain ⟨-, rfl⟩ := Prod.mk.inj hbehind
    exact ⟨.empty, sub, (overlay_empty sub).symm, .inr ⟨by simpa using hunselected, rfl⟩,
      .inr (List.mem_filter.1 hsub).1⟩

/-- Where no link is selected twice, the selection behind an included link is the one that is looked
up. -/
theorem exists_of_mem_links {selection : Selection} (hselection : selection.IsDistinct)
    {r : Restriction} {name : String} {demanded : Bool} {behind : Outline}
    (h : (name, demanded, behind) ∈ (overlay selection r).links) :
    ∃ selected sub, behind = overlay selected sub ∧ selected.IsDistinct ∧
      selected = (selection.link? name).getD .empty ∧ (sub = .trivial ∨ (name, sub) ∈ r.links) := by
  obtain ⟨selected, sub, hbehind, hselected, hsub⟩ := exists_of_mem_overlay h
  obtain ⟨columns, links⟩ := selection
  refine ⟨selected, sub, hbehind, ?_, ?_, hsub⟩
  · rcases hselected with hmem | ⟨-, rfl⟩
    · exact Selection.areDistinct_iff.1 hselection.2 _ hmem
    · exact Selection.isDistinct_empty
  · rcases hselected with hmem | ⟨hnone, rfl⟩
    · have hname : name ∈ links.map (·.1) := List.mem_map.2 ⟨(name, selected), hmem, rfl⟩
      -- a distinct selection has the link once, so looking it up finds this one
      have hlookup : links.lookup name = some selected :=
        lookup_of_count_eq_one hmem (List.count_eq_one_of_mem hselection.1 hname)
      rw [Selection.link?, hlookup, Option.getD_some]
    · have hlookup : Selection.link? ⟨columns, links⟩ name = none := by
        rwa [← Option.not_isSome_iff_eq_none, Selection.isSome_link?_iff]
      rw [hlookup, Option.getD_none]

/-- **The parts of an outline** fetch what is selected there, and test what is demanded there. -/
theorem of_nests_overlay {selection : Selection} (hselection : selection.IsDistinct)
    {r : Restriction}
    {names : List String} {part : Outline} (h : (overlay selection r).Nests names part) :
    part.columns = ((selection.at? names).getD .empty).columns ∧
      ∀ c ∈ part.condition, ∀ column ∈ c.quotedNames, r.Tests column names := by
  induction names generalizing selection r with
  | nil =>
    obtain rfl : overlay selection r = part := h
    obtain ⟨columns, links⟩ := selection
    exact ⟨rfl, fun c hc column hcolumn => ⟨c, hc, hcolumn⟩⟩
  | cons name names ih =>
    obtain ⟨demanded, behind, hmem, hpart⟩ := h
    obtain ⟨selected, sub, rfl, hdistinct, rfl, hsub⟩ := exists_of_mem_links hselection hmem
    obtain ⟨hcolumns, htests⟩ := ih hdistinct hpart
    refine ⟨?_, fun c hc column hcolumn => ?_⟩
    · -- what is selected along the names is found link by link
      rw [hcolumns, Selection.at?]
      cases selection.link? name with
      | none => rw [Option.getD_none, Selection.getD_at?_empty]; rfl
      | some sub => rfl
    · -- a trivial restriction tests nothing
      rcases hsub with rfl | hsub
      · exact absurd (htests c hc column hcolumn) Restriction.not_tests_trivial
      · exact ⟨sub, hsub, htests c hc column hcolumn⟩

end Outline

/-! ### Names in selects -/

/-- The names that a select takes for columns of its own table: those that it delivers, and those
that its condition is about. -/
def Sql.Select.ownNames : Select → List String
  | .level columns _ _ _ _ condition =>
    columns.flatMap OutputColumn.quotedNames ++ condition.toList.flatMap Condition.quotedNames
  | .whereLinked inner _ => inner.ownNames

namespace Outline

variable {schema : Schema} {table : Table} {correlation : Option Correlation}
  {asName : Option String} {extra : List String} {outline : Outline} {s sub : Select}

theorem ownNames_enclose (s : Select) (demanded : List String) :
    (enclose s demanded).ownNames = s.ownNames := by
  induction demanded generalizing s with
  | nil => rfl
  | cons name rest ih => exact ih (.whereLinked s name)

/-- A level delivers columns of its table and columns that are asked for. That all columns are asked
for is no name of a column. -/
theorem of_mem_ownColumns {columns links : List String} {name : String}
    (h : .column name ∈ ownColumns table columns extra links) :
    table.hasColumn name ∨ name ≠ "*" ∧ (name ∈ columns ∨ name ∈ extra) := by
  unfold ownColumns at h
  rw [List.mem_eraseDups] at h
  rcases List.mem_append.1 h with h | h
  · -- the key, or a column that was asked for
    split at h
    · cases h
    · obtain rfl := OutputColumn.column.inj (List.mem_singleton.1 h)
      exact .inl table.hasColumn_primaryKey
  · obtain ⟨requested, hrequested, h⟩ := List.mem_flatMap.1 h
    unfold requestedColumns at h
    split at h
    next =>
      -- all declared columns
      split at h
      · simp at h
      · obtain ⟨column, hcolumn, heq⟩ := List.mem_map.1 h
        obtain rfl := OutputColumn.column.inj heq
        exact .inl (Table.hasColumn_of_mem_columns (List.mem_filter.1 hcolumn).1)
    next hstar =>
      split at h
      · cases h
      · obtain rfl := OutputColumn.column.inj (List.mem_singleton.1 h)
        exact .inr ⟨hstar, List.mem_append.1 hrequested⟩

/-- A select names columns of its table, columns that are asked for, and those that its condition is
about. -/
theorem of_mem_ownNames (hs : outline.select schema table correlation asName extra = .ok s)
    {name : String} (h : name ∈ s.ownNames) :
    table.hasColumn name ∨ name ≠ "*" ∧ (name ∈ outline.columns ∨ name ∈ extra) ∨
      ∃ c ∈ outline.condition, name ∈ c.quotedNames := by
  obtain ⟨inner, -, rfl⟩ := exists_of_select hs
  rw [ownNames_enclose] at h
  rcases List.mem_append.1 h with h | h
  · -- a name is written among the columns or in the condition
    obtain ⟨column, hcolumn, hname⟩ := List.mem_flatMap.1 h
    cases column with
    | star => cases hname
    | column n =>
      obtain rfl := List.mem_singleton.1 hname
      exact (of_mem_ownColumns hcolumn).imp_right .inl
  · obtain ⟨c, hc, hname⟩ := List.mem_flatMap.1 h
    exact .inr (.inr ⟨c, Option.mem_toList.1 hc, hname⟩)

/-- A subquery of a select is the select of a part of its outline. Only the outermost select
delivers columns for the order. -/
theorem exists_part_of_nests (hs : outline.select schema table correlation asName extra = .ok s)
    {names : List String} (h : s.Nests names sub) :
    ∃ part target correlation' asName', outline.Nests names part ∧
      schema.tableAlong? names table = some target ∧
      part.select schema target correlation' asName' (if names = [] then extra else []) =
        .ok sub := by
  induction names generalizing outline table correlation asName extra s with
  | nil =>
    obtain rfl : s = sub := h
    exact ⟨outline, table, correlation, asName, rfl, rfl, hs⟩
  | cons name names ih =>
    -- the level behind the first name is itself built from an outline
    obtain ⟨demanded, inner, hmem, hinner⟩ := h
    obtain ⟨⟨n, d, behind⟩, hentry, hname, link, next, hlink, hnext, -, _, _, hselect⟩ :=
      exists_left_of_forall₂ (forall₂_subqueries hs) hmem
    obtain rfl : name = n := hname
    obtain ⟨part, target, correlation', asName', hpart, htarget, hsub⟩ := ih hselect hinner
    rw [ite_self] at hsub
    exact ⟨part, target, correlation', asName', ⟨d, behind, hentry, hpart⟩,
      Schema.tableAlong?_cons_iff.2 ⟨link, next, hlink, hnext, htarget⟩, hsub⟩

end Outline

/-! ### Names in paths -/

namespace ColumnPath

variable {schema : Schema} {table target : Table} {path : ColumnPath}

/-- A path is followed to the table that its links lead to. -/
theorem map_snd_of_follow {base : String} {names : List String}
    {reached : Option (List String × Table)}
    (h : path.follow schema base names table = .ok reached) :
    reached.map (·.2) = schema.tableAlong? names table := by
  induction names generalizing table reached with
  | nil =>
    obtain rfl := Except.ok.inj h
    rfl
  | cons name names ih =>
    rw [follow] at h
    rw [Schema.tableAlong?]
    split at h
    next => cases h
    next link hlink =>
      rw [hlink]
      split at h
      next hnone =>
        -- the path leads out of the schema
        obtain rfl := Except.ok.inj h
        simp [hnone]
      next next hnext =>
        obtain ⟨behind, hbehind, rfl⟩ := map_eq_ok_iff.1 h
        simp only [hnext, Option.bind_eq_bind, Option.bind_some, ← ih hbehind]
        cases behind <;> rfl

/-- The column of a path that is accepted is accepted by the table that the path leads to. -/
theorem acceptsColumn_of_resolve {hops : Option (List String)}
    (h : path.resolve schema table = .ok hops) {name : String}
    (hterminal : path.terminal = .column name)
    (htarget : schema.tableAlong? path.links table = some target) : target.acceptsColumn name := by
  obtain ⟨reached, hreached, h⟩ := bind_eq_ok_iff.1 h
  rw [← map_snd_of_follow hreached] at htarget
  obtain ⟨⟨names, last⟩, rfl, rfl⟩ := Option.map_eq_some_iff.1 htarget
  dsimp only at h
  rw [hterminal] at h
  obtain ⟨⟨⟩, hcolumn, -⟩ := bind_eq_ok_iff.1 h
  exact Table.checkColumn_eq_ok_iff.1 (mapError_eq_ok_iff.1 hcolumn)

/-- A path that selects a name other than `*` has it as its column. -/
theorem terminal_of_selected {name : String} (h : path.selected = name) (hstar : name ≠ "*") :
    path.terminal = .column name := by
  unfold selected at h
  split at h
  next column hterminal =>
    rw [hterminal, h]
  next => exact absurd h.symm hstar

end ColumnPath

namespace Selection

variable {schema : Schema} {tableName : String} {table : Table} {columns : List String}
  {selection : Selection} (htable : schema.requireTable tableName = .ok table)
  (h : ofColumns schema tableName columns = .ok selection)

include htable h

/-- Every path of a selection is resolved. -/
theorem exists_resolve_of_ofColumns {text : String} (htext : text ∈ columns) {path : ColumnPath}
    (hpath : ColumnPath.parse text = .ok path) : ∃ hops, path.resolve schema table = .ok hops := by
  obtain ⟨paths, hpaths, h⟩ := bind_eq_ok_iff.1 h
  obtain ⟨found, hfound, h⟩ := bind_eq_ok_iff.1 h
  obtain rfl := Except.ok.inj (hfound.symm.trans htable)
  obtain ⟨path', hmem, hpath'⟩ := exists_right_of_forall₂ (mapM_eq_ok_iff.1 hpaths) htext
  obtain rfl := Except.ok.inj (hpath.symm.trans hpath')
  split at h
  next hempty =>
    rw [List.isEmpty_iff.1 hempty] at hmem
    cases hmem
  next => exact exists_resolve_of_foldlM h path hmem

/-- What is selected behind links is what a path with these links ends with. -/
theorem exists_path_of_mem_columns {names : List String} {column : String}
    (hcolumn : column ∈ ((selection.at? names).getD empty).columns) (hstar : column ≠ "*") :
    ∃ text ∈ columns, ∃ path steps, ColumnPath.parse text = .ok path ∧
      path.terminal = .column column ∧ schema.linksAlong? path.links table = some steps ∧
        steps.map (·.2.name) = names := by
  obtain ⟨paths, hpaths, h⟩ := bind_eq_ok_iff.1 h
  obtain ⟨found, hfound, h⟩ := bind_eq_ok_iff.1 h
  obtain rfl := Except.ok.inj (hfound.symm.trans htable)
  split at h
  next =>
    -- all columns of the row itself, and nothing behind its links
    obtain rfl := Except.ok.inj h
    cases names with
    | nil => exact absurd (List.mem_singleton.1 hcolumn) hstar
    | cons name names => cases hcolumn
  next =>
    rw [(groups_of_foldlM h).columns_eq, List.mem_eraseDups, ColumnPath.selectedAt] at hcolumn
    obtain ⟨path, hmem, hselected⟩ := List.mem_map.1 hcolumn
    obtain ⟨hpath, haddress⟩ := List.mem_filter.1 hmem
    obtain ⟨text, htext, hparse⟩ := exists_left_of_forall₂ (mapM_eq_ok_iff.1 hpaths) hpath
    obtain ⟨steps, hsteps, hnames⟩ := Option.map_eq_some_iff.1 (of_decide_eq_true haddress)
    exact ⟨text, htext, path, steps, hparse, ColumnPath.terminal_of_selected hselected hstar,
      hsteps, hnames⟩

end Selection

/-! ### Queries -/

namespace Query

variable {q : Query} {table target : Table} {order : List SortTerm} {name : String}

/-- A query on `table`, put into an order, uses a name for a column of `target`: it orders by it,
filters by it, or has a path that ends with it. -/
inductive UsesColumn (q : Query) (table : Table) (order : List SortTerm) :
    Table → String → Prop where
  | sorted {term : SortTerm} (hmem : term ∈ order) (hordered : ¬ term.isRandom) :
      UsesColumn q table order table term.column
  | filtered {filter : Filter} {target : Table} {name : String}
      (hfilter : Filter.ofJson q.filterValue = .ok filter)
      (h : filter.UsesColumn q.schema target name table) : UsesColumn q table order target name
  | selected {text : String} {path : ColumnPath} {target : Table} {name : String}
      (htext : text ∈ q.columns.getD []) (hpath : ColumnPath.parse text = .ok path)
      (hterminal : path.terminal = .column name)
      (htarget : q.schema.tableAlong? path.links table = some target) :
      UsesColumn q table order target name

/-- Once a query is resolved and can be ordered, the names that it uses are accepted. -/
theorem UsesColumn.acceptsColumn {selection : Selection} {r : Restriction}
    (h : q.UsesColumn table order target name) (hresolves : q.Resolves table selection r)
    (horder : ∀ term ∈ order, SelectStatement.Orders table selection r term) :
    target.acceptsColumn name := by
  obtain ⟨htable, hselection, filter, hfilter, hr⟩ := hresolves
  cases h with
  | sorted hmem hordered => exact ((horder _ hmem).resolve_left hordered).1
  | filtered hfilter' h =>
    obtain rfl := Except.ok.inj (hfilter.symm.trans hfilter')
    obtain ⟨found, hfound, hformed⟩ := Restriction.exists_ofFilter_iff.1 ⟨r, hr⟩
    obtain rfl := Option.some.inj (hfound.symm.trans htable)
    exact h.acceptsColumn hformed
  | selected htext hpath hterminal htarget =>
    obtain ⟨hops, hhops⟩ := Selection.exists_resolve_of_ofColumns
      (Schema.requireTable_eq_ok_iff.2 htable) hselection htext hpath
    exact ColumnPath.acceptsColumn_of_resolve hhops hterminal htarget

/-- **What a select names** are columns of its table and what the query uses on the table, unless a
link is shadowed. -/
theorem UsesColumn.of_nests (htable : q.schema.table? q.table = some table)
    (hkept : ∀ text ∈ q.columns.getD [], ∀ path steps, ColumnPath.parse text = .ok path →
      q.schema.linksAlong? path.links table = some steps →
        ∀ step ∈ steps, ¬ step.1.isShadowed step.2)
    {limit : Option (Nat × Nat)} {s : SelectStatement} (hs : q.build order limit = .ok s)
    {names : List String} {sub : Select} (h : s.select.Nests names sub) :
    ∃ target, q.schema.tableAlong? names table = some target ∧
      ∀ name ∈ sub.ownNames, target.hasColumn name ∨ q.UsesColumn table order target name := by
  obtain ⟨selection, filter, r, hselection, hfilter, hr, hs⟩ := exists_of_build hs
  obtain ⟨found, hfound, hselect, -, -⟩ := SelectStatement.exists_of_build hs
  obtain rfl := Schema.eq_of_requireTable hfound htable
  obtain ⟨part, target, _, _, hpart, htarget, hsub⟩ := Outline.exists_part_of_nests hselect h
  obtain ⟨hcolumns, htests⟩ :=
    Outline.of_nests_overlay (Selection.isDistinct_ofColumns hselection) hpart
  refine ⟨target, htarget, fun name hname => ?_⟩
  rcases Outline.of_mem_ownNames hsub hname with
    hcolumn | ⟨hstar, hcolumn | hcolumn⟩ | ⟨c, hc, hcolumn⟩
  · exact .inl hcolumn
  · -- a path ends with the name, and the canonical names of its links lead to the same table
    rw [hcolumns] at hcolumn
    obtain ⟨text, htext, path, steps, hpath, hterminal, hsteps, rfl⟩ :=
      Selection.exists_path_of_mem_columns hfound hselection hcolumn hstar
    have hagain := (Schema.linksAlong?_names_iff hsteps).2
        (hkept text htext path steps hpath hsteps)
    rw [← Schema.tableAlong?_eq_of_linksAlong? hsteps hagain] at htarget
    exact .inr (.selected htext hpath hterminal htarget)
  · -- the outermost select delivers what it is ordered by
    split at hcolumn
    next htop =>
      obtain rfl := htop
      obtain rfl := Option.some.inj htarget
      unfold Outline.orderColumns at hcolumn
      split at hcolumn
      · cases hcolumn
      obtain ⟨term, hterm, rfl⟩ := List.mem_map.1 hcolumn
      obtain ⟨hmem, hrandom⟩ := List.mem_filter.1 hterm
      exact .inr (.sorted hmem (by simpa using hrandom))
    next => cases hcolumn
  · have hused := Restriction.usesColumn_of_tests hfound hr htarget (htests c hc name hcolumn)
    exact .inr (.filtered hfilter hused)

theorem UsesColumn.acceptsColumn_of_build (htable : q.schema.table? q.table = some table)
    (h : q.UsesColumn table order target name) {limit : Option (Nat × Nat)} {s : SelectStatement}
    (hs : q.build order limit = .ok s) : target.acceptsColumn name := by
  obtain ⟨found, selection, r, hresolves, horder, -⟩ := exists_build_iff.1 ⟨s, hs⟩
  obtain rfl := Option.some.inj (hresolves.1.symm.trans htable)
  exact h.acceptsColumn hresolves horder

/-- A name that is not accepted is a fault, and if the query has faults of names alone, such a one
is found. -/
theorem UsesColumn.exists_error (htable : q.schema.table? q.table = some table)
    (h : q.UsesColumn table order target name) (hrefused : ¬ target.acceptsColumn name)
    (limit : Option (Nat × Nat)) :
    ∃ e, q.build order limit = .error e ∧
      ((∃ schema order' limit' s, { q with schema := schema }.build order' limit' = .ok s) →
        e.isUnresolved) := by
  cases hbuild : q.build order limit with
  | ok s => exact absurd (h.acceptsColumn_of_build htable hbuild) hrefused
  | error e =>
    refine ⟨e, rfl, fun hover => (resolves_or_isUnresolved htable hover hbuild).resolve_right ?_⟩
    rintro ⟨selection, r, hresolves, horder⟩
    exact hrefused (h.acceptsColumn hresolves horder)

/-- **Which columns reach a statement.** This is about every order and limit, so about the
statements of pages as well.

* On a table with declared columns, what is accepted for a column and is none is `*` or the
  constraint of a link.
* A query that uses a name that is not accepted has no statement. If it has one over some other
  schema, so that nothing is wrong with it but names, then the failure is one of a name.
* Let a query have a statement, which is ordered as it is asked for. A name that the query uses on a
  table is a column of it, or `*`, or the constraint of a link, or the table is open.
* Let moreover no link of a path be shadowed. Then each select of the statement is one on the table
  that the names of its links lead to, correlated by the last of these links, each of which starts
  from a column of its table. A name that the select takes for a column of its table is one, or the
  query uses it so. -/
theorem columns_of_build (q : Query) {table : Table} (htable : q.schema.table? q.table = some table)
    (order : List SortTerm) (limit : Option (Nat × Nat)) :
    (∀ (t : Table) name, ¬ t.isOpen → ¬ t.hasColumn name →
      (t.acceptsColumn name ↔ name = "*" ∨ t.isLinkConstraint name)) ∧
    (∀ target name, q.UsesColumn table order target name → ¬ target.acceptsColumn name →
      ∃ e, q.build order limit = .error e ∧
        ((∃ schema order' limit' s, { q with schema := schema }.build order' limit' = .ok s) →
          e.isUnresolved)) ∧
    ∀ s, q.build order limit = .ok s → s.order = order ∧
      (∀ target name, q.UsesColumn table order target name →
        target.hasColumn name ∨ target.isOpen ∨ name = "*" ∨ target.isLinkConstraint name) ∧
      ((∀ text ∈ q.columns.getD [], ∀ path steps, ColumnPath.parse text = .ok path →
          q.schema.linksAlong? path.links table = some steps →
          ∀ step ∈ steps, ¬ step.1.isShadowed step.2) →
        ∀ names sub, s.select.Nests names sub → ∃ steps target,
          q.schema.linksAlong? names table = some steps ∧
          q.schema.tableAlong? names table = some target ∧
          sub.link? = (steps.map (·.2)).getLast? ∧
          (∀ step ∈ steps, step.1.hasColumn step.2.localColumn) ∧
          ∀ name ∈ sub.ownNames, target.hasColumn name ∨ q.UsesColumn table order target name) := by
  refine ⟨fun t name => Table.acceptsColumn_iff_of_not_hasColumn,
    fun target name huses hrefused => huses.exists_error htable hrefused limit, fun s hs => ?_⟩
  obtain ⟨selection, filter, r, hselection, -, hr, hstatement⟩ := exists_of_build hs
  obtain ⟨found, hfound, hselect, horder, -⟩ := SelectStatement.exists_of_build hstatement
  obtain rfl := Option.some.inj ((Schema.requireTable_eq_ok_iff.1 hfound).symm.trans htable)
  refine ⟨horder, fun target name huses => ?_, fun hkept names sub hsub => ?_⟩
  · exact Table.hasColumn_or_of_acceptsColumn (huses.acceptsColumn_of_build htable hs)
  obtain ⟨-, steps, hsteps, hlink⟩ := Outline.exists_of_nests hselect hsub
  obtain ⟨target, htarget, hnames⟩ := UsesColumn.of_nests htable hkept hs hsub
  refine ⟨steps, target, hsteps, htarget, ?_, Schema.hasColumn_of_linksAlong? hsteps, hnames⟩
  -- the outermost select has no correlation
  obtain ⟨inner, -, hlevel⟩ := Outline.exists_of_select hselect
  rw [hlink, hlevel, Outline.link?_enclose, Select.link?, Option.map_none, Option.or_none]

/-- **Names that are no columns, written like columns.** The rows are to be ordered by the
constraint of a link, and to be filtered by `*`. -/
theorem constraint_written_as_column :
    let teams := ownedAndLed.tables[0]
    let byConstraint := (Query.new ownedAndLed "teams").addSort (.asc "teams_owner_fkey")
    let byStar := (Query.new ownedAndLed "teams").addFilter (.object [("*", .int 1)])
    (¬ teams.isOpen ∧ ¬ teams.hasColumn "teams_owner_fkey" ∧ ¬ teams.hasColumn "*") ∧
      (byConstraint.UsesColumn teams byConstraint.sort teams "teams_owner_fkey" ∧
        byConstraint.compile = .ok ⟨"select \"xata_id\", \"owner\", \"lead\" from \"teams\" " ++
          "order by \"teams_owner_fkey\" asc", []⟩) ∧
      byStar.UsesColumn teams byStar.sort teams "*" ∧
        byStar.compile = .ok ⟨"select \"xata_id\", \"owner\", \"lead\" from \"teams\" " ++
          "where \"*\" = $1", [.int 1]⟩ := by
  intro teams byConstraint byStar
  have hfilter : Filter.ofJson byStar.filterValue = .ok (.column "*" (.compare .eq (.int 1))) := by
    rfl
  refine ⟨by decide +kernel, ⟨.sorted List.mem_cons_self (by decide), by decide +kernel⟩,
    .filtered hfilter (.column _), by decide +kernel⟩

/-- A query that is ordered by a misspelt column is refused, and one that is spelt correctly names
columns of the table behind its link. -/
theorem columns_of_build_owner :
    let users := ownedAndLed.tables[1]
    let q := (Query.new ownedAndLed "teams").select ["owner.full_name"]
    (∃ e, q.build [.asc "onwer"] none = .error e ∧ e.isUnresolved) ∧
      ∃ s sub, q.build [.asc "lead"] none = .ok s ∧ s.select.Nests ["owner"] sub ∧
        "full_name" ∈ sub.ownNames ∧ ∀ name ∈ sub.ownNames, users.hasColumn name ∨ name = "*" := by
  intro users q
  have htable : q.schema.table? q.table = some ownedAndLed.tables[0] := rfl
  obtain ⟨s, hs⟩ : ∃ s, q.build [.asc "lead"] none = .ok s :=
    fault?_eq_none_iff.1 (by decide +kernel)
  constructor
  · obtain ⟨-, hrefused, -⟩ := columns_of_build q htable [.asc "onwer"] none
    obtain ⟨e, he, hname⟩ :=
      hrefused _ "onwer" (.sorted List.mem_cons_self (by decide)) (by decide +kernel)
    exact ⟨e, he, hname ⟨ownedAndLed, _, _, s, hs⟩⟩
  · obtain ⟨-, -, hwritten⟩ := columns_of_build q htable [.asc "lead"] none
    have hsubqueries : (q.build [.asc "lead"] none).toOption.map
        (fun s => s.select.subqueries.map fun link => (link.1, link.2.2.ownNames)) =
          some [("owner", ["xata_id", "full_name"])] := by
      decide +kernel
    rw [hs] at hsubqueries
    obtain ⟨⟨name, demanded, sub⟩, hmem, heq⟩ :=
      List.mem_map.1 ((Option.some.inj hsubqueries).symm ▸ List.mem_cons_self)
    obtain ⟨rfl, hown⟩ := Prod.mk.inj heq
    have hsub : s.select.Nests ["owner"] sub := ⟨demanded, sub, hmem, rfl⟩
    refine ⟨s, sub, hs, hsub, by simp [hown], fun name hname => ?_⟩
    have hkept : ∀ text ∈ q.columns.getD [], ∀ path steps, ColumnPath.parse text = .ok path →
        q.schema.linksAlong? path.links ownedAndLed.tables[0] = some steps →
        ∀ step ∈ steps, ¬ step.1.isShadowed step.2 := by
      -- no two foreign keys are over the same column
      have hsingle : ownedAndLed.HasSingleKeys := by decide +kernel
      intro text _ path steps _ hsteps
      exact hsingle.not_isShadowed_of_mem (by decide +kernel) hsteps
    obtain ⟨-, hused, hselects⟩ := hwritten s hs
    obtain ⟨steps, target, -, htarget, -, -, hnames⟩ := hselects hkept ["owner"] sub hsub
    obtain rfl : ownedAndLed.tables[1] = target := by
      have hbehind : q.schema.tableAlong? ["owner"] ownedAndLed.tables[0] =
          some ownedAndLed.tables[1] := by
        decide +kernel
      exact Option.some.inj (hbehind.symm.trans htarget)
    rcases (hnames name hname).elim .inl (hused _ name) with hcolumn | hopen | hstar | hconstraint
    · exact .inl hcolumn
    · exact absurd hopen (by decide +kernel)
    · exact .inr hstar
    · -- users have no foreign key
      exact absurd hconstraint Bool.false_ne_true

end Query

end LinkQuery
