import LinkQuery.Proofs.Filter.Restriction
import LinkQuery.Query

/-!
# What statements are built of

A statement is built in steps, any of which may fail. For each step it is said here what there is if
the step succeeds; what is proved of statements refers to that, and not to the steps.

* `Outline.exists_of_select` and `Outline.exists_of_selectLinks_cons` are about the select of an
  outline and about the subquery of a link.
* `Sql.SelectStatement.exists_of_build` and `Query.exists_of_build` are about whole statements.
-/

namespace LinkQuery

variable {schema : Schema}

/-! ### Tables and links -/

/-- A table that is found is one of the tables of the schema. -/
theorem Schema.mem_tables_of_table? {name : String} {table : Table}
    (h : schema.table? name = some table) : table ∈ schema.tables :=
  List.mem_of_find?_eq_some h

/-- A table is found under its own name. -/
theorem Schema.name_of_table? {name : String} {table : Table}
    (h : schema.table? name = some table) : table.name = name := by
  simpa using List.find?_some h

/-- Every link of a table comes from one of its foreign keys. -/
theorem Table.exists_key_of_link? {table : Table} {name : String} {link : Link}
    (h : table.link? name = some link) :
    ∃ key ∈ table.foreignKeys.values, key.link? = some link := by
  unfold link? at h
  split at h
  next key hfind =>
    -- the name is that of the column
    exact ⟨key, List.mem_of_find?_eq_some hfind, h⟩
  next =>
    -- the name is that of the constraint
    obtain ⟨key, hget, hkey⟩ := Option.bind_eq_some_iff.1 h
    exact ⟨key, List.mem_map.2 ⟨(name, key), mem_of_lookup_eq_some hget, rfl⟩, hkey⟩

/-! ### Selects of outlines -/

namespace Outline

/-- The columns that an outline delivers for the order of a statement. -/
def orderColumns (outline : Outline) (order : List SortTerm) : List String :=
  if outline.demanded.isEmpty then []
  else (order.filter fun term => !term.isRandom).map (·.column)

variable {table : Table}

/-- What is emitted for an outline: its level, wrapped for each link that is demanded. -/
theorem exists_of_select {correlation : Option Sql.Correlation} {asName : Option String}
    {extra : List String} {outline : Outline} {s : Sql.Select}
    (h : outline.select schema table correlation asName extra = .ok s) :
    ∃ inner, selectLinks schema table (asName.getD table.name) outline.links = .ok inner ∧
      s = enclose
        (.level (ownColumns table outline.columns extra outline.linkNames) inner table.name asName
          correlation outline.condition)
        outline.demanded := by
  obtain ⟨columns, condition, links, demanded⟩ := outline
  rw [select] at h
  obtain ⟨inner, hinner, h⟩ := bind_eq_ok_iff.1 h
  exact ⟨inner, hinner, (Except.ok.inj h).symm⟩

/-- Whether there is a select hangs on the links alone. -/
theorem exists_select_iff {correlation : Option Sql.Correlation} {asName : Option String}
    {extra : List String} {outline : Outline} :
    (∃ s, outline.select schema table correlation asName extra = .ok s) ↔
      ∃ inner, selectLinks schema table (asName.getD table.name) outline.links = .ok inner := by
  constructor
  · rintro ⟨s, hs⟩
    obtain ⟨inner, hinner, -⟩ := exists_of_select hs
    exact ⟨inner, hinner⟩
  · rintro ⟨inner, hinner⟩
    obtain ⟨columns, condition, links, demanded⟩ := outline
    exact ⟨_, bind_eq_ok_iff.2 ⟨inner, hinner, rfl⟩⟩

/-- The first link is resolved and emitted before the others. -/
theorem exists_of_selectLinks_cons {visible name : String} {demanded : Bool} {outline : Outline}
    {rest : List (String × Bool × Outline)} {selects : List (String × Bool × Sql.Select)}
    (h : selectLinks schema table visible ((name, demanded, outline) :: rest) = .ok selects) :
    ∃ link target inner others, table.link? name = some link ∧
      schema.table? link.targetTable = some target ∧
      outline.select schema target (some ⟨link.targetColumn, visible, link.localColumn⟩)
        (if target.name = visible then some (selfLinkAlias name visible) else none) [] = .ok inner ∧
      selectLinks schema table visible rest = .ok others ∧
      selects = (name, demanded, inner) :: others := by
  rw [selectLinks] at h
  split at h
  next => simp at h
  next link hlink =>
    obtain ⟨target, htarget, h⟩ := bind_eq_ok_iff.1 h
    obtain ⟨inner, hinner, h⟩ := bind_eq_ok_iff.1 h
    obtain ⟨others, hothers, h⟩ := bind_eq_ok_iff.1 h
    exact ⟨link, target, inner, others, hlink, Schema.requireTable_eq_ok_iff.1 htarget, hinner,
      hothers, (Except.ok.inj h).symm⟩

end Outline

/-! ### Statements -/

/-- The parts that a statement is built from, once nothing has failed. -/
theorem Sql.SelectStatement.exists_of_build {tableName : String} {selection : Selection}
    {r : Restriction} {order : List SortTerm} {limit : Option (Nat × Nat)} {s : SelectStatement}
    (h : build schema tableName selection r order limit = .ok s) :
    ∃ table, schema.requireTable tableName = .ok table ∧
      (Outline.overlay selection r).select schema table none none
        ((Outline.overlay selection r).orderColumns order) = .ok s.select ∧
      s.order = order ∧ s.limit = limit := by
  obtain ⟨table, htable, h⟩ := bind_eq_ok_iff.1 h
  obtain ⟨-, -, h⟩ := bind_eq_ok_iff.1 h
  obtain ⟨select, hselect, h⟩ := bind_eq_ok_iff.1 h
  obtain rfl := Except.ok.inj h
  exact ⟨table, htable, hselect, rfl, rfl⟩

/-- A query is built from its selection, its filter and the restriction that the filter means. -/
theorem Query.exists_of_build {q : Query} {order : List SortTerm} {limit : Option (Nat × Nat)}
    {s : Sql.SelectStatement} (h : q.build order limit = .ok s) :
    ∃ selection filter r,
      Selection.ofColumns q.schema q.table (q.columns.getD []) = .ok selection ∧
      Filter.ofJson q.filterValue = .ok filter ∧
      Restriction.ofFilter q.schema q.table filter = .ok r ∧
      Sql.SelectStatement.build q.schema q.table selection r order limit = .ok s := by
  obtain ⟨selection, hselection, h⟩ := bind_eq_ok_iff.1 h
  obtain ⟨filter, hfilter, h⟩ := bind_eq_ok_iff.1 h
  obtain ⟨r, hr, h⟩ := bind_eq_ok_iff.1 h
  exact ⟨selection, filter, r, hselection, hfilter, hr, h⟩

end LinkQuery
