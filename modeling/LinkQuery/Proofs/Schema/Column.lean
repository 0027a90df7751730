import LinkQuery.Proofs.Schema.LinkName

/-!
# Names of columns

A table has the columns that are declared, its primary key, and the columns of its foreign keys. The
check of a name for a column lets pass more names than these. It asks whether a link of the name is
found, and a link is found under the name of its constraint too; and it lets `*` pass, which stands
for all columns only where it is selected.

* `Table.hasColumn` are the columns of a table.
* `Table.acceptsColumn_iff_of_not_hasColumn`: the other names that a declared table accepts are `*`
  and the constraints of its links.
* `Schema.tableAlong?` is the table that names of links lead to.
-/

namespace LinkQuery

namespace Table

/-- Whether a table has a column: it is declared, or the primary key, or a foreign key is over it.
-/
def hasColumn (table : Table) (name : String) : Bool :=
  (table.column? name).isSome || name = table.primaryKey ||
    table.foreignKeys.values.any (·.columns.contains name)

/-- Whether a name is that of the constraint of a link. -/
def isLinkConstraint (table : Table) (name : String) : Bool :=
  ((table.foreignKeys.get? name).bind (·.link?)).isSome

variable {table : Table} {name : String}

theorem hasColumn_primaryKey (table : Table) : table.hasColumn table.primaryKey := by
  simp [hasColumn]

theorem hasColumn_of_mem_columns {column : Column} (h : column ∈ table.columns) :
    table.hasColumn column.name := by
  have hfound : (table.column? column.name).isSome :=
    List.find?_isSome.2 ⟨column, h, by simp⟩
  simp [hasColumn, hfound]

theorem hasColumn_of_mem_key {key : ForeignKey} (hkey : key ∈ table.foreignKeys.values)
    (h : name ∈ key.columns) : table.hasColumn name := by
  have hany : table.foreignKeys.values.any (·.columns.contains name) = true :=
    List.any_eq_true.2 ⟨key, hkey, List.contains_iff_mem.2 h⟩
  rw [hasColumn, hany, Bool.or_true]

/-- The column of a link is one of its table. -/
theorem hasColumn_of_link? {link : Link} (h : table.link? name = some link) :
    table.hasColumn link.localColumn := by
  obtain ⟨key, hkey, hlink⟩ := exists_key_of_link? h
  refine hasColumn_of_mem_key hkey ?_
  rw [ForeignKey.columns_of_link? hlink]
  exact List.mem_singleton.2 rfl

/-- No foreign key is over a name that is no column, so a link of the name is found by its
constraint. -/
theorem link?_eq_of_not_hasColumn (h : ¬ table.hasColumn name) :
    table.link? name = (table.foreignKeys.get? name).bind (·.link?) := by
  have hnone : table.foreignKeys.values.find? (·.columns = [name]) = none := by
    refine List.find?_eq_none.2 fun key hkey hcolumns => h (hasColumn_of_mem_key hkey ?_)
    rw [of_decide_eq_true hcolumns]
    exact List.mem_singleton.2 rfl
  rw [link?, hnone]

/-- **What passes for a column** of a table with declared columns, and is none: `*`, and the names
of the constraints of links. -/
theorem acceptsColumn_iff_of_not_hasColumn (hopen : ¬ table.isOpen) (h : ¬ table.hasColumn name) :
    table.acceptsColumn name ↔ name = "*" ∨ table.isLinkConstraint name := by
  rw [acceptsColumn, link?_eq_of_not_hasColumn h, isLinkConstraint]
  simp only [hasColumn, Bool.or_eq_true, decide_eq_true_eq, not_or] at h
  simp [hopen, h.1.1, h.1.2]

/-- A name that a table accepts is one of its columns, unless the table is open or the name is no
column's. -/
theorem hasColumn_or_of_acceptsColumn (h : table.acceptsColumn name) :
    table.hasColumn name ∨ table.isOpen ∨ name = "*" ∨ table.isLinkConstraint name :=
  or_iff_not_imp_left.2 fun hcolumn => or_iff_not_imp_left.2 fun hopen =>
    (acceptsColumn_iff_of_not_hasColumn hopen hcolumn).1 h

end Table

/-! ### Tables along links -/

namespace Schema

variable {schema : Schema} {table : Table}

/-- The table that names of links lead to, from table to table. -/
def tableAlong? (schema : Schema) : List String → Table → Option Table
  | [], table => some table
  | name :: names, table => do
    let link ← table.link? name
    let target ← schema.table? link.targetTable
    schema.tableAlong? names target

theorem tableAlong?_cons_iff {name : String} {names : List String} {last : Table} :
    schema.tableAlong? (name :: names) table = some last ↔
      ∃ link target, table.link? name = some link ∧
        schema.table? link.targetTable = some target ∧
        schema.tableAlong? names target = some last := by
  simp [tableAlong?, Option.bind_eq_some_iff]

/-- Every link starts from a column of its table. -/
theorem hasColumn_of_linksAlong? {names : List String} {steps : List (Table × Link)}
    (h : schema.linksAlong? names table = some steps) :
    ∀ step ∈ steps, step.1.hasColumn step.2.localColumn := by
  induction names generalizing table steps with
  | nil =>
    obtain rfl := Option.some.inj h
    exact List.forall_mem_nil _
  | cons name names ih =>
    -- the link taken is declared at its table, and the other steps start at its target
    obtain ⟨link, target, rest, hlink, -, hrest, rfl⟩ := linksAlong?_cons_iff.1 h
    exact List.forall_mem_cons.2 ⟨Table.hasColumn_of_link? hlink, ih hrest⟩

/-- Names that lead along the same links lead to the same table. -/
theorem tableAlong?_eq_of_linksAlong? {names names' : List String} {steps : List (Table × Link)}
    (h : schema.linksAlong? names table = some steps)
    (h' : schema.linksAlong? names' table = some steps) :
    schema.tableAlong? names table = schema.tableAlong? names' table := by
  -- both lists take the same links one by one, so they pass the same tables
  induction names generalizing names' table steps with
  | nil =>
    obtain rfl := Option.some.inj h
    cases names' with
    | nil => rfl
    -- one list has ended, so the other takes no step either
    | cons name' names' =>
      obtain ⟨_, _, _, -, -, -, heq⟩ := linksAlong?_cons_iff.1 h'
      cases heq
  | cons name names ih =>
    obtain ⟨link, target, rest, hlink, htarget, hrest, rfl⟩ := linksAlong?_cons_iff.1 h
    cases names' with
    | nil => cases h'
    | cons name' names' =>
      obtain ⟨link', target', rest', hlink', htarget', hrest', heq⟩ := linksAlong?_cons_iff.1 h'
      obtain ⟨hstep, rfl⟩ := List.cons.inj heq
      obtain rfl : link' = link := (Prod.mk.inj hstep).2
      obtain rfl := Option.some.inj (htarget.symm.trans htarget')
      rw [tableAlong?, tableAlong?, hlink, hlink', Option.bind_eq_bind, Option.bind_some,
        Option.bind_eq_bind, Option.bind_some, htarget]
      exact ih hrest hrest'

end Schema

end LinkQuery
