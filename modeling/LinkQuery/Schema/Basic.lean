import LinkQuery.NameMap

/-!
# Schemas

A schema describes the tables of a database: their columns, and the foreign keys by which a row of
one table refers to a row of another. It is given from outside and never changes.

* A `Table` has columns in a fixed order and foreign keys under the names of their constraints. A
  table without declared columns is *open*: nothing is known about its columns, so any name passes.
* A `ForeignKey` over a single column is a `Link`: queries follow it by the name of that column.
* `Schema.table?` finds a table by its name.
-/

namespace LinkQuery

/-- The name of the primary key of a table that does not mark one. -/
def defaultPrimaryKey : String := "xata_id"

/-- A column. -/
structure Column where
  name : String
  typeName : String
  nullable : Bool
  primaryKey : Bool
  deriving DecidableEq, Repr

/-- What happens to a row when the row it refers to is deleted. -/
inductive OnDelete where
  | noAction
  | restrict
  | cascade
  | setNull
  | setDefault
  deriving DecidableEq, Repr

/-- A reference from columns of one table to columns of another. -/
structure ForeignKey where
  name : String
  columns : List String
  targetTable : String
  targetColumns : List String
  onDelete : OnDelete
  deriving DecidableEq, Repr

/-- A table. -/
structure Table where
  name : String
  columns : List Column
  /-- The foreign keys under the names of their constraints, which need not be the names that the
  keys themselves carry. -/
  foreignKeys : NameMap ForeignKey
  deriving DecidableEq, Repr

/-- A database. -/
structure Schema where
  tables : List Table
  deriving DecidableEq, Repr

/-- A foreign key from a single column to a single column, which a query can follow. -/
structure Link where
  localColumn : String
  targetTable : String
  targetColumn : String
  deriving DecidableEq, Repr

/-- The name of a link in queries: that of its local column. -/
def Link.name (link : Link) : String := link.localColumn

/-- The link that a foreign key forms, unless it spans several columns. -/
def ForeignKey.link? (key : ForeignKey) : Option Link :=
  match key.columns, key.targetColumns with
  | [localColumn], [targetColumn] => some ⟨localColumn, key.targetTable, targetColumn⟩
  | _, _ => none

/-- The table of the given name; the first one, should there be several. -/
def Schema.table? (schema : Schema) (name : String) : Option Table :=
  schema.tables.find? (·.name = name)

/-! ### Building tables -/

namespace Table

/-- A table without columns. -/
def named (name : String) : Table := ⟨name, [], .empty⟩

/-- Adds a column that may be null. -/
def addColumn (name typeName : String) (table : Table) : Table :=
  { table with columns := table.columns ++ [⟨name, typeName, true, false⟩] }

/-- Adds a column that is a primary key. -/
def addPrimaryKey (name typeName : String) (table : Table) : Table :=
  { table with columns := table.columns ++ [⟨name, typeName, false, true⟩] }

/-- Adds a foreign key under its own name. -/
def addForeignKey (key : ForeignKey) (table : Table) : Table :=
  { table with foreignKeys := table.foreignKeys.insert key.name key }

/-- Adds a column that refers to the default primary key of another table. -/
def addLink (column target : String) (table : Table) : Table :=
  let key : ForeignKey :=
    { name := table.name ++ "_" ++ column ++ "_fkey"
      columns := [column]
      targetTable := target
      targetColumns := [defaultPrimaryKey]
      onDelete := .setNull }
  (table.addColumn column "link").addForeignKey key

end Table

end LinkQuery
