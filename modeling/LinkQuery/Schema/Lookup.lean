import LinkQuery.Error
import LinkQuery.Schema.Basic
import LinkQuery.Text.Blank
import LinkQuery.Text.EditDistance

/-!
# Names of a schema

A query mentions tables, columns and links by name. Here these names get their meaning, and a name
without one gets an error that suggests a known name close to it.

* `Schema.requireTable` finds a table or fails.
* `Table.checkColumn` accepts the names that may stand for a column: those of an open table, `*`,
  the primary key, the declared columns and the links.
* `Table.link?` finds a link, by the name of its column or else by the name of its constraint.
* `Table.isTextComparable` tells whether a column can be compared with a text as it is, which hangs
  on its declared type.
-/

namespace LinkQuery

/-- The table of the given name, or the failure to find one. -/
def Schema.requireTable (schema : Schema) (name : String) : Except Error Table :=
  match schema.table? name with
  | some table => .ok table
  | none => .error (.unknownTable name (Text.suggestion name (schema.tables.map (·.name))))

/-! ### Types that compare with texts -/

/-- The types whose values compare with a text without a cast. -/
def textTypes : List String :=
  ["text", "varchar", "character varying", "char", "character", "bpchar", "citext", "name",
    "string", "email", "link"]

/-- A letter in lower case, where that is a letter of ASCII: this concerns the capitals of ASCII and
the Kelvin sign. Other characters cannot occur in the name of a text type. -/
def asciiLower (c : Char) : Char := if c = '\u212A' then 'k' else c.toLower

/-- Whether a type is one of the text types, written in any case and with or without a length in
parentheses. -/
def isTextType (typeName : String) : Bool :=
  let lower := (Text.trim typeName).toList.map asciiLower
  let base := String.ofList (lower.takeWhile (· ≠ '('))
  textTypes.contains (Text.trim base)

namespace Table

/-! ### Columns -/

/-- The name of the primary key: the first column marked as one, or the default name. -/
def primaryKey (table : Table) : String :=
  match table.columns.find? (·.primaryKey) with
  | some column => column.name
  | none => defaultPrimaryKey

/-- A table without declared columns, whose columns are not checked. -/
def isOpen (table : Table) : Bool := table.columns.isEmpty

/-- The declared column of the given name. -/
def column? (table : Table) (name : String) : Option Column :=
  table.columns.find? (·.name = name)

/-- Whether a text can be compared with the column without a cast. That is assumed of a column that
is not declared. -/
def isTextComparable (table : Table) (column : String) : Bool :=
  match table.column? column with
  | some c => isTextType c.typeName
  | none => true

/-! ### Links -/

/-- The link of the given name: the first foreign key over just this column, or else the one whose
constraint has this name. A key over several columns is no link. -/
def link? (table : Table) (name : String) : Option Link :=
  match table.foreignKeys.values.find? (·.columns = [name]) with
  | some key => key.link?
  | none => (table.foreignKeys.get? name).bind (·.link?)

/-- The names of the links, in the order of their constraints. -/
def linkNames (table : Table) : List String :=
  table.foreignKeys.values.filterMap fun key => key.link?.map (·.name)

/-- A link whose name is close to `name`. -/
def nearLink (table : Table) (name : String) : Option String :=
  Text.suggestion name table.linkNames

/-! ### Checking the name of a column -/

/-- Whether a name may stand for a column of the table. -/
def acceptsColumn (table : Table) (column : String) : Bool :=
  table.isOpen || column = "*" || column = table.primaryKey || (table.column? column).isSome ||
    (table.link? column).isSome

/-- Why a name cannot stand for a column of the table, if it cannot. -/
def checkColumn (table : Table) (column : String) : Except NameFault Unit :=
  if table.acceptsColumn column then .ok ()
  else .error (.noColumn column table.name (Text.suggestion column (table.columns.map (·.name))))

/-- Requires that `column` may stand for a column, where the query names it on `base` as `path`. -/
def requireColumn (table : Table) (base path column : String) : Except Error Unit :=
  (table.checkColumn column).mapError (.unresolved base path)

end Table

end LinkQuery
