import LinkQuery.Emit
import LinkQuery.Filter.Json
import LinkQuery.Page.Window

/-!
# Queries

A query describes rows of one table: what to fetch of them, which of them, and in which order. It is
a value that every operation leaves as it is and derives a new one from, so queries can branch off
from each other freely. Nothing is checked before a query is compiled.

* `Query.addFilter` and its relatives narrow a query, `Query.addSort` refines its order, and
  `Query.select` replaces what it fetches.
* `Query.filterValue` is the filter of all layers together.
* `Query.compile` is the statement for all rows, `Query.compilePage` the one for a window of them.
-/

namespace LinkQuery

open Json (Value)

/-- A description of rows of a table. -/
structure Query where
  schema : Schema
  table : String
  /-- The filters added, first one first. All of them have to hold. -/
  layers : List Value
  sort : List SortTerm
  /-- The paths to fetch; all columns of the table itself if none were ever given. -/
  columns : Option (List String)
  deriving DecidableEq, Repr

namespace Query

/-- All rows of a table. Whether the schema has such a table is not asked before compiling. -/
def new (schema : Schema) (table : String) : Query := ⟨schema, table, [], [], none⟩

/-- All rows of a table that the schema has. -/
def ofTable (schema : Schema) (table : String) : Except Error Query := do
  let found ← schema.requireTable table
  .ok (new schema found.name)

/-- Adds a filter. -/
def addFilter (filter : Value) (q : Query) : Query := { q with layers := q.layers ++ [filter] }

/-- Adds the filter that a column has a value. -/
def addColumnFilter (column : String) (value : Value) (q : Query) : Query :=
  q.addFilter (.object [(column, value)])

/-- Adds a combination of filters. -/
def addCombined (combinator : Combinator) (filters : List Value) (q : Query) : Query :=
  q.addColumnFilter combinator.key (.array filters)

/-- Adds a term to the order, to decide between rows that the earlier terms leave equal. -/
def addSort (term : SortTerm) (q : Query) : Query := { q with sort := q.sort ++ [term] }

/-- Sets the paths to fetch. -/
def select (columns : List String) (q : Query) : Query := { q with columns := some columns }

/-- The filter of a query: all layers together. -/
def filterValue (q : Query) : Value :=
  match q.layers with
  | [] => .object []
  | [layer] => layer
  | layers => .object [(Combinator.all.key, .array layers)]

/-! ### Compiling -/

/-- The statement with a given order and limit. -/
def build (q : Query) (order : List SortTerm) (limit : Option (Nat × Nat)) :
    Except Error Sql.SelectStatement := do
  let selection ← Selection.ofColumns q.schema q.table (q.columns.getD [])
  let filter ← Filter.ofJson q.filterValue
  let restriction ← Restriction.ofFilter q.schema q.table filter
  Sql.SelectStatement.build q.schema q.table selection restriction order limit

/-- The statement for all rows. -/
def compile (q : Query) : Except Error Sql.Statement := (q.build q.sort none).map (·.render)

/-- The order of pages: that of the query, completed by the primary key so that no two rows are
equal in it. -/
def pageOrder (key : String) (sort : List SortTerm) : List SortTerm :=
  if sort.any (·.column = key) then sort else sort ++ [.asc key]

/-- The order in which the rows of a window are fetched. A window at the end is fetched in the
opposite order, where it is a window at the start. -/
def fetchOrder (anchor : Anchor) (order : List SortTerm) : List SortTerm :=
  match anchor with
  | .front => order
  | .back => order.map (·.reversed)

/-- How many rows to fetch for a window, and how many to leave out. One row more than the window has
shows whether further rows follow; before a window at the end the offset shows that. -/
def fetchLimit (w : Window) : Nat × Nat :=
  match w.anchor with
  | .front => (w.size + 1, w.offset)
  | .back => (w.size, w.offset)

/-- The statement for the rows of a window. -/
def buildPage (q : Query) (w : Window) : Except Error Sql.SelectStatement := do
  w.check.mapError .invalidPage
  let table ← q.schema.requireTable q.table
  q.build (fetchOrder w.anchor (pageOrder table.primaryKey q.sort)) (some (fetchLimit w))

/-- The finished statement for the rows of a window. -/
def compilePage (q : Query) (w : Window) : Except Error Sql.Statement :=
  (q.buildPage w).map (·.render)

@[simp] theorem filterValue_new (schema : Schema) (table : String) :
    (new schema table).filterValue = .object [] := rfl

end Query

end LinkQuery
