import LinkQuery.Path
import LinkQuery.Schema.Lookup

/-!
# Selections

What a query fetches is a tree: some columns of the table itself, and for some of its links a
selection on the table behind the link. The tree groups a list of column paths by their common
beginnings.

* `Selection` is the tree; columns and links stand in the order in which they first appeared, each
  once.
* `Selection.insert` adds the column at the end of a list of links.
* `ColumnPath.resolve` gives a path its meaning on a table. A path through a link whose target is
  not part of the schema has none, and is passed over without an error.
* `Selection.ofColumns` is the selection that a list of written paths describes; the empty list
  describes all columns.
-/

namespace LinkQuery

/-- What to fetch of a row: columns of its own, `*` standing for all of them, and parts of the rows
that its links lead to. -/
structure Selection where
  columns : List String
  links : List (String × Selection)
  deriving Repr, Inhabited

namespace Selection

/-- Nothing. -/
def empty : Selection := ⟨[], []⟩

/-- All columns of the row itself. -/
def everything : Selection := ⟨["*"], []⟩

/-- The selection behind a link. -/
def link? (selection : Selection) (name : String) : Option Selection :=
  selection.links.lookup name

/-- Whether all columns of the row itself are selected. -/
def hasWildcard (selection : Selection) : Bool := selection.columns.contains "*"

/-- Adds a column unless it is there. -/
def addColumn (column : String) (selection : Selection) : Selection :=
  if selection.columns.contains column then selection
  else { selection with columns := selection.columns ++ [column] }

/-- Changes the selection behind a link, starting from nothing at a link that is not there. -/
def changeLink (change : Selection → Selection) (name : String) :
    List (String × Selection) → List (String × Selection)
  | [] => [(name, change empty)]
  | (n, sub) :: rest =>
    if n = name then (n, change sub) :: rest else (n, sub) :: changeLink change name rest

/-- Adds the column that is reached through the given links. -/
def insert (column : String) : List String → Selection → Selection
  | [], selection => selection.addColumn column
  | name :: names, selection =>
    { selection with links := changeLink (insert column names) name selection.links }

@[simp] theorem links_addColumn (column : String) (selection : Selection) :
    (selection.addColumn column).links = selection.links := by
  unfold addColumn
  split <;> rfl

@[simp] theorem insert_nil (column : String) (selection : Selection) :
    insert column [] selection = selection.addColumn column := rfl

end Selection

namespace ColumnPath

/-- The name under which a terminal is selected. -/
def selected (path : ColumnPath) : String :=
  match path.terminal with
  | .column name => name
  | .wildcard => "*"

/-- Follows the given links of a path from `table`: the canonical names of the links and the table
reached, or nothing if a link leads out of the schema. `base` is the table where the path starts. -/
def follow (schema : Schema) (base : String) (path : ColumnPath) :
    List String → Table → Except Error (Option (List String × Table))
  | [], table => .ok (some ([], table))
  | name :: names, table =>
    match table.link? name with
    | none =>
      .error (.unresolved base path.text (.noPathLink name table.name (table.nearLink name)))
    | some link =>
      match schema.table? link.targetTable with
      | none => .ok none
      | some target =>
        (follow schema base path names target).map
          (Option.map fun (hops, last) => (link.name :: hops, last))

/-- The canonical names of the links of a path, if it stays within the schema; its column has to be
one of the table it reaches. -/
def resolve (schema : Schema) (table : Table) (path : ColumnPath) :
    Except Error (Option (List String)) := do
  match ← path.follow schema table.name path.links table with
  | none => .ok none
  | some (hops, last) =>
    match path.terminal with
    | .wildcard => .ok (some hops)
    | .column name =>
      last.requireColumn table.name path.text name
      .ok (some hops)

end ColumnPath

namespace Selection

/-- Adds what a path names. -/
def addPath (schema : Schema) (table : Table) (selection : Selection) (path : ColumnPath) :
    Except Error Selection := do
  match ← path.resolve schema table with
  | none => .ok selection
  | some hops => .ok (selection.insert path.selected hops)

/-- The selection that paths on a table describe. -/
def ofPaths (schema : Schema) (tableName : String) (paths : List ColumnPath) :
    Except Error Selection := do
  let table ← schema.requireTable tableName
  if paths.isEmpty then .ok everything else paths.foldlM (addPath schema table) empty

/-- The selection that written paths on a table describe. -/
def ofColumns (schema : Schema) (tableName : String) (columns : List String) :
    Except Error Selection := do
  ofPaths schema tableName (← columns.mapM ColumnPath.parse)

end Selection

end LinkQuery
