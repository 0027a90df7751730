import LinkQuery.Outline
import LinkQuery.Sql.Select

/-!
# Selects from outlines

An outline becomes a select by looking up the names that it leaves open: the link behind each name,
the table the link leads to, the columns of that table.

A linked row is correlated with the row of the enclosing level, which is visible under the name of
its table. Should a link lead to a table of that very name, the inner table takes an alias, so that
the name keeps referring to the outer row.

* `Outline.ownColumns` are the columns fetched at a level: the primary key first, then what is asked
  for. A column is left out where a link of its name is included.
* `Outline.select` is the select of an outline.
* `Sql.SelectStatement.build` adds an order and a limit. The order may name only columns of the
  table that are delivered as they are, so not the links that are included.
-/

namespace LinkQuery

/-- The alias of a linked table that has the name under which the enclosing row is visible. -/
def selfLinkAlias (link enclosing : String) : String :=
  if link = enclosing then link ++ "_link" else link

namespace Outline

/-- The columns that a requested name stands for, at a level that includes `links`. -/
def requestedColumns (table : Table) (links : List String) (name : String) :
    List Sql.OutputColumn :=
  if name = "*" then
    if table.isOpen then [.star]
    else
      (table.columns.filter fun c => !links.contains c.name).map fun c => .column c.name
  else if links.contains name then []
  else [.column name]

/-- The columns that a level delivers of its own table: the primary key, unless all columns of an
open table are asked for, then the columns requested and the columns `extra`, each once. -/
def ownColumns (table : Table) (columns extra links : List String) : List Sql.OutputColumn :=
  let key :=
    if table.isOpen && columns.contains "*" then [] else [Sql.OutputColumn.column table.primaryKey]
  (key ++ (columns ++ extra).flatMap (requestedColumns table links)).eraseDups

/-- Encloses a select in the tests that the named values are there, the first one innermost. -/
def enclose (select : Sql.Select) (demanded : List String) : Sql.Select :=
  demanded.foldl .whereLinked select

mutual

/-- The select of an outline of `table`, which delivers the columns `extra` besides. -/
def select (schema : Schema) (table : Table) (correlation : Option Sql.Correlation)
    (asName : Option String) (extra : List String) : Outline → Except Error Sql.Select
  | ⟨columns, condition, links, demanded⟩ => do
    let inner ← selectLinks schema table (asName.getD table.name) links
    let own := ownColumns table columns extra (links.map (·.1))
    .ok (enclose (.level own inner table.name asName correlation condition) demanded)

/-- The selects of the linked rows of a level, whose row is visible under the name `visible`. -/
def selectLinks (schema : Schema) (table : Table) (visible : String) :
    List (String × Bool × Outline) → Except Error (List (String × Bool × Sql.Select))
  | [] => .ok []
  | (name, demanded, outline) :: rest => do
    match table.link? name with
    | none => .error (.unresolved table.name name .linkLost)
    | some link =>
      let target ← schema.requireTable link.targetTable
      let asName := if target.name = visible then some (selfLinkAlias name visible) else none
      let inner ←
        select schema target (some ⟨link.targetColumn, visible, link.localColumn⟩) asName [] outline
      let others ← selectLinks schema table visible rest
      .ok ((name, demanded, inner) :: others)

end

end Outline

namespace Sql.SelectStatement

/-- Requires that the rows of `table` can be ordered by a term, where the outline includes the links
of the given names. -/
def checkTerm (table : Table) (tableName : String) (links : List String) (term : SortTerm) :
    Except Error Unit := do
  if term.isRandom then .ok ()
  else
    table.requireColumn tableName term.column term.column
    if links.contains term.column then
      .error (.unresolved tableName term.column .sortedLink)
    else .ok ()

/-- The statement for a selection on a table, restricted, ordered and limited. Where rows are
selected by their links, the order sees only what the enclosed select delivers, so that delivers the
columns of the order as well. -/
def build (schema : Schema) (tableName : String) (selection : Selection) (restriction : Restriction)
    (order : List SortTerm) (limit : Option (Nat × Nat)) : Except Error SelectStatement := do
  let table ← schema.requireTable tableName
  let outline := Outline.overlay selection restriction
  order.forM (checkTerm table tableName outline.linkNames)
  let extra :=
    if outline.demanded.isEmpty then []
    else (order.filter fun term => !term.isRandom).map (·.column)
  .ok ⟨← outline.select schema table none none extra, order, limit⟩

end Sql.SelectStatement

end LinkQuery
