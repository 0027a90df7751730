import LinkQuery.CommandLine.Arguments
import LinkQuery.CommandLine.Program
import LinkQuery.Text.Blank

/-!
# What the program prints

Statements, pages, schemas and the parts of a query are printed for reading, or, where the format
asks for that, as JSON with one part a line.

* `printStatement` prints a statement with its parameters.
* `printPage` prints a page: its records in columns, and how to go on.
* `printTables` prints a schema.
* `printSelection` prints a selection as a tree.
-/

namespace LinkQuery.CommandLine

open Json (Value)
open Report (line)

/-- A text that is filled up with blanks to the given width. -/
def padRight (width : Nat) (s : String) : String :=
  s ++ String.ofList (List.replicate (width - s.length) ' ')

/-! ### Statements -/

/-- Prints the parameters of a statement with their numbers, which start at `index`. -/
def printParams (index : Nat) : List Value → Report Unit
  | [] => pure ()
  | value :: rest => do
    line ("  " ++ Sql.placeholder index ++ " = " ++ value.compact)
    printParams (index + 1) rest

/-- Prints the parameters of a statement under a heading, if there are any. -/
def printBindings (params : List Value) : Report Unit := do
  if params.isEmpty then pure ()
  else
    line ""
    line "Bindings:"
    printParams 1 params

/-- A statement as JSON. -/
def statementJson (s : Sql.Statement) : Value :=
  .object [("sql", .text s.sql), ("params", .array s.params)]

/-- Prints a statement. -/
def printStatement (s : Sql.Statement) : Format → Report Unit
  | .json => line (statementJson s).pretty
  | .table => do
    line s.sql
    printBindings s.params

/-! ### Pages -/

/-- A value as it stands in a column. -/
def cellText : Value → String
  | .null => "NULL"
  | .text s => s
  | value => value.compact

/-- The columns of records, which are those of the first one, and the texts in them. A record that
does not have a column has an empty text there. -/
def cells (header : List String) (records : List Row) : List (List String) :=
  records.map fun row =>
    header.map fun column => ((Json.Members.get? row column).map cellText).getD ""

/-- The widths that let every text fit into its column. -/
def widths (rows : List (List String)) : List Nat :=
  match rows with
  | [] => []
  | first :: rest =>
    rest.foldl (fun ws row => List.zipWith max ws (row.map String.length)) (first.map String.length)

/-- The texts of a row, each filled up to the width of its column. -/
def rowText (ws : List Nat) (row : List String) : String :=
  Text.trimEnd (String.intercalate "  " (List.zipWith padRight ws row))

/-- The lines for records: the names of the columns, and a line for each record. -/
def recordLines : List Row → Option (List String)
  | [] => none
  | first :: rest =>
    let header := first.map (·.1)
    let rows := header :: cells header (first :: rest)
    some (rows.map (rowText (widths rows)))

/-- How an anchor is printed. -/
def anchorText : Anchor → String
  | .front => "Start"
  | .back => "End"

/-- A page as JSON. -/
def pageJson (p : Page) : Value :=
  .object
    [("records", .array (p.records.map .object)),
      ("meta", .object [("cursor", .text p.cursor), ("more", .bool p.more)])]

/-- Prints a page. -/
def printPage (p : Page) : Format → Report Unit
  | .json => line (pageJson p).pretty
  | .table => do
    match recordLines p.records with
    | none => line "(empty page)"
    | some lines => lines.forM line
    line ""
    line ("records: " ++ toString p.records.length ++ "  window: " ++ anchorText p.window.anchor ++
      " +" ++ toString p.window.offset)
    line ("cursor: " ++ p.cursor)
    if p.more then line "more rows follow (pass --after <cursor>)" else pure ()

/-! ### Schemas -/

/-- Prints a column, with where its link leads if it is one. -/
def printColumn (table : Table) (column : Column) : Report Unit :=
  let start := "    " ++ column.name ++ " " ++ column.typeName
  match table.link? column.name with
  | some link => line (start ++ " → " ++ link.targetTable ++ "." ++ link.targetColumn)
  | none => line start

/-- Prints a table. -/
def printTable (table : Table) : Report Unit := do
  line ""
  line ("  " ++ table.name ++ " (pk: " ++ table.primaryKey ++ ")")
  if table.isOpen then line "    (no declared columns)" else pure ()
  table.columns.forM (printColumn table)

/-- Prints a schema. -/
def printTables (schema : Schema) : Report Unit := do
  line "📚 Tables"
  schema.tables.forM printTable

/-! ### Parts of queries -/

/-- The blanks in front of a line at the given level. -/
def indent (level : Nat) : String := String.ofList (List.replicate (2 * level) ' ')

mutual

/-- Prints a selection at the given level. -/
def printSelection (level : Nat) : Selection → Report Unit
  | ⟨columns, links⟩ => do
    columns.forM fun column => line (indent level ++ "• " ++ column)
    printLinks level links

/-- Prints the parts of a selection behind links. -/
def printLinks (level : Nat) : List (String × Selection) → Report Unit
  | [] => pure ()
  | (name, selection) :: rest => do
    line (indent level ++ "↳ " ++ name)
    printSelection (level + 1) selection
    printLinks level rest

end

/-- How a direction is printed. -/
def directionText : Direction → String
  | .asc => "Asc"
  | .desc => "Desc"
  | .random => "Random"

/-- Prints a term of an order. -/
def printSort (term : SortTerm) : Report Unit :=
  line ("  Sort: " ++ term.column ++ " " ++ directionText term.direction)

end LinkQuery.CommandLine
