import LinkQuery.Document.Decode
import LinkQuery.Json.Dialect
import LinkQuery.Page.Window
import LinkQuery.SortTerm
import LinkQuery.Text.Base64Url
import LinkQuery.Text.Blank

/-!
# Cursors

A cursor is a page to come back to: the query, without its schema, and a window of it. It is handed
out as a token, which is the compact JSON text of the cursor in base64 with the URL-safe alphabet.

* `Cursor.encode` makes the token, `Cursor.decode` reads one. Blanks around a token are dropped.
* A token carries a version, and a cursor with another version or with a window out of range is not
  accepted.
-/

namespace LinkQuery

open Json (Value)

/-- A page of a query. -/
structure Cursor where
  table : String
  filter : Value
  sort : List SortTerm
  columns : Option (List String)
  window : Window
  deriving DecidableEq, Repr

/-- The version of cursors. -/
def cursorVersion : Nat := 1

/-! ### Writing -/

/-- How a direction is written. -/
def Direction.text : Direction → String
  | asc => "asc"
  | desc => "desc"
  | random => "random"

/-- How an anchor is written. -/
def Anchor.text : Anchor → String
  | front => "start"
  | back => "end"

/-- Writes a term of an order. -/
def SortTerm.toJson (term : SortTerm) : Value :=
  .object [("column", .text term.column), ("direction", .text term.direction.text)]

/-- Writes a window. -/
def Window.toJson (w : Window) : Value :=
  .object [("anchor", .text w.anchor.text), ("offset", .int w.offset), ("size", .int w.size)]

/-- Writes the columns to fetch, null standing for the default. -/
def columnsToJson : Option (List String) → Value
  | none => .null
  | some columns => .array (columns.map .text)

namespace Cursor

/-- The parts of a cursor, apart from its version. -/
def members (c : Cursor) : Json.Members :=
  [("table", .text c.table), ("filter", c.filter), ("sort", .array (c.sort.map SortTerm.toJson)),
    ("columns", columnsToJson c.columns), ("window", c.window.toJson)]

/-- Writes a cursor with its version. -/
def toJson (c : Cursor) : Value := .object (("v", .int cursorVersion) :: c.members)

/-- The token of a cursor. -/
def encode (c : Cursor) : String :=
  String.ofList (Text.Base64Url.encode c.toJson.compact.toUTF8.toList)

end Cursor

/-! ### Reading -/

/-- The directions, as they are written. -/
def Direction.alternatives : List (String × Direction) :=
  [("asc", .asc), ("desc", .desc), ("random", .random)]

/-- The anchors, as they are written. -/
def Anchor.alternatives : List (String × Anchor) := [("start", .front), ("end", .back)]

/-- Reads a term of an order. -/
def SortTerm.ofDocument? (d : Document) : Option SortTerm := do
  match ← d.fields? Json.dialect [["column"], ["direction"]] with
  | [column, direction] =>
    some
      { column := ← required Document.text? column
        direction := ← required (Document.choice? Json.dialect Direction.alternatives) direction }
  | _ => none

/-- Reads a window. -/
def Window.ofDocument? (d : Document) : Option Window := do
  match ← d.fields? Json.dialect [["anchor"], ["offset"], ["size"]] with
  | [anchor, offset, size] =>
    some
      { anchor := ← required (Document.choice? Json.dialect Anchor.alternatives) anchor
        offset := ← required (Document.natUpTo? maxWord) offset
        size := ← required (Document.natUpTo? maxWord) size }
  | _ => none

/-- Reads the columns to fetch. -/
def columnsOfDocument? : Document → Option (Option (List String))
  | .null => some none
  | d => (d.listOf? Document.text?).map some

namespace Cursor

/-- How deep the filter of a cursor may be nested: one level less than a text, for the cursor is
around it. -/
def maxFilterDepth : Nat := Value.maxDepth - 1

/-- Reads a cursor, and its version. -/
def ofDocument? (d : Document) : Option (Nat × Cursor) := do
  match ← d.fields? Json.dialect
      [["v"], ["table"], ["filter"], ["sort"], ["columns"], ["window"]] with
  | [version, table, filter, sort, columns, window] =>
    let version ← required (Document.natUpTo? 255) version
    some
      (version,
        { table := ← required Document.text? table
          filter := ← required (Value.ofDocument? maxFilterDepth) filter
          sort := ← required (Document.listOf? SortTerm.ofDocument?) sort
          columns := ← defaulted columnsOfDocument? none columns
          window := ← required Window.ofDocument? window })
  | _ => none

/-- The bytes inside a token. -/
def tokenBytes? (token : String) : Option ByteArray :=
  (Text.Base64Url.decode? (Text.trim token).toList).map fun bytes => ⟨bytes.toArray⟩

/-- The cursor of a token. -/
def decode (token : String) : Except Error Cursor :=
  match (tokenBytes? token).bind fun bytes => (Json.readBytes? bytes).bind ofDocument? with
  | none => .error (.invalidCursor .undecodable)
  | some (version, cursor) =>
    if version ≠ cursorVersion then .error (.invalidCursor (.version version))
    else
      match cursor.window.check with
      | .error fault => .error (.invalidCursor (.window fault))
      | .ok () => .ok cursor

end Cursor

end LinkQuery
