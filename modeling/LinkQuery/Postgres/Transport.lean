import LinkQuery.Page.Fetch
import LinkQuery.Postgres.Binary
import LinkQuery.Postgres.Parameter

/-!
# PostgreSQL as the database

A server takes the text of a statement with its parameters, and answers with a result set or rejects
the statement. `transport` makes it the database of queries: the parameters are given types on the
way there, and the cells are read on the way back.

Reading a cell may stop the program. What is left then is no answer of a database, so
`transportVia` takes it from outside.
-/

namespace LinkQuery.Postgres

/-- What a server answers: the columns with the names of their types, and the rows. -/
structure ResultSet where
  columns : List (String × String)
  rows : List (List Cell)
  deriving DecidableEq, Repr

/-- A server: it answers a statement, or rejects it with a text. -/
abbrev Server (m : Type → Type) := String → List Parameter → m (Except String ResultSet)

namespace ResultSet

/-- A row of values, unless the program stops. Of columns of one name the last one counts, at the
place of the first. -/
def row (decoder : Decoder) (columns : List (String × String)) (cells : List Cell) : Option Row :=
  let members := (columns.zip cells).mapM fun ((name, typeName), cell) =>
    (decodeCell decoder typeName cell).map fun value => (name, value)
  members.map Json.Members.collect

/-- The rows of values, unless the program stops. -/
def toRows (decoder : Decoder) (result : ResultSet) : Option (List Row) :=
  result.rows.mapM (row decoder result.columns)

end ResultSet

/-- The failure that a server's rejection amounts to. -/
def rejection (text : String) : TransportError :=
  ⟨"error returned from database: " ++ text, [text]⟩

/-- A server as the database of queries, with cells read by a decoder. `halted` is what is left if
the program stops while it reads them. -/
def transportVia {m : Type → Type} [Monad m] (decoder : Decoder)
    (halted : m (Except TransportError (List Row))) (server : Server m) : Transport m :=
  fun statement => do
    match ← server statement.sql (statement.params.map Parameter.ofJson) with
    | .error text => pure (.error (rejection text))
    | .ok result =>
      match result.toRows decoder with
      | some rows => pure (.ok rows)
      | none => halted

/-- Stands for the answer of a program that has stopped. -/
def stopped : TransportError := ⟨"stopped while reading an answer", []⟩

/-- A server as the database of queries. -/
def transport {m : Type → Type} [Monad m] (server : Server m) : Transport m :=
  transportVia .binary (pure (.error stopped)) server

end LinkQuery.Postgres
