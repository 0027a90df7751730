import LinkQuery.Json.Printer

/-!
# Parameters for PostgreSQL

Each parameter of a statement is sent with a type, which follows from the kind of its value: an
integer of 64 bits, or else a float for numbers; text for texts; JSON for arrays and objects. Null
goes as an absent text.
-/

namespace LinkQuery.Postgres

open Json (Value)

/-- A parameter with its type. -/
inductive Parameter where
  | absent
  | bool (value : Bool)
  /-- An integer that fits into 64 bits with a sign. -/
  | int8 (value : Int)
  | float8 (value : Binary64)
  | text (value : String)
  | jsonb (value : Value)
  deriving DecidableEq, Repr

namespace Parameter

/-- The parameter for a value. An integer that does not fit into 64 bits with a sign is sent as the
nearest float; one too large even for that is absent. -/
def ofJson : Value → Parameter
  | .null => absent
  | .bool value => bool value
  | .int value =>
    if fitsSigned value then int8 value
    else
      match Binary64.ofInt value with
      | some x => float8 x
      | none => absent
  | .float value => float8 value
  | .text value => text value
  | .array items => jsonb (.array items)
  | .object members => jsonb (.object members)

/-- The name of the type of a parameter. -/
def typeName : Parameter → String
  | absent => "TEXT"
  | bool _ => "BOOL"
  | int8 _ => "INT8"
  | float8 _ => "FLOAT8"
  | text _ => "TEXT"
  | jsonb _ => "JSONB"

/-- The value that is sent; JSON is sent as its compact text. -/
def sent : Parameter → Value
  | absent => .null
  | bool value => .bool value
  | int8 value => .int value
  | float8 value => .float value
  | text value => .text value
  | jsonb value => .text value.compact

end Parameter

end LinkQuery.Postgres
