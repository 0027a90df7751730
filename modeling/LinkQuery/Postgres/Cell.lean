import LinkQuery.Calendar
import LinkQuery.Json.Value

/-!
# Cells as JSON values

The cells of a result are read by a library, which is not part of this program: asked for a value
of some kind, it checks the type of the column and reads the bytes. What the program does is to
choose the kind, by the name of the type, and to turn what it gets into JSON. What has no
counterpart in JSON is written as text: identifiers, dates, times.

* `Kind` are the kinds of values that are asked for, and `Kind.ofTypeName` is the choice.
* `Decoder` is such a library.
* `decodeCell` is the value of a cell. A cell that the library refuses to read is null, as is an
  absent cell.
-/

namespace LinkQuery.Postgres

open Json (Value)

/-- The bytes of a cell, if it is not absent. -/
abbrev Cell := Option (List UInt8)

/-! ### Kinds of values -/

/-- An identifier of sixteen bytes. -/
structure Uuid where
  bytes : List UInt8
  length_bytes : bytes.length = 16
  deriving DecidableEq, Repr

/-- The text of an identifier: hexadecimal digits with hyphens between. -/
def Uuid.text (id : Uuid) : String :=
  let hex (b : UInt8) : List Char := [Nat.digitChar (b.toNat / 16), Nat.digitChar (b.toNat % 16)]
  let digits (first count : Nat) : List Char := ((id.bytes.drop first).take count).flatMap hex
  String.ofList <|
    digits 0 4 ++ '-' :: digits 4 2 ++ '-' :: digits 6 2 ++ '-' :: digits 8 2 ++ '-' :: digits 10 6

/-- The kinds of values that cells are read as. -/
inductive Kind where
  | bool
  | int2
  | int4
  | int8
  | float4
  | float8
  | json
  | uuid
  | timestamptz
  | timestamp
  | date
  | text
  deriving DecidableEq, Repr

namespace Kind

/-- The values of a kind. Floats are given by their bits. -/
def Carrier : Kind → Type
  | bool => Bool
  | int2 => Int16
  | int4 => Int32
  | int8 => Int64
  | float4 => UInt32
  | float8 => UInt64
  | json => Value
  | uuid => Uuid
  | timestamptz => Moment
  | timestamp => Moment
  | date => Date
  | text => String

instance : (kind : Kind) → DecidableEq kind.Carrier
  | bool => inferInstanceAs (DecidableEq Bool)
  | int2 => inferInstanceAs (DecidableEq Int16)
  | int4 => inferInstanceAs (DecidableEq Int32)
  | int8 => inferInstanceAs (DecidableEq Int64)
  | float4 => inferInstanceAs (DecidableEq UInt32)
  | float8 => inferInstanceAs (DecidableEq UInt64)
  | json => inferInstanceAs (DecidableEq Value)
  | uuid => inferInstanceAs (DecidableEq Uuid)
  | timestamptz | timestamp => inferInstanceAs (DecidableEq Moment)
  | date => inferInstanceAs (DecidableEq Date)
  | text => inferInstanceAs (DecidableEq String)

/-- The kind that the cells of a column are read as, given the name of its type. Text it is where
no other kind is known. -/
def ofTypeName : String → Kind
  | "BOOL" => bool
  | "INT2" => int2
  | "INT4" => int4
  | "INT8" => int8
  | "FLOAT4" => float4
  | "FLOAT8" => float8
  | "JSON" => json
  | "JSONB" => json
  | "UUID" => uuid
  | "TIMESTAMPTZ" => timestamptz
  | "TIMESTAMP" => timestamp
  | "DATE" => date
  | _ => text

/-- A value as JSON. There are no numbers in JSON that are not finite: these are null. -/
def toValue : (kind : Kind) → kind.Carrier → Value
  | bool, value => .bool value
  | int2, value => .int value.toInt
  | int4, value => .int value.toInt
  | int8, value => .int value.toInt
  | float4, bits => ((Binary64.ofBits32? bits.toNat).map Value.float).getD .null
  | float8, bits => ((Binary64.ofBits64? bits.toNat).map Value.float).getD .null
  | json, value => value
  | uuid, id => .text id.text
  | timestamptz, moment => .text (moment.text "T" ++ "+00:00")
  | timestamp, moment => .text (moment.text " ")
  | date, day => .text day.text
  | text, value => .text value

end Kind

/-! ### Reading -/

/-- What becomes of reading something. -/
inductive Reading (α : Type) where
  | value (a : α)
  /-- It cannot be read as what was asked for. -/
  | refused
  /-- The reader gives up, and the program stops with it. -/
  | halted
  deriving DecidableEq, Repr

/-- A library that reads cells. Asked for a kind, it is given the name of the type of the column
and the cell, and finds a value of the kind, or that there is none. -/
structure Decoder where
  get : (kind : Kind) → String → Cell → Reading (Option kind.Carrier)

/-- The value of a cell whose column has the given type, unless the program stops. It is null where
none is found, and where the cell is refused too. -/
def decodeCell (decoder : Decoder) (typeName : String) (cell : Cell) : Option Value :=
  let kind := Kind.ofTypeName typeName
  match decoder.get kind typeName cell with
  | .value (some a) => some (kind.toValue a)
  | .value none | .refused => some .null
  | .halted => none

end LinkQuery.Postgres
