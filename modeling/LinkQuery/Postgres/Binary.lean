import LinkQuery.Postgres.Cell

/-!
# The binary format of cells

The bytes of a cell are in the binary format of the type of its column. `Decoder.binary` reads them,
if the type is among those that can be read as what is asked for (`Kind.accepted`).

Not all that is wrong with a cell is treated alike. Text that is not UTF-8, what is not JSON and
identifiers of another length are refused, as is a type that is not accepted. But the reader gives
up where bytes are missing, where the version of JSON is another one, and on dates that the calendar
does not reach.
-/

namespace LinkQuery.Postgres

open Json (Value)

namespace Reading

variable {α β : Type}

/-- Changes the value that is read. -/
def map (f : α → β) : Reading α → Reading β
  | value a => value (f a)
  | refused => refused
  | halted => halted

/-- What is not found is refused. -/
def orRefused : Option α → Reading α
  | some a => value a
  | none => refused

end Reading

/-! ### Bytes -/

/-- The number whose bytes are given, the highest first. -/
def bigEndian (bytes : List UInt8) : Nat := bytes.foldl (fun n b => n * 256 + b.toNat) 0

/-- The number in the first `size` bytes. Bytes beyond them do not count. -/
def word (size : Nat) (bytes : List UInt8) : Reading Nat :=
  if size ≤ bytes.length then .value (bigEndian (bytes.take size)) else .halted

/-- The text whose bytes in UTF-8 are given. -/
def utf8Text (bytes : List UInt8) : Reading String :=
  .orRefused (String.fromUTF8? ⟨bytes.toArray⟩)

/-- The value whose JSON text is given in UTF-8. -/
def jsonText (bytes : List UInt8) : Reading Value :=
  .orRefused ((String.fromUTF8? ⟨bytes.toArray⟩).bind Value.read?)

/-- The value in the binary form of JSON: a version, which is 1, and the text. -/
def jsonb : List UInt8 → Reading Value
  | 1 :: bytes => jsonText bytes
  | _ => .halted

/-- The identifier that consists of the given bytes. -/
def uuid (bytes : List UInt8) : Reading Uuid :=
  if h : bytes.length = 16 then .value ⟨bytes, h⟩ else .refused

/-- A value with a date, if the calendar reaches that far. -/
def withinCalendar {α : Type} (date : α → Date) : Reading α → Reading α
  | .value a =>
    if -262143 ≤ (date a).year ∧ (date a).year ≤ 262142 then .value a else .halted
  | reading => reading

/-- The moment so many microseconds after the beginning of the year 2000. -/
def moment (bytes : List UInt8) : Reading Moment :=
  withinCalendar Moment.date <|
    (word 8 bytes).map fun n => Moment.ofMicroseconds (Int64.ofNat n).toInt

/-! ### The decoder -/

namespace Kind

/-- The names of the types that can be read as a kind. -/
def accepted : Kind → List String
  | bool => ["BOOL"]
  | int2 => ["INT2"]
  | int4 => ["INT4"]
  | int8 => ["INT8"]
  | float4 => ["FLOAT4"]
  | float8 => ["FLOAT8"]
  | json => ["JSON", "JSONB"]
  | uuid => ["UUID"]
  | timestamptz => ["TIMESTAMPTZ"]
  | timestamp => ["TIMESTAMP"]
  | date => ["DATE"]
  | text => ["TEXT", "VARCHAR", "CHAR", "BPCHAR", "NAME", "UNKNOWN", "citext", "VOID"]

/-- Reads the bytes of a cell as a kind. -/
def readBytes (typeName : String) (bytes : List UInt8) : (kind : Kind) → Reading kind.Carrier
  | bool => (word 1 bytes).map fun n => (n ≠ 0 : Bool)
  | int2 => (word 2 bytes).map Int16.ofNat
  | int4 => (word 4 bytes).map Int32.ofNat
  | int8 => (word 8 bytes).map Int64.ofNat
  | float4 => (word 4 bytes).map UInt32.ofNat
  | float8 => (word 8 bytes).map UInt64.ofNat
  | json => if typeName = "JSONB" then jsonb bytes else jsonText bytes
  | uuid => Postgres.uuid bytes
  | timestamptz => moment bytes
  | timestamp => moment bytes
  | date =>
    withinCalendar id <| (word 4 bytes).map fun n => Date.ofDays (Int32.ofNat n).toInt
  | text => utf8Text bytes

end Kind

/-- The decoder of the binary format. -/
def Decoder.binary : Decoder where
  get kind typeName
    | none => .value none
    | some bytes =>
      if typeName ∈ kind.accepted then (kind.readBytes typeName bytes).map some else .refused

end LinkQuery.Postgres
