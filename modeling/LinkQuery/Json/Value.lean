import LinkQuery.Json.Reader

/-!
# JSON values

Filters, parameters and rows are JSON values. A value is what a document denotes: every text is a
text, every number lies in range, and no object has two members of one name.

* `Value` is the type of values, with decidable equality and the coarser comparison `Value.same`.
* `Members.put` sets a member: a name that is present keeps its place and takes the new value.
* `Value.ofDocument? depth d` is the value that `d` denotes, if its lists and tables are nested at
  most `depth` deep. `Value.read?` reads a text with the limit `maxDepth`.
-/

namespace LinkQuery.Json

/-- A JSON value. Integers read from text lie between `-2 ^ 63` and `2 ^ 64 - 1`. -/
inductive Value where
  | null
  | bool (value : Bool)
  | int (value : Int)
  | float (value : Binary64)
  | text (value : String)
  | array (items : List Value)
  | object (members : List (String × Value))
  deriving Repr, Inhabited

namespace Value

mutual

/-- Equality of values is decided part by part. -/
def decideEq : (a b : Value) → Decidable (a = b)
  | null, b => by
    cases b with
    | null => exact isTrue rfl
    | _ => exact isFalse nofun
  | bool x, b => by
    cases b with
    | bool y => exact decidable_of_iff (x = y) (by simp)
    | _ => exact isFalse nofun
  | int x, b => by
    cases b with
    | int y => exact decidable_of_iff (x = y) (by simp)
    | _ => exact isFalse nofun
  | float x, b => by
    cases b with
    | float y => exact decidable_of_iff (x = y) (by simp)
    | _ => exact isFalse nofun
  | text x, b => by
    cases b with
    | text y => exact decidable_of_iff (x = y) (by simp)
    | _ => exact isFalse nofun
  | array x, b =>
    match b with
    | array y =>
      match decideEqItems x y with
      | isTrue h => isTrue (h ▸ rfl)
      | isFalse h => isFalse fun e => h (by injection e)
    | null | bool _ | int _ | float _ | text _ | object _ => isFalse nofun
  | object x, b =>
    match b with
    | object y =>
      match decideEqMembers x y with
      | isTrue h => isTrue (h ▸ rfl)
      | isFalse h => isFalse fun e => h (by injection e)
    | null | bool _ | int _ | float _ | text _ | array _ => isFalse nofun

/-- Equality of lists of values. -/
def decideEqItems : (a b : List Value) → Decidable (a = b)
  | [], [] => isTrue rfl
  | [], _ :: _ => isFalse nofun
  | _ :: _, [] => isFalse nofun
  | x :: xs, y :: ys =>
    match decideEq x y, decideEqItems xs ys with
    | isTrue h, isTrue t => isTrue (h ▸ t ▸ rfl)
    | isFalse h, _ => isFalse fun e => h (by injection e)
    | _, isFalse t => isFalse fun e => t (by injection e)

/-- Equality of lists of members. -/
def decideEqMembers : (a b : List (String × Value)) → Decidable (a = b)
  | [], [] => isTrue rfl
  | [], _ :: _ => isFalse nofun
  | _ :: _, [] => isFalse nofun
  | (m, x) :: xs, (n, y) :: ys =>
    match decEq m n, decideEq x y, decideEqMembers xs ys with
    | isTrue k, isTrue h, isTrue t => isTrue (k ▸ h ▸ t ▸ rfl)
    | isFalse k, _, _ => isFalse fun e => k (by injection e with e _; injection e)
    | _, isFalse h, _ => isFalse fun e => h (by injection e with e _; injection e)
    | _, _, isFalse t => isFalse fun e => t (by injection e)

end

instance : DecidableEq Value := decideEq

/-- Whether the value is an array or an object. -/
def isContainer : Value → Bool
  | array _ | object _ => true
  | _ => false

/-- Whether the value is a text. -/
def isText : Value → Bool
  | text _ => true
  | _ => false

/-- Whether the value is null. -/
def isNull : Value → Bool
  | null => true
  | _ => false

end Value

/-! ### Members -/

/-- The members of an object, in order. -/
abbrev Members := List (String × Value)

namespace Members

/-- Sets a member. A name that is present keeps its place. -/
def put (name : String) (value : Value) : Members → Members
  | [] => [(name, value)]
  | (n, v) :: rest => if n = name then (n, value) :: rest else (n, v) :: put name value rest

/-- The members of an object written with the given members, of which the last of one name counts,
at the place of the first. -/
def collect (written : List (String × Value)) : Members :=
  written.foldl (fun members (name, value) => put name value members) []

/-- The value of a member. -/
def get? (members : Members) (name : String) : Option Value := members.lookup name

@[simp] theorem put_nil (name : String) (value : Value) : put name value [] = [(name, value)] := rfl

@[simp] theorem collect_nil : collect [] = [] := rfl

end Members

namespace Value

mutual

/-- Whether two values are the same data: numbers by their size, so that the two float zeros are the
same, and objects by their members in any order. An integer and a float always differ. -/
def same : Value → Value → Bool
  | null, null => true
  | bool x, bool y => x == y
  | int x, int y => x == y
  | float x, float y => x.same y
  | text x, text y => x == y
  | array x, array y => sameItems x y
  | object x, object y => x.length == y.length && sameMembers x y
  | _, _ => false

/-- Whether two lists of values are the same data. -/
def sameItems : List Value → List Value → Bool
  | [], [] => true
  | x :: xs, y :: ys => same x y && sameItems xs ys
  | _, _ => false

/-- Whether every member of the first object has its like in the second. -/
def sameMembers : Members → Members → Bool
  | [], _ => true
  | (name, x) :: xs, ys =>
    match Members.get? ys name with
    | some y => same x y && sameMembers xs ys
    | none => false

end

/-! ### Values of documents -/

mutual

/-- The value that a document denotes, with at most `depth` lists and tables around any part. -/
def ofDocument? (depth : Nat) : Document → Option Value
  | .null => some null
  | .bool b => some (bool b)
  | .integer i => some (int i)
  | .real x => x.map float
  | .text s => s.map text
  | .other => none
  | .list items =>
    match depth with
    | 0 => none
    | depth + 1 => (itemsOfDocuments? depth items).map array
  | .table members =>
    match depth with
    | 0 => none
    | depth + 1 => (membersOfDocuments? depth members).map fun ms => object (Members.collect ms)

/-- The values of the items of a list. -/
def itemsOfDocuments? (depth : Nat) : List Document → Option (List Value)
  | [] => some []
  | d :: rest => do
    let value ← ofDocument? depth d
    let values ← itemsOfDocuments? depth rest
    some (value :: values)

/-- The members of a table, as written. -/
def membersOfDocuments? (depth : Nat) :
    List (Option String × Document) → Option (List (String × Value))
  | [] => some []
  | (name, d) :: rest => do
    let name ← name
    let value ← ofDocument? depth d
    let members ← membersOfDocuments? depth rest
    some ((name, value) :: members)

end

/-- The deepest nesting of lists and tables that is read. -/
def maxDepth : Nat := 127

/-- The value written in `text`. -/
def read? (text : String) : Option Value := (Json.read? text).bind (ofDocument? maxDepth)

end Value

end LinkQuery.Json
