import LinkQuery.Error
import LinkQuery.Filter.Basic

/-!
# Filters in JSON

A filter is written as an object. Each member is a condition, and several members are a conjunction.
The name of a member tells what its value means:

* `$all`, `$any`, `$not`, `$none` combine the filters of an array, or the members of an object;
* `$exists`, `$notExists` test the column that the value names;
* a name with dots goes through links: `owner.pet.name` is `name` inside `pet` inside `owner`;
* another name is that of a link if its value is an object with a member that is no operator, and
  that of a column otherwise.

The value for a column is a scalar to be equal to, an array of alternatives, or an object of
operators. `Filter.ofJson` reads a filter, and reports the first mistake in the order of the text.
-/

namespace LinkQuery

/-- The comparison of a given name. -/
def Sql.Comparison.ofKey? : String → Option Comparison
  | "$is" => some .eq
  | "$isNot" => some .ne
  | "$gt" => some .gt
  | "$ge" => some .ge
  | "$lt" => some .lt
  | "$le" => some .le
  | _ => none

/-- The text operator of a given name. -/
def PatternOp.ofKey? : String → Option PatternOp
  | "$contains" => some .contains
  | "$startsWith" => some .startsWith
  | "$endsWith" => some .endsWith
  | "$pattern" => some .glob
  | _ => none

/-- The combinator of a given name. -/
def Combinator.ofKey? : String → Option Combinator
  | "$all" => some .all
  | "$any" => some .any
  | "$not" => some .notAll
  | "$none" => some .notAny
  | _ => none

/-- The test for presence of a given name: whether the value is to be there. -/
def presenceOfKey? : String → Option Bool
  | "$exists" => some true
  | "$notExists" => some false
  | _ => none

/-- The members of a combination, of which a negation needs at least one. -/
def Combinator.checked {α : Type} (combinator : Combinator) (members : List α) :
    Except Error (List α) :=
  if combinator.negates ∧ members.isEmpty then .error (.emptyCombinator combinator.key)
  else .ok members

namespace Predicate

/-- Reads the value of an operator that compares. -/
def comparisonOfJson (column key : String) (op : Sql.Comparison) (value : Json.Value) :
    Except Error Predicate :=
  if value.isContainer then .error (.invalidFilter (.scalarExpected key column value))
  else .ok (.compare op value)

/-- Reads the value of a text operator. -/
def patternOfJson (column key : String) (op : PatternOp) : Json.Value → Except Error Predicate
  | .text operand => .ok (.like op operand)
  | value => .error (.invalidFilter (.textExpected key column value))

/-- Reads the value of a test for presence. -/
def presenceOfJson (column key : String) (expected : Bool) : Json.Value → Except Error Predicate
  | .bool flag => .ok (.present (flag == expected))
  | value => .error (.invalidFilter (.flagExpected key column value))

mutual

/-- Reads the value for a column. -/
def ofJson (column : String) : Json.Value → Except Error Predicate
  | .object members => (ofOperators column members).map conjunction
  | .array items => (ofItems column items).map (.group .any)
  | scalar => .ok (.compare .eq scalar)

/-- Reads the values of an array. -/
def ofItems (column : String) : List Json.Value → Except Error (List Predicate)
  | [] => .ok []
  | value :: rest => do
    let predicate ← ofJson column value
    let predicates ← ofItems column rest
    .ok (predicate :: predicates)

/-- Reads the operators of an object. -/
def ofOperators (column : String) : Json.Members → Except Error (List Predicate)
  | [] => .ok []
  | (key, value) :: rest => do
    let predicate ← ofOperator column key value
    let predicates ← ofOperators column rest
    .ok (predicate :: predicates)

/-- Reads one operator with its value. -/
def ofOperator (column key : String) (value : Json.Value) : Except Error Predicate :=
  match Sql.Comparison.ofKey? key with
  | some op => comparisonOfJson column key op value
  | none =>
    match PatternOp.ofKey? key with
    | some op => patternOfJson column key op value
    | none =>
      match presenceOfKey? key with
      | some expected => presenceOfJson column key expected value
      | none =>
        match Combinator.ofKey? key with
        | some combinator => do
          let members ←
            match value with
            | .array items => ofItems column items
            | .object members => ofOperators column members
            | scalar => .ok [.compare .eq scalar]
          let members ← combinator.checked members
          .ok (.group combinator members)
        | none => .error (.unknownOperator column key)

end

end Predicate

namespace Filter

/-- The pieces of a name, put together again. -/
def joinPieces (pieces : List (List Char)) : String := String.ofList (['.'].intercalate pieces)

/-- Whether a name is that of an operator. -/
def isOperator (key : List Char) : Bool := key.head? = some '$'

/-- The links that a name goes through, and the name at their end. The name of an operator is not
divided, and neither a link nor the rest of a name may be empty. -/
def keyOfPieces : List (List Char) → Except Error (List String × String)
  | [] => .ok ([], "")
  | [last] => .ok ([], String.ofList last)
  | segment :: next :: more =>
    if isOperator segment then .ok ([], joinPieces (segment :: next :: more))
    else if segment = [] ∨ (next = [] ∧ more = []) then
      .error (.invalidFilter (.emptySegment (joinPieces (segment :: next :: more))))
    else
      (keyOfPieces (next :: more)).map fun (links, last) => (String.ofList segment :: links, last)

/-- The links that the name of a member goes through, and the name at their end. -/
def splitKey (key : String) : Except Error (List String × String) :=
  keyOfPieces (key.toList.splitOn '.')

/-- A filter on the row behind the given links. -/
def behind (links : List String) (filter : Filter) : Filter := links.foldr .link filter

/-- The label for operators that stand outside any column. -/
def rootLabel : String := "<root>"

/-- Whether an object describes the row behind a link: one of its names is no operator. -/
def describesRow (members : Json.Members) : Bool :=
  members.any fun (key, _) => !isOperator key.toList

/-- Reads the value of a test for presence. -/
def presenceOfJson (key : String) (expected : Bool) : Json.Value → Except Error Filter
  | .text name => .ok (.present name expected)
  | value => .error (.invalidFilter (.columnNameExpected key value))

mutual

/-- Reads a filter. -/
def ofJson : Json.Value → Except Error Filter
  | .object members => (ofMembers members).map conjunction
  | value => .error (.invalidFilter (.nodeExpected value))

/-- Reads the filters of an array. -/
def ofItems : List Json.Value → Except Error (List Filter)
  | [] => .ok []
  | value :: rest => do
    let filter ← ofJson value
    let filters ← ofItems rest
    .ok (filter :: filters)

/-- Reads the members of an object. -/
def ofMembers : Json.Members → Except Error (List Filter)
  | [] => .ok []
  | (key, value) :: rest => do
    let filter ← ofMember key value
    let filters ← ofMembers rest
    .ok (filter :: filters)

/-- Reads one member. -/
def ofMember (key : String) (value : Json.Value) : Except Error Filter := do
  let (links, key) ← splitKey key
  let filter ←
    match Combinator.ofKey? key with
    | some combinator => do
      let members ←
        match value with
        | .array items => ofItems items
        | .object members => ofMembers members
        | value => .error (.invalidFilter (.childrenExpected key value))
      let members ← combinator.checked members
      .ok (.group combinator members)
    | none =>
      match presenceOfKey? key with
      | some expected => presenceOfJson key expected value
      | none =>
        if isOperator key.toList then .error (.unknownOperator rootLabel key)
        else
          match value with
          | .object members =>
            if describesRow members then do
              let members ← ofMembers members
              .ok (.link key (conjunction members))
            else (Predicate.ofJson key (.object members)).map (.column key)
          | value => (Predicate.ofJson key value).map (.column key)
  .ok (behind links filter)

end

end Filter

end LinkQuery
