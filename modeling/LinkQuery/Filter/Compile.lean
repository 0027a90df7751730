import LinkQuery.Filter.Basic
import LinkQuery.Schema.Lookup

/-!
# Filters as conditions on one table

The part of a filter that concerns the columns of its own table becomes a condition. Combinations
without members contribute no condition and are left out of what contains them; a negation must not
be left without members in this way.

A filter on a link cannot be part of such a condition, since it concerns the rows of another table.
It is accepted at the top and under conjunctions, where it can be set apart: `Filter.condition`
checks that its link exists and leaves it out, and `Filter.linkFilters` lists what was left out.

* `Predicate.condition`, `Filter.localCondition` and `Filter.condition` give the condition, or the
  first fault in the order of the filter.
-/

namespace LinkQuery

/-- The condition that a combination of conditions amounts to: nothing if there are none to combine,
and one alone stands for itself. A negation needs a condition to negate. -/
def Combinator.combine (combinator : Combinator) (conditions : List Sql.Condition) :
    Except Error (Option Sql.Condition) :=
  if combinator.negates then
    if conditions.isEmpty then .error (.emptyCombinator combinator.key)
    else .ok (some (.group true combinator.joiner conditions))
  else
    match conditions with
    | [] => .ok none
    | [condition] => .ok (some condition)
    | conditions => .ok (some (.group false combinator.joiner conditions))

/-- The test for the presence of a value. -/
def presenceTest (column : String) (expected : Bool) : Sql.Condition :=
  .atom (if expected then .isNotNull column else .isNull column)

/-- Whether the name of a type is plain: made of letters, digits, blanks, underscores, parentheses
and commas. Only such a name is written into a statement. -/
def isPlainType (typeName : String) : Bool :=
  typeName.toList.all fun c =>
    c.isAlphanum || c = ' ' || c = '_' || c = '(' || c = ')' || c = ','

namespace Table

/-- The type to which a text has to be cast before a column is compared with it in order: that of
the column, if it does not compare with texts and has a plain name. -/
def castType? (table : Table) (column : String) (value : Json.Value) : Option String :=
  if !value.isText || table.isTextComparable column then none
  else
    match table.column? column with
    | some c => if isPlainType c.typeName then some c.typeName else none
    | none => none

/-- The comparison of a column with a value. Being equal to null is being absent, and null has no
order. A column that does not compare with texts is cast to text for equality with one; for the
order the text is cast instead. -/
def comparison (table : Table) (column : String) (op : Sql.Comparison) (value : Json.Value) :
    Except Error Sql.Condition :=
  if value.isNull then
    match op with
    | .eq => .ok (presenceTest column false)
    | .ne => .ok (presenceTest column true)
    | op => .error (.invalidFilter (.orderedByNull column op.symbol))
  else if op.isEquality then
    .ok (.atom (.compare column (value.isText && !table.isTextComparable column) op value none))
  else .ok (.atom (.compare column false op value (table.castType? column value)))

/-- Requires that `column` may stand for a column of the table. -/
def requireOwnColumn (table : Table) (column : String) : Except Error Unit :=
  table.requireColumn table.name column column

end Table

namespace Predicate

mutual

/-- The condition that a predicate puts on a column, if any. -/
def condition (table : Table) (column : String) : Predicate → Except Error (Option Sql.Condition)
  | compare op value => (table.comparison column op value).map some
  | like op operand =>
    .ok (some (.atom (.like column (!table.isTextComparable column) (op.likePattern operand))))
  | present expected => .ok (some (presenceTest column expected))
  | group combinator members => do combinator.combine (← conditions table column members)

/-- The conditions that predicates put on a column. -/
def conditions (table : Table) (column : String) :
    List Predicate → Except Error (List Sql.Condition)
  | [] => .ok []
  | predicate :: rest => do
    let own ← condition table column predicate
    let others ← conditions table column rest
    .ok (own.toList ++ others)

end

end Predicate

namespace Filter

mutual

/-- The condition of a filter that has to concern its own table alone. -/
def localCondition (table : Table) : Filter → Except Error (Option Sql.Condition)
  | group combinator members => do combinator.combine (← localConditions table members)
  | column name predicate => do
    table.requireOwnColumn name
    predicate.condition table name
  | present name expected => do
    table.requireOwnColumn name
    .ok (some (presenceTest name expected))
  | link name _ => .error (.invalidFilter (.linkBelowCombinator name))

/-- The conditions of filters that have to concern their own table alone. -/
def localConditions (table : Table) : List Filter → Except Error (List Sql.Condition)
  | [] => .ok []
  | filter :: rest => do
    let own ← localCondition table filter
    let others ← localConditions table rest
    .ok (own.toList ++ others)

end

mutual

/-- The condition of a filter on its own table, filters on links set apart. -/
def condition (table : Table) : Filter → Except Error (Option Sql.Condition)
  | group .all members => do Combinator.all.combine (← memberConditions table members)
  | link name _ =>
    match table.link? name with
    | some _ => .ok none
    | none =>
      .error (.unresolved table.name name (.noFilterLink name (table.nearLink name)))
  | filter => localCondition table filter

/-- The conditions of the members of a conjunction, filters on links set apart. -/
def memberConditions (table : Table) : List Filter → Except Error (List Sql.Condition)
  | [] => .ok []
  | filter :: rest => do
    let own ← condition table filter
    let others ← memberConditions table rest
    .ok (own.toList ++ others)

end

mutual

/-- The filters on links that are set apart, each with the name of its link, in order. -/
def linkFilters : Filter → List (String × Filter)
  | group .all members => memberLinkFilters members
  | link name filter => [(name, filter)]
  | _ => []

/-- The filters on links among the members of a conjunction. -/
def memberLinkFilters : List Filter → List (String × Filter)
  | [] => []
  | filter :: rest => linkFilters filter ++ memberLinkFilters rest

end

end Filter

end LinkQuery
