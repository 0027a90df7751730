import LinkQuery.Sql.Condition
import LinkQuery.Text.Like

/-!
# Filters

A filter says which rows of a table are wanted. It consists of conditions on columns, of filters on
the rows behind links, and of combinations of these.

* `Predicate` is a condition on the value of one column, `Filter` one on a whole row.
* `Combinator` are the four ways to combine either of them: the conjunction, the disjunction and
  their negations.
* `Filter.isVacuous` holds of filters made of nothing but empty conjunctions and disjunctions.
-/

namespace LinkQuery

/-- The ways to combine conditions. -/
inductive Combinator where
  /-- Every one holds. -/
  | all
  /-- Some one holds. -/
  | any
  /-- Not every one holds. -/
  | notAll
  /-- No one holds. -/
  | notAny
  deriving DecidableEq, Repr

namespace Combinator

/-- How a combinator is written in a filter. -/
def key : Combinator → String
  | all => "$all"
  | any => "$any"
  | notAll => "$not"
  | notAny => "$none"

/-- Whether a combinator negates what it combines. -/
def negates : Combinator → Bool
  | all | any => false
  | notAll | notAny => true

/-- How a combinator connects what it combines, before any negation. -/
def joiner : Combinator → Sql.Joiner
  | all | notAll => .and
  | any | notAny => .or

end Combinator

/-- A condition on the value of a column. -/
inductive Predicate where
  | compare (op : Sql.Comparison) (value : Json.Value)
  | like (op : PatternOp) (operand : String)
  /-- The value is there, or is not. -/
  | present (expected : Bool)
  | group (combinator : Combinator) (members : List Predicate)
  deriving Repr

/-- A condition on a row. -/
inductive Filter where
  | group (combinator : Combinator) (members : List Filter)
  | column (name : String) (predicate : Predicate)
  /-- The value of a column is there, or is not. -/
  | present (column : String) (expected : Bool)
  /-- The row behind a link meets a filter. -/
  | link (name : String) (filter : Filter)
  deriving Repr

namespace Filter

mutual

/-- Whether a filter consists of conjunctions and disjunctions alone. -/
def isVacuous : Filter → Bool
  | group .all members | group .any members => areVacuous members
  | _ => false

/-- Whether each of the filters is vacuous. -/
def areVacuous : List Filter → Bool
  | [] => true
  | f :: rest => isVacuous f && areVacuous rest

end

mutual

/-- How many links deep a filter goes. -/
def linkDepth : Filter → Nat
  | group _ members => maxLinkDepth members
  | column _ _ => 0
  | present _ _ => 0
  | link _ filter => linkDepth filter + 1

/-- How many links deep the deepest of the filters goes. -/
def maxLinkDepth : List Filter → Nat
  | [] => 0
  | f :: rest => max (linkDepth f) (maxLinkDepth rest)

end

/-- The filters together: a single one as it is, several as their conjunction. -/
def conjunction : List Filter → Filter
  | [f] => f
  | filters => group .all filters

end Filter

/-- The predicates together: a single one as it is, several as their conjunction. -/
def Predicate.conjunction : List Predicate → Predicate
  | [p] => p
  | predicates => group .all predicates

end LinkQuery
