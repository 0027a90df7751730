import LinkQuery.Sql.Fragment
import LinkQuery.Sql.Identifier

/-!
# Conditions on rows

The condition that a statement puts on the rows of one table is a tree: comparisons and tests of
single columns, combined by `and`, `or` and `not`. The tree fixes the meaning, and
`Condition.fragment` writes it. Every combination stands in parentheses, so the written form has no
other reading.
-/

namespace LinkQuery.Sql

/-- The comparison operators. -/
inductive Comparison where
  | eq
  | ne
  | gt
  | ge
  | lt
  | le
  deriving DecidableEq, Repr

namespace Comparison

/-- How an operator is written. -/
def symbol : Comparison → String
  | eq => "="
  | ne => "!="
  | gt => ">"
  | ge => ">="
  | lt => "<"
  | le => "<="

/-- Whether an operator tests for equality and not for order. -/
def isEquality : Comparison → Bool
  | eq | ne => true
  | _ => false

end Comparison

/-- A condition on a single column, as it is or cast to text. -/
inductive Atom where
  /-- A comparison with a parameter, which is cast to the type `castTo` if one is given. -/
  | compare (column : String) (asText : Bool) (op : Comparison) (value : Json.Value)
      (castTo : Option String)
  | like (column : String) (asText : Bool) (pattern : String)
  | isNull (column : String)
  | isNotNull (column : String)
  deriving DecidableEq, Repr

/-- How the members of a combination are connected. -/
inductive Joiner where
  | and
  | or
  deriving DecidableEq, Repr

/-- How a connection is written, with the blanks around it. -/
def Joiner.text : Joiner → String
  | and => " and "
  | or => " or "

/-- A condition. -/
inductive Condition where
  | atom (atom : Atom)
  /-- A combination, or the negation of one. -/
  | group (negated : Bool) (joiner : Joiner) (members : List Condition)
  deriving Repr

namespace Atom

/-- A column, as it is or cast to text. -/
def columnText (column : String) (asText : Bool) : String :=
  if asText then "CAST (" ++ quote column ++ " AS text)" else quote column

/-- The written form of a condition on a column. -/
def fragment : Atom → Fragment
  | compare column asText op value none =>
    .text (columnText column asText ++ " " ++ op.symbol ++ " ") ++ .param value
  | compare column asText op value (some typeName) =>
    .text (columnText column asText ++ " " ++ op.symbol ++ " CAST (") ++ .param value ++
      .text (" AS " ++ typeName ++ ")")
  | like column asText pattern =>
    .text (columnText column asText ++ " like ") ++ .param (.text pattern)
  | isNull column => .text (quote column ++ " is null")
  | isNotNull column => .text (quote column ++ " is not null")

end Atom

namespace Condition

mutual

/-- The written form of a condition. -/
def fragment : Condition → Fragment
  | atom a => a.fragment
  | group negated joiner members =>
    (Fragment.joined joiner.text (fragments members)).wrapped (if negated then "not (" else "(") ")"

/-- The written forms of conditions. -/
def fragments : List Condition → List Fragment
  | [] => []
  | c :: rest => fragment c :: fragments rest

end

end Condition

end LinkQuery.Sql
