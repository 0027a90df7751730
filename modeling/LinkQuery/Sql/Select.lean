import LinkQuery.Sql.Condition
import LinkQuery.SortTerm

/-!
# Select statements

The statements that answer a query are of one shape. A level fetches columns of one table, and for
each link a subquery that is correlated with the row at hand and delivers the linked row as one
value in the format of JSON. Where the linked row has to meet a condition, the level is enclosed in
a further select that keeps the rows for which the value is there.

* `Select` is a level with its subqueries, or a level enclosed in such a test.
* `SelectStatement` is a whole statement: a select with an order and a limit.
* `Select.fragment` and `SelectStatement.fragment` write them.
-/

namespace LinkQuery.Sql

/-- A column to fetch. -/
inductive OutputColumn where
  /-- All columns, whatever they are. -/
  | star
  | column (name : String)
  deriving DecidableEq, Repr

/-- How a linked row is found: its column `target` is equal to the column `localColumn` of the
enclosing row, which is visible under the name `parent`. -/
structure Correlation where
  target : String
  parent : String
  localColumn : String
  deriving DecidableEq, Repr

/-- A select without order and limit. -/
inductive Select where
  /-- Columns of a table, which may go by another name, and linked rows, each under the name of its
  link and with whether it has to be there. -/
  | level (columns : List OutputColumn) (links : List (String × Bool × Select)) (table : String)
      (asName : Option String) (correlation : Option Correlation) (condition : Option Condition)
  /-- The rows of a select for which the named value is there. -/
  | whereLinked (inner : Select) (link : String)
  deriving Repr

/-- A statement: a select, the order of its rows, how many rows to deliver and how many to leave out
before them. -/
structure SelectStatement where
  select : Select
  order : List SortTerm
  limit : Option (Nat × Nat)
  deriving Repr

namespace OutputColumn

/-- The written form of a column. -/
def text : OutputColumn → String
  | star => "*"
  | column name => quote name

end OutputColumn

namespace Correlation

/-- The written form of a correlation. -/
def fragment (c : Correlation) : Fragment :=
  .text (quote c.target ++ " = " ++ quoteColumn c.parent c.localColumn)

end Correlation

namespace Select

/-- The conditions after `where`, if there are any. -/
def whereFragment (correlation : Option Correlation) (condition : Option Condition) : Fragment :=
  match correlation.toList.map Correlation.fragment ++ condition.toList.map Condition.fragment with
  | [] => .empty
  | conditions => .text " where " ++ .joined " and " conditions

/-- The table of a level, under the name that it goes by. -/
def fromText (table : String) (asName : Option String) : String :=
  " from " ++ quote table ++
    match asName with
    | none => ""
    | some asName => " as " ++ quote asName

/-- A linked row as a value, given the select that delivers it. -/
def linkFragment (name : String) (demanded : Bool) (inner : Fragment) : Fragment :=
  .text ", " ++ inner.wrapped "(select to_json(obj) from (" ") as obj" ++
    .text ((if demanded then " where obj is not null" else "") ++ ") as " ++ quote name)

mutual

/-- The written form of a select. -/
def fragment : Select → Fragment
  | level columns links table asName correlation condition =>
    .text ("select " ++ String.intercalate ", " (columns.map OutputColumn.text)) ++
      linkFragments links ++ .text (fromText table asName) ++ whereFragment correlation condition
  | whereLinked inner link =>
    (fragment inner).wrapped "select * from ("
      (") as \"tmp\" where " ++ quoteColumn "tmp" link ++ " is not null")

/-- The written forms of the linked rows of a level. -/
def linkFragments : List (String × Bool × Select) → Fragment
  | [] => .empty
  | (name, demanded, inner) :: rest =>
    linkFragment name demanded (fragment inner) ++ linkFragments rest

end

end Select

namespace SelectStatement

/-- The written form of a term of the order. -/
def termText (term : SortTerm) : String :=
  match term.direction with
  | .asc => quote term.column ++ " asc"
  | .desc => quote term.column ++ " desc"
  | .random => "random()"

/-- The written form of the order. -/
def orderFragment (order : List SortTerm) : Fragment :=
  if order.isEmpty then .empty
  else .text (" order by " ++ String.intercalate ", " (order.map termText))

/-- The written form of the limit; leaving out no rows is not mentioned. -/
def limitFragment : Option (Nat × Nat) → Fragment
  | none => .empty
  | some (count, offset) =>
    .text " limit " ++ .param (.int count) ++
      if offset = 0 then .empty else .text " offset " ++ .param (.int offset)

/-- The written form of a statement. -/
def fragment (s : SelectStatement) : Fragment :=
  s.select.fragment ++ orderFragment s.order ++ limitFragment s.limit

/-- The finished statement. -/
def render (s : SelectStatement) : Statement := s.fragment.render

end SelectStatement

end LinkQuery.Sql
