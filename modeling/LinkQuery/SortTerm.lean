/-!
# The order of rows

The rows of a result are ordered by a list of terms, of which a later one decides between rows that
the earlier ones leave equal. A term is a column and a direction, or the request for a random order.
-/

namespace LinkQuery

/-- The directions in which rows can be ordered. -/
inductive Direction where
  | asc
  | desc
  | random
  deriving DecidableEq, Repr

/-- The opposite direction; the opposite of a random order is as random. -/
def Direction.reversed : Direction → Direction
  | asc => desc
  | desc => asc
  | random => random

@[simp] theorem Direction.reversed_reversed (d : Direction) : d.reversed.reversed = d := by
  cases d <;> rfl

/-- A term of an order. -/
structure SortTerm where
  column : String
  direction : Direction
  deriving DecidableEq, Repr

namespace SortTerm

/-- Increasing order of a column. -/
def asc (column : String) : SortTerm := ⟨column, .asc⟩

/-- Decreasing order of a column. -/
def desc (column : String) : SortTerm := ⟨column, .desc⟩

/-- The random order, which is that of no column in particular. -/
def random : SortTerm := ⟨"*", .random⟩

/-- The term of opposite direction. -/
def reversed (term : SortTerm) : SortTerm := { term with direction := term.direction.reversed }

/-- Whether the term asks for a random order. -/
def isRandom (term : SortTerm) : Bool := term.direction = .random

@[simp] theorem reversed_reversed (term : SortTerm) : term.reversed.reversed = term := by
  simp [reversed]

@[simp] theorem column_reversed (term : SortTerm) : term.reversed.column = term.column := rfl

end SortTerm

end LinkQuery
