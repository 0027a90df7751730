/-!
# Suggestions for misspelt names

A name that is not found is answered with the closest known name, provided one is close enough to
be what was meant. Closeness is the *edit distance*: the least number of characters to insert,
delete or replace.

* `editDistance a b` is that number. It is computed one row at a time: `distances a b` lists the
  distances from `a` to every suffix of `b`, so that each row follows from the one below it.
* `tolerance name` is how far away a suggestion may be. It grows with the size of the name.
* `suggestion name candidates` is the nearest candidate within the tolerance, the earliest of
  several equally near ones.
-/

namespace LinkQuery.Text

/-- The distances from `x :: a` to the suffixes of `b`, where `below` lists those from `a`. -/
def nextDistances (x : Char) : List Char → List Nat → List Nat
  | [], below => [below.headD 0 + 1]
  | y :: b, below =>
    let row := nextDistances x b below.tail
    let insertion := row.headD 0 + 1
    let deletion := below.headD 0 + 1
    let replacement := below.tail.headD 0 + if x = y then 0 else 1
    min (min insertion deletion) replacement :: row

/-- The edit distances from `a` to every suffix of `b`, longest suffix first. -/
def distances : List Char → List Char → List Nat
  | [], b => (List.range (b.length + 1)).reverse
  | x :: a, b => nextDistances x b (distances a b)

/-- The least number of characters to insert, delete or replace that turns `a` into `b`. -/
def editDistance (a b : String) : Nat := (distances a.toList b.toList).headD 0

/-- The distance at which a suggestion for `name` still makes sense: short names must match, longer
ones may differ in two or three places. Size is counted in bytes. -/
def tolerance (name : String) : Nat :=
  if name.utf8ByteSize ≤ 2 then 0 else if name.utf8ByteSize ≤ 5 then 2 else 3

/-- The first of the entries of least cost. -/
def firstLeast {α : Type} (cost : α → Nat) : List α → Option α
  | [] => none
  | a :: rest =>
    match firstLeast cost rest with
    | none => some a
    | some b => if cost a ≤ cost b then some a else some b

/-- The candidate nearest to `name`, if one is within the tolerance. -/
def suggestion (name : String) (candidates : List String) : Option String :=
  firstLeast (editDistance name)
    (candidates.filter fun candidate => editDistance name candidate ≤ tolerance name)

@[simp] theorem suggestion_nil (name : String) : suggestion name [] = none := rfl

end LinkQuery.Text
