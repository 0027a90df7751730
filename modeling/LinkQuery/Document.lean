import LinkQuery.Number.Binary64

/-!
# Documents

A *document* is what a data file says before anybody asks for particular fields: nested lists and
tables of scalars. It is the common ground of the file formats, so that a description of a database
or of the settings is read in the same way whichever format it is written in.

Nothing is lost and nothing is judged yet: members keep their order and may repeat a name, a number
may be out of range, and a text literal may denote no text. What is wrong with a part shows only
when that part is asked for; a part that nobody asks for may contain such literals.
-/

namespace LinkQuery

/-- What a data file says. -/
inductive Document where
  | null
  | bool (value : Bool)
  | integer (value : Int)
  /-- A number with a fraction or an exponent, or one too large for an integer; `none` if it is out
  of the range of `Binary64`. -/
  | real (value : Option Binary64)
  /-- A text literal; `none` if it denotes no text, because a half of a surrogate pair stands alone
  in it or a byte that belongs to no character. -/
  | text (value : Option String)
  /-- A scalar of a kind that no field holds, such as a date. -/
  | other
  | list (items : List Document)
  | table (members : List (Option String × Document))
  deriving Repr

end LinkQuery
