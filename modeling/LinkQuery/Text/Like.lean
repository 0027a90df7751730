/-!
# Patterns of the `like` operator

A `like` pattern reads `%` as any run of characters, `_` as one character and a backslash as *the
next character stands for itself*. Text that is to be found literally has to be escaped first.

* `escapeLike` protects the three special characters.
* `globToLike` carries over a pattern in which `*` stands for any run and `?` for one character.
* `PatternOp.likePattern` is the pattern that a text operator of a filter asks for.
-/

namespace LinkQuery

namespace Text

/-- One character of a literal text inside a `like` pattern. -/
def escapeLikeChar (c : Char) : List Char :=
  if c = '%' ∨ c = '_' ∨ c = '\\' then ['\\', c] else [c]

/-- A `like` pattern that matches exactly `text`. -/
def escapeLike (text : List Char) : List Char := text.flatMap escapeLikeChar

/-- One character of a glob inside a `like` pattern. -/
def globToLikeChar (c : Char) : List Char :=
  if c = '*' then ['%'] else if c = '?' then ['_'] else escapeLikeChar c

/-- The `like` pattern that matches what the glob `pattern` matches. -/
def globToLike (pattern : List Char) : List Char := pattern.flatMap globToLikeChar

@[simp] theorem escapeLike_nil : escapeLike [] = [] := rfl

@[simp] theorem escapeLike_cons (c : Char) (text : List Char) :
    escapeLike (c :: text) = escapeLikeChar c ++ escapeLike text := rfl

@[simp] theorem globToLike_nil : globToLike [] = [] := rfl

@[simp] theorem globToLike_cons (c : Char) (pattern : List Char) :
    globToLike (c :: pattern) = globToLikeChar c ++ globToLike pattern := rfl

end Text

/-- The text operators of a filter. -/
inductive PatternOp where
  | contains
  | startsWith
  | endsWith
  | glob
  deriving DecidableEq, Repr

namespace PatternOp

/-- The `like` pattern for the operand of a text operator. -/
def likePattern (op : PatternOp) (operand : String) : String :=
  String.ofList <|
    match op with
    | contains => '%' :: Text.escapeLike operand.toList ++ ['%']
    | startsWith => Text.escapeLike operand.toList ++ ['%']
    | endsWith => '%' :: Text.escapeLike operand.toList
    | glob => Text.globToLike operand.toList

end PatternOp

end LinkQuery
