import LinkQuery.Error
import LinkQuery.Text.Alphanumeric

/-!
# Column paths

A column path names what to fetch of a row: `name` a column of the row itself, `owner.name` a column
of the row behind the link `owner`, and `owner.pet.*` all columns of the row behind two links. It is
a list of segments between dots. A segment is an identifier or `*`, and `*` comes last if at all.

* `ColumnPath` is a path, `ColumnPath.text` its written form.
* `ColumnPath.parse` reads a path. Blanks around it are dropped. Where the text is no list of
  segments, the error points to the end of the longest list of segments that it starts with.
-/

namespace LinkQuery

/-- What a path names in the last row it reaches. -/
inductive Terminal where
  | column (name : String)
  | wildcard
  deriving DecidableEq, Repr

/-- A path: the links to follow, then what to fetch. -/
structure ColumnPath where
  links : List String
  terminal : Terminal
  deriving DecidableEq, Repr

/-- The characters of identifiers: those of numbers and letters in any script, `_` and `-`. -/
def isNameChar (c : Char) : Bool := Text.isAlphanumeric c || c = '_' || c = '-'

/-- The number of bytes that characters take in UTF-8. -/
def byteSize : List Char → Nat
  | [] => 0
  | c :: cs => c.utf8Size + byteSize cs

/-! ### Segments -/

/-- A part of a path between dots. -/
inductive Segment where
  | name (chars : List Char)
  | star
  deriving DecidableEq, Repr

namespace Segment

/-- The written form of a segment. -/
def chars : Segment → List Char
  | name cs => cs
  | star => ['*']

/-- The longest segment that `cs` starts with, and what follows it. -/
def read? (cs : List Char) : Option (Segment × List Char) :=
  match cs with
  | '*' :: rest => some (star, rest)
  | cs =>
    match cs.takeWhile isNameChar with
    | [] => none
    | c :: more => some (name (c :: more), cs.dropWhile isNameChar)

theorem length_lt_of_read? {cs rest : List Char} {segment : Segment}
    (h : read? cs = some (segment, rest)) : rest.length < cs.length := by
  unfold read? at h
  split at h
  · simp only [Option.some.injEq, Prod.mk.injEq] at h; simp [← h.2]
  · split at h
    · simp at h
    · rename_i c more hrun
      simp only [Option.some.injEq, Prod.mk.injEq] at h
      have hlength :=
        congrArg List.length (List.takeWhile_append_dropWhile (p := isNameChar) (l := cs))
      rw [List.length_append, hrun] at hlength
      simp only [List.length_cons] at hlength
      rw [← h.2]; omega

/-- The longest list of segments between dots that `cs` starts with, and what follows it. -/
def readList (cs : List Char) : List Segment × List Char :=
  match _h : read? cs with
  | none => ([], cs)
  | some (segment, '.' :: after) =>
    match readList after with
    | ([], _) => ([segment], '.' :: after)
    | (next :: more, remainder) => (segment :: next :: more, remainder)
  | some (segment, rest) => ([segment], rest)
  termination_by cs.length
  decreasing_by
    have := length_lt_of_read? _h
    simp at this; omega

end Segment

namespace ColumnPath

/-- The written form of a path. -/
def text (path : ColumnPath) : String :=
  let last :=
    match path.terminal with
    | .column name => name
    | .wildcard => "*"
  String.join (path.links.map (· ++ ".")) ++ last

/-- The path to a column of the row itself. -/
def column (name : String) : ColumnPath := ⟨[], .column name⟩

/-- Whether a path names all columns. -/
def isWildcard (path : ColumnPath) : Bool := path.terminal = .wildcard

/-- The path made of the given segments, of which `position` bytes have gone before: the position of
the first `*` that does not come last is the error. -/
def ofSegments (position : Nat) : List Segment → Except Nat ColumnPath
  | [] => .error position
  | [.name cs] => .ok (column (String.ofList cs))
  | [.star] => .ok ⟨[], .wildcard⟩
  | .star :: _ :: _ => .error position
  | .name cs :: next :: more =>
    (ofSegments (position + byteSize cs + 1) (next :: more)).map fun path =>
      { path with links := String.ofList cs :: path.links }

/-- Reads a path. -/
def parse (input : String) : Except Error ColumnPath :=
  let cs := (Text.trim input).toList
  match Segment.readList cs with
  | (segment :: more, []) =>
    match ofSegments 0 (segment :: more) with
    | .ok path => .ok path
    | .error position => .error (.malformedPath input position .wildcardInside)
  | (_, rest) => .error (.malformedPath input (byteSize cs - byteSize rest) .segmentExpected)

end ColumnPath

end LinkQuery
