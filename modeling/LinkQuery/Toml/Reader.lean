import LinkQuery.Toml.Scalar
import LinkQuery.Toml.Section
import LinkQuery.Toml.Text

/-!
# Documents from TOML

A file is a sequence of lines: blank ones, comments, headers of tables, and keys with values. Only
arrays and literals of several lines extend over more than one line.

* `read? text` is the document written in `text`, if it is written correctly.

Each reader takes the characters that are left and yields what it read together with the characters
that follow. Readers that call each other take a number of steps; every step reads at least one
character, so the length of the file is enough.
-/

namespace LinkQuery.Toml

/-- The characters behind the blanks at the start. -/
def skipGap (cs : List Char) : List Char := cs.dropWhile isGap

/-- Skips a comment, if there is one at the start. -/
def skipComment : List Char → List Char
  | '#' :: rest => rest.dropWhile isPlainChar
  | cs => cs

/-- Skips the rest of a line, on which there may only be a comment. -/
def lineRest? (cs : List Char) : Option (List Char) :=
  match skipComment (skipGap cs) with
  | [] => some []
  | cs => if atLineBreak cs then some (skipLineBreak cs) else none

/-- Skips blanks, line breaks and comments; `inComment` tells that a comment has begun. -/
def skipLines? (inComment : Bool) : List Char → Option (List Char)
  | [] => some []
  | '\n' :: rest => skipLines? false rest
  | '\r' :: '\n' :: rest => skipLines? false rest
  | c :: rest =>
    if inComment then if isPlainChar c then skipLines? true rest else none
    else if isGap c then skipLines? false rest
    else if c = '#' then skipLines? true rest
    else some (c :: rest)

/-! ### Keys -/

/-- The characters of keys without quotes. -/
def isBareChar (c : Char) : Bool := c.isAlphanum || c = '_' || c = '-'

/-- A part of a key between dots. -/
def keyPart? (cs : List Char) : Option (String × List Char) :=
  match lineText? cs with
  | some (text, rest) => some (String.ofList text, rest)
  | none =>
    match cs.takeWhile isBareChar with
    | [] => none
    | c :: more => some (String.ofList (c :: more), cs.dropWhile isBareChar)

/-- The largest number of parts of a key. -/
def maxKeyParts : Nat := 79

/-- A key, with blanks around its parts: the parts before the last one, and the last one. -/
def key? : Nat → List Char → Option ((List String × String) × List Char)
  | 0, _ => none
  | steps + 1, cs => do
    let (part, cs) ← keyPart? (skipGap cs)
    match skipGap cs with
    | '.' :: rest =>
      let ((path, name), rest) ← key? steps rest
      some ((part :: path, name), rest)
    | cs => some (([], part), cs)

/-! ### Values -/

/-- The largest number of arrays and inline tables inside each other. -/
def maxDepth : Nat := 79

mutual

/-- A value, with at most `depth` arrays and inline tables inside each other. -/
def value? (depth : Nat) : Nat → List Char → Option (Document × List Char)
  | 0, _ => none
  | steps + 1, cs =>
    match cs, depth with
    | '[' :: rest, depth + 1 => do
      let (items, rest) ← items? depth steps (← skipLines? false rest)
      some (.list items, rest)
    | '{' :: rest, depth + 1 =>
      match skipGap rest with
      | '}' :: rest => some (.table [], rest)
      | rest => do
        let (members, rest) ← members? depth steps [] rest
        some (.table (documents members), rest)
    | cs, _ =>
      match text? cs with
      | some (text, rest) => some (.text (some (String.ofList text)), rest)
      | none => word? cs

/-- The items of an array, which may end with a comma, up to the closing bracket. -/
def items? (depth : Nat) : Nat → List Char → Option (List Document × List Char)
  | 0, _ => none
  | _ + 1, ']' :: rest => some ([], rest)
  | steps + 1, cs => do
    let (value, cs) ← value? depth steps cs
    match ← skipLines? false cs with
    | ']' :: rest => some ([value], rest)
    | ',' :: rest => do
      let (values, rest) ← items? depth steps (← skipLines? false rest)
      some (value :: values, rest)
    | _ => none

/-- The members of an inline table, added to the ones before, up to the closing brace. -/
def members? (depth : Nat) : Nat → Items → List Char → Option (Items × List Char)
  | 0, _, _ => none
  | steps + 1, members, cs => do
    let ((path, name), cs) ← key? maxKeyParts cs
    match cs with
    | '=' :: rest => do
      let (value, rest) ← value? depth steps (skipGap rest)
      let members ← Items.addValue path name value .header members
      match skipGap rest with
      | '}' :: rest => some (members, rest)
      | ',' :: rest => members? depth steps members rest
      | _ => none
    | _ => none

end

/-! ### Lines -/

/-- Reads a line, or as many as a value takes, into the assembly. -/
def line? (a : Assembly) (cs : List Char) : Option (Assembly × List Char) :=
  match skipGap cs with
  | '[' :: '[' :: rest => do
    match ← key? maxKeyParts rest with
    | ((path, name), ']' :: ']' :: rest) => some (← a.openRow path name, ← lineRest? rest)
    | _ => none
  | '[' :: rest => do
    match ← key? maxKeyParts rest with
    | ((path, name), ']' :: rest) => some (← a.openTable path name, ← lineRest? rest)
    | _ => none
  | cs =>
    match lineRest? cs with
    | some rest => some (a, rest)
    | none => do
      match ← key? maxKeyParts cs with
      | ((path, name), '=' :: rest) => do
        let (value, rest) ← value? maxDepth (rest.length + 1) (skipGap rest)
        some (← a.addValue path name value, ← lineRest? rest)
      | _ => none

/-- Reads all lines into the assembly. -/
def lines? : Nat → Assembly → List Char → Option Assembly
  | _, a, [] => some a
  | 0, _, _ :: _ => none
  | steps + 1, a, cs => do
    let (a, cs) ← line? a cs
    lines? steps a cs

/-- The characters of a file without the mark of the byte order. -/
def skipByteOrderMark : List Char → List Char
  | '\uFEFF' :: rest => rest
  | cs => cs

/-- The document written in `text`. -/
def read? (text : String) : Option Document :=
  let cs := skipByteOrderMark text.toList
  (lines? (cs.length + 1) .start cs).bind (·.finish)

/-! ### Records -/

/-- How records are written in TOML: the name of an alternative that is written as a table stands
beside an empty array or table, and a record written as an array may have further items. -/
def dialect : Dialect where
  isVoid
    | .list [] => true
    | .table [] => true
    | _ => false
  allowsSurplus := true

end LinkQuery.Toml
