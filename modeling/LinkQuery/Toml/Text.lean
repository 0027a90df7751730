import LinkQuery.Json.Token

/-!
# Text literals of TOML

TOML has four kinds of text literals: in double quotes, where a backslash introduces an escape, or
in single quotes, where every character stands for itself; and each of these on one line, or on
several lines between triple quotes. A line break inside a literal of several lines is a line feed,
and one right after the opening quotes does not count.

The readers start behind the opening quotes, and yield the text and what follows the closing quotes.
-/

namespace LinkQuery.Toml

/-- The characters that may stand in comments and literals: no control characters except the tab. -/
def isPlainChar (c : Char) : Bool := c = '\t' || (0x20 ≤ c.toNat && c.toNat ≠ 0x7F)

/-- The blanks inside a line. -/
def isGap (c : Char) : Bool := c = ' ' || c = '\t'

/-- Whether a line break stands at the start. -/
def atLineBreak : List Char → Bool
  | '\n' :: _ => true
  | '\r' :: '\n' :: _ => true
  | _ => false

/-- Skips a line break, if there is one at the start. -/
def skipLineBreak : List Char → List Char
  | '\n' :: rest => rest
  | '\r' :: '\n' :: rest => rest
  | cs => cs

/-- The character that an escape of one letter stands for. -/
def escape? (c : Char) : Option Char := if c = '/' then none else Json.escape? c

/-- The character whose number has the given hexadecimal digits. -/
def scalar? (digits : List Char) : Option Char := do
  let values ← digits.mapM Json.hexDigit?
  let n := values.foldl (fun n d => n * 16 + d) 0
  if n.isValidChar then some (Char.ofNat n) else none

/-- Puts a character in front of what was read. -/
def consChar (c : Char) : Option (List Char × List Char) → Option (List Char × List Char) :=
  Option.map fun (text, rest) => (c :: text, rest)

/-- A literal in double quotes. -/
def basicText? : List Char → Option (List Char × List Char)
  | '"' :: rest => some ([], rest)
  | '\\' :: 'u' :: a :: b :: c :: d :: rest =>
    (scalar? [a, b, c, d]).bind fun x => consChar x (basicText? rest)
  | '\\' :: 'U' :: a :: b :: c :: d :: e :: f :: g :: h :: rest =>
    (scalar? [a, b, c, d, e, f, g, h]).bind fun x => consChar x (basicText? rest)
  | '\\' :: c :: rest => (escape? c).bind fun x => consChar x (basicText? rest)
  | c :: rest => if isPlainChar c then consChar c (basicText? rest) else none
  | [] => none

/-- A literal in single quotes. -/
def literalText? : List Char → Option (List Char × List Char)
  | '\'' :: rest => some ([], rest)
  | c :: rest => if isPlainChar c then consChar c (literalText? rest) else none
  | [] => none

/-- A literal in triple double quotes. One or two quotes may stand in it, also at its end. A
backslash at the end of a line takes away everything up to the next character that is not blank;
`skipping` tells that this is going on. -/
def basicLines? (skipping : Bool) : List Char → Option (List Char × List Char)
  | '"' :: '"' :: '"' :: '"' :: '"' :: rest => some (['"', '"'], rest)
  | '"' :: '"' :: '"' :: '"' :: rest => some (['"'], rest)
  | '"' :: '"' :: '"' :: rest => some ([], rest)
  | '\\' :: 'u' :: a :: b :: c :: d :: rest =>
    (scalar? [a, b, c, d]).bind fun x => consChar x (basicLines? false rest)
  | '\\' :: 'U' :: a :: b :: c :: d :: e :: f :: g :: h :: rest =>
    (scalar? [a, b, c, d, e, f, g, h]).bind fun x => consChar x (basicLines? false rest)
  | '\\' :: c :: rest =>
    if atLineBreak ((c :: rest).dropWhile isGap) then basicLines? true (c :: rest)
    else (escape? c).bind fun x => consChar x (basicLines? false rest)
  | '\n' :: rest =>
    if skipping then basicLines? true rest else consChar '\n' (basicLines? false rest)
  | '\r' :: '\n' :: rest =>
    if skipping then basicLines? true rest else consChar '\n' (basicLines? false rest)
  | c :: rest =>
    if skipping && isGap c then basicLines? true rest
    else if isPlainChar c then consChar c (basicLines? false rest)
    else none
  | [] => none

/-- A literal in triple single quotes. One or two quotes may stand in it, also at its end. -/
def literalLines? : List Char → Option (List Char × List Char)
  | '\'' :: '\'' :: '\'' :: '\'' :: '\'' :: rest => some (['\'', '\''], rest)
  | '\'' :: '\'' :: '\'' :: '\'' :: rest => some (['\''], rest)
  | '\'' :: '\'' :: '\'' :: rest => some ([], rest)
  | '\n' :: rest => consChar '\n' (literalLines? rest)
  | '\r' :: '\n' :: rest => consChar '\n' (literalLines? rest)
  | c :: rest => if isPlainChar c then consChar c (literalLines? rest) else none
  | [] => none

/-- A literal on one line, its opening quote included. -/
def lineText? : List Char → Option (List Char × List Char)
  | '"' :: rest => basicText? rest
  | '\'' :: rest => literalText? rest
  | _ => none

/-- A literal of any kind, its opening quotes included. -/
def text? : List Char → Option (List Char × List Char)
  | '"' :: '"' :: '"' :: rest => basicLines? false (skipLineBreak rest)
  | '\'' :: '\'' :: '\'' :: rest => literalLines? (skipLineBreak rest)
  | cs => lineText? cs

end LinkQuery.Toml
