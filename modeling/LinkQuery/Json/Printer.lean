import LinkQuery.Json.Value
import LinkQuery.Number.Shortest

/-!
# Writing JSON

A value is written in one of two layouts: `Value.compact`, without any blanks, and `Value.pretty`,
one part a line and two blanks deeper for each level.

In both, a text escapes the quote, the backslash and the characters below the blank, and writes all
other characters as they are; a float has its fewest digits, positionally while its leading digit
stands between the fifth place after the point and the sixteenth before it, and with an exponent
otherwise. A float always shows that it is one, by a point or an exponent.
-/

namespace LinkQuery.Json

/-- The digits of a natural number. -/
def natChars (n : Nat) : List Char := Nat.toDigits 10 n

/-- The digits of an integer, after its sign. -/
def intChars : Int → List Char
  | .ofNat n => natChars n
  | .negSucc n => '-' :: natChars (n + 1)

/-- The positive number `digits * 10 ^ power` as a float is written. -/
def decimalChars (digits : Nat) (power : Int) : List Char :=
  let ds := natChars digits
  -- The power of ten of the leading digit.
  let leading := power + ds.length - 1
  if 0 ≤ power ∧ leading ≤ 15 then ds ++ List.replicate power.toNat '0' ++ ['.', '0']
  else if 0 ≤ leading ∧ leading ≤ 15 then
    ds.take (leading + 1).toNat ++ '.' :: ds.drop (leading + 1).toNat
  else if -5 ≤ leading ∧ leading < 0 then
    '0' :: '.' :: List.replicate (-leading - 1).toNat '0' ++ ds
  else
    let mantissa :=
      match ds with
      | [] => []
      | [d] => [d]
      | d :: rest => d :: '.' :: rest
    mantissa ++ 'e' :: (if leading < 0 then '-' else '+') :: natChars leading.natAbs

/-- A float. -/
def floatChars (x : Binary64) : List Char :=
  let magnitude :=
    if x.isZero then ['0', '.', '0']
    else
      let (digits, power) := x.shortest
      decimalChars digits power
  if x.negative then '-' :: magnitude else magnitude

/-- A character inside a text literal. -/
def escapedChar (c : Char) : List Char :=
  if c = '"' then ['\\', '"']
  else if c = '\\' then ['\\', '\\']
  else if c = '\x08' then ['\\', 'b']
  else if c = '\x0c' then ['\\', 'f']
  else if c = '\n' then ['\\', 'n']
  else if c = '\r' then ['\\', 'r']
  else if c = '\t' then ['\\', 't']
  else if c.toNat < 0x20 then
    ['\\', 'u', '0', '0', Nat.digitChar (c.toNat / 16), Nat.digitChar (c.toNat % 16)]
  else [c]

/-- A text literal. -/
def textChars (s : String) : List Char := '"' :: s.toList.flatMap escapedChar ++ ['"']

namespace Value

/-! ### The compact layout -/

mutual

/-- The characters of a value without blanks. -/
def chars : Value → List Char
  | null => "null".toList
  | bool true => "true".toList
  | bool false => "false".toList
  | int i => intChars i
  | float x => floatChars x
  | text s => textChars s
  | array [] => ['[', ']']
  | array (v :: vs) => '[' :: chars v ++ itemsChars vs ++ [']']
  | object [] => ['{', '}']
  | object ((n, v) :: ms) => '{' :: textChars n ++ ':' :: chars v ++ membersChars ms ++ ['}']

/-- The items of an array after the first. -/
def itemsChars : List Value → List Char
  | [] => []
  | v :: vs => ',' :: chars v ++ itemsChars vs

/-- The members of an object after the first. -/
def membersChars : List (String × Value) → List Char
  | [] => []
  | (n, v) :: ms => ',' :: textChars n ++ ':' :: chars v ++ membersChars ms

end

/-- The text of a value without blanks. -/
def compact (v : Value) : String := String.ofList v.chars

/-! ### The layout with one part a line -/

/-- A new line at the given level of nesting. -/
def lineBreak (level : Nat) : List Char := '\n' :: List.replicate (2 * level) ' '

mutual

/-- The characters of a value that starts at the given level. -/
def prettyChars (level : Nat) : Value → List Char
  | array [] => ['[', ']']
  | array (v :: vs) =>
    '[' :: lineBreak (level + 1) ++ prettyChars (level + 1) v ++ prettyItems (level + 1) vs ++
      lineBreak level ++ [']']
  | object [] => ['{', '}']
  | object ((n, v) :: ms) =>
    '{' :: lineBreak (level + 1) ++ textChars n ++ ':' :: ' ' :: prettyChars (level + 1) v ++
      prettyMembers (level + 1) ms ++ lineBreak level ++ ['}']
  | null => chars null
  | bool b => chars (bool b)
  | int i => chars (int i)
  | float x => chars (float x)
  | text s => chars (text s)

/-- The items of an array after the first. -/
def prettyItems (level : Nat) : List Value → List Char
  | [] => []
  | v :: vs => ',' :: lineBreak level ++ prettyChars level v ++ prettyItems level vs

/-- The members of an object after the first. -/
def prettyMembers (level : Nat) : List (String × Value) → List Char
  | [] => []
  | (n, v) :: ms =>
    ',' :: lineBreak level ++ textChars n ++ ':' :: ' ' :: prettyChars level v ++
      prettyMembers level ms

end

/-- The text of a value with one part a line. -/
def pretty (v : Value) : String := String.ofList (v.prettyChars 0)

end Value

end LinkQuery.Json
