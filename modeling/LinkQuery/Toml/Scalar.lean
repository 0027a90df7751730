import LinkQuery.Json.Number

/-!
# Words of TOML

The scalars that are not text literals are written as a single word: truth values, integers, floats,
dates and times. `scalar?` reads such a word. Integers have 64 bits with a sign. Of floats, dates
and times only the spelling is checked, since no field of a record holds one.
-/

namespace LinkQuery.Toml

open Json.Literal (ofDigits)

/-- The characters of words. -/
def isWordChar (c : Char) : Bool :=
  c.isAlphanum || c = '_' || c = '+' || c = '-' || c = '.' || c = ':'

/-! ### Numbers -/

/-- The value of a digit in the given base. -/
def digit? (base : Nat) (c : Char) : Option Nat :=
  let value :=
    if c.isDigit then c.toNat - '0'.toNat
    else if 'a' ≤ c ∧ c ≤ 'f' then c.toNat - 'a'.toNat + 10
    else if 'A' ≤ c ∧ c ≤ 'F' then c.toNat - 'A'.toNat + 10
    else base
  if value < base then some value else none

/-- Digits in the given base, with single underscores between them where wanted. -/
def digits? (base : Nat) : List Char → Option (List Nat)
  | [] => none
  | [c] => (digit? base c).map ([·])
  | c :: '_' :: rest => do some ((← digit? base c) :: (← digits? base rest))
  | c :: rest => do some ((← digit? base c) :: (← digits? base rest))

/-- A number in the given base. -/
def numberIn? (base : Nat) (cs : List Char) : Option Nat :=
  (digits? base cs).map fun digits => digits.foldl (fun n d => n * base + d) 0

/-- A word without its sign, and whether that is a minus. -/
def unsigned : List Char → Bool × List Char
  | '-' :: rest => (true, rest)
  | '+' :: rest => (false, rest)
  | cs => (false, cs)

/-- The digits of a decimal number, which has no zeros in front. -/
def decimal? (cs : List Char) : Option (List Nat) :=
  match digits? 10 cs with
  | some (0 :: _ :: _) => none
  | digits => digits

/-- An integer. Numbers in other bases have no sign. -/
def integer? (cs : List Char) : Option Int :=
  let value : Option Int :=
    match cs with
    | '0' :: 'x' :: rest => (numberIn? 16 rest).map Int.ofNat
    | '0' :: 'o' :: rest => (numberIn? 8 rest).map Int.ofNat
    | '0' :: 'b' :: rest => (numberIn? 2 rest).map Int.ofNat
    | cs =>
      let (negative, cs) := unsigned cs
      (decimal? cs).map fun digits =>
        if negative then -(ofDigits digits : Int) else (ofDigits digits : Int)
  value.filter fitsSigned

/-- Whether `digits * 10 ^ power` lies beyond the largest float. -/
def isTooLarge (digits : List Nat) (power : Int) : Bool :=
  let n := ofDigits digits
  -- The place of the leading digit settles all but the numbers near the limit.
  let size := (digits.dropWhile (· = 0)).length + power
  if n = 0 ∨ size ≤ 308 then false
  else if 310 ≤ size then true
  else
    (Binary64.round false (n * Nat.pow 10 power.toNat) (Nat.pow 10 (-power).toNat)).isNone

/-- The exponent of a float. -/
def exponent? (cs : List Char) : Option Int :=
  let (negative, cs) := unsigned cs
  (digits? 10 cs).map fun digits =>
    if negative then -(ofDigits digits : Int) else (ofDigits digits : Int)

/-- Whether a word is a float: a decimal number with a fraction, an exponent or both, or one of the
special values. A positive one must not be too large. A whole number that is too large for an
integer is no float either. -/
def isFloat (cs : List Char) : Bool :=
  let (negative, cs) := unsigned cs
  if cs = "inf".toList ∨ cs = "nan".toList then true
  else
    let isMark (c : Char) : Bool := c = 'e' || c = 'E'
    let mantissa := cs.takeWhile fun c => !isMark c
    let whole := mantissa.takeWhile (· ≠ '.')
    let afterWhole := mantissa.dropWhile (· ≠ '.')
    let afterMantissa := cs.dropWhile fun c => !isMark c
    let fraction : Option (List Nat) :=
      match afterWhole with
      | [] => some []
      | _ :: rest => digits? 10 rest
    let exponent : Option Int :=
      match afterMantissa with
      | [] => some 0
      | _ :: rest => exponent? rest
    match decimal? whole, fraction, exponent with
    | some whole, some fraction, some exponent =>
      !(afterWhole.isEmpty && afterMantissa.isEmpty) &&
        (negative || !isTooLarge (whole ++ fraction) (exponent - fraction.length))
    | _, _, _ => false

/-! ### Dates and times -/

/-- A number of exactly the given count of digits at the start, and what follows it. -/
def fixed? (count : Nat) (cs : List Char) : Option (Nat × List Char) :=
  let digits := cs.take count
  if digits.length = count ∧ digits.all Char.isDigit then
    some (ofDigits (digits.map fun c => c.toNat - '0'.toNat), cs.drop count)
  else none

/-- Skips the given character. -/
def skip? (c : Char) : List Char → Option (List Char)
  | d :: rest => if c = d then some rest else none
  | [] => none

/-- The number of days of a month. -/
def daysOfMonth (year month : Nat) : Nat :=
  if month = 2 then
    if year % 4 = 0 ∧ (year % 100 ≠ 0 ∨ year % 400 = 0) then 29 else 28
  else if month = 4 ∨ month = 6 ∨ month = 9 ∨ month = 11 then 30
  else 31

/-- Skips a date. -/
def date? (cs : List Char) : Option (List Char) := do
  let (year, cs) ← fixed? 4 cs
  let (month, cs) ← fixed? 2 (← skip? '-' cs)
  let (day, cs) ← fixed? 2 (← skip? '-' cs)
  if 1 ≤ month ∧ month ≤ 12 ∧ 1 ≤ day ∧ day ≤ daysOfMonth year month then some cs else none

/-- Skips a fraction of a second, if there is one. -/
def secondFraction? : List Char → Option (List Char)
  | '.' :: c :: rest => if c.isDigit then some (rest.dropWhile Char.isDigit) else none
  | cs => some cs

/-- Skips a time of day. Seconds run up to sixty, for a minute with a leap second. -/
def time? (cs : List Char) : Option (List Char) := do
  let (hour, cs) ← fixed? 2 cs
  let (minute, cs) ← fixed? 2 (← skip? ':' cs)
  let (second, cs) ← fixed? 2 (← skip? ':' cs)
  if hour ≤ 23 ∧ minute ≤ 59 ∧ second ≤ 60 then secondFraction? cs else none

/-- Whether the characters are an offset from universal time, or nothing. -/
def isOffset : List Char → Bool
  | [] => true
  | ['Z'] => true
  | ['z'] => true
  | sign :: cs =>
    (sign = '+' || sign = '-') &&
      match fixed? 2 cs with
      | some (hour, ':' :: cs) =>
        match fixed? 2 cs with
        | some (minute, []) => hour ≤ 23 && minute ≤ 59
        | _ => false
      | _ => false

/-- Whether a word is a time of day, with an offset if it may have one. -/
def isTime (mayHaveOffset : Bool) (cs : List Char) : Bool :=
  match time? cs with
  | some rest => if mayHaveOffset then isOffset rest else rest.isEmpty
  | none => false

/-- Whether a word is a date, a date and a time, or a time. -/
def isMoment (cs : List Char) : Bool :=
  match date? cs with
  | some [] => true
  | some (delimiter :: rest) => (delimiter = 'T' || delimiter = 't') && isTime true rest
  | none => isTime false cs

/-! ### Words -/

/-- The scalar that a word denotes. -/
def scalarOfWord? (cs : List Char) : Option Document :=
  if cs = "true".toList then some (.bool true)
  else if cs = "false".toList then some (.bool false)
  else
    match integer? cs with
    | some i => some (.integer i)
    | none => if isFloat cs || isMoment cs then some .other else none

/-- The time that may follow a date after a single blank, and what follows it. -/
def timeAfterBlank? (cs : List Char) : Option (List Char) :=
  let word := cs.takeWhile isWordChar
  match fixed? 2 word with
  | some (_, ':' :: _) => if isTime true word then some (cs.dropWhile isWordChar) else none
  | _ => none

/-- A scalar at the start, and what follows it. -/
def word? (cs : List Char) : Option (Document × List Char) :=
  let word := cs.takeWhile isWordChar
  let rest := cs.dropWhile isWordChar
  match scalarOfWord? word with
  | none => none
  | some scalar =>
    -- A blank may stand between a date and a time, which are one scalar then.
    match date? word, rest with
    | some [], ' ' :: more =>
      some (scalar, (timeAfterBlank? more).getD rest)
    | _, _ => some (scalar, rest)

end LinkQuery.Toml
