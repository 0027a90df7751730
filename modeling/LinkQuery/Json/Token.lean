import LinkQuery.Json.Number

/-!
# Tokens of JSON text

The text is cut into tokens by a machine that looks at one symbol at a time: `Scanner.step` says
what a character does in each mode, `Scanner.stepStray` what a byte does that belongs to no
character, and `tokens?` runs them over the whole text. Blanks between tokens are dropped.

A text literal is collected piece by piece. An escape `\uXXXX` names one unit of UTF-16, so that
characters beyond the first plane take two of them; `assemble` puts the halves together, and finds
that the literal denotes no text if a half stands alone or if a stray byte is in it.
-/

namespace LinkQuery.Json

/-- The tokens of JSON text. Numbers and the three words are read as soon as they end. -/
inductive Token where
  | openList
  | closeList
  | openTable
  | closeTable
  | comma
  | colon
  | scalar (value : Document)
  | text (value : Option String)
  deriving Repr

/-- A part of a text literal: a character, a unit of UTF-16 given by its number, or a byte that
belongs to no character. -/
inductive Piece where
  | char (c : Char)
  | unit (n : Nat)
  | stray
  deriving DecidableEq, Repr

namespace Piece

/-- The first half of a surrogate pair. -/
def isHigh (n : Nat) : Bool := 0xD800 ≤ n && n < 0xDC00

/-- The second half of a surrogate pair. -/
def isLow (n : Nat) : Bool := 0xDC00 ≤ n && n < 0xE000

/-- The text made of the given pieces, if no stray byte is among them and every half of a surrogate
pair has its partner. -/
def assemble : List Piece → Option (List Char)
  | [] => some []
  | .char c :: rest => (assemble rest).map (c :: ·)
  | .stray :: _ => none
  | .unit n :: rest =>
    if isHigh n then
      match rest with
      | .unit m :: rest =>
        if isLow m then
          (assemble rest).map (Char.ofNat (0x10000 + (n - 0xD800) * 0x400 + (m - 0xDC00)) :: ·)
        else none
      | _ => none
    else if isLow n then none
    else (assemble rest).map (Char.ofNat n :: ·)

end Piece

/-- The blanks of JSON. -/
def isSpace (c : Char) : Bool := c = ' ' || c = '\n' || c = '\t' || c = '\r'

/-- The characters of numbers and of the three words. -/
def isWordChar (c : Char) : Bool := c.isAlphanum || c = '+' || c = '-' || c = '.'

/-- The number or word with the given characters. -/
def word? (cs : List Char) : Option Token :=
  if cs = "null".toList then some (.scalar .null)
  else if cs = "true".toList then some (.scalar (.bool true))
  else if cs = "false".toList then some (.scalar (.bool false))
  else (Literal.ofChars? cs).map fun l => .scalar l.value

/-- The token that is a single character. -/
def punctuation? (c : Char) : Option Token :=
  if c = '[' then some .openList
  else if c = ']' then some .closeList
  else if c = '{' then some .openTable
  else if c = '}' then some .closeTable
  else if c = ',' then some .comma
  else if c = ':' then some .colon
  else none

/-- The character that an escape of one letter stands for. -/
def escape? (c : Char) : Option Char :=
  if c = '"' ∨ c = '\\' ∨ c = '/' then some c
  else if c = 'b' then some '\x08'
  else if c = 'f' then some '\x0c'
  else if c = 'n' then some '\n'
  else if c = 'r' then some '\r'
  else if c = 't' then some '\t'
  else none

/-- The value of a hexadecimal digit. -/
def hexDigit? (c : Char) : Option Nat :=
  if c.isDigit then some (c.toNat - '0'.toNat)
  else if 'a' ≤ c ∧ c ≤ 'f' then some (c.toNat - 'a'.toNat + 10)
  else if 'A' ≤ c ∧ c ≤ 'F' then some (c.toNat - 'A'.toNat + 10)
  else none

/-- What the scanner is in the middle of. Collected parts stand in reverse. -/
inductive Mode where
  | between
  | word (chars : List Char)
  | text (pieces : List Piece)
  /-- After a backslash. -/
  | escape (pieces : List Piece)
  /-- After `\u`, with so many digits still to come and the value of those read. -/
  | hex (pieces : List Piece) (left : Nat) (value : Nat)
  deriving DecidableEq, Repr

/-- The scanner: the tokens found so far, in reverse, and its mode. -/
structure Scanner where
  tokens : List Token
  mode : Mode
  deriving Repr

namespace Scanner

/-- The scanner before the first character. -/
def start : Scanner := ⟨[], .between⟩

/-- A character between tokens. -/
def stepBetween (tokens : List Token) (c : Char) : Option Scanner :=
  if isSpace c then some ⟨tokens, .between⟩
  else if c = '"' then some ⟨tokens, .text []⟩
  else if isWordChar c then some ⟨tokens, .word [c]⟩
  else (punctuation? c).map fun token => ⟨token :: tokens, .between⟩

/-- The next character. -/
def step (s : Scanner) (c : Char) : Option Scanner :=
  match s.mode with
  | .between => stepBetween s.tokens c
  | .word chars =>
    if isWordChar c then some { s with mode := .word (c :: chars) }
    else (word? chars.reverse).bind fun token => stepBetween (token :: s.tokens) c
  | .text pieces =>
    if c = '"' then
      some ⟨.text ((Piece.assemble pieces.reverse).map String.ofList) :: s.tokens, .between⟩
    else if c = '\\' then some { s with mode := .escape pieces }
    else if c.toNat < 0x20 then none
    else some { s with mode := .text (.char c :: pieces) }
  | .escape pieces =>
    if c = 'u' then some { s with mode := .hex pieces 3 0 }
    else (escape? c).map fun c => { s with mode := .text (.char c :: pieces) }
  | .hex pieces left value =>
    (hexDigit? c).map fun d =>
      match left with
      | 0 => { s with mode := .text (.unit (value * 16 + d) :: pieces) }
      | left + 1 => { s with mode := .hex pieces left (value * 16 + d) }

/-- The next byte belongs to no character. It may stand in a text literal, but neither in an escape
nor between literals. -/
def stepStray (s : Scanner) : Option Scanner :=
  match s.mode with
  | .text pieces => some { s with mode := .text (.stray :: pieces) }
  | _ => none

/-- The next symbol, a character or a stray byte. -/
def stepSymbol (s : Scanner) : Option Char → Option Scanner
  | some c => s.step c
  | none => s.stepStray

/-- The tokens in order, once the text has ended: a word may end with the text, a text literal may
not. -/
def finish (s : Scanner) : Option (List Token) :=
  match s.mode with
  | .between => some s.tokens.reverse
  | .word chars => (word? chars.reverse).map fun token => (token :: s.tokens).reverse
  | _ => none

end Scanner

/-- The tokens of JSON text, given by its symbols. -/
def tokens? (symbols : List (Option Char)) : Option (List Token) :=
  (symbols.foldlM Scanner.stepSymbol .start).bind (·.finish)

/-- Where there are characters only, each does what `Scanner.step` says. -/
theorem tokens?_map_some (cs : List Char) :
    tokens? (cs.map some) = (cs.foldlM Scanner.step .start).bind (·.finish) := by
  rw [tokens?, List.foldlM_map]
  rfl

end LinkQuery.Json
