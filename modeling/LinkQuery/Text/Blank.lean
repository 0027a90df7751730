/-!
# Blank characters

Column paths, column types and cursor tokens may be surrounded by blanks, which carry no meaning.
A character is *blank* when it has the Unicode property `White_Space`; there are twenty-five of
them, and they are listed here as ranges.

* `isBlank c` decides the property.
* `trim s` drops the blanks on both ends of `s`, `trimEnd s` those on its right end only.
-/

namespace LinkQuery.Text

/-- The code points with the property `White_Space`, as inclusive ranges in increasing order. -/
def blankRanges : List (Nat × Nat) :=
  [(0x09, 0x0D), (0x20, 0x20), (0x85, 0x85), (0xA0, 0xA0), (0x1680, 0x1680), (0x2000, 0x200A),
    (0x2028, 0x2029), (0x202F, 0x202F), (0x205F, 0x205F), (0x3000, 0x3000)]

/-- Whether `n` lies in one of `ranges`, which are in increasing order: the search ends at the first
range that starts above `n`. -/
def inRanges (n : Nat) : List (Nat × Nat) → Bool
  | [] => false
  | (low, high) :: rest => if n < low then false else n ≤ high || inRanges n rest

/-- A blank: a character with the Unicode property `White_Space`. -/
def isBlank (c : Char) : Bool := inRanges c.toNat blankRanges

/-- The characters of a line without the blanks on its left end. -/
def trimStartChars (cs : List Char) : List Char := cs.dropWhile isBlank

/-- The characters of a line without the blanks on its right end. -/
def trimEndChars (cs : List Char) : List Char := (cs.reverse.dropWhile isBlank).reverse

/-- `s` without the blanks on its right end. -/
def trimEnd (s : String) : String := String.ofList (trimEndChars s.toList)

/-- `s` without the blanks on either end. -/
def trim (s : String) : String := String.ofList (trimEndChars (trimStartChars s.toList))

/-- Every blank of the core library is a blank here; the converse fails, for instance at the
no-break space. -/
theorem isBlank_of_isWhitespace {c : Char} (h : c.isWhitespace = true) : isBlank c = true := by
  simp only [Char.isWhitespace, Bool.or_eq_true, decide_eq_true_eq] at h
  rcases h with ((h | h) | h) | h <;> subst h <;> decide

end LinkQuery.Text
