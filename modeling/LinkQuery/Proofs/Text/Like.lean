import LinkQuery.Text.Like
import Mathlib.Data.List.Infix

/-!
# What `like` patterns match

The pattern of a text operator goes to the database, which reads it by the rules of `like`. Here
these rules are written down, apart from the functions that make patterns, and so is what each
operator promises of a text. The two agree for all operands, whatever special characters they hold.

* `Text.likeParts?` reads a pattern. One that breaks off behind an escape character cannot be read,
  and the database refuses it. `Text.matchesParts` matches a text with what was read.
* `Text.GlobMatches` are the rules for globs, on the glob as it is written.
* `PatternOp.Promises` is what an operator promises, in terms of parts of the text.
* `PatternOp.like?_likePattern_iff`: the pattern of an operator can be read, and it matches just the
  texts that the operator promises.
-/

namespace LinkQuery

namespace Text

/-! ### The rules of `like` -/

/-- What a part of a `like` pattern stands for. -/
inductive LikePart where
  /-- Any run of characters, be it empty. -/
  | run
  /-- One character, whichever it is. -/
  | wild
  /-- This one character. -/
  | char (c : Char)
  deriving DecidableEq, Repr

/-- What a character of a pattern stands for where it is not escaped. -/
def LikePart.ofChar (c : Char) : LikePart :=
  if c = '%' then .run else if c = '_' then .wild else .char c

/-- The parts of a `like` pattern, unless it breaks off behind an escape character. -/
def likeParts? : List Char → Option (List LikePart)
  | [] => some []
  | ['\\'] => none
  | '\\' :: c :: pattern => (likeParts? pattern).map (.char c :: ·)
  | c :: pattern => (likeParts? pattern).map (.ofChar c :: ·)

/-- Whether a text is made up of what the parts of a pattern stand for, one after the other. -/
def matchesParts : List LikePart → List Char → Bool
  | [], text => text.isEmpty
  | .run :: parts, text => text.tails.any (matchesParts parts)
  | .wild :: parts, text =>
    match text with
    | [] => false
    | _ :: rest => matchesParts parts rest
  | .char c :: parts, text =>
    match text with
    | [] => false
    | d :: rest => d = c && matchesParts parts rest

/-- The value of `text like pattern`, unless the database refuses the pattern. -/
def like? (pattern text : List Char) : Option Bool :=
  (likeParts? pattern).map fun parts => matchesParts parts text

/-! ### The rules for globs -/

/-- A glob matches a text: `*` stands for any run of characters, `?` for one character, and every
other character for itself. -/
inductive GlobMatches : List Char → List Char → Prop where
  | nil : GlobMatches [] []
  | star {pattern rest : List Char} (run : List Char) (h : GlobMatches pattern rest) :
      GlobMatches ('*' :: pattern) (run ++ rest)
  | mark {pattern rest : List Char} (c : Char) (h : GlobMatches pattern rest) :
      GlobMatches ('?' :: pattern) (c :: rest)
  | char {c : Char} {pattern rest : List Char} (hstar : c ≠ '*') (hmark : c ≠ '?')
      (h : GlobMatches pattern rest) : GlobMatches (c :: pattern) (c :: rest)

/-! ### Reading patterns -/

theorem likeParts?_cons {c : Char} (h : c ≠ '\\') (pattern : List Char) :
    likeParts? (c :: pattern) = (likeParts? pattern).map (.ofChar c :: ·) := by
  rw [likeParts?]
  · intro hc
    exact absurd hc h
  · intro _ _ hc
    exact absurd hc h

/-- A character of a literal text is read as itself, whatever follows. -/
theorem likeParts?_escapeLikeChar (c : Char) (pattern : List Char) :
    likeParts? (escapeLikeChar c ++ pattern) = (likeParts? pattern).map (.char c :: ·) := by
  rw [escapeLikeChar]
  by_cases hspecial : c = '%' ∨ c = '_' ∨ c = '\\'
  · -- the escape character takes the next one as it is
    rw [if_pos hspecial]
    rfl
  · rw [if_neg hspecial]
    push Not at hspecial
    obtain ⟨hpercent, hunderscore, hescape⟩ := hspecial
    -- any other character stands for itself
    have hpart : LikePart.ofChar c = .char c := by
      rw [LikePart.ofChar, if_neg hpercent, if_neg hunderscore]
    rw [List.singleton_append, likeParts?_cons hescape, hpart]

/-- A literal text is read as its characters, whatever follows. -/
theorem likeParts?_escapeLike (literal pattern : List Char) :
    likeParts? (escapeLike literal ++ pattern) =
      (likeParts? pattern).map (literal.map .char ++ ·) := by
  induction literal with
  | nil =>
    rw [escapeLike_nil, List.nil_append]
    exact Option.map_id'.symm
  | cons c literal ih =>
    rw [escapeLike_cons, List.append_assoc, likeParts?_escapeLikeChar, ih, Option.map_map]
    rfl

/-- What the characters of a glob stand for. -/
def LikePart.ofGlobChar (c : Char) : LikePart :=
  if c = '*' then .run else if c = '?' then .wild else .char c

/-- A character of a glob is carried over to what it stands for. -/
theorem likeParts?_globToLikeChar (c : Char) (pattern : List Char) :
    likeParts? (globToLikeChar c ++ pattern) =
      (likeParts? pattern).map (.ofGlobChar c :: ·) := by
  rw [globToLikeChar, LikePart.ofGlobChar]
  -- a star, a question mark or a literal character
  by_cases hstar : c = '*'
  · rw [if_pos hstar, if_pos hstar]
    exact likeParts?_cons (by decide) pattern
  · rw [if_neg hstar, if_neg hstar]
    by_cases hmark : c = '?'
    · rw [if_pos hmark, if_pos hmark]
      exact likeParts?_cons (by decide) pattern
    · rw [if_neg hmark, if_neg hmark]
      exact likeParts?_escapeLikeChar c pattern

theorem likeParts?_globToLike (pattern : List Char) :
    likeParts? (globToLike pattern) = some (pattern.map .ofGlobChar) := by
  induction pattern with
  | nil => rfl
  | cons c pattern ih =>
    rw [globToLike_cons, likeParts?_globToLikeChar, ih]
    rfl

/-! ### Matching parts -/

theorem matchesParts_nil_iff {text : List Char} : matchesParts [] text ↔ text = [] :=
  List.isEmpty_iff

/-- What a part takes from a text. -/
def LikePart.Takes : LikePart → List Char → Prop
  | run, _ => True
  | wild, taken => ∃ c, taken = [c]
  | char c, taken => taken = [c]

/-- A part takes what it stands for from the beginning of a text, and leaves the rest to the others.
-/
theorem matchesParts_cons_iff {part : LikePart} {parts : List LikePart} {text : List Char} :
    matchesParts (part :: parts) text ↔
      ∃ taken rest, text = taken ++ rest ∧ part.Takes taken ∧ matchesParts parts rest := by
  cases part with
  | run =>
    rw [matchesParts, List.any_eq_true]
    constructor
    · rintro ⟨rest, hrest, hmatches⟩
      -- what a run leaves over is an end of the text
      obtain ⟨taken, rfl⟩ := (List.mem_tails rest text).1 hrest
      exact ⟨taken, rest, rfl, True.intro, hmatches⟩
    · rintro ⟨taken, rest, rfl, -, hmatches⟩
      exact ⟨rest, (List.mem_tails rest _).2 (List.suffix_append taken rest), hmatches⟩
  -- one character is taken, whichever it is
  | wild =>
    cases text with
    | nil => simp [matchesParts, LikePart.Takes]
    | cons d text =>
      constructor
      · intro h
        exact ⟨[d], text, rfl, ⟨d, rfl⟩, h⟩
      · rintro ⟨_, rest, htext, ⟨c, rfl⟩, hmatches⟩
        obtain ⟨rfl, rfl⟩ := List.cons.inj htext
        exact hmatches
  -- the very character is taken
  | char c =>
    cases text with
    | nil => simp [matchesParts, LikePart.Takes]
    | cons d text =>
      rw [matchesParts, Bool.and_eq_true, decide_eq_true_iff]
      constructor
      · rintro ⟨rfl, h⟩
        exact ⟨[d], text, rfl, rfl, h⟩
      · rintro ⟨_, rest, htext, rfl, hmatches⟩
        obtain ⟨rfl, rfl⟩ := List.cons.inj htext
        exact ⟨rfl, hmatches⟩

/-- Parts that follow each other match texts that follow each other. -/
theorem matchesParts_append_iff {first second : List LikePart} {text : List Char} :
    matchesParts (first ++ second) text ↔
      ∃ front back, text = front ++ back ∧ matchesParts first front ∧ matchesParts second back := by
  induction first generalizing text with
  | nil =>
    -- the first part takes the front of the text
    rw [List.nil_append]
    constructor
    · intro h
      exact ⟨[], text, rfl, rfl, h⟩
    · rintro ⟨front, back, rfl, hfront, hback⟩
      rw [matchesParts_nil_iff.1 hfront]
      exact hback
  | cons part first ih =>
    rw [List.cons_append, matchesParts_cons_iff]
    constructor
    · rintro ⟨taken, rest, rfl, htaken, hrest⟩
      obtain ⟨front, back, rfl, hfront, hback⟩ := ih.1 hrest
      exact ⟨taken ++ front, back, (List.append_assoc taken front back).symm,
        matchesParts_cons_iff.2 ⟨taken, front, rfl, htaken, hfront⟩, hback⟩
    · rintro ⟨front, back, rfl, hfront, hback⟩
      obtain ⟨taken, rest, rfl, htaken, hrest⟩ := matchesParts_cons_iff.1 hfront
      exact ⟨taken, rest ++ back, List.append_assoc taken rest back, htaken,
        ih.2 ⟨rest, back, rfl, hrest, hback⟩⟩

/-- A run alone matches every text. -/
theorem matchesParts_lastRun (text : List Char) : matchesParts [.run] text :=
  matchesParts_cons_iff.2 ⟨text, [], (List.append_nil text).symm, True.intro, rfl⟩

/-- The characters of a literal text match this text alone. -/
theorem matchesParts_literal_iff {literal text : List Char} :
    matchesParts (literal.map .char) text ↔ text = literal := by
  induction literal generalizing text with
  | nil => exact matchesParts_nil_iff
  | cons c literal ih =>
    rw [List.map_cons, matchesParts_cons_iff]
    constructor
    · rintro ⟨_, rest, rfl, rfl, hrest⟩
      rw [ih.1 hrest]
      rfl
    · rintro rfl
      exact ⟨[c], literal, rfl, rfl, ih.2 rfl⟩

/-- What is carried over from a glob matches just what the glob matches. -/
theorem matchesParts_ofGlobChar_iff {pattern text : List Char} :
    matchesParts (pattern.map .ofGlobChar) text ↔ GlobMatches pattern text := by
  induction pattern generalizing text with
  | nil =>
    rw [List.map_nil, matchesParts_nil_iff]
    constructor
    · rintro rfl
      exact .nil
    · rintro ⟨⟩
      rfl
  | cons c pattern ih =>
    -- the cases are those of the rules, which tell `*` and `?` from all other characters
    rw [List.map_cons, LikePart.ofGlobChar, matchesParts_cons_iff]
    by_cases hstar : c = '*'
    · subst hstar
      rw [if_pos rfl]
      constructor
      · rintro ⟨run, rest, rfl, -, hrest⟩
        exact .star run (ih.1 hrest)
      · intro h
        cases h with
        | star run hrest => exact ⟨run, _, rfl, True.intro, ih.2 hrest⟩
        | char hstar => exact absurd rfl hstar
    · rw [if_neg hstar]
      by_cases hmark : c = '?'
      · subst hmark
        rw [if_pos rfl]
        constructor
        · rintro ⟨_, rest, rfl, ⟨d, rfl⟩, hrest⟩
          exact .mark d (ih.1 hrest)
        · intro h
          cases h with
          | mark d hrest => exact ⟨[d], _, rfl, ⟨d, rfl⟩, ih.2 hrest⟩
          | char _ hmark => exact absurd rfl hmark
      · rw [if_neg hmark]
        constructor
        · rintro ⟨_, rest, rfl, rfl, hrest⟩
          exact .char hstar hmark (ih.1 hrest)
        · intro h
          cases h with
          | star => exact absurd rfl hstar
          | mark => exact absurd rfl hmark
          | char _ _ hrest => exact ⟨[c], _, rfl, rfl, ih.2 hrest⟩

end Text

/-! ### The operators -/

namespace PatternOp

open Text

/-- What an operator promises of a text. -/
def Promises (op : PatternOp) (operand text : List Char) : Prop :=
  match op with
  | contains => operand <:+: text
  | startsWith => operand <+: text
  | endsWith => operand <:+ text
  | glob => GlobMatches operand text

/-- The parts of the pattern of an operator. -/
def likeParts (op : PatternOp) (operand : List Char) : List LikePart :=
  match op with
  | contains => [.run] ++ operand.map .char ++ [.run]
  | startsWith => operand.map .char ++ [.run]
  | endsWith => [.run] ++ operand.map .char
  | glob => operand.map .ofGlobChar

/-- The pattern of an operator can be read: none breaks off behind an escape character. -/
theorem likeParts?_likePattern (op : PatternOp) (operand : String) :
    likeParts? (op.likePattern operand).toList = some (op.likeParts operand.toList) := by
  have hpercent : ∀ pattern, likeParts? ('%' :: pattern) = (likeParts? pattern).map (.run :: ·) :=
    likeParts?_cons (by decide)
  unfold likePattern
  rw [String.toList_ofList]
  cases op with
  | contains =>
    show likeParts? ('%' :: (escapeLike operand.toList ++ ['%'])) = _
    rw [hpercent, likeParts?_escapeLike, hpercent]
    rfl
  | startsWith =>
    show likeParts? (escapeLike operand.toList ++ ['%']) = _
    rw [likeParts?_escapeLike, hpercent]
    rfl
  | endsWith =>
    show likeParts? ('%' :: escapeLike operand.toList) = _
    -- the literal text is followed by nothing
    rw [hpercent, ← List.append_nil (escapeLike operand.toList), likeParts?_escapeLike]
    simp [likeParts?, likeParts]
  | glob => exact likeParts?_globToLike operand.toList

theorem matchesParts_likeParts_iff {op : PatternOp} {operand text : List Char} :
    matchesParts (op.likeParts operand) text ↔ op.Promises operand text := by
  cases op with
  | contains =>
    show matchesParts ([.run] ++ operand.map .char ++ [.run]) text ↔ operand <:+: text
    -- a run, the literal text and another run, from left to right
    constructor
    · intro h
      obtain ⟨front, back, rfl, hfront, -⟩ := matchesParts_append_iff.1 h
      obtain ⟨before, middle, rfl, -, hmiddle⟩ := matchesParts_append_iff.1 hfront
      rw [matchesParts_literal_iff.1 hmiddle]
      exact ⟨before, back, rfl⟩
    · rintro ⟨before, back, rfl⟩
      have hfront : matchesParts ([.run] ++ operand.map .char) (before ++ operand) :=
        matchesParts_append_iff.2
          ⟨before, operand, rfl, matchesParts_lastRun before, matchesParts_literal_iff.2 rfl⟩
      exact matchesParts_append_iff.2
        ⟨before ++ operand, back, rfl, hfront, matchesParts_lastRun back⟩
  | startsWith =>
    show matchesParts (operand.map .char ++ [.run]) text ↔ operand <+: text
    constructor
    · intro h
      obtain ⟨front, back, rfl, hfront, -⟩ := matchesParts_append_iff.1 h
      rw [matchesParts_literal_iff.1 hfront]
      exact List.prefix_append operand back
    · rintro ⟨back, rfl⟩
      exact matchesParts_append_iff.2
        ⟨operand, back, rfl, matchesParts_literal_iff.2 rfl, matchesParts_lastRun back⟩
  | endsWith =>
    show matchesParts ([.run] ++ operand.map .char) text ↔ operand <:+ text
    constructor
    · intro h
      obtain ⟨front, back, rfl, -, hback⟩ := matchesParts_append_iff.1 h
      rw [matchesParts_literal_iff.1 hback]
      exact List.suffix_append front operand
    · rintro ⟨front, rfl⟩
      exact matchesParts_append_iff.2
        ⟨front, operand, rfl, matchesParts_lastRun front, matchesParts_literal_iff.2 rfl⟩
  | glob => exact matchesParts_ofGlobChar_iff

/-- **Patterns match what the operators promise.** The database reads the pattern of every operand,
and a text is like the pattern just if it contains the operand, starts with it, ends with it, or is
matched by it as a glob. -/
theorem like?_likePattern_iff (op : PatternOp) (operand text : String) :
    ∃ value, like? (op.likePattern operand).toList text.toList = some value ∧
      (value = true ↔ op.Promises operand.toList text.toList) := by
  refine ⟨matchesParts (op.likeParts operand.toList) text.toList, ?_, matchesParts_likeParts_iff⟩
  rw [like?, likeParts?_likePattern]
  rfl

/-- Wildcards in an operand, and an escape character at its end, are looked for as they are. -/
example : like? (contains.likePattern "5%_\\").toList "at 5%_\\!".toList = some true ∧
    like? (contains.likePattern "5%_\\").toList "at 50 _\\!".toList = some false := by
  decide +kernel

end PatternOp

end LinkQuery
