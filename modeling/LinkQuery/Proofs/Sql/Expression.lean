import LinkQuery.Proofs.Sql.StatementTokens
import LinkQuery.Proofs.Sql.Truth

/-!
# Reading conditions

The condition after `where` is read from its tokens, as the database reads it: tests of values
first, then `not`, then `and`, then `or`, unless parentheses say otherwise.

Reading goes in two passes. The first one finds the tests (`items?`). The second one goes through
the items with a stack of frames, one for each parenthesis that is open (`Reader.step`). A frame
keeps what stands in front of the last `or`, what stands between that and the last `and`, and the
negations since then.

* `Expr.read?` reads an expression, and `Expr.truth` is its value.
* `Atom.readTest?_tokens`: the tokens of a condition on a column are read as the test that it is, if
  the type of a cast is a single one (`Atom.SingleType`).
-/

namespace LinkQuery.Sql

open Json (Value)

/-! ### Expressions -/

/-- A value in a test. The name of a type is a list of tokens. -/
inductive Operand where
  | column (name : String)
  | columnOf (relation name : String)
  | value (value : Value)
  | cast (operand : Operand) (typeName : List (Token Value))
  deriving DecidableEq, Repr

/-- A condition without connectives. -/
inductive Test where
  | compare (left : Operand) (op : Comparison) (right : Operand)
  | like (left right : Operand)
  | isNull (operand : Operand)
  | isNotNull (operand : Operand)
  deriving DecidableEq, Repr

/-- A condition as it is read. -/
inductive Expr where
  | test (test : Test)
  | not (expr : Expr)
  | and (left right : Expr)
  | or (left right : Expr)
  deriving DecidableEq, Repr

/-- The value of an expression, given the values of the tests. -/
def Expr.truth (u : Test → Truth) : Expr → Truth
  | test t => u t
  | not e => (e.truth u).not
  | and a b => (a.truth u).and (b.truth u)
  | or a b => (a.truth u).or (b.truth u)

/-! ### Names of types -/

/-- How far the name of a type has been read: words, then numbers in parentheses, then words. -/
inductive TypeReading where
  | start
  | words
  | opened
  | argument
  | closed
  deriving DecidableEq, Repr

/-- Reads one more token of the name of a type. -/
def TypeReading.step : TypeReading → Token Value → Option TypeReading
  | start, .word _ => some words
  | words, .word _ => some words
  | words, .symbol '(' => some opened
  | opened, .word _ => some argument
  | argument, .symbol ',' => some opened
  | argument, .symbol ')' => some closed
  | closed, .word _ => some closed
  | _, _ => none

/-- How many parentheses are open. -/
def TypeReading.depth : TypeReading → Nat
  | opened | argument => 1
  | _ => 0

/-- Whether tokens are the name of a single type. -/
def isTypeName (ts : List (Token Value)) : Bool :=
  match ts.foldlM TypeReading.step .start with
  | some .words | some .closed => true
  | _ => false

/-- Splits tokens at the parenthesis that closes one more than are open. -/
def splitClosing? (depth : Nat) : List (Token Value) →
    Option (List (Token Value) × List (Token Value))
  | [] => none
  | .symbol ')' :: rest =>
    match depth with
    | 0 => some ([], rest)
    | depth + 1 => (splitClosing? depth rest).map fun (ts, us) => (.symbol ')' :: ts, us)
  | .symbol '(' :: rest =>
    (splitClosing? (depth + 1) rest).map fun (ts, us) => (.symbol '(' :: ts, us)
  | t :: rest => (splitClosing? depth rest).map fun (ts, us) => (t :: ts, us)

/-! ### Tests -/

/-- The value that tokens start with, unless it is a cast, and what follows it. -/
def readPlain? : List (Token Value) → Option (Operand × List (Token Value))
  | .name relation :: .symbol '.' :: .name column :: rest =>
    some (.columnOf relation column, rest)
  | .name column :: rest => some (.column column, rest)
  | .param value :: rest => some (.value value, rest)
  | _ => none

/-- The value that tokens start with, and what follows it. -/
def readOperand? : List (Token Value) → Option (Operand × List (Token Value))
  | .word "cast" :: .symbol '(' :: rest =>
    match readPlain? rest with
    | some (operand, .word "as" :: rest) =>
      match splitClosing? 0 rest with
      | some (typeName, rest) =>
        if isTypeName typeName then some (.cast operand typeName, rest) else none
      | none => none
    | _ => none
  | ts => readPlain? ts

/-- The test that tokens start with, and what follows it. -/
def readTest? (ts : List (Token Value)) : Option (Test × List (Token Value)) :=
  match readOperand? ts with
  | some (left, .operator op :: rest) =>
    (readOperand? rest).map fun (right, rest) => (.compare left op right, rest)
  | some (left, .word "like" :: rest) =>
    (readOperand? rest).map fun (right, rest) => (.like left right, rest)
  | some (operand, .word "is" :: .word "null" :: rest) => some (.isNull operand, rest)
  | some (operand, .word "is" :: .word "not" :: .word "null" :: rest) =>
    some (.isNotNull operand, rest)
  | _ => none

theorem length_lt_of_splitClosing? {depth : Nat} {ts us rest : List (Token Value)}
    (h : splitClosing? depth ts = some (us, rest)) : rest.length < ts.length := by
  fun_induction splitClosing? depth ts generalizing us with
  | case1 => simp at h
  | case2 rest' =>
    obtain ⟨-, rfl⟩ := Prod.mk.inj (Option.some.inj h)
    exact Nat.lt_succ_self _
  | case3 rest' depth ih | case4 depth rest' ih | case5 depth t rest' _ _ ih =>
    obtain ⟨⟨ts, us'⟩, hsplit, heq⟩ := Option.map_eq_some_iff.1 h
    obtain ⟨-, rfl⟩ := Prod.mk.inj heq
    exact Nat.lt_succ_of_lt (ih hsplit)

theorem length_lt_of_readPlain? {ts rest : List (Token Value)} {operand : Operand}
    (h : readPlain? ts = some (operand, rest)) : rest.length < ts.length := by
  unfold readPlain? at h
  split at h
  · obtain ⟨-, rfl⟩ := Prod.mk.inj (Option.some.inj h)
    simp only [List.length_cons]
    omega
  · obtain ⟨-, rfl⟩ := Prod.mk.inj (Option.some.inj h)
    exact Nat.lt_succ_self _
  · obtain ⟨-, rfl⟩ := Prod.mk.inj (Option.some.inj h)
    exact Nat.lt_succ_self _
  · simp at h

theorem length_lt_of_readOperand? {ts rest : List (Token Value)} {operand : Operand}
    (h : readOperand? ts = some (operand, rest)) : rest.length < ts.length := by
  unfold readOperand? at h
  split at h
  next inner =>
    -- a cast, which takes its operand, the name of the type and the parentheses
    split at h
    next operand' typed hplain =>
      split at h
      next typeName after hsplit =>
        split at h
        · obtain ⟨-, rfl⟩ := Prod.mk.inj (Option.some.inj h)
          have hinner := length_lt_of_readPlain? hplain
          have htyped := length_lt_of_splitClosing? hsplit
          simp only [List.length_cons] at hinner ⊢
          omega
        · simp at h
      next => simp at h
    next => simp at h
  next => exact length_lt_of_readPlain? h

theorem length_lt_of_readTest? {ts rest : List (Token Value)} {test : Test}
    (h : readTest? ts = some (test, rest)) : rest.length < ts.length := by
  unfold readTest? at h
  split at h
  -- in all forms, what is left after the first operand is shorter already
  next left op behind hleft =>
    obtain ⟨⟨right, after⟩, hright, heq⟩ := Option.map_eq_some_iff.1 h
    obtain ⟨-, rfl⟩ := Prod.mk.inj heq
    have hbehind : behind.length < ts.length := Nat.lt_of_succ_lt (length_lt_of_readOperand? hleft)
    exact Nat.lt_trans (length_lt_of_readOperand? hright) hbehind
  next left behind hleft =>
    obtain ⟨⟨right, after⟩, hright, heq⟩ := Option.map_eq_some_iff.1 h
    obtain ⟨-, rfl⟩ := Prod.mk.inj heq
    have hbehind : behind.length < ts.length := Nat.lt_of_succ_lt (length_lt_of_readOperand? hleft)
    exact Nat.lt_trans (length_lt_of_readOperand? hright) hbehind
  next operand behind hleft =>
    obtain ⟨-, rfl⟩ := Prod.mk.inj (Option.some.inj h)
    exact Nat.lt_of_succ_lt (Nat.lt_of_succ_lt (length_lt_of_readOperand? hleft))
  next operand behind hleft =>
    obtain ⟨-, rfl⟩ := Prod.mk.inj (Option.some.inj h)
    exact Nat.lt_of_succ_lt (Nat.lt_of_succ_lt (Nat.lt_of_succ_lt
      (length_lt_of_readOperand? hleft)))
  next => simp at h

/-! ### Items -/

/-- What a condition consists of. -/
inductive Item where
  | test (test : Test)
  | opening
  | closing
  | not
  | and
  | or
  deriving DecidableEq, Repr

/-- The parenthesis or connective that a token stands for. -/
def Item.ofToken? : Token Value → Option Item
  | .symbol '(' => some opening
  | .symbol ')' => some closing
  | .word "not" => some not
  | .word "and" => some and
  | .word "or" => some or
  | _ => none

/-- The items of a condition. -/
def items? (ts : List (Token Value)) : Option (List Item) :=
  match ts with
  | [] => some []
  | t :: rest =>
    match Item.ofToken? t with
    | some item => (items? rest).map (item :: ·)
    | none =>
      match _h : readTest? (t :: rest) with
      | some (test, behind) => (items? behind).map (.test test :: ·)
      | none => none
  termination_by ts.length
  decreasing_by
    · exact Nat.lt_succ_self _
    · exact length_lt_of_readTest? _h

/-- A test in front is one item. -/
theorem items?_of_readTest? {t : Token Value} {ts rest : List (Token Value)} {test : Test}
    (hitem : Item.ofToken? t = none) (h : readTest? (t :: ts) = some (test, rest)) :
    items? (t :: ts) = (items? rest).map (.test test :: ·) := by
  rw [items?, hitem]
  dsimp only
  split
  next test' rest' hsome =>
    obtain ⟨rfl, rfl⟩ := Prod.mk.inj (Option.some.inj (h.symm.trans hsome))
    rfl
  next hnone =>
    rw [h] at hnone
    simp at hnone

/-! ### Precedence -/

/-- What has been read behind a parenthesis that is open. -/
structure Frame where
  /-- What stands in front of the last `or`. -/
  alternatives : Option Expr
  /-- What stands between that and the last `and`. -/
  conjuncts : Option Expr
  /-- The negations of what comes next. -/
  negations : Nat
  deriving DecidableEq, Repr

/-- What has been read: the frames, the innermost one first, and the expression at hand, if one is
complete. -/
structure Reader where
  frames : List Frame
  operand : Option Expr
  deriving DecidableEq, Repr

namespace Frame

/-- A frame in which nothing has been read. -/
def fresh : Frame := ⟨none, none, 0⟩

/-- An expression behind others that it is connected with. -/
def connected (connect : Expr → Expr → Expr) (before : Option Expr) (e : Expr) : Expr :=
  match before with
  | none => e
  | some front => connect front e

/-- An expression behind some negations. -/
def negated : Nat → Expr → Expr
  | 0, e => e
  | n + 1, e => negated n (.not e)

/-- What the frame amounts to if it ends with an expression. -/
def total (frame : Frame) (e : Expr) : Expr :=
  connected .or frame.alternatives (connected .and frame.conjuncts e)

/-- The frame with its negations used up. -/
def settled (frame : Frame) : Frame := { frame with negations := 0 }

end Frame

namespace Reader

/-- Takes an expression that is complete, behind the negations in front of it. -/
def take (e : Expr) (frame : Frame) (frames : List Frame) : Reader :=
  ⟨frame.settled :: frames, some (Frame.negated frame.negations e)⟩

/-- Reads one more item. -/
def step (r : Reader) (item : Item) : Option Reader :=
  match item, r with
  | .test t, ⟨frame :: frames, none⟩ => some (take (.test t) frame frames)
  | .opening, ⟨frame :: frames, none⟩ => some ⟨.fresh :: frame :: frames, none⟩
  | .closing, ⟨inner :: frame :: frames, some e⟩ => some (take (inner.total e) frame frames)
  | .not, ⟨frame :: frames, none⟩ =>
    some ⟨{ frame with negations := frame.negations + 1 } :: frames, none⟩
  | .and, ⟨frame :: frames, some e⟩ =>
    some ⟨{ frame with conjuncts := some (Frame.connected .and frame.conjuncts e) } :: frames, none⟩
  | .or, ⟨frame :: frames, some e⟩ => some ⟨⟨some (frame.total e), none, 0⟩ :: frames, none⟩
  | _, _ => none

/-- What has been read, if it is complete. -/
def finish : Reader → Option Expr
  | ⟨[frame], some e⟩ => some (frame.total e)
  | _ => none

end Reader

/-- The expression that tokens stand for. -/
def Expr.read? (ts : List (Token Value)) : Option Expr := do
  let items ← items? ts
  let r ← items.foldlM Reader.step ⟨[.fresh], none⟩
  r.finish

/-! ### The tests that are written -/

/-- The parenthesis that closes a cast is the first one that does not belong to the name of the
type. -/
theorem splitClosing?_append {ts : List (Token Value)} {s s' : TypeReading}
    (h : ts.foldlM TypeReading.step s = some s') (hs' : s'.depth = 0) (rest : List (Token Value)) :
    splitClosing? s.depth (ts ++ .symbol ')' :: rest) = some (ts, rest) := by
  induction ts generalizing s with
  | nil =>
    obtain rfl : s = s' := Option.some.inj h
    rw [hs']
    rfl
  | cons t ts ih =>
    rw [List.foldlM_cons] at h
    obtain ⟨s₁, hstep, hrest⟩ := Option.bind_eq_some_iff.1 h
    have hsplit := ih hrest
    rw [List.cons_append]
    -- a parenthesis of the type opens or closes one, and any other token leaves the depth
    unfold TypeReading.step at hstep
    split at hstep
    all_goals first
      | (obtain rfl := Option.some.inj hstep
         simp only [TypeReading.depth] at hsplit ⊢
         simp [splitClosing?, hsplit])
      | simp at hstep

namespace Atom

/-- The name of the type in a cast, if there is one, names a single type. -/
def SingleType : Atom → Prop
  | compare _ _ _ _ (some typeName) => isTypeName (typeTokens typeName)
  | _ => True

/-- A column, as it is or cast to text. -/
def columnOperand (column : String) (asText : Bool) : Operand :=
  if asText then .cast (.column column) [.word "text"] else .column column

/-- The test that a condition on a column is. -/
def test : Atom → Test
  | compare column asText op value none => .compare (columnOperand column asText) op (.value value)
  | compare column asText op value (some typeName) =>
    .compare (columnOperand column asText) op (.cast (.value value) (typeTokens typeName))
  | like column asText pattern => .like (columnOperand column asText) (.value (.text pattern))
  | isNull column => .isNull (.column column)
  | isNotNull column => .isNotNull (.column column)

/-- A column is read as an operand, with its conversion to text if it has one. -/
theorem readOperand?_columnTokens (column : String) (asText : Bool) {t : Token Value}
    (ht : t ≠ .symbol '.') (rest : List (Token Value)) :
    readOperand? (columnTokens column asText ++ t :: rest) =
      some (columnOperand column asText, t :: rest) := by
  cases asText with
  | true => rfl
  | false =>
    -- a dot behind the name would make it the name of a relation
    have hplain : readPlain? (.name column :: t :: rest) = some (.column column, t :: rest) := by
      cases t with
      | symbol c =>
        have hdot : c ≠ '.' := fun h => ht (h ▸ rfl)
        cases rest <;> simp [readPlain?, hdot]
      | _ => rfl
    exact hplain

/-- A cast of a value is read as such. -/
theorem readOperand?_cast (value : Value) {typeName : String}
    (h : isTypeName (typeTokens typeName)) (rest : List (Token Value)) :
    readOperand? (.word "cast" :: .symbol '(' :: .param value :: .word "as" ::
        (typeTokens typeName ++ .symbol ')' :: rest)) =
      some (.cast (.value value) (typeTokens typeName), rest) := by
  -- the name ends where no parenthesis is open
  obtain ⟨s, hs, hdepth⟩ : ∃ s, (typeTokens typeName).foldlM TypeReading.step .start = some s ∧
      s.depth = 0 := by
    unfold isTypeName at h
    split at h
    next hwords => exact ⟨_, hwords, rfl⟩
    next hclosed => exact ⟨_, hclosed, rfl⟩
    next => simp at h
  have hsplit := splitClosing?_append hs hdepth rest
  simp only [TypeReading.depth] at hsplit
  simp [readOperand?, readPlain?, hsplit, h]

/-- A test is read back from its tokens. -/
theorem readTest?_tokens {a : Atom} (h : a.SingleType) (rest : List (Token Value)) :
    readTest? (a.tokens ++ rest) = some (a.test, rest) := by
  match a with
  | compare column asText op value none =>
    have hleft := readOperand?_columnTokens column asText (t := .operator op) (by simp)
      (.param value :: rest)
    rw [tokens, test, List.append_assoc]
    unfold readTest?
    rw [List.cons_append, List.cons_append, List.nil_append, hleft]
    rfl
  | compare column asText op value (some typeName) =>
    have hleft := readOperand?_columnTokens column asText (t := .operator op) (by simp)
      (.word "cast" :: .symbol '(' :: .param value :: .word "as" ::
        (typeTokens typeName ++ .symbol ')' :: rest))
    have hright := readOperand?_cast value h rest
    have htokens : tokens (compare column asText op value (some typeName)) ++ rest =
        columnTokens column asText ++ .operator op :: .word "cast" :: .symbol '(' ::
          .param value :: .word "as" :: (typeTokens typeName ++ .symbol ')' :: rest) := by
      simp [tokens]
    -- the column in front and the cast behind are read one after the other
    rw [htokens, test]
    unfold readTest?
    rw [hleft]
    dsimp only
    rw [hright]
    rfl
  | like column asText pattern =>
    have hleft := readOperand?_columnTokens column asText (t := .word "like") (by simp)
      (.param (.text pattern) :: rest)
    rw [tokens, test, List.append_assoc]
    unfold readTest?
    rw [List.cons_append, List.cons_append, List.nil_append, hleft]
    rfl
  | isNull column => rfl
  | isNotNull column => rfl

/-- A condition on a column does not start with a connective. -/
theorem items?_tokens {a : Atom} (h : a.SingleType) (rest : List (Token Value)) :
    items? (a.tokens ++ rest) = (items? rest).map (.test a.test :: ·) := by
  have hread := readTest?_tokens h rest
  -- it starts with the name of a column or with a cast
  obtain ⟨t, more, htokens, hitem⟩ : ∃ t more, a.tokens = t :: more ∧ Item.ofToken? t = none := by
    match a with
    | compare column true op value none => exact ⟨_, _, rfl, rfl⟩
    | compare column false op value none => exact ⟨_, _, rfl, rfl⟩
    | compare column true op value (some _) => exact ⟨_, _, rfl, rfl⟩
    | compare column false op value (some _) => exact ⟨_, _, rfl, rfl⟩
    | like column true pattern => exact ⟨_, _, rfl, rfl⟩
    | like column false pattern => exact ⟨_, _, rfl, rfl⟩
    | isNull column => exact ⟨_, _, rfl, rfl⟩
    | isNotNull column => exact ⟨_, _, rfl, rfl⟩
  rw [htokens, List.cons_append] at hread ⊢
  exact items?_of_readTest? hitem hread

end Atom

end LinkQuery.Sql
