import LinkQuery.Proofs.Sql.Reading

/-!
# Casts and the types in them

A cast is read up to the parenthesis that closes it, which is the first one that the name of its
type does not account for. So what a cast takes in depends on nothing but the parentheses of that
name. If they are balanced, the cast ends where it was meant to end, and can be taken away without a
trace but its operand. If they are not, then a part of the name stands outside of the cast, or the
cast does not end.

* `closesAll` and `isBalanced` are about the parentheses of a text, and
  `closesAll_symbolsOf_typeTokens` says that reading the name of a type keeps them.
* `withoutCasts?` takes the casts away from tokens, and `Atom.withoutCasts?_tokens_iff` is about one
  comparison.
* `Condition.strips` is about whole conditions: what is left of their tokens are those of the
  condition without its casts, which `Condition.truth_withoutCasts` says has the value of the
  condition, if casts do not count in the tests.
-/

namespace LinkQuery.Sql

open Json (Value)

/-! ### Balanced parentheses -/

/-- Whether characters close all parentheses that they open, and `depth` more, and no others. -/
def closesAll : Nat → List Char → Bool
  | depth, [] => depth = 0
  | depth, c :: rest =>
    if c = '(' then closesAll (depth + 1) rest
    else if c = ')' then depth ≠ 0 && closesAll (depth - 1) rest
    else closesAll depth rest

/-- Whether each parenthesis of a text belongs to another one. -/
def isBalanced (text : String) : Bool := closesAll 0 text.toList

/-- Nothing but parentheses counts. -/
theorem closesAll_filter {p : Char → Bool} (hopen : p '(') (hclose : p ')') (depth : Nat)
    (cs : List Char) :
    closesAll depth (cs.filter p) = closesAll depth cs := by
  induction cs generalizing depth with
  | nil => rfl
  | cons c rest ih =>
    by_cases hc : p c
    · rw [List.filter_cons_of_pos hc, closesAll, closesAll, ih, ih, ih]
    · have hne : c ≠ '(' ∧ c ≠ ')' := by
        constructor <;> rintro rfl
        · exact hc hopen
        · exact hc hclose
      rw [List.filter_cons_of_neg hc, ih, closesAll, if_neg hne.1, if_neg hne.2]

/-- The tokens of a plain name have the parentheses of the name. -/
theorem closesAll_symbolsOf_typeTokens {typeName : String} (h : isPlainType typeName) :
    closesAll 0 (symbolsOf (typeTokens typeName)) = isBalanced typeName := by
  obtain ⟨-, -, -, -, hmarks⟩ := exists_lex_typeName h
  rw [hmarks, closesAll_filter rfl rfl, isBalanced]

/-! ### Taking casts away -/

/-- The tokens without casts, each of which leaves its operand. `inside` tells how many parentheses
of the name of a type are open, where one is being read. There is no answer if a cast does not end.
-/
def withoutCasts? : (inside : Option Nat) → List (Token Value) → Option (List (Token Value))
  | none, [] => some []
  | some _, [] => none
  | none, .word "cast" :: .symbol '(' :: t :: .word "as" :: rest =>
    (withoutCasts? (some 0) rest).map (t :: ·)
  | none, t :: rest => (withoutCasts? none rest).map (t :: ·)
  | some depth, .symbol '(' :: rest => withoutCasts? (some (depth + 1)) rest
  | some 0, .symbol ')' :: rest => withoutCasts? none rest
  | some (depth + 1), .symbol ')' :: rest => withoutCasts? (some depth) rest
  | some depth, _ :: rest => withoutCasts? (some depth) rest

/-- What is outside of casts stays. -/
theorem withoutCasts?_cons {t : Token Value} (ht : t ≠ .word "cast") (rest : List (Token Value)) :
    withoutCasts? none (t :: rest) = (withoutCasts? none rest).map (t :: ·) := by
  rw [withoutCasts?]
  rintro _ _ rfl
  exact absurd rfl ht

/-- Something is left of what is outside of casts. -/
theorem withoutCasts?_cons_ne_nil (t : Token Value) (rest : List (Token Value)) :
    withoutCasts? none (t :: rest) ≠ some [] := by
  unfold withoutCasts?
  split <;> simp_all

/-- The name of a type is read by its parentheses. -/
theorem withoutCasts?_inside (depth : Nat) (t : Token Value) (rest : List (Token Value)) :
    withoutCasts? (some depth) (t :: rest) =
      if t = .symbol '(' then withoutCasts? (some (depth + 1)) rest
      else if t = .symbol ')' then
        if depth = 0 then withoutCasts? none rest else withoutCasts? (some (depth - 1)) rest
      else withoutCasts? (some depth) rest := by
  by_cases hopen : t = .symbol '('
  · rw [if_pos hopen, hopen, withoutCasts?]
  · rw [if_neg hopen]
    by_cases hclose : t = .symbol ')'
    · rw [if_pos hclose, hclose]
      cases depth with
      | zero => rfl
      | succ depth => rfl
    · rw [if_neg hclose]
      cases depth with
      | zero => simp [withoutCasts?, hclose]
      | succ depth => simp [withoutCasts?, hclose]

/-- So are the punctuation marks in it. -/
theorem closesAll_symbolsOf_cons (depth : Nat) (t : Token Value) (rest : List (Token Value)) :
    closesAll depth (symbolsOf (t :: rest)) =
      if t = .symbol '(' then closesAll (depth + 1) (symbolsOf rest)
      else if t = .symbol ')' then depth ≠ 0 && closesAll (depth - 1) (symbolsOf rest)
      else closesAll depth (symbolsOf rest) := by
  rw [symbolsOf_cons]
  cases t with
  | symbol c => simp [Token.symbol?, closesAll]
  | _ => simp [Token.symbol?]

/-- **A cast ends behind the name of its type** if the parentheses of the name are balanced. -/
theorem withoutCasts?_closed {depth : Nat} {ts : List (Token Value)}
    (h : closesAll depth (symbolsOf ts)) (rest : List (Token Value)) :
    withoutCasts? (some depth) (ts ++ .symbol ')' :: rest) = withoutCasts? none rest := by
  -- the two recursions take the same tokens, and count the same parentheses
  induction ts generalizing depth with
  | nil =>
    obtain rfl : depth = 0 := of_decide_eq_true h
    rfl
  | cons t ts ih =>
    rw [closesAll_symbolsOf_cons] at h
    rw [List.cons_append, withoutCasts?_inside]
    by_cases hopen : t = .symbol '('
    · rw [if_pos hopen] at h ⊢
      exact ih h
    · rw [if_neg hopen] at h ⊢
      by_cases hclose : t = .symbol ')'
      · rw [if_pos hclose, Bool.and_eq_true] at h
        rw [if_pos hclose, if_neg (of_decide_eq_true h.1)]
        exact ih h.2
      · rw [if_neg hclose] at h ⊢
        exact ih h

/-- **It ends nowhere else.** If nothing stands behind the parenthesis that is meant to close the
cast, and nothing is left over, then the parentheses of the name are balanced. -/
theorem withoutCasts?_eq_nil_iff {depth : Nat} {ts : List (Token Value)} :
    withoutCasts? (some depth) (ts ++ [.symbol ')']) = some [] ↔
      closesAll depth (symbolsOf ts) := by
  refine ⟨fun h => ?_, fun h => withoutCasts?_closed h []⟩
  induction ts generalizing depth with
  | nil =>
    -- the last parenthesis closes the cast only if no other one is open
    cases depth with
    | zero => rfl
    | succ depth => cases h
  | cons t ts ih =>
    rw [List.cons_append, withoutCasts?_inside] at h
    rw [closesAll_symbolsOf_cons]
    by_cases hopen : t = .symbol '('
    · rw [if_pos hopen] at h ⊢
      exact ih h
    · rw [if_neg hopen] at h ⊢
      by_cases hclose : t = .symbol ')'
      · rw [if_pos hclose] at h ⊢
        by_cases hdepth : depth = 0
        · -- the cast would end here, and what stands behind would be left over
          rw [if_pos hdepth] at h
          cases ts with
          | nil => exact absurd h (withoutCasts?_cons_ne_nil _ _)
          | cons u us => exact absurd h (withoutCasts?_cons_ne_nil _ _)
        · rw [if_neg hdepth] at h
          rw [Bool.and_eq_true]
          exact ⟨decide_eq_true hdepth, ih h⟩
      · rw [if_neg hclose] at h ⊢
        exact ih h

/-! ### Tests without casts -/

/-- The value without the casts around it. -/
def Operand.withoutCasts : Operand → Operand
  | cast operand _ => operand.withoutCasts
  | operand => operand

/-- The test of the values without their casts. -/
def Test.withoutCasts : Test → Test
  | compare left op right => .compare left.withoutCasts op right.withoutCasts
  | like left right => .like left.withoutCasts right.withoutCasts
  | isNull operand => .isNull operand.withoutCasts
  | isNotNull operand => .isNotNull operand.withoutCasts

namespace Atom

/-- The condition on a column without its casts. -/
def withoutCasts : Atom → Atom
  | compare column _ op value _ => compare column false op value none
  | like column _ pattern => like column false pattern
  | isNull column => isNull column
  | isNotNull column => isNotNull column

theorem test_withoutCasts (a : Atom) : a.withoutCasts.test = a.test.withoutCasts := by
  match a with
  | compare column asText op value none => cases asText <;> rfl
  | compare column asText op value (some typeName) => cases asText <;> rfl
  | like column asText pattern => cases asText <;> rfl
  | isNull column => rfl
  | isNotNull column => rfl

/-- The parentheses in the name of the type in a cast, if there is one, are balanced, and the name
is plain. -/
def IsEnclosed : Atom → Prop
  | compare _ _ _ _ (some typeName) => isPlainType typeName ∧ isBalanced typeName
  | _ => True

end Atom

/-! ### Tokens without casts -/

/-- What is left of tokens without casts, whatever stands behind them. -/
def Strips (ts us : List (Token Value)) : Prop :=
  ∀ rest, withoutCasts? none (ts ++ rest) = (withoutCasts? none rest).map (us ++ ·)

namespace Strips

theorem nil : Strips [] [] := by
  intro rest
  simp

theorem withoutCasts?_eq {ts us : List (Token Value)} (h : Strips ts us) :
    withoutCasts? none ts = some us := by
  have hend := h []
  rwa [List.append_nil, withoutCasts?, Option.map_some, List.append_nil] at hend

theorem append {ts ts' us us' : List (Token Value)} (h : Strips ts us) (h' : Strips ts' us') :
    Strips (ts ++ ts') (us ++ us') := by
  intro rest
  rw [List.append_assoc, h, h', Option.map_map]
  exact congrArg (Option.map · _) (funext fun _ => (List.append_assoc _ _ _).symm)

/-- Without casts nothing is taken away. -/
theorem of_not_mem {ts : List (Token Value)} (h : .word "cast" ∉ ts) : Strips ts ts := by
  induction ts with
  | nil => exact nil
  | cons t ts ih =>
    obtain ⟨ht, hts⟩ := not_or.1 (mt List.mem_cons.2 h)
    intro rest
    rw [List.cons_append, withoutCasts?_cons (Ne.symm ht), ih hts, Option.map_map]
    rfl

/-- A cast leaves its operand. -/
theorem cast {ts : List (Token Value)} (h : closesAll 0 (symbolsOf ts)) (t : Token Value) :
    Strips (.word "cast" :: .symbol '(' :: t :: .word "as" :: (ts ++ [.symbol ')'])) [t] := by
  intro rest
  have hclosed := withoutCasts?_closed h rest
  simp only [List.cons_append, List.append_assoc, List.nil_append, withoutCasts?, hclosed]

theorem intercalate {mark : List (Token Value)} (hmark : .word "cast" ∉ mark)
    {tss uss : List (List (Token Value))} (h : List.Forall₂ Strips tss uss) :
    Strips (mark.intercalate tss) (mark.intercalate uss) := by
  induction h with
  | nil => exact nil
  | @cons ts us tss uss hfirst hrest ih =>
    cases hrest with
    | nil => simpa using hfirst
    | cons =>
      rw [List.intercalate_cons_cons, List.intercalate_cons_cons]
      exact (hfirst.append (of_not_mem hmark)).append ih

end Strips

/-! ### Conditions without casts -/

namespace Atom

theorem strips_columnTokens (column : String) (asText : Bool) :
    Strips (columnTokens column asText) [.name column] := by
  cases asText with
  | false => exact .of_not_mem (by simp [columnTokens])
  | true =>
    have htext : closesAll 0 (symbolsOf [(.word "text" : Token Value)]) := rfl
    exact .cast htext (.name column)

theorem strips {a : Atom} (h : a.IsEnclosed) : Strips a.tokens a.withoutCasts.tokens := by
  match a with
  | compare column asText op value none =>
    exact (strips_columnTokens column asText).append (.of_not_mem (by simp))
  | compare column asText op value (some typeName) =>
    -- there may be two casts: the column is cast to text, the value to the type
    have hbalanced : closesAll 0 (symbolsOf (typeTokens typeName)) := by
      rw [closesAll_symbolsOf_typeTokens h.1]
      exact h.2
    have hop : Strips [.operator op] [.operator op] := .of_not_mem (by simp)
    have hcast := ((strips_columnTokens column asText).append hop).append
      (.cast hbalanced (.param value))
    simpa [tokens, withoutCasts, columnTokens] using hcast
  | like column asText pattern =>
    exact (strips_columnTokens column asText).append (.of_not_mem (by simp))
  | isNull column => exact .of_not_mem (by simp [tokens])
  | isNotNull column => exact .of_not_mem (by simp [tokens])

/-- **A comparison without its cast** is one of the column with the value just if the parentheses in
the name of the type are balanced. -/
theorem withoutCasts?_tokens_iff {column : String} {op : Comparison} {value : Value}
    {typeName : String} (h : isPlainType typeName) :
    withoutCasts? none (compare column false op value (some typeName)).tokens =
        some (compare column false op value none).tokens ↔ isBalanced typeName := by
  have hleft : withoutCasts? none (compare column false op value (some typeName)).tokens =
      (withoutCasts? (some 0) (typeTokens typeName ++ [.symbol ')'])).map
        ([.name column, .operator op, .param value] ++ ·) := by
    simp [tokens, columnTokens, withoutCasts?, Function.comp_def]
  have hright : (compare column false op value none).tokens =
      [.name column, .operator op, .param value] ++ [] := rfl
  rw [hleft, hright, ← closesAll_symbolsOf_typeTokens h, ← withoutCasts?_eq_nil_iff]
  exact (Option.map_injective (List.append_right_injective _)).eq_iff' rfl

end Atom

namespace Condition

mutual

/-- The condition without its casts. -/
def withoutCasts : Condition → Condition
  | atom a => atom a.withoutCasts
  | group negated joiner members => group negated joiner (membersWithoutCasts members)

/-- The conditions without their casts. -/
def membersWithoutCasts : List Condition → List Condition
  | [] => []
  | c :: rest => withoutCasts c :: membersWithoutCasts rest

end

mutual

/-- **The tokens of a condition without its casts** are what is left of its tokens. -/
theorem strips {c : Condition} (h : c.Forall Atom.IsEnclosed) :
    Strips c.tokens c.withoutCasts.tokens := by
  match c with
  | atom a => exact Atom.strips h
  | group negated joiner members =>
    have hopen : Strips ((if negated then [.word "not"] else []) ++ [.symbol '('])
        ((if negated then [.word "not"] else []) ++ [.symbol '(']) := by
      cases negated <;> exact .of_not_mem (by simp)
    have hjoiner : .word "cast" ∉ [joiner.token] := by cases joiner <;> decide
    have hclose : Strips [.symbol ')'] [.symbol ')'] := .of_not_mem (by simp)
    have hmembers := Strips.intercalate hjoiner (strips_members h)
    simpa [tokens, withoutCasts] using (hopen.append hmembers).append hclose

theorem strips_members {cs : List Condition} (h : ForallMembers Atom.IsEnclosed cs) :
    List.Forall₂ Strips (tokensOfMembers cs) (tokensOfMembers (membersWithoutCasts cs)) := by
  match cs with
  | [] => exact .nil
  | c :: rest => exact .cons (strips h.1) (strips_members h.2)

end

mutual

/-- The value of the condition without its casts, where tests are of values without casts. -/
theorem truth_withoutCasts (u : Test → Truth) (c : Condition) :
    c.withoutCasts.truth u = c.truth fun t => u t.withoutCasts := by
  match c with
  | atom a => exact congrArg u a.test_withoutCasts
  | group negated joiner members =>
    rw [withoutCasts, truth, truth, truths_membersWithoutCasts u members]

theorem truths_membersWithoutCasts (u : Test → Truth) (cs : List Condition) :
    truths u (membersWithoutCasts cs) = truths (fun t => u t.withoutCasts) cs := by
  match cs with
  | [] => rfl
  | c :: rest =>
    rw [membersWithoutCasts, truths, truths, truth_withoutCasts u c,
      truths_membersWithoutCasts u rest]

end

mutual

theorem singleType_withoutCasts (c : Condition) : c.withoutCasts.Forall Atom.SingleType := by
  match c with
  | atom a => cases a <;> exact trivial
  | group _ _ members => exact singleType_membersWithoutCasts members

theorem singleType_membersWithoutCasts (cs : List Condition) :
    ForallMembers Atom.SingleType (membersWithoutCasts cs) := by
  match cs with
  | [] => exact trivial
  | c :: rest => exact ⟨singleType_withoutCasts c, singleType_membersWithoutCasts rest⟩

end

mutual

theorem IsSolid.withoutCasts {c : Condition} (h : c.IsSolid) : c.withoutCasts.IsSolid := by
  match c with
  | atom a => exact trivial
  | group _ _ members =>
    refine ⟨fun hnil => h.1 ?_, AreSolid.withoutCasts h.2⟩
    cases members with
    | nil => rfl
    | cons => cases hnil

theorem AreSolid.withoutCasts {cs : List Condition} (h : AreSolid cs) :
    AreSolid (membersWithoutCasts cs) := by
  match cs with
  | [] => exact trivial
  | c :: rest => exact ⟨h.1.withoutCasts, AreSolid.withoutCasts h.2⟩

end

/-- **What is left of a condition is read as the condition without its casts.** -/
theorem exists_read?_withoutCasts {c : Condition} (h : c.Forall Atom.IsEnclosed)
    (hsolid : c.IsSolid) :
    ∃ e, (withoutCasts? none c.tokens).bind Expr.read? = some e ∧
      ∀ u, e.truth u = c.truth fun t => u t.withoutCasts := by
  -- without casts there is no type that would have to be a single word to be read
  obtain ⟨e, hread, htruth⟩ := (readsAs c.singleType_withoutCasts hsolid.withoutCasts).read?
  refine ⟨e, ?_, fun u => (htruth u).trans (c.truth_withoutCasts u)⟩
  rw [(strips h).withoutCasts?_eq, Option.bind_some, hread]

end Condition

end LinkQuery.Sql
