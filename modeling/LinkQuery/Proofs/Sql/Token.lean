import LinkQuery.Sql.Condition
import Mathlib.Data.List.Basic

/-!
# Tokens of statements

A statement is read token by token, as the database reads it. The reader goes through the characters
once and keeps what it has seen of the token at hand; a character either belongs to that token or
ends it and starts something new.

* `Token` are the tokens. A name between double quotes is one token whatever it contains, so neither
  a keyword nor a placeholder is ever found inside a name.
* `run` reads characters, `lex` reads a whole text and fails on a text that is not made of tokens.
* `lex_append` cuts a text in two: if the cut is at a blank or at a punctuation mark, the tokens of
  the text are those of its pieces. What is written piece by piece can be read piece by piece.
* `lex_placeholder` reads placeholders. How names are read is said with the rule for them.

A parameter is a number in a text and a value in what the text stands for. `number` gives the values
their numbers, and `bindAll` puts the values back (`bindAll_number`).
-/

namespace LinkQuery.Sql

/-- A token of a statement, where `π` is what stands for a parameter. -/
inductive Token (π : Type) where
  /-- A name, without the quotes around it. -/
  | name (text : String)
  | param (value : π)
  /-- A run of letters, digits and underscores, in lower case: a keyword, a number or a part of the
  name of a type. -/
  | word (text : String)
  | operator (op : Comparison)
  | symbol (c : Char)
  deriving DecidableEq, Repr

/-! ### Kinds of characters -/

/-- Whether a character separates tokens and is none itself. -/
def isSpace (c : Char) : Bool := c = ' ' || c = '\t' || c = '\n' || c = '\r'

/-- Whether a character is a token of its own. -/
def isPunctuation (c : Char) : Bool := c = '(' || c = ')' || c = ',' || c = '.' || c = '*'

/-- Whether a character can be part of a word. -/
def isWordChar (c : Char) : Bool := c.isAlphanum || c = '_'

/-- Whether a character can be part of an operator. -/
def isOperatorChar (c : Char) : Bool := c = '=' || c = '!' || c = '<' || c = '>'

/-- Whether a character ends any token in front of it, unless it stands in a name. -/
def isSeparator (c : Char) : Bool := isSpace c || isPunctuation c

/-- The comparison written with the given characters. -/
def Comparison.ofChars? : List Char → Option Comparison
  | ['='] => some .eq
  | ['!', '='] => some .ne
  | ['<', '>'] => some .ne
  | ['>'] => some .gt
  | ['>', '='] => some .ge
  | ['<'] => some .lt
  | ['<', '='] => some .le
  | _ => none

/-! ### The reader -/

/-- What has been read of the token at hand. -/
inductive Pending where
  | nothing
  | openName (read : List Char)
  /-- A quote has come that ends the name, unless another one follows. -/
  | closedName (read : List Char)
  | placeholder (digits : List Char)
  | word (read : List Char)
  | operator (read : List Char)
  deriving DecidableEq, Repr

namespace Pending

/-- The token at hand with one more character, if the character belongs to it. -/
def extend (c : Char) : Pending → Option Pending
  | nothing => none
  | openName read => some (if c = '"' then closedName read else openName (read ++ [c]))
  | closedName read => if c = '"' then some (openName (read ++ ['"'])) else none
  | placeholder digits => if c.isDigit then some (placeholder (digits ++ [c])) else none
  | word read => if isWordChar c then some (word (read ++ [c])) else none
  | operator read => if isOperatorChar c then some (operator (read ++ [c])) else none

/-- The token at hand, once no further character belongs to it. -/
def finish : Pending → Option (List (Token Nat))
  | nothing => some []
  | openName _ => none
  | closedName read => some [.name (String.ofList read)]
  | placeholder [] => none
  | placeholder digits => some [.param (Nat.ofDigitChars 10 digits 0)]
  | word read => some [.word (String.ofList (read.map Char.toLower))]
  | operator read => (Comparison.ofChars? read).map fun op => [.operator op]

/-- What a character starts: the tokens that it completes by itself, and the token at hand after it.
-/
def start? (c : Char) : Option (List (Token Nat) × Pending) :=
  if isSpace c then some ([], nothing)
  else if isPunctuation c then some ([.symbol c], nothing)
  else if c = '"' then some ([], openName [])
  else if c = '$' then some ([], placeholder [])
  else if isWordChar c then some ([], word [c])
  else if isOperatorChar c then some ([], operator [c])
  else none

/-- The tokens that are complete after one more character, and the token at hand then. -/
def step (p : Pending) (c : Char) : Option (List (Token Nat) × Pending) :=
  match p.extend c with
  | some q => some ([], q)
  | none => do
    let done ← p.finish
    let (started, q) ← start? c
    some (done ++ started, q)

end Pending

/-- The tokens that are complete after the given characters, and the token at hand then. -/
def run (p : Pending) : List Char → Option (List (Token Nat) × Pending)
  | [] => some ([], p)
  | c :: cs => do
    let (done, q) ← p.step c
    let (tokens, r) ← run q cs
    some (done ++ tokens, r)

/-- The tokens of a text. -/
def lex (cs : List Char) : Option (List (Token Nat)) := do
  let (tokens, p) ← run .nothing cs
  let last ← p.finish
  some (tokens ++ last)

/-! ### Reading piece by piece -/

/-- The characters of two texts are run through one after the other. -/
theorem run_append (p : Pending) (a b : List Char) :
    run p (a ++ b) =
      (run p a).bind fun x => (run x.2 b).map fun y => (x.1 ++ y.1, y.2) := by
  induction a generalizing p with
  | nil =>
    rw [List.nil_append, run, Option.bind_some]
    cases run p b <;> rfl
  | cons c cs ih =>
    rw [List.cons_append, run, run]
    cases hstep : p.step c with
    | none => rfl
    | some x =>
      obtain ⟨complete, q⟩ := x
      simp only [Option.bind_eq_bind, Option.bind_some, ih]
      cases run q cs with
      | none => rfl
      | some y =>
        obtain ⟨tokens, r⟩ := y
        simp only [Option.bind_some]
        cases run r b <;> simp

/-- What is lexed was run through and then finished. -/
theorem exists_run_of_lex {cs : List Char} {ts : List (Token Nat)} (h : lex cs = some ts) :
    ∃ tokens p last, run .nothing cs = some (tokens, p) ∧ p.finish = some last ∧
      ts = tokens ++ last := by
  unfold lex at h
  cases hrun : run .nothing cs with
  | none => simp [hrun] at h
  | some x =>
    obtain ⟨tokens, p⟩ := x
    cases hlast : p.finish with
    | none => simp [hrun, hlast] at h
    | some last => exact ⟨tokens, p, last, rfl, hlast, by simpa [hrun, hlast] using h.symm⟩

/-- A blank or a punctuation mark belongs to no token but a name. -/
theorem Pending.extend_separator {p : Pending} {c : Char} (hc : isSeparator c)
    (hp : ∀ read, p ≠ .openName read) : p.extend c = none := by
  -- a separator is no character of any other kind
  have hkinds : c ≠ '"' ∧ c.isDigit = false ∧ isWordChar c = false ∧ isOperatorChar c = false := by
    simp only [isSeparator, isSpace, isPunctuation, Bool.or_eq_true, decide_eq_true_eq] at hc
    rcases hc with (((rfl | rfl) | rfl) | rfl) | (((rfl | rfl) | rfl) | rfl) | rfl <;> decide
  obtain ⟨hquote, hdigit, hword, hoperator⟩ := hkinds
  cases p with
  | openName read => exact absurd rfl (hp read)
  | _ => simp [extend, hquote, hdigit, hword, hoperator]

/-- A blank or a punctuation mark leaves no token at hand. -/
theorem Pending.start?_separator {c : Char} (hc : isSeparator c) :
    ∃ tokens, start? c = some (tokens, .nothing) := by
  unfold start?
  by_cases hspace : isSpace c = true
  · exact ⟨[], by rw [if_pos hspace]⟩
  · have hmark : isPunctuation c = true := by simpa [isSeparator, hspace] using hc
    exact ⟨[.symbol c], by rw [if_neg hspace, if_pos hmark]⟩

/-- If a text can be read, no name is left open at its end. -/
theorem not_openName_of_finish {p : Pending} {last : List (Token Nat)}
    (h : p.finish = some last) (read : List Char) : p ≠ .openName read := by
  rintro rfl
  simp [Pending.finish] at h

/-- In front of a blank or a punctuation mark, the token at hand is complete. -/
theorem run_of_separator {p : Pending} {last : List (Token Nat)} (hp : p.finish = some last)
    {c : Char} (hc : isSeparator c) (cs : List Char) :
    run p (c :: cs) = (run .nothing (c :: cs)).map fun x => (last ++ x.1, x.2) := by
  have hextend := Pending.extend_separator hc (not_openName_of_finish hp)
  obtain ⟨started, hstart⟩ := Pending.start?_separator hc
  have hstep : p.step c = some (last ++ started, .nothing) := by
    simp [Pending.step, hextend, hp, hstart]
  have hfresh : Pending.nothing.step c = some (started, .nothing) := by
    simp [Pending.step, Pending.extend, Pending.finish, hstart]
  rw [run, run, hstep, hfresh]
  cases hrun : run .nothing cs <;> simp [hrun]

/-- After a blank or a punctuation mark, no token is at hand. -/
theorem pending_of_separator {cs : List Char} {c : Char} (hc : isSeparator c)
    {tokens last : List (Token Nat)} {p : Pending}
    (hrun : run .nothing (cs ++ [c]) = some (tokens, p)) (hp : p.finish = some last) :
    p = .nothing := by
  -- only the last step counts
  obtain ⟨before, q, -, hstep⟩ :
      ∃ before q, run .nothing cs = some (before, q) ∧ (q.step c).map (·.2) = some p := by
    rw [run_append] at hrun
    cases hfirst : run .nothing cs with
    | none => simp [hfirst] at hrun
    | some x =>
      refine ⟨x.1, x.2, rfl, ?_⟩
      cases hstep : x.2.step c with
      | none => simp [hfirst, run, hstep] at hrun
      | some y => simpa [hfirst, run, hstep] using congrArg (Option.map Prod.snd) hrun
  cases hextend : q.extend c with
  | none =>
    obtain ⟨started, hstart⟩ := Pending.start?_separator hc
    cases hq : q.finish with
    | none => simp [Pending.step, hextend, hq] at hstep
    | some done => simpa [Pending.step, hextend, hq, hstart, eq_comm] using hstep
  | some r =>
    -- only an open name takes a separator in, and it stays open
    obtain rfl : r = p := by simpa [Pending.step, hextend] using hstep
    obtain ⟨read, rfl⟩ : ∃ read, q = .openName read := by
      by_contra hnot
      rw [Pending.extend_separator hc fun read h => hnot ⟨read, h⟩] at hextend
      exact absurd hextend (by simp)
    have hquote : c ≠ '"' := by
      rintro rfl
      exact absurd hc (by decide)
    rw [Pending.extend, if_neg hquote, Option.some.injEq] at hextend
    exact absurd hextend.symm (not_openName_of_finish hp _)

/-- A text starts apart from what stands before it. -/
def StartsApart (cs : List Char) : Prop := ∀ c ∈ cs.head?, isSeparator c

/-- A text ends apart from what stands behind it. -/
def EndsApart (cs : List Char) : Prop := ∀ c ∈ cs.getLast?, isSeparator c

/-- **Reading in pieces.** Where a text is cut at a blank or at a punctuation mark, its tokens are
those of the two pieces. -/
theorem lex_append {a b : List Char} {ts us : List (Token Nat)} (h : EndsApart a ∨ StartsApart b)
    (ha : lex a = some ts) (hb : lex b = some us) : lex (a ++ b) = some (ts ++ us) := by
  obtain ⟨tokens, p, last, hruna, hp, rfl⟩ := exists_run_of_lex ha
  obtain ⟨more, q, final, hrunb, hq, rfl⟩ := exists_run_of_lex hb
  -- the second piece is read as if nothing stood before it
  have hrest : run p b = (run .nothing b).map (fun x => (last ++ x.1, x.2)) ∨ b = [] := by
    cases b with
    | nil => exact .inr rfl
    | cons c cs =>
      refine .inl ?_
      rcases h with h | h
      · -- the separator at the end of the first piece has completed the token at hand
        have hnothing : p = .nothing := by
          rcases List.eq_nil_or_concat' a with rfl | ⟨front, d, rfl⟩
          · simpa [run, eq_comm] using (Prod.mk.inj (Option.some.inj hruna)).2
          · exact pending_of_separator (h d (by simp)) hruna hp
        subst hnothing
        obtain rfl : last = [] := by simpa [Pending.finish, eq_comm] using hp
        cases run .nothing (c :: cs) <;> rfl
      · -- the separator at the start of the second piece completes it
        exact run_of_separator hp (h c (by simp)) cs
  unfold lex
  rcases hrest with hrest | rfl
  · simp [run_append, hruna, hrest, hrunb, hq]
  · obtain ⟨rfl, rfl⟩ := Prod.mk.inj (Option.some.inj hrunb)
    obtain rfl : final = [] := by simpa [Pending.finish, eq_comm] using hq
    simp [hruna, hp]

/-! ### Placeholders -/

/-- The digits of a placeholder are collected. -/
theorem run_placeholder (read digits : List Char) (h : ∀ c ∈ digits, c.isDigit) :
    run (.placeholder read) digits = some ([], .placeholder (read ++ digits)) := by
  induction digits generalizing read with
  | nil => simp [run]
  | cons c cs ih =>
    have hc : c.isDigit = true := h c (by simp)
    have hcs := ih (read ++ [c]) fun d hd => h d (by simp [hd])
    simp [run, Pending.step, Pending.extend, hc, hcs]

/-- A placeholder is the token of its number. -/
theorem lex_placeholder (index : Nat) : lex (placeholder index).toList = some [.param index] := by
  -- behind the dollar sign there are digits only
  have hdigits : ∀ c ∈ Nat.toDigits 10 index, c.isDigit :=
    fun c hc => Nat.isDigit_of_mem_toDigits (by decide) (by decide) hc
  have htext : (placeholder index).toList = '$' :: Nat.toDigits 10 index := by
    simp [placeholder]
  have hrun := run_placeholder [] (Nat.toDigits 10 index) hdigits
  unfold lex
  rw [htext, run]
  simp [Pending.step, Pending.extend, Pending.finish, Pending.start?, isSpace, isPunctuation, hrun]

/-! ### Numbers and values of parameters -/

namespace Token

variable {α β : Type}

/-- The token with another parameter, if it is a parameter. -/
def replace (p : β) : Token α → Token β
  | name text => .name text
  | param _ => .param p
  | word text => .word text
  | operator op => .operator op
  | symbol c => .symbol c

/-- The parameter that a token is. -/
def value? : Token α → Option α
  | param p => some p
  | _ => none

@[simp] theorem value?_param (p : α) : (param p).value? = some p := rfl

/-- The punctuation mark that a token is. -/
def symbol? : Token α → Option Char
  | symbol c => some c
  | _ => none

/-- The token with the value that its number stands for. The first value has the number one. -/
def bind (params : List α) : Token Nat → Option (Token α)
  | name text => some (.name text)
  | param 0 => none
  | param (index + 1) => params[index]?.map .param
  | word text => some (.word text)
  | operator op => some (.operator op)
  | symbol c => some (.symbol c)

end Token

variable {α : Type}

/-- The parameters among tokens, in order. -/
def paramsOf (ts : List (Token α)) : List α := ts.filterMap Token.value?

/-- The punctuation marks among tokens, in order. -/
def symbolsOf (ts : List (Token α)) : List Char := ts.filterMap Token.symbol?

/-- Tokens whose parameters are numbered from left to right. -/
def number : Nat → List (Token α) → List (Token Nat)
  | _, [] => []
  | index, t :: ts => t.replace index :: number (index + (paramsOf [t]).length) ts

/-- Tokens with the values that their numbers stand for. -/
def bindAll (params : List α) (ts : List (Token Nat)) : Option (List (Token α)) :=
  ts.mapM (Token.bind params)

@[simp] theorem paramsOf_nil : paramsOf ([] : List (Token α)) = [] := rfl

@[simp] theorem paramsOf_cons (t : Token α) (ts : List (Token α)) :
    paramsOf (t :: ts) = t.value?.toList ++ paramsOf ts := by
  cases t <;> rfl

@[simp] theorem paramsOf_append (ts us : List (Token α)) :
    paramsOf (ts ++ us) = paramsOf ts ++ paramsOf us := by
  simp [paramsOf]

@[simp] theorem symbolsOf_nil : symbolsOf ([] : List (Token α)) = [] := rfl

@[simp] theorem symbolsOf_cons (t : Token α) (ts : List (Token α)) :
    symbolsOf (t :: ts) = t.symbol?.toList ++ symbolsOf ts := by
  cases t <;> rfl

@[simp] theorem symbolsOf_append (ts us : List (Token α)) :
    symbolsOf (ts ++ us) = symbolsOf ts ++ symbolsOf us := by
  simp [symbolsOf]

/-- The numbers go on behind the placeholders of the first part. -/
theorem number_append (index : Nat) (ts us : List (Token α)) :
    number index (ts ++ us) = number index ts ++ number (index + (paramsOf ts).length) us := by
  induction ts generalizing index with
  | nil => rfl
  | cons t ts ih =>
    have hlength : (paramsOf (t :: ts)).length = (paramsOf [t]).length + (paramsOf ts).length := by
      rw [← List.length_append, ← paramsOf_append]
      rfl
    rw [List.cons_append, number, ih, number, List.cons_append, hlength, Nat.add_assoc]

/-- Tokens without parameters have nothing to number. -/
theorem number_eq_map {ts : List (Token α)} (h : paramsOf ts = []) (index : Nat) :
    number index ts = ts.map (Token.replace 0) := by
  induction ts generalizing index with
  | nil => rfl
  | cons t ts ih =>
    rw [paramsOf_cons, List.append_eq_nil_iff] at h
    obtain ⟨ht, hts⟩ := h
    rw [number, List.map_cons, ih hts]
    cases t with
    | param value => simp at ht
    | _ => rfl

/-- **Numbers lead back to the values.** The tokens may stand anywhere in a statement, whose
parameters are then those before them, their own, and those after them. -/
theorem bindAll_number (before after : List α) (ts : List (Token α)) :
    bindAll (before ++ paramsOf ts ++ after) (number (before.length + 1) ts) = some ts := by
  induction ts generalizing before with
  | nil => rfl
  | cons t ts ih =>
    -- the parameter of the first token, if it is one, comes before those of the others
    have hrest : bindAll (before ++ paramsOf (t :: ts) ++ after)
        (number (before.length + 1 + (paramsOf [t]).length) ts) = some ts := by
      have h := ih (before ++ paramsOf [t])
      rw [List.length_append] at h
      rw [paramsOf_cons, ← h]
      simp only [paramsOf_cons, paramsOf_nil, List.append_nil, List.append_assoc]
      congr 2
      omega
    have hhead : (t.replace (before.length + 1)).bind (before ++ paramsOf (t :: ts) ++ after) =
        some t := by
      cases t <;> simp [Token.replace, Token.bind]
    unfold bindAll at hrest ⊢
    rw [number, List.mapM_cons, hhead, hrest]
    rfl

end LinkQuery.Sql
