import LinkQuery.Proofs.Sql.Token

/-!
# Delimited identifiers

SQL has a rule of its own for a name between double quotes: two quotes inside stand for one, and a
single one ends the name. The rule knows nothing of keywords or placeholders, so what it reads is
one name, and it depends on the characters alone where that name ends.

* `delimited?` is the rule. `delimited?_quote`: what it reads of a quoted name is the name, and all
  of it.
* `lex_delimited`: the reader of tokens follows the rule, on any text that starts with a quote. So a
  quoted name is one token for it (`lex_quote_append`).
-/

namespace LinkQuery.Sql

/-- The name whose characters a text starts with, behind the quote that opens it, and the text
behind the quote that closes it. There is none if no quote does. -/
def insideName? : List Char → Option (List Char × List Char)
  | [] => none
  | '"' :: '"' :: rest => (insideName? rest).map fun (name, behind) => ('"' :: name, behind)
  | '"' :: rest => some ([], rest)
  | c :: rest => (insideName? rest).map fun (name, behind) => (c :: name, behind)

/-- The delimited identifier that a text starts with, and the text behind it. -/
def delimited? : List Char → Option (String × List Char)
  | '"' :: rest => (insideName? rest).map fun (name, behind) => (String.ofList name, behind)
  | _ => none

theorem insideName?_close {rest : List Char} (h : rest.head? ≠ some '"') :
    insideName? ('"' :: rest) = some ([], rest) := by
  cases rest with
  | nil => rfl
  | cons c cs =>
    have hc : ¬ c = '"' := by simpa using h
    simp [insideName?, hc]

theorem insideName?_cons {c : Char} (hc : ¬ c = '"') (rest : List Char) :
    insideName? (c :: rest) =
      (insideName? rest).map fun (name, behind) => (c :: name, behind) := by
  simp [insideName?, hc]

/-- A name is read back from its characters, a quote from two quotes, up to the quote that closes
it. -/
theorem insideName?_quoted (name : List Char) {rest : List Char} (h : rest.head? ≠ some '"') :
    insideName? (name.flatMap quotedChar ++ '"' :: rest) = some (name, rest) := by
  induction name with
  | nil => exact insideName?_close h
  | cons c cs ih =>
    rw [List.flatMap_cons, quotedChar]
    split
    next hc =>
      -- the two quotes are taken for one before either could close the name
      rw [List.append_assoc, List.cons_append, List.singleton_append, insideName?, ih, hc]
      rfl
    next hc =>
      rw [List.append_assoc, List.singleton_append, insideName?_cons hc, ih]
      rfl

/-- **A quoted name is read as this name**, whatever it contains, and whatever stands behind it
unless that is a further quote. -/
theorem delimited?_quote (name : String) {rest : List Char} (h : rest.head? ≠ some '"') :
    delimited? ((quote name).toList ++ rest) = some (name, rest) := by
  rw [quote, String.toList_ofList, quotedChars, List.append_assoc, List.cons_append,
    List.singleton_append, delimited?, insideName?_quoted _ h]
  simp

/-! ### The reader of tokens -/

/-- The tokens of a text that stands behind a token at hand. -/
def lexFrom (p : Pending) (cs : List Char) : Option (List (Token Nat)) :=
  (run p cs).bind fun (tokens, q) => q.finish.map (tokens ++ ·)

theorem lex_eq_lexFrom (cs : List Char) : lex cs = lexFrom .nothing cs := by
  unfold lex lexFrom
  cases run .nothing cs with
  | none => rfl
  | some x => cases h : x.2.finish <;> simp [h]

theorem lexFrom_cons (p : Pending) (c : Char) (cs : List Char) :
    lexFrom p (c :: cs) =
      (p.step c).bind fun (done, q) => (lexFrom q cs).map (done ++ ·) := by
  unfold lexFrom
  rw [run]
  cases hstep : p.step c with
  | none => simp
  | some x =>
    cases hrun : run x.2 cs with
    | none => simp [hrun]
    | some y => cases hlast : y.2.finish <;> simp [hrun, hlast]

/-- A character may belong to the token at hand. -/
theorem lexFrom_extend {p q : Pending} {c : Char} (h : p.extend c = some q) (cs : List Char) :
    lexFrom p (c :: cs) = lexFrom q cs := by
  have hstep : p.step c = some ([], q) := by
    rw [Pending.step, h]
  rw [lexFrom_cons, hstep]
  cases hrest : lexFrom q cs <;> simp [hrest]

/-- A name that is closed is complete, unless a further quote stands behind it. -/
theorem lexFrom_closedName (read : List Char) {rest : List Char} (h : rest.head? ≠ some '"') :
    lexFrom (.closedName read) rest = (lex rest).map (.name (String.ofList read) :: ·) := by
  rw [lex_eq_lexFrom]
  cases rest with
  | nil => rfl
  | cons c cs =>
    have hc : ¬ c = '"' := by simpa using h
    -- the character starts what it would start with nothing in front of it
    have hclosed : Pending.step (.closedName read) c =
        (Pending.start? c).map fun x => (.name (String.ofList read) :: x.1, x.2) := by
      cases hstart : Pending.start? c <;>
        simp [Pending.step, Pending.extend, Pending.finish, hc, hstart]
    have hfresh : Pending.nothing.step c = Pending.start? c := by
      cases hstart : Pending.start? c <;>
        simp [Pending.step, Pending.extend, Pending.finish, hstart]
    rw [lexFrom_cons, lexFrom_cons, hclosed, hfresh]
    cases Pending.start? c with
    | none => rfl
    | some x => cases hrest : lexFrom x.2 cs <;> simp [hrest]

/-- Behind the quote that opens a name stands what the rule reads there. -/
theorem lexFrom_openName (read cs : List Char) :
    lexFrom (.openName read) cs = (insideName? cs).bind fun (name, behind) =>
      (lex behind).map (.name (String.ofList (read ++ name)) :: ·) := by
  fun_induction insideName? cs generalizing read with
  | case1 => rfl
  | case2 rest ih =>
    -- two quotes: the first one closes the name, the second one reopens it
    have hclosed : Pending.extend '"' (.openName read) = some (.closedName read) := rfl
    have hopened : Pending.extend '"' (.closedName read) = some (.openName (read ++ ['"'])) := rfl
    rw [lexFrom_extend hclosed, lexFrom_extend hopened, ih]
    cases hname : insideName? rest with
    | none => rfl
    | some x => simp
  | case3 rest hrest =>
    -- a single quote closes the name
    have hclosed : Pending.extend '"' (.openName read) = some (.closedName read) := rfl
    have hsingle : rest.head? ≠ some '"' := by
      intro hhead
      obtain ⟨cs, rfl⟩ := List.head?_eq_some_iff.1 hhead
      exact hrest cs rfl
    rw [lexFrom_extend hclosed, lexFrom_closedName read hsingle]
    simp
  | case4 c rest _ hc ih =>
    have hinside : Pending.extend c (.openName read) = some (.openName (read ++ [c])) := by
      rw [Pending.extend, if_neg hc]
    rw [lexFrom_extend hinside, ih]
    cases hname : insideName? rest with
    | none => rfl
    | some x => simp

/-- **The reader of tokens follows the rule** for names between quotes. -/
theorem lex_delimited (cs : List Char) :
    lex ('"' :: cs) =
      (delimited? ('"' :: cs)).bind fun (name, behind) => (lex behind).map (.name name :: ·) := by
  have hstart : Pending.nothing.step '"' = some ([], .openName []) := rfl
  rw [lex_eq_lexFrom, lexFrom_cons, hstart]
  simp only [Option.bind_some, lexFrom_openName, delimited?]
  cases insideName? cs with
  | none => rfl
  | some x => cases hrest : lex x.2 <;> simp [hrest]

/-- **A quoted name is one token**, and what stands behind it is read as if it stood alone. -/
theorem lex_quote_append (name : String) {rest : List Char} (h : rest.head? ≠ some '"') :
    lex ((quote name).toList ++ rest) = (lex rest).map (.name name :: ·) := by
  have hquote : (quote name).toList ++ rest =
      '"' :: (name.toList.flatMap quotedChar ++ '"' :: rest) := by
    simp [quote, quotedChars]
  have hname := delimited?_quote name h
  rw [hquote] at hname ⊢
  rw [lex_delimited, hname]
  rfl

/-- A quoted name alone. -/
theorem lex_quote (name : String) : lex (quote name).toList = some [.name name] := by
  have hname := lex_quote_append name (show ([] : List Char).head? ≠ some '"' by simp)
  rwa [List.append_nil] at hname

end LinkQuery.Sql
