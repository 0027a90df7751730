import LinkQuery.Proofs.Sql.Lexing

/-!
# The tokens of statements

Here the tokens that a statement is meant to be made of are listed along its tree, and the text of
the statement is shown to be made of them.

* `Condition.tokens`, `Select.tokens` and `SelectStatement.tokens` are these lists; the parameters
  in them are values.
* `Condition.lexes`, `Select.lexes` and `SelectStatement.lexes` are the laws. All names are quoted
  and all values are parameters, so the only text that is not the writer's own is the name of a type
  in a cast, and it has to be plain (`Atom.PlainCast`).
-/

namespace LinkQuery.Sql

open Json (Value)

/-! ### Names of types -/

/-- The tokens of the name of a type. -/
def typeTokens (typeName : String) : List (Token Value) :=
  ((lex typeName.toList).getD []).filterMap (Token.bind [])

/-- No name is open and no placeholder or operator is at hand. -/
def Pending.IsPlain (p : Pending) : Prop := p = .nothing ∨ ∃ read, p = .word read

/-- What is plain may end, with neither a parameter nor a punctuation mark. -/
theorem Pending.IsPlain.finish {p : Pending} (hp : p.IsPlain) :
    ∃ last, p.finish = some last ∧ paramsOf last = [] ∧ symbolsOf last = [] := by
  rcases hp with rfl | ⟨read, rfl⟩
  · exact ⟨_, rfl, rfl, rfl⟩
  · exact ⟨_, rfl, rfl, rfl⟩

/-- A character of a word is no punctuation mark. -/
theorem isPunctuation_eq_false {c : Char} (hc : isWordChar c) : isPunctuation c = false := by
  refine Bool.eq_false_iff.2 fun hmark => ?_
  simp only [isPunctuation, Bool.or_eq_true, decide_eq_true_eq] at hmark
  rcases hmark with (((rfl | rfl) | rfl) | rfl) | rfl <;> exact absurd hc (by decide)

/-- A character of a word, a blank or a punctuation mark starts something plain. A punctuation mark
is a token, and nothing else is one yet. -/
theorem Pending.exists_start? {c : Char} (hc : isWordChar c ∨ isSeparator c) :
    ∃ started q, start? c = some (started, q) ∧ q.IsPlain ∧ paramsOf started = [] ∧
      symbolsOf started = [c].filter isPunctuation := by
  unfold start?
  by_cases hspace : isSpace c = true
  · have hmark : isPunctuation c = false := by
      simp only [isSpace, Bool.or_eq_true, decide_eq_true_eq] at hspace
      rcases hspace with ((rfl | rfl) | rfl) | rfl <;> rfl
    exact ⟨[], .nothing, by rw [if_pos hspace], .inl rfl, rfl, by simp [hmark]⟩
  · by_cases hmark : isPunctuation c = true
    · exact ⟨[.symbol c], .nothing, by rw [if_neg hspace, if_pos hmark], .inl rfl, rfl,
        by simp [hmark, Token.symbol?]⟩
    · have hword : isWordChar c = true := by simpa [isSeparator, hspace, hmark] using hc
      have hquote : c ≠ '"' := by rintro rfl; exact absurd hword (by decide)
      have hdollar : c ≠ '$' := by rintro rfl; exact absurd hword (by decide)
      refine ⟨[], .word [c], ?_, .inr ⟨_, rfl⟩, rfl, by simp [hmark]⟩
      rw [if_neg hspace, if_neg hmark, if_neg hquote, if_neg hdollar, if_pos hword]

/-- A character of a word, a blank or a punctuation mark leads from plain to plain, and punctuation
marks are kept. -/
theorem Pending.IsPlain.step {p : Pending} (hp : p.IsPlain) {c : Char}
    (hc : isWordChar c ∨ isSeparator c) :
    ∃ ts q, p.step c = some (ts, q) ∧ q.IsPlain ∧ paramsOf ts = [] ∧
      symbolsOf ts = [c].filter isPunctuation := by
  cases hextend : p.extend c with
  | none =>
    -- the token at hand ends, and the character starts something
    obtain ⟨last, hlast, hnone, hmarks⟩ := hp.finish
    obtain ⟨started, q, hstart, hq, hstarted, hmark⟩ := exists_start? hc
    refine ⟨last ++ started, q, ?_, hq, ?_, ?_⟩
    · simp [Pending.step, hextend, hlast, hstart]
    · rw [paramsOf_append, hnone, hstarted]
      rfl
    · rw [symbolsOf_append, hmarks, hmark, List.nil_append]
  | some r =>
    -- a word goes on as a word
    obtain ⟨hr, hword⟩ : r.IsPlain ∧ isWordChar c := by
      rcases hp with rfl | ⟨read, rfl⟩
      · simp [Pending.extend] at hextend
      · rw [Pending.extend] at hextend
        split at hextend
        next hword => exact ⟨.inr ⟨_, (Option.some.inj hextend).symm⟩, hword⟩
        next => simp at hextend
    refine ⟨[], r, by simp [Pending.step, hextend], hr, rfl, ?_⟩
    simp [isPunctuation_eq_false hword]

/-- Words and separators bind nothing, and of the symbols only the punctuation is left. -/
theorem exists_run_of_plain {p : Pending} (hp : p.IsPlain) {cs : List Char}
    (h : ∀ c ∈ cs, isWordChar c ∨ isSeparator c) :
    ∃ ts q, run p cs = some (ts, q) ∧ q.IsPlain ∧ paramsOf ts = [] ∧
      symbolsOf ts = cs.filter isPunctuation := by
  induction cs generalizing p with
  | nil => exact ⟨[], p, rfl, hp, rfl, rfl⟩
  | cons c cs ih =>
    obtain ⟨ts, q, hstep, hq, hts, hmark⟩ := hp.step (h c (by simp))
    obtain ⟨us, r, hrun, hr, hus, hmarks⟩ := ih hq fun d hd => h d (by simp [hd])
    refine ⟨ts ++ us, r, ?_, hr, by rw [paramsOf_append, hts, hus]; rfl, ?_⟩
    · rw [run, hstep]
      simp [hrun]
    · rw [symbolsOf_append, hmark, hmarks, ← List.filter_append, List.singleton_append]

/-- What is made of words, blanks and punctuation marks can be read. It has no placeholders, and
keeps its punctuation marks. -/
theorem exists_lex_of_plain {cs : List Char} (h : ∀ c ∈ cs, isWordChar c ∨ isSeparator c) :
    ∃ ts, lex cs = some ts ∧ paramsOf ts = [] ∧ symbolsOf ts = cs.filter isPunctuation := by
  obtain ⟨ts, q, hrun, hq, hts, hmarks⟩ := exists_run_of_plain (.inl rfl) h
  obtain ⟨last, hlast, hnone, hlastMarks⟩ := hq.finish
  refine ⟨ts ++ last, ?_, by rw [paramsOf_append, hts, hnone]; rfl, ?_⟩
  · unfold lex
    simp [hrun, hlast]
  · rw [symbolsOf_append, hmarks, hlastMarks, List.append_nil]

/-- Tokens without parameters stay what they are when they are bound and numbered. -/
theorem map_replace_filterMap_bind {ts : List (Token Nat)} (h : paramsOf ts = []) :
    (ts.filterMap (Token.bind (α := Value) [])).map (Token.replace 0) = ts ∧
      paramsOf (ts.filterMap (Token.bind (α := Value) [])) = [] ∧
      symbolsOf (ts.filterMap (Token.bind (α := Value) [])) = symbolsOf ts := by
  induction ts with
  | nil => exact ⟨rfl, rfl, rfl⟩
  | cons t ts ih =>
    rw [paramsOf_cons, List.append_eq_nil_iff] at h
    obtain ⟨ht, hts⟩ := h
    obtain ⟨hmap, hnone, hmarks⟩ := ih hts
    cases t with
    | param index => simp at ht
    | _ =>
      -- all other tokens are bound and numbered to themselves
      refine ⟨?_, ?_, ?_⟩
      · rw [List.filterMap_cons, Token.bind, List.map_cons, hmap]
        rfl
      · rw [List.filterMap_cons, Token.bind, paramsOf_cons, hnone]
        rfl
      · rw [List.filterMap_cons, Token.bind, symbolsOf_cons, symbolsOf_cons, hmarks]
        rfl

/-- A plain name of a type can be read by itself, and the tokens that stand for it are those that
are read. -/
theorem exists_lex_typeName {typeName : String} (h : isPlainType typeName) :
    ∃ ts, lex typeName.toList = some ts ∧ (typeTokens typeName).map (Token.replace 0) = ts ∧
      paramsOf (typeTokens typeName) = [] ∧
      symbolsOf (typeTokens typeName) = typeName.toList.filter isPunctuation := by
  have hchars : ∀ c ∈ typeName.toList, isWordChar c ∨ isSeparator c := by
    intro c hc
    have hplain := List.all_eq_true.1 h c hc
    simp only [Bool.or_eq_true, decide_eq_true_eq] at hplain
    rcases hplain with ((((halnum | rfl) | rfl) | rfl) | rfl) | rfl
    · exact .inl (by simp [isWordChar, halnum])
    all_goals decide
  obtain ⟨ts, hlex, hnone, hmarks⟩ := exists_lex_of_plain hchars
  have htokens : typeTokens typeName = ts.filterMap (Token.bind []) := by
    rw [typeTokens, hlex]
    rfl
  rw [htokens, ← hmarks]
  exact ⟨ts, hlex, map_replace_filterMap_bind hnone⟩

/-- The name of a type gives plain tokens. -/
theorem lexes_typeName {typeName : String} (h : isPlainType typeName) :
    (Fragment.text typeName).Lexes (typeTokens typeName) := by
  obtain ⟨ts, hlex, rfl, hparams, -⟩ := exists_lex_typeName h
  exact Fragment.lexes_text hparams hlex

/-! ### Conditions -/

/-- The name of the type in a cast, if there is one, is plain. -/
def Atom.PlainCast : Atom → Prop
  | .compare _ _ _ _ (some typeName) => isPlainType typeName
  | _ => True

namespace Atom

/-- The tokens of a column, as it is or cast to text. -/
def columnTokens (column : String) (asText : Bool) : List (Token Value) :=
  if asText then
    [.word "cast", .symbol '(', .name column, .word "as", .word "text", .symbol ')']
  else [.name column]

/-- The tokens of a condition on a column. -/
def tokens : Atom → List (Token Value)
  | compare column asText op value none => columnTokens column asText ++
    [.operator op, .param value]
  | compare column asText op value (some typeName) =>
    columnTokens column asText ++ [.operator op, .word "cast", .symbol '(', .param value,
      .word "as"] ++
      typeTokens typeName ++ [.symbol ')']
  | like column asText pattern =>
    columnTokens column asText ++ [.word "like", .param (.text pattern)]
  | isNull column => [.name column, .word "is", .word "null"]
  | isNotNull column => [.name column, .word "is", .word "not", .word "null"]

open Fragment

theorem lexes_columnText (column : String) (asText : Bool) :
    (text (columnText column asText)).Lexes (columnTokens column asText) := by
  cases asText with
  | false => exact lexes_quote column
  | true =>
    have hopen : (text "CAST (").Lexes [.word "cast", .symbol '('] := lexes_text rfl rfl
    have hclose : (text " AS text)").Lexes [.word "as", .word "text", .symbol ')'] :=
      lexes_text rfl rfl
    exact .appendText (.inr rfl) (.appendText (.inl rfl) hopen (lexes_quote column)) hclose

/-- A column and the sign of the comparison behind it. -/
theorem lexes_comparison (column : String) (asText : Bool) (op : Comparison) :
    (text (columnText column asText ++ (" " ++ op.symbol ++ " "))).Lexes
      (columnTokens column asText ++ [.operator op]) := by
  have hop : (text (" " ++ op.symbol ++ " ")).Lexes [.operator op] := by
    cases op <;> exact lexes_text rfl rfl
  have hstart : startsApart (" " ++ op.symbol ++ " ") := by
    cases op <;> rfl
  exact .appendText (.inr hstart) (lexes_columnText column asText) hop

/-- A test is lexed as its tokens. -/
theorem lexes {a : Atom} (h : a.PlainCast) : a.fragment.Lexes a.tokens := by
  match a with
  | compare column asText op value none =>
    -- the text is cut behind the column and behind the sign of the comparison
    have htext : columnText column asText ++ " " ++ op.symbol ++ " " =
        columnText column asText ++ (" " ++ op.symbol ++ " ") := by
      simp only [String.append_assoc]
    have hends : endsApart (columnText column asText ++ (" " ++ op.symbol ++ " ")) :=
      endsApart_append _ (endsApart_append _ rfl)
    rw [fragment, tokens, htext]
    have h := (lexes_comparison column asText op).append (.inl (endsApart_text hends))
      (lexes_param value)
    simpa using h
  | compare column asText op value (some typeName) =>
    have htext : columnText column asText ++ " " ++ op.symbol ++ " CAST (" =
        columnText column asText ++ (" " ++ op.symbol ++ " ") ++ "CAST (" := by
      simp only [String.append_assoc]
      rfl
    have hends : endsApart (columnText column asText ++ (" " ++ op.symbol ++ " ")) :=
      endsApart_append _ (endsApart_append _ rfl)
    -- the name of the type stands between a blank and a parenthesis
    have hcast : (text "CAST (").Lexes [.word "cast", .symbol '('] := lexes_text rfl rfl
    have has : (text " AS ").Lexes [.word "as"] := lexes_text rfl rfl
    have hclose : (text ")").Lexes [.symbol ')'] := lexes_text rfl rfl
    have hopen := (lexes_comparison column asText op).appendText (.inl hends) hcast
    have htype := (has.appendText (.inl rfl) (lexes_typeName h)).appendText (.inr rfl) hclose
    rw [fragment, tokens, htext]
    have hvalue := hopen.append (.inl (endsApart_text (endsApart_append _ rfl)))
      (lexes_param value)
    have hstart : startsApart (" AS " ++ typeName ++ ")") :=
      startsApart_append (startsApart_append rfl _) _
    simpa using hvalue.append (.inr (startsApart_text hstart)) htype
  | like column asText pattern =>
    have hlike : (text " like ").Lexes [.word "like"] := lexes_text rfl rfl
    have hcolumn := (lexes_columnText column asText).appendText (.inr rfl) hlike
    rw [fragment, tokens]
    simpa using hcolumn.append (.inl (endsApart_text (endsApart_append _ rfl)))
      (lexes_param (.text pattern))
  | isNull column =>
    have hnull : (text " is null").Lexes [.word "is", .word "null"] := lexes_text rfl rfl
    exact (lexes_quote column).appendText (.inr rfl) hnull
  | isNotNull column =>
    have hnull : (text " is not null").Lexes [.word "is", .word "not", .word "null"] :=
      lexes_text rfl rfl
    exact (lexes_quote column).appendText (.inr rfl) hnull

end Atom

/-- The token of a connection. -/
def Joiner.token : Joiner → Token Value
  | and => .word "and"
  | or => .word "or"

theorem Joiner.lexes (joiner : Joiner) : (Fragment.text joiner.text).Lexes [joiner.token] := by
  cases joiner <;> exact Fragment.lexes_text rfl rfl

namespace Condition

mutual

/-- The tokens of a condition. -/
def tokens : Condition → List (Token Value)
  | atom a => a.tokens
  | group negated joiner members =>
    (if negated then [.word "not"] else []) ++ .symbol '(' ::
      [joiner.token].intercalate (tokensOfMembers members) ++ [.symbol ')']

/-- The tokens of each condition. -/
def tokensOfMembers : List Condition → List (List (Token Value))
  | [] => []
  | c :: rest => tokens c :: tokensOfMembers rest

end

mutual

/-- All conditions on columns have a property. -/
def Forall (p : Atom → Prop) : Condition → Prop
  | atom a => p a
  | group _ _ members => ForallMembers p members

/-- All conditions on columns, in any of the members, have a property. -/
def ForallMembers (p : Atom → Prop) : List Condition → Prop
  | [] => True
  | c :: rest => Forall p c ∧ ForallMembers p rest

end

mutual

/-- A condition is lexed as its tokens. -/
theorem lexes {c : Condition} (h : c.Forall Atom.PlainCast) : c.fragment.Lexes c.tokens := by
  match c with
  | atom a => exact Atom.lexes h
  | group negated joiner members =>
    have hopen : (Fragment.text (if negated then "not (" else "(")).Lexes
        ((if negated then [.word "not"] else []) ++ [.symbol '(']) := by
      cases negated <;> exact Fragment.lexes_text rfl rfl
    have hends : Fragment.endsApart (if negated then "not (" else "(") := by
      cases negated <;> rfl
    have hclose : (Fragment.text ")").Lexes [.symbol ')'] := Fragment.lexes_text rfl rfl
    have hstart : Fragment.startsApart joiner.text := by cases joiner <;> rfl
    have hend : Fragment.endsApart joiner.text := by cases joiner <;> rfl
    -- neither the joiner nor a parenthesis runs into what a member begins or ends with
    have hmembers := Fragment.Lexes.joined hstart hend joiner.lexes (lexes_members h)
    rw [fragment, Fragment.wrapped, tokens]
    have hfirst := hopen.append (.inl (Fragment.endsApart_text hends)) hmembers
    simpa using hfirst.append (.inr (Fragment.startsApart_text rfl)) hclose

theorem lexes_members {cs : List Condition} (h : ForallMembers Atom.PlainCast cs) :
    List.Forall₂ Fragment.Lexes (fragments cs) (tokensOfMembers cs) := by
  match cs with
  | [] => exact .nil
  | c :: rest => exact .cons (lexes h.1) (lexes_members h.2)

end

end Condition

/-! ### Selects -/

/-- The tokens of a column to fetch. -/
def OutputColumn.tokens : OutputColumn → List (Token Value)
  | star => [.symbol '*']
  | column name => [.name name]

/-- The tokens of a correlation. -/
def Correlation.tokens (c : Correlation) : List (Token Value) :=
  [.name c.target, .operator .eq, .name c.parent, .symbol '.', .name c.localColumn]

theorem OutputColumn.lexes (c : OutputColumn) : (Fragment.text c.text).Lexes c.tokens := by
  cases c with
  | star => exact Fragment.lexes_text rfl rfl
  | column name => exact Fragment.lexes_quote name

open Fragment in
/-- A qualified column is two names with a point between them. -/
theorem lexes_quoteColumn (relation column : String) :
    (text (quoteColumn relation column)).Lexes [.name relation, .symbol '.', .name column] := by
  have hdot : (text ".").Lexes [.symbol '.'] := lexes_text rfl rfl
  have hrelation := (lexes_quote relation).appendText (.inr rfl) hdot
  exact hrelation.appendText (.inl (endsApart_append _ rfl)) (lexes_quote column)

open Fragment in
theorem Correlation.lexes (c : Correlation) : c.fragment.Lexes c.tokens := by
  have heq : (text " = ").Lexes [.operator .eq] := lexes_text rfl rfl
  have htarget := (lexes_quote c.target).appendText (.inr rfl) heq
  exact htarget.appendText (.inl (endsApart_append _ rfl))
    (lexes_quoteColumn c.parent c.localColumn)

namespace Fragment

/-- Texts with a comma between them. -/
theorem lexes_commas {α : Type} {write : α → String} {read : α → List (Token Value)}
    (h : ∀ a, (text (write a)).Lexes (read a)) (as : List α) :
    (text (String.intercalate ", " (as.map write))).Lexes
      ([.symbol ','].intercalate (as.map read)) := by
  have hcomma : (text ", ").Lexes [.symbol ','] := lexes_text rfl rfl
  induction as with
  | nil => exact lexes_text rfl rfl
  | cons a rest ih =>
    cases rest with
    | nil => simpa using h a
    | cons b rest =>
      rw [List.map_cons, List.map_cons, String.intercalate_cons_cons, List.map_cons, List.map_cons,
        List.intercalate_cons_cons]
      exact ((h a).appendText (.inr rfl) hcomma).appendText (.inl (endsApart_append _ rfl)) ih

end Fragment

namespace Select

/-- The tokens of the conditions of a level, each standing for itself. -/
def conditionTokens (correlation : Option Correlation) (condition : Option Condition) :
    List (List (Token Value)) :=
  correlation.toList.map Correlation.tokens ++ condition.toList.map Condition.tokens

/-- The tokens of the conditions of a level with `where` in front, if there are any. -/
def whereTokens (correlation : Option Correlation) (condition : Option Condition) :
    List (Token Value) :=
  match conditionTokens correlation condition with
  | [] => []
  | parts => .word "where" :: [.word "and"].intercalate parts

/-- The tokens of the table of a level. -/
def fromTokens (table : String) (asName : Option String) : List (Token Value) :=
  [.word "from", .name table] ++
    match asName with
    | none => []
    | some asName => [.word "as", .name asName]

mutual

/-- The tokens of a select. -/
def tokens : Select → List (Token Value)
  | level columns links table asName correlation condition =>
    .word "select" :: [.symbol ','].intercalate (columns.map OutputColumn.tokens) ++
      linkTokens links ++ fromTokens table asName ++ whereTokens correlation condition
  | whereLinked inner link =>
    [.word "select", .symbol '*', .word "from", .symbol '('] ++ tokens inner ++
      [.symbol ')', .word "as", .name "tmp", .word "where", .name "tmp", .symbol '.', .name link,
        .word "is", .word "not", .word "null"]

/-- The tokens of the linked rows of a level. -/
def linkTokens : List (String × Bool × Select) → List (Token Value)
  | [] => []
  | (name, demanded, inner) :: rest =>
    [.symbol ',', .symbol '(', .word "select", .word "to_json", .symbol '(', .word "obj",
        .symbol ')', .word "from", .symbol '('] ++ tokens inner ++
      [.symbol ')', .word "as", .word "obj"] ++
      (if demanded then [.word "where", .word "obj", .word "is", .word "not", .word "null"]
        else []) ++
      [.symbol ')', .word "as", .name name] ++ linkTokens rest

end

mutual

/-- All conditions on columns, at any level, have a property. -/
def Forall (p : Atom → Prop) : Select → Prop
  | level _ links _ _ _ condition => ForallLinks p links ∧ ∀ c ∈ condition, c.Forall p
  | whereLinked inner _ => Forall p inner

/-- All conditions on columns, in any of the linked rows, have a property. -/
def ForallLinks (p : Atom → Prop) : List (String × Bool × Select) → Prop
  | [] => True
  | (_, _, inner) :: rest => Forall p inner ∧ ForallLinks p rest

end

open Fragment

/-- What follows the source starts with a blank, or is empty. -/
theorem startsApart_whereFragment (correlation : Option Correlation)
    (condition : Option Condition) : (whereFragment correlation condition).StartsApart := by
  unfold whereFragment
  split
  · exact startsApart_empty
  · exact startsApart_text_append rfl _

/-- The restriction of a level is lexed as its tokens. -/
theorem lexes_whereFragment {correlation : Option Correlation} {condition : Option Condition}
    (h : ∀ c ∈ condition, c.Forall Atom.PlainCast) :
    (whereFragment correlation condition).Lexes (whereTokens correlation condition) := by
  have hand : (text " and ").Lexes [.word "and"] := lexes_text rfl rfl
  have hwhere : (text " where ").Lexes [.word "where"] := lexes_text rfl rfl
  have hparts : List.Forall₂ Lexes
      (correlation.toList.map Correlation.fragment ++ condition.toList.map Condition.fragment)
      (conditionTokens correlation condition) := by
    unfold conditionTokens
    cases correlation with
    | none =>
      cases condition with
      | none => exact .nil
      | some c => exact .cons (Condition.lexes (h c rfl)) .nil
    | some correlation =>
      cases condition with
      | none => exact .cons correlation.lexes .nil
      | some c => exact .cons correlation.lexes (.cons (Condition.lexes (h c rfl)) .nil)
  -- whether there is a condition at all depends on the lists alone
  unfold whereFragment whereTokens
  generalize conditionTokens correlation condition = tss at hparts
  generalize correlation.toList.map Correlation.fragment ++
    condition.toList.map Condition.fragment = fs at hparts
  cases hparts with
  | nil => exact lexes_empty
  | cons hfirst hrest =>
    exact hwhere.append (.inl (endsApart_text rfl)) (.joined rfl rfl hand (.cons hfirst hrest))

/-- The source is lexed as the table and its alias. -/
theorem lexes_fromText (table : String) (asName : Option String) :
    (text (fromText table asName)).Lexes (fromTokens table asName) := by
  have hfrom : (text " from ").Lexes [.word "from"] := lexes_text rfl rfl
  have htable := hfrom.appendText (.inl rfl) (lexes_quote table)
  unfold fromText fromTokens
  cases asName with
  | none => simpa using htable
  | some asName =>
    have has : (text " as ").Lexes [.word "as"] := lexes_text rfl rfl
    exact htable.appendText (.inr (startsApart_append rfl _))
      (has.appendText (.inl rfl) (lexes_quote asName))

/-- A linked row, given that its select is made of tokens. -/
theorem lexes_linkFragment (name : String) (demanded : Bool) {inner : Fragment}
    {ts : List (Token Value)} (h : inner.Lexes ts) :
    (linkFragment name demanded inner).Lexes (
      [.symbol ',', .symbol '(', .word "select", .word "to_json", .symbol '(', .word "obj",
        .symbol ')', .word "from", .symbol '('] ++ ts ++ [.symbol ')', .word "as", .word "obj"] ++
      (if demanded then [.word "where", .word "obj", .word "is", .word "not", .word "null"]
        else []) ++
      [.symbol ')', .word "as", .name name]) := by
  have hcomma : (text ", ").Lexes [.symbol ','] := lexes_text rfl rfl
  have hopen : (text "(select to_json(obj) from (").Lexes
      [.symbol '(', .word "select", .word "to_json", .symbol '(', .word "obj", .symbol ')',
        .word "from", .symbol '('] := lexes_text rfl rfl
  have hobj : (text ") as obj").Lexes [.symbol ')', .word "as", .word "obj"] := lexes_text rfl rfl
  have hwrapped := (hopen.append (.inl (endsApart_text rfl)) h).append
    (.inr (startsApart_text rfl)) hobj
  -- the guard is written only if the row has to be there
  have hguard : (text (if demanded then " where obj is not null" else "")).Lexes
      (if demanded then [.word "where", .word "obj", .word "is", .word "not", .word "null"]
        else []) := by
    cases demanded <;> exact lexes_text rfl rfl
  have has : (text ") as ").Lexes [.symbol ')', .word "as"] := lexes_text rfl rfl
  have hstart : startsApart ((if demanded then " where obj is not null" else "") ++ ") as ") := by
    cases demanded <;> rfl
  have htail := (hguard.appendText (.inr rfl) has).appendText (.inl (endsApart_append _ rfl))
    (lexes_quote name)
  have hlink := (hcomma.append (.inl (endsApart_text rfl)) hwrapped).append
    (.inr (startsApart_text (startsApart_append hstart _))) htail
  simpa [linkFragment, wrapped] using hlink

theorem startsApart_guard (demanded : Bool) (s : String) :
    startsApart ((if demanded then " where obj is not null" else "") ++ ") as " ++ s) := by
  cases demanded with
  | false => exact startsApart_append rfl _
  | true => exact startsApart_append (startsApart_append rfl _) _

theorem startsApart_linkFragment (name : String) (demanded : Bool) (inner : Fragment) :
    (linkFragment name demanded inner).StartsApart := by
  unfold linkFragment
  exact .append (startsApart_text_append rfl _) (startsApart_text (startsApart_guard demanded _))

theorem startsApart_linkFragments (links : List (String × Bool × Select)) :
    (linkFragments links).StartsApart := by
  induction links with
  | nil => exact startsApart_empty
  | cons link rest ih =>
    obtain ⟨name, demanded, inner⟩ := link
    rw [linkFragments]
    exact .append (startsApart_linkFragment _ _ _) ih

mutual

/-- A select is lexed as its tokens. -/
theorem lexes {s : Select} (h : s.Forall Atom.PlainCast) : s.fragment.Lexes s.tokens := by
  match s with
  | level columns links table asName correlation condition =>
    have hselect : (text "select ").Lexes [.word "select"] := lexes_text rfl rfl
    have hfirst := hselect.appendText (.inl rfl) (lexes_commas OutputColumn.lexes columns)
    have hlinks := hfirst.append (.inr (startsApart_linkFragments links)) (lexes_links h.1)
    have hstart : startsApart (fromText table asName) :=
      startsApart_append (startsApart_append rfl _) _
    have hfrom := hlinks.append (.inr (startsApart_text hstart)) (lexes_fromText table asName)
    have hwhere := hfrom.append (.inr (startsApart_whereFragment correlation condition))
      (lexes_whereFragment h.2)
    simpa [fragment, tokens] using hwhere
  | whereLinked inner link =>
    have hopen : (text "select * from (").Lexes
        [.word "select", .symbol '*', .word "from", .symbol '('] := lexes_text rfl rfl
    have htmp : (text ") as \"tmp\" where ").Lexes
        [.symbol ')', .word "as", .name "tmp", .word "where"] := lexes_text rfl rfl
    have hnull : (text " is not null").Lexes [.word "is", .word "not", .word "null"] :=
      lexes_text rfl rfl
    have hlink := (htmp.appendText (.inl rfl) (lexes_quoteColumn "tmp" link)).appendText
      (.inr rfl) hnull
    have hinner := (hopen.append (.inl (endsApart_text rfl)) (lexes (s := inner) h)).append
      (.inr (startsApart_text (startsApart_append (startsApart_append rfl _) _))) hlink
    simpa [fragment, wrapped, tokens] using hinner

/-- So are the subqueries of its links. -/
theorem lexes_links {links : List (String × Bool × Select)} (h : ForallLinks Atom.PlainCast links) :
    (linkFragments links).Lexes (linkTokens links) := by
  match links with
  | [] => exact lexes_empty
  | (name, demanded, inner) :: rest =>
    have hlink := (lexes_linkFragment name demanded (lexes h.1)).append
      (.inr (startsApart_linkFragments rest)) (lexes_links h.2)
    simpa [linkFragments, linkTokens] using hlink

end

end Select

/-! ### Whole statements -/

namespace SelectStatement

open Fragment

/-- The tokens of a term of the order. -/
def termTokens (term : SortTerm) : List (Token Value) :=
  match term.direction with
  | .asc => [.name term.column, .word "asc"]
  | .desc => [.name term.column, .word "desc"]
  | .random => [.word "random", .symbol '(', .symbol ')']

/-- The tokens of the order. -/
def orderTokens (order : List SortTerm) : List (Token Value) :=
  if order.isEmpty then []
  else [.word "order", .word "by"] ++ [.symbol ','].intercalate (order.map termTokens)

/-- The tokens of the limit. -/
def limitTokens : Option (Nat × Nat) → List (Token Value)
  | none => []
  | some (count, offset) =>
    [.word "limit", .param (.int count)] ++
      if offset = 0 then [] else [.word "offset", .param (.int offset)]

/-- The tokens of a statement. -/
def tokens (s : SelectStatement) : List (Token Value) :=
  s.select.tokens ++ orderTokens s.order ++ limitTokens s.limit

theorem lexes_termText (term : SortTerm) : (text (termText term)).Lexes (termTokens term) := by
  have hasc : (text " asc").Lexes [.word "asc"] := lexes_text rfl rfl
  have hdesc : (text " desc").Lexes [.word "desc"] := lexes_text rfl rfl
  have hrandom : (text "random()").Lexes [.word "random", .symbol '(', .symbol ')'] :=
    lexes_text rfl rfl
  unfold termText termTokens
  cases term.direction with
  | asc => exact (lexes_quote term.column).appendText (.inr rfl) hasc
  | desc => exact (lexes_quote term.column).appendText (.inr rfl) hdesc
  | random => exact hrandom

/-- The order is lexed as its tokens. -/
theorem lexes_orderFragment (order : List SortTerm) :
    (orderFragment order).Lexes (orderTokens order) := by
  unfold orderFragment orderTokens
  cases order with
  | nil => exact lexes_empty
  | cons term rest =>
    have horder : (text " order by ").Lexes [.word "order", .word "by"] := lexes_text rfl rfl
    exact horder.appendText (.inl rfl) (lexes_commas lexes_termText (term :: rest))

theorem startsApart_orderFragment (order : List SortTerm) : (orderFragment order).StartsApart := by
  unfold orderFragment
  split
  · exact startsApart_empty
  · exact startsApart_text (startsApart_append rfl _)

/-- Limit and offset are lexed as their tokens. -/
theorem lexes_limitFragment (limit : Option (Nat × Nat)) :
    (limitFragment limit).Lexes (limitTokens limit) := by
  cases limit with
  | none => exact lexes_empty
  | some limit =>
    obtain ⟨count, offset⟩ := limit
    have hlimit : (text " limit ").Lexes [.word "limit"] := lexes_text rfl rfl
    have hoffset : (text " offset ").Lexes [.word "offset"] := lexes_text rfl rfl
    have hcount := hlimit.append (.inl (endsApart_text rfl)) (lexes_param (.int count))
    rw [limitFragment, limitTokens]
    split
    · exact hcount.append (.inr startsApart_empty) lexes_empty
    · refine hcount.append (.inr (startsApart_text_append rfl _)) ?_
      exact hoffset.append (.inl (endsApart_text rfl)) (lexes_param (.int offset))

theorem startsApart_limitFragment (limit : Option (Nat × Nat)) :
    (limitFragment limit).StartsApart := by
  unfold limitFragment
  split
  · exact startsApart_empty
  · refine .append (startsApart_text_append rfl _) ?_
    split
    · exact startsApart_empty
    · exact startsApart_text_append rfl _

/-- **The text of a statement is made of its tokens**, if the names of types in casts are plain. -/
theorem lexes {s : SelectStatement} (h : s.select.Forall Atom.PlainCast) :
    s.fragment.Lexes s.tokens := by
  have horder := (Select.lexes h).append (.inr (startsApart_orderFragment s.order))
    (lexes_orderFragment s.order)
  exact horder.append (.inr (startsApart_limitFragment s.limit)) (lexes_limitFragment s.limit)

end SelectStatement

end LinkQuery.Sql
