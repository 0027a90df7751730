import LinkQuery.Proofs.Sql.StatementTokens

/-!
# What a statement asks for

The database learns from the text of a statement in which order the rows are wanted, how many of
them, and how many are to be left out before them. Here this is read back from the tokens of the
text.

* `PageClause` is what is read, `Statement.pageClause?` reads it. The clause starts at the last
  keyword `order`: names are quoted, so behind it there is no other one.
* `SelectStatement.pageClause?_render`: what is read is what was written.
-/

namespace LinkQuery

open Json (Value)

/-- A term as a statement shows it: a random order is that of no column in particular. -/
def SortTerm.shown (term : SortTerm) : SortTerm := if term.isRandom then .random else term

theorem SortTerm.shown_of_not_isRandom {term : SortTerm} (h : ¬ term.isRandom) :
    term.shown = term := if_neg h

namespace Sql

/-- The order of the rows, how many of them are wanted, and how many are left out before them. -/
structure PageClause where
  order : List SortTerm
  limit : Nat
  offset : Nat
  deriving DecidableEq, Repr

/-! ### Reading -/

/-- What follows the last occurrence of a token. -/
def afterLast? (t : Token Value) : List (Token Value) → Option (List (Token Value))
  | [] => none
  | u :: rest =>
    match afterLast? t rest with
    | some behind => some behind
    | none => if u = t then some rest else none

/-- The term of an order that tokens stand for. -/
def readTerm? : List (Token Value) → Option SortTerm
  | [.name column, .word "asc"] => some (.asc column)
  | [.name column, .word "desc"] => some (.desc column)
  | [.word "random", .symbol '(', .symbol ')'] => some .random
  | _ => none

/-- The limit and the offset that tokens stand for; no offset is the offset zero. -/
def readLimit? : List (Token Value) → Option (Nat × Nat)
  | [.word "limit", .param (.int count)] => some (count.toNat, 0)
  | [.word "limit", .param (.int count), .word "offset", .param (.int skipped)] =>
    some (count.toNat, skipped.toNat)
  | _ => none

/-- Whether a token does not begin the limit. -/
def isBeforeLimit (t : Token Value) : Bool := t ≠ .word "limit"

/-- The clause that the tokens behind `order` stand for. -/
def readClause? : List (Token Value) → Option PageClause
  | .word "by" :: rest => do
    let order ← ((rest.takeWhile isBeforeLimit).splitOn (.symbol ',')).mapM readTerm?
    let (limit, offset) ← readLimit? (rest.dropWhile isBeforeLimit)
    some ⟨order, limit, offset⟩
  | _ => none

/-- The clause of a statement. -/
def Statement.pageClause? (s : Statement) : Option PageClause := do
  let ts ← s.tokens?
  let clause ← afterLast? (.word "order") ts
  readClause? clause

/-! ### What is written is read -/

theorem afterLast?_eq_none {t : Token Value} {ts : List (Token Value)} (h : t ∉ ts) :
    afterLast? t ts = none := by
  induction ts with
  | nil => rfl
  | cons u rest ih =>
    rw [List.mem_cons, not_or] at h
    rw [afterLast?, ih h.2]
    exact if_neg (Ne.symm h.1)

/-- What follows the last mark is found behind anything that precedes it. -/
theorem afterLast?_append (t : Token Value) {before behind : List (Token Value)}
    (h : t ∉ behind) : afterLast? t (before ++ t :: behind) = some behind := by
  induction before with
  | nil => rw [List.nil_append, afterLast?, afterLast?_eq_none h]; exact if_pos rfl
  | cons u rest ih => rw [List.cons_append, afterLast?, ih]

/-- An element of an intercalated list is the mark or in one of the lists. -/
theorem mem_intercalate_singleton {α : Type} {a mark : α} {ass : List (List α)}
    (h : a ∈ [mark].intercalate ass) : a = mark ∨ ∃ as ∈ ass, a ∈ as := by
  induction ass with
  | nil => simp at h
  | cons as rest ih =>
    cases rest with
    | nil => exact .inr ⟨as, by simp, by simpa using h⟩
    | cons bs rest =>
      rw [List.intercalate_cons_cons, List.append_assoc, List.mem_append, List.mem_append,
        List.mem_singleton] at h
      rcases h with h | h | h
      · exact .inr ⟨as, by simp, h⟩
      · exact .inl h
      · exact (ih h).imp_right fun ⟨cs, hcs, hmem⟩ => ⟨cs, List.mem_cons_of_mem _ hcs, hmem⟩

namespace SelectStatement

/-- A term is read back from its tokens. -/
theorem readTerm?_termTokens (term : SortTerm) : readTerm? (termTokens term) = some term.shown := by
  obtain ⟨column, direction⟩ := term
  cases direction <;> rfl

/-- So are all the terms of an order. -/
theorem mapM_readTerm? (order : List SortTerm) :
    (order.map termTokens).mapM readTerm? = some (order.map SortTerm.shown) := by
  induction order with
  | nil => rfl
  | cons term rest ih =>
    rw [List.map_cons, List.mapM_cons, readTerm?_termTokens, ih]
    rfl

/-- The words of an order are its directions. -/
theorem word_of_mem_termTokens {term : SortTerm} {word : String}
    (h : Token.word word ∈ termTokens term) : word ∈ ["asc", "desc", "random"] := by
  obtain ⟨column, direction⟩ := term
  cases direction <;> simp [termTokens] at h <;> simp [h]

/-- The words of an order are the directions. -/
theorem word_of_mem_terms {order : List SortTerm} {word : String}
    (h : Token.word word ∈ [Token.symbol ','].intercalate (order.map termTokens)) :
    word ∈ ["asc", "desc", "random"] := by
  rcases mem_intercalate_singleton h with h | ⟨ts, hts, h⟩
  · simp at h
  · obtain ⟨term, -, rfl⟩ := List.mem_map.1 hts
    exact word_of_mem_termTokens h

theorem comma_not_mem_termTokens (term : SortTerm) : Token.symbol ',' ∉ termTokens term := by
  obtain ⟨column, direction⟩ := term
  cases direction <;> simp [termTokens]

/-- Limit and offset are read back from their tokens. -/
theorem readLimit?_limitTokens (limit offset : Nat) :
    readLimit? (limitTokens (some (limit, offset))) = some (limit, offset) := by
  by_cases h : offset = 0
  · subst h
    rfl
  · simp [limitTokens, h, readLimit?]

/-- The words at the end of a statement are these two. -/
theorem word_of_mem_limitTokens {limit : Option (Nat × Nat)} {word : String}
    (h : Token.word word ∈ limitTokens limit) : word ∈ ["limit", "offset"] := by
  cases limit with
  | none => simp [limitTokens] at h
  | some limit =>
    rw [limitTokens] at h
    split at h
    · obtain rfl : word = "limit" := by simpa using h
      decide
    · simpa using h

/-- The clause is read behind the keyword `order`. -/
theorem readClause?_tokens {order : List SortTerm} (horder : order ≠ []) (limit offset : Nat) :
    readClause? (.word "by" :: [.symbol ','].intercalate (order.map termTokens) ++
        limitTokens (some (limit, offset))) =
      some ⟨order.map SortTerm.shown, limit, offset⟩ := by
  -- the terms end where the limit starts
  have hterms : ∀ t ∈ [Token.symbol ','].intercalate (order.map termTokens),
      isBeforeLimit t := by
    intro t ht
    by_contra hlimit
    obtain rfl : t = .word "limit" := by simpa [isBeforeLimit] using hlimit
    exact absurd (word_of_mem_terms ht) (by decide)
  have htake : (limitTokens (some (limit, offset))).takeWhile isBeforeLimit = [] := rfl
  have hdrop : (limitTokens (some (limit, offset))).dropWhile isBeforeLimit =
      limitTokens (some (limit, offset)) := rfl
  -- no term has a comma in it
  have hsplit : ([Token.symbol ','].intercalate (order.map termTokens)).splitOn (.symbol ',') =
      order.map termTokens := by
    refine List.splitOn_intercalate _ ?_ (by simpa using horder)
    intro ts hts
    obtain ⟨term, -, rfl⟩ := List.mem_map.1 hts
    exact comma_not_mem_termTokens term
  rw [List.cons_append, readClause?, List.takeWhile_append_of_pos hterms,
    List.dropWhile_append_of_pos hterms, htake, hdrop, List.append_nil, hsplit, mapM_readTerm?,
    readLimit?_limitTokens]
  rfl

/-- **What is read is what was written**: the order, the limit and the offset. -/
theorem pageClause?_render {s : SelectStatement} (htokens : s.render.tokens? = some s.tokens)
    (horder : s.order ≠ []) {limit offset : Nat} (hlimit : s.limit = some (limit, offset)) :
    s.render.pageClause? = some ⟨s.order.map SortTerm.shown, limit, offset⟩ := by
  have htext : s.tokens = s.select.tokens ++ .word "order" ::
      (.word "by" :: [.symbol ','].intercalate (s.order.map termTokens) ++
        limitTokens (some (limit, offset))) := by
    rw [tokens, orderTokens, if_neg (by simpa using horder), hlimit]
    simp
  -- the words behind `order` are directions and those of the limit
  have hlast : Token.word "order" ∉ .word "by" ::
      [Token.symbol ','].intercalate (s.order.map termTokens) ++
        limitTokens (some (limit, offset)) := by
    intro h
    rw [List.cons_append, List.mem_cons, List.mem_append] at h
    rcases h with h | h | h
    · exact absurd h (by decide)
    · exact absurd (word_of_mem_terms h) (by decide)
    · exact absurd (word_of_mem_limitTokens h) (by decide)
  unfold Statement.pageClause?
  rw [htokens, Option.bind_eq_bind, Option.bind_some, htext, afterLast?_append _ hlast,
    Option.bind_some, readClause?_tokens horder]

end SelectStatement

end Sql

end LinkQuery
