import LinkQuery.Proofs.Linked.Filters
import LinkQuery.Proofs.Sql.Casts

/-!
# Names in statements

A statement is a scaffold that is the same for all queries, made of keywords, comparison signs,
punctuation marks and placeholders. Into it go the names of tables, columns and links, each of them
quoted. Here the names are listed along the tree of a statement, in the order in which they are
written, and the text of the statement is shown to hold just these names and the scaffold.

The name of a type in a cast is neither, so there must be no casts. They are only made where a
filter compares a text in order with a column of another type.

* `Select.quotedNames` and `SelectStatement.quotedNames` are the names that a statement is meant to
  mention.
* `Token.Spells` says that tokens are given names in a scaffold; `SelectStatement.spells_tokens`
  that a statement is.
* `Filter.Compares` are the comparisons that a filter makes, at any depth and behind any link. If
  none of them is of a text in order with a column of another type, nothing is cast
  (`Restriction.forall_isUncast_of_ofFilter`).
* `SelectStatement.names_quoted` puts it together with the rule for delimited identifiers.
-/

namespace LinkQuery

open Json (Value)

namespace Sql

/-! ### Names in a scaffold -/

/-- The words of the scaffold, as the reader of tokens gives them. -/
def keywords : List String :=
  ["select", "from", "where", "as", "is", "not", "null", "and", "or", "like", "cast", "text",
    "to_json", "obj", "order", "by", "asc", "desc", "random", "limit", "offset"]

namespace Token

variable {π : Type}

/-- The name that a token is. -/
def name? : Token π → Option String
  | name text => some text
  | _ => none

/-- Whether a token belongs to the scaffold: it is a keyword, a comparison sign, one of the marks
`(`, `)`, `,`, `.` and `*`, or a placeholder. -/
def isScaffold : Token π → Bool
  | name _ => false
  | param _ => true
  | word text => keywords.contains text
  | operator _ => true
  | symbol c => isPunctuation c

/-- The names among tokens, in order. -/
def namesOf (ts : List (Token π)) : List String := ts.filterMap name?

/-- Tokens are the given names, in order, in a scaffold. -/
structure Spells (ts : List (Token π)) (names : List String) : Prop where
  namesOf_eq : namesOf ts = names
  isScaffold_of_mem : ∀ t ∈ ts, t.name? = none → t.isScaffold

namespace Spells

variable {ts us : List (Token π)} {names more : List String}

/-- Scaffold spells no name. -/
theorem ofScaffold (h : ts.all isScaffold) : Spells ts [] := by
  rw [List.all_eq_true] at h
  refine ⟨List.filterMap_eq_nil_iff.2 fun t hmem => ?_, fun t hmem _ => h t hmem⟩
  -- a name is no scaffold
  have hscaffold := h t hmem
  cases t with
  | name text => exact absurd hscaffold Bool.false_ne_true
  | _ => rfl

/-- A name spells itself. -/
theorem ofName (text : String) : Spells [(.name text : Token π)] [text] := ⟨rfl, by simp [name?]⟩

/-- The names of two lists of tokens follow each other. -/
theorem append (ht : Spells ts names) (hu : Spells us more) :
    Spells (ts ++ us) (names ++ more) := by
  refine ⟨?_, fun t hmem => ?_⟩
  · rw [namesOf, List.filterMap_append]
    exact congrArg₂ (· ++ ·) ht.namesOf_eq hu.namesOf_eq
  · rcases List.mem_append.1 hmem with hmem | hmem
    · exact ht.isScaffold_of_mem t hmem
    · exact hu.isScaffold_of_mem t hmem

/-- Tokens with scaffold between them. -/
theorem intercalate {mark : List (Token π)} (hmark : mark.all isScaffold)
    {tss : List (List (Token π))} {namess : List (List String)}
    (h : List.Forall₂ Spells tss namess) : Spells (mark.intercalate tss) namess.flatten := by
  induction h with
  | nil => exact ofScaffold rfl
  | @cons ts names tss namess hts hrest ih =>
    -- a mark stands only where another list follows
    cases hrest with
    | nil => simpa using hts
    | @cons us more tss namess hus hrest =>
      rw [List.intercalate_cons_cons, List.flatten_cons]
      have hfirst := hts.append (ofScaffold hmark)
      rw [List.append_nil] at hfirst
      exact hfirst.append ih

/-- A list with scaffold between its members spells their names in turn. -/
theorem intercalate_map {α : Type} {mark : List (Token π)} (hmark : mark.all isScaffold)
    {tokens : α → List (Token π)} {names : α → List String} (h : ∀ a, Spells (tokens a) (names a))
    (as : List α) : Spells (mark.intercalate (as.map tokens)) (as.flatMap names) := by
  refine intercalate hmark ?_
  induction as with
  | nil => exact .nil
  | cons a rest ih => exact .cons (h a) ih

end Spells

theorem name?_replace {α β : Type} (p : β) (t : Token α) : (t.replace p).name? = t.name? := by
  cases t <;> rfl

theorem isScaffold_replace {α β : Type} (p : β) (t : Token α) :
    (t.replace p).isScaffold = t.isScaffold := by
  cases t <;> rfl

/-- Numbering the parameters leaves the names and the scaffold as they are. -/
theorem Spells.number {ts : List (Token π)} {names : List String} (h : Spells ts names)
    (index : Nat) : Spells (Sql.number index ts) names := by
  induction ts generalizing index names with
  | nil =>
    obtain ⟨rfl, -⟩ := h
    exact .ofScaffold rfl
  | cons t ts ih =>
    obtain ⟨hnames, hscaffold⟩ := h
    obtain ⟨hfirst, hrest⟩ := List.forall_mem_cons.1 hscaffold
    obtain ⟨hrestNames, hrestScaffold⟩ := ih ⟨rfl, hrest⟩ (index + (paramsOf [t]).length)
    refine ⟨?_, List.forall_mem_cons.2 ⟨?_, hrestScaffold⟩⟩
    · rw [← hnames, Sql.number, namesOf, List.filterMap_cons, name?_replace]
      rw [namesOf] at hrestNames
      rw [hrestNames]
      rfl
    · rw [name?_replace, isScaffold_replace]
      exact hfirst

end Token

/-! ### The names of a statement -/

/-- The column that a condition is about. -/
def Atom.column : Atom → String
  | compare column _ _ _ _ => column
  | like column _ _ => column
  | isNull column => column
  | isNotNull column => column

namespace Condition

mutual

/-- The columns of a condition, in the order in which they are written. -/
def quotedNames : Condition → List String
  | atom a => [a.column]
  | group _ _ members => (quotedNamesOfMembers members).flatten

/-- The columns of each condition. -/
def quotedNamesOfMembers : List Condition → List (List String)
  | [] => []
  | c :: rest => quotedNames c :: quotedNamesOfMembers rest

end

end Condition

/-- The names in a column to fetch. -/
def OutputColumn.quotedNames : OutputColumn → List String
  | star => []
  | column name => [name]

/-- The names in a correlation. -/
def Correlation.quotedNames (c : Correlation) : List String := [c.target, c.parent, c.localColumn]

namespace Select

mutual

/-- The names in a select, in the order in which they are written: the columns, the linked rows, the
table and the name it goes by, and the columns of the conditions. A select that tests a link calls
the rows it tests `tmp`. -/
def quotedNames : Select → List String
  | level columns links table asName correlation condition =>
    columns.flatMap OutputColumn.quotedNames ++ quotedNamesOfLinks links ++
      (table :: asName.toList) ++
      (correlation.toList.flatMap Correlation.quotedNames ++
        condition.toList.flatMap Condition.quotedNames)
  | whereLinked inner link => quotedNames inner ++ ["tmp", "tmp", link]

/-- The names in the linked rows of a level, that of the link behind those of its rows. -/
def quotedNamesOfLinks : List (String × Bool × Select) → List String
  | [] => []
  | (name, _, inner) :: rest => quotedNames inner ++ name :: quotedNamesOfLinks rest

end

end Select

/-- The name in a term of the order, unless that is random. -/
def SelectStatement.termNames (term : SortTerm) : List String :=
  if term.isRandom then [] else [term.column]

/-- The names that a statement mentions, in the order in which they are written. -/
def SelectStatement.quotedNames (s : SelectStatement) : List String :=
  s.select.quotedNames ++ s.order.flatMap termNames

/-! ### What statements spell -/

open Token (Spells isScaffold)

/-- Nothing is cast to a type that is given by its name. -/
def Atom.IsUncast : Atom → Prop
  | .compare _ _ _ _ (some _) => False
  | _ => True

/-- A column spells its name, cast to text or not. -/
theorem Atom.spells_columnTokens (column : String) (asText : Bool) :
    Spells (Atom.columnTokens column asText) [column] := by
  unfold columnTokens
  split
  · have hopen : Spells [(.word "cast" : Token Value), .symbol '('] [] := .ofScaffold (by decide)
    have hclose : Spells [(.word "as" : Token Value), .word "text", .symbol ')'] [] :=
      .ofScaffold (by decide)
    exact (hopen.append (.ofName column)).append hclose
  · exact .ofName column

/-- A test without a cast spells its column. -/
theorem Atom.spells_tokens {a : Atom} (h : a.IsUncast) : Spells a.tokens [a.column] := by
  match a with
  | .compare column asText op value none =>
    exact (spells_columnTokens column asText).append (.ofScaffold rfl)
  | .compare column asText op value (some typeName) => exact h.elim
  | .like column asText pattern =>
    exact (spells_columnTokens column asText).append (.ofScaffold rfl)
  | .isNull column => exact (Spells.ofName column).append (.ofScaffold (by decide))
  | .isNotNull column => exact (Spells.ofName column).append (.ofScaffold (by decide))

namespace Condition

mutual

theorem spells_tokens {c : Condition} (h : c.Forall Atom.IsUncast) :
    Spells c.tokens c.quotedNames := by
  match c with
  | atom a => exact Atom.spells_tokens h
  | group negated joiner members =>
    have hopen : Spells ((if negated then [.word "not"] else []) ++ [(.symbol '(' : Token Value)])
        [] := by
      cases negated <;> exact .ofScaffold (by decide)
    have hjoiner : [joiner.token].all isScaffold := by cases joiner <;> decide
    have hclose : Spells [(.symbol ')' : Token Value)] [] := .ofScaffold (by decide)
    rw [tokens, quotedNames]
    -- only the members in the brackets have names
    simpa using (hopen.append (.intercalate hjoiner (spells_members h))).append hclose

/-- The members of a group spell their names one by one. -/
theorem spells_members {cs : List Condition} (h : ForallMembers Atom.IsUncast cs) :
    List.Forall₂ Spells (tokensOfMembers cs) (quotedNamesOfMembers cs) := by
  match cs with
  | [] => exact .nil
  | c :: rest => exact .cons (spells_tokens h.1) (spells_members h.2)

end

end Condition

/-- A column to fetch spells its name, and a star none. -/
theorem OutputColumn.spells_tokens (c : OutputColumn) : Spells c.tokens c.quotedNames := by
  cases c with
  | star => exact .ofScaffold (by decide)
  | column name => exact .ofName name

/-- A correlation spells the table behind the link, the one before it and the column. -/
theorem Correlation.spells_tokens (c : Correlation) : Spells c.tokens c.quotedNames := by
  have heq : Spells [(.operator .eq : Token Value)] [] := .ofScaffold rfl
  have hdot : Spells [(.symbol '.' : Token Value)] [] := .ofScaffold (by decide)
  exact ((((Spells.ofName c.target).append heq).append (.ofName c.parent)).append hdot).append
    (.ofName c.localColumn)

namespace Select

/-- The source spells the table and its alias. -/
theorem spells_fromTokens (table : String) (asName : Option String) :
    Spells (fromTokens table asName) (table :: asName.toList) := by
  have hfrom : Spells [(.word "from" : Token Value)] [] := .ofScaffold (by decide)
  have has : Spells [(.word "as" : Token Value)] [] := .ofScaffold (by decide)
  have htable := hfrom.append (.ofName table)
  unfold fromTokens
  cases asName with
  | none => simpa using htable
  | some asName => exact htable.append (has.append (.ofName asName))

/-- The names of the correlation come before those of the condition. -/
theorem spells_whereTokens (correlation : Option Correlation) {condition : Option Condition}
    (h : ∀ c ∈ condition, c.Forall Atom.IsUncast) :
    Spells (whereTokens correlation condition)
      (correlation.toList.flatMap Correlation.quotedNames ++
        condition.toList.flatMap Condition.quotedNames) := by
  have hand : [(.word "and" : Token Value)].all isScaffold := by decide
  have hwhere : Spells [(.word "where" : Token Value)] [] := .ofScaffold (by decide)
  have hconditions : List.Forall₂ Spells (conditionTokens correlation condition)
      (correlation.toList.map Correlation.quotedNames ++
        condition.toList.map Condition.quotedNames) := by
    unfold conditionTokens
    cases correlation with
    | none =>
      cases condition with
      | none => exact .nil
      | some c => exact .cons (Condition.spells_tokens (h c rfl)) .nil
    | some correlation =>
      cases condition with
      | none => exact .cons correlation.spells_tokens .nil
      | some c =>
        exact .cons correlation.spells_tokens (.cons (Condition.spells_tokens (h c rfl)) .nil)
  rw [List.flatMap_def, List.flatMap_def, ← List.flatten_append]
  -- whether there is a condition at all depends on the lists alone
  unfold whereTokens
  generalize conditionTokens correlation condition = tss at hconditions
  generalize correlation.toList.map Correlation.quotedNames ++
    condition.toList.map Condition.quotedNames = namess at hconditions
  cases hconditions with
  | nil => exact .ofScaffold rfl
  | cons hfirst hrest => exact hwhere.append (.intercalate hand (.cons hfirst hrest))

mutual

theorem spells_tokens {s : Select} (h : s.Forall Atom.IsUncast) :
    Spells s.tokens s.quotedNames := by
  match s with
  | level columns links table asName correlation condition =>
    have hselect : Spells [(.word "select" : Token Value)] [] := .ofScaffold (by decide)
    have hcomma : [(.symbol ',' : Token Value)].all isScaffold := by decide
    have hcolumns := Spells.intercalate_map hcomma OutputColumn.spells_tokens columns
    have hlinks := (hselect.append hcolumns).append (spells_links h.1)
    have hfrom := hlinks.append (spells_fromTokens table asName)
    exact hfrom.append (spells_whereTokens correlation h.2)
  | whereLinked inner link =>
    have hopen : Spells [(.word "select" : Token Value), .symbol '*', .word "from", .symbol '(']
        [] :=
      .ofScaffold (by decide)
    have has : Spells [(.symbol ')' : Token Value), .word "as"] [] := .ofScaffold (by decide)
    have hwhere : Spells [(.word "where" : Token Value)] [] := .ofScaffold (by decide)
    have hdot : Spells [(.symbol '.' : Token Value)] [] := .ofScaffold (by decide)
    have hnull : Spells [(.word "is" : Token Value), .word "not", .word "null"] [] :=
      .ofScaffold (by decide)
    -- the rows that are tested go by a name of their own
    have htmp := ((has.append (.ofName "tmp")).append hwhere).append (.ofName "tmp")
    have htest := ((htmp.append hdot).append (.ofName link)).append hnull
    exact (hopen.append (spells_tokens (s := inner) h)).append htest

/-- Each link spells its name and what its subquery spells. -/
theorem spells_links {links : List (String × Bool × Select)} (h : ForallLinks Atom.IsUncast links) :
    Spells (linkTokens links) (quotedNamesOfLinks links) := by
  match links with
  | [] => exact .ofScaffold rfl
  | (name, demanded, inner) :: rest =>
    have hopen : Spells [(.symbol ',' : Token Value), .symbol '(', .word "select", .word "to_json",
        .symbol '(', .word "obj", .symbol ')', .word "from", .symbol '('] [] :=
      .ofScaffold (by decide)
    have hobj : Spells [(.symbol ')' : Token Value), .word "as", .word "obj"] [] :=
      .ofScaffold (by decide)
    have hguard : Spells (if demanded then
        [(.word "where" : Token Value), .word "obj", .word "is", .word "not", .word "null"] else [])
        [] := by
      cases demanded <;> exact .ofScaffold (by decide)
    have has : Spells [(.symbol ')' : Token Value), .word "as"] [] := .ofScaffold (by decide)
    -- the name of a link is written behind the rows
    have hrow := ((hopen.append (spells_tokens h.1)).append hobj).append hguard
    have hlink := (hrow.append (has.append (.ofName name))).append (spells_links h.2)
    simpa [linkTokens, quotedNamesOfLinks] using hlink

end

end Select

namespace SelectStatement

/-- A term spells its column, unless it is random. -/
theorem spells_termTokens (term : SortTerm) : Spells (termTokens term) (termNames term) := by
  obtain ⟨column, direction⟩ := term
  cases direction with
  | asc => exact (Spells.ofName column).append (.ofScaffold (by decide))
  | desc => exact (Spells.ofName column).append (.ofScaffold (by decide))
  | random =>
    have hrandom : [(.word "random" : Token Value), .symbol '(', .symbol ')'].all isScaffold := by
      decide
    exact .ofScaffold hrandom

/-- The order spells the columns of its terms, except for the random ones. -/
theorem spells_orderTokens (order : List SortTerm) :
    Spells (orderTokens order) (order.flatMap termNames) := by
  have horder : Spells [(.word "order" : Token Value), .word "by"] [] := .ofScaffold (by decide)
  have hcomma : [(.symbol ',' : Token Value)].all isScaffold := by decide
  unfold orderTokens
  cases order with
  | nil => exact .ofScaffold rfl
  | cons term rest => exact horder.append (.intercalate_map hcomma spells_termTokens (term :: rest))

/-- Limit and offset spell nothing. -/
theorem spells_limitTokens (limit : Option (Nat × Nat)) : Spells (limitTokens limit) [] := by
  refine .ofScaffold ?_
  cases limit with
  | none => rfl
  | some limit =>
    obtain ⟨count, offset⟩ := limit
    rw [limitTokens]
    split <;> rfl

/-- **A statement spells its names**, if it has no casts. -/
theorem spells_tokens {s : SelectStatement} (h : s.select.Forall Atom.IsUncast) :
    Spells s.tokens s.quotedNames := by
  have hstatement := ((Select.spells_tokens h).append (spells_orderTokens s.order)).append
    (spells_limitTokens s.limit)
  rwa [List.append_nil] at hstatement

end SelectStatement

end Sql

/-! ### Comparisons of a filter -/

open Sql

/-- A predicate makes a comparison. -/
inductive Predicate.Compares (op : Comparison) (value : Value) : Predicate → Prop where
  | compare : Compares op value (.compare op value)
  | member {combinator : Combinator} {members : List Predicate} {predicate : Predicate}
      (hmem : predicate ∈ members) (h : Compares op value predicate) :
      Compares op value (.group combinator members)

/-- A filter on a table makes a comparison of a column of `target`. A filter on a link is one on the
table that the link leads to under its own name. -/
inductive Filter.Compares (schema : Schema) (target : Table) (column : String) (op : Comparison)
    (value : Value) : Table → Filter → Prop where
  | column {predicate : Predicate} (h : predicate.Compares op value) :
      Compares schema target column op value target (.column column predicate)
  | member {table : Table} {combinator : Combinator} {members : List Filter} {filter : Filter}
      (hmem : filter ∈ members) (h : Compares schema target column op value table filter) :
      Compares schema target column op value table (.group combinator members)
  | link {table next : Table} {name : String} {link key : Link} {filter : Filter}
      (hlink : table.link? name = some link) (hkey : table.link? link.name = some key)
      (hnext : schema.table? key.targetTable = some next)
      (h : Compares schema target column op value next filter) :
      Compares schema target column op value table (.link name filter)

/-- Whether a comparison is of a text, in order, with a column of another type. -/
def Table.ranksOtherType (table : Table) (column : String) (op : Comparison) (value : Value) :
    Bool :=
  !op.isEquality && value.isText && !table.isTextComparable column

/-- A test for presence casts nothing. -/
theorem presenceTest_isUncast (column : String) (expected : Bool) :
    (presenceTest column expected).Forall Atom.IsUncast := by
  cases expected <;> exact trivial

/-- A comparison has a cast only where an ordering is on a column of another type. -/
theorem Table.comparison_isUncast {table : Table} {column : String} {op : Comparison}
    {value : Value} {c : Condition} (h : table.comparison column op value = .ok c)
    (hranks : table.ranksOtherType column op value = false) : c.Forall Atom.IsUncast := by
  unfold comparison at h
  split at h
  · -- null is compared by its presence
    split at h
    · obtain rfl := Except.ok.inj h
      exact presenceTest_isUncast column false
    · obtain rfl := Except.ok.inj h
      exact presenceTest_isUncast column true
    · simp at h
  · split at h
    · obtain rfl := Except.ok.inj h
      exact trivial
    next horder =>
      -- the order casts only texts, and only for columns of other types
      obtain rfl := Except.ok.inj h
      have hnone : table.castType? column value = none := by
        unfold castType?
        have hplain : (!value.isText || table.isTextComparable column) = true := by
          rw [ranksOtherType, Bool.eq_false_iff.2 horder] at hranks
          cases htext : value.isText <;> simp_all
        rw [if_pos hplain]
      rw [hnone]
      exact trivial

/-- The conditions of members are uncast if that of each member is, where the member allows it. -/
theorem isUncast_of_members {α : Type} {allows : α → Prop} {members : List α}
    {results : List (Option Condition)}
    (h : List.Forall₂ (fun member result => allows member →
      ∀ c ∈ result, c.Forall Atom.IsUncast) members results)
    (hallows : ∀ member ∈ members, allows member) :
    ∀ c ∈ results.flatMap Option.toList, c.Forall Atom.IsUncast := by
  intro c hc
  obtain ⟨member, hmember, hforall⟩ := exists_member_of_mem h hc
  exact hforall (hallows member hmember) c rfl

/-- A predicate is compiled without casts when no comparison of it needs one. -/
theorem Predicate.condition_isUncast {table : Table} {column : String} {predicate : Predicate}
    {result : Option Condition} (h : predicate.condition table column = .ok result)
    (hranks : ∀ op value, predicate.Compares op value →
      table.ranksOtherType column op value = false) :
    ∀ c ∈ result, c.Forall Atom.IsUncast := by
  refine condition_induction (motive := fun predicate result =>
    (∀ op value, predicate.Compares op value → table.ranksOtherType column op value = false) →
      ∀ c ∈ result, c.Forall Atom.IsUncast) ?_ ?_ ?_ ?_ h hranks
  · rintro op value c hc hranks _ ⟨⟩
    exact Table.comparison_isUncast hc (hranks op value .compare)
  -- neither a pattern nor a test for presence has a type to name
  · rintro op operand - _ ⟨⟩
    exact trivial
  · rintro expected - _ ⟨⟩
    exact presenceTest_isUncast column expected
  · intro combinator members results result hmembers hcombine hranks
    exact Combinator.forall_of_combine hcombine (isUncast_of_members hmembers
      fun member hmem op value hcompares => hranks op value (.member hmem hcompares))

namespace Filter

variable {schema : Schema} {table : Table}

/-- No comparison of a filter is of a text, in order, with a column of another type. -/
def RanksNoOtherType (schema : Schema) (table : Table) (filter : Filter) : Prop :=
  ∀ target column op value, filter.Compares schema target column op value table →
    target.ranksOtherType column op value = false

/-- The comparisons of a member are comparisons of the combination. -/
theorem RanksNoOtherType.member {combinator : Combinator} {members : List Filter}
    (h : (group combinator members).RanksNoOtherType schema table) :
    ∀ member ∈ members, member.RanksNoOtherType schema table :=
  fun _ hmem target column op value hcompares => h target column op value (.member hmem hcompares)

/-- So is a filter on the table itself. -/
theorem localCondition_isUncast {filter : Filter} {result : Option Condition}
    (h : filter.localCondition table = .ok result) (hranks : filter.RanksNoOtherType schema table) :
    ∀ c ∈ result, c.Forall Atom.IsUncast := by
  refine localCondition_induction (motive := fun filter result =>
    filter.RanksNoOtherType schema table → ∀ c ∈ result, c.Forall Atom.IsUncast) ?_ ?_ ?_ h hranks
  · intro name predicate result hresult hranks
    exact Predicate.condition_isUncast hresult fun op value hcompares =>
      hranks table name op value (.column hcompares)
  · rintro name expected - _ ⟨⟩
    exact presenceTest_isUncast name expected
  · intro combinator members results result hmembers hcombine hranks
    exact Combinator.forall_of_combine hcombine (isUncast_of_members hmembers hranks.member)

/-- So is a filter with links, as what is behind them is compiled elsewhere. -/
theorem condition_isUncast {filter : Filter} {result : Option Condition}
    (h : filter.condition table = .ok result) (hranks : filter.RanksNoOtherType schema table) :
    ∀ c ∈ result, c.Forall Atom.IsUncast := by
  refine condition_induction (motive := fun filter result =>
    filter.RanksNoOtherType schema table → ∀ c ∈ result, c.Forall Atom.IsUncast) ?_ ?_ ?_ h hranks
  · intro filter result _ hlocal hranks
    exact localCondition_isUncast hlocal hranks
  · -- a filter on a link is compiled to nothing
    rintro name behind found _ - _ ⟨⟩
  · intro members results result hmembers hcombine hranks
    exact Combinator.forall_of_combine hcombine (isUncast_of_members hmembers hranks.member)

/-- A filter that is set apart is compared on the table behind its link. -/
theorem RanksNoOtherType.linkFilter {filter : Filter} (h : filter.RanksNoOtherType schema table)
    {name : String} {behind : Filter} (hmem : (name, behind) ∈ filter.linkFilters)
    {link key : Link} {next : Table} (hlink : table.link? name = some link)
    (hkey : table.link? link.name = some key) (hnext : schema.table? key.targetTable = some next) :
    behind.RanksNoOtherType schema next := by
  refine linkFilters_induction (motive := fun filter => filter.RanksNoOtherType schema table →
    behind.RanksNoOtherType schema next) ?_ ?_ hmem h
  · exact fun h target column op value hcompares =>
      h target column op value (.link hlink hkey hnext hcompares)
  · exact fun members member hmember ih h => ih (h.member member hmember)

/-- Putting filters together adds no comparison. -/
theorem RanksNoOtherType.conjunction {filters : List Filter}
    (h : ∀ filter ∈ filters, filter.RanksNoOtherType schema table) :
    (conjunction filters).RanksNoOtherType schema table := by
  unfold Filter.conjunction
  split
  next => exact h _ (List.mem_singleton.2 rfl)
  next =>
    rintro target column op value (_ | ⟨hmem, hcompares⟩ | _)
    exact h _ hmem target column op value hcompares

end Filter

/-- **Nothing is cast** if no text is compared in order with a column of another type. -/
theorem Restriction.forall_isUncast_of_ofFilter {schema : Schema} {tableName : String}
    {table : Table} {filter : Filter} {r : Restriction}
    (htable : schema.requireTable tableName = .ok table)
    (h : ofFilter schema tableName filter = .ok r) (hranks : filter.RanksNoOtherType schema table) :
    r.Forall Atom.IsUncast := by
  refine ofFilter_induction (motive := fun table filter r =>
    filter.RanksNoOtherType schema table → r.Forall Atom.IsUncast) ?_ htable h hranks
  intro table filter own links hown hlinks hranks
  refine ⟨Filter.condition_isUncast hown hranks, forallLinks_iff.2 fun link hlink => ?_⟩
  obtain ⟨group, hgroup, hname, key, target, hkey, htarget, hforall⟩ :=
    exists_group_of_mem hlinks hlink
  -- each filter of the group is set apart by a name of the link
  refine hforall (Filter.RanksNoOtherType.conjunction fun behind hbehind => ?_)
  obtain ⟨name, found, hmem, hfound, hcanonical⟩ := Filter.exists_of_mem_linkGroups hgroup hbehind
  refine hranks.linkFilter hmem hfound ?_ htarget
  rw [hcanonical, ← hname]
  exact hkey

namespace Sql.SelectStatement

/-- **Names stay within their quotes.**

* What the rule for delimited identifiers reads of a quoted name is this name, whatever text stands
  behind it, unless that begins with a quote. For the reader of tokens it is one token.
* The reader of tokens follows the rule on every text that begins with a quote.
* Let a filter be restricted to comparisons that need no cast. Every statement with its restriction
  can be read, whatever the tables, columns, links and constraints are called. The names among its
  tokens are the names that it mentions, in order, and all other tokens belong to the scaffold. -/
theorem names_quoted :
    (∀ name rest, rest.head? ≠ some '"' →
      delimited? ((quote name).toList ++ rest) = some (name, rest) ∧
        lex ((quote name).toList ++ rest) = (lex rest).map (.name name :: ·)) ∧
    (∀ cs, lex ('"' :: cs) = (delimited? ('"' :: cs)).bind fun (name, behind) =>
      (lex behind).map (.name name :: ·)) ∧
    ∀ schema filterTable table filter r, schema.requireTable filterTable = .ok table →
      Restriction.ofFilter schema filterTable filter = .ok r →
      filter.RanksNoOtherType schema table →
      ∀ tableName selection order limit s, build schema tableName selection r order limit = .ok s →
        ∃ ts, lex s.render.sql.toList = some ts ∧ Token.namesOf ts = s.quotedNames ∧
          ∀ t ∈ ts, t.name? = none → t.isScaffold := by
  refine ⟨fun name rest h => ⟨delimited?_quote name h, lex_quote_append name h⟩, lex_delimited, ?_⟩
  intro schema filterTable table filter r htable hr hranks tableName selection order limit s hs
  have huncast : s.select.Forall Atom.IsUncast := by
    obtain ⟨_, -, hselect, -, -⟩ := exists_of_build hs
    exact Outline.forall_select
      (Outline.forall_overlay (Restriction.forall_isUncast_of_ofFilter htable hr hranks)) hselect
  -- the text is made of the tokens of the statement, with their parameters numbered
  have hplain := forall_plainCast_of_build (Restriction.forall_plainCast_of_ofFilter hr) hs
  have hspells := (spells_tokens huncast).number 1
  exact ⟨number 1 s.tokens, (lexes hplain).lex_chars 1, hspells.namesOf_eq,
    hspells.isScaffold_of_mem⟩

/-- A table whose name holds a quote, with a column like a placeholder and a link like two keywords,
to a table whose name is a keyword and whose column would end a statement. -/
def oddlyNamed : Schema :=
  ⟨[(Table.named "a\"b").addPrimaryKey "$1" "text" |>.addLink "select.from" "where",
    (Table.named "where").addPrimaryKey "xata_id" "text" |>.addColumn "\"; --" "text"]⟩

/-- A filter on the link, which compares a text in order with a column of its type. -/
def oddFilter : Filter := .link "select.from" (.column "\"; --" (.compare .gt (.text "'")))

/-- The names are read as they are. -/
theorem names_quoted_oddly_named :
    delimited? "\"a\"\"b\".\"select.from\"".toList =
      some ("a\"b", ".\"select.from\"".toList) ∧
    ∃ r s ts, Restriction.ofFilter oddlyNamed "a\"b" oddFilter = .ok r ∧
      build oddlyNamed "a\"b" .everything r [.desc "$1"] (some (5, 0)) = .ok s ∧
      lex s.render.sql.toList = some ts ∧
      Token.namesOf ts =
        ["$1", "xata_id", "where", "xata_id", "a\"b", "select.from", "\"; --", "select.from",
          "a\"b", "tmp", "tmp", "select.from", "$1"] ∧
      ∀ t ∈ ts, t.name? = none → t.isScaffold := by
  have htable : oddlyNamed.requireTable "a\"b" = .ok oddlyNamed.tables[0] := rfl
  have hfound : oddlyNamed.tables[0].link? "select.from" =
      some ⟨"select.from", "where", "xata_id"⟩ := by
    decide +kernel
  have hranks : oddFilter.RanksNoOtherType oddlyNamed oddlyNamed.tables[0] := by
    intro target column op value hcompares
    rw [oddFilter] at hcompares
    -- the only comparison is behind the link
    cases hcompares with
    | link hlink hkey hnext hcompares =>
      obtain rfl := Option.some.inj (hfound.symm.trans hlink)
      obtain rfl := Option.some.inj (hfound.symm.trans hkey)
      obtain rfl : oddlyNamed.tables[1] = _ := Option.some.inj hnext
      cases hcompares with
      | column hcompares =>
        cases hcompares
        decide +kernel
  have hnames : ((Restriction.ofFilter oddlyNamed "a\"b" oddFilter).toOption.bind fun r =>
      (build oddlyNamed "a\"b" .everything r [.desc "$1"] (some (5, 0))).toOption).map quotedNames =
        some ["$1", "xata_id", "where", "xata_id", "a\"b", "select.from", "\"; --", "select.from",
          "a\"b", "tmp", "tmp", "select.from", "$1"] := by
    decide +kernel
  obtain ⟨s, hs, hquoted⟩ := Option.map_eq_some_iff.1 hnames
  obtain ⟨r, hr, hbuild⟩ := Option.bind_eq_some_iff.1 hs
  rw [toOption_eq_some_iff] at hr hbuild
  obtain ⟨hdelimited, -, hread⟩ := names_quoted
  obtain ⟨ts, hts, hmentioned, hscaffold⟩ :=
    hread oddlyNamed "a\"b" _ oddFilter r htable hr hranks "a\"b" .everything [.desc "$1"]
      (some (5, 0)) s hbuild
  obtain ⟨hname, -⟩ := hdelimited "a\"b" ".\"select.from\"".toList (by decide)
  exact ⟨hname, r, s, ts, hr, hbuild, hts, hmentioned.trans hquoted, hscaffold⟩

end Sql.SelectStatement

end LinkQuery
