import LinkQuery.Proofs.Sql.Fragment
import LinkQuery.Sql.Select

/-!
# Queries inside queries

A statement is made of queries inside queries. Each of them reads one relation, a table or a further
query, whose row goes by a name while the query is answered. Here a select is taken apart into these
queries, those included that are written around every linked row and every test, so that it can be
said which row a name with a column behind it refers to.

* `Block` is a query. `Select.block` is the query that a select amounts to, and
  `Select.fragment_block` says that it is what is written.
* `Block.Inside` says which rows can be seen from a query. One that stands for a value is answered
  anew for each row of the query that it stands in, so it sees that row. One that is read from is
  answered before there is such a row, so it sees what is seen from around.
* `Block.referent?` is the rule for names: a name refers to the innermost row that goes by it.
-/

namespace LinkQuery.Sql

/-! ### Queries -/

/-- A column of the row that goes by a name. -/
structure Reference where
  relation : String
  column : String
  deriving DecidableEq, Repr

/-- The written form of a reference. -/
def Reference.text (r : Reference) : String := quoteColumn r.relation r.column

/-- What a query demands of a row. -/
inductive Clause where
  /-- A condition, which is about columns of the row itself and names no relation. -/
  | condition (condition : Condition)
  | equal (column : String) (reference : Reference)
  | present (reference : Reference)
  /-- The row that goes by a name is there; the name is written without quotes. -/
  | rowPresent (name : String)
  deriving Repr

namespace Clause

/-- The reference that is made in a clause. -/
def reference? : Clause → Option Reference
  | equal _ reference | present reference => some reference
  | condition _ | rowPresent _ => none

/-- The written form of a clause. -/
def fragment : Clause → Fragment
  | condition c => c.fragment
  | equal column reference => .text (quote column ++ " = " ++ reference.text)
  | present reference => .text (reference.text ++ " is not null")
  | rowPresent name => .text (name ++ " is not null")

/-- The written form of all that a query demands. -/
def whereFragment (clauses : List Clause) : Fragment :=
  match clauses.map fragment with
  | [] => .empty
  | written => .text " where " ++ .joined " and " written

end Clause

/-- A query. -/
inductive Block where
  /-- Reads a table, which may go by another name. Besides columns it delivers values, each of them
  the answer of a query. -/
  | ofTable (columns : List String) (values : List (String × Block)) (table : String)
      (asName : Option String) (clauses : List Clause)
  /-- Reads a query under a name, which may be written without quotes. -/
  | ofBlock (columns : String) (source : Block) (name : String) (isQuoted : Bool)
      (clauses : List Clause)

namespace Block

/-- The name that the row goes by. -/
def name : Block → String
  | ofTable _ _ table asName _ => asName.getD table
  | ofBlock _ _ name _ _ => name

/-- The table that is read. -/
def table? : Block → Option String
  | ofTable _ _ table _ _ => some table
  | ofBlock _ _ _ _ _ => none

/-- The query that is read. -/
def source? : Block → Option Block
  | ofTable _ _ _ _ _ => none
  | ofBlock _ source _ _ _ => some source

/-- The queries that stand for values, under the names of the values. -/
def values : Block → List (String × Block)
  | ofTable _ values _ _ _ => values
  | ofBlock _ _ _ _ _ => []

def clauses : Block → List Clause
  | ofTable _ _ _ _ clauses => clauses
  | ofBlock _ _ _ _ clauses => clauses

/-- The references that are made in what is demanded of the row. -/
def references (b : Block) : List Reference := b.clauses.filterMap Clause.reference?

/-- The query of a table that is read in the end. -/
def core : Block → Block
  | ofTable columns values table asName clauses => ofTable columns values table asName clauses
  | ofBlock _ source _ _ _ => source.core

mutual

/-- The written form of a query. -/
def fragment : Block → Fragment
  | ofTable columns values table asName clauses =>
    .text ("select " ++ String.intercalate ", " columns) ++ valueFragments values ++
      .text (Select.fromText table asName) ++ Clause.whereFragment clauses
  | ofBlock columns source name isQuoted clauses =>
    (fragment source).wrapped ("select " ++ columns ++ " from (")
      (") as " ++ if isQuoted then quote name else name) ++ Clause.whereFragment clauses

/-- The written forms of values. -/
def valueFragments : List (String × Block) → Fragment
  | [] => .empty
  | (name, b) :: rest =>
    .text ", " ++ (fragment b).wrapped "(" (") as " ++ quote name) ++ valueFragments rest

end

end Block

/-! ### The queries of a select -/

/-- A correlation, as a clause. -/
def Correlation.clause (c : Correlation) : Clause := .equal c.target ⟨c.parent, c.localColumn⟩

/-- The query around that of a linked row, which makes one value of it. -/
def Block.toValue (demanded : Bool) (inner : Block) : Block :=
  .ofBlock "to_json(obj)" inner "obj" false (if demanded then [.rowPresent "obj"] else [])

namespace Select

mutual

/-- The query that a select amounts to. -/
def block : Select → Block
  | level columns links table asName correlation condition =>
    .ofTable (columns.map OutputColumn.text) (linkBlocks links) table asName
      (correlation.toList.map Correlation.clause ++ condition.toList.map Clause.condition)
  | whereLinked inner link => .ofBlock "*" (block inner) "tmp" true [.present ⟨"tmp", link⟩]

/-- The queries that deliver the linked rows of a level, under the names of the links. -/
def linkBlocks : List (String × Bool × Select) → List (String × Block)
  | [] => []
  | (name, demanded, inner) :: rest => (name, (block inner).toValue demanded) :: linkBlocks rest

end

/-- The values of a block are the subqueries of its links. -/
theorem mem_linkBlocks_iff {links : List (String × Bool × Select)} {name : String} {b : Block} :
    (name, b) ∈ linkBlocks links ↔
      ∃ demanded inner, (name, demanded, inner) ∈ links ∧ b = inner.block.toValue demanded := by
  induction links with
  | nil => simp [linkBlocks]
  | cons link rest ih =>
    obtain ⟨name', demanded', inner'⟩ := link
    rw [linkBlocks, List.mem_cons, ih]
    -- the link itself, or one of those after it
    constructor
    · rintro (heq | ⟨demanded, inner, hmem, rfl⟩)
      · obtain ⟨rfl, rfl⟩ := Prod.mk.inj heq
        exact ⟨demanded', inner', List.mem_cons_self, rfl⟩
      · exact ⟨demanded, inner, List.mem_cons_of_mem _ hmem, rfl⟩
    · rintro ⟨demanded, inner, hmem, rfl⟩
      rcases List.mem_cons.1 hmem with heq | hrest
      · cases heq
        exact .inl rfl
      · exact .inr ⟨demanded, inner, hrest, rfl⟩

/-- The clauses of a block are written like its restriction. -/
theorem whereFragment_block (correlation : Option Correlation) (condition : Option Condition) :
    Clause.whereFragment
        (correlation.toList.map Correlation.clause ++ condition.toList.map Clause.condition) =
      whereFragment correlation condition := by
  cases correlation <;> cases condition <;> rfl

/-- A linked row is written as the query that delivers it. -/
theorem linkFragment_eq (name : String) (demanded : Bool) (inner : Block) :
    linkFragment name demanded inner.fragment =
      .text ", " ++ (inner.toValue demanded).fragment.wrapped "(" (") as " ++ quote name) := by
  unfold linkFragment Block.toValue
  rw [Block.fragment]
  unfold Fragment.wrapped
  -- the demanded and the plain link differ by their condition on the object alone
  cases demanded with
  | false =>
    show _ = Fragment.text ", " ++ (Fragment.text "(" ++ (_ ++ Fragment.empty) ++ _)
    rw [Fragment.append_empty]
    simp only [Fragment.append_assoc, Fragment.text_append_text, Fragment.text_append_text_append]
    rfl
  | true =>
    show _ = Fragment.text ", " ++ (Fragment.text "(" ++
      (_ ++ Fragment.text " where obj is not null") ++ _)
    simp only [Fragment.append_assoc, Fragment.text_append_text, Fragment.text_append_text_append]
    rfl

mutual

/-- **The query of a select is what is written for it.** -/
theorem fragment_block (s : Select) : s.block.fragment = s.fragment := by
  match s with
  -- a level has the parts of its block, with a fragment for each link
  | level columns links table asName correlation condition =>
    rw [block, Block.fragment, fragment, valueFragments_linkBlocks links, whereFragment_block]
  | whereLinked inner link =>
    -- a wrapped statement selects everything from the one inside it
    rw [block, Block.fragment, fragment, fragment_block inner]
    show Fragment.wrapped "select * from (" ") as \"tmp\"" inner.fragment ++
      Fragment.text (" where " ++ (quoteColumn "tmp" link ++ " is not null")) = _
    unfold Fragment.wrapped
    rw [Fragment.append_assoc, Fragment.text_append_text]
    rfl

theorem valueFragments_linkBlocks (links : List (String × Bool × Select)) :
    Block.valueFragments (linkBlocks links) = linkFragments links := by
  match links with
  | [] => rfl
  | (name, demanded, inner) :: rest =>
    rw [linkBlocks, Block.valueFragments, linkFragments, valueFragments_linkBlocks rest,
      ← fragment_block inner, linkFragment_eq]

end

end Select

/-! ### Names in queries -/

namespace Block

/-- `b` is a query inside `top`, and `around` are the queries whose rows are seen from it besides
its own, the innermost first. -/
inductive Inside (top : Block) : List Block → Block → Prop
  | top : Inside top [] top
  /-- A query that stands for a value sees the row that it is a value of. -/
  | value {around : List Block} {b inner : Block} {name : String} (h : Inside top around b)
    (hinner : (name, inner) ∈ b.values) : Inside top (b :: around) inner
  /-- A query that is read does not see the row that is read from it. -/
  | source {around : List Block} {b inner : Block} (h : Inside top around b)
    (hinner : b.source? = some inner) : Inside top around inner

/-- How many rows lie between the row of a query and the row that a reference is to: the innermost
one that goes by the name. -/
def referent? (b : Block) (around : List Block) (r : Reference) : Option Nat :=
  (b :: around).findIdx? fun seen => seen.name = r.relation

/-- A reference to the relation of the block itself goes no further. -/
theorem referent?_own {b : Block} {r : Reference} (h : b.name = r.relation) (around : List Block) :
    b.referent? around r = some 0 := by
  unfold referent?
  rw [List.findIdx?_cons, if_pos (decide_eq_true h)]

/-- A row does not hide the row right around it, unless both go by the same name. -/
theorem referent?_next {b enclosing : Block} {r : Reference} (hne : b.name ≠ enclosing.name)
    (h : enclosing.name = r.relation) (around : List Block) :
    b.referent? (enclosing :: around) r = some 1 := by
  have hb : b.name ≠ r.relation := fun heq => hne (heq.trans h.symm)
  unfold referent?
  rw [List.findIdx?_cons, if_neg (by simpa using hb), List.findIdx?_cons, if_pos (decide_eq_true h)]
  rfl

end Block

end LinkQuery.Sql
