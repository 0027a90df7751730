import LinkQuery.Proofs.Sql.Reading

/-!
# What a select delivers

A select is answered from the rows of a database. The answer follows the statement as it is written,
by the rules of the database for null, for names and for values that are rows:

* a condition holds of a row only if its value is true, not if it is unknown;
* a name with a relation in front of it refers to the innermost relation of that name, and a name
  alone to a column before it refers to a relation;
* a select in place of a value delivers null if it has no row, and fails if it has several;
* a row in place of a value is not null only if none of its fields is.

Null is `none`. A database is assumed to have the columns that a statement names, so a column
without a relation in front of it is one of the innermost table.

* `Database` is a database: rows of tables, equality of values, and the values of tests on rows.
* `Select.answer?` are the records that a select delivers. It fails where a value would have to be
  several.
* `Select.isClear` says that every name that the database looks up is there once. Otherwise it
  refuses the statement, whatever the rows: `Select.result?` is the outcome of both.
* `Select.Avoids` says that no column has a given name.
-/

namespace LinkQuery.Sql

open Json (Value)

/-! ### Rows and databases -/

/-- The value of a column; nothing stands for null. -/
abbrev Cell := Option Value

/-- A row of a table. -/
abbrev TableRow := String → Cell

/-- A row that a select delivers: its cells in order, under their names. -/
abbrev Record := List (String × Cell)

namespace Record

/-- The cell of a name; the first one, should there be several. -/
def cell (record : Record) (name : String) : Cell := (record.lookup name).join

/-- Whether no cell is null. -/
def isFull (record : Record) : Bool := record.all fun (_, cell) => cell.isSome

/-- A record as a value in the format of JSON, in which null can be written. -/
def toJson (record : Record) : Value :=
  .object (record.map fun (name, cell) => (name, cell.getD .null))

end Record

/-- A database. -/
structure Database where
  /-- The columns of each table, in order. -/
  columns : String → List String
  /-- The rows of each table. -/
  rows : String → List TableRow
  /-- Whether two values are equal. -/
  same : Value → Value → Bool
  same_symm : ∀ {a b}, same a b → same b a
  same_trans : ∀ {a b c}, same a b → same b c → same a c
  /-- The value of a test on a row of a table. -/
  test : String → TableRow → Test → Truth

/-- Whether two cells are equal, which is unknown if one of them is null. -/
def Database.equal (db : Database) : Cell → Cell → Truth
  | some a, some b => if db.same a b then .yes else .no
  | _, _ => .unknown

/-- A relation that can be referred to, with the row at hand. -/
structure Scope where
  name : String
  columns : List String
  row : TableRow

/-- The value of a test on a row of a table. An equation with a column of a named relation is one of
cells; the scopes are the innermost first. -/
def Database.eval (db : Database) (table : String) (scopes : List Scope) (row : TableRow) :
    Test → Truth
  | .compare (.column column) .eq (.columnOf relation name) =>
    match scopes.find? (·.name = relation) with
    | some scope => db.equal (row column) (scope.row name)
    | none => .unknown
  | test => db.test table row test

/-! ### The value of a linked row -/

/-- The name that the subquery of a linked row has. -/
def objName : String := "obj"

/-- What `obj` stands for behind `from (…) as obj`: a column of that name, of the subquery or else
of a relation further out, and the whole row only if there is none. -/
def objMeaning (scopes : List Scope) (record : Record) : Cell ⊕ Record :=
  match record.lookup objName with
  | some cell => .inl cell
  | none =>
    match scopes.find? (·.columns.contains objName) with
    | some scope => .inl (scope.row objName)
    | none => .inr record

/-- The test `obj is not null`. Of a row it is true if every field is there. -/
def objIsNotNull : Cell ⊕ Record → Bool
  | .inl cell => cell.isSome
  | .inr record => record.isFull

/-- The value `to_json(obj)`. -/
def objToJson : Cell ⊕ Record → Cell
  | .inl cell => cell
  | .inr record => some record.toJson

/-- The value of a select in place of a value. -/
def scalar? : List Cell → Option Cell
  | [] => some none
  | [cell] => some cell
  | _ => none

/-! ### The answer of a select -/

/-- The names under which a column of a table is delivered. -/
def OutputColumn.names (db : Database) (table : String) : OutputColumn → List String
  | star => db.columns table
  | column name => [name]

/-- The cells that a column of a row delivers. -/
def OutputColumn.cells (db : Database) (table : String) (row : TableRow) (c : OutputColumn) :
    Record :=
  (c.names db table).map fun name => (name, row name)

/-- The cells of a column have its names. -/
theorem OutputColumn.map_fst_cells (db : Database) (table : String) (row : TableRow)
    (c : OutputColumn) :
    (c.cells db table row).map (·.1) = c.names db table := by
  rw [cells, List.map_map]
  exact List.map_id _

namespace Select

mutual

/-- The records that a select delivers, inside the given relations. -/
def answer? (db : Database) (scopes : List Scope) : Select → Option (List Record)
  | level columns links table asName correlation condition =>
    let inside row := ⟨asName.getD table, db.columns table, row⟩ :: scopes
    let rows := (db.rows table).filter fun row =>
      whereTruth (db.eval table (inside row) row) correlation condition = .yes
    rows.mapM fun row => do
      let linked ← linkCells? db (inside row) links
      some (columns.flatMap (·.cells db table row) ++ linked)
  | whereLinked inner link =>
    (answer? db scopes inner).map fun records =>
      records.filter fun record => (record.cell link).isSome

/-- The cells of the linked rows of a level, whose row is the innermost of the scopes. -/
def linkCells? (db : Database) (scopes : List Scope) :
    List (String × Bool × Select) → Option Record
  | [] => some []
  | (name, demanded, inner) :: rest => do
    let objs := (← answer? db scopes inner).map (objMeaning scopes)
    -- the guard `where obj is not null` is written only if the row has to be there
    let cell ← scalar? ((objs.filter fun obj => !demanded || objIsNotNull obj).map objToJson)
    some ((name, cell) :: (← linkCells? db scopes rest))

end

/-! ### Names -/

/-- The names under which a select delivers its cells. -/
def outputs (db : Database) : Select → List String
  | level columns links table _ _ _ => columns.flatMap (·.names db table) ++ links.map (·.1)
  | whereLinked inner _ => inner.outputs db

mutual

/-- Whether every name that is looked up in the cells of a select is there once. -/
def isClear (db : Database) : Select → Bool
  | level _ links _ _ _ _ => areClear db links
  | whereLinked inner link => isClear db inner && (inner.outputs db).count link == 1

/-- The same of the selects of linked rows. -/
def areClear (db : Database) : List (String × Bool × Select) → Bool
  | [] => true
  | (_, _, inner) :: rest => isClear db inner && areClear db rest

end

/-- What the database answers to a select: the records, unless it refuses the select or fails. -/
def result? (db : Database) (s : Select) : Option (List Record) :=
  if s.isClear db then s.answer? db [] else none

mutual

/-- No column has the given name, neither in a table that is read nor among what is delivered. -/
def Avoids (db : Database) (name : String) : Select → Prop
  | level columns links table _ _ _ =>
    name ∉ db.columns table ∧ name ∉ columns.flatMap (·.names db table) ∧
      AvoidsLinks db name links
  | whereLinked inner _ => Avoids db name inner

/-- The same of the selects of linked rows, and of the names of the links. -/
def AvoidsLinks (db : Database) (name : String) : List (String × Bool × Select) → Prop
  | [] => True
  | (link, _, inner) :: rest => name ≠ link ∧ Avoids db name inner ∧ AvoidsLinks db name rest

end

theorem AvoidsLinks.not_mem_names {db : Database} {name : String}
    {links : List (String × Bool × Select)} (h : AvoidsLinks db name links) :
    name ∉ links.map (·.1) := by
  induction links with
  | nil => simp
  | cons link rest ih =>
    obtain ⟨hlink, -, hrest⟩ := h
    rw [List.map_cons, List.mem_cons, not_or]
    exact ⟨hlink, ih hrest⟩

/-- What is avoided is not delivered. -/
theorem Avoids.not_mem_outputs {db : Database} {name : String} {s : Select}
    (h : s.Avoids db name) : name ∉ s.outputs db := by
  match s with
  | level columns links table _ _ _ =>
    obtain ⟨-, hcolumns, hlinks⟩ := h
    rw [outputs, List.mem_append, not_or]
    exact ⟨hcolumns, hlinks.not_mem_names⟩
  | whereLinked inner _ =>
    rw [outputs]
    exact Avoids.not_mem_outputs (s := inner) h

end Select

/-! ### Values of tests inside relations -/

/-- A condition on a column is not an equation with a column of a named relation. -/
theorem Database.eval_test (db : Database) (table : String) (scopes : List Scope) (row : TableRow)
    (a : Atom) : db.eval table scopes row a.test = db.test table row a.test := by
  match a with
  | .compare column true op value none => rfl
  | .compare column false op value none => cases op <;> rfl
  | .compare column true op value (some typeName) => rfl
  | .compare column false op value (some typeName) => cases op <;> rfl
  | .like column asText pattern => rfl
  | .isNull column => rfl
  | .isNotNull column => rfl

/-- A correlation compares with the row of the relation around the innermost one, unless that has
the same name. -/
theorem Database.eval_correlation (db : Database) {table : String} {inner outer : Scope}
    {scopes : List Scope} (row : TableRow) {c : Correlation} (hinner : inner.name ≠ c.parent)
    (houter : outer.name = c.parent) :
    db.eval table (inner :: outer :: scopes) row c.test =
      db.equal (row c.target) (outer.row c.localColumn) := by
  -- the lookup passes over the innermost relation
  have hfind : (inner :: outer :: scopes).find? (·.name = c.parent) = some outer := by
    rw [List.find?_cons_of_neg (by simpa using hinner),
      List.find?_cons_of_pos (by simpa using houter)]
  unfold Correlation.test eval
  dsimp only
  rw [hfind]

namespace Condition

variable {u v : Test → Truth}

mutual

/-- The truth of a condition depends on its tests only. -/
theorem truth_congr (h : ∀ a : Atom, u a.test = v a.test) (c : Condition) :
    c.truth u = c.truth v := by
  match c with
  | atom a => exact h a
  | group negated joiner members =>
    rw [truth, truth, truths_congr h members]

theorem truths_congr (h : ∀ a : Atom, u a.test = v a.test) (cs : List Condition) :
    truths u cs = truths v cs := by
  match cs with
  | [] => rfl
  | c :: rest => rw [truths, truths, truth_congr h c, truths_congr h rest]

end

end Condition

/-- All conditions of a level hold if each of them does. -/
theorem Select.whereTruth_eq_yes_iff {u : Test → Truth} {correlation : Option Correlation}
    {condition : Option Condition} :
    whereTruth u correlation condition = .yes ↔
      (∀ c ∈ correlation, u c.test = .yes) ∧ ∀ c ∈ condition, c.truth u = .yes := by
  rw [whereTruth, Truth.conj_eq_yes_iff, List.forall_mem_append]
  simp

/-! ### The value of a linked row, if no column is called `obj` -/

/-- Without such a column anywhere, the name means the row. -/
theorem objMeaning_eq_inr {scopes : List Scope} {record : Record}
    (hrecord : objName ∉ record.map (·.1)) (hscopes : ∀ scope ∈ scopes, objName ∉ scope.columns) :
    objMeaning scopes record = .inr record := by
  -- neither the subquery has a column of that name nor any relation further out
  have hlookup : record.lookup objName = none := by
    rw [List.lookup_eq_none_iff]
    intro p hp
    refine bne_iff_ne.2 fun hname => ?_
    exact hrecord (List.mem_map.2 ⟨p, hp, hname.symm⟩)
  have hfind : scopes.find? (·.columns.contains objName) = none := by
    rw [List.find?_eq_none]
    intro scope hscope hcontains
    exact hscopes scope hscope (by simpa using hcontains)
  rw [objMeaning, hlookup, hfind]

end LinkQuery.Sql
