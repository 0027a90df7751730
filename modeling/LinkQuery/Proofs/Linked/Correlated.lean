import LinkQuery.Proofs.Linked.Delivery
import LinkQuery.Proofs.Sql.Block

/-!
# Rows that correlations refer to

The query of a linked row compares a column of its table with a column of the row around it, and it
names that row. The name is in danger of being hidden: the inner table may be the same table, or
another one of the same name as the alias around it, and the queries that are written around a
linked row bring in names of their own. A linked table is therefore given an alias where it has the
name that is visible around it, which is the name of the link or that name with a suffix. So two
names next to each other are never the same (`Outline.asName_ne`), and the names `obj` and `tmp` do
not come in between, for a query that is read does not see the row that is read from it.

* `Select.StandsAt` says what a select is like that belongs to an outline: each of its levels is
  correlated with the level right around it. `SelectStatement.standsAt_of_build` says that the
  select of a statement is of this kind.
* `Block.IsPart` is what that means for the queries of the select, and it is passed on from each
  query to the queries inside (`Block.IsPart.value`, `Block.IsPart.source`).
* `SelectStatement.correlations_refer`: in every query inside a statement, the correlation refers to
  the row of the level that the link starts from.
-/

namespace LinkQuery

open Sql

/-- A table that is found is found by its own name. -/
theorem Schema.table?_name {schema : Schema} {name : String} {table : Table}
    (h : schema.table? name = some table) : schema.table? table.name = some table := by
  rw [Schema.name_of_table? h]
  exact h

/-! ### Levels around levels -/

/-- Where the select of a link stands: inside the select of `table`, whose row goes by the name
`visible`, as the value of `link`. -/
structure LinkPlace where
  table : Table
  visible : String
  link : String

/-- A select whose levels are correlated with the levels around them. The select itself stands at
the given place, or it is the outermost one. -/
inductive Sql.Select.StandsAt (schema : Schema) : Option LinkPlace → Select → Prop
  | outermost {table : Table} {columns : List OutputColumn}
      {links : List (String × Bool × Select)} {condition : Option Condition}
      (htable : schema.table? table.name = some table)
      (hlinks : ∀ name demanded inner, (name, demanded, inner) ∈ links →
        StandsAt schema (some ⟨table, table.name, name⟩) inner) :
      StandsAt schema none (.level columns links table.name none none condition)
  | linked {place : LinkPlace} {link : Link} {target : Table} {asName : Option String}
      {columns : List OutputColumn} {links : List (String × Bool × Select)}
      {condition : Option Condition}
      (hlink : place.table.link? place.link = some link)
      (htarget : schema.table? link.targetTable = some target)
      (hname : asName.getD target.name ≠ place.visible)
      (hlinks : ∀ name demanded inner, (name, demanded, inner) ∈ links →
        StandsAt schema (some ⟨target, asName.getD target.name, name⟩) inner) :
      StandsAt schema (some place) (.level columns links target.name asName
        (some ⟨link.targetColumn, place.visible, link.localColumn⟩) condition)
  | whereLinked {place? : Option LinkPlace} {inner : Select} {name : String}
      (hinner : StandsAt schema place? inner) : StandsAt schema place? (.whereLinked inner name)

namespace Outline

variable {schema : Schema}

theorem standsAt_enclose {place? : Option LinkPlace} {s : Select} (h : s.StandsAt schema place?)
    (demanded : List String) : (enclose s demanded).StandsAt schema place? := by
  induction demanded generalizing s with
  | nil => exact h
  | cons name rest ih =>
    rw [enclose_cons]
    exact ih h.whereLinked

mutual

/-- The select of a link stands where the link starts. -/
theorem standsAt_select {place : LinkPlace} {link : Link} {target : Table}
    (hlink : place.table.link? place.link = some link)
    (htarget : schema.table? link.targetTable = some target) {extra : List String}
    {outline : Outline} {s : Select}
    (hs : outline.select schema target (some ⟨link.targetColumn, place.visible, link.localColumn⟩)
      (if target.name = place.visible then some (selfLinkAlias place.link place.visible) else none)
      extra = .ok s) :
    s.StandsAt schema (some place) := by
  match outline with
  | ⟨columns, condition, links, demanded⟩ =>
    -- a level, or the level wrapped for the links demanded behind it
    obtain ⟨inner, hinner, rfl⟩ := exists_of_select hs
    refine standsAt_enclose ?_ demanded
    exact .linked hlink htarget (asName_ne place.link place.visible target)
      (standsAt_selectLinks hinner)

theorem standsAt_selectLinks {table : Table} {visible : String}
    {links : List (String × Bool × Outline)} {selects : List (String × Bool × Select)}
    (hs : selectLinks schema table visible links = .ok selects) :
    ∀ name demanded inner, (name, demanded, inner) ∈ selects →
      inner.StandsAt schema (some ⟨table, visible, name⟩) := by
  match links with
  | [] =>
    obtain rfl := Except.ok.inj hs
    exact fun name demanded inner hmem => absurd hmem List.not_mem_nil
  | (name, demanded, outline) :: rest =>
    obtain ⟨link, target, first, others, hlink, htarget, hfirst, hothers, rfl⟩ :=
      exists_of_selectLinks_cons hs
    intro name' demanded' inner hmem
    -- the subquery is the first or one of the others
    rcases List.mem_cons.1 hmem with heq | hrest
    · cases heq
      have hplace : (⟨table, visible, name⟩ : LinkPlace).table.link? name = some link := hlink
      exact standsAt_select hplace htarget hfirst
    · exact standsAt_selectLinks hothers name' demanded' inner hrest

end

end Outline

/-- The select of a statement is correlated level by level. -/
theorem Sql.SelectStatement.standsAt_of_build {schema : Schema} {tableName : String}
    {selection : Selection} {r : Restriction} {order : List SortTerm} {limit : Option (Nat × Nat)}
    {s : SelectStatement} (h : build schema tableName selection r order limit = .ok s) :
    s.select.StandsAt schema none := by
  obtain ⟨table, htable, hselect, -, -⟩ := exists_of_build h
  obtain ⟨inner, hinner, heq⟩ := Outline.exists_of_select hselect
  have hfound := Schema.table?_name (Schema.requireTable_eq_ok_iff.1 htable)
  rw [heq]
  exact Outline.standsAt_enclose (.outermost hfound (Outline.standsAt_selectLinks hinner)) _

/-! ### Queries around queries -/

namespace Sql.Block

/-- The rows that are seen from a select at a place, whose table is read by the query `core`: those
of the level at that place come first. -/
inductive Surrounds (schema : Schema) : Option LinkPlace → List Block → Block → Prop
  | outermost (core : Block) : Surrounds schema none [] core
  | link {place : LinkPlace} {enclosing value core : Block} {rest : List Block}
      (hparent : schema.table? place.table.name = some place.table)
      (htable : enclosing.table? = some place.table.name) (hname : enclosing.name = place.visible)
      (hvalue : (place.link, value) ∈ enclosing.values) (hcore : value.core = core) :
      Surrounds schema (some place) (enclosing :: rest) core

/-- A query inside a statement, with the queries whose rows it sees: a select at its place, or what
makes a value of such a select. -/
inductive IsPart (schema : Schema) : List Block → Block → Prop
  | select {place? : Option LinkPlace} {s : Select} {around : List Block}
      (hs : s.StandsAt schema place?) (haround : Surrounds schema place? around s.block.core) :
      IsPart schema around s.block
  | toValue {place? : Option LinkPlace} {s : Select} {around : List Block} (demanded : Bool)
      (hs : s.StandsAt schema place?) (haround : Surrounds schema place? around s.block.core) :
      IsPart schema around (s.block.toValue demanded)

variable {schema : Schema} {around : List Block} {b inner : Block}

/-- The value of a link is made of the select of the link. -/
theorem IsPart.of_mem_linkBlocks {table : Table} (htable : schema.table? table.name = some table)
    {links : List (String × Bool × Select)} (hvalues : b.values = Select.linkBlocks links)
    (hb : b.table? = some table.name)
    (hlinks : ∀ name demanded inner, (name, demanded, inner) ∈ links →
      inner.StandsAt schema (some ⟨table, b.name, name⟩))
    {name : String} (hinner : (name, inner) ∈ b.values) : IsPart schema (b :: around) inner := by
  -- each value of the block is the subquery of a link
  have hmem : (name, inner) ∈ Select.linkBlocks links := hvalues ▸ hinner
  obtain ⟨demanded, s, hs, rfl⟩ := Select.mem_linkBlocks_iff.1 hmem
  have haround : Surrounds schema (some ⟨table, b.name, name⟩) (b :: around)
      s.block.core := .link htable hb rfl hinner rfl
  exact .toValue demanded (hlinks name demanded s hs) haround

/-- **A query that stands for a value** is the one of a link of the level around it. -/
theorem IsPart.value (h : IsPart schema around b) {name : String}
    (hinner : (name, inner) ∈ b.values) :
    IsPart schema (b :: around) inner := by
  cases h with
  -- the select of a level, where the links stand, or the one wrapped around it
  | select hs haround =>
    cases hs with
    | outermost htable hlinks => exact .of_mem_linkBlocks htable rfl rfl hlinks hinner
    | linked hlink htarget hname hlinks =>
      exact .of_mem_linkBlocks (Schema.table?_name htarget) rfl rfl hlinks hinner
    | whereLinked hs => exact absurd hinner List.not_mem_nil
  | toValue demanded hs haround => exact absurd hinner List.not_mem_nil

/-- **A query that is read** stands at the same place, for no row is added to those seen. -/
theorem IsPart.source (h : IsPart schema around b) (hinner : b.source? = some inner) :
    IsPart schema around inner := by
  cases h with
  | select hs haround =>
    cases hs with
    | outermost htable hlinks => exact absurd hinner nofun
    | linked hlink htarget hname hlinks => exact absurd hinner nofun
    | whereLinked hs =>
      obtain rfl := Option.some.inj hinner
      exact .select hs haround
  -- what turns a row into a value reads from the select inside it
  | toValue demanded hs haround =>
    obtain rfl := Option.some.inj hinner
    exact .select hs haround

theorem isPart_of_inside {s : Select} (hs : s.StandsAt schema none) (h : s.block.Inside around b) :
    IsPart schema around b := by
  induction h with
  | top => exact .select hs (.outermost _)
  | value h hinner ih => exact ih.value hinner
  | source h hinner ih => exact ih.source hinner

/-! ### What references refer to -/

/-- `b` reads the table that a link of the table of `enclosing` leads to, and delivers the value of
that link there. Its rows are those correlated by the columns of the link. -/
def IsLinkOf (schema : Schema) (b enclosing : Block) (link : Link) : Prop :=
  ∃ parent target name value,
    (schema.table? parent.name = some parent ∧ enclosing.table? = some parent.name) ∧
    parent.link? name = some link ∧
    (schema.table? link.targetTable = some target ∧ b.table? = some target.name) ∧
    ((name, value) ∈ enclosing.values ∧ value.core = b) ∧
    .equal link.targetColumn ⟨enclosing.name, link.localColumn⟩ ∈ b.clauses

theorem filterMap_reference?_append (correlation : Option Correlation)
    (condition : Option Condition) :
    (correlation.toList.map Correlation.clause ++ condition.toList.map Clause.condition).filterMap
        Clause.reference? =
      correlation.toList.map fun c => ⟨c.parent, c.localColumn⟩ := by
  cases correlation <;> cases condition <;> rfl

/-- A query of a table is the outermost one, or it is that of a link of the level right around it.
-/
theorem IsPart.of_table (h : IsPart schema around b) (htable : b.table?.isSome) :
    (around = [] ∧ b.references = []) ∨
      ∃ enclosing rest link, around = enclosing :: rest ∧ b.IsLinkOf schema enclosing link ∧
        b.name ≠ enclosing.name ∧ b.references = [⟨enclosing.name, link.localColumn⟩] := by
  cases h with
  | toValue demanded hs haround => exact absurd htable Bool.false_ne_true
  | select hs haround =>
    cases hs with
    | whereLinked hs => exact absurd htable Bool.false_ne_true
    | outermost hfound hlinks =>
      cases haround with
      | outermost => exact .inl ⟨rfl, filterMap_reference?_append none _⟩
    | @linked place link target asName columns links condition hlink htarget hname hlinks =>
      cases haround with
      -- the level around it provides the row, and its link the column
      | @link _ enclosing value _ rest hparent hencloses hvisible hvalue hcore =>
        refine .inr ⟨enclosing, rest, link, rfl, ?_, ?_, ?_⟩
        · refine ⟨place.table, target, place.link, value, ⟨hparent, hencloses⟩, hlink,
            ⟨htarget, rfl⟩, ⟨hvalue, hcore⟩, ?_⟩
          rw [hvisible]
          exact List.mem_cons_self
        · -- the row around is visible under the name that the alias was chosen to differ from
          rw [hvisible]
          exact hname
        · rw [hvisible]
          exact filterMap_reference?_append (some _) condition

/-- A query of a query is a test, or makes a value, and names only its own row. -/
theorem IsPart.of_source (h : IsPart schema around b) (htable : b.table? = none) {r : Reference}
    (hr : r ∈ b.references) : b.name = r.relation := by
  cases h with
  | toValue demanded hs haround =>
    -- no relation is named there
    cases demanded <;> exact absurd hr List.not_mem_nil
  | select hs haround =>
    cases hs with
    | outermost hfound hlinks => exact absurd htable nofun
    | linked hlink htarget hname hlinks => exact absurd htable nofun
    -- a wrapped select refers to its own alias
    | whereLinked hs =>
      obtain rfl := List.mem_singleton.1 hr
      rfl

end Sql.Block

/-! ### Statements -/

/-- **A correlation refers to the row around it.** A statement is written as queries inside queries.
A query that reads a table is the outermost one, without any correlation, or it is the query of a
link of the level right around it; then it goes by another name than that level, its only reference
is that of its correlation, and by the rule for names that is one to the row of that level. All
other references are to the row of the query that makes them. -/
theorem Sql.SelectStatement.correlations_refer {schema : Schema} {tableName : String}
    {selection : Selection} {r : Restriction} {order : List SortTerm} {limit : Option (Nat × Nat)}
    {s : SelectStatement} (h : build schema tableName selection r order limit = .ok s) :
    s.fragment = s.select.block.fragment ++ orderFragment s.order ++ limitFragment s.limit ∧
    ∀ around b, s.select.block.Inside around b →
      (b.table?.isSome →
        (around = [] ∧ b.references = []) ∨
          ∃ enclosing rest link, around = enclosing :: rest ∧ b.IsLinkOf schema enclosing link ∧
            b.name ≠ enclosing.name ∧ b.references = [⟨enclosing.name, link.localColumn⟩] ∧
            b.referent? around ⟨enclosing.name, link.localColumn⟩ = some 1) ∧
      (b.table? = none → ∀ reference ∈ b.references, b.referent? around reference = some 0) := by
  have hselect := standsAt_of_build h
  refine ⟨?_, fun around b hinside => ⟨fun htable => ?_, fun htable reference hreference => ?_⟩⟩
  · rw [Select.fragment_block]
    rfl
  · -- each block inside is a part of the outline, so its place is known
    have hpart := Block.isPart_of_inside hselect hinside
    rcases hpart.of_table htable with houter | ⟨enclosing, rest, link, rfl, hlink, hname,
      hreferences⟩
    · exact .inl houter
    · exact .inr ⟨enclosing, rest, link, rfl, hlink, hname, hreferences,
        Block.referent?_next hname rfl rest⟩
  · have hpart := Block.isPart_of_inside hselect hinside
    exact Block.referent?_own (hpart.of_source htable hreference) around

/-- Categories with two links to categories, one of them named after the table. -/
def categories : Schema :=
  ⟨[(Table.named "categories").addPrimaryKey "xata_id" "text" |>.addColumn "name" "text"
      |>.addLink "parent" "categories" |>.addLink "categories" "categories"]⟩

/-- The parent of a category and the parent of that, with a test that there is a parent, and the
category behind the other link. Three levels have the same table, and each goes by another name than
the one around it. -/
theorem Sql.SelectStatement.correlations_refer_categories :
    let selection : Selection :=
      ⟨["name"], [("parent", ⟨["name"], [("parent", ⟨["name"], []⟩)]⟩),
        ("categories", ⟨["name"], []⟩)]⟩
    let restriction : Restriction := ⟨none, [("parent", ⟨some (.atom (.isNotNull "name")), []⟩)]⟩
    let sql : String :=
      "select * from (select \"xata_id\", \"name\", " ++
        "(select to_json(obj) from (select \"xata_id\", \"name\", " ++
          "(select to_json(obj) from (select \"xata_id\", \"name\" from \"categories\" " ++
            "where \"xata_id\" = \"parent\".\"parent\") as obj) as \"parent\" " ++
          "from \"categories\" as \"parent\" " ++
          "where \"xata_id\" = \"categories\".\"parent\" and \"name\" is not null) as obj " ++
          "where obj is not null) as \"parent\", " ++
        "(select to_json(obj) from (select \"xata_id\", \"name\" " ++
          "from \"categories\" as \"categories_link\" " ++
          "where \"xata_id\" = \"categories\".\"categories\") as obj) as \"categories\" " ++
        "from \"categories\") as \"tmp\" where \"tmp\".\"parent\" is not null"
    ∃ s, build categories "categories" selection restriction [] none = .ok s ∧ s.render.sql = sql ∧
      ∀ around b, s.select.block.Inside around b → b.table?.isSome →
        (around = [] ∧ b.references = []) ∨
          ∃ enclosing rest link, around = enclosing :: rest ∧
            b.IsLinkOf categories enclosing link ∧ b.name ≠ enclosing.name ∧
            b.references = [⟨enclosing.name, link.localColumn⟩] ∧
            b.referent? around ⟨enclosing.name, link.localColumn⟩ = some 1 := by
  intro selection restriction sql
  have hfault : fault? (build categories "categories" selection restriction [] none) = none := by
    decide +kernel
  obtain ⟨s, hs⟩ := fault?_eq_none_iff.1 hfault
  have hsql : (build categories "categories" selection restriction [] none).toOption.map
      (·.render.sql) = some sql := by
    decide +kernel
  -- the text is the one computed, and each of its blocks is covered by the theorem
  rw [hs] at hsql
  refine ⟨s, hs, Option.some.inj hsql, fun around b hinside htable => ?_⟩
  exact ((correlations_refer hs).2 around b hinside).1 htable

end LinkQuery
