import LinkQuery.Proofs.Page.OpenTable

/-!
# Whether the value of a link is the whole row

The value of a link is written `to_json(obj)`, where `obj` is the name of the subquery that selects
the linked row. A name alone is a column before it is a row. So `obj` is the linked row only if no
column of that name is in sight: none that the subquery delivers, and none of the tables around it.
The name is fixed and does not depend on the names in the schema.

What a subquery delivers is known from what is asked for: the primary key, columns, links. The
tables around it are those through which the links lead, and there every column is in sight, whether
it is delivered or not.

* `Outline.mem_names_iff` tells which names a level delivers.
* `Sql.Select.NestsWithin` are the relations inside which a subquery is answered, one for each level
  around it.
* `Sql.objMeaning_eq_inr_iff` and `Outline.forall_scopes_iff` tell when `obj` is the whole row.
* `Sql.SelectStatement.whole_row_of_build` is about all subqueries of a statement.
-/

namespace LinkQuery

open Sql

/-! ### The names of a level -/

/-- The columns that a requested name stands for, in a database. -/
def Table.columnsOf (db : Database) (table : Table) (requested : String) : List String :=
  if table.isOpen ∧ requested = "*" then db.columns table.name else table.expand requested

namespace Outline

variable {schema : Schema} {db : Database} {table : Table} {outline : Outline}
  {extra links : List String}
  {name requested : String}

/-- A requested name delivers the columns that it stands for, apart from those whose names are left
to links. -/
theorem mem_names_requestedColumns_iff (hname : name ∉ links) :
    (∃ c ∈ requestedColumns table links requested, name ∈ c.names db table.name) ↔
      name ∈ table.columnsOf db requested := by
  by_cases hstar : table.isOpen ∧ requested = "*"
  · -- a star of an open table stands for whatever columns the database has
    rw [Table.columnsOf, if_pos hstar, hstar.2, requestedColumns_star hstar.1]
    simp [OutputColumn.names]
  · -- elsewhere the columns are those asked for that are no link
    have hrequested : requestedColumns table links requested =
        ((table.expand requested).filter fun n => !links.contains n).map .column := by
      by_cases hopen : table.isOpen
      · have hname : requested ≠ "*" := fun heq => hstar ⟨hopen, heq⟩
        rw [requestedColumns_name hname, Table.expand, if_neg hname]
        by_cases hlink : requested ∈ links <;> simp [hlink]
      · exact Table.requestedColumns_eq (Bool.eq_false_iff.2 hopen) links requested
    rw [Table.columnsOf, if_neg hstar, hrequested]
    simp [OutputColumn.names, hname]

/-- **Which names a level delivers**: those of its links, the columns that are asked for, and the
primary key, unless all columns of an open table are asked for. -/
theorem mem_names_iff : name ∈ outline.names db extra table ↔
    (name = table.primaryKey ∧ ¬ (table.isOpen ∧ "*" ∈ outline.columns)) ∨
      (∃ requested ∈ outline.columns ++ extra, name ∈ table.columnsOf db requested) ∨
      name ∈ outline.linkNames := by
  rw [names, List.mem_append, ← or_assoc]
  -- the name of a link is there anyway, so only other names are counted
  by_cases hlink : name ∈ outline.linkNames
  · simp [hlink]
  · refine or_congr_left ?_
    have hkey : (∃ c ∈ (if table.isOpen && outline.columns.contains "*" then []
          else [OutputColumn.column table.primaryKey]), name ∈ c.names db table.name) ↔
        name = table.primaryKey ∧ ¬ (table.isOpen ∧ "*" ∈ outline.columns) := by
      -- the key is left out only beside a star of an open table
      by_cases hall : table.isOpen ∧ "*" ∈ outline.columns
      · simp [hall]
      · simp [hall, OutputColumn.names]
    have hrequested :
        (∃ c ∈ (outline.columns ++ extra).flatMap (requestedColumns table outline.linkNames),
          name ∈ c.names db table.name) ↔
        ∃ requested ∈ outline.columns ++ extra, name ∈ table.columnsOf db requested := by
      simp only [List.mem_flatMap]
      constructor
      · rintro ⟨c, ⟨requested, hrequested, hc⟩, hname⟩
        exact ⟨requested, hrequested, (mem_names_requestedColumns_iff hlink).1 ⟨c, hc, hname⟩⟩
      · rintro ⟨requested, hrequested, hname⟩
        obtain ⟨c, hc, hname⟩ := (mem_names_requestedColumns_iff hlink).2 hname
        exact ⟨c, ⟨requested, hrequested, hc⟩, hname⟩
    rw [List.mem_flatMap, ownColumns, ← hkey, ← hrequested]
    simp only [List.mem_eraseDups, List.mem_append, or_and_right, exists_or]

end Outline

/-! ### Subqueries inside rows -/

namespace Sql.Select

variable {db : Database} {scopes scopes' : List Scope} {s sub : Select} {records : List Record}
  {row : TableRow}

/-- The relation that the links of a select see in front of those around the select, with a row at
hand. -/
def scope (db : Database) (row : TableRow) : Select → Scope
  | level _ _ table asName _ _ => ⟨asName.getD table, db.columns table, row⟩
  | whereLinked inner _ => inner.scope db row

/-- The rows of its table for which a select looks its links up, inside the given relations. -/
def rowsWithin (db : Database) (scopes : List Scope) : Select → List TableRow
  | level _ _ table asName correlation condition =>
    (db.rows table).filter fun row =>
      whereTruth (db.eval table (⟨asName.getD table, db.columns table, row⟩ :: scopes) row)
        correlation
        condition = .yes
  | whereLinked inner _ => inner.rowsWithin db scopes

/-- Answering the select inside `scopes` takes the answer of the subquery `sub`, behind links of the
given names, inside `scopes'`: each link is looked up for a row of the level around it. -/
def NestsWithin (db : Database) : List String → List Scope → Select → List Scope → Select → Prop
  | [], scopes, s, scopes', sub => scopes = scopes' ∧ s = sub
  | name :: names, scopes, s, scopes', sub =>
    ∃ row ∈ s.rowsWithin db scopes, ∃ demanded inner, (name, demanded, inner) ∈ s.subqueries ∧
      NestsWithin db names (s.scope db row :: scopes) inner scopes' sub

theorem columns_scope (s : Select) (row : TableRow) :
    (s.scope db row).columns = db.columns s.tableName := by
  cases s with
  | level => rfl
  | whereLinked inner => exact columns_scope inner row

/-- The cells of links, if there are any, are made of what `obj` stands for at the records of each.
-/
theorem exists_of_linkCells?_cons {name : String} {demanded : Bool} {inner : Select}
    {rest : List (String × Bool × Select)} {cells : Record}
    (h : linkCells? db scopes ((name, demanded, inner) :: rest) = some cells) :
    ∃ records cell others, inner.answer? db scopes = some records ∧
      scalar? (((records.map (objMeaning scopes)).filter fun obj =>
        !demanded || objIsNotNull obj).map
        objToJson) = some cell ∧
      linkCells? db scopes rest = some others ∧ cells = (name, cell) :: others := by
  rw [linkCells?] at h
  obtain ⟨records, hrecords, h⟩ := Option.bind_eq_some_iff.1 h
  obtain ⟨cell, hcell, h⟩ := Option.bind_eq_some_iff.1 h
  obtain ⟨others, hothers, h⟩ := Option.bind_eq_some_iff.1 h
  exact ⟨records, cell, others, hrecords, hcell, hothers, (Option.some.inj h).symm⟩

theorem map_fst_of_linkCells? {links : List (String × Bool × Select)} {cells : Record}
    (h : linkCells? db scopes links = some cells) : cells.map (·.1) = links.map (·.1) := by
  induction links generalizing cells with
  | nil =>
    obtain rfl := Option.some.inj h
    rfl
  | cons link rest ih =>
    obtain ⟨records, cell, others, -, -, hothers, rfl⟩ := exists_of_linkCells?_cons h
    rw [List.map_cons, List.map_cons, ih hothers]

theorem exists_answer_of_linkCells? {links : List (String × Bool × Select)} {cells : Record}
    (h : linkCells? db scopes links = some cells) {name : String} {demanded : Bool} {inner : Select}
    (hmem : (name, demanded, inner) ∈ links) :
    ∃ records, inner.answer? db scopes = some records := by
  induction links generalizing cells with
  | nil => cases hmem
  | cons link rest ih =>
    obtain ⟨records, cell, others, hrecords, -, hothers, -⟩ := exists_of_linkCells?_cons h
    cases hmem with
    | head => exact ⟨records, hrecords⟩
    | tail _ hmem => exact ih hothers hmem

/-- The records of a level are those of the rows that it looks at. -/
theorem forall₂_of_answer?_level {columns : List OutputColumn}
    {links : List (String × Bool × Select)}
    {table : String} {asName : Option String} {correlation : Option Correlation}
    {condition : Option Condition}
    (h : (level columns links table asName correlation condition).answer? db scopes =
      some records) :
    let s := level columns links table asName correlation condition
    List.Forall₂ (fun row record =>
      ∃ cells, linkCells? db (s.scope db row :: scopes) links = some cells ∧
        record = columns.flatMap (·.cells db table row) ++ cells)
      (s.rowsWithin db scopes) records := by
  rw [answer?] at h
  -- each row gives its own cells first and those of its links after them
  refine (mapM_eq_some_iff.1 h).imp fun row record hrecord => ?_
  obtain ⟨cells, hcells, hrecord⟩ := Option.bind_eq_some_iff.1 hrecord
  exact ⟨cells, hcells, (Option.some.inj hrecord).symm⟩

/-- What is looked up for a row of a level belongs to the answer of the level. -/
theorem exists_linkCells?_of_answer? {s : Select} {records : List Record}
    (h : s.answer? db scopes = some records) (hrow : row ∈ s.rowsWithin db scopes) :
    ∃ cells, linkCells? db (s.scope db row :: scopes) s.subqueries = some cells := by
  cases s with
  -- a level answers row by row
  | level =>
    obtain ⟨record, -, cells, hcells, -⟩ :=
      exists_right_of_forall₂ (forall₂_of_answer?_level h) hrow
    exact ⟨cells, hcells⟩
  -- wrapping drops records and changes no row
  | whereLinked inner =>
    obtain ⟨kept, hkept, -⟩ := Option.map_eq_some_iff.1 h
    exact exists_linkCells?_of_answer? (s := inner) hkept hrow

/-- A record has the names of its select. -/
theorem map_fst_of_answer? {s : Select} {records : List Record}
    (h : s.answer? db scopes = some records) {record : Record} (hrecord : record ∈ records) :
    record.map (·.1) = s.outputs db := by
  cases s with
  | level columns _ table =>
    obtain ⟨row, -, cells, hcells, rfl⟩ :=
      exists_left_of_forall₂ (forall₂_of_answer?_level h) hrecord
    rw [List.map_append, map_fst_of_linkCells? hcells, List.map_flatMap, outputs]
    simp only [OutputColumn.map_fst_cells]
  | whereLinked inner =>
    obtain ⟨kept, hkept, rfl⟩ := Option.map_eq_some_iff.1 h
    exact map_fst_of_answer? (s := inner) hkept (List.mem_of_mem_filter hrecord)

/-- An answer takes the answers of all subqueries that it looks up. -/
theorem exists_answer_of_nestsWithin {names : List String}
    (hnests : s.NestsWithin db names scopes scopes' sub)
    (h : s.answer? db scopes = some records) :
    ∃ records', sub.answer? db scopes' = some records' := by
  induction names generalizing scopes s records with
  | nil =>
    obtain ⟨rfl, rfl⟩ := hnests
    exact ⟨records, h⟩
  | cons name names ih =>
    -- an answer has a value for every link of every row, so the query behind it was answered
    obtain ⟨row, hrow, demanded, inner, hmem, hnests⟩ := hnests
    obtain ⟨cells, hcells⟩ := exists_linkCells?_of_answer? h hrow
    obtain ⟨found, hfound⟩ := exists_answer_of_linkCells? hcells hmem
    exact ih hnests hfound

end Sql.Select

/-! ### What `obj` stands for -/

/-- `obj` is the whole row just if the subquery has no column of that name and no relation around it
has one. -/
theorem Sql.objMeaning_eq_inr_iff {scopes : List Scope} {record : Record} :
    objMeaning scopes record = .inr record ↔
      objName ∉ record.map (·.1) ∧ ∀ scope ∈ scopes, objName ∉ scope.columns := by
  refine ⟨fun h => ?_, fun h => objMeaning_eq_inr h.1 h.2⟩
  rw [objMeaning] at h
  split at h
  next => cases h
  -- a record without such a column, and no enclosing row with one
  next hlookup =>
    split at h
    next => cases h
    next hfind =>
      refine ⟨fun hmem => ?_, fun scope hscope hmem => ?_⟩
      · obtain ⟨⟨name, cell⟩, hcell, rfl⟩ := List.mem_map.1 hmem
        simpa using List.lookup_eq_none_iff.1 hlookup _ hcell
      · simpa [hmem] using List.find?_eq_none.1 hfind scope hscope

/-- The relations around a subquery are the tables from which the links to it start. -/
theorem Outline.forall_scopes_iff {schema : Schema} {db : Database} {table : Table}
    {outline : Outline}
    {correlation : Option Correlation} {asName : Option String} {extra : List String}
    {s sub : Select}
    (hs : outline.select schema table correlation asName extra = .ok s) {names : List String}
    {steps : List (Table × Link)} (hsteps : schema.linksAlong? names table = some steps)
    {scopes scopes' : List Scope} (h : s.NestsWithin db names scopes scopes' sub) (name : String) :
    (∀ scope ∈ scopes', name ∉ scope.columns) ↔
      (∀ scope ∈ scopes, name ∉ scope.columns) ∧ ∀ step ∈ steps, name ∉ db.columns step.1.name := by
  induction names generalizing outline table correlation asName extra s steps scopes with
  | nil =>
    obtain ⟨rfl, rfl⟩ := h
    obtain rfl := Option.some.inj hsteps
    simp
  | cons first names ih =>
    obtain ⟨row, -, demanded, inner, hmem, hinner⟩ := h
    obtain ⟨link, next, rest, hlink, hnext, hrest, rfl⟩ := Schema.linksAlong?_cons_iff.1 hsteps
    obtain ⟨⟨n, d, behind⟩, -, hname, link', next', hlink', hnext', -, _, _, hselect⟩ :=
      exists_left_of_forall₂ (forall₂_subqueries hs) hmem
    obtain rfl : first = n := hname
    obtain rfl := Option.some.inj (hlink.symm.trans hlink')
    obtain rfl := Option.some.inj (hnext.symm.trans hnext')
    -- the scope of each level adds the columns of its table
    rw [ih hselect hrest hinner, List.forall_mem_cons, List.forall_mem_cons, Select.columns_scope,
      tableName_select hs]
    exact ⟨fun ⟨⟨h₁, h₂⟩, h₃⟩ => ⟨h₂, h₁, h₃⟩, fun ⟨h₂, h₁, h₃⟩ => ⟨⟨h₁, h₂⟩, h₃⟩⟩

/-! ### Statements -/

namespace Sql.SelectStatement

/-- **When `obj` is the whole linked row.** Let paths and a filter have a statement in some order.
Behind the links that lead to a subquery of it, with the tables from which they start,

* the subquery has a column `obj` just if the primary key of its table has that name, or a column
  that is selected, or a link that is selected or behind which something is demanded;
* in an answer, `obj` stands for each record of the subquery just if it has no such column, and no
  table on the way to it has one, selected or not. -/
theorem whole_row_of_build {schema : Schema} {tableName : String} {paths : List String}
    {filter : Filter}
    {selection : Selection} {r : Restriction} {order : List SortTerm} {limit : Option (Nat × Nat)}
    {s : SelectStatement} (hselection : Selection.ofColumns schema tableName paths = .ok selection)
    (hr : Restriction.ofFilter schema tableName filter = .ok r)
    (hs : build schema tableName selection r order limit = .ok s) :
    ∃ table, schema.table? tableName = some table ∧
      ∀ names sub, names ≠ [] → s.select.Nests names sub → ∃ target selected steps,
        schema.tableAlong? names table = some target ∧ selection.HasPart names selected ∧
        schema.linksAlong? names table = some steps ∧ ∀ db,
          (objName ∈ sub.outputs db ↔ objName = target.primaryKey ∨
            (∃ requested ∈ selected.columns, objName ∈ target.columnsOf db requested) ∨
            selection.Includes (names ++ [objName]) ∨ r.Includes (names ++ [objName])) ∧
          ∀ scopes, s.select.NestsWithin db names [] scopes sub →
            (∀ answer, s.select.answer? db [] = some answer →
              ∃ records, sub.answer? db scopes = some records) ∧
            ∀ records, sub.answer? db scopes = some records → ∀ record ∈ records,
              (objMeaning scopes record = .inr record ↔
                objName ∉ sub.outputs db ∧ ∀ step ∈ steps, objName ∉ db.columns step.1.name) := by
  obtain ⟨table, htable, hselect, -, -⟩ := exists_of_build hs
  have hfound := Schema.requireTable_eq_ok_iff.1 htable
  have hrestriction := Restriction.isDistinct_ofFilter htable hr
  have hdistinct := Outline.isDistinct_overlay (Selection.isDistinct_ofColumns hselection)
      hrestriction
  refine ⟨table, hfound, fun names sub hne hsub => ?_⟩
  obtain ⟨target, part, selected, correlation, asName, htarget, hpart, hselected, hcolumns,
      hlevel⟩ :=
    exists_level_of_nests hs hfound hsub
  -- below the outermost level nothing is selected for the order alone
  rw [if_neg fun htop => hne htop.1] at hlevel
  obtain ⟨-, steps, hsteps, -⟩ := Outline.exists_of_nests hselect hsub
  refine ⟨target, selected, steps, htarget, hselected, hsteps,
    fun db => ⟨?_, fun scopes hwithin => ⟨?_, ?_⟩⟩⟩
  · rw [Outline.outputs_select hlevel, Outline.mem_names_iff, List.append_nil, hcolumns,
      ← Outline.includes_concat_iff hdistinct hpart, Outline.includes_overlay_iff hrestriction]
    refine or_congr_left ⟨And.left, fun hkey => ⟨hkey, fun hall => ?_⟩⟩
    -- the key of an open table has another name
    rw [Table.primaryKey_of_isOpen hall.1] at hkey
    exact absurd hkey (by decide)
  · intro answer hanswer
    exact Select.exists_answer_of_nestsWithin hwithin hanswer
  · intro records hrecords record hrecord
    rw [objMeaning_eq_inr_iff, Select.map_fst_of_answer? hrecords hrecord,
      Outline.forall_scopes_iff hselect hsteps hwithin objName]
    simp

/-- The name of the owner of a team is selected. The owner arrives as a whole. -/
theorem whole_row_of_build_owner :
    let owner : Select := .level [.column "xata_id", .column "full_name"] [] "users" none
      (some ⟨"xata_id", "teams", "owner"⟩) none
    let s : SelectStatement :=
      ⟨.level [.column "xata_id"] [("owner", false, owner)] "teams" none none none, [], none⟩
    let ada : Record := [("xata_id", some (.text "u1")), ("full_name", some (.text "Ada"))]
    build teamsAndUsers "teams" ⟨[], [("owner", ⟨["full_name"], []⟩)]⟩ ⟨none, []⟩ [] none = .ok s ∧
      ∃ scopes, s.select.NestsWithin adaWithoutAddress ["owner"] [] scopes owner ∧
        owner.answer? adaWithoutAddress scopes = some [ada] ∧ objMeaning scopes ada = .inr ada := by
  intro owner s ada
  have hpath : ColumnPath.parse "owner.full_name" = .ok ⟨["owner"], .column "full_name"⟩ := by
    decide +kernel
  have hselection : Selection.ofColumns teamsAndUsers "teams" ["owner.full_name"] =
      .ok ⟨[], [("owner", ⟨["full_name"], []⟩)]⟩ := by
    rw [Selection.ofColumns, List.mapM_cons, hpath]
    rfl
  have hr : Restriction.ofFilter teamsAndUsers "teams" (.group .all []) = .ok ⟨none, []⟩ := by
    rw [Restriction.ofFilter_eq]
    rfl
  have hs : build teamsAndUsers "teams" ⟨[], [("owner", ⟨["full_name"], []⟩)]⟩ ⟨none, []⟩ [] none =
      .ok s := rfl
  obtain ⟨table, htable, hsubs⟩ := whole_row_of_build hselection hr hs
  obtain rfl : teamsAndUsers.tables[0] = table := Option.some.inj htable
  obtain ⟨target, selected, steps, -, -, hsteps, hobj⟩ :=
    hsubs ["owner"] owner (List.cons_ne_nil _ _) ⟨false, owner, List.mem_cons_self, rfl⟩
  obtain rfl : [(teamsAndUsers.tables[0], ⟨"owner", "users", "xata_id"⟩)] = steps :=
    Option.some.inj hsteps
  -- the one row of the teams is around the owner
  let engines : TableRow := fun name => Record.cell
    (["xata_id", "name", "owner"].zip
      [some (.text "t1"), some (.text "Engines"), some (.text "u1")]) name
  have hwithin : s.select.NestsWithin adaWithoutAddress ["owner"] []
      [⟨"teams", ["xata_id", "name", "owner"], engines⟩] owner :=
    ⟨engines, List.mem_filter.2 ⟨List.mem_cons_self, rfl⟩, false, owner, List.mem_cons_self, rfl,
      rfl⟩
  -- the owner is the user that the row around it names
  have hanswer :
      owner.answer? adaWithoutAddress [⟨"teams", ["xata_id", "name", "owner"], engines⟩] =
        some [ada] := rfl
  obtain ⟨-, hmeans⟩ := (hobj adaWithoutAddress).2 _ hwithin
  exact ⟨hs, _, hwithin, hanswer,
    (hmeans _ hanswer ada List.mem_cons_self).2 ⟨by decide, by decide⟩⟩

end Sql.SelectStatement

/-- Teams owned by users, who have a column `obj`. -/
def usersWithObj : Schema :=
  ⟨[((Table.named "teams").addPrimaryKey "xata_id" "text").addLink "owner" "users",
    (Table.named "users").addPrimaryKey "xata_id" "text" |>.addColumn "full_name" "text"
      |>.addColumn "obj" "text"]⟩

/-- A user who owns a team. -/
def adaWithObj : Database :=
  .ofLists
    [("teams", ["xata_id", "owner"], [[some (.text "t1"), some (.text "u1")]]),
      ("users", ["xata_id", "full_name", "obj"],
        [[some (.text "u1"), some (.text "Ada"), some (.text "engine")]])]

/-- **A column in place of a row.** If the column `obj` of the owner is selected, the value of the
link is the text in that column. If another column is selected, it is the owner. -/
theorem column_in_place_of_row :
    let teams := Query.new usersWithObj "teams"
    let owner (column : String) := ((teams.select [column]).build [] none).toOption.bind
      (·.select.result? adaWithObj)
    (teams.select ["owner.obj"]).compile =
      .ok ⟨"select \"xata_id\", (select to_json(obj) from (select \"xata_id\", \"obj\" " ++
        "from \"users\" where \"xata_id\" = \"teams\".\"owner\") as obj) as \"owner\" " ++
        "from \"teams\"", []⟩ ∧
      (∃ s sub, (teams.select ["owner.obj"]).build [] none = .ok s ∧ s.select.Nests ["owner"] sub ∧
        ∀ db, objName ∈ sub.outputs db) ∧
      owner "owner.obj" =
        some [[("xata_id", some (.text "t1")), ("owner", some (.text "engine"))]] ∧
      owner "owner.full_name" = some [[("xata_id", some (.text "t1")),
        ("owner", some (.object [("xata_id", .text "u1"), ("full_name", .text "Ada")]))]] := by
  intro teams owner
  refine ⟨by decide +kernel, ?_, by decide +kernel, by decide +kernel⟩
  -- the columns of the subquery are read off the statement, for every database
  obtain ⟨s, hs⟩ : ∃ s, (teams.select ["owner.obj"]).build [] none = .ok s :=
    fault?_eq_none_iff.1 (by decide +kernel)
  have hsubs : s.select.subqueries.map (fun link => (link.1, link.2.2.columns)) =
      [("owner", ["xata_id", objName].map .column)] :=
    eq_of_map_toOption (f := fun s => s.select.subqueries.map fun link =>
      (link.1, link.2.2.columns)) hs
      (by decide +kernel)
  obtain ⟨⟨name, demanded, sub⟩, hsub, heq⟩ := List.map_eq_singleton_iff.1 hsubs
  obtain ⟨rfl, hcolumns⟩ := Prod.mk.inj heq
  refine ⟨s, sub, hs, ⟨demanded, sub, hsub ▸ List.mem_singleton.2 rfl, rfl⟩, fun db => ?_⟩
  rw [Select.outputs_eq_of_columns hcolumns db]
  exact List.mem_append_left _ (by decide)

end LinkQuery
