import LinkQuery.Proofs.Sql.Database

/-!
# The rows of an outline

An outline says what to deliver of a row of a table without going through a statement: the row's own
columns, and for each link the record of the row behind it. The select of an outline delivers just
that.

* `Table.linkedRow?` is the row behind a link. Links refer to columns whose values are unique
  (`Database.HasUniqueTargets`), so there is at most one.
* `Outline.delivered?` is the record that an outline delivers of a row, if it delivers the row at
  all: the condition has to hold and the demanded links must not be null. A demanded link is null as
  well if any cell of the record behind it is.
* `Outline.answer?_select`: the select of an outline delivers the records of the rows that are
  correlated, each level inside the rows of the levels around it.
-/

namespace LinkQuery

open Sql

/-! ### The row behind a link -/

/-- The columns that links refer to have no value twice. -/
def Sql.Database.HasUniqueTargets (db : Database) (schema : Schema) : Prop :=
  ∀ table ∈ schema.tables, ∀ key ∈ table.foreignKeys.values, ∀ link ∈ key.link?.toList,
    ∀ target ∈ (schema.table? link.targetTable).toList,
      (db.rows target.name).Pairwise fun a b =>
        db.equal (a link.targetColumn) (b link.targetColumn) ≠ .yes

instance (db : Database) (schema : Schema) : Decidable (db.HasUniqueTargets schema) :=
  inferInstanceAs (Decidable (∀ table ∈ schema.tables, ∀ key ∈ table.foreignKeys.values,
    ∀ link ∈ key.link?.toList, ∀ target ∈ (schema.table? link.targetTable).toList,
      (db.rows target.name).Pairwise fun a b =>
        db.equal (a link.targetColumn) (b link.targetColumn) ≠ .yes))

/-- The row behind a link, with its table. -/
def Table.linkedRow? (schema : Schema) (db : Database) (table : Table) (row : TableRow)
    (name : String) : Option (Table × TableRow) := do
  let link ← table.link? name
  let target ← schema.table? link.targetTable
  let other ← (db.rows target.name).find? fun other =>
    db.equal (other link.targetColumn) (row link.localColumn) = .yes
  some (target, other)

/-- The row behind a link is the first of the target that has the value of the link. -/
theorem Table.linkedRow?_eq {schema : Schema} {db : Database} {table target : Table} {name : String}
    {link : Link} (hlink : table.link? name = some link)
    (htarget : schema.table? link.targetTable = some target) (row : TableRow) :
    table.linkedRow? schema db row name =
      ((db.rows target.name).find? fun other =>
        db.equal (other link.targetColumn) (row link.localColumn) = .yes).map fun other =>
          (target, other) := by
  unfold linkedRow?
  rw [hlink, Option.bind_eq_bind, Option.bind_some, htarget, Option.bind_eq_bind,
    Option.bind_some, Option.bind_eq_bind, Option.map_eq_bind]
  rfl

/-- Two cells are equal when both have values and these are the same. -/
theorem Sql.Database.equal_eq_yes_iff {db : Database} {a b : Cell} :
    db.equal a b = .yes ↔ ∃ x y, a = some x ∧ b = some y ∧ db.same x y := by
  cases a with
  | none => simp [equal]
  | some x =>
    cases b with
    | none => simp [equal]
    | some y => cases hsame : db.same x y <;> simp [equal, hsame]

/-- Of rows without a value twice, at most one has a given value. -/
theorem Sql.Database.filter_equal_eq {db : Database} {column : String} {rows : List TableRow}
    (h : rows.Pairwise fun a b => db.equal (a column) (b column) ≠ .yes) (value : Cell) :
    rows.filter (fun row => db.equal (row column) value = .yes) =
      (rows.find? fun row => db.equal (row column) value = .yes).toList := by
  induction rows with
  | nil => rfl
  | cons row rest ih =>
    obtain ⟨hfirst, hrest⟩ := List.pairwise_cons.1 h
    by_cases hrow : db.equal (row column) value = .yes
    · -- the first row found is the only one: another one would be equal to it
      have hnone : rest.filter (fun other => db.equal (other column) value = .yes) = [] := by
        refine List.filter_eq_nil_iff.2 fun other hother => ?_
        intro hequal
        obtain ⟨x, v, hx, hv, hsame⟩ := equal_eq_yes_iff.1 hrow
        obtain ⟨y, v', hy, hv', hsame'⟩ := equal_eq_yes_iff.1 (of_decide_eq_true hequal)
        obtain rfl : v = v' := Option.some.inj (hv.symm.trans hv')
        -- equality goes from the one to the other by way of the given value
        refine hfirst other hother (equal_eq_yes_iff.2 ⟨x, y, hx, hy, ?_⟩)
        exact db.same_trans hsame (db.same_symm hsame')
      rw [List.filter_cons_of_pos (by simpa using hrow), hnone,
        List.find?_cons_of_pos (by simpa using hrow)]
      rfl
    · rw [List.filter_cons_of_neg (by simpa using hrow),
        List.find?_cons_of_neg (by simpa using hrow)]
      exact ih hrest

/-! ### What an outline delivers -/

namespace Outline

section

variable (schema : Schema) (db : Database)

/-- Whether the condition of an outline, if it has one, is true of a row. -/
def holds (table : Table) (row : TableRow) (condition : Option Condition) : Bool :=
  condition.all fun c => c.truth (db.test table.name row) = .yes

/-- The row's own columns among what is delivered. -/
def ownCells (table : Table) (row : TableRow) (columns extra links : List String) : Record :=
  (ownColumns table columns extra links).flatMap (·.cells db table.name row)

mutual

/-- The record that is delivered of a row, if the row is delivered. -/
def delivered? (extra : List String) (table : Table) (row : TableRow) : Outline → Option Record
  | ⟨columns, condition, links, demanded⟩ =>
    let record := ownCells db table row columns extra (links.map (·.1)) ++ linkCells table row links
    if holds db table row condition && demanded.all (fun name => (record.cell name).isSome) then
      some record
    else none

/-- The cells of the links: the records of the rows behind them. -/
def linkCells (table : Table) (row : TableRow) : List (String × Bool × Outline) → Record
  | [] => []
  | (name, demanded, outline) :: rest =>
    let record? := (table.linkedRow? schema db row name).bind fun (target, other) =>
      delivered? [] target other outline
    let kept := record?.filter fun record => !demanded || record.isFull
    (name, kept.map Record.toJson) :: linkCells table row rest

end

/-- The record of a row, were it delivered. -/
def record (extra : List String) (table : Table) (row : TableRow) (outline : Outline) : Record :=
  ownCells db table row outline.columns extra outline.linkNames ++
    linkCells schema db table row outline.links

/-- The names of the cells that an outline delivers. -/
def names (extra : List String) (table : Table) (outline : Outline) : List String :=
  (ownColumns table outline.columns extra outline.linkNames).flatMap (·.names db table.name) ++
    outline.linkNames

end

variable {schema : Schema} {db : Database}

/-- A row is delivered when it is kept and has every demanded link. -/
theorem delivered?_eq (extra : List String) (table : Table) (row : TableRow) (outline : Outline) :
    delivered? schema db extra table row outline =
      if holds db table row outline.condition &&
          outline.demanded.all (fun name =>
            ((outline.record schema db extra table row).cell name).isSome) then
        some (outline.record schema db extra table row)
      else none := by
  cases outline
  rfl

theorem map_fst_linkCells (table : Table) (row : TableRow)
    (links : List (String × Bool × Outline)) :
    (linkCells schema db table row links).map (·.1) = links.map (·.1) := by
  induction links with
  | nil => rfl
  | cons link rest ih =>
    rw [linkCells, List.map_cons, List.map_cons, ih]

/-- A record has the names of its outline. -/
theorem map_fst_record (schema : Schema) (db : Database) (extra : List String) (table : Table)
    (row : TableRow) (outline : Outline) :
    (outline.record schema db extra table row).map (·.1) = outline.names db extra table := by
  rw [record, names, List.map_append, map_fst_linkCells, ownCells, List.map_flatMap]
  simp only [OutputColumn.map_fst_cells]
  rfl

/-- What is delivered is the record of the row. -/
theorem eq_record_of_delivered? {extra : List String} {table : Table} {row : TableRow}
    {outline : Outline} {record : Record}
    (h : delivered? schema db extra table row outline = some record) :
    record = outline.record schema db extra table row := by
  rw [delivered?_eq] at h
  split at h
  · exact (Option.some.inj h).symm
  · simp at h

/-! ### Enclosing selects -/

theorem enclose_nil (s : Select) : enclose s [] = s := rfl

theorem enclose_cons (s : Select) (name : String) (rest : List String) :
    enclose s (name :: rest) = enclose (.whereLinked s name) rest := rfl

theorem outputs_enclose (s : Select) (demanded : List String) :
    (enclose s demanded).outputs db = s.outputs db := by
  induction demanded generalizing s with
  | nil => rfl
  | cons name rest ih => rw [enclose_cons, ih, Select.outputs]

theorem avoids_enclose {s : Select} {demanded : List String} {name : String} :
    (enclose s demanded).Avoids db name ↔ s.Avoids db name := by
  induction demanded generalizing s with
  | nil => exact Iff.rfl
  | cons link rest ih => rw [enclose_cons, ih, Select.Avoids]

/-- Enclosed in tests, a select delivers the records that pass all of them. -/
theorem answer?_enclose (s : Select) (demanded : List String) (scopes : List Scope) :
    (enclose s demanded).answer? db scopes =
      (s.answer? db scopes).map fun records =>
        records.filter fun record => demanded.all fun name => (record.cell name).isSome := by
  induction demanded generalizing s with
  | nil =>
    rw [enclose_nil]
    cases s.answer? db scopes with
    | none => rfl
    | some records => simp
  | cons name rest ih =>
    -- the innermost test is made first, which makes no difference
    rw [enclose_cons, ih, Select.answer?, Option.map_map]
    refine congrFun (congrArg _ (funext fun records => ?_)) _
    rw [Function.comp_apply, List.filter_filter]
    refine List.filter_congr fun record _ => ?_
    rw [List.all_cons, Bool.and_comm]

/-! ### The select of an outline -/

/-- A linked table does not have the name of the row around it. -/
theorem asName_ne (name visible : String) (target : Table) :
    (if target.name = visible then some (selfLinkAlias name visible) else none).getD target.name ≠
      visible := by
  by_cases htarget : target.name = visible
  · -- the alias is the name of the link, or that with a suffix if it is taken as well
    rw [if_pos htarget, Option.getD_some]
    unfold selfLinkAlias
    by_cases hname : name = visible
    · rw [if_pos hname]
      intro heq
      have hlength := congrArg String.length heq
      rw [String.length_append, hname] at hlength
      have hsuffix : "_link".length = 5 := rfl
      omega
    · rw [if_neg hname]
      exact hname
  · rw [if_neg htarget]
    exact htarget

theorem map_fst_selectLinks {table : Table} {visible : String}
    {links : List (String × Bool × Outline)} {selects : List (String × Bool × Select)}
    (hs : selectLinks schema table visible links = .ok selects) :
    selects.map (·.1) = links.map (·.1) := by
  induction links generalizing selects with
  | nil =>
    obtain rfl := Except.ok.inj hs
    rfl
  | cons link rest ih =>
    obtain ⟨name, demanded, outline⟩ := link
    obtain ⟨_, _, inner, others, -, -, -, hothers, rfl⟩ := exists_of_selectLinks_cons hs
    rw [List.map_cons, List.map_cons, ih hothers]

/-- A select has the outputs of its outline. -/
theorem outputs_select {table : Table} {correlation : Option Correlation} {asName : Option String}
    {extra : List String} {outline : Outline} {s : Select}
    (hs : outline.select schema table correlation asName extra = .ok s) :
    s.outputs db = outline.names db extra table := by
  obtain ⟨inner, hinner, rfl⟩ := exists_of_select hs
  rw [outputs_enclose, Select.outputs, map_fst_selectLinks hinner]
  rfl

/-- Whether a row is correlated with the rows around it. -/
def isCorrelated (db : Database) (table : Table) (correlation : Option Correlation)
    (asName : Option String) (scopes : List Scope) (row : TableRow) : Bool :=
  correlation.all fun c =>
    db.eval table.name (⟨asName.getD table.name, db.columns table.name, row⟩ :: scopes) row c.test =
      .yes

/-- The rows of a level are those that are correlated and meet the condition. -/
theorem whereTruth_eq_yes_iff (table : Table) (correlation : Option Correlation)
    (asName : Option String) (condition : Option Condition) (scopes : List Scope)
    (row : TableRow) :
    Select.whereTruth
        (db.eval table.name (⟨asName.getD table.name, db.columns table.name, row⟩ :: scopes) row)
        correlation condition = .yes ↔
      isCorrelated db table correlation asName scopes row && holds db table row condition := by
  rw [Select.whereTruth_eq_yes_iff, Bool.and_eq_true]
  refine and_congr ?_ ?_
  · cases correlation <;> simp [isCorrelated]
  · -- the condition is about the row alone, whatever relations are around it
    have hcondition : ∀ c : Condition,
        c.truth (db.eval table.name
          (⟨asName.getD table.name, db.columns table.name, row⟩ :: scopes) row) =
        c.truth (db.test table.name row) :=
      Condition.truth_congr fun a => db.eval_test table.name _ row a
    cases condition <;> simp [holds, hcondition]

/-- Inside the row of a level, the row behind a link is correlated and no other one. -/
theorem filter_isCorrelated_link (hunique : db.HasUniqueTargets schema) {table target : Table}
    (htable : table ∈ schema.tables) {name : String} {link : Link}
    (hlink : table.link? name = some link)
    (htarget : schema.table? link.targetTable = some target) (visible : String)
    (row : TableRow) (scopes : List Scope) :
    (db.rows target.name).filter (isCorrelated db target
        (some ⟨link.targetColumn, visible, link.localColumn⟩)
        (if target.name = visible then some (selfLinkAlias name visible) else none)
        (⟨visible, db.columns table.name, row⟩ :: scopes)) =
      ((db.rows target.name).find? fun other =>
        db.equal (other link.targetColumn) (row link.localColumn) = .yes).toList := by
  -- the relation around the subquery is the level itself, whatever the table of the link is called
  have hcorrelated : ∀ other, isCorrelated db target
      (some ⟨link.targetColumn, visible, link.localColumn⟩)
      (if target.name = visible then some (selfLinkAlias name visible) else none)
      (⟨visible, db.columns table.name, row⟩ :: scopes) other =
        decide (db.equal (other link.targetColumn) (row link.localColumn) = .yes) := by
    intro other
    unfold isCorrelated
    rw [Option.all_some, db.eval_correlation other (asName_ne name visible target) rfl]
  obtain ⟨key, hkey, hkeyLink⟩ := Table.exists_key_of_link? hlink
  have htargets := hunique table htable key hkey link (by simp [hkeyLink]) target
    (by simp [htarget])
  rw [funext hcorrelated, Database.filter_equal_eq htargets]

/-- Choosing rows, making records of them and choosing among these is done in one go. -/
theorem filter_map_filter {rows : List TableRow} {p q : TableRow → Bool} {f : TableRow → Record}
    {r : Record → Bool} :
    ((rows.filter fun row => p row && q row).map f).filter r =
      (rows.filter p).filterMap fun row => if q row && r (f row) then some (f row) else none := by
  induction rows with
  | nil => rfl
  | cons row rest ih =>
    cases hp : p row <;> cases hq : q row <;> cases hr : r (f row) <;> simp [hp, hq, hr, ih]

theorem filterMap_toList {α β : Type} (f : α → Option β) (a? : Option α) :
    a?.toList.filterMap f = (a?.bind f).toList := by
  cases a? with
  | none => rfl
  | some a => cases h : f a <;> simp [h]

/-- The value of a subquery that delivers at most one record. -/
theorem scalar?_toList {scopes : List Scope} (hscopes : ∀ scope ∈ scopes, objName ∉ scope.columns)
    {record? : Option Record} (hnames : ∀ record ∈ record?, objName ∉ record.map (·.1))
    (demanded : Bool) :
    scalar? (((record?.toList.map (objMeaning scopes)).filter fun obj =>
        !demanded || objIsNotNull obj).map objToJson) =
      some ((record?.filter fun record => !demanded || record.isFull).map Record.toJson) := by
  cases record? with
  | none => rfl
  | some record =>
    have hmeaning := objMeaning_eq_inr (hnames record rfl) hscopes
    rw [Option.toList_some, List.map_singleton, hmeaning, Option.filter_some]
    cases hkept : !demanded || record.isFull <;> simp [objIsNotNull, hkept, scalar?, objToJson]

mutual

/-- **The select of an outline delivers what the outline says**, of the rows that are correlated
with the rows around them. -/
theorem answer?_select (hunique : db.HasUniqueTargets schema) {table : Table}
    (htable : table ∈ schema.tables) {correlation : Option Correlation} {asName : Option String}
    {extra : List String} {outline : Outline} {s : Select}
    (hs : outline.select schema table correlation asName extra = .ok s)
    (havoids : s.Avoids db objName) {scopes : List Scope}
    (hscopes : ∀ scope ∈ scopes, objName ∉ scope.columns) :
    s.answer? db scopes =
      some (((db.rows table.name).filter
        (isCorrelated db table correlation asName scopes)).filterMap
        fun row => delivered? schema db extra table row outline) := by
  match outline with
  | ⟨columns, condition, links, demanded⟩ =>
    obtain ⟨inner, hinner, rfl⟩ := exists_of_select hs
    obtain ⟨hcolumns, -, hlinks⟩ := avoids_enclose.1 havoids
    -- whatever the row, the subqueries deliver one value each
    have hlinked : ∀ row, Select.linkCells? db
        (⟨asName.getD table.name, db.columns table.name, row⟩ :: scopes) inner =
          some (linkCells schema db table row links) :=
      fun row => linkCells?_selectLinks hunique htable hinner hlinks hcolumns hscopes
    rw [answer?_enclose, Select.answer?]
    simp only [whereTruth_eq_yes_iff, hlinked, Bool.decide_eq_true]
    -- so no row fails, and going through the rows is mapping them
    have hmap : ∀ rows : List TableRow, rows.mapM (fun row =>
        some (ownCells db table row columns extra
        (links.map (·.1)) ++ linkCells schema db table row links)) = some (rows.map fun row =>
          ownCells db table row columns extra (links.map (·.1)) ++
            linkCells schema db table row links) :=
      fun rows => List.mapM_pure (m := Option)
    refine (congrArg (Option.map _) (hmap _)).trans ?_
    rw [Option.map_some, filter_map_filter]
    rfl

/-- The subqueries of a level deliver the cells of its links. -/
theorem linkCells?_selectLinks (hunique : db.HasUniqueTargets schema) {table : Table}
    (htable : table ∈ schema.tables) {visible : String} {links : List (String × Bool × Outline)}
    {selects : List (String × Bool × Select)}
    (hs : selectLinks schema table visible links = .ok selects)
    (havoids : Select.AvoidsLinks db objName selects) {row : TableRow} {scopes : List Scope}
    (hcolumns : objName ∉ db.columns table.name)
    (hscopes : ∀ scope ∈ scopes, objName ∉ scope.columns) :
    Select.linkCells? db (⟨visible, db.columns table.name, row⟩ :: scopes) selects =
      some (linkCells schema db table row links) := by
  match links with
  | [] =>
    obtain rfl := Except.ok.inj hs
    rfl
  | (name, demanded, outline) :: rest =>
    obtain ⟨link, target, inner, others, hlink, hfound, hinner, hothers, rfl⟩ :=
      exists_of_selectLinks_cons hs
    obtain ⟨-, hinnerAvoids, hothersAvoid⟩ := havoids
    have hinside : ∀ scope ∈ (⟨visible, db.columns table.name, row⟩ : Scope) :: scopes,
        objName ∉ scope.columns := List.forall_mem_cons.2 ⟨hcolumns, hscopes⟩
    have hanswer := answer?_select hunique (Schema.mem_tables_of_table? hfound) hinner hinnerAvoids
      hinside
    -- of the rows of the target table at most one is correlated: the row behind the link
    rw [filter_isCorrelated_link hunique htable hlink hfound] at hanswer
    have hrecord : (table.linkedRow? schema db row name).bind
        (fun (target, other) => delivered? schema db [] target other outline) =
          ((db.rows target.name).find? fun other =>
            db.equal (other link.targetColumn) (row link.localColumn) = .yes).bind
              fun other => delivered? schema db [] target other outline := by
      rw [Table.linkedRow?_eq hlink hfound, Option.bind_map]
      rfl
    -- no cell of its record is called `obj`, so `obj` stands for the record
    have hnames : ∀ record ∈ ((db.rows target.name).find? fun other =>
          db.equal (other link.targetColumn) (row link.localColumn) = .yes).bind
            (fun other => delivered? schema db [] target other outline),
        objName ∉ record.map (·.1) := by
      intro record hrecord
      obtain ⟨other, -, hdelivered⟩ := Option.bind_eq_some_iff.1 hrecord
      rw [eq_record_of_delivered? hdelivered, map_fst_record, ← outputs_select hinner]
      exact hinnerAvoids.not_mem_outputs
    rw [Select.linkCells?, hanswer, filterMap_toList, linkCells, hrecord,
      linkCells?_selectLinks hunique htable hothers hothersAvoid hcolumns hscopes,
      Option.bind_eq_bind, Option.bind_some]
    dsimp only
    rw [scalar?_toList hinside hnames]
    rfl

end

end Outline

end LinkQuery
