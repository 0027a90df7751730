import LinkQuery.Proofs.Linked.Filters

/-!
# Which rows a statement returns

A filter on a link is met by a subquery that delivers the linked row only if it is accepted, and by
a test around the statement that the value of the subquery is there. The subquery carries a guard of
its own, `where obj is not null`, and that is true of a row only if none of its fields is null. So a
row is returned if the filter accepts it and, besides, no field is null that is delivered of the
rows behind its filtered links. What is delivered there is what is selected, so the rows that are
returned hang on the selection.

* `SelectStatement.result?_of_build` is the result of every statement.
* `Database.ofLists` are databases for the cases at hand.
-/

namespace LinkQuery

open Json (Value)
open Sql

theorem filterMap_eq_map_filter {α β : Type} {f : α → Option β} {p : α → Bool} {g : α → β}
    (h : ∀ a, f a = if p a then some (g a) else none) (as : List α) :
    as.filterMap f = (as.filter p).map g := by
  rw [← List.filterMap_eq_map', List.filterMap_filter]
  exact List.filterMap_congr fun a _ => h a

/-- **The rows that a statement returns.** The database refuses the statement if the name of a
filtered link is not alone among what its level delivers. Otherwise the rows of the table are
returned that the filter accepts and that are complete: behind their filtered links nothing is null
that is delivered. Links have to refer to unique columns, and no column may be called `obj`. -/
theorem Sql.SelectStatement.result?_of_build {schema : Schema} {db : Database} {tableName : String}
    {table : Table} {selection : Selection} {filter : Filter} {r : Restriction}
    {order : List SortTerm} {limit : Option (Nat × Nat)} {s : SelectStatement}
    (htable : schema.requireTable tableName = .ok table)
    (hfilter : Restriction.ofFilter schema tableName filter = .ok r)
    (hs : build schema tableName selection r order limit = .ok s)
    (hunique : db.HasUniqueTargets schema) (havoids : s.select.Avoids db objName) :
    s.select.result? db =
      if s.select.isClear db then
        let outline := Outline.overlay selection r
        some (((db.rows table.name).filter fun row =>
            filter.accepts schema db table row && outline.isComplete schema db table row).map
          (outline.record schema db (outline.orderColumns order) table))
      else none := by
  obtain ⟨found, hfound, hselect, -, -⟩ := exists_of_build hs
  obtain rfl : found = table := Except.ok.inj (hfound.symm.trans htable)
  have hrepresents : Restriction.Represents schema db found filter r :=
    Restriction.represents_ofFilter htable hfilter
  have hmem := Schema.mem_tables_of_table? (Schema.requireTable_eq_ok_iff.1 htable)
  have hanswer : s.select.answer? db [] = _ :=
    Outline.answer?_select hunique hmem hselect havoids (by simp)
  unfold Select.result?
  by_cases hclear : s.select.isClear db = true
  · rw [if_pos hclear, if_pos hclear, hanswer]
    refine congrArg some ?_
    -- no relation is around the statement, so all rows of the table are correlated
    have hall : (db.rows found.name).filter
        (Outline.isCorrelated db found none none []) = db.rows found.name :=
      List.filter_eq_self.2 fun row _ => rfl
    rw [hall]
    refine filterMap_eq_map_filter (fun row => ?_) _
    have hdelivered := Outline.isSome_delivered?_overlay hrepresents.distinct hselect hclear row
    rw [hrepresents.accepts_iff, ← Bool.and_eq_true] at hdelivered
    -- of each row it is known whether it is delivered, and the record if it is
    by_cases hkept : (filter.accepts schema db found row &&
        (Outline.overlay selection r).isComplete schema db found row) = true
    · obtain ⟨record, hrecord⟩ := Option.isSome_iff_exists.1 (hdelivered.2 hkept)
      rw [if_pos hkept, hrecord, Outline.eq_record_of_delivered? hrecord]
    · rw [if_neg hkept]
      exact Option.not_isSome_iff_eq_none.1 fun hsome => hkept (hdelivered.1 hsome)
  · rw [if_neg hclear, if_neg hclear]

/-- **When the rows that a filter accepts are returned.** -/
theorem Sql.SelectStatement.returns_accepted_iff {schema : Schema} {db : Database}
    {tableName : String} {table : Table} {selection : Selection} {filter : Filter} {r : Restriction}
    {order : List SortTerm} {limit : Option (Nat × Nat)} {s : SelectStatement}
    (htable : schema.requireTable tableName = .ok table)
    (hfilter : Restriction.ofFilter schema tableName filter = .ok r)
    (hs : build schema tableName selection r order limit = .ok s)
    (hunique : db.HasUniqueTargets schema) (havoids : s.select.Avoids db objName) :
    let outline := Outline.overlay selection r
    let accepted := (db.rows table.name).filter fun row => filter.accepts schema db table row
    let record := outline.record schema db (outline.orderColumns order) table
    s.select.result? db =
        (if s.select.isClear db then
          some ((accepted.filter fun row => outline.isComplete schema db table row).map record)
        else none) ∧
      (s.select.result? db = some (accepted.map record) ↔
        s.select.isClear db ∧ ∀ row ∈ accepted, outline.isComplete schema db table row) := by
  intro outline accepted record
  have hresult : s.select.result? db =
      if s.select.isClear db then
        some ((accepted.filter fun row => outline.isComplete schema db table row).map record)
      else none := by
    rw [result?_of_build htable hfilter hs hunique havoids, List.filter_filter]
    simp only [Bool.and_comm]
    rfl
  refine ⟨hresult, ?_⟩
  rw [hresult]
  -- a refused statement has no result, so it does not return the rows
  by_cases hclear : s.select.isClear db = true
  · rw [if_pos hclear]
    refine ⟨fun heq => ⟨hclear, ?_⟩, fun hall => ?_⟩
    · -- no row is left out if as many are returned as are accepted
      have hlength := congrArg List.length (Option.some.inj heq)
      rw [List.length_map, List.length_map] at hlength
      exact List.length_filter_eq_length_iff.1 hlength
    · rw [List.filter_eq_self.2 hall.2]
  · rw [if_neg hclear]
    exact ⟨fun heq => by simp at heq, fun hall => absurd hall.1 hclear⟩

/-! ### A database from lists -/

/-- A database from the columns and rows of its tables. Values are equal if they are the same, and
tests compare columns with values. -/
def Sql.Database.ofLists (tables : List (String × List String × List (List Cell))) : Database where
  columns table := ((tables.lookup table).map (·.1)).getD []
  rows table :=
    match tables.lookup table with
    | some (columns, rows) => rows.map fun cells name => Record.cell (columns.zip cells) name
    | none => []
  same a b := a = b
  same_symm h := by simpa [eq_comm] using h
  same_trans h h' := by
    simp only [decide_eq_true_eq] at h h' ⊢
    exact h.trans h'
  test _ row
    | .compare (.column column) .eq (.value value) =>
      match row column with
      | some found => if found = value then .yes else .no
      | none => .unknown
    | .isNull (.column column) => if (row column).isNone then .yes else .no
    | .isNotNull (.column column) => if (row column).isSome then .yes else .no
    | _ => .unknown

/-- Teams, each owned by a user. -/
def teamsAndUsers : Schema :=
  ⟨[((Table.named "teams").addPrimaryKey "xata_id" "text" |>.addColumn "name" "text").addLink
      "owner" "users",
    (Table.named "users").addPrimaryKey "xata_id" "text" |>.addColumn "full_name" "text"
      |>.addColumn "address" "text"]⟩

/-- Ada, who has no address, owns a team. -/
def adaWithoutAddress : Database :=
  .ofLists
    [("teams", ["xata_id", "name", "owner"],
        [[some (.text "t1"), some (.text "Engines"), some (.text "u1")]]),
      ("users", ["xata_id", "full_name", "address"],
        [[some (.text "u1"), some (.text "Ada"), none]])]

/-- The team of Ada is returned as long as her address is not asked for. -/
theorem returns_accepted_iff_adaWithoutAddress :
    let fullName := Condition.atom (.compare "full_name" false .eq (.text "Ada") none)
    let s : SelectStatement :=
      ⟨.whereLinked (.level [.column "xata_id", .column "name"]
          [("owner", true, .level [.column "xata_id"] [] "users" none
            (some ⟨"xata_id", "teams", "owner"⟩) (some fullName))] "teams" none none none)
          "owner", [], none⟩
    SelectStatement.build teamsAndUsers "teams" ⟨["name"], []⟩
        ⟨none, [("owner", ⟨some fullName, []⟩)]⟩ [] none = .ok s ∧
      s.select.result? adaWithoutAddress =
        some [[("xata_id", some (.text "t1")), ("name", some (.text "Engines")),
          ("owner", some (.object [("xata_id", .text "u1")]))]] := by
  intro fullName s
  have htable : teamsAndUsers.requireTable "teams" = .ok teamsAndUsers.tables[0] := rfl
  have hbehind : Restriction.ofFilter teamsAndUsers "users"
      (.column "full_name" (.compare .eq (.text "Ada"))) = .ok ⟨some fullName, []⟩ := by
    rw [Restriction.ofFilter_eq]
    rfl
  have hfilter : Restriction.ofFilter teamsAndUsers "teams"
      (.link "owner" (.column "full_name" (.compare .eq (.text "Ada")))) =
        .ok ⟨none, [("owner", ⟨some fullName, []⟩)]⟩ := by
    have hgroups : Filter.linkGroups teamsAndUsers.tables[0]
        (.link "owner" (.column "full_name" (.compare .eq (.text "Ada")))) =
          [("owner", [.column "full_name" (.compare .eq (.text "Ada"))])] := rfl
    have htarget : Restriction.linkTarget teamsAndUsers teamsAndUsers.tables[0] "owner" =
        .ok "users" := rfl
    rw [Restriction.ofFilter_eq, htable]
    have hown : Filter.condition teamsAndUsers.tables[0]
        (.link "owner" (.column "full_name" (.compare .eq (.text "Ada")))) = .ok none := rfl
    simp [bind, Except.bind, pure, Except.pure, hown, hgroups, htarget, Filter.conjunction, hbehind]
  have hs : SelectStatement.build teamsAndUsers "teams" ⟨["name"], []⟩
      ⟨none, [("owner", ⟨some fullName, []⟩)]⟩ [] none = .ok s := rfl
  have hunique : adaWithoutAddress.HasUniqueTargets teamsAndUsers := by decide +kernel
  have havoids : s.select.Avoids adaWithoutAddress objName :=
    ⟨by decide +kernel, by decide +kernel, by decide +kernel,
      ⟨by decide +kernel, by decide +kernel, trivial⟩, trivial⟩
  refine ⟨hs, (SelectStatement.returns_accepted_iff htable hfilter hs hunique havoids).1.trans ?_⟩
  decide +kernel

/-- **A null behind a link hides the row.** The filter accepts the team, whose owner is Ada. The
team is returned if only its name is selected, and it is not if all columns of the owner are. -/
theorem null_behind_link_hides_row :
    let q := (Query.new teamsAndUsers "teams").addFilter
      (.object [("owner.full_name", .text "Ada")])
    let accepted := (Filter.ofJson q.filterValue).toOption.map fun filter =>
      (adaWithoutAddress.rows "teams").map
        (filter.accepts teamsAndUsers adaWithoutAddress teamsAndUsers.tables[0])
    let returned (columns : List String) :=
      ((q.select columns).build [] none).toOption.bind (·.select.result? adaWithoutAddress)
    accepted = some [true] ∧
      returned ["name"] =
        some [[("xata_id", some (.text "t1")), ("name", some (.text "Engines")),
          ("owner", some (.object [("xata_id", .text "u1")]))]] ∧
      returned ["name", "owner.*"] = some [] := by
  decide +kernel

end LinkQuery
