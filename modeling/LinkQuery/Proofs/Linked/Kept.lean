import LinkQuery.Proofs.Linked.Included

/-!
# Links in statements

The statement for a query has a subquery for each link. The subquery tells the link that it was
written for: it selects from the table that the link leads to, and its correlation names the two
columns. So it can be read off a statement along which links it fetches rows, and compared with the
links that the query names.

* `Sql.Select.linksAlong?` reads the links along given names.
* `Outline.exists_linksAlong?_of_select` and `Outline.exists_select`: the subqueries are those of
  the links that the names find, and they are written if the names find links at all.
* `Query.NamesLinks` are the links that a query names in its paths and filters.
* `Query.names_kept_iff`: a query fetches rows along the links that it names, unless one of them is
  shadowed.
-/

namespace LinkQuery

open Sql

/-! ### Reading links off a select -/

namespace Sql.Select

/-- The subqueries of a select, under the names of their links. -/
def subqueries : Select → List (String × Bool × Select)
  | level _ links _ _ _ _ => links
  | whereLinked inner _ => inner.subqueries

/-- The link that a subquery was written for. -/
def link? : Select → Option Link
  | level _ _ table _ correlation _ => correlation.map fun c => ⟨c.localColumn, table, c.target⟩
  | whereLinked inner _ => inner.link?

/-- The links along which a select fetches rows, under the given names and one behind the other. -/
def linksAlong? : List String → Select → Option (List Link)
  | [], _ => some []
  | name :: names, s => do
    let (_, inner) ← s.subqueries.lookup name
    let link ← inner.link?
    let rest ← linksAlong? names inner
    some (link :: rest)

theorem linksAlong?_cons_iff {name : String} {names : List String} {s : Select}
    {links : List Link} :
    s.linksAlong? (name :: names) = some links ↔
      ∃ demanded inner link rest, s.subqueries.lookup name = some (demanded, inner) ∧
        inner.link? = some link ∧ inner.linksAlong? names = some rest ∧ link :: rest = links := by
  simp [linksAlong?, Option.bind_eq_some_iff]

end Sql.Select

/-! ### Selects of outlines -/

namespace Outline

variable {schema : Schema} {table : Table} {correlation : Option Correlation}
  {asName : Option String} {extra : List String} {outline : Outline} {s : Select}

theorem subqueries_enclose (s : Select) (demanded : List String) :
    (enclose s demanded).subqueries = s.subqueries := by
  induction demanded generalizing s with
  | nil => rfl
  | cons name rest ih => exact ih (.whereLinked s name)

theorem link?_enclose (s : Select) (demanded : List String) :
    (enclose s demanded).link? = s.link? := by
  induction demanded generalizing s with
  | nil => rfl
  | cons name rest ih => exact ih (.whereLinked s name)

/-- The select of an outline behind a link tells the link. -/
theorem link?_select {link : Link} {visible : String} {target : Table}
    (htarget : schema.table? link.targetTable = some target)
    (hs : outline.select schema target (some ⟨link.targetColumn, visible, link.localColumn⟩) asName
      extra = .ok s) : s.link? = some link := by
  obtain ⟨inner, -, rfl⟩ := exists_of_select hs
  rw [link?_enclose, Select.link?, Schema.name_of_table? htarget]
  rfl

/-- A subquery is the select of an outline behind the link that its name finds. -/
def IsSubquery (schema : Schema) (table : Table) (entry : String × Bool × Outline)
    (sub : String × Bool × Select) : Prop :=
  sub.1 = entry.1 ∧ ∃ link target, table.link? entry.1 = some link ∧
    schema.table? link.targetTable = some target ∧ sub.2.2.link? = some link ∧
    ∃ correlation asName, entry.2.2.select schema target correlation asName [] = .ok sub.2.2

theorem forall₂_of_selectLinks {visible : String} {links : List (String × Bool × Outline)}
    {subs : List (String × Bool × Select)}
    (hs : selectLinks schema table visible links = .ok subs) :
    List.Forall₂ (IsSubquery schema table) links subs := by
  -- each link has its subquery at the same place
  induction links generalizing subs with
  | nil =>
    obtain rfl := Except.ok.inj hs
    exact .nil
  | cons entry rest ih =>
    obtain ⟨name, demanded, outline⟩ := entry
    obtain ⟨link, target, inner, others, hlink, htarget, hinner, hothers, rfl⟩ :=
      exists_of_selectLinks_cons hs
    exact .cons ⟨rfl, link, target, hlink, htarget, link?_select htarget hinner, _, _, hinner⟩
      (ih hothers)

/-- The subqueries of the select of an outline are those of its links. -/
theorem forall₂_subqueries (hs : outline.select schema table correlation asName extra = .ok s) :
    List.Forall₂ (IsSubquery schema table) outline.links s.subqueries := by
  obtain ⟨inner, hinner, rfl⟩ := exists_of_select hs
  rw [subqueries_enclose]
  exact forall₂_of_selectLinks hinner

/-- **The links of a select are those that their names find**, from table to table. -/
theorem exists_linksAlong?_of_select {names : List String} {links : List Link}
    (hs : outline.select schema table correlation asName extra = .ok s)
    (h : s.linksAlong? names = some links) :
    ∃ steps, schema.linksAlong? names table = some steps ∧ steps.map (·.2) = links := by
  induction names generalizing outline table correlation asName extra s links with
  | nil =>
    obtain rfl := Option.some.inj h
    exact ⟨[], rfl, rfl⟩
  | cons name names ih =>
    obtain ⟨demanded, inner, link, rest, hlookup, hlink, hrest, rfl⟩ :=
      Select.linksAlong?_cons_iff.1 h
    -- the subquery stands for a link of the outline, under the same name
    obtain ⟨⟨n, _, behind⟩, -, hname, found, target, hfound, htarget, hinner, _, _, hselect⟩ :=
      exists_left_of_forall₂ (forall₂_subqueries hs) (mem_of_lookup_eq_some hlookup)
    obtain rfl : name = n := hname
    obtain rfl : found = link := Option.some.inj (hinner.symm.trans hlink)
    obtain ⟨steps, hsteps, rfl⟩ := ih hselect hrest
    refine ⟨(table, found) :: steps, Schema.linksAlong?_cons_iff.2 ?_, rfl⟩
    exact ⟨found, target, steps, hfound, htarget, hsteps, rfl⟩

/-- The links that an outline includes are found in its select. -/
theorem exists_linksAlong?_of_includes {names : List String} (houtline : outline.IsDistinct)
    (hs : outline.select schema table correlation asName extra = .ok s)
    (h : outline.Includes names) : ∃ links, s.linksAlong? names = some links := by
  induction names generalizing outline table correlation asName extra s with
  | nil => exact ⟨[], rfl⟩
  | cons name names ih =>
    obtain ⟨demanded, behind, hmem, hnames⟩ := h
    have hsubs := forall₂_subqueries hs
    obtain ⟨⟨n, d, inner⟩, hsub, hname, link, target, -, -, hlink, _, _, hselect⟩ :=
      exists_right_of_forall₂ hsubs hmem
    obtain ⟨columns, condition, included, required⟩ := outline
    obtain ⟨rest, hrest⟩ := ih (areDistinct_iff.1 houtline.2.2 _ hmem) hselect hnames
    -- no other subquery has the name, as no link is included twice
    have hkeys : s.subqueries.map (·.1) = included.map (·.1) := by
      rw [← List.forall₂_eq_eq_eq, List.forall₂_map_left_iff, List.forall₂_map_right_iff]
      exact hsubs.flip.imp fun _ _ hstands => hstands.1
    have hcount : (s.subqueries.map (·.1)).count name = 1 := by
      rw [hkeys]
      exact List.count_eq_one_of_mem houtline.1 (List.mem_map.2 ⟨_, hmem, rfl⟩)
    obtain rfl : n = name := hname
    exact ⟨link :: rest, Select.linksAlong?_cons_iff.2
      ⟨d, inner, link, rest, lookup_of_count_eq_one hsub hcount, hlink, hrest, rfl⟩⟩

mutual

/-- **An outline has a select** if the links that it includes lead from table to table. -/
theorem exists_select {table : Table} {outline : Outline} (h : ∀ names, outline.Includes names →
      ∃ steps, schema.linksAlong? names table = some steps)
    (correlation : Option Correlation) (asName : Option String) (extra : List String) :
    ∃ s, outline.select schema table correlation asName extra = .ok s := by
  match outline with
  | ⟨columns, condition, links, demanded⟩ =>
    -- the level is written once its links are
    obtain ⟨inner, hinner⟩ := exists_selectLinks links
      (fun name flag behind hmem names hnames => h (name :: names) ⟨flag, behind, hmem, hnames⟩)
      (asName.getD table.name)
    exact ⟨_, bind_eq_ok_iff.2 ⟨inner, hinner, rfl⟩⟩

theorem exists_selectLinks {table : Table} (links : List (String × Bool × Outline))
    (h : ∀ name flag behind, (name, flag, behind) ∈ links → ∀ names, behind.Includes names →
      ∃ steps, schema.linksAlong? (name :: names) table = some steps) (visible : String) :
    ∃ inner, selectLinks schema table visible links = .ok inner := by
  match links with
  | [] => exact ⟨[], rfl⟩
  | (name, flag, behind) :: rest =>
    -- the name alone leads to a table, and from there lead the names behind it
    obtain ⟨steps, hsteps⟩ := h name flag behind List.mem_cons_self [] True.intro
    obtain ⟨link, target, -, hlink, htarget, -, -⟩ := Schema.linksAlong?_cons_iff.1 hsteps
    have hbehind : ∀ names, behind.Includes names →
        ∃ steps, schema.linksAlong? names target = some steps := by
      intro names hnames
      obtain ⟨steps, hsteps⟩ := h name flag behind List.mem_cons_self names hnames
      obtain ⟨link', target', rest, hlink', htarget', hrest, -⟩ :=
        Schema.linksAlong?_cons_iff.1 hsteps
      obtain rfl := Option.some.inj (hlink.symm.trans hlink')
      obtain rfl := Option.some.inj (htarget.symm.trans htarget')
      exact ⟨rest, hrest⟩
    obtain ⟨inner, hinner⟩ := exists_select hbehind
      (some ⟨link.targetColumn, visible, link.localColumn⟩)
      (if target.name = visible then some (selfLinkAlias name visible) else none) []
    obtain ⟨others, hothers⟩ := exists_selectLinks rest
      (fun n f b hmem => h n f b (List.mem_cons_of_mem _ hmem)) visible
    refine ⟨(name, flag, inner) :: others, ?_⟩
    rw [selectLinks, hlink]
    exact bind_eq_ok_iff.2 ⟨target, Schema.requireTable_eq_ok_iff.2 htarget,
      bind_eq_ok_iff.2 ⟨inner, hinner, bind_eq_ok_iff.2 ⟨others, hothers, rfl⟩⟩⟩

end

end Outline

/-! ### Statements -/

namespace Sql.SelectStatement

variable {schema : Schema} {tableName : String} {table : Table} {columns : List String}
  {selection : Selection} {filter : Filter} {r : Restriction}
  (htable : schema.requireTable tableName = .ok table)
  (hselection : Selection.ofColumns schema tableName columns = .ok selection)
  (hr : Restriction.ofFilter schema tableName filter = .ok r)

include htable hselection hr

/-- The select of a statement is written if the links of its paths are found again. -/
theorem exists_select
    (hkept : ∀ text ∈ columns, ∀ path whole, ColumnPath.parse text = .ok path →
      schema.linksAlong? path.links table = some whole →
      ∀ step ∈ whole, ¬ step.1.isShadowed step.2) (extra : List String) :
    ∃ s, (Outline.overlay selection r).select schema table none none extra = .ok s := by
  refine Outline.exists_select (fun names hnames => ?_) none none extra
  obtain hnames | hnames :=
    (Outline.includes_overlay_iff (Restriction.isDistinct_ofFilter htable hr)).1 hnames
  · -- the names are the first ones of a path
    obtain rfl | ⟨text, htext, path, whole, hpath, hwhole, hbegins⟩ :=
      (Selection.includes_ofColumns_iff htable hselection).1 hnames
    · exact ⟨[], rfl⟩
    · have hagain := (Schema.linksAlong?_names_iff hwhole).2
        (hkept text htext path whole hpath hwhole)
      rw [List.prefix_iff_eq_take.1 hbegins]
      exact ⟨_, Schema.linksAlong?_take hagain names.length⟩
  · exact Restriction.leads_ofFilter htable hr hnames

/-- The links that a statement fetches rows along are those that are named, unless one of them is
shadowed. -/
theorem linksAlong?_of_build {order : List SortTerm} {limit : Option (Nat × Nat)}
    {s : SelectStatement} (hs : build schema tableName selection r order limit = .ok s)
    {steps : List (Table × Link)} (hsteps : schema.IsNamed columns filter table steps) :
    s.select.linksAlong? (steps.map (·.2.name)) = some (steps.map (·.2)) ↔
      ∀ step ∈ steps, ¬ step.1.isShadowed step.2 := by
  obtain ⟨found, hfound, hselect, -, -⟩ := exists_of_build hs
  obtain rfl := Except.ok.inj (hfound.symm.trans htable)
  obtain ⟨names, hnames⟩ := hsteps.exists_names
  rw [← Schema.linksAlong?_names_iff hnames]
  constructor
  · intro hlinks
    -- the names find the links of the select, and so the same tables
    obtain ⟨steps', hsteps', heq⟩ := Outline.exists_linksAlong?_of_select hselect hlinks
    rw [hsteps', Schema.eq_of_linksAlong? hsteps' hnames heq]
  · intro hagain
    have hincludes := hsteps.includes hfound hselection hr
      ((Schema.linksAlong?_names_iff hnames).1 hagain)
    have houtline := Outline.isDistinct_overlay (Selection.isDistinct_ofColumns hselection)
      (Restriction.isDistinct_ofFilter hfound hr)
    obtain ⟨links, hlinks⟩ := Outline.exists_linksAlong?_of_includes houtline hselect hincludes
    obtain ⟨steps', hsteps', rfl⟩ := Outline.exists_linksAlong?_of_select hselect hlinks
    obtain rfl := Option.some.inj (hsteps'.symm.trans hagain)
    exact hlinks

end Sql.SelectStatement

/-! ### Queries -/

namespace Query

variable {q : Query} {table : Table} {steps : List (Table × Link)}

/-- The links that a query names in a path or in a filter, one behind the other. A path that leads
out of the schema is passed over, and so is a filter that says nothing. -/
def NamesLinks (q : Query) (table : Table) (steps : List (Table × Link)) : Prop :=
  (∃ text ∈ q.columns.getD [], ∃ path whole, ColumnPath.parse text = .ok path ∧
    q.schema.linksAlong? path.links table = some whole ∧ steps <+: whole) ∨
  ∃ filter names, Filter.ofJson q.filterValue = .ok filter ∧ filter.Names names ∧
    q.schema.linksAlong? names table = some steps

/-- What a query names is named by its paths and by the filter that is read. -/
theorem NamesLinks.isNamed (h : q.NamesLinks table steps) {filter : Filter}
    (hfilter : Filter.ofJson q.filterValue = .ok filter) :
    q.schema.IsNamed (q.columns.getD []) filter table steps := by
  refine h.imp id ?_
  rintro ⟨filter', names, hread, hnames, hsteps⟩
  obtain rfl := Except.ok.inj (hread.symm.trans hfilter)
  exact ⟨names, hnames, hsteps⟩

/-- The select of a query is written if the links of its paths are found again. -/
theorem exists_select {selection : Selection} {filter : Filter} {r : Restriction}
    (htable : q.schema.requireTable q.table = .ok table)
    (hselection : Selection.ofColumns q.schema q.table (q.columns.getD []) = .ok selection)
    (hr : Restriction.ofFilter q.schema q.table filter = .ok r)
    (hkept : ∀ steps, q.NamesLinks table steps → ∀ step ∈ steps, ¬ step.1.isShadowed step.2)
    (extra : List String) :
    ∃ s, (Outline.overlay selection r).select q.schema table none none extra = .ok s := by
  refine SelectStatement.exists_select htable hselection hr ?_ extra
  intro text htext path whole hpath hwhole
  exact hkept whole (.inl ⟨text, htext, path, whole, hpath, hwhole, List.prefix_rfl⟩)

/-- The links that a statement fetches rows along are those that the query names, unless one of them
is shadowed. -/
theorem linksAlong?_of_build {order : List SortTerm} {limit : Option (Nat × Nat)}
    {s : SelectStatement} (htable : q.schema.table? q.table = some table)
    (hs : q.build order limit = .ok s) (hsteps : q.NamesLinks table steps) :
    s.select.linksAlong? (steps.map (·.2.name)) = some (steps.map (·.2)) ↔
      ∀ step ∈ steps, ¬ step.1.isShadowed step.2 := by
  obtain ⟨selection, filter, r, hselection, hfilter, hr, hs⟩ := exists_of_build hs
  exact SelectStatement.linksAlong?_of_build (Schema.requireTable_eq_ok_iff.2 htable) hselection hr
    hs (hsteps.isNamed hfilter)

/-- **Links are kept under their own names unless they are shadowed.** On any table a link is found
again under its name just if it is not shadowed, and the name of a link stands for a link of this
name just if its column is not blocked. A statement fetches rows along the links that the query
names in paths and filters just if none of them is shadowed. If no link that the query names is
shadowed, none is missed when its select is written. -/
theorem names_kept_iff (q : Query) {table : Table} (htable : q.schema.table? q.table = some table) :
    (∀ (t : Table) name link, t.link? name = some link →
      (t.link? link.name = some link ↔ ¬ t.isShadowed link)) ∧
    (∀ t : Table, ∀ name ∈ t.linkNames,
      ((∃ link, t.link? name = some link ∧ link.name = name) ↔ ¬ t.isBlocked name)) ∧
    (∀ order limit s, q.build order limit = .ok s → ∀ steps, q.NamesLinks table steps →
      (s.select.linksAlong? (steps.map (·.2.name)) = some (steps.map (·.2)) ↔
        ∀ step ∈ steps, ¬ step.1.isShadowed step.2)) ∧
    ((∀ steps, q.NamesLinks table steps → ∀ step ∈ steps, ¬ step.1.isShadowed step.2) →
      ∀ selection filter r,
        Selection.ofColumns q.schema q.table (q.columns.getD []) = .ok selection →
        Restriction.ofFilter q.schema q.table filter = .ok r →
        ∀ extra, ∃ s,
          (Outline.overlay selection r).select q.schema table none none extra = .ok s) := by
  refine ⟨fun t name link hlink => Table.link?_name_iff hlink,
    fun t name hname => Table.exists_link?_iff hname,
    fun order limit s hs steps hsteps => linksAlong?_of_build htable hs hsteps, ?_⟩
  intro hkept selection filter r hselection hr extra
  exact exists_select (Schema.requireTable_eq_ok_iff.2 htable) hselection hr hkept extra

/-! ### Two keys over one column -/

/-- Teams whose owner is an administrator by one foreign key and a user by another one, and whose
lead is a user. -/
def ownedTwice : Schema :=
  ⟨[(Table.named "teams").addPrimaryKey "xata_id" "text" |>.addColumn "owner" "link"
      |>.addForeignKey ⟨"a_fkey", ["owner"], "admins", ["xata_id"], .setNull⟩
      |>.addForeignKey ⟨"b_fkey", ["owner"], "users", ["xata_id"], .setNull⟩
      |>.addLink "lead" "users",
    (Table.named "admins").addPrimaryKey "xata_id" "text",
    (Table.named "users").addPrimaryKey "xata_id" "text" |>.addColumn "full_name" "text"]⟩

/-- The lead is found by the constraint and kept under the column. -/
theorem names_kept_iff_lead :
    let q := (Query.new ownedTwice "teams").select ["teams_lead_fkey.full_name"]
    let teams := ownedTwice.tables[0]
    let lead : Link := ⟨"lead", "users", "xata_id"⟩
    teams.link? lead.name = some lead ∧
      (∃ link, teams.link? "owner" = some link ∧ link.name = "owner") ∧
      (∃ s, q.build [] none = .ok s ∧ s.select.linksAlong? ["lead"] = some [lead]) ∧
      ∃ selection filter r,
        Selection.ofColumns ownedTwice "teams" ["teams_lead_fkey.full_name"] = .ok selection ∧
        Restriction.ofFilter ownedTwice "teams" filter = .ok r ∧ ∀ extra, ∃ s,
          (Outline.overlay selection r).select ownedTwice teams none none extra = .ok s := by
  intro q teams lead
  have hparse : ColumnPath.parse "teams_lead_fkey.full_name" =
      .ok ⟨["teams_lead_fkey"], .column "full_name"⟩ := by decide +kernel
  have hwhole : ownedTwice.linksAlong? ["teams_lead_fkey"] teams = some [(teams, lead)] := by
    decide +kernel
  have hshadowed : teams.isShadowed lead = false := by decide +kernel
  have hread : Filter.ofJson q.filterValue = .ok (.group .all []) := rfl
  obtain ⟨hname, hnames, hbuilt, hwritten⟩ := names_kept_iff q (show _ = some teams from rfl)
  have hnamed : q.NamesLinks teams [(teams, lead)] :=
    .inl ⟨_, List.mem_singleton.2 rfl, _, _, hparse, hwhole, List.prefix_rfl⟩
  have hkept : ∀ steps, q.NamesLinks teams steps → ∀ step ∈ steps, ¬ step.1.isShadowed step.2 := by
    rintro steps (⟨text, htext, path, whole, hpath, hsteps, hbegins⟩ |
      ⟨filter, names, hfilter, hfilters, -⟩)
    · -- the only path leads along the link of the lead
      obtain rfl := List.mem_singleton.1 htext
      obtain rfl := Except.ok.inj (hparse.symm.trans hpath)
      obtain rfl := Option.some.inj (hwhole.symm.trans hsteps)
      intro step hstep
      obtain rfl := List.mem_singleton.1 (hbegins.subset hstep)
      simp [hshadowed]
    · -- there is no filter
      obtain rfl := Except.ok.inj (hread.symm.trans hfilter)
      exact absurd hfilters.isSilent_eq_false (by decide)
  obtain ⟨s, hs⟩ := fault?_eq_none_iff.1 (show fault? (q.build [] none) = none by decide +kernel)
  obtain ⟨selection, filter, r, hselection, -, hr, -⟩ := exists_of_build hs
  exact ⟨(hname teams "teams_lead_fkey" lead (by decide +kernel)).2 (by simp [hshadowed]),
    (hnames teams "owner" (by decide +kernel)).2 (by decide +kernel),
    ⟨s, hs, (hbuilt [] none s hs _ hnamed).2 (hkept _ hnamed)⟩,
    selection, filter, r, hselection, hr, hwritten hkept selection filter r hselection hr⟩

/-- **The second key over a column is not kept.** It is found by its constraint and leads to the
users, where the path is checked. The statement fetches the rows of the administrators, which have
no such column. -/
theorem second_key_not_kept :
    let q := (Query.new ownedTwice "teams").select ["b_fkey.full_name"]
    let teams := ownedTwice.tables[0]
    let user : Link := ⟨"owner", "users", "xata_id"⟩
    let admin : Link := ⟨"owner", "admins", "xata_id"⟩
    teams.link? "b_fkey" = some user ∧ teams.link? user.name = some admin ∧
      (q.build [] none).toOption.bind (·.select.linksAlong? ["owner"]) = some [admin] ∧
      (ownedTwice.tables[1].column? "full_name").isNone := by
  decide +kernel

end Query

end LinkQuery
