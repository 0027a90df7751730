import LinkQuery.Proofs.Linked.Kept
import LinkQuery.Proofs.Linked.Order

/-!
# What resolves can be written

A query is resolved before its statement is written: its paths become a selection, its filter a
restriction, and every name in them is looked up. The two only carry the canonical names of the
links, so the writer looks these up again, level by level, and each lookup may fail or find
something else.

It does neither over a schema in which no two foreign keys of a table are over the same column.
There no link is shadowed, so the names of a path or of a filter and their canonical names lead
along the same links. What is left to fail is the order.

* `Schema.HasSingleKeys` says that no two foreign keys of a table are over the same single column.
* `Restriction.exists_names_of_includes`: links behind which something is demanded are named by the
  filter. This is the converse of `Restriction.includes_ofFilter`.
* `Sql.Select.Nests` are the subqueries of a select, at every depth, and `Outline.exists_of_nests`
  says which links they were written for.
* `Sql.SelectStatement.written_of_resolved` puts it together.
-/

namespace LinkQuery

open Sql

/-! ### Schemas with a single key over each column -/

namespace Schema

/-- No two foreign keys of a table are over the same single column. -/
def HasSingleKeys (schema : Schema) : Prop :=
  ∀ table ∈ schema.tables, ∀ a ∈ table.foreignKeys.values, ∀ b ∈ table.foreignKeys.values,
    a.columns.length = 1 → a.columns = b.columns → a = b

instance (schema : Schema) : Decidable schema.HasSingleKeys :=
  inferInstanceAs (Decidable (∀ table ∈ schema.tables, ∀ a ∈ table.foreignKeys.values,
    ∀ b ∈ table.foreignKeys.values, a.columns.length = 1 → a.columns = b.columns → a = b))

variable {schema : Schema} {table : Table}

theorem HasSingleKeys.not_isShadowed (h : schema.HasSingleKeys) (htable : table ∈ schema.tables)
    {name : String} {link : Link} (hlink : table.link? name = some link) :
    ¬ table.isShadowed link := by
  refine Table.not_isShadowed_of_unique hlink fun a ha b hb hcolumns hcolumns' => ?_
  exact h table htable a ha b hb (by rw [hcolumns]; rfl) (hcolumns.trans hcolumns'.symm)

theorem HasSingleKeys.not_isShadowed_of_mem (h : schema.HasSingleKeys)
    (htable : table ∈ schema.tables) {names : List String} {steps : List (Table × Link)}
    (hsteps : schema.linksAlong? names table = some steps) :
    ∀ step ∈ steps, ¬ step.1.isShadowed step.2 := by
  induction names generalizing table steps with
  | nil =>
    obtain rfl := Option.some.inj hsteps
    simp
  | cons name names ih =>
    obtain ⟨link, target, rest, hlink, htarget, hrest, rfl⟩ := linksAlong?_cons_iff.1 hsteps
    exact List.forall_mem_cons.2
      ⟨h.not_isShadowed htable hlink, ih (mem_tables_of_table? htarget) hrest⟩

end Schema

/-! ### What a restriction includes is named by the filter -/

namespace Restriction

variable {schema : Schema} {tableName : String} {table : Table} {filter : Filter} {r : Restriction}

theorem isTrivial_eq_false_of_mem_effectiveLinks {link : String × Restriction}
    (h : link ∈ r.effectiveLinks) : r.isTrivial = false := by
  obtain ⟨own, links⟩ := r
  obtain ⟨hmem, hdemanded⟩ := List.mem_filter.1 h
  refine Bool.eq_false_iff.2 fun htrivial => ?_
  rw [isTrivial, Bool.and_eq_true, areTrivial_iff] at htrivial
  simp [htrivial.2 link hmem] at hdemanded

/-- **Links behind which something is demanded are named by the filter**, perhaps under other names.
-/
theorem exists_names_of_includes (hschema : schema.HasSingleKeys)
    (htable : schema.requireTable tableName = .ok table)
    (h : ofFilter schema tableName filter = .ok r) {names : List String} (hnames : r.Includes names)
    (hdemanded : r.isTrivial = false) :
    ∃ named steps, filter.Names named ∧ schema.linksAlong? named table = some steps ∧
      steps.map (·.2.name) = names := by
  -- something is demanded only behind links whose filters are not silent
  suffices (r.isTrivial ↔ filter.isSilent) ∧ (table ∈ schema.tables → ∀ names, r.Includes names →
      r.isTrivial = false → ∃ named steps, filter.Names named ∧
        schema.linksAlong? named table = some steps ∧ steps.map (·.2.name) = names) from
    this.2 (Schema.mem_tables_of_table? (Schema.requireTable_eq_ok_iff.1 htable)) names hnames
      hdemanded
  refine ofFilter_induction (motive := fun table filter r => (r.isTrivial ↔ filter.isSilent) ∧
    (table ∈ schema.tables → ∀ names, r.Includes names → r.isTrivial = false →
      ∃ named steps, filter.Names named ∧ schema.linksAlong? named table = some steps ∧
        steps.map (·.2.name) = names)) ?_ htable h
  intro table filter own links hown hlinks
  have hsilent := isTrivial_iff_of_standsBehind (fun _ _ _ h => h.1) hown hlinks
  refine ⟨hsilent, fun hmem names hnames hdemanded => ?_⟩
  cases names with
  | nil =>
    refine ⟨[], [], .here (Bool.eq_false_iff.2 fun hall => ?_), rfl, rfl⟩
    rw [hsilent.2 hall] at hdemanded
    exact Bool.noConfusion hdemanded
  | cons name names =>
    obtain ⟨sub, hsub, hnames⟩ := hnames
    obtain ⟨hlink, hbehind⟩ := List.mem_filter.1 hsub
    obtain ⟨group, hgroup, hname, key, target, hkey, htarget, -, hleads⟩ :=
      exists_group_of_mem hlinks hlink
    obtain ⟨named, steps, hconjunction, hsteps, rfl⟩ :=
      hleads (Schema.mem_tables_of_table? htarget) names hnames (by simpa using hbehind)
    obtain ⟨behind, hgrouped, hnamed⟩ := hconjunction.exists_of_conjunction
    obtain ⟨written, found, hfilters, hfound, hcanonical⟩ :=
      Filter.exists_of_mem_linkGroups hgroup hgrouped
    -- the filter was read on the table behind its own link, which the canonical name finds again
    have hagain := (Table.link?_name_iff hfound).2 (hschema.not_isShadowed hmem hfound)
    have hentry : name = found.name := hname.trans hcanonical.symm
    obtain rfl : found = key := by
      refine Option.some.inj (hagain.symm.trans ?_)
      rw [← hentry]
      exact hkey
    exact ⟨written :: named, (table, found) :: steps, .behind hfilters hnamed,
      Schema.linksAlong?_cons_iff.2 ⟨found, target, steps, hfound, htarget, hsteps, rfl⟩,
      congrArg (· :: _) hentry.symm⟩

end Restriction

/-- **What an outline includes is named** by a path or by the filter. -/
theorem Outline.exists_isNamed_of_includes {schema : Schema} (hschema : schema.HasSingleKeys)
    {tableName : String} {table : Table} {columns : List String} {selection : Selection}
    {filter : Filter} {r : Restriction} (htable : schema.requireTable tableName = .ok table)
    (hselection : Selection.ofColumns schema tableName columns = .ok selection)
    (hr : Restriction.ofFilter schema tableName filter = .ok r) {names : List String}
    (hnames : (overlay selection r).Includes names) (hne : names ≠ []) :
    ∃ steps, schema.IsNamed columns filter table steps ∧ steps.map (·.2.name) = names := by
  obtain hnames | hnames :=
    (includes_overlay_iff (Restriction.isDistinct_ofFilter htable hr)).1 hnames
  · -- the first links of a path
    obtain rfl | ⟨text, htext, path, whole, hpath, hwhole, hbegins⟩ :=
      (Selection.includes_ofColumns_iff htable hselection).1 hnames
    · exact absurd rfl hne
    · refine ⟨whole.take names.length,
        .inl ⟨text, htext, path, whole, hpath, hwhole, List.take_prefix _ _⟩, ?_⟩
      rw [List.map_take, ← List.prefix_iff_eq_take.1 hbegins]
  · -- something is demanded behind the first link, and so altogether
    obtain ⟨name, names, rfl⟩ := List.exists_cons_of_ne_nil hne
    obtain ⟨sub, hsub, -⟩ := id hnames
    obtain ⟨named, steps, hnamed, hsteps, hcanonical⟩ :=
      Restriction.exists_names_of_includes hschema htable hr hnames
        (Restriction.isTrivial_eq_false_of_mem_effectiveLinks hsub)
    exact ⟨steps, .inr ⟨named, hnamed, hsteps⟩, hcanonical⟩

/-! ### Subqueries -/

/-- A select has a subquery behind links of the given names, one behind the other. -/
def Sql.Select.Nests : List String → Select → Select → Prop
  | [], s, sub => s = sub
  | name :: names, s, sub =>
    ∃ demanded inner, (name, demanded, inner) ∈ s.subqueries ∧ Nests names inner sub

/-- A subquery of the select of an outline is that of an included link. It was written for the link
that the names lead along last. -/
theorem Outline.exists_of_nests {schema : Schema} {table : Table} {outline : Outline}
    {correlation : Option Correlation} {asName : Option String} {extra : List String}
    {s sub : Select} (hs : outline.select schema table correlation asName extra = .ok s)
    {names : List String} (h : s.Nests names sub) :
    outline.Includes names ∧ ∃ steps, schema.linksAlong? names table = some steps ∧
      sub.link? = (steps.map (·.2)).getLast?.or s.link? := by
  induction names generalizing outline table correlation asName extra s with
  | nil =>
    obtain rfl : s = sub := h
    exact ⟨True.intro, [], rfl, rfl⟩
  | cons name names ih =>
    obtain ⟨demanded, inner, hmem, hinner⟩ := h
    obtain ⟨⟨n, d, behind⟩, hentry, hname, link, target, hlink, htarget, hwritten, _, _, hselect⟩ :=
      exists_left_of_forall₂ (forall₂_subqueries hs) hmem
    obtain rfl : name = n := hname
    obtain ⟨hincludes, steps, hsteps, hsub⟩ := ih hselect hinner
    refine ⟨⟨d, behind, hentry, hincludes⟩, (table, link) :: steps,
      Schema.linksAlong?_cons_iff.2 ⟨link, target, steps, hlink, htarget, hsteps, rfl⟩, ?_⟩
    -- the link of the subquery at hand comes first, so it is the last one only if no other follows
    rw [hsub, hwritten, List.map_cons, List.getLast?_cons]
    cases (steps.map (·.2)).getLast? <;> rfl

/-! ### Statements -/

namespace Sql.SelectStatement

variable {schema : Schema} {tableName : String} {table : Table} {columns : List String}
  {selection : Selection} {filter : Filter} {r : Restriction}

/-- **A subquery was written for a link that is named.** The canonical names lead along the links of
the path or filter, and the last of them is the one that the subquery selects from. -/
theorem exists_isNamed_of_nests (hschema : schema.HasSingleKeys)
    (htable : schema.requireTable tableName = .ok table)
    (hselection : Selection.ofColumns schema tableName columns = .ok selection)
    (hr : Restriction.ofFilter schema tableName filter = .ok r) {order : List SortTerm}
    {limit : Option (Nat × Nat)} {s : SelectStatement}
    (hs : build schema tableName selection r order limit = .ok s) {names : List String}
    {sub : Select} (hne : names ≠ []) (h : s.select.Nests names sub) :
    ∃ steps, schema.IsNamed columns filter table steps ∧ steps.map (·.2.name) = names ∧
      schema.linksAlong? names table = some steps ∧ sub.link? = (steps.map (·.2)).getLast? := by
  obtain ⟨found, hfound, hselect, -, -⟩ := exists_of_build hs
  obtain rfl := Except.ok.inj (hfound.symm.trans htable)
  obtain ⟨hincludes, followed, hfollowed, hsub⟩ := Outline.exists_of_nests hselect h
  obtain ⟨steps, hsteps, rfl⟩ :=
    Outline.exists_isNamed_of_includes hschema hfound hselection hr hincludes hne
  -- no link is shadowed, so the names that lead to the subquery lead along what is named
  obtain ⟨named, hnamed⟩ := hsteps.exists_names
  have hmem := Schema.mem_tables_of_table? (Schema.requireTable_eq_ok_iff.1 hfound)
  have hagain := (Schema.linksAlong?_names_iff hnamed).2 (hschema.not_isShadowed_of_mem hmem hnamed)
  obtain rfl : followed = steps := Option.some.inj (hfollowed.symm.trans hagain)
  refine ⟨followed, hsteps, rfl, hagain, ?_⟩
  -- some link is named, so the select of the whole statement is not the subquery
  obtain ⟨last, hlast⟩ : ∃ last, (followed.map (·.2)).getLast? = some last := by
    refine Option.ne_none_iff_exists'.1 fun hnone => hne ?_
    rw [List.map_eq_nil_iff.1 (List.getLast?_eq_none_iff.1 hnone), List.map_nil]
  rw [hsub, hlast]
  rfl

/-- **What resolves can be written.** If no two foreign keys of a table are over the same column,
then for all paths and every filter that resolve on a table:

* without an order there is a statement;
* a statement fetches rows along all links that are named. Each of its subqueries, however deep, was
  written for a link that is named, where the names lead from table to table as they did when the
  paths and the filter were resolved;
* there is no statement with an order just if the column of a term that is not random is none of the
  table, or is a link that is selected or behind which something is demanded. -/
theorem written_of_resolved (hschema : schema.HasSingleKeys)
    (hselection : Selection.ofColumns schema tableName columns = .ok selection)
    (hr : Restriction.ofFilter schema tableName filter = .ok r) :
    ∃ table, schema.table? tableName = some table ∧
      (∀ limit, ∃ s, build schema tableName selection r [] limit = .ok s) ∧
      (∀ order limit s, build schema tableName selection r order limit = .ok s →
        (∀ steps, schema.IsNamed columns filter table steps →
          s.select.linksAlong? (steps.map (·.2.name)) = some (steps.map (·.2))) ∧
        ∀ names sub, names ≠ [] → s.select.Nests names sub →
          ∃ steps, schema.IsNamed columns filter table steps ∧ steps.map (·.2.name) = names ∧
            schema.linksAlong? names table = some steps ∧
            sub.link? = (steps.map (·.2)).getLast?) ∧
      ∀ order limit, (∃ e, build schema tableName selection r order limit = .error e) ↔
        ∃ term ∈ order, ¬ term.isRandom ∧
          ((∃ fault, table.checkColumn term.column = .error fault) ∨
            (selection.link? term.column).isSome ∨
              ∃ sub, (term.column, sub) ∈ r.links ∧ sub.isTrivial = false) := by
  obtain ⟨table, htable⟩ := Restriction.exists_table_of_ofFilter hr
  have hfound := Schema.requireTable_eq_ok_iff.1 htable
  have hkept : ∀ names steps, schema.linksAlong? names table = some steps →
      ∀ step ∈ steps, ¬ step.1.isShadowed step.2 := fun names steps hsteps =>
    hschema.not_isShadowed_of_mem (Schema.mem_tables_of_table? hfound) hsteps
  have hwritten : ∀ limit, ∃ s, build schema tableName selection r [] limit = .ok s := by
    intro limit
    obtain ⟨select, hselect⟩ := exists_select htable hselection hr
      (fun _ _ path whole _ hwhole => hkept path.links whole hwhole) []
    exact (exists_build_iff_selectLinks hfound).2
      ⟨by simp, Outline.exists_select_iff.1 ⟨_, hselect⟩⟩
  refine ⟨table, hfound, hwritten, fun order limit s hs => ⟨fun steps hsteps => ?_, ?_⟩,
    fun order limit => ?_⟩
  · -- what is named is found in the statement
    obtain ⟨names, hnames⟩ := hsteps.exists_names
    exact (linksAlong?_of_build htable hselection hr hs hsteps).2 (hkept names steps hnames)
  · -- what is found in the statement is named
    intro names sub hne hsub
    exact exists_isNamed_of_nests hschema htable hselection hr hs hne hsub
  · -- only the terms of the order are left to fail
    rw [exists_build_error_iff hfound (hwritten none)]
    exact exists_congr fun term => and_congr_right fun _ => not_orders_iff

/-- Teams with an owner and a lead, who are users. -/
def ownedAndLed : Schema :=
  ⟨[(((Table.named "teams").addPrimaryKey "xata_id" "text").addLink "owner" "users").addLink "lead"
      "users",
    (Table.named "users").addPrimaryKey "xata_id" "text" |>.addColumn "full_name" "text"]⟩

/-- The lead is filtered under the name of the constraint, and its rows are fetched under that of
the column. Teams cannot be ordered by their owner, who is selected. -/
theorem written_of_resolved_owner_and_lead :
    let lead : Link := ⟨"lead", "users", "xata_id"⟩
    let filter := Filter.link "teams_lead_fkey" (.column "full_name" (.compare .eq (.text "Ada")))
    ownedAndLed.HasSingleKeys ∧ ∃ selection r s,
      Selection.ofColumns ownedAndLed "teams" ["owner.full_name"] = .ok selection ∧
      Restriction.ofFilter ownedAndLed "teams" filter = .ok r ∧
      build ownedAndLed "teams" selection r [] none = .ok s ∧
      s.select.linksAlong? ["lead"] = some [lead] ∧
      ∃ e, build ownedAndLed "teams" selection r [.asc "owner"] none = .error e := by
  intro lead filter
  have hkeys : ownedAndLed.HasSingleKeys := by decide +kernel
  have hselected : ((Selection.ofColumns ownedAndLed "teams" ["owner.full_name"]).toOption.bind
      fun selection => selection.link? "owner").isSome := by
    decide +kernel
  obtain ⟨owner, howner⟩ := Option.isSome_iff_exists.1 hselected
  obtain ⟨selection, hselection, howner⟩ := Option.bind_eq_some_iff.1 howner
  rw [toOption_eq_some_iff] at hselection
  obtain ⟨r, hr⟩ := fault?_eq_none_iff.1
    (show fault? (Restriction.ofFilter ownedAndLed "teams" filter) = none by decide +kernel)
  obtain ⟨teams, hteams, hwritten, hlinks, herror⟩ := written_of_resolved hkeys hselection hr
  obtain rfl : ownedAndLed.tables[0] = teams := Option.some.inj hteams
  obtain ⟨s, hs⟩ := hwritten none
  -- the filter names the lead, whom the name of the constraint finds
  have hnamed : ownedAndLed.IsNamed ["owner.full_name"] filter ownedAndLed.tables[0]
      [(ownedAndLed.tables[0], lead)] :=
    .inr ⟨["teams_lead_fkey"], .behind (List.mem_singleton.2 rfl) (.here rfl), by decide +kernel⟩
  refine ⟨hkeys, selection, r, s, hselection, hr, hs, (hlinks [] none s hs).1 _ hnamed, ?_⟩
  refine (herror [.asc "owner"] none).2 ⟨.asc "owner", List.mem_singleton.2 rfl, by decide, ?_⟩
  exact .inr (.inl (Option.isSome_iff_exists.2 ⟨owner, howner⟩))

end Sql.SelectStatement

end LinkQuery
