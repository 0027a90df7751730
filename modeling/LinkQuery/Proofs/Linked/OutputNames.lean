import LinkQuery.Proofs.Linked.OwnColumns
import LinkQuery.Proofs.Page.Pageable

/-!
# Names of what is delivered

A level delivers its own columns and its links side by side under one set of names: they become the
members of an object, a test looks a link up among them, and the order looks its columns up. A name
that is there twice has no definite meaning in any of these places.

The own columns are distinct and so are the links, as both are collected without repetition. A
column with the name of a link is left out, with one exception: the primary key is put in front
without asking whether a link has its name. So it is the only name that can be there twice, and it
is there twice just where it is itself a link that is selected or behind which something is
demanded.

* `Outline.nodup_outputs_iff` and `Outline.count_outputs_le_one` are about one level of a declared
  table.
* `Outline.includes_concat_iff`: the links of a level are those that the selection and the
  restriction include behind the links that lead to it.
* `Sql.SelectStatement.outputs_of_build` is about all levels of a statement.
-/

namespace LinkQuery

open Sql

/-! ### One level -/

namespace Table

/-- Of what a level is asked for, only the primary key can have the name of a link. -/
theorem eq_primaryKey_of_mem_asked {table : Table} {requested links : List String} {name : String}
    (h : name ∈ table.asked requested links) (hlink : name ∈ links) : name = table.primaryKey := by
  cases h with
  | head => rfl
  | tail _ h => exact absurd hlink (by simpa using (List.mem_filter.1 h).2)

theorem primaryKey_mem_asked (table : Table) (requested links : List String) :
    table.primaryKey ∈ table.asked requested links :=
  List.mem_cons_self

end Table

namespace Outline

variable {schema : Schema} {table : Table} {outline : Outline} {correlation : Option Correlation}
  {asName : Option String} {extra : List String} {s : Select}

theorem map_fst_subqueries (hs : outline.select schema table correlation asName extra = .ok s) :
    s.subqueries.map (·.1) = outline.linkNames := by
  obtain ⟨inner, hinner, rfl⟩ := exists_of_select hs
  rw [subqueries_enclose, Select.subqueries, map_fst_selectLinks hinner]
  rfl

theorem IsDistinct.nodup_linkNames (h : outline.IsDistinct) : outline.linkNames.Nodup := by
  cases outline
  exact h.1

theorem IsDistinct.mem_linkNames_of_mem_demanded (h : outline.IsDistinct) {name : String}
    (hname : name ∈ outline.demanded) : name ∈ outline.linkNames := by
  cases outline
  exact h.2.1 name hname

variable (hopen : ¬ table.isOpen) (h : outline.IsDistinct)
  (hs : outline.select schema table correlation asName extra = .ok s) (db : Database)

include hopen h hs

/-- A level of a declared table delivers two lists of names. Neither has a name twice, and all that
they can share is the primary key, which is in the first. -/
theorem exists_outputs_eq :
    ∃ own, s.outputs db = own ++ outline.linkNames ∧ own.Nodup ∧ outline.linkNames.Nodup ∧
      table.primaryKey ∈ own ∧ ∀ name ∈ own, name ∈ outline.linkNames →
        name = table.primaryKey := by
  obtain ⟨own, hcolumns, hfirst⟩ := isFirstOccurrences_ownColumns (Bool.eq_false_iff.2 hopen) hs
  have houtputs := Select.outputs_eq_of_columns hcolumns db
  rw [map_fst_subqueries hs] at houtputs hfirst
  refine ⟨own, houtputs, hfirst.nodup, h.nodup_linkNames, ?_, fun name hown hlink => ?_⟩
  · exact (hfirst.mem_iff _).2 (table.primaryKey_mem_asked _ _)
  · exact Table.eq_primaryKey_of_mem_asked ((hfirst.mem_iff name).1 hown) hlink

/-- **What a level delivers is distinct** unless the primary key is a link of it. -/
theorem nodup_outputs_iff : (s.outputs db).Nodup ↔ table.primaryKey ∉ outline.linkNames := by
  obtain ⟨own, houtputs, hown, hlinks, hkey, hshared⟩ := exists_outputs_eq hopen h hs db
  rw [houtputs, List.nodup_append]
  constructor
  · rintro ⟨-, -, hdisjoint⟩ hlink
    exact hdisjoint _ hkey _ hlink rfl
  · intro hfree
    refine ⟨hown, hlinks, fun name hname name' hname' heq => ?_⟩
    obtain rfl := heq
    exact hfree (hshared name hname hname' ▸ hname')

/-- How often a name is delivered. -/
theorem count_outputs (name : String) : (s.outputs db).count name ≤ 1 ∨
    (s.outputs db).count name = 2 ∧ name = table.primaryKey ∧ name ∈ outline.linkNames := by
  obtain ⟨own, houtputs, hown, hlinks, -, hshared⟩ := exists_outputs_eq hopen h hs db
  rw [houtputs, List.count_append, hown.count, hlinks.count]
  -- only a name in both lists counts twice
  by_cases hcolumn : name ∈ own <;> by_cases hlink : name ∈ outline.linkNames
  · exact .inr ⟨by rw [if_pos hcolumn, if_pos hlink], hshared name hcolumn hlink, hlink⟩
  all_goals simp [hcolumn, hlink]

theorem count_outputs_le_one {name : String} (hname : name ≠ table.primaryKey) :
    (s.outputs db).count name ≤ 1 :=
  (count_outputs hopen h hs db name).resolve_right fun htwice => hname htwice.2.1

/-- A link has its name for itself unless it is the primary key. -/
theorem count_outputs_eq_one_iff {name : String} (hname : name ∈ outline.linkNames) :
    (s.outputs db).count name = 1 ↔ name ≠ table.primaryKey := by
  obtain ⟨own, houtputs, hown, hlinks, hkey, hshared⟩ := exists_outputs_eq hopen h hs db
  rw [houtputs, List.count_append, hown.count, hlinks.count, if_pos hname]
  by_cases hcolumn : name ∈ own
  · rw [if_pos hcolumn]
    exact iff_of_false (by decide) fun hne => hne (hshared name hcolumn hname)
  · rw [if_neg hcolumn]
    exact iff_of_true rfl fun heq => hcolumn (heq ▸ hkey)

end Outline

/-! ### Levels behind links -/

namespace Outline

/-- Behind the links of an outline no link is included twice either. -/
theorem IsDistinct.of_nests {outline part : Outline} {names : List String} (h : outline.IsDistinct)
    (hpart : outline.Nests names part) : part.IsDistinct := by
  induction names generalizing outline with
  | nil => exact hpart ▸ h
  | cons name names ih =>
    obtain ⟨demanded, behind, hmem, hpart⟩ := hpart
    cases outline
    exact ih (areDistinct_iff.1 h.2.2 _ hmem) hpart

/-- The links of a part are what the outline includes one link further. -/
theorem includes_concat_iff {outline part : Outline} {names : List String} (h : outline.IsDistinct)
    (hpart : outline.Nests names part) (name : String) :
    outline.Includes (names ++ [name]) ↔ name ∈ part.linkNames := by
  induction names generalizing outline with
  | nil =>
    obtain rfl : outline = part := hpart
    simp [Includes, linkNames]
  | cons first names ih =>
    obtain ⟨demanded, behind, hmem, hpart⟩ := hpart
    have hbehind : behind.IsDistinct := by
      cases outline
      exact areDistinct_iff.1 h.2.2 _ hmem
    rw [← ih hbehind hpart, List.cons_append]
    constructor
    · rintro ⟨demanded', behind', hmem', hincludes⟩
      -- no other link has the name
      obtain ⟨-, rfl⟩ := Prod.mk.inj
        (Prod.mk.inj (List.inj_on_of_nodup_map h.nodup_linkNames hmem hmem' rfl)).2
      exact hincludes
    · intro hincludes
      exact ⟨demanded, behind, hmem, hincludes⟩

end Outline

/-! ### Tests -/

/-- The links that a select is tested for are there once in one that is clear. -/
theorem Sql.Select.count_eq_one_of_isClear {db : Database} {s : Select} (h : s.isClear db)
    {name : String} (hname : name ∈ s.tested) : (s.outputs db).count name = 1 := by
  induction s using Select.tested.induct with
  | case1 => cases hname
  | case2 inner link ih =>
    obtain ⟨hinner, hcount⟩ := (Bool.and_eq_true _ _).mp h
    rcases List.mem_append.1 hname with hname | hname
    · exact ih hinner hname
    · obtain rfl := List.mem_singleton.1 hname
      exact beq_iff_eq.1 hcount

/-! ### Statements -/

namespace Sql.SelectStatement

/-- **Which names are delivered twice.** Let paths and a filter have a statement in some order.
Every level of it is one on the table that links lead to. If that has declared columns, then

* the names that the level delivers are distinct just if the primary key is no link that is
  selected, or behind which something is demanded, one link further;
* no other name is delivered twice;
* a link that the level is tested for has its name for itself just if it is not the primary key.

At the top of a declared table, no column by which the statement is ordered is delivered twice. -/
theorem outputs_of_build {schema : Schema} {tableName : String} {paths : List String}
    {filter : Filter}
    {selection : Selection} {r : Restriction} {order : List SortTerm} {limit : Option (Nat × Nat)}
    {s : SelectStatement} (hselection : Selection.ofColumns schema tableName paths = .ok selection)
    (hr : Restriction.ofFilter schema tableName filter = .ok r)
    (hs : build schema tableName selection r order limit = .ok s) :
    ∃ table, schema.table? tableName = some table ∧
      (∀ names sub, s.select.Nests names sub → ∃ target,
        schema.tableAlong? names table = some target ∧
        (¬ target.isOpen → ∀ db,
          ((sub.outputs db).Nodup ↔ ¬ (selection.Includes (names ++ [target.primaryKey]) ∨
            r.Includes (names ++ [target.primaryKey]))) ∧
          (∀ name, name ≠ target.primaryKey → (sub.outputs db).count name ≤ 1) ∧
          ∀ name ∈ sub.tested, (sub.outputs db).count name = 1 ↔ name ≠ target.primaryKey)) ∧
      (¬ table.isOpen → ∀ term ∈ order, ¬ term.isRandom →
        ∀ db, (s.select.outputs db).count term.column ≤ 1) := by
  obtain ⟨table, htable, hselect, -, -⟩ := exists_of_build hs
  have hfound := Schema.requireTable_eq_ok_iff.1 htable
  have hrestriction := Restriction.isDistinct_ofFilter htable hr
  have hdistinct : (Outline.overlay selection r).IsDistinct := by
    obtain ⟨_, -, hpaths⟩ := bind_eq_ok_iff.1 hselection
    exact Outline.isDistinct_overlay (Selection.isDistinct_ofPaths hpaths) hrestriction
  refine ⟨table, hfound, fun names sub hsub => ?_, fun hopen term hterm hordered db => ?_⟩
  · obtain ⟨target, part, -, correlation, asName, htarget, hpart, -, -, hlevel⟩ :=
      exists_level_of_nests hs hfound hsub
    have hbehind := hdistinct.of_nests hpart
    refine ⟨target, htarget, fun hopen db => ⟨?_, ?_, fun name hname => ?_⟩⟩
    · rw [Outline.nodup_outputs_iff hopen hbehind hlevel,
        ← Outline.includes_concat_iff hdistinct hpart, Outline.includes_overlay_iff hrestriction]
    · intro name hname
      exact Outline.count_outputs_le_one hopen hbehind hlevel db hname
    · rw [Outline.tested_select hlevel] at hname
      exact Outline.count_outputs_eq_one_iff hopen hbehind hlevel db
        (hbehind.mem_linkNames_of_mem_demanded hname)
  · -- a term is refused if its column is a link of the top
    have hfree := not_mem_subqueries_of_order hs hterm hordered
    rw [Outline.map_fst_subqueries hselect] at hfree
    exact (Outline.count_outputs hopen hdistinct hselect db term.column).resolve_right
      fun htwice => hfree htwice.2.2

/-- **A name that is delivered twice.** The key of a profile refers to its user. If the name of the
user is selected, then the key and the user stand side by side under one name. So they do if
profiles are filtered by the name of the user, and a statement that tests for the user is refused.
-/
theorem key_delivered_beside_its_link :
    let profiles := Query.new Query.profilesOfUsers "profiles"
    let selected := profiles.select ["xata_id.full_name"]
    let filtered := profiles.addFilter (.object [("xata_id.full_name", .text "Ada")])
    (∀ table ∈ Query.profilesOfUsers.tables, ¬ table.isOpen) ∧
      (selected.compile =
        .ok ⟨"select \"xata_id\", (select to_json(obj) from (select \"xata_id\", " ++
          "\"full_name\" from \"users\" where \"xata_id\" = \"profiles\".\"xata_id\") as obj) " ++
          "as \"xata_id\" from \"profiles\"", []⟩ ∧
        ∃ s, selected.build [] none = .ok s ∧ ∀ db, ¬ (s.select.outputs db).Nodup) ∧
      filtered.compile =
        .ok ⟨"select * from (select \"xata_id\", (select to_json(obj) from (select " ++
          "\"xata_id\" from \"users\" where \"xata_id\" = \"profiles\".\"xata_id\" and " ++
          "\"full_name\" = $1) as obj where obj is not null) as \"xata_id\" from \"profiles\") " ++
          "as \"tmp\" where \"tmp\".\"xata_id\" is not null", [.text "Ada"]⟩ ∧
        ∃ s, filtered.build [] none = .ok s ∧ ∀ db, ¬ s.select.isClear db := by
  intro profiles selected filtered
  -- whichever of the two it is, the level delivers the key and the link
  have houtputs : ∀ q : Query, (q.build [] none).toOption.map (fun s =>
      (s.select.columns, s.select.subqueries.map (·.1))) = some ([.column "xata_id"], ["xata_id"]) →
      ∃ s, q.build [] none = .ok s ∧ ∀ db, s.select.outputs db = ["xata_id", "xata_id"] := by
    intro q hq
    obtain ⟨s, hs, heq⟩ := Option.map_eq_some_iff.1 hq
    obtain ⟨hcolumns, hlinks⟩ := Prod.mk.inj heq
    refine ⟨s, toOption_eq_some_iff.1 hs, fun db => ?_⟩
    have hown : s.select.columns = ["xata_id"].map .column := hcolumns
    rw [Select.outputs_eq_of_columns hown, hlinks]
    rfl
  obtain ⟨s, hs, hselected⟩ := houtputs selected (by decide +kernel)
  obtain ⟨s', hs', hfiltered⟩ := houtputs filtered (by decide +kernel)
  have htested : s'.select.tested = ["xata_id"] :=
    eq_of_map_toOption (f := (·.select.tested)) hs' (by decide +kernel)
  refine ⟨by decide +kernel, ⟨by decide +kernel, s, hs, fun db => ?_⟩, by decide +kernel, s', hs',
    fun db hclear => ?_⟩
  · rw [hselected db]
    decide
  · have hcount := Select.count_eq_one_of_isClear hclear (htested ▸ List.mem_singleton.2 rfl)
    rw [hfiltered db] at hcount
    exact absurd hcount (by decide)

/-- The owner of a team is selected and its lead is filtered. What is delivered is distinct, and the
test for the lead is of one column. -/
theorem outputs_of_build_owner_and_lead :
    let q := ((Query.new ownedAndLed "teams").select ["*", "owner.full_name"]).addFilter
      (.object [("lead.full_name", .text "Ada")])
    ∃ s, q.build [.desc "xata_id"] none = .ok s ∧ s.select.tested = ["lead"] ∧
      ∀ db, (s.select.outputs db).Nodup ∧ (s.select.outputs db).count "lead" = 1 := by
  intro q
  obtain ⟨s, hs⟩ : ∃ s, q.build [.desc "xata_id"] none = .ok s :=
    fault?_eq_none_iff.1 (by decide +kernel)
  have htested : s.select.tested = ["lead"] :=
    eq_of_map_toOption (f := (·.select.tested)) hs (by decide +kernel)
  obtain ⟨selection, filter, r, hselection, hfilter, hr, hbuild⟩ := Query.exists_of_build hs
  have hselected : selection.links.map (·.1) = ["owner"] :=
    eq_of_map_toOption (f := fun selection => selection.links.map (·.1)) hselection
      (by decide +kernel)
  have heffective : r.effectiveLinks.map (·.1) = ["lead"] := by
    have hcompiled : (Filter.ofJson q.filterValue >>= Restriction.ofFilter q.schema q.table) =
        .ok r :=
      bind_eq_ok_iff.2 ⟨filter, hfilter, hr⟩
    refine eq_of_map_toOption (f := fun r => r.effectiveLinks.map (·.1)) hcompiled ?_
    decide +kernel
  -- the key is neither the owner nor the lead
  have hfree : ¬ (selection.Includes ["xata_id"] ∨ r.Includes ["xata_id"]) := by
    rintro (⟨sub, hlink, -⟩ | ⟨sub, hlink, -⟩)
    · have hname : "xata_id" ∈ selection.links.map (·.1) := List.mem_map.2 ⟨_, hlink, rfl⟩
      rw [hselected] at hname
      exact absurd hname (by decide)
    · have hname : "xata_id" ∈ r.effectiveLinks.map (·.1) := List.mem_map.2 ⟨_, hlink, rfl⟩
      rw [heffective] at hname
      exact absurd hname (by decide)
  obtain ⟨teams, hteams, hlevels, -⟩ := outputs_of_build hselection hr hbuild
  obtain rfl : ownedAndLed.tables[0] = teams := Option.some.inj hteams
  obtain ⟨target, htarget, hnames⟩ := hlevels [] s.select rfl
  obtain rfl := Option.some.inj htarget
  refine ⟨s, hs, htested, fun db => ?_⟩
  obtain ⟨hnodup, -, htests⟩ := hnames (by decide) db
  exact ⟨hnodup.2 hfree, (htests "lead" (htested ▸ List.mem_singleton.2 rfl)).2 (by decide)⟩

end Sql.SelectStatement

end LinkQuery
