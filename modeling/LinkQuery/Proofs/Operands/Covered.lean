import LinkQuery.Proofs.Linked.Demands
import LinkQuery.Proofs.Operands.Alike

/-!
# Every operand is a parameter

The parameters of a level come from places of the filter, and so far nothing says that each place is
used: what is mentioned behind a link that leads nowhere would be in no level, and what is in no
level has no parameter. But a filter with such a link is not compiled. So in the statement of a
query every operand is a parameter, and if two filters differ in operands alone, a difference in any
operand is one in the parameters.

* `Mention.mem_params_of_ofFilter`: every operand of a filter that is compiled is in the level of
  its table.
* `Query.exists_covering_places` says of two filters of one form that their parameters come from the
  same places, and that these are all places there are.
-/

namespace LinkQuery

open Json (Value)
open Sql

namespace Mention

/-- An operand stands behind no link, or it is one of those behind a link. -/
theorem mem_own_or_mem_links {ms : List Mention} {value : Value} (h : value ∈ allOperands ms) :
    value ∈ own ms ∨ ∃ name inside, (name, inside) ∈ links ms ∧ value ∈ allOperands inside := by
  -- what is mentioned stands at the top or behind a link, one mention after the other
  induction ms with
  | nil => exact absurd h List.not_mem_nil
  | cons m rest ih =>
    rw [allOperands, List.mem_append] at h
    cases m with
    | operand v =>
      rcases h with h | h
      · obtain rfl := List.mem_singleton.1 h
        exact .inl List.mem_cons_self
      · exact (ih h).imp_left (List.mem_cons_of_mem v)
    | link name inside =>
      rcases h with h | h
      · exact .inr ⟨name, inside, List.mem_cons_self, h⟩
      · refine (ih h).imp_right ?_
        rintro ⟨name', inside', hlink, hvalue⟩
        exact ⟨name', inside', List.mem_cons_of_mem _ hlink, hvalue⟩

/-- What is mentioned behind a link is in the group of the link. -/
theorem exists_mem_groups {table : Table} {ms : List Mention} {name : String}
    {inside : List Mention} {found : Link}
    (hlink : (name, inside) ∈ links ms) (hfound : table.link? name = some found) {value : Value}
    (hvalue : value ∈ allOperands inside) :
    ∃ all, (found.name, all) ∈ groups table ms ∧ value ∈ allOperands all := by
  -- links of different names may have one canonical name, and their mentions are grouped under it
  obtain ⟨group, hgroup, hname, hinside⟩ : ∃ group ∈ groupByName ((links ms).filterMap fun link =>
      (table.link? link.1).map fun found => (found.name, link.2)), group.1 = found.name ∧
      inside ∈ group.2 := by
    refine exists_mem_groupByName (List.mem_filterMap.2 ⟨(name, inside), hlink, ?_⟩)
    rw [hfound, Option.map_some]
  refine ⟨group.2.flatten, List.mem_map.2 ⟨group, hgroup, ?_⟩,
    mem_allOperands_flatten.2 ⟨inside, hinside, hvalue⟩⟩
  rw [← hname]

theorem nodup_map_fst_groups (table : Table) (ms : List Mention) :
    ((groups table ms).map (·.1)).Nodup := by
  rw [groups, List.map_map]
  exact nodup_map_fst_groupByName _

/-- No link behind which something is mentioned is left out of a level. -/
theorem exists_mem_arranged (selection : Selection) {groups : List (String × List Mention)}
    (hnodup : (groups.map (·.1)).Nodup) {name : String} {inside : List Mention}
    (h : (name, inside) ∈ groups) :
    ∃ sub, (name, sub, inside) ∈ arranged selection groups := by
  by_cases hselected : name ∈ selection.links.map (·.1)
  · -- a selected link is found by its name, which is that of one group only
    obtain ⟨⟨_, sub⟩, hsub, rfl⟩ := List.mem_map.1 hselected
    have hcount := List.count_eq_one_of_mem hnodup (List.mem_map_of_mem h)
    have hlookup := lookup_of_count_eq_one h hcount
    refine ⟨sub, List.mem_append_left _ (List.mem_filterMap.2 ⟨_, hsub, ?_⟩)⟩
    exact congrArg (Option.map fun inside => (_, sub, inside)) hlookup
  · -- a link that is only restricted is behind the selected ones, with an empty selection
    refine ⟨.empty, List.mem_append_right _
      (List.mem_map.2 ⟨(name, inside), List.mem_filter.2 ⟨h, ?_⟩, rfl⟩)⟩
    simpa using hselected

/-- With other operands in their places, the same links are mentioned. -/
theorem exists_linkFilter {table : Table} {filter : Filter} {result : Option Condition}
    (h : filter.condition table = .ok result) {ms : List Mention}
    (hms : forest ms = forest filter.mentions)
    {name : String} {inside : List Mention} (hlink : (name, inside) ∈ links ms) :
    ∃ behind, (name, behind) ∈ filter.linkFilters := by
  -- mentions of one form have the same links, in the same order
  have hlinks : (links ms).map (Prod.map id forest) = (links filter.mentions).map
      (Prod.map id forest) := by
    have hforest := congrArg links hms
    rw [forest, forest, links_mapAll, links_mapAll] at hforest
    exact hforest
  have hmem : (name, forest inside) ∈ (links filter.mentions).map (Prod.map id forest) := by
    rw [← hlinks]
    exact List.mem_map_of_mem hlink
  rw [(Filter.params_condition h).2, List.map_map] at hmem
  obtain ⟨⟨_, behind⟩, hbehind, heq⟩ := List.mem_map.1 hmem
  obtain ⟨rfl, -⟩ := Prod.mk.inj heq
  exact ⟨behind, hbehind⟩

/-- With other operands in their places, the same groups are mentioned. -/
theorem exists_linkGroup {table : Table} {filter : Filter} {result : Option Condition}
    (h : filter.condition table = .ok result) {ms : List Mention}
    (hms : forest ms = forest filter.mentions)
    {name : String} {inside : List Mention} (hgroup : (name, inside) ∈ groups table ms) :
    ∃ group ∈ filter.linkGroups table, group.1 = name ∧
      forest inside = forest (Filter.conjunction group.2).mentions := by
  -- so they have the same groups
  have hgroups : (groups table ms).map (Prod.map id forest) =
      (groups table filter.mentions).map (Prod.map id forest) := by
    have hforest := congrArg (groups table) hms
    rw [forest, forest, groups_mapAll, groups_mapAll] at hforest
    exact hforest
  have hmem : (name, forest inside) ∈ (groups table filter.mentions).map (Prod.map id forest) := by
    rw [← hgroups]
    exact List.mem_map_of_mem hgroup
  rw [Filter.groups_mentions h, List.map_map] at hmem
  obtain ⟨group, hmember, heq⟩ := List.mem_map.1 hmem
  obtain ⟨hname, hinside⟩ := Prod.mk.inj heq
  exact ⟨group, hmember, hname, by rw [Filter.mentions_conjunction]; exact hinside.symm⟩

/-- **Every operand of a filter that is compiled is a parameter**, also with other operands in their
places. -/
theorem mem_params_of_ofFilter {schema : Schema} {tableName : String} {table : Table}
    {filter : Filter} {r : Restriction} (htable : schema.requireTable tableName = .ok table)
    (h : Restriction.ofFilter schema tableName filter = .ok r) {ms : List Mention}
    (hms : forest ms = forest filter.mentions) (selection : Selection) {value : Value}
    (hvalue : value ∈ allOperands ms) : value ∈ params schema table selection ms := by
  -- the induction is on the filter, with the mentions free: behind a link they are those of a group
  refine Restriction.ofFilter_induction
    (motive := fun table filter _ => ∀ ms, forest ms = forest filter.mentions → ∀ selection,
      ∀ value ∈ allOperands ms, value ∈ params schema table selection ms)
    ?_ htable h ms hms selection value hvalue
  intro table filter own restricted hown hrestricted ms hms selection value hvalue
  rw [params_eq, List.mem_append, List.mem_flatMap]
  rcases mem_own_or_mem_links hvalue with hvalue | ⟨name, inside, hlink, hvalue⟩
  · -- the operand belongs to the level itself
    exact .inr hvalue
  · -- the link is found, so its group is in the level, and the level behind it has the operand
    obtain ⟨behind, hbehind⟩ := exists_linkFilter hown hms hlink
    obtain ⟨found, hfound⟩ := Filter.exists_link_of_mem_linkFilters hown _ hbehind
    obtain ⟨all, hall, hvalue⟩ := exists_mem_groups hlink hfound hvalue
    obtain ⟨group, hgroup, hname, hforest⟩ := exists_linkGroup hown hms hall
    obtain ⟨_, -, -, key, target, hkey, htarget, ih⟩ := exists_right_of_forall₂ hrestricted hgroup
    obtain ⟨sub, hsub⟩ := exists_mem_arranged selection (nodup_map_fst_groups table ms) hall
    have htarget : schema.behind? table found.name = some target := by
      rw [← hname, Schema.behind?, hkey]
      exact htarget
    refine .inl ⟨(found.name, sub, all), hsub, ?_⟩
    show value ∈ paramsBehind schema table found.name sub all
    rw [paramsBehind, htarget]
    exact ih all hforest sub value hvalue

mutual

theorem map_null_map (f : Value → Value) (m : Mention) :
    map (fun _ => .null) (map f m) = map (fun _ => .null) m := by
  match m with
  | operand value => rfl
  | link name inside =>
    rw [map, map, map]
    exact congrArg (link name) (forest_mapAll f inside)

/-- Other operands make no other forest. -/
theorem forest_mapAll (f : Value → Value) (ms : List Mention) :
    forest (mapAll f ms) = forest ms := by
  match ms with
  | [] => rfl
  | m :: rest =>
    have hrest := forest_mapAll f rest
    rw [forest, forest] at hrest
    rw [forest, forest, mapAll, mapAll, mapAll, map_null_map f m, hrest]

end

/-- All places of a filter that is compiled are places of parameters. -/
theorem mem_places_of_ofFilter {schema : Schema} {tableName : String} {table : Table}
    {filter : Filter} {r : Restriction} (htable : schema.requireTable tableName = .ok table)
    (h : Restriction.ofFilter schema tableName filter = .ok r) (selection : Selection) {i : Nat}
    (hi : i < (allOperands filter.mentions).length) :
    i ∈ places schema table selection filter.mentions := by
  have hforest : forest (allNumbered 0 filter.mentions) = forest filter.mentions := by
    have hms := mapAll_allNumbered [] [] filter.mentions
    rw [List.nil_append, List.append_nil, List.length_nil] at hms
    -- numbering the operands changes no form, since other operands in the same places give it back
    calc forest (allNumbered 0 filter.mentions)
        = forest (mapAll _ (allNumbered 0 filter.mentions)) := (forest_mapAll _ _).symm
      _ = forest filter.mentions := by rw [hms]
  have hnumber : Value.int i ∈ allOperands (allNumbered 0 filter.mentions) := by
    rw [allOperands_allNumbered]
    exact List.mem_map.2 ⟨i, List.mem_range'_1.2 ⟨Nat.zero_le i, by omega⟩, rfl⟩
  -- each number is one of the operands of the numbered mentions, and so is among the parameters
  have hparam := mem_params_of_ofFilter htable h hforest selection hnumber
  exact List.mem_map.2 ⟨_, hparam, Int.toNat_natCast i⟩

end Mention

namespace Query

/-- The statement for all rows, or for those of a window. -/
def statement (q : Query) : Option Window → Except Error Sql.Statement
  | none => q.compile
  | some w => q.compilePage w

/-- The parameters that a statement has besides the operands of its filter. -/
def windowParams (window : Option Window) : List Value := limitParams (window.map fetchLimit)

variable {q : Query} {window : Option Window}

theorem exists_build_of_statement {s : Statement} (h : q.statement window = .ok s) :
    ∃ order select, q.build order (window.map fetchLimit) = .ok select ∧ s = select.render := by
  cases window with
  | none =>
    obtain ⟨select, hbuild, rfl⟩ := map_eq_ok_iff.1 h
    exact ⟨q.sort, select, hbuild, rfl⟩
  | some w =>
    obtain ⟨select, hpage, rfl⟩ := map_eq_ok_iff.1 h
    obtain ⟨-, -, hpage⟩ := bind_eq_ok_iff.1 hpage
    obtain ⟨table, -, hbuild⟩ := bind_eq_ok_iff.1 hpage
    exact ⟨_, select, hbuild, rfl⟩

/-- The parameters of a statement are the operands at some places, each of which is used, and those
of its window. -/
theorem params_of_statement {s : Statement} (h : q.statement window = .ok s) :
    ∃ table selection, q.schema.requireTable q.table = .ok table ∧
      Selection.ofColumns q.schema q.table (q.columns.getD []) = .ok selection ∧
      (∀ i, i ∈ Mention.places q.schema table selection q.mentions ↔ i < q.operands.length) ∧
      s.params = (Mention.places q.schema table selection q.mentions).map
        (q.operands.getD · .null) ++
        windowParams window := by
  obtain ⟨order, select, hbuild, rfl⟩ := exists_build_of_statement h
  obtain ⟨table, selection, htable, hselection, hparams⟩ := params_of_build hbuild
  obtain ⟨-, filter, r, -, hfilter, hr, -⟩ := exists_of_build hbuild
  have hmentions : q.mentions = filter.mentions := Filter.mentions_ofJson hfilter
  refine ⟨table, selection, htable, hselection, fun i => ⟨fun hi => ?_, fun hi => ?_⟩, ?_⟩
  · -- no place is beyond the operands
    exact Mention.lt_of_mem_places q.schema table selection hi
  · -- and each operand has one
    rw [hmentions]
    rw [operands, hmentions] at hi
    exact Mention.mem_places_of_ofFilter htable hr selection hi
  · rw [hparams, Mention.params_eq_map_places]
    rfl

/-- **Filters that differ in operands alone have their parameters from the same places, and from all
of them.** -/
theorem exists_covering_places {layers : List Value}
    (h : layers.map Value.form = q.layers.map Value.form)
    {s : Statement} (hs : q.statement window = .ok s) :
    ∃ (s' : Statement) (places : List Nat),
      statement { q with layers := layers } window = .ok s' ∧ s'.sql = s.sql ∧
      (∀ i, i ∈ places ↔ i < q.operands.length) ∧
      s.params = places.map (q.operands.getD · .null) ++ windowParams window ∧
      s'.params = places.map ((operands { q with layers := layers }).getD · .null) ++
        windowParams window := by
  obtain ⟨s', hs', hsql⟩ :
      ∃ s', statement { q with layers := layers } window = .ok s' ∧ s'.sql = s.sql := by
    cases window with
    | none =>
      obtain ⟨s', hs', halike⟩ := (compile_alike h).1.exists_right hs
      exact ⟨s', hs', halike.sql_eq⟩
    | some w =>
      obtain ⟨s', hs', halike⟩ := ((compile_alike h).2 w).exists_right hs
      exact ⟨s', hs', halike.sql_eq⟩
  -- the places depend on the form of the mentions alone, which both queries share
  obtain ⟨table, selection, htable, hselection, hcover, hparams⟩ := params_of_statement hs
  obtain ⟨table', selection', htable', hselection', -, hparams'⟩ := params_of_statement hs'
  obtain rfl : table' = table := Except.ok.inj (htable'.symm.trans htable)
  obtain rfl : selection' = selection := Except.ok.inj (hselection'.symm.trans hselection)
  obtain ⟨order, select, hbuild, -⟩ := exists_build_of_statement hs
  have hforest := forest_mentions_of_build (form_filterValue h) hbuild
  refine ⟨s', Mention.places q.schema table' selection' q.mentions, hs', hsql, hcover, hparams, ?_⟩
  rw [hparams', Mention.places_congr q.schema table' selection' hforest]

end Query

end LinkQuery
