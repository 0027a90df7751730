import LinkQuery.Proofs.Linked.Filters
import LinkQuery.Proofs.Linked.Order

/-!
# Which filters can be compiled

A filter is compiled in several steps: conditions on columns, combinations of them, filters on links
that are set apart, and what is demanded of the tables behind the links. Each step refuses some
filters. The filters that none of them refuses can be told by their form alone.

* `Predicate.IsWellFormed` and `Filter.IsLocal` are the forms of what concerns one table. A negation
  needs a member that is not silent, however many members it has.
* `Filter.IsWellFormed` is the form of a filter: local, a conjunction, or on a link that leads to a
  table. `Filter.isWellFormed_iff` takes it apart into what is compiled on the table itself and what
  is set apart.
* `Restriction.exists_ofFilter_iff`: a filter has a restriction just if it is well formed.
-/

namespace LinkQuery

open Sql (Condition)

/-! ### Conditions on a column -/

/-- A predicate that can be compiled: null is not compared in order, and every negation has a member
that says something. -/
inductive Predicate.IsWellFormed : Predicate → Prop where
  | compare {op : Sql.Comparison} {value : Json.Value} (h : value.isNull → op.isEquality) :
      IsWellFormed (.compare op value)
  | like (op : PatternOp) (operand : String) : IsWellFormed (.like op operand)
  | present (expected : Bool) : IsWellFormed (.present expected)
  | group {combinator : Combinator} {members : List Predicate}
      (hmembers : ∀ member ∈ members, IsWellFormed member)
      (hspeaks : combinator.negates → ∃ member ∈ members, member.isSilent = false) :
      IsWellFormed (.group combinator members)

/-- Conditions can be combined unless a negation has none. -/
theorem Combinator.exists_combine_iff {combinator : Combinator} {conditions : List Condition} :
    (∃ result, combinator.combine conditions = .ok result) ↔
      (combinator.negates → conditions.isEmpty = false) := by
  unfold combine
  cases hnegates : combinator.negates with
  | true =>
    cases conditions <;> simp
  | false =>
    simp only [Bool.false_eq_true, if_false]
    split <;> simp

/-- Members can be combined if each of them can be compiled and, under a negation, one of them says
something. -/
theorem Combinator.exists_combined_iff {α : Type} {combinator : Combinator} {members : List α}
    {each : α → Except Error (Option Condition)} {silent : α → Bool}
    (hsilent : combinator.negates → ∀ member result, each member = .ok result →
      result.isNone = silent member) :
    (∃ result, ((members.mapM each).map fun results => results.flatMap Option.toList) >>=
        combinator.combine = .ok result) ↔
      (∀ member ∈ members, ∃ result, each member = .ok result) ∧
        (combinator.negates → ∃ member ∈ members, silent member = false) := by
  -- the conditions that are combined are those of the members that are not silent
  have hempty : combinator.negates → ∀ results, members.mapM each = .ok results →
      (results.flatMap Option.toList).isEmpty = members.all silent := fun hnegates _ hresults =>
    isEmpty_flatMap_toList (forall₂_of_mapM_eq_ok hresults fun member _ => hsilent hnegates member)
  have hsome : members.all silent = false ↔ ∃ member ∈ members, silent member = false := by simp
  rw [← exists_mapM_eq_ok_iff]
  constructor
  · rintro ⟨result, h⟩
    obtain ⟨conditions, hconditions, hresult⟩ := bind_eq_ok_iff.1 h
    obtain ⟨results, hresults, rfl⟩ := map_eq_ok_iff.1 hconditions
    refine ⟨⟨results, hresults⟩, fun hnegates => hsome.1 ?_⟩
    rw [← hempty hnegates results hresults]
    exact exists_combine_iff.1 ⟨result, hresult⟩ hnegates
  · rintro ⟨⟨results, hresults⟩, hspeaks⟩
    have hcombine : ∃ result, combinator.combine (results.flatMap Option.toList) = .ok result := by
      refine exists_combine_iff.2 fun hnegates => ?_
      rw [hempty hnegates results hresults]
      exact hsome.2 (hspeaks hnegates)
    obtain ⟨result, hresult⟩ := hcombine
    exact ⟨result, bind_eq_ok_iff.2 ⟨_, map_eq_ok_iff.2 ⟨results, hresults, rfl⟩, hresult⟩⟩

/-- A conjunction can be compiled if each of its members can. -/
theorem Combinator.exists_conjoined_iff {α : Type} {members : List α}
    {each : α → Except Error (Option Condition)} :
    (∃ result, ((members.mapM each).map fun results => results.flatMap Option.toList) >>=
        Combinator.all.combine = .ok result) ↔
      ∀ member ∈ members, ∃ result, each member = .ok result := by
  -- it is no negation, so none of them needs to say anything
  have h := @exists_combined_iff α .all members each (fun _ => false) nofun
  simpa [negates] using h

/-- A column is required successfully when the table accepts it. -/
theorem Table.requireOwnColumn_eq_ok_iff {table : Table} {column : String} :
    table.requireOwnColumn column = .ok () ↔ table.acceptsColumn column := by
  rw [requireOwnColumn, requireColumn, mapError_eq_ok_iff, checkColumn_eq_ok_iff]

/-- A null can be compared for equality only. -/
theorem Table.exists_comparison_iff {table : Table} {column : String} {op : Sql.Comparison}
    {value : Json.Value} :
    (∃ c, table.comparison column op value = .ok c) ↔ (value.isNull → op.isEquality) := by
  unfold comparison
  cases hnull : value.isNull with
  | true => cases op <;> simp [Sql.Comparison.isEquality]
  | false => cases hop : op.isEquality <;> simp

/-- A comparison can be compiled unless it puts a null in order. -/
theorem Predicate.exists_condition_compare_iff {table : Table} {column : String}
    {op : Sql.Comparison} {value : Json.Value} :
    (∃ result, (Predicate.compare op value).condition table column = .ok result) ↔
      (value.isNull → op.isEquality) := by
  rw [← @Table.exists_comparison_iff table column]
  simp [condition, map_eq_ok_iff]

mutual

/-- **A predicate can be compiled** if it is well formed. -/
theorem Predicate.exists_condition_iff {table : Table} {column : String} {predicate : Predicate} :
    (∃ result, predicate.condition table column = .ok result) ↔ predicate.IsWellFormed := by
  match predicate with
  | .compare op value =>
    rw [exists_condition_compare_iff]
    exact ⟨.compare, fun | .compare h => h⟩
  | .like op operand => exact ⟨fun _ => .like op operand, fun _ => ⟨_, rfl⟩⟩
  | .present expected => exact ⟨fun _ => .present expected, fun _ => ⟨_, rfl⟩⟩
  | .group combinator members =>
    rw [condition, conditions_eq, Combinator.exists_combined_iff fun _ member result =>
      isNone_condition, forall₂_congr (exists_condition_iff_of_mem members)]
    exact ⟨fun ⟨hformed, hspeaks⟩ => .group hformed hspeaks,
      fun | .group hformed hspeaks => ⟨hformed, hspeaks⟩⟩

/-- So can each predicate of a list. -/
theorem Predicate.exists_condition_iff_of_mem {table : Table} {column : String}
    (predicates : List Predicate) : ∀ predicate ∈ predicates,
      ((∃ result, predicate.condition table column = .ok result) ↔ predicate.IsWellFormed) := by
  match predicates with
  | [] => exact List.forall_mem_nil _
  | predicate :: rest =>
    exact List.forall_mem_cons.2 ⟨exists_condition_iff, exists_condition_iff_of_mem rest⟩

end

/-! ### Filters on one table -/

namespace Filter

/-- A filter that can be compiled on one table alone: its columns are those of the table, no filter
on a link stands in it, and every negation has a member that says something. -/
inductive IsLocal (table : Table) : Filter → Prop where
  | column {name : String} {predicate : Predicate} (hname : table.acceptsColumn name)
      (hpredicate : predicate.IsWellFormed) : IsLocal table (.column name predicate)
  | present {name : String} (hname : table.acceptsColumn name) (expected : Bool) :
      IsLocal table (.present name expected)
  | group {combinator : Combinator} {members : List Filter}
      (hmembers : ∀ member ∈ members, IsLocal table member)
      (hspeaks : combinator.negates → ∃ member ∈ members, member.isSilent = false) :
      IsLocal table (.group combinator members)

variable {schema : Schema} {table : Table}

mutual

/-- **A filter can be compiled on one table alone** if it is local. -/
theorem exists_localCondition_iff {filter : Filter} :
    (∃ result, filter.localCondition table = .ok result) ↔ filter.IsLocal table := by
  match filter with
  | .column name predicate =>
    rw [localCondition]
    constructor
    · rintro ⟨result, h⟩
      obtain ⟨⟨⟩, hname, hresult⟩ := bind_eq_ok_iff.1 h
      exact .column (Table.requireOwnColumn_eq_ok_iff.1 hname)
        (Predicate.exists_condition_iff.1 ⟨result, hresult⟩)
    · rintro (⟨hname, hpredicate⟩ | _)
      obtain ⟨result, hresult⟩ := Predicate.exists_condition_iff.2 hpredicate
      exact ⟨result, bind_eq_ok_iff.2 ⟨(), Table.requireOwnColumn_eq_ok_iff.2 hname, hresult⟩⟩
  | .present name expected =>
    rw [localCondition]
    constructor
    · rintro ⟨result, h⟩
      obtain ⟨⟨⟩, hname, -⟩ := bind_eq_ok_iff.1 h
      exact .present (Table.requireOwnColumn_eq_ok_iff.1 hname) expected
    · rintro (_ | hname)
      exact ⟨_, bind_eq_ok_iff.2 ⟨(), Table.requireOwnColumn_eq_ok_iff.2 hname, rfl⟩⟩
  | .group combinator members =>
    rw [localCondition, localConditions_eq,
      Combinator.exists_combined_iff fun _ member result => isNone_localCondition,
      forall₂_congr (exists_localCondition_iff_of_mem members)]
    exact ⟨fun ⟨hlocal, hspeaks⟩ => .group hlocal hspeaks,
      fun | .group hlocal hspeaks => ⟨hlocal, hspeaks⟩⟩
  | .link name behind =>
    constructor
    · rintro ⟨result, h⟩
      simp [localCondition] at h
    · nofun

/-- So can each filter of a list. -/
theorem exists_localCondition_iff_of_mem (filters : List Filter) : ∀ filter ∈ filters,
    ((∃ result, filter.localCondition table = .ok result) ↔ filter.IsLocal table) := by
  match filters with
  | [] => exact List.forall_mem_nil _
  | filter :: rest =>
    exact List.forall_mem_cons.2 ⟨exists_localCondition_iff, exists_localCondition_iff_of_mem rest⟩

end

/-! ### Filters on several tables -/

/-- A filter that is well formed on a table: it is local, or a conjunction of well-formed filters,
or on a link. The name of the column of the link then has to lead to a table, and what stands behind
the link has to be well formed there. -/
inductive IsWellFormed (schema : Schema) : Table → Filter → Prop where
  | ofLocal {table : Table} {filter : Filter} (h : filter.IsLocal table) :
      IsWellFormed schema table filter
  | all {table : Table} {members : List Filter}
      (h : ∀ member ∈ members, IsWellFormed schema table member) :
      IsWellFormed schema table (.group .all members)
  | link {table target : Table} {name : String} {named found : Link} {behind : Filter}
      (hnamed : table.link? name = some named) (hfound : table.link? named.name = some found)
      (htarget : schema.table? found.targetTable = some target)
      (h : IsWellFormed schema target behind) : IsWellFormed schema table (.link name behind)

/-- A conjunction is well-formed when its members are. -/
theorem isWellFormed_all_iff {members : List Filter} :
    (group .all members).IsWellFormed schema table ↔
      ∀ member ∈ members, member.IsWellFormed schema table := by
  constructor
  · rintro (⟨⟨⟩⟩ | h)
    case ofLocal.group hmembers _ => exact fun member hmember => .ofLocal (hmembers member hmember)
    case all => exact h
  · exact .all

/-- The same holds of a conjunction of any number of filters. -/
theorem isWellFormed_conjunction_iff {filters : List Filter} :
    (conjunction filters).IsWellFormed schema table ↔
      ∀ filter ∈ filters, filter.IsWellFormed schema table := by
  unfold conjunction
  split
  next => simp
  next => exact isWellFormed_all_iff

/-- The link that a filter is on leads to a table on which the filter is well formed. -/
def IsWellFormedBehind (schema : Schema) (table : Table) (link : String × Filter) : Prop :=
  ∃ named found target, table.link? link.1 = some named ∧ table.link? named.name = some found ∧
    schema.table? found.targetTable = some target ∧ link.2.IsWellFormed schema target

/-- Of a filter that is neither a conjunction nor on a link nothing is set apart. -/
theorem isWellFormed_iff_of_unlinked {filter : Filter} (hlinks : filter.linkFilters = [])
    (hcondition : filter.condition table = filter.localCondition table)
    (hlocal : filter.IsWellFormed schema table → filter.IsLocal table) :
    filter.IsWellFormed schema table ↔ (∃ own, filter.condition table = .ok own) ∧
      ∀ link ∈ filter.linkFilters, IsWellFormedBehind schema table link := by
  rw [hlinks, hcondition, exists_localCondition_iff]
  exact ⟨fun h => ⟨hlocal h, nofun⟩, fun h => .ofLocal h.1⟩

mutual

/-- A filter is well formed if its condition can be compiled, and the filters that are set apart are
well formed behind their links. -/
theorem isWellFormed_iff {filter : Filter} :
    filter.IsWellFormed schema table ↔ (∃ own, filter.condition table = .ok own) ∧
      ∀ link ∈ filter.linkFilters, IsWellFormedBehind schema table link := by
  match filter with
  | .group .all members =>
    -- what is set apart of a conjunction is what is set apart of its members
    have hlinks : (∀ link ∈ members.flatMap linkFilters, IsWellFormedBehind schema table link) ↔
        ∀ member ∈ members, ∀ link ∈ member.linkFilters, IsWellFormedBehind schema table link := by
      simp only [List.mem_flatMap, forall_exists_index, and_imp]
      exact ⟨fun h member hmember link hlink => h link member hmember hlink,
        fun h link member hmember hlink => h member hmember link hlink⟩
    rw [isWellFormed_all_iff, forall₂_congr (isWellFormed_iff_of_mem members), condition,
      memberConditions_eq,
      Combinator.exists_conjoined_iff, linkFilters, memberLinkFilters_eq_flatMap, hlinks]
    simp only [forall_and]
  | .link name behind =>
    rw [condition, linkFilters, List.forall_mem_singleton]
    constructor
    · intro h
      cases h with
      -- a filter on a link is never local
      | ofLocal h => cases h
      | link hnamed hfound htarget h =>
        rw [hnamed]
        exact ⟨⟨none, rfl⟩, _, _, _, hnamed, hfound, htarget, h⟩
    · rintro ⟨-, _, _, _, hnamed, hfound, htarget, h⟩
      exact .link hnamed hfound htarget h
  | .group .any _ | .group .notAll _ | .group .notAny _ | .column _ _ | .present _ _ =>
    refine isWellFormed_iff_of_unlinked (by simp [linkFilters]) (by simp [condition]) fun h => ?_
    cases h with
    | ofLocal h => exact h

/-- The same holds of each filter of a list. -/
theorem isWellFormed_iff_of_mem (filters : List Filter) : ∀ filter ∈ filters,
    (filter.IsWellFormed schema table ↔ (∃ own, filter.condition table = .ok own) ∧
      ∀ link ∈ filter.linkFilters, IsWellFormedBehind schema table link) := by
  match filters with
  | [] => exact List.forall_mem_nil _
  | filter :: rest =>
    exact List.forall_mem_cons.2 ⟨isWellFormed_iff, isWellFormed_iff_of_mem rest⟩

end

end Filter

/-! ### Restrictions -/

namespace Restriction

variable {schema : Schema} {table : Table} {filter : Filter}

/-- A link has a target when it is known and its table is. -/
theorem linkTarget_eq_ok_iff {name target : String} :
    linkTarget schema table name = .ok target ↔
      ∃ link found, table.link? name = some link ∧ link.targetTable = target ∧
        schema.table? target = some found := by
  refine ⟨exists_of_linkTarget_eq_ok, ?_⟩
  rintro ⟨link, found, hlink, rfl, hfound⟩
  simp [linkTarget, hlink, hfound]

/-- The filters on a link can be compiled together if each of them is well formed on the table that
the link leads to. -/
theorem exists_behind_iff {name : String} {filters : List Filter} (hne : ∃ f, f ∈ filters)
    (hbehind : ∀ target, (∃ r, ofFilter schema target (Filter.conjunction filters) = .ok r) ↔
      ∃ table, schema.table? target = some table ∧
        (Filter.conjunction filters).IsWellFormed schema table) :
    (∃ link, (do
      let target ← linkTarget schema table name
      .ok (name, ← ofFilter schema target (Filter.conjunction filters))) = .ok link) ↔
      ∀ f ∈ filters, ∃ found target, table.link? name = some found ∧
        schema.table? found.targetTable = some target ∧ f.IsWellFormed schema target := by
  constructor
  · rintro ⟨link, h⟩ f hf
    obtain ⟨name, hname, h⟩ := bind_eq_ok_iff.1 h
    obtain ⟨r, hr, -⟩ := bind_eq_ok_iff.1 h
    obtain ⟨found, -, hfound, rfl, -⟩ := linkTarget_eq_ok_iff.1 hname
    obtain ⟨target, htarget, hformed⟩ := (hbehind _).1 ⟨r, hr⟩
    exact ⟨found, target, hfound, htarget, Filter.isWellFormed_conjunction_iff.1 hformed f hf⟩
  · intro h
    obtain ⟨f, hf⟩ := hne
    obtain ⟨found, target, hfound, htarget, -⟩ := h f hf
    have hall : ∀ f ∈ filters, f.IsWellFormed schema target := by
      intro f hf
      -- there is just one table behind the link
      obtain ⟨found', target', hfound', htarget', hformed⟩ := h f hf
      obtain rfl := Option.some.inj (hfound.symm.trans hfound')
      obtain rfl := Option.some.inj (htarget.symm.trans htarget')
      exact hformed
    obtain ⟨r, hr⟩ := (hbehind found.targetTable).2
      ⟨target, htarget, Filter.isWellFormed_conjunction_iff.2 hall⟩
    refine ⟨(name, r), bind_eq_ok_iff.2 ⟨found.targetTable, ?_, bind_eq_ok_iff.2 ⟨r, hr, rfl⟩⟩⟩
    exact linkTarget_eq_ok_iff.2 ⟨found, target, hfound, rfl, htarget⟩

/-- All filters on links are well formed behind their links if, link by link, those on one link
are. -/
theorem forall_isWellFormedBehind_iff {own : Option Condition}
    (hown : filter.condition table = .ok own) :
    (∀ link ∈ filter.linkFilters, Filter.IsWellFormedBehind schema table link) ↔
      ∀ group ∈ filter.linkGroups table, ∀ f ∈ group.2, ∃ found target,
        table.link? group.1 = some found ∧ schema.table? found.targetTable = some target ∧
          f.IsWellFormed schema target := by
  constructor
  · rintro h group hgroup f hf
    obtain ⟨name, named, hmem, hnamed, hname⟩ := Filter.exists_of_mem_linkGroups hgroup hf
    obtain ⟨named', found, target, hnamed', hfound, htarget, hformed⟩ := h _ hmem
    obtain rfl := Option.some.inj (hnamed.symm.trans hnamed')
    exact ⟨found, target, hname ▸ hfound, htarget, hformed⟩
  · rintro h ⟨name, f⟩ hmem
    obtain ⟨named, hnamed⟩ := Filter.exists_link_of_mem_linkFilters hown _ hmem
    obtain ⟨group, hgroup, hname, hf⟩ := Filter.exists_mem_linkGroups hmem hnamed
    obtain ⟨found, target, hfound, htarget, hformed⟩ := h group hgroup f hf
    exact ⟨named, found, target, hnamed, hname ▸ hfound, htarget, hformed⟩

/-- **The filters that have a restriction are the well-formed ones**, on a table of the schema. -/
theorem exists_ofFilter_iff {schema : Schema} {tableName : String} {filter : Filter} :
    (∃ r, ofFilter schema tableName filter = .ok r) ↔
      ∃ table, schema.table? tableName = some table ∧ filter.IsWellFormed schema table := by
  -- a filter on a link goes one link less deep
  induction hdepth : filter.linkDepth using Nat.strongRecOn generalizing tableName filter with
  | _ depth ih =>
    have hgroups : ∀ table, ∀ group ∈ filter.linkGroups table,
        ((∃ link, (do
          let target ← linkTarget schema table group.1
          .ok (group.1, ← ofFilter schema target (Filter.conjunction group.2))) = .ok link) ↔
          ∀ f ∈ group.2, ∃ found target, table.link? group.1 = some found ∧
            schema.table? found.targetTable = some target ∧ f.IsWellFormed schema target) := by
      intro table group hgroup
      have hless := Filter.linkDepth_lt_of_mem_linkGroups hgroup
      exact exists_behind_iff (exists_mem_of_mem_groupByName hgroup)
        fun target => ih _ (hdepth ▸ hless) rfl
    rw [ofFilter_eq]
    constructor
    · rintro ⟨r, h⟩
      obtain ⟨table, htable, h⟩ := bind_eq_ok_iff.1 h
      obtain ⟨own, hown, h⟩ := bind_eq_ok_iff.1 h
      obtain ⟨links, hlinks, -⟩ := bind_eq_ok_iff.1 h
      refine ⟨table, Schema.requireTable_eq_ok_iff.1 htable,
        Filter.isWellFormed_iff.2 ⟨⟨own, hown⟩, (forall_isWellFormedBehind_iff hown).2 ?_⟩⟩
      exact (forall₂_congr (hgroups table)).1 (exists_mapM_eq_ok_iff.1 ⟨links, hlinks⟩)
    · rintro ⟨table, htable, hformed⟩
      obtain ⟨⟨own, hown⟩, hlinks⟩ := Filter.isWellFormed_iff.1 hformed
      have hsteps := (forall₂_congr (hgroups table)).2
          ((forall_isWellFormedBehind_iff hown).1 hlinks)
      obtain ⟨links, hlinks⟩ := exists_mapM_eq_ok_iff.2 hsteps
      exact ⟨⟨own, links⟩, bind_eq_ok_iff.2 ⟨table, Schema.requireTable_eq_ok_iff.2 htable,
        bind_eq_ok_iff.2 ⟨own, hown, bind_eq_ok_iff.2 ⟨links, hlinks, rfl⟩⟩⟩⟩

end Restriction

end LinkQuery
