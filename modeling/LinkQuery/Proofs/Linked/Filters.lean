import LinkQuery.Proofs.Filter.Meaning
import LinkQuery.Proofs.Linked.Demands

/-!
# Which rows a filter accepts

A filter on a table accepts a row if what it says of the row is true, and if behind every link that
it filters there is a row that is accepted in turn. That is said of the filter as it is given, where
filters on one link may stand in several places. The restriction of the filter accepts the same
rows.

* `Filter.isSilent` holds of filters that say nothing. A silent filter on a link demands nothing,
  not even that there is a row behind it.
* `Filter.accepts` are the rows that a filter accepts.
* `Restriction.represents_ofFilter`: the restriction of a filter is trivial if the filter is silent,
  mentions no link twice and accepts what the filter accepts.
-/

namespace LinkQuery

open Sql

/-! ### Silent filters -/

namespace Predicate

mutual

/-- Whether a predicate says nothing. -/
def isSilent : Predicate → Bool
  | group combinator members => !combinator.negates && areSilent members
  | _ => false

/-- Whether none of the predicates says anything. -/
def areSilent : List Predicate → Bool
  | [] => true
  | predicate :: rest => isSilent predicate && areSilent rest

end

theorem areSilent_eq_all (predicates : List Predicate) :
    areSilent predicates = predicates.all isSilent := by
  induction predicates with
  | nil => rfl
  | cons predicate rest ih => rw [areSilent, ih, List.all_cons]

end Predicate

namespace Filter

mutual

/-- Whether a filter says nothing, of any row. -/
def isSilent : Filter → Bool
  | group combinator members => !combinator.negates && areSilent members
  | column _ predicate => predicate.isSilent
  | present _ _ => false
  | link _ filter => isSilent filter

/-- Whether none of the filters says anything. -/
def areSilent : List Filter → Bool
  | [] => true
  | filter :: rest => isSilent filter && areSilent rest

end

/-! ### Accepted rows -/

section

variable (schema : Schema) (db : Database)

mutual

/-- Whether a filter accepts a row. A link may be given by the name of its constraint; the row
behind it is that of its column. -/
def accepts (table : Table) (row : TableRow) : Filter → Bool
  | group .all members => acceptAll table row members
  | link name filter =>
    isSilent filter || (table.link? name).any fun found =>
      (table.linkedRow? schema db row found.name).any fun (target, other) =>
        accepts target other filter
  | filter => (filter.meaning table (db.test table.name row)).all (· = .yes)

/-- Whether each of the filters accepts a row. -/
def acceptAll (table : Table) (row : TableRow) : List Filter → Bool
  | [] => true
  | filter :: rest => accepts table row filter && acceptAll table row rest

end

end

variable {schema : Schema} {db : Database}

theorem areSilent_eq_all (filters : List Filter) : areSilent filters = filters.all isSilent := by
  induction filters with
  | nil => rfl
  | cons filter rest ih => rw [areSilent, ih, List.all_cons]

/-- Every filter of the list accepts the row. -/
theorem acceptAll_iff {table : Table} {row : TableRow} {filters : List Filter} :
    acceptAll schema db table row filters ↔
      ∀ filter ∈ filters, filter.accepts schema db table row := by
  induction filters with
  | nil => simp [acceptAll]
  | cons filter rest ih => simp [acceptAll, ih]

/-- A conjunction says nothing when no member does. -/
theorem isSilent_conjunction (filters : List Filter) :
    (conjunction filters).isSilent ↔ ∀ filter ∈ filters, filter.isSilent := by
  unfold conjunction
  split
  next => simp
  next => simp [isSilent, areSilent_eq_all, Combinator.negates]

/-- A conjunction accepts what all its members accept. -/
theorem accepts_conjunction {table : Table} {row : TableRow} (filters : List Filter) :
    (conjunction filters).accepts schema db table row ↔
      ∀ filter ∈ filters, filter.accepts schema db table row := by
  unfold conjunction
  split
  next => simp
  next => rw [accepts, acceptAll_iff]

/-! ### What a filter says, apart from its links -/

/-- The row behind a link that is given by either of its names. -/
def acceptsBehind (schema : Schema) (db : Database) (table : Table) (row : TableRow)
    (link : String × Filter) : Prop :=
  ∃ found target other, table.link? link.1 = some found ∧
    table.linkedRow? schema db row found.name = some (target, other) ∧
    link.2.accepts schema db target other

/-- Whatever is said of the row must be true in a conjunction. -/
theorem all_meaning_all {ts : List Truth} :
    (Combinator.all.meaning ts).all (· = .yes) ↔ ∀ t ∈ ts, t = .yes := by
  cases ts with
  | nil => simp [Combinator.meaning]
  | cons t rest =>
    have hmeaning : Combinator.all.meaning (t :: rest) = some (.conj (t :: rest)) := rfl
    rw [hmeaning, Option.all_some, decide_eq_true_iff, Truth.conj_eq_yes_iff]

mutual

/-- A filter accepts a row if what it says of the row is true, and the rows behind its links are
there and accepted. -/
theorem accepts_iff {table : Table} {row : TableRow} {filter : Filter} :
    filter.accepts schema db table row ↔
      (filter.meaning table (db.test table.name row)).all (· = .yes) ∧
        ∀ link ∈ filter.linkFilters, link.2.isSilent = false →
          acceptsBehind schema db table row link := by
  match filter with
  | group .all members =>
    rw [accepts, meaning, all_meaning_all, linkFilters]
    exact acceptAll_iff_meanings
  | link name filter =>
    rw [accepts, meaning, linkFilters, List.forall_mem_singleton]
    unfold acceptsBehind
    cases hsilent : filter.isSilent with
    | true => simp
    | false =>
      cases table.link? name with
      | none => simp
      | some found =>
        rcases hlinked : table.linkedRow? schema db row found.name with _ | ⟨target, other⟩ <;>
          simp [hlinked]
  | group .any _ | group .notAll _ | group .notAny _ | column _ _ | present _ _ =>
    simp [accepts, linkFilters]

/-- The filters accept a row by what they say of it and of the rows behind its links. -/
theorem acceptAll_iff_meanings {table : Table} {row : TableRow} {filters : List Filter} :
    acceptAll schema db table row filters ↔
      (∀ t ∈ meanings table (db.test table.name row) filters, t = .yes) ∧
        ∀ link ∈ memberLinkFilters filters, link.2.isSilent = false →
          acceptsBehind schema db table row link := by
  match filters with
  | [] => simp [acceptAll, meanings, memberLinkFilters]
  | filter :: rest =>
    have hown : (∀ t ∈ (filter.meaning table (db.test table.name row)).toList, t = .yes) ↔
        (filter.meaning table (db.test table.name row)).all (· = .yes) := by
      cases filter.meaning table (db.test table.name row) <;> simp
    rw [acceptAll, meanings, memberLinkFilters, Bool.and_eq_true, List.forall_mem_append,
      List.forall_mem_append, accepts_iff, acceptAll_iff_meanings, hown]
    exact and_and_and_comm

end

end Filter

/-! ### Filters on links, set apart -/

namespace Filter

theorem memberLinkFilters_eq_flatMap (filters : List Filter) :
    memberLinkFilters filters = filters.flatMap linkFilters := by
  induction filters with
  | nil => rfl
  | cons filter rest ih => rw [memberLinkFilters, ih, List.flatMap_cons]

/-- A filter on a link is only set apart from conjunctions. What is true of it, and of a conjunction
if it is true of a member, is true of every filter from which it is set apart. -/
theorem linkFilters_induction {motive : Filter → Prop} {written : String × Filter}
    (hlink : motive (.link written.1 written.2))
    (hall : ∀ members, ∀ member ∈ members, motive member → motive (.group .all members))
    {filter : Filter} (hmem : written ∈ filter.linkFilters) : motive filter := by
  cases filter with
  | group combinator members =>
    cases combinator with
    | all =>
      rw [linkFilters, memberLinkFilters_eq_flatMap] at hmem
      obtain ⟨member, hmember, hmem⟩ := List.mem_flatMap.1 hmem
      exact hall members member hmember (linkFilters_induction hlink hall hmem)
    | any | notAll | notAny => simp [linkFilters] at hmem
  | link name behind =>
    obtain rfl : written = (name, behind) := List.mem_singleton.1 hmem
    exact hlink
  | column _ _ | present _ _ => simp [linkFilters] at hmem
  termination_by sizeOf filter

end Filter

/-! ### Silent filters accept every row -/

namespace Predicate

variable {table : Table} {column : String} {u : Test → Truth}

mutual

theorem meaning_of_isSilent {predicate : Predicate} (h : predicate.isSilent) :
    predicate.meaning table column u = none := by
  match predicate with
  | compare _ _ | like _ _ | present _ => simp [isSilent] at h
  | group combinator members =>
    rw [isSilent, Bool.and_eq_true] at h
    rw [meaning, meanings_of_areSilent h.2]
    rfl

theorem meanings_of_areSilent {predicates : List Predicate} (h : areSilent predicates) :
    meanings table column u predicates = [] := by
  match predicates with
  | [] => rfl
  | predicate :: rest =>
    rw [areSilent, Bool.and_eq_true] at h
    rw [meanings, meaning_of_isSilent h.1, meanings_of_areSilent h.2]
    rfl

end

end Predicate

namespace Filter

variable {table : Table} {u : Test → Truth}

mutual

theorem meaning_of_isSilent {filter : Filter} (h : filter.isSilent) :
    filter.meaning table u = none := by
  match filter with
  | group combinator members =>
    rw [isSilent, Bool.and_eq_true] at h
    rw [meaning, meanings_of_areSilent h.2]
    rfl
  | column name predicate => exact Predicate.meaning_of_isSilent h
  | present _ _ => simp [isSilent] at h
  | link _ _ => rfl

theorem meanings_of_areSilent {filters : List Filter} (h : areSilent filters) :
    meanings table u filters = [] := by
  match filters with
  | [] => rfl
  | filter :: rest =>
    rw [areSilent, Bool.and_eq_true] at h
    rw [meanings, meaning_of_isSilent h.1, meanings_of_areSilent h.2]
    rfl

end

/-- A silent filter has silent filters behind its links. -/
theorem isSilent_of_mem_linkFilters {filter : Filter} (h : filter.isSilent)
    {link : String × Filter} (hlink : link ∈ filter.linkFilters) : link.2.isSilent := by
  refine linkFilters_induction (motive := fun filter => filter.isSilent → link.2.isSilent) id ?_
    hlink h
  intro members member hmember ih hmembers
  rw [isSilent, areSilent_eq_all, Bool.and_eq_true] at hmembers
  exact ih (List.all_eq_true.1 hmembers.2 member hmember)

/-- A silent filter accepts every row. -/
theorem accepts_of_isSilent {schema : Schema} {db : Database} {filter : Filter}
    (h : filter.isSilent)
    (table : Table) (row : TableRow) : filter.accepts schema db table row := by
  rw [accepts_iff, meaning_of_isSilent h]
  refine ⟨rfl, fun link hlink hloud => ?_⟩
  rw [isSilent_of_mem_linkFilters h hlink] at hloud
  simp at hloud

end Filter

/-! ### Silent filters are compiled to nothing -/

/-- Combining no condition gives none, unless it is negated. -/
theorem Combinator.isNone_of_combine {combinator : Combinator} {conditions : List Condition}
    {result : Option Condition} (h : combinator.combine conditions = .ok result) :
    result.isNone = (!combinator.negates && conditions.isEmpty) := by
  unfold combine at h
  cases hnegates : combinator.negates with
  | true =>
    rw [hnegates, if_pos rfl] at h
    split at h
    · simp at h
    · obtain rfl := Except.ok.inj h
      rfl
  | false =>
    rw [hnegates, if_neg (by simp)] at h
    split at h
    all_goals
      obtain rfl := Except.ok.inj h
      simp_all

theorem isEmpty_toList_append {α : Type} (own : Option α) (others : List α) :
    (own.toList ++ others).isEmpty = (own.isNone && others.isEmpty) := by
  cases own <;> rfl

/-- No condition is left of members if each of them is compiled to none. -/
theorem isEmpty_flatMap_toList {α : Type} {members : List α} {results : List (Option Condition)}
    {silent : α → Bool}
    (h : List.Forall₂ (fun member result => result.isNone = silent member) members results) :
    (results.flatMap Option.toList).isEmpty = members.all silent := by
  induction h with
  | nil => rfl
  | @cons member result members results hmember _ ih =>
    rw [List.flatMap_cons, isEmpty_toList_append, ih, List.all_cons, hmember]

/-- A predicate without a condition is a silent one. -/
theorem Predicate.isNone_condition {table : Table} {column : String} {predicate : Predicate}
    {result : Option Condition} (h : predicate.condition table column = .ok result) :
    result.isNone = predicate.isSilent := by
  refine condition_induction (motive := fun predicate result => result.isNone = predicate.isSilent)
    ?_ ?_ ?_ ?_ h
  · intro op value c _
    rfl
  · intro op operand
    rfl
  · intro expected
    rfl
  · intro combinator members results result hmembers hcombine
    rw [Combinator.isNone_of_combine hcombine, isSilent, areSilent_eq_all,
      isEmpty_flatMap_toList hmembers]

namespace Filter

/-- A filter on the table without a condition is a silent one. -/
theorem isNone_localCondition {table : Table} {filter : Filter} {result : Option Condition}
    (h : filter.localCondition table = .ok result) : result.isNone = filter.isSilent := by
  refine localCondition_induction (motive := fun filter result => result.isNone = filter.isSilent)
    ?_ ?_ ?_ h
  · intro name predicate result hresult
    exact Predicate.isNone_condition hresult
  · intro name expected
    rfl
  · intro combinator members results result hmembers hcombine
    rw [Combinator.isNone_of_combine hcombine, isSilent, areSilent_eq_all,
      isEmpty_flatMap_toList hmembers]

/-- A filter is silent if it is compiled to no condition and all that it demands behind links is
silent. -/
theorem isSilent_eq {table : Table} {filter : Filter} {result : Option Condition}
    (h : filter.condition table = .ok result) :
    filter.isSilent = (result.isNone && filter.linkFilters.all fun link => link.2.isSilent) := by
  refine condition_induction (motive := fun filter result => filter.isSilent =
    (result.isNone && filter.linkFilters.all fun link => link.2.isSilent)) ?_ ?_ ?_ h
  · intro filter result hlinks hlocal
    rw [hlinks, List.all_nil, Bool.and_true, isNone_localCondition hlocal]
  · intro name behind found _
    simp [isSilent, linkFilters]
  · intro members results result hmembers hcombine
    -- each member is silent in both respects, so all of them are
    have hall : members.all isSilent = ((results.flatMap Option.toList).isEmpty &&
        (members.flatMap linkFilters).all fun link => link.2.isSilent) := by
      clear hcombine
      induction hmembers with
      | nil => rfl
      | @cons member result members results hmember _ ih =>
        rw [List.all_cons, hmember, ih, List.flatMap_cons, List.flatMap_cons,
          isEmpty_toList_append, List.all_append]
        ac_rfl
    rw [Combinator.isNone_of_combine hcombine, isSilent, areSilent_eq_all, hall, linkFilters,
      memberLinkFilters_eq_flatMap]
    rfl

/-! ### The links of a filter -/

/-- The links that a compiled filter mentions exist. -/
theorem exists_link_of_mem_linkFilters {table : Table} {filter : Filter} {result : Option Condition}
    (h : filter.condition table = .ok result) :
    ∀ link ∈ filter.linkFilters, ∃ found, table.link? link.1 = some found := by
  refine condition_induction (motive := fun filter _ =>
    ∀ link ∈ filter.linkFilters, ∃ found, table.link? link.1 = some found) ?_ ?_ ?_ h
  · intro filter result hlinks _
    simp [hlinks]
  · intro name behind found hfound
    rw [linkFilters, List.forall_mem_singleton]
    exact ⟨found, hfound⟩
  · intro members results result hmembers _ link hlink
    rw [linkFilters, memberLinkFilters_eq_flatMap] at hlink
    obtain ⟨member, hmember, hlink⟩ := List.mem_flatMap.1 hlink
    obtain ⟨_, -, hexists⟩ := exists_right_of_forall₂ hmembers hmember
    exact hexists link hlink

/-- A filter in a group is one of the filters on the link of the group. -/
theorem exists_of_mem_linkGroups {table : Table} {filter : Filter} {group : String × List Filter}
    (h : group ∈ filter.linkGroups table) {behind : Filter} (hmem : behind ∈ group.2) :
    ∃ name found, (name, behind) ∈ filter.linkFilters ∧ table.link? name = some found ∧
      found.name = group.1 := by
  have hitem := mem_of_mem_groupByName h hmem
  obtain ⟨⟨name, behind'⟩, hlink, hsome⟩ := List.mem_filterMap.1 hitem
  obtain ⟨found, hfound, heq⟩ := Option.map_eq_some_iff.1 hsome
  obtain ⟨hname, rfl⟩ := Prod.mk.inj heq
  exact ⟨name, found, hlink, hfound, hname⟩

/-- Every filter on a link is in the group of the link. -/
theorem exists_mem_linkGroups {table : Table} {filter : Filter} {name : String} {behind : Filter}
    {found : Link} (h : (name, behind) ∈ filter.linkFilters)
    (hfound : table.link? name = some found) :
    ∃ group ∈ filter.linkGroups table, group.1 = found.name ∧ behind ∈ group.2 := by
  refine exists_mem_groupByName (List.mem_filterMap.2 ⟨(name, behind), h, ?_⟩)
  show (table.link? name).map (fun link => (link.name, behind)) = some (found.name, behind)
  rw [hfound, Option.map_some]

end Filter

/-! ### The restriction of a filter -/

namespace Restriction

/-- A restriction on a table stands for a filter. -/
structure Represents (schema : Schema) (db : Database) (table : Table) (filter : Filter)
    (r : Restriction) : Prop where
  distinct : r.IsDistinct
  isTrivial_iff : r.isTrivial ↔ filter.isSilent
  accepts_iff : ∀ row, r.accepts schema db table row ↔ filter.accepts schema db table row

variable {schema : Schema} {db : Database}

theorem areTrivial_iff {links : List (String × Restriction)} :
    areTrivial links ↔ ∀ link ∈ links, link.2.isTrivial := by
  induction links with
  | nil => simp [areTrivial]
  | cons link rest ih => simp [areTrivial, ih]

section

variable {motive : Table → Filter → Restriction → Prop} {table : Table} {filter : Filter}
  {own : Option Condition} {links : List (String × Restriction)}

/-- A restriction behind a link stands for the filters on the link together. -/
theorem exists_group_of_mem
    (hlinks : List.Forall₂ (StandsBehind schema table motive) (filter.linkGroups table) links)
    {link : String × Restriction} (hmem : link ∈ links) :
    ∃ group ∈ filter.linkGroups table, link.1 = group.1 ∧ ∃ key target,
      table.link? link.1 = some key ∧ schema.table? key.targetTable = some target ∧
        motive target (Filter.conjunction group.2) link.2 := by
  obtain ⟨group, hgroup, hname, key, target, hkey, htarget, hbehind⟩ :=
    exists_left_of_forall₂ hlinks hmem
  exact ⟨group, hgroup, hname, key, target, hname ▸ hkey, htarget, hbehind⟩

/-- Every filter on a link is among those that the restriction behind the link stands for. -/
theorem exists_link_of_mem (hown : filter.condition table = .ok own)
    (hlinks : List.Forall₂ (StandsBehind schema table motive) (filter.linkGroups table) links)
    {name : String} {behind : Filter} (hmem : (name, behind) ∈ filter.linkFilters) :
    ∃ found, table.link? name = some found ∧ ∃ link ∈ links, link.1 = found.name ∧
      ∃ filters key target, behind ∈ filters ∧ table.link? link.1 = some key ∧
        schema.table? key.targetTable = some target ∧
        motive target (Filter.conjunction filters) link.2 := by
  obtain ⟨found, hfound⟩ := Filter.exists_link_of_mem_linkFilters hown _ hmem
  obtain ⟨group, hgroup, hname, hbehind⟩ := Filter.exists_mem_linkGroups hmem hfound
  obtain ⟨link, hlink, hlinkName, key, target, hkey, htarget, hstands⟩ :=
    exists_right_of_forall₂ hlinks hgroup
  exact ⟨found, hfound, link, hlink, hlinkName.trans hname, group.2, key, target, hbehind,
    hlinkName ▸ hkey, htarget, hstands⟩

/-- Grouped by name, the restrictions behind the links are distinct. -/
theorem isDistinct_of_standsBehind (hdistinct : ∀ t f r, motive t f r → r.IsDistinct)
    (hlinks : List.Forall₂ (StandsBehind schema table motive) (filter.linkGroups table) links) :
    IsDistinct ⟨own, links⟩ := by
  -- the links have the names of the groups, of which there is one for each name
  have hnames : (filter.linkGroups table).map (·.1) = links.map (·.1) := by
    rw [← List.forall₂_eq_eq_eq, List.forall₂_map_left_iff, List.forall₂_map_right_iff]
    exact hlinks.imp fun _ _ hstands => hstands.1.symm
  refine ⟨hnames ▸ nodup_map_fst_groupByName _, areDistinct_iff.2 fun link hlink => ?_⟩
  obtain ⟨_, -, -, _, _, -, -, hbehind⟩ := exists_group_of_mem hlinks hlink
  exact hdistinct _ _ _ hbehind

/-- A restriction is trivial exactly when its filter is silent. -/
theorem isTrivial_iff_of_standsBehind
    (hsilent : ∀ t f r, motive t f r → (r.isTrivial ↔ f.isSilent))
    (hown : filter.condition table = .ok own)
    (hlinks : List.Forall₂ (StandsBehind schema table motive) (filter.linkGroups table) links) :
    isTrivial ⟨own, links⟩ ↔ filter.isSilent := by
  rw [isTrivial, Filter.isSilent_eq hown, Bool.and_eq_true, Bool.and_eq_true, areTrivial_iff,
    List.all_eq_true]
  refine and_congr_right' ⟨fun htrivial => ?_, fun hall => ?_⟩
  · -- a trivial restriction stands for silent filters only
    rintro ⟨name, behind⟩ hmem
    obtain ⟨_, -, link, hlink, -, filters, _, _, hbehind, -, -, hstands⟩ :=
      exists_link_of_mem hown hlinks hmem
    have hconjunction := (hsilent _ _ _ hstands).1 (htrivial link hlink)
    exact (Filter.isSilent_conjunction filters).1 hconjunction behind hbehind
  · -- all filters of a group are among the filters on links
    intro link hlink
    obtain ⟨group, hgroup, -, _, _, -, -, hstands⟩ := exists_group_of_mem hlinks hlink
    refine (hsilent _ _ _ hstands).2 ((Filter.isSilent_conjunction group.2).2 ?_)
    intro behind hbehind
    obtain ⟨name, _, hmem, -, -⟩ := Filter.exists_of_mem_linkGroups hgroup hbehind
    exact hall (name, behind) hmem

variable {row : TableRow}

/-- The row that a restriction accepts behind a link is accepted by each filter on the link. -/
theorem acceptsBehind_of_accepts (hown : filter.condition table = .ok own)
    (hlinks : List.Forall₂ (StandsBehind schema table (Represents schema db))
      (filter.linkGroups table) links)
    (haccepts : ∀ link ∈ effectiveLinks ⟨own, links⟩, ∃ target other,
      table.linkedRow? schema db row link.1 = some (target, other) ∧
        link.2.accepts schema db target other)
    {name : String} {behind : Filter} (hmem : (name, behind) ∈ filter.linkFilters)
    (hloud : behind.isSilent = false) :
    Filter.acceptsBehind schema db table row (name, behind) := by
  obtain ⟨found, hfound, link, hlink, hname, filters, key, target, hbehind, hkey, htarget,
    hrepresents⟩ := exists_link_of_mem hown hlinks hmem
  -- something is demanded behind the link, since this filter says something
  have hdemanded : link ∈ effectiveLinks ⟨own, links⟩ := by
    refine List.mem_filter.2 ⟨hlink, ?_⟩
    by_contra htrivial
    have hall := hrepresents.isTrivial_iff.1 (by simpa using htrivial)
    rw [(Filter.isSilent_conjunction filters).1 hall behind hbehind] at hloud
    simp at hloud
  obtain ⟨target', other, hlinked, hother⟩ := haccepts link hdemanded
  obtain rfl := Table.target_of_linkedRow? hlinked hkey htarget
  have hall := (Filter.accepts_conjunction filters).1 ((hrepresents.accepts_iff other).1 hother)
  exact ⟨found, target', other, hfound, hname ▸ hlinked, hall behind hbehind⟩

/-- The filters on a link accept one and the same row, and so does the restriction behind it. -/
theorem exists_accepts_of_acceptsBehind
    (hlinks : List.Forall₂ (StandsBehind schema table (Represents schema db))
      (filter.linkGroups table) links)
    (haccepts : ∀ link ∈ filter.linkFilters, link.2.isSilent = false →
      Filter.acceptsBehind schema db table row link)
    {link : String × Restriction} (hdemanded : link ∈ effectiveLinks ⟨own, links⟩) :
    ∃ target other, table.linkedRow? schema db row link.1 = some (target, other) ∧
      link.2.accepts schema db target other := by
  obtain ⟨hlink, hloud⟩ := List.mem_filter.1 hdemanded
  have hnontrivial : link.2.isTrivial = false := by simpa using hloud
  obtain ⟨group, hgroup, hname, key, target, hkey, htarget, hrepresents⟩ :=
    exists_group_of_mem hlinks hlink
  -- each filter that says something accepts the row behind the link
  have hbehinds : ∀ behind ∈ group.2, behind.isSilent = false → ∃ target other,
      table.linkedRow? schema db row link.1 = some (target, other) ∧
        behind.accepts schema db target other := by
    intro behind hbehind hloud
    obtain ⟨name, found, hmem, hfound, hfoundName⟩ :=
      Filter.exists_of_mem_linkGroups hgroup hbehind
    obtain ⟨found', target', other, hfound', hlinked, hother⟩ :=
      haccepts (name, behind) hmem hloud
    obtain rfl := Option.some.inj (hfound.symm.trans hfound')
    exact ⟨target', other, by rw [hname, ← hfoundName, hlinked], hother⟩
  -- one of them does, so there is a row
  obtain ⟨behind, hbehind, hloud⟩ : ∃ behind ∈ group.2, behind.isSilent = false := by
    by_contra hnone
    have hall := (Filter.isSilent_conjunction group.2).2 fun behind hbehind => by
      simpa using fun hloud => hnone ⟨behind, hbehind, hloud⟩
    rw [hrepresents.isTrivial_iff.2 hall] at hnontrivial
    simp at hnontrivial
  obtain ⟨target', other, hlinked, -⟩ := hbehinds behind hbehind hloud
  obtain rfl := Table.target_of_linkedRow? hlinked hkey htarget
  refine ⟨target', other, hlinked, (hrepresents.accepts_iff other).2 ?_⟩
  refine (Filter.accepts_conjunction group.2).2 fun behind' hbehind' => ?_
  -- the silent ones accept any row, the others this one
  cases hsilent : behind'.isSilent with
  | true => exact Filter.accepts_of_isSilent hsilent target' other
  | false =>
    obtain ⟨target'', other', hlinked', hother'⟩ := hbehinds behind' hbehind' hsilent
    obtain ⟨rfl, rfl⟩ := Prod.mk.inj (Option.some.inj (hlinked.symm.trans hlinked'))
    exact hother'

/-- A restriction accepts the rows that its filter accepts. -/
theorem accepts_iff_of_standsBehind (hown : filter.condition table = .ok own)
    (hlinks : List.Forall₂ (StandsBehind schema table (Represents schema db))
      (filter.linkGroups table) links) :
    accepts schema db table row ⟨own, links⟩ ↔ filter.accepts schema db table row := by
  -- the condition has the value of what the filter says of the row
  have hholds : Outline.holds db table row own =
      (filter.meaning table (db.test table.name row)).all (· = .yes) := by
    rw [← (Filter.amounts_condition hown).truth_eq, Option.all_map]
    rfl
  rw [accepts_iff, Filter.accepts_iff, hholds]
  refine and_congr_right' ⟨?_, ?_⟩
  · rintro haccepts ⟨name, behind⟩ hmem hloud
    exact acceptsBehind_of_accepts hown hlinks haccepts hmem hloud
  · intro haccepts link hdemanded
    exact exists_accepts_of_acceptsBehind hlinks haccepts hdemanded

end

/-- The restriction of a filter mentions no link twice. -/
theorem isDistinct_ofFilter {tableName : String} {table : Table} {filter : Filter} {r : Restriction}
    (htable : schema.requireTable tableName = .ok table)
    (h : ofFilter schema tableName filter = .ok r) : r.IsDistinct :=
  ofFilter_induction (motive := fun _ _ r => r.IsDistinct)
    (fun _ _ _ _ _ hlinks => isDistinct_of_standsBehind (fun _ _ _ h => h) hlinks) htable h

/-- **The restriction of a filter represents it.** -/
theorem represents_ofFilter {tableName : String} {table : Table} {filter : Filter} {r : Restriction}
    (htable : schema.requireTable tableName = .ok table)
    (h : ofFilter schema tableName filter = .ok r) : Represents schema db table filter r := by
  refine ofFilter_induction (motive := Represents schema db) ?_ htable h
  intro table filter own links hown hlinks
  exact ⟨isDistinct_of_standsBehind (fun _ _ _ h => h.distinct) hlinks,
    isTrivial_iff_of_standsBehind (fun _ _ _ h => h.isTrivial_iff) hown hlinks,
    fun _ => accepts_iff_of_standsBehind hown hlinks⟩

end Restriction

end LinkQuery
