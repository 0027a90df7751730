import LinkQuery.Filter.Json
import LinkQuery.Proofs.Linked.Result
import LinkQuery.Proofs.Operands.Level

/-!
# Filters on one link

Filters on one link may stand apart, anywhere under nested conjunctions, and some of them under the
name of the column and others under the name of the constraint. What is demanded behind the link is
what all of them demand together, and it is compiled as if they had been one conjunction behind the
link from the start.

* `Filter.namedLinks` are the links that a filter is on and `Filter.filtersOn` are the filters on
  one of them, both read off the filter itself. `Filter.linkGroups_eq`: nothing else is collected.
* `Restriction.Reaches` are the levels of a restriction, and `Restriction.Merges` says of a level
  what it is made of.
* `Filter.Gathers` relates filters of which one has the filters on a link in one place, where the
  other has them side by side. `Filter.DemandsAlike` is what the two have in common.
* `Restriction.links_merge` puts it together.
-/

namespace LinkQuery

/-- The canonical name of a link, given by either of its names: that of its local column. -/
def Table.canonical? (table : Table) (name : String) : Option String :=
  (table.link? name).map (·.localColumn)

namespace Filter

/-! ### The filters on a link -/

mutual

/-- The links that a filter is on, under their canonical names and in the order of the filter. A
link stands here once for each filter on it. -/
def namedLinks (table : Table) : Filter → List String
  | group .all members => memberNamedLinks table members
  | link name _ => (table.canonical? name).toList
  | _ => []

/-- The links that members of a conjunction are on. -/
def memberNamedLinks (table : Table) : List Filter → List String
  | [] => []
  | filter :: rest => namedLinks table filter ++ memberNamedLinks table rest

end

mutual

/-- The filters on the link of a canonical name, in the order of the filter. -/
def filtersOn (table : Table) (name : String) : Filter → List Filter
  | group .all members => memberFiltersOn table name members
  | link given filter => if table.canonical? given = some name then [filter] else []
  | _ => []

/-- The filters of members of a conjunction on the link of a canonical name. -/
def memberFiltersOn (table : Table) (name : String) : List Filter → List Filter
  | [] => []
  | filter :: rest => filtersOn table name filter ++ memberFiltersOn table name rest

end

variable {schema : Schema} {table : Table}

theorem memberNamedLinks_eq_flatMap (members : List Filter) :
    memberNamedLinks table members = members.flatMap (namedLinks table) := by
  induction members with
  | nil => rfl
  | cons filter rest ih => rw [memberNamedLinks, ih, List.flatMap_cons]

theorem memberFiltersOn_eq_flatMap (name : String) (members : List Filter) :
    memberFiltersOn table name members = members.flatMap (filtersOn table name) := by
  induction members with
  | nil => rfl
  | cons filter rest ih => rw [memberFiltersOn, ih, List.flatMap_cons]

/-- The filters that are set apart, under the canonical names of their links. -/
def canonicalFilters (table : Table) (filter : Filter) : List (String × Filter) :=
  filter.linkFilters.filterMap fun (name, f) => (table.link? name).map fun link => (link.name, f)

/-- A conjunction has the filters on links of all its members. -/
theorem canonicalFilters_all (members : List Filter) :
    (group .all members).canonicalFilters table = members.flatMap (canonicalFilters table) := by
  rw [canonicalFilters, linkFilters, memberLinkFilters_eq_flatMap, List.filterMap_flatMap]
  rfl

mutual

/-- The names of a filter are those of its canonical filters. -/
theorem namedLinks_eq (filter : Filter) :
    filter.namedLinks table = (filter.canonicalFilters table).map (·.1) := by
  match filter with
  | .group .all members => rw [namedLinks, canonicalFilters_all, memberNamedLinks_eq members]
  | .link name behind =>
    rw [namedLinks, canonicalFilters, linkFilters, Table.canonical?]
    cases hfound : table.link? name <;> simp [hfound, Link.name]
  | .group .any _ | .group .notAll _ | .group .notAny _ | .column _ _ | .present _ _ =>
    simp [namedLinks, canonicalFilters, linkFilters]

theorem memberNamedLinks_eq (members : List Filter) :
    memberNamedLinks table members = (members.flatMap (canonicalFilters table)).map (·.1) := by
  match members with
  | [] => rfl
  | filter :: rest =>
    rw [memberNamedLinks, namedLinks_eq filter, memberNamedLinks_eq rest, List.flatMap_cons,
      List.map_append]

end

mutual

/-- The filters on a link are the canonical ones under its name. -/
theorem filtersOn_eq (name : String) (filter : Filter) :
    filter.filtersOn table name = itemsUnder name (filter.canonicalFilters table) := by
  match filter with
  -- a conjunction has the filters of its members
  | .group .all members => rw [filtersOn, canonicalFilters_all, memberFiltersOn_eq name members]
  | .link given behind =>
    rw [filtersOn, canonicalFilters, linkFilters, Table.canonical?]
    cases hfound : table.link? given with
    | none => simp [hfound, itemsUnder]
    -- the filter counts when its link has the canonical name
    | some found =>
      by_cases hname : found.localColumn = name <;> simp [hfound, itemsUnder, Link.name, hname]
  | .group .any _ | .group .notAll _ | .group .notAny _ | .column _ _ | .present _ _ =>
    simp [filtersOn, canonicalFilters, linkFilters, itemsUnder]

theorem memberFiltersOn_eq (name : String) (members : List Filter) :
    memberFiltersOn table name members =
      itemsUnder name (members.flatMap (canonicalFilters table)) := by
  match members with
  | [] => rfl
  | filter :: rest =>
    rw [memberFiltersOn, filtersOn_eq name filter, memberFiltersOn_eq name rest, List.flatMap_cons]
    exact List.filterMap_append.symm

end

/-- **Each link has one group**, in the order in which the links first appear, and the group holds
the filters on the link. -/
theorem linkGroups_eq (filter : Filter) :
    filter.linkGroups table =
      (filter.namedLinks table).eraseDups.map fun name => (name, filter.filtersOn table name) := by
  simp only [namedLinks_eq, filtersOn_eq]
  rfl

/-- Each name is the canonical one of a name that was given. -/
theorem exists_link_of_mem_namedLinks {filter : Filter} {name : String}
    (h : name ∈ filter.namedLinks table) : ∃ given, table.canonical? given = some name := by
  rw [namedLinks_eq] at h
  obtain ⟨⟨_, behind⟩, hmem, rfl⟩ := List.mem_map.1 h
  obtain ⟨⟨given, _⟩, -, hsome⟩ := List.mem_filterMap.1 hmem
  obtain ⟨found, hfound, heq⟩ := Option.map_eq_some_iff.1 hsome
  obtain ⟨rfl, -⟩ := Prod.mk.inj heq
  exact ⟨given, Option.map_eq_some_iff.2 ⟨found, hfound, rfl⟩⟩

end Filter

/-! ### Levels of a restriction -/

/-- The table that links lead to, one after the other, and what a filter says of its rows: at each
link the filters on it are taken together. -/
def Filter.addressed? (schema : Schema) : Table → Filter → List String → Option (Table × Filter)
  | table, filter, [] => some (table, filter)
  | table, filter, name :: names =>
    (schema.behind? table name).bind fun target =>
      addressed? schema target (conjunction (filter.filtersOn table name)) names

namespace Restriction

/-- The levels of a restriction, with the names of the links that lead to them. -/
inductive Reaches : Restriction → List String → Restriction → Prop where
  | here (r : Restriction) : Reaches r [] r
  | behind {r sub level : Restriction} {name : String} {names : List String}
      (hmem : (name, sub) ∈ r.links) (h : Reaches sub names level) :
      Reaches r (name :: names) level

/-- A level is made of the filters on its links, without loss: there is one restriction for each
link that the filter is on, and it is the restriction of all filters on this link. -/
structure Merges (schema : Schema) (table : Table) (filter : Filter) (level : Restriction) :
    Prop where
  /-- The own condition is that of the filter. -/
  own_eq : filter.condition table = .ok level.own
  /-- The links stand in the order in which they first appear in the filter. -/
  names_eq : level.links.map (·.1) = (filter.namedLinks table).eraseDups
  /-- No link stands there twice. -/
  nodup : (level.links.map (·.1)).Nodup
  /-- The names are canonical, however the filter spells them. -/
  canonical : ∀ name ∈ level.links.map (·.1), ∃ given, table.canonical? given = some name
  /-- Behind a link stands the restriction of all filters on it, on the table of the link. -/
  behind : ∀ name sub, (name, sub) ∈ level.links → ∃ found, table.link? name = some found ∧
    ofFilter schema found.targetTable (Filter.conjunction (filter.filtersOn table name)) = .ok sub

variable {schema : Schema} {table : Table}

/-- What a filter demands behind the link of a canonical name. -/
def behindLink (schema : Schema) (table : Table) (filter : Filter) (name : String) :
    Except Error (String × Restriction) := do
  let target ← linkTarget schema table name
  .ok (name, ← ofFilter schema target (Filter.conjunction (filter.filtersOn table name)))

/-- A restriction is made link by link, of the filters on each. -/
theorem ofFilter_eq_named (schema : Schema) (tableName : String) (filter : Filter) :
    ofFilter schema tableName filter = (do
      let table ← schema.requireTable tableName
      let own ← filter.condition table
      let links ← (filter.namedLinks table).eraseDups.mapM (behindLink schema table filter)
      .ok ⟨own, links⟩) := by
  rw [ofFilter_eq]
  simp only [Filter.linkGroups_eq, List.mapM_map]
  rfl

/-- A restriction merges the filter that it was read from. -/
theorem exists_merges {tableName : String} {filter : Filter} {r : Restriction}
    (h : ofFilter schema tableName filter = .ok r) :
    ∃ table, schema.table? tableName = some table ∧ r.Merges schema table filter := by
  rw [ofFilter_eq_named] at h
  obtain ⟨table, htable, h⟩ := bind_eq_ok_iff.1 h
  obtain ⟨own, hown, h⟩ := bind_eq_ok_iff.1 h
  obtain ⟨links, hlinks, h⟩ := bind_eq_ok_iff.1 h
  obtain rfl := Except.ok.inj h
  -- a step is taken for each name, and gives what stands under it
  have hsteps : List.Forall₂ (fun name (link : String × Restriction) => link.1 = name ∧
      ∃ found, table.link? name = some found ∧
        ofFilter schema found.targetTable (Filter.conjunction (filter.filtersOn table name)) =
          .ok link.2) (filter.namedLinks table).eraseDups links := by
    refine forall₂_of_mapM_eq_ok hlinks fun name _ link hlink => ?_
    obtain ⟨target, htarget, hlink⟩ := bind_eq_ok_iff.1 hlink
    obtain ⟨sub, hsub, hlink⟩ := bind_eq_ok_iff.1 hlink
    obtain rfl := Except.ok.inj hlink
    obtain ⟨found, _, hfound, rfl, -⟩ := exists_of_linkTarget_eq_ok htarget
    exact ⟨rfl, found, hfound, hsub⟩
  have hnames : links.map (·.1) = (filter.namedLinks table).eraseDups := by
    have hsame := List.forall₂_map_left_iff.2 (hsteps.flip.imp fun _ _ hstep => hstep.1)
    exact List.forall₂_eq_eq_eq ▸ hsame
  refine ⟨table, Schema.requireTable_eq_ok_iff.1 htable, hown, hnames, ?_, fun name hname => ?_,
    fun name sub hmem => ?_⟩
  · rw [hnames]
    exact nodup_eraseDups _
  · rw [hnames, List.mem_eraseDups] at hname
    exact Filter.exists_link_of_mem_namedLinks hname
  · obtain ⟨_, -, rfl, hbehind⟩ := exists_left_of_forall₂ hsteps hmem
    exact hbehind

/-- Every level is made of the filters that are addressed to it. -/
theorem merges_of_reaches {tableName : String} {filter : Filter} {r level : Restriction}
    {names : List String} (htable : schema.table? tableName = some table)
    (h : ofFilter schema tableName filter = .ok r) (hlevel : r.Reaches names level) :
    ∃ target f, filter.addressed? schema table names = some (target, f) ∧
      level.Merges schema target f := by
  induction hlevel generalizing tableName table filter with
  | here r =>
    obtain ⟨found, hfound, hmerges⟩ := exists_merges h
    obtain rfl := Option.some.inj (htable.symm.trans hfound)
    exact ⟨table, filter, rfl, hmerges⟩
  | @behind r sub level name names hmem _ ih =>
    obtain ⟨found, hfound, hmerges⟩ := exists_merges h
    obtain rfl := Option.some.inj (htable.symm.trans hfound)
    -- what stands behind the first link is the restriction of the filters on it
    obtain ⟨link, hlink, hsub⟩ := hmerges.behind name sub hmem
    obtain ⟨target, htarget⟩ := exists_table_of_ofFilter hsub
    have htarget := Schema.requireTable_eq_ok_iff.1 htarget
    obtain ⟨last, f, hlast, hf⟩ := ih htarget hsub
    refine ⟨last, f, ?_, hf⟩
    rw [Filter.addressed?, Schema.behind?, hlink, Option.bind_some, htarget, Option.bind_some]
    exact hlast

/-! ### Filters that demand alike -/

/-- What a conjunction of filters demands does not hang on how many there are. -/
theorem ofFilter_conjunction (schema : Schema) (tableName : String) (filters : List Filter) :
    ofFilter schema tableName (Filter.conjunction filters) =
      ofFilter schema tableName (.group .all filters) := by
  have hcondition : ∀ table : Table, (Filter.conjunction filters).condition table =
      (Filter.group .all filters).condition table := fun table => by
    rw [Filter.condition_conjunction, Filter.condition]
  have hgroups : ∀ table : Table, (Filter.conjunction filters).linkGroups table =
      (Filter.group .all filters).linkGroups table := fun table => by
    rw [Filter.linkGroups, Filter.linkGroups, Filter.linkFilters_conjunction, Filter.linkFilters]
  rw [ofFilter_eq, ofFilter_eq]
  simp only [hcondition, hgroups]

/-- A table that is not known is missed before anything is said of its rows. -/
theorem ofFilter_of_unknown {tableName : String} (h : schema.table? tableName = none)
    (f g : Filter) : ofFilter schema tableName f = ofFilter schema tableName g := by
  rw [ofFilter_eq, ofFilter_eq, Schema.requireTable, h]
  rfl

/-- A fault in the condition of a filter is reported before its links are followed. -/
theorem ofFilter_of_condition_eq_error {tableName : String} {filter : Filter} {e : Error}
    (htable : schema.table? tableName = some table) (h : filter.condition table = .error e) :
    ofFilter schema tableName filter = .error e := by
  rw [ofFilter_eq, Schema.requireTable_eq_ok_iff.2 htable]
  show (filter.condition table >>= _) = _
  rw [h]
  rfl

end Restriction

namespace Filter

/-- Two filters demand alike on a table, but may differ in how the filters on one of the links, that
of the canonical name `name`, are put together. -/
structure DemandsAlike (schema : Schema) (table : Table) (name : String) (f g : Filter) : Prop where
  condition_eq : f.condition table = g.condition table
  /-- The links first appear in the same order, whatever stands before and after. -/
  names_eq : ∀ before after, (before ++ f.namedLinks table ++ after).eraseDups =
    (before ++ g.namedLinks table ++ after).eraseDups
  elsewhere : ∀ other, other ≠ name → f.filtersOn table other = g.filtersOn table other
  behind : ∀ found, table.link? name = some found →
    Restriction.ofFilter schema found.targetTable (conjunction (f.filtersOn table name)) =
      Restriction.ofFilter schema found.targetTable (conjunction (g.filtersOn table name))

variable {schema : Schema} {table : Table} {name : String} {f g : Filter}

/-- Filters that demand alike have the same restriction. -/
theorem DemandsAlike.ofFilter_eq (h : DemandsAlike schema table name f g) {tableName : String}
    (htable : schema.table? tableName = some table) :
    Restriction.ofFilter schema tableName f = Restriction.ofFilter schema tableName g := by
  have hnames : (f.namedLinks table).eraseDups = (g.namedLinks table).eraseDups := by
    simpa using h.names_eq [] []
  -- link by link, the same is demanded behind it
  have hstep : Restriction.behindLink schema table f = Restriction.behindLink schema table g := by
    funext other
    unfold Restriction.behindLink
    by_cases hother : other = name
    · subst hother
      cases htarget : Restriction.linkTarget schema table other with
      | error e => rfl
      | ok target =>
        obtain ⟨found, -, hfound, rfl, -⟩ := Restriction.exists_of_linkTarget_eq_ok htarget
        show (Restriction.ofFilter schema found.targetTable _ >>= _) =
          (Restriction.ofFilter schema found.targetTable _ >>= _)
        rw [h.behind found hfound]
    · rw [h.elsewhere other hother]
  rw [Restriction.ofFilter_eq_named, Restriction.ofFilter_eq_named,
    Schema.requireTable_eq_ok_iff.2 htable]
  show (f.condition table >>= _) = (g.condition table >>= _)
  rw [h.condition_eq, hnames, hstep]

/-- Filters behind one link demand alike if their restrictions there are the same. -/
theorem DemandsAlike.link {given : String} (hgiven : table.canonical? given = some name)
    (h : ∀ found, table.link? name = some found →
      Restriction.ofFilter schema found.targetTable f =
        Restriction.ofFilter schema found.targetTable g) :
    DemandsAlike schema table name (.link given f) (.link given g) where
  condition_eq := by rw [condition, condition]
  names_eq before after := by rw [namedLinks, namedLinks]
  elsewhere other hother := by
    have hne : table.canonical? given ≠ some other := by
      rw [hgiven]
      simpa using hother.symm
    rw [filtersOn, filtersOn, if_neg hne, if_neg hne]
  behind found hfound := by
    rw [filtersOn, filtersOn, if_pos hgiven, if_pos hgiven]
    exact h found hfound

/-- Members of the same condition can be exchanged. -/
theorem memberConditions_cons_congr (before after : List Filter)
    (h : f.condition table = g.condition table) :
    memberConditions table (before ++ f :: after) =
      memberConditions table (before ++ g :: after) := by
  rw [memberConditions_eq, memberConditions_eq, List.mapM_append, List.mapM_append,
    List.mapM_cons, List.mapM_cons, h]

/-- Filters still demand alike beside others that say nothing of the link. -/
theorem DemandsAlike.among (h : DemandsAlike schema table name f g) {before after : List Filter}
    (hbefore : ∀ member ∈ before, member.filtersOn table name = [])
    (hafter : ∀ member ∈ after, member.filtersOn table name = []) :
    DemandsAlike schema table name (.group .all (before ++ f :: after))
      (.group .all (before ++ g :: after)) where
  condition_eq := by
    rw [condition, condition, memberConditions_cons_congr before after h.condition_eq]
  names_eq first last := by
    -- the links of the other members stand before and after as well
    have hnames := h.names_eq (first ++ before.flatMap (namedLinks table))
      (after.flatMap (namedLinks table) ++ last)
    simpa [namedLinks, memberNamedLinks_eq_flatMap] using hnames
  elsewhere other hother := by
    simp [filtersOn, memberFiltersOn_eq_flatMap, h.elsewhere other hother]
  behind found hfound := by
    -- the other members add nothing to the filters on this link
    have hnone : ∀ members : List Filter, (∀ member ∈ members, member.filtersOn table name = []) →
        members.flatMap (filtersOn table name) = [] :=
      fun members hmembers => List.flatMap_eq_nil_iff.2 hmembers
    simpa [filtersOn, memberFiltersOn_eq_flatMap, hnone before hbefore, hnone after hafter] using
      h.behind found hfound

/-! ### Filters in one place or side by side -/

/-- Filters on the given links, side by side. -/
def onLinks (links : List (String × Filter)) : List Filter :=
  links.map fun (given, f) => .link given f

theorem eraseDups_cons_self {α : Type} [BEq α] [LawfulBEq α] (before after : List α) (a : α) :
    (before ++ a :: a :: after).eraseDups = (before ++ a :: after).eraseDups := by
  rw [List.eraseDups_append, List.eraseDups_append]
  by_cases ha : a ∈ before <;> simp [List.removeAll, List.eraseDups_cons, ha]

/-- However often a name is repeated in place, it counts once. -/
theorem eraseDups_replicate {α : Type} [BEq α] [LawfulBEq α] (before after : List α) (a : α)
    (n : Nat) : (before ++ (List.replicate (n + 1) a ++ after)).eraseDups =
      (before ++ a :: after).eraseDups := by
  induction n with
  | zero => rfl
  | succ n ih =>
    rw [List.replicate_succ, List.replicate_succ, List.cons_append, List.cons_append,
      eraseDups_cons_self, ← List.cons_append, ← List.replicate_succ, ih]

variable {links : List (String × Filter)}

/-- Filters on links add nothing to the condition of the table itself. -/
theorem memberConditions_onLinks (h : ∀ link ∈ links, table.canonical? link.1 = some name) :
    memberConditions table (onLinks links) = .ok [] := by
  induction links with
  | nil => rw [onLinks, List.map_nil, memberConditions]
  | cons link rest ih =>
    obtain ⟨hlink, hrest⟩ := List.forall_mem_cons.1 h
    obtain ⟨found, hfound, -⟩ := Option.map_eq_some_iff.1 hlink
    have hcondition : (Filter.link link.1 link.2).condition table = .ok none := by
      rw [condition, hfound]
    show memberConditions table (.link link.1 link.2 :: onLinks rest) = _
    rw [memberConditions, hcondition, ih hrest]
    rfl

/-- All of these filters are on the one link. -/
theorem flatMap_namedLinks_onLinks (h : ∀ link ∈ links, table.canonical? link.1 = some name) :
    (onLinks links).flatMap (namedLinks table) = List.replicate links.length name := by
  induction links with
  | nil => rfl
  | cons link rest ih =>
    obtain ⟨hlink, hrest⟩ := List.forall_mem_cons.1 h
    show namedLinks table (.link link.1 link.2) ++ (onLinks rest).flatMap (namedLinks table) = _
    rw [ih hrest, namedLinks, hlink]
    rfl

/-- All of these filters stand behind the one link, and none behind another. -/
theorem flatMap_filtersOn_onLinks (h : ∀ link ∈ links, table.canonical? link.1 = some name)
    (other : String) : (onLinks links).flatMap (filtersOn table other) =
      if name = other then links.map (·.2) else [] := by
  induction links with
  | nil => simp [onLinks]
  | cons link rest ih =>
    obtain ⟨hlink, hrest⟩ := List.forall_mem_cons.1 h
    show filtersOn table other (.link link.1 link.2) ++
      (onLinks rest).flatMap (filtersOn table other) = _
    rw [ih hrest, filtersOn, hlink]
    by_cases hother : name = other <;> simp [hother]

/-- Filters on one link, side by side, demand what they demand in one place. -/
theorem DemandsAlike.onLinks {given : String} (hne : links ≠ [])
    (h : ∀ link ∈ links, table.canonical? link.1 = some name)
    (hgiven : table.canonical? given = some name) :
    DemandsAlike schema table name (.group .all (onLinks links))
      (.link given (.group .all (links.map (·.2)))) where
  condition_eq := by
    obtain ⟨found, hfound, -⟩ := Option.map_eq_some_iff.1 hgiven
    rw [condition, condition, memberConditions_onLinks h, hfound]
    rfl
  names_eq before after := by
    -- the link stands there once for each filter, of which only the first one counts
    obtain ⟨n, hn⟩ := Nat.exists_eq_succ_of_ne_zero (mt List.length_eq_zero_iff.1 hne)
    rw [namedLinks, namedLinks, memberNamedLinks_eq_flatMap, flatMap_namedLinks_onLinks h, hgiven,
      hn, List.append_assoc, eraseDups_replicate, List.append_assoc]
    rfl
  elsewhere other hother := by
    rw [filtersOn, filtersOn, memberFiltersOn_eq_flatMap, flatMap_filtersOn_onLinks h, hgiven]
    simp [hother.symm]
  behind found _ := by
    rw [filtersOn, filtersOn, memberFiltersOn_eq_flatMap, flatMap_filtersOn_onLinks h, if_pos rfl,
      if_pos hgiven]
    exact Restriction.ofFilter_conjunction schema found.targetTable _

/-- The second filter has the filters on a link in one place, where the first one has them side by
side; apart from that the filters are the same. This may be so at any depth, behind other links and
among the members of conjunctions, as long as none of these members is on the link as well: its
filters would join those side by side, but stand beside those in one place. -/
inductive Gathers (schema : Schema) : Table → String → Filter → Filter → Prop where
  | here {table : Table} {name given : String} (links : List (String × Filter)) (hne : links ≠ [])
      (h : ∀ link ∈ links, table.canonical? link.1 = some name)
      (hgiven : table.canonical? given = some name) :
      Gathers schema table name (.group .all (onLinks links))
        (.link given (.group .all (links.map (·.2))))
  | behind {table target : Table} {name inner given : String} {f g : Filter}
      (hgiven : table.canonical? given = some name)
      (htarget : schema.behind? table name = some target) (h : Gathers schema target inner f g) :
      Gathers schema table name (.link given f) (.link given g)
  | among {table : Table} {name : String} {f g : Filter} (before after : List Filter)
      (hbefore : ∀ member ∈ before, member.filtersOn table name = [])
      (hafter : ∀ member ∈ after, member.filtersOn table name = [])
      (h : Gathers schema table name f g) :
      Gathers schema table name (.group .all (before ++ f :: after))
        (.group .all (before ++ g :: after))

/-- Gathering filters behind one link demands the same. -/
theorem Gathers.demandsAlike (h : Gathers schema table name f g) :
    DemandsAlike schema table name f g := by
  induction h with
  | here links hne h hgiven => exact .onLinks hne h hgiven
  | behind hgiven htarget _ ih =>
    refine .link hgiven fun found hfound => ih.ofFilter_eq ?_
    rwa [Schema.behind?, hfound, Option.bind_some] at htarget
  | among before after hbefore hafter _ ih => exact ih.among hbefore hafter

end Filter

namespace Restriction

variable {schema : Schema}

/-- What is demanded behind a link hangs on what is demanded of the table there. -/
theorem ofFilter_link_congr {f g : Filter}
    (h : ∀ tableName, ofFilter schema tableName f = ofFilter schema tableName g)
    (tableName name : String) :
    ofFilter schema tableName (.link name f) = ofFilter schema tableName (.link name g) := by
  cases htable : schema.table? tableName with
  | none => exact ofFilter_of_unknown htable _ _
  | some table =>
    cases hname : table.canonical? name with
    | none =>
      -- there is no such link, so both end with its fault
      have hlink : table.link? name = none := Option.map_eq_none_iff.1 hname
      rw [ofFilter_of_condition_eq_error htable (by rw [Filter.condition, hlink]),
        ofFilter_of_condition_eq_error htable (by rw [Filter.condition, hlink])]
    | some canonical =>
      exact (Filter.DemandsAlike.link hname fun found _ => h found.targetTable).ofFilter_eq htable

/-- Two filters on one link, side by side, have the restriction of their conjunction behind the
link, or the same fault. -/
theorem ofFilter_pair (tableName name : String) (f g : Filter) :
    ofFilter schema tableName (.group .all [.link name f, .link name g]) =
      ofFilter schema tableName (.link name (.group .all [f, g])) := by
  cases htable : schema.table? tableName with
  | none => exact ofFilter_of_unknown htable _ _
  | some table =>
    cases hname : table.canonical? name with
    | none =>
      have hlink : table.link? name = none := Option.map_eq_none_iff.1 hname
      have hfirst : (Filter.link name f).condition table =
          .error (.unresolved table.name name (.noFilterLink name (table.nearLink name))) := by
        rw [Filter.condition, hlink]
      have hmembers : (Filter.group .all [.link name f, .link name g]).condition table =
          .error (.unresolved table.name name (.noFilterLink name (table.nearLink name))) := by
        rw [Filter.condition, Filter.memberConditions, hfirst]
        rfl
      rw [ofFilter_of_condition_eq_error htable hmembers,
        ofFilter_of_condition_eq_error htable (by rw [Filter.condition, hlink])]
    | some canonical =>
      have hlinks : ∀ link ∈ [(name, f), (name, g)], table.canonical? link.1 = some canonical := by
        simp [hname]
      exact (Filter.DemandsAlike.onLinks (by simp) hlinks hname).ofFilter_eq htable

/-- **Filters on one link hold together.** At every level of the restriction of a filter there is
one restriction for each link, under its canonical name and in the order in which the links first
appear. It is the restriction of the conjunction of all filters on this link, wherever they stand
under nested conjunctions and whichever name of the link they use. So it makes no difference whether
filters on a link stand side by side or in one place, however many links the two are behind, and in
any conjunction without a further filter on the link. -/
theorem links_merge (schema : Schema) :
    (∀ (tableName : String) (filter : Filter) (r : Restriction),
      ofFilter schema tableName filter = .ok r →
        ∃ table, schema.table? tableName = some table ∧
          ∀ names level, r.Reaches names level → ∃ target f,
            filter.addressed? schema table names = some (target, f) ∧
              level.Merges schema target f) ∧
    (∀ (tableName : String) (names : List String) (name : String) (f g : Filter),
      ofFilter schema tableName
          (Filter.behind names (.group .all [.link name f, .link name g])) =
        ofFilter schema tableName (Filter.behind names (.link name (.group .all [f, g])))) ∧
    ∀ (tableName : String) (table : Table) (name : String) (f g : Filter),
      schema.table? tableName = some table → Filter.Gathers schema table name f g →
        ofFilter schema tableName f = ofFilter schema tableName g := by
  refine ⟨fun tableName filter r h => ?_, fun tableName names name f g => ?_,
    fun tableName table name f g htable h => h.demandsAlike.ofFilter_eq htable⟩
  · obtain ⟨table, htable, -⟩ := exists_merges h
    exact ⟨table, htable, fun names level hlevel => merges_of_reaches htable h hlevel⟩
  · -- behind one link more, what is demanded of the table there is the same by induction
    induction names generalizing tableName with
    | nil => exact ofFilter_pair tableName name f g
    | cons outer names ih => exact ofFilter_link_congr ih tableName outer

/-- Of the owner of a team two things are demanded, under each name of the link one. -/
theorem links_merge_owner_by_both_names :
    let ada := Filter.column "full_name" (.compare .eq (.text "Ada"))
    let housed := Filter.present "address" true
    let named := Filter.present "name" true
    (∃ r sub, ofFilter teamsAndUsers "teams"
        (.group .all [.link "owner" ada, .group .all [named, .link "teams_owner_fkey" housed]]) =
          .ok r ∧
      r.links = [("owner", sub)] ∧
      ofFilter teamsAndUsers "users" (.group .all [ada, housed]) = .ok sub) ∧
    ofFilter teamsAndUsers "teams"
        (.group .all [named, .group .all [.link "owner" ada, .link "teams_owner_fkey" housed]]) =
      ofFilter teamsAndUsers "teams"
        (.group .all [named, .link "owner" (.group .all [ada, housed])]) := by
  intro ada housed named
  obtain ⟨hmerge, -, hgather⟩ := links_merge teamsAndUsers
  constructor
  · obtain ⟨r, hr⟩ := fault?_eq_none_iff.1
      (show fault? (ofFilter teamsAndUsers "teams" (.group .all
        [.link "owner" ada, .group .all [named, .link "teams_owner_fkey" housed]])) = none by
          decide +kernel)
    obtain ⟨table, htable, hlevels⟩ := hmerge _ _ _ hr
    obtain rfl : teamsAndUsers.tables[0] = table := Option.some.inj htable
    obtain ⟨target, f, hf, hmerges⟩ := hlevels [] r (.here r)
    obtain ⟨rfl, rfl⟩ := Prod.mk.inj (Option.some.inj hf)
    have hnames : r.links.map (·.1) = ["owner"] := hmerges.names_eq.trans (by decide +kernel)
    obtain ⟨⟨name, sub⟩, hlinks, rfl⟩ := List.map_eq_singleton_iff.1 hnames
    obtain ⟨found, hfound, hsub⟩ := hmerges.behind "owner" sub (by rw [hlinks]; simp)
    obtain rfl := Option.some.inj hfound
    exact ⟨r, sub, hr, hlinks, hsub⟩
  · have hlinks : ∀ link ∈ [("owner", ada), ("teams_owner_fkey", housed)],
        teamsAndUsers.tables[0].canonical? link.1 = some "owner" := by
      simp only [List.forall_mem_cons, List.not_mem_nil, false_implies, implies_true, and_true]
      decide +kernel
    have hnamed : ∀ member ∈ [named], member.filtersOn teamsAndUsers.tables[0] "owner" = [] := by
      simp [named, Filter.filtersOn]
    exact hgather "teams" teamsAndUsers.tables[0] "owner" _ _ rfl
      (.among [named] [] hnamed (List.forall_mem_nil _)
        (.here [("owner", ada), ("teams_owner_fkey", housed)] (by simp) hlinks
          (by decide +kernel)))

end Restriction

end LinkQuery
