import LinkQuery.Filter.Restriction
import LinkQuery.Proofs.Outcome

/-!
# The restriction of a filter

A filter is taken apart link by link: the filters on one link are collected, and behind it stands
the restriction of their conjunction on the table of the link. What holds of restrictions is proved
along these steps.

* `Restriction.ofFilter_induction` is the induction. A step sees the condition of a filter, the
  groups of its filters on links, and the restriction behind each of them.
* `nodup_map_fst_groupByName` and `exists_mem_groupByName`: there is one group for each name.
-/

namespace LinkQuery

/-! ### Entries and groups -/

/-- What is looked up is an entry. -/
theorem mem_of_lookup_eq_some {α : Type} {entries : List (String × α)} {name : String} {value : α}
    (h : entries.lookup name = some value) : (name, value) ∈ entries := by
  obtain ⟨before, after, rfl, -⟩ := List.lookup_eq_some_iff.1 h
  simp

/-- Without its duplicates a list has none. -/
theorem nodup_eraseDups {α : Type} [BEq α] [LawfulBEq α] (as : List α) : as.eraseDups.Nodup := by
  induction hlength : as.length using Nat.strongRecOn generalizing as with
  | _ n ih =>
    cases as with
    | nil => exact List.nodup_nil
    | cons a rest =>
      have hless : (rest.filter fun b => !b == a).length < n := by
        rw [← hlength]
        exact Nat.lt_succ_of_le (List.length_filter_le _ _)
      rw [List.eraseDups_cons, List.nodup_cons]
      refine ⟨fun hmem => ?_, ih _ hless _ rfl⟩
      -- the head has been taken out of the rest
      have hfilter := List.mem_filter.1 (List.mem_eraseDups.1 hmem)
      simp at hfilter

/-- Each name has one group. -/
theorem nodup_map_fst_groupByName {α : Type} (items : List (String × α)) :
    ((groupByName items).map (·.1)).Nodup := by
  rw [groupByName, List.map_map]
  exact (List.map_id _).symm ▸ nodup_eraseDups _

/-- Every item is in the group of its name. -/
theorem exists_mem_groupByName {α : Type} {items : List (String × α)} {name : String} {item : α}
    (h : (name, item) ∈ items) : ∃ group ∈ groupByName items, group.1 = name ∧ item ∈ group.2 := by
  refine ⟨(name, itemsUnder name items), List.mem_map.2 ⟨name, ?_, rfl⟩, rfl, mem_itemsUnder.2 h⟩
  exact List.mem_eraseDups.2 (List.mem_map.2 ⟨(name, item), h, rfl⟩)

/-- Changing the items changes those under a name. -/
theorem itemsUnder_map {α β : Type} (g : α → β) (name : String) (items : List (String × α)) :
    itemsUnder name (items.map (Prod.map id g)) = (itemsUnder name items).map g := by
  rw [itemsUnder, itemsUnder, List.filterMap_map, List.map_filterMap]
  refine List.filterMap_congr fun entry _ => ?_
  obtain ⟨n, item⟩ := entry
  show (if n = name then some (g item) else none) =
    Option.map g (if n = name then some item else none)
  split <;> rfl

/-- What is collected under names may be changed before it is collected. -/
theorem groupByName_map {α β : Type} (g : α → β) (items : List (String × α)) :
    groupByName (items.map (Prod.map id g)) =
      (groupByName items).map (Prod.map id (List.map g)) := by
  have hnames : (items.map (Prod.map id g)).map (·.1) = items.map (·.1) := by
    rw [List.map_map]
    rfl
  rw [groupByName, groupByName, hnames, List.map_map]
  refine List.map_congr_left fun name _ => ?_
  exact congrArg (Prod.mk name) (itemsUnder_map g name items)

/-! ### Tables -/

/-- A table is required successfully when it is found. -/
theorem Schema.requireTable_eq_ok_iff {schema : Schema} {name : String} {table : Table} :
    schema.requireTable name = .ok table ↔ schema.table? name = some table := by
  unfold requireTable
  cases schema.table? name <;> simp

/-- A table that is required by its name is the one that has it. -/
theorem Schema.eq_of_requireTable {schema : Schema} {name : String} {found table : Table}
    (hfound : schema.requireTable name = .ok found) (htable : schema.table? name = some table) :
    found = table :=
  Option.some.inj ((requireTable_eq_ok_iff.1 hfound).symm.trans htable)

namespace Restriction

/-- The target of a link is a table of the schema. -/
theorem exists_of_linkTarget_eq_ok {schema : Schema} {table : Table} {name target : String}
    (h : linkTarget schema table name = .ok target) :
    ∃ link found, table.link? name = some link ∧ link.targetTable = target ∧
      schema.table? target = some found := by
  unfold linkTarget at h
  split at h
  next => simp at h
  next link hlink =>
    split at h
    next => simp at h
    next found hfound =>
      obtain rfl := Except.ok.inj h
      exact ⟨link, found, hlink, rfl, hfound⟩

/-! ### Induction -/

/-- A filter is read for a table of the schema. -/
theorem exists_table_of_ofFilter {schema : Schema} {tableName : String} {filter : Filter}
    {r : Restriction} (h : ofFilter schema tableName filter = .ok r) :
    ∃ table, schema.requireTable tableName = .ok table := by
  rw [ofFilter_eq] at h
  obtain ⟨table, htable, -⟩ := bind_eq_ok_iff.1 h
  exact ⟨table, htable⟩

/-- The restriction `link` stands behind the link of a group of filters, and something holds of it.
-/
def StandsBehind (schema : Schema) (table : Table) (motive : Table → Filter → Restriction → Prop)
    (group : String × List Filter) (link : String × Restriction) : Prop :=
  link.1 = group.1 ∧ ∃ found target, table.link? group.1 = some found ∧
    schema.table? found.targetTable = some target ∧
    motive target (Filter.conjunction group.2) link.2

/-- **Induction along the links of a filter.** What holds of a restriction if it holds of those
behind its links holds of the restriction of every filter. -/
theorem ofFilter_induction {schema : Schema} {motive : Table → Filter → Restriction → Prop}
    (step : ∀ table filter own links, filter.condition table = .ok own →
      List.Forall₂ (StandsBehind schema table motive) (filter.linkGroups table) links →
      motive table filter ⟨own, links⟩)
    {tableName : String} {table : Table} {filter : Filter} {r : Restriction}
    (htable : schema.requireTable tableName = .ok table)
    (h : ofFilter schema tableName filter = .ok r) : motive table filter r := by
  -- a filter on a link goes one link less deep
  induction hdepth : filter.linkDepth using Nat.strongRecOn
    generalizing filter tableName table r with
  | _ depth ih =>
    rw [ofFilter_eq] at h
    obtain ⟨found, hfound, h⟩ := bind_eq_ok_iff.1 h
    obtain rfl : found = table := Except.ok.inj (hfound.symm.trans htable)
    obtain ⟨own, hown, h⟩ := bind_eq_ok_iff.1 h
    obtain ⟨links, hlinks, h⟩ := bind_eq_ok_iff.1 h
    obtain rfl := Except.ok.inj h
    -- each group gives the restriction of its conjunction, on the table behind its link
    refine step found filter own links hown (forall₂_of_mapM_eq_ok hlinks ?_)
    intro group hgroup link hlink
    obtain ⟨target, htarget, hlink⟩ := bind_eq_ok_iff.1 hlink
    obtain ⟨sub, hsub, hlink⟩ := bind_eq_ok_iff.1 hlink
    obtain rfl := Except.ok.inj hlink
    obtain ⟨key, behind, hkey, rfl, hbehind⟩ := exists_of_linkTarget_eq_ok htarget
    have hless := Filter.linkDepth_lt_of_mem_linkGroups hgroup
    exact ⟨rfl, key, behind, hkey, hbehind,
      ih _ (hdepth ▸ hless) (Schema.requireTable_eq_ok_iff.2 hbehind) hsub rfl⟩

end Restriction

end LinkQuery
