import LinkQuery.Filter.Compile
import LinkQuery.Grouping

/-!
# Restrictions

What a filter demands is spread over several tables: a condition on the rows of its own table, and
for each link it mentions what is demanded of the rows behind that link. A *restriction* is this
tree.

Filters on one link may stand in several places, under the name of its column or of its constraint.
They are collected under the canonical name, and hold together.

* `Restriction` is the tree, and `Restriction.isTrivial` holds of one that demands nothing.
* `Restriction.ofFilter` makes the restriction of a filter on a table. It ends because a filter on a
  link goes one link less deep than the filter it stands in.
-/

namespace LinkQuery

/-- What is demanded of the rows of a table and, under the canonical names of links, of the rows
behind them. -/
structure Restriction where
  own : Option Sql.Condition
  links : List (String × Restriction)
  deriving Repr, Inhabited

namespace Restriction

/-- The restriction that demands nothing. -/
def trivial : Restriction := ⟨none, []⟩

mutual

/-- Whether nothing is demanded, of any row. -/
def isTrivial : Restriction → Bool
  | ⟨own, links⟩ => own.isNone && areTrivial links

/-- Whether nothing is demanded behind any of the links. -/
def areTrivial : List (String × Restriction) → Bool
  | [] => true
  | (_, r) :: rest => isTrivial r && areTrivial rest

end

/-- What is demanded behind a link. -/
def link? (r : Restriction) (name : String) : Option Restriction := r.links.lookup name

/-- The links behind which something is demanded. -/
def effectiveLinks (r : Restriction) : List (String × Restriction) :=
  r.links.filter fun (_, sub) => !sub.isTrivial

end Restriction

/-! ### The filters on each link -/

namespace Filter

/-- The filters on each link that is mentioned, under its canonical name. -/
def linkGroups (table : Table) (filter : Filter) : List (String × List Filter) :=
  groupByName <| filter.linkFilters.filterMap fun (name, f) =>
    (table.link? name).map fun link => (link.name, f)

theorem linkDepth_conjunction (filters : List Filter) :
    (conjunction filters).linkDepth = maxLinkDepth filters := by
  unfold conjunction
  split <;> simp [linkDepth, maxLinkDepth]

theorem maxLinkDepth_lt {filters : List Filter} {n : Nat} (h : ∀ f ∈ filters, f.linkDepth < n)
    (hn : 0 < n) : maxLinkDepth filters < n := by
  induction filters with
  | nil => simpa [maxLinkDepth]
  | cons f rest ih =>
    have := h f (by simp)
    have := ih fun g hg => h g (by simp [hg])
    simp only [maxLinkDepth]
    omega

mutual

theorem linkDepth_lt_of_mem_linkFilters {filter : Filter} {p : String × Filter}
    (h : p ∈ filter.linkFilters) : p.2.linkDepth < filter.linkDepth := by
  match filter with
  | group .all members =>
    simp only [linkFilters] at h
    simpa [linkDepth] using linkDepth_lt_of_mem_memberLinkFilters h
  | link name f =>
    simp only [linkFilters, List.mem_singleton] at h
    subst h
    simp [linkDepth]
  | group .any _ | group .notAll _ | group .notAny _ | column _ _ | present _ _ =>
    simp [linkFilters] at h

theorem linkDepth_lt_of_mem_memberLinkFilters {filters : List Filter} {p : String × Filter}
    (h : p ∈ memberLinkFilters filters) : p.2.linkDepth < maxLinkDepth filters := by
  match filters with
  | [] => simp [memberLinkFilters] at h
  | f :: rest =>
    simp only [memberLinkFilters, List.mem_append] at h
    simp only [maxLinkDepth]
    rcases h with h | h
    · have := linkDepth_lt_of_mem_linkFilters h; omega
    · have := linkDepth_lt_of_mem_memberLinkFilters h; omega

end

theorem linkDepth_lt_of_mem_linkGroups {table : Table} {filter : Filter}
    {group : String × List Filter} (h : group ∈ filter.linkGroups table) :
    (conjunction group.2).linkDepth < filter.linkDepth := by
  have hmem : ∀ f ∈ group.2, f.linkDepth < filter.linkDepth := by
    intro f hf
    obtain ⟨⟨name, f'⟩, hlink, hsome⟩ := List.mem_filterMap.1 (mem_of_mem_groupByName h hf)
    simp only [Option.map_eq_some_iff, Prod.mk.injEq] at hsome
    obtain ⟨_, _, _, rfl⟩ := hsome
    exact linkDepth_lt_of_mem_linkFilters hlink
  obtain ⟨f, hf⟩ := exists_mem_of_mem_groupByName h
  rw [linkDepth_conjunction]
  exact maxLinkDepth_lt hmem (by have := hmem f hf; omega)

end Filter

/-! ### The restriction of a filter -/

namespace Restriction

/-- The table behind a link, given by its canonical name. -/
def linkTarget (schema : Schema) (table : Table) (name : String) : Except Error String :=
  match table.link? name with
  | none => .error (.unresolved table.name name .linkLost)
  | some link =>
    match schema.table? link.targetTable with
    | none => .error (.unresolved table.name name (.unknownTarget link.targetTable))
    | some _ => .ok link.targetTable

/-- The restriction of a filter on a table. -/
def ofFilter (schema : Schema) (tableName : String) (filter : Filter) :
    Except Error Restriction := do
  let table ← schema.requireTable tableName
  let own ← filter.condition table
  let links ← (filter.linkGroups table).attach.mapM fun ⟨(name, filters), _h⟩ => do
    let target ← linkTarget schema table name
    .ok (name, ← ofFilter schema target (Filter.conjunction filters))
  .ok ⟨own, links⟩
  termination_by filter.linkDepth
  decreasing_by exact Filter.linkDepth_lt_of_mem_linkGroups _h

theorem ofFilter_eq (schema : Schema) (tableName : String) (filter : Filter) :
    ofFilter schema tableName filter = (do
      let table ← schema.requireTable tableName
      let own ← filter.condition table
      let links ← (filter.linkGroups table).mapM fun group => do
        let target ← linkTarget schema table group.1
        .ok (group.1, ← ofFilter schema target (Filter.conjunction group.2))
      .ok ⟨own, links⟩) := by
  rw [ofFilter]
  simp only [List.mapM_subtype, List.unattach_attach]

end Restriction

end LinkQuery
