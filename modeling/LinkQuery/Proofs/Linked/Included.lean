import LinkQuery.Proofs.Linked.Clear
import LinkQuery.Proofs.Schema.LinkName

/-!
# Which links a result includes

Paths and filters name links, one behind the other. Here these links are followed through the steps
by which a query is compiled, up to the outline of its result. A path is followed link by link as it
is named. A filter on a link is compiled on the table behind the link that its canonical name finds.

* `Selection.Includes`, `Restriction.Includes` and `Outline.Includes` say that links of given names,
  one behind the other, are included.
* `Selection.includes_ofColumns_iff`: the links of a selection are those of its paths, under their
  canonical names.
* `Restriction.includes_ofFilter`: the links of a filter are among those of its restriction, if none
  of them is shadowed. `Restriction.leads_ofFilter`: whatever a restriction includes leads
  somewhere.
* `Outline.includes_overlay_iff`: an outline includes what is selected and what is restricted.
* `Schema.IsNamed` are the links that paths and a filter name. `Schema.IsNamed.includes`: the
  outline includes them, if none of them is shadowed.
-/

namespace LinkQuery

/-! ### Paths -/

namespace ColumnPath

variable {schema : Schema} {path : ColumnPath}

/-- A path is followed along the links that it names, if these stay within the schema. -/
theorem map_fst_of_follow {base : String} {names : List String} {table : Table}
    {reached : Option (List String × Table)}
    (h : path.follow schema base names table = .ok reached) :
    reached.map (·.1) = (schema.linksAlong? names table).map (·.map (·.2.name)) := by
  induction names generalizing table reached with
  | nil =>
    obtain rfl := Except.ok.inj h
    rfl
  | cons name names ih =>
    rw [follow] at h
    rw [Schema.linksAlong?]
    split at h
    next => simp at h
    next link hlink =>
      rw [hlink]
      split at h
      next hnone =>
        -- the path leads out of the schema
        obtain rfl := Except.ok.inj h
        simp [hnone]
      next target htarget =>
        obtain ⟨behind, hbehind, rfl⟩ := map_eq_ok_iff.1 h
        have hrest := ih hbehind
        cases behind with
        | none =>
          have hnone : schema.linksAlong? names target = none := by simpa using hrest.symm
          simp [htarget, hnone]
        | some found =>
          obtain ⟨steps, hsteps, hhops⟩ := Option.map_eq_some_iff.1 hrest.symm
          simp [htarget, hsteps, hhops]

/-- A path that is resolved takes the links along its names. -/
theorem resolve_eq_ok {table : Table} {hops : Option (List String)}
    (h : path.resolve schema table = .ok hops) :
    hops = (schema.linksAlong? path.links table).map (·.map (·.2.name)) := by
  obtain ⟨reached, hreached, h⟩ := bind_eq_ok_iff.1 h
  rw [← map_fst_of_follow hreached]
  cases reached with
  | none => exact (Except.ok.inj h).symm
  | some found =>
    -- the column is only looked at
    obtain ⟨hops', last⟩ := found
    dsimp only at h
    split at h
    · exact (Except.ok.inj h).symm
    · obtain ⟨-, -, h⟩ := bind_eq_ok_iff.1 h
      exact (Except.ok.inj h).symm

end ColumnPath

/-! ### Selections -/

namespace Selection

/-- The selection includes links of the given names, one behind the other. -/
def Includes : List String → Selection → Prop
  | [], _ => True
  | name :: names, selection => ∃ sub, (name, sub) ∈ selection.links ∧ Includes names sub

theorem includes_empty_iff {names : List String} : empty.Includes names ↔ names = [] := by
  cases names <;> simp [Includes, empty]

/-- What there is behind links after a change, if the change adds just `Q` to it. -/
theorem exists_mem_changeLink_iff {change : Selection → Selection} {P : Selection → Prop} {Q : Prop}
    (hchange : ∀ selection, P (change selection) ↔ P selection ∨ Q) (hempty : P empty → Q)
    {name n : String} {links : List (String × Selection)} :
    (∃ sub, (n, sub) ∈ changeLink change name links ∧ P sub) ↔
      (∃ sub, (n, sub) ∈ links ∧ P sub) ∨ n = name ∧ Q := by
  have hcons : ∀ (m : String) (s : Selection) (rest : List (String × Selection)),
      (∃ sub, (n, sub) ∈ (m, s) :: rest ∧ P sub) ↔
        n = m ∧ P s ∨ ∃ sub, (n, sub) ∈ rest ∧ P sub := by
    simp [or_and_right, exists_or, and_assoc]
  induction links with
  | nil =>
    rw [changeLink, hcons, hchange]
    simpa using fun _ => hempty
  | cons link rest ih =>
    obtain ⟨m, s⟩ := link
    rw [changeLink]
    split
    next hname =>
      rw [hcons, hcons, hchange, hname, and_or_left]
      exact or_right_comm
    next hname =>
      rw [hcons, hcons, or_assoc]
      exact or_congr_right ih

/-- A column behind links includes the first of these links, however many. -/
theorem includes_insert_iff {column : String} {hops names : List String} {selection : Selection} :
    (insert column hops selection).Includes names ↔ selection.Includes names ∨ names <+: hops := by
  induction hops generalizing selection names with
  | nil =>
    cases names with
    | nil => simp [Includes]
    | cons name names => simp [Includes]
  | cons hop hops ih =>
    cases names with
    | nil => simp [Includes]
    | cons name names =>
      rw [List.cons_prefix_cons]
      refine exists_mem_changeLink_iff (fun sub => ih) fun hempty => ?_
      rw [includes_empty_iff.1 hempty]
      exact List.nil_prefix

variable {schema : Schema} {table : Table}

/-- A path that is accepted adds a column behind the links that it leads along, or nothing if it
leads out of the schema. -/
theorem eq_of_addPath {path : ColumnPath} {selection next : Selection}
    (h : selection.addPath schema table path = .ok next) :
    next = ((schema.linksAlong? path.links table).map (·.map (·.2.name))).elim selection fun hops =>
      insert path.selected hops selection := by
  obtain ⟨hops, hhops, h⟩ := bind_eq_ok_iff.1 h
  rw [← ColumnPath.resolve_eq_ok hhops]
  cases hops <;> exact (Except.ok.inj h).symm

/-- A path adds the links that it names, if it stays within the schema. -/
theorem includes_addPath_iff {path : ColumnPath} {selection next : Selection}
    (h : selection.addPath schema table path = .ok next) {names : List String} :
    next.Includes names ↔ selection.Includes names ∨
      ∃ steps, schema.linksAlong? path.links table = some steps ∧
        names <+: steps.map (·.2.name) := by
  rw [eq_of_addPath h]
  cases schema.linksAlong? path.links table with
  | none => simp
  | some steps => simp [includes_insert_iff]

/-- All paths together include the first links of each. -/
theorem includes_foldlM_addPath_iff {paths : List ColumnPath} {start selection : Selection}
    (h : paths.foldlM (addPath schema table) start = .ok selection) {names : List String} :
    selection.Includes names ↔ start.Includes names ∨ ∃ path ∈ paths, ∃ steps,
      schema.linksAlong? path.links table = some steps ∧ names <+: steps.map (·.2.name) := by
  induction paths generalizing start with
  | nil =>
    obtain rfl := Except.ok.inj h
    simp
  | cons path rest ih =>
    rw [List.foldlM_cons] at h
    obtain ⟨next, hnext, h⟩ := bind_eq_ok_iff.1 h
    rw [ih h, includes_addPath_iff hnext, List.exists_mem_cons_iff, or_assoc]

/-- **The links of a selection are those of its paths**, under their canonical names. -/
theorem includes_ofColumns_iff {tableName : String} {columns : List String} {selection : Selection}
    (htable : schema.requireTable tableName = .ok table)
    (h : ofColumns schema tableName columns = .ok selection) {names : List String} :
    selection.Includes names ↔ names = [] ∨ ∃ text ∈ columns, ∃ path steps,
      ColumnPath.parse text = .ok path ∧ schema.linksAlong? path.links table = some steps ∧
        names <+: steps.map (·.2.name) := by
  obtain ⟨paths, hpaths, h⟩ := bind_eq_ok_iff.1 h
  obtain ⟨found, hfound, h⟩ := bind_eq_ok_iff.1 h
  obtain rfl : found = table := Except.ok.inj (hfound.symm.trans htable)
  have hparse := mapM_eq_ok_iff.1 hpaths
  have hstart : selection.Includes names ↔ names = [] ∨ ∃ path ∈ paths, ∃ steps,
      schema.linksAlong? path.links found = some steps ∧ names <+: steps.map (·.2.name) := by
    split at h
    next hempty =>
      -- all columns of the row itself, and no link
      obtain rfl := Except.ok.inj h
      rw [List.isEmpty_iff.1 hempty]
      cases names <;> simp [Includes, everything]
    next => rw [includes_foldlM_addPath_iff h, includes_empty_iff]
  rw [hstart]
  refine or_congr_right ⟨?_, ?_⟩
  · rintro ⟨path, hpath, steps, hsteps⟩
    obtain ⟨text, htext, hpath⟩ := exists_left_of_forall₂ hparse hpath
    exact ⟨text, htext, path, steps, hpath, hsteps⟩
  · rintro ⟨text, htext, path, steps, hpath, hsteps⟩
    obtain ⟨path', hmem, hpath'⟩ := exists_right_of_forall₂ hparse htext
    obtain rfl := Except.ok.inj (hpath.symm.trans hpath')
    exact ⟨path, hmem, steps, hsteps⟩

end Selection

/-! ### Filters and restrictions -/

namespace Filter

/-- The filter names links of the given names, one behind the other, and says something of the rows
behind the last one. -/
inductive Names : Filter → List String → Prop where
  | here {filter : Filter} (h : filter.isSilent = false) : Names filter []
  | behind {filter sub : Filter} {name : String} {names : List String}
      (hmem : (name, sub) ∈ filter.linkFilters) (h : Names sub names) : Names filter (name :: names)

/-- A filter that names links says something. -/
theorem Names.isSilent_eq_false {filter : Filter} {names : List String} (h : filter.Names names) :
    filter.isSilent = false := by
  induction h with
  | here h => exact h
  | @behind filter sub _ _ hmem _ ih =>
    cases hsilent : filter.isSilent with
    | false => rfl
    | true =>
      rw [isSilent_of_mem_linkFilters hsilent hmem] at ih
      exact ih

theorem mem_linkFilters_conjunction {filters : List Filter} {link : String × Filter} :
    link ∈ (conjunction filters).linkFilters ↔ ∃ filter ∈ filters, link ∈ filter.linkFilters := by
  unfold conjunction
  split
  next => simp
  next => rw [linkFilters, memberLinkFilters_eq_flatMap, List.mem_flatMap]

/-- What a member names its conjunction names. -/
theorem Names.conjunction {filters : List Filter} {filter : Filter} (hmem : filter ∈ filters)
    {names : List String} (h : filter.Names names) : (conjunction filters).Names names := by
  cases h with
  | here h =>
    refine .here (Bool.eq_false_iff.2 fun hsilent => ?_)
    rw [(isSilent_conjunction filters).1 hsilent filter hmem] at h
    exact Bool.noConfusion h
  | behind hlink h => exact .behind (mem_linkFilters_conjunction.2 ⟨filter, hmem, hlink⟩) h

/-- What a conjunction names one of its members names. -/
theorem Names.exists_of_conjunction {filters : List Filter} {names : List String}
    (h : (Filter.conjunction filters).Names names) : ∃ filter ∈ filters, filter.Names names := by
  cases h with
  | here h =>
    -- a conjunction is silent if all its members are
    by_contra hnone
    push Not at hnone
    refine Bool.eq_false_iff.1 h ((isSilent_conjunction filters).2 fun filter hmem => ?_)
    by_contra hloud
    exact hnone filter hmem (.here (by simpa using hloud))
  | behind hlink h =>
    obtain ⟨filter, hmem, hlink⟩ := mem_linkFilters_conjunction.1 hlink
    exact ⟨filter, hmem, .behind hlink h⟩

end Filter

namespace Restriction

/-- The restriction demands something of the rows behind links of the given names, one behind the
other. -/
def Includes : List String → Restriction → Prop
  | [], _ => True
  | name :: names, r => ∃ sub, (name, sub) ∈ r.effectiveLinks ∧ Includes names sub

theorem includes_trivial_iff {names : List String} : trivial.Includes names ↔ names = [] := by
  cases names <;> simp [Includes, trivial, effectiveLinks]

variable {schema : Schema} {tableName : String} {table : Table} {filter : Filter} {r : Restriction}

/-- The links of a filter are among those of its restriction, if their own names find them again. -/
theorem includes_ofFilter (htable : schema.requireTable tableName = .ok table)
    (h : ofFilter schema tableName filter = .ok r) {names : List String}
    {steps : List (Table × Link)} (hnames : filter.Names names)
    (hsteps : schema.linksAlong? names table = some steps)
    (hkept : ∀ step ∈ steps, ¬ step.1.isShadowed step.2) : r.Includes (steps.map (·.2.name)) := by
  -- something is demanded only behind links whose filters are not silent
  suffices (r.isTrivial ↔ filter.isSilent) ∧ ∀ names steps, filter.Names names →
      schema.linksAlong? names table = some steps →
      (∀ step ∈ steps, ¬ step.1.isShadowed step.2) → r.Includes (steps.map (·.2.name)) from
    this.2 names steps hnames hsteps hkept
  refine ofFilter_induction (motive := fun table filter r => (r.isTrivial ↔ filter.isSilent) ∧
    ∀ names steps, filter.Names names → schema.linksAlong? names table = some steps →
      (∀ step ∈ steps, ¬ step.1.isShadowed step.2) → r.Includes (steps.map (·.2.name)))
    ?_ htable h
  intro table filter own links hown hlinks
  refine ⟨isTrivial_iff_of_standsBehind (fun _ _ _ h => h.1) hown hlinks, ?_⟩
  intro names steps hnames hsteps hkept
  cases hnames with
  | here =>
    obtain rfl := Option.some.inj hsteps
    exact True.intro
  | @behind _ sub name names hmem hsub =>
    obtain ⟨link, target, rest, hlink, htarget, hrest, rfl⟩ := Schema.linksAlong?_cons_iff.1 hsteps
    obtain ⟨hfirst, hrestKept⟩ := List.forall_mem_cons.1 hkept
    obtain ⟨found, hfound, entry, hentry, hname, filters, key, target', hbehind, hkey, htarget',
      hiff, hincludes⟩ := exists_link_of_mem hown hlinks hmem
    obtain rfl : found = link := Option.some.inj (hfound.symm.trans hlink)
    -- the name of the link finds the link again, and so its table
    rw [hname, (Table.link?_name_iff hlink).2 hfirst] at hkey
    obtain rfl := Option.some.inj hkey
    obtain rfl := Option.some.inj (htarget.symm.trans htarget')
    have hconjunction := hsub.conjunction hbehind
    have hdemanded : entry.2.isTrivial = false := by
      rw [Bool.eq_false_iff, ne_eq, hiff, hconjunction.isSilent_eq_false]
      exact Bool.false_ne_true
    refine ⟨entry.2, List.mem_filter.2 ⟨?_, by simpa using hdemanded⟩,
      hincludes names rest hconjunction hrest hrestKept⟩
    show (found.name, entry.2) ∈ links
    rw [← hname]
    exact hentry

/-- Links behind which a restriction demands something lead from table to table. -/
theorem leads_ofFilter (htable : schema.requireTable tableName = .ok table)
    (h : ofFilter schema tableName filter = .ok r) {names : List String}
    (hnames : r.Includes names) :
    ∃ steps, schema.linksAlong? names table = some steps := by
  refine ofFilter_induction (motive := fun table _ r => ∀ names, r.Includes names →
    ∃ steps, schema.linksAlong? names table = some steps) ?_ htable h names hnames
  intro table filter own links _ hlinks names hnames
  cases names with
  | nil => exact ⟨[], rfl⟩
  | cons name names =>
    obtain ⟨sub, hsub, hnames⟩ := hnames
    obtain ⟨-, -, -, link, target, hlink, htarget, hleads⟩ :=
      exists_group_of_mem hlinks (List.mem_filter.1 hsub).1
    obtain ⟨rest, hrest⟩ := hleads names hnames
    exact ⟨_, Schema.linksAlong?_cons_iff.2 ⟨link, target, rest, hlink, htarget, hrest, rfl⟩⟩

end Restriction

/-! ### Outlines -/

namespace Outline

/-- The outline includes links of the given names, one behind the other. -/
def Includes : List String → Outline → Prop
  | [], _ => True
  | name :: names, outline =>
    ∃ demanded behind, (name, demanded, behind) ∈ outline.links ∧ Includes names behind

/-- **An outline includes the links that are selected and those that are restricted.** -/
theorem includes_overlay_iff {selection : Selection} {r : Restriction} (hr : r.IsDistinct)
    {names : List String} :
    (overlay selection r).Includes names ↔ selection.Includes names ∨ r.Includes names := by
  induction names generalizing selection r with
  | nil => simp [Includes, Selection.Includes]
  | cons name names ih =>
    constructor
    · rintro ⟨demanded, behind, hmem, hnames⟩
      obtain ⟨columns, links⟩ := selection
      rw [overlay, overlayLinks_eq, ofLinks_eq] at hmem
      obtain hmem | hmem := List.mem_append.1 hmem
      · -- the link is selected, and what is demanded behind it is restricted
        obtain ⟨⟨n, selected⟩, hselected, heq⟩ := List.mem_map.1 hmem
        obtain ⟨rfl, hbehind⟩ := Prod.mk.inj heq
        obtain ⟨-, rfl⟩ := Prod.mk.inj hbehind
        obtain hnames | hnames := (ih (isDistinct_demand hr n)).1 hnames
        · exact .inl ⟨selected, hselected, hnames⟩
        · cases hdemand : (r.link? n).filter fun r => !r.isTrivial with
          | none =>
            rw [hdemand, Option.getD_none, Restriction.includes_trivial_iff] at hnames
            exact .inl ⟨selected, hselected, hnames ▸ True.intro⟩
          | some sub =>
            rw [hdemand] at hnames
            obtain ⟨hlink, htrivial⟩ := Option.filter_eq_some_iff.1 hdemand
            exact .inr ⟨sub, List.mem_filter.2 ⟨mem_of_lookup_eq_some hlink, htrivial⟩, hnames⟩
      · -- the link is only restricted, and nothing is selected behind it
        obtain ⟨⟨n, sub⟩, hsub, heq⟩ := List.mem_map.1 (List.mem_filter.1 hmem).1
        obtain ⟨rfl, hbehind⟩ := Prod.mk.inj heq
        obtain ⟨-, rfl⟩ := Prod.mk.inj hbehind
        dsimp only at hnames
        rw [← overlay_empty, ih (hr.of_mem_effectiveLinks hsub), Selection.includes_empty_iff]
          at hnames
        obtain rfl | hnames := hnames
        · exact .inr ⟨sub, hsub, True.intro⟩
        · exact .inr ⟨sub, hsub, hnames⟩
    · rintro (⟨sub, hsub, hnames⟩ | ⟨sub, hsub, hnames⟩)
      · -- what is selected is laid over something or nothing, and stays
        obtain ⟨columns, links⟩ := selection
        rw [overlay, overlayLinks_eq]
        exact ⟨_, _, List.mem_append_left _ (List.mem_map.2 ⟨(name, sub), hsub, rfl⟩),
          (ih (isDistinct_demand hr name)).2 (.inl hnames)⟩
      · -- what is restricted is laid under something selected, or under nothing
        obtain ⟨selected, hmem⟩ := exists_mem_links_overlay selection hr hsub
        exact ⟨true, _, hmem, (ih (hr.of_mem_effectiveLinks hsub)).2 (.inr hnames)⟩

end Outline

/-! ### What is named -/

namespace Schema

variable {schema : Schema} {columns : List String} {filter : Filter} {table : Table}
  {steps : List (Table × Link)}

/-- A path or the filter names the links, one behind the other. A path that leads out of the schema
is passed over, and so is a filter that says nothing. -/
def IsNamed (schema : Schema) (columns : List String) (filter : Filter) (table : Table)
    (steps : List (Table × Link)) : Prop :=
  (∃ text ∈ columns, ∃ path whole, ColumnPath.parse text = .ok path ∧
    schema.linksAlong? path.links table = some whole ∧ steps <+: whole) ∨
  ∃ names, filter.Names names ∧ schema.linksAlong? names table = some steps

/-- Links that are named are found along names. -/
theorem IsNamed.exists_names (h : schema.IsNamed columns filter table steps) :
    ∃ names, schema.linksAlong? names table = some steps := by
  obtain ⟨-, -, path, whole, -, hwhole, hbegins⟩ | ⟨names, -, hsteps⟩ := h
  · refine ⟨path.links.take steps.length, ?_⟩
    rw [linksAlong?_take hwhole, ← List.prefix_iff_eq_take.1 hbegins]
  · exact ⟨names, hsteps⟩

/-- **What is named is included**, if its own names find it again. -/
theorem IsNamed.includes {tableName : String} {selection : Selection} {r : Restriction}
    (h : schema.IsNamed columns filter table steps)
    (htable : schema.requireTable tableName = .ok table)
    (hselection : Selection.ofColumns schema tableName columns = .ok selection)
    (hr : Restriction.ofFilter schema tableName filter = .ok r)
    (hkept : ∀ step ∈ steps, ¬ step.1.isShadowed step.2) :
    (Outline.overlay selection r).Includes (steps.map (·.2.name)) := by
  refine (Outline.includes_overlay_iff (Restriction.isDistinct_ofFilter htable hr)).2 ?_
  obtain ⟨text, htext, path, whole, hpath, hwhole, hbegins⟩ | ⟨names, hnames, hsteps⟩ := h
  · exact .inl ((Selection.includes_ofColumns_iff htable hselection).2
      (.inr ⟨text, htext, path, whole, hpath, hwhole, hbegins.map _⟩))
  · exact .inr (Restriction.includes_ofFilter htable hr hnames hsteps hkept)

end Schema

end LinkQuery
