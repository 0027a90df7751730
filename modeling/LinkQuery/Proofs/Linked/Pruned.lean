import LinkQuery.Proofs.Linked.Clear

/-!
# What demands nothing leaves no trace

A filter may mention links without demanding anything behind them. Its restriction has these links,
at any depth, and the statement does not: an outline includes a link only if the link is selected or
something is demanded behind it, and so do all tests that a statement makes.

The outline asks this in several places: which links are restricted only, which of the selected ones
are demanded, and in which tests the select is enclosed. It finds the restriction behind a link by
the name of the link. So the answers agree only because no name stands for two links, one of them
trivial.

* `Restriction.pruned` is a restriction without the links behind which nothing is demanded.
* `Outline.overlay_pruned`: a selection laid over it gives the same outline.
* `Sql.Select.keepsAll` holds of a select that leaves out no rows, and
  `Sql.SelectStatement.exists_of_build_trivial` is the shape of a statement without a restriction.
* `Sql.SelectStatement.build_pruned` puts the two together.
-/

namespace LinkQuery

open Sql

/-! ### Restrictions without trivial links -/

namespace Restriction

mutual

/-- The restriction without the links behind which nothing is demanded, at every level. -/
def pruned : Restriction → Restriction
  | ⟨own, links⟩ => ⟨own, prunedLinks links⟩

/-- The links behind which something is demanded, themselves pruned. -/
def prunedLinks : List (String × Restriction) → List (String × Restriction)
  | [] => []
  | (name, r) :: rest =>
    if r.isTrivial then prunedLinks rest else (name, pruned r) :: prunedLinks rest

end

theorem own_pruned (r : Restriction) : r.pruned.own = r.own := by
  obtain ⟨own, links⟩ := r
  rw [pruned]

/-- Pruning keeps the links that restrict anything, each of them pruned. -/
theorem prunedLinks_eq (links : List (String × Restriction)) :
    prunedLinks links =
      (links.filter fun link => !link.2.isTrivial).map (Prod.map id pruned) := by
  -- dropping the trivial links first and pruning the rest afterwards is what the recursion does
  induction links with
  | nil => rfl
  | cons link rest ih =>
    obtain ⟨name, r⟩ := link
    rw [prunedLinks, ih]
    cases htrivial : r.isTrivial <;> simp [htrivial]

theorem links_pruned (r : Restriction) :
    r.pruned.links = r.effectiveLinks.map (Prod.map id pruned) := by
  obtain ⟨own, links⟩ := r
  rw [pruned, prunedLinks_eq]
  rfl

mutual

/-- Nothing less is demanded. -/
theorem isTrivial_pruned (r : Restriction) : r.pruned.isTrivial = r.isTrivial := by
  match r with
  | ⟨own, links⟩ => rw [pruned, isTrivial, isTrivial, areTrivial_prunedLinks links]

/-- Pruning changes nothing about what is trivial. -/
theorem areTrivial_prunedLinks (links : List (String × Restriction)) :
    areTrivial (prunedLinks links) = areTrivial links := by
  match links with
  | [] => rfl
  | (name, r) :: rest =>
    rw [prunedLinks, areTrivial]
    -- a dropped link is trivial and a kept one is as trivial as its pruned form
    split
    next htrivial => rw [htrivial, Bool.true_and, areTrivial_prunedLinks rest]
    next => rw [areTrivial, isTrivial_pruned r, areTrivial_prunedLinks rest]

end

/-- Every link that is left restricts something. -/
theorem effectiveLinks_pruned (r : Restriction) :
    r.pruned.effectiveLinks = r.effectiveLinks.map (Prod.map id pruned) := by
  rw [effectiveLinks, links_pruned, List.filter_eq_self]
  rintro ⟨name, sub⟩ hmem
  obtain ⟨link, hlink, heq⟩ := List.mem_map.1 hmem
  -- a link that survives is the pruned form of one that was not trivial
  obtain ⟨-, rfl⟩ := Prod.mk.inj heq
  show (!link.2.pruned.isTrivial) = true
  rw [isTrivial_pruned]
  exact (List.mem_filter.1 hlink).2

theorem map_fst_effectiveLinks_pruned (r : Restriction) :
    r.pruned.effectiveLinks.map (·.1) = r.effectiveLinks.map (·.1) := by
  rw [effectiveLinks_pruned, List.map_map]
  rfl

/-- Of a restriction that demands nothing, nothing is left. -/
theorem pruned_of_isTrivial {r : Restriction} (h : r.isTrivial) : r.pruned = trivial := by
  obtain ⟨own, links⟩ := r
  rw [isTrivial, Bool.and_eq_true] at h
  obtain rfl := Option.isNone_iff_eq_none.1 h.1
  -- nothing is restricted behind any link, so every one of them is dropped
  have hlinks : links.filter (fun link => !link.2.isTrivial) = [] := by
    rw [List.filter_eq_nil_iff]
    intro link hlink
    simpa using areTrivial_iff.1 h.2 link hlink
  rw [pruned, prunedLinks_eq, hlinks]
  rfl

mutual

/-- Pruning keeps the links distinct. -/
theorem isDistinct_pruned {r : Restriction} (h : r.IsDistinct) : r.pruned.IsDistinct := by
  match r with
  | ⟨own, links⟩ =>
    refine ⟨?_, areDistinct_prunedLinks h.2⟩
    -- pruning drops names and changes none, so they stay distinct
    have hnames : (prunedLinks links).map (·.1) =
        (links.filter fun link => !link.2.isTrivial).map (·.1) := by
      rw [prunedLinks_eq, List.map_map]
      rfl
    rw [hnames]
    exact h.1.sublist (List.filter_sublist.map _)

theorem areDistinct_prunedLinks {links : List (String × Restriction)} (h : AreDistinct links) :
    AreDistinct (prunedLinks links) := by
  match links with
  | [] => exact True.intro
  | (name, r) :: rest =>
    rw [prunedLinks]
    split
    · exact areDistinct_prunedLinks h.2
    · exact ⟨isDistinct_pruned h.1, areDistinct_prunedLinks h.2⟩

end

/-- What is demanded behind a link, if no name stands for two links. -/
theorem IsDistinct.demand_eq_some_iff {r sub : Restriction} (hr : r.IsDistinct) {name : String} :
    ((r.link? name).filter fun r => !r.isTrivial) = some sub ↔ (name, sub) ∈ r.effectiveLinks := by
  rw [Option.filter_eq_some_iff, effectiveLinks, List.mem_filter]
  exact and_congr_left' ⟨mem_of_lookup_eq_some, hr.lookup_eq⟩

/-- What is demanded behind a link is pruned with it. -/
theorem IsDistinct.demand_pruned {r : Restriction} (hr : r.IsDistinct) (name : String) :
    ((r.pruned.link? name).filter fun r => !r.isTrivial) =
      ((r.link? name).filter fun r => !r.isTrivial).map pruned := by
  ext sub
  -- both sides are looked up among the links that restrict anything, where names are distinct
  rw [(isDistinct_pruned hr).demand_eq_some_iff, effectiveLinks_pruned, Option.map_eq_some_iff,
    List.mem_map]
  constructor
  · rintro ⟨⟨n, r'⟩, hmem, heq⟩
    obtain ⟨rfl, rfl⟩ := Prod.mk.inj heq
    exact ⟨r', hr.demand_eq_some_iff.2 hmem, rfl⟩
  · rintro ⟨r', hdemand, rfl⟩
    exact ⟨(name, r'), hr.demand_eq_some_iff.1 hdemand, rfl⟩

end Restriction

/-! ### Outlines -/

namespace Outline

mutual

/-- A restriction and its pruned form have one outline. -/
theorem ofRestriction_pruned (r : Restriction) : ofRestriction r.pruned = ofRestriction r := by
  have hdemanded := Restriction.map_fst_effectiveLinks_pruned r
  match r with
  | ⟨own, links⟩ =>
    rw [Restriction.pruned] at hdemanded ⊢
    rw [ofRestriction, ofRestriction, hdemanded, ofLinks_prunedLinks links]

theorem ofLinks_prunedLinks (links : List (String × Restriction)) :
    ofLinks (Restriction.prunedLinks links) = ofLinks links := by
  match links with
  | [] => rfl
  | (name, r) :: rest =>
    rw [Restriction.prunedLinks, ofLinks]
    -- a dropped link leads to no outline, and a kept one to the outline of its pruned form
    split
    · exact ofLinks_prunedLinks rest
    next htrivial =>
      rw [ofLinks, Restriction.isTrivial_pruned, if_neg htrivial, ofRestriction_pruned r,
        ofLinks_prunedLinks rest]

end

mutual

/-- **The outline does not tell what has been pruned.** -/
theorem overlay_pruned {selection : Selection} {r : Restriction} (hr : r.IsDistinct) :
    overlay selection r.pruned = overlay selection r := by
  -- only the links without a selection are outlined from the restriction alone
  have hrestricted : ofLinks r.pruned.links = ofLinks r.links := by
    obtain ⟨own, links⟩ := r
    rw [Restriction.pruned, ofLinks_prunedLinks]
  match selection with
  | ⟨columns, links⟩ =>
    rw [overlay, overlay, Restriction.map_fst_effectiveLinks_pruned, hrestricted,
      Restriction.own_pruned, overlayLinks_pruned links hr]

theorem overlayLinks_pruned (links : List (String × Selection)) {r : Restriction}
    (hr : r.IsDistinct) : overlayLinks links r.pruned = overlayLinks links r := by
  match links with
  | [] => rfl
  | (name, selection) :: rest =>
    rw [overlayLinks, overlayLinks, hr.demand_pruned, overlayLinks_pruned rest hr]
    -- a selected link is restricted by what survives under its name
    cases hdemand : (r.link? name).filter fun r => !r.isTrivial with
    | none => rfl
    | some sub =>
      have hsub := hr.of_mem_effectiveLinks (hr.demand_eq_some_iff.1 hdemand)
      simp only [Option.map_some, Option.getD_some, Option.isSome_some, overlay_pruned hsub]

end

end Outline

/-! ### Statements without a restriction -/

namespace Sql.Select

mutual

/-- No rows are left out, at any depth: there is no condition, no linked row has to be there, and
nothing is enclosed in a test. -/
def keepsAll : Select → Bool
  | level _ links _ _ _ condition => condition.isNone && linksKeepAll links
  | whereLinked _ _ => false

/-- The same for the selects of linked rows. -/
def linksKeepAll : List (String × Bool × Select) → Bool
  | [] => true
  | (_, demanded, inner) :: rest => !demanded && keepsAll inner && linksKeepAll rest

end

end Sql.Select

namespace Outline

variable {schema : Schema}

/-- What is selected without a restriction. -/
theorem overlay_trivial (selection : Selection) :
    overlay selection .trivial =
      { columns := selection.columns
        condition := none
        links := selection.links.map fun link => (link.1, false, overlay link.2 .trivial)
        demanded := [] } := by
  obtain ⟨columns, links⟩ := selection
  rw [overlay, overlayLinks_eq]
  simp [Restriction.trivial, Restriction.link?, ofLinks, Restriction.effectiveLinks]

mutual

/-- Without a restriction no rows are left out. -/
theorem keepsAll_select {selection : Selection} {table : Table} {correlation : Option Correlation}
    {asName : Option String} {extra : List String} {s : Select}
    (hs : (overlay selection .trivial).select schema table correlation asName extra = .ok s) :
    s.keepsAll := by
  match selection with
  | ⟨columns, links⟩ =>
    -- no condition at this level, and nothing is demanded behind a link
    rw [overlay_trivial] at hs
    obtain ⟨inner, hinner, rfl⟩ := exists_of_select hs
    rw [enclose_nil, Select.keepsAll, Option.isNone_none, Bool.true_and]
    exact linksKeepAll_selectLinks hinner

theorem linksKeepAll_selectLinks {links : List (String × Selection)} {table : Table}
    {visible : String} {inner : List (String × Bool × Select)}
    (hs : selectLinks schema table visible
      (links.map fun link => (link.1, false, overlay link.2 .trivial)) = .ok inner) :
    Select.linksKeepAll inner := by
  match links with
  | [] =>
    obtain rfl := Except.ok.inj hs
    rfl
  | (name, selection) :: rest =>
    obtain ⟨_, _, behind, others, -, -, hbehind, hothers, rfl⟩ := exists_of_selectLinks_cons hs
    rw [Select.linksKeepAll, keepsAll_select hbehind, linksKeepAll_selectLinks hothers]
    rfl

end

end Outline

namespace Sql.SelectStatement

variable {schema : Schema}

/-- **A statement without a restriction** is a single level, which delivers what is selected and
nothing for the sake of the order. It includes the links that are selected, and leaves out no rows
at any depth. -/
theorem exists_of_build_trivial {base : String} {selection : Selection} {order : List SortTerm}
    {limit : Option (Nat × Nat)} {s : SelectStatement}
    (hs : build schema base selection .trivial order limit = .ok s) :
    ∃ table inner, schema.table? base = some table ∧
      s.select = .level
        (Outline.ownColumns table selection.columns [] (selection.links.map (·.1))) inner table.name
        none none none ∧
      inner.map (·.1) = selection.links.map (·.1) ∧ s.select.keepsAll := by
  obtain ⟨table, htable, hselect, -, -⟩ := exists_of_build hs
  have hkeeps := Outline.keepsAll_select hselect
  rw [Outline.overlay_trivial] at hselect
  obtain ⟨inner, hinner, heq⟩ := Outline.exists_of_select hselect
  -- the links emitted are the selected ones, in their order
  have hnames :
      (selection.links.map fun link => (link.1, false, Outline.overlay link.2 .trivial)).map
      (·.1) = selection.links.map (·.1) := by
    rw [List.map_map]
    rfl
  refine ⟨table, inner, Schema.requireTable_eq_ok_iff.1 htable, ?_, ?_, hkeeps⟩
  · rw [heq, Outline.linkNames, hnames]
    rfl
  · rw [Outline.map_fst_selectLinks hinner, hnames]

/-- **What demands nothing leaves no trace.** For every filter that can be compiled, the links
behind which nothing is demanded may be left out of its restriction, at every level: whatever is
selected, from whichever table and in whichever order, there is the same statement or the same
fault. A filter that demands nothing at all is as good as none, and the statement is then a single
level in which nothing is left out, tested or added. -/
theorem build_pruned {tableName : String} {filter : Filter} {r : Restriction}
    (h : Restriction.ofFilter schema tableName filter = .ok r) (base : String)
    (selection : Selection) (order : List SortTerm) (limit : Option (Nat × Nat)) :
    build schema base selection r.pruned order limit = build schema base selection r order limit ∧
      (r.isTrivial →
        Restriction.ofFilter schema tableName (Filter.conjunction []) = .ok .trivial ∧
        build schema base selection r order limit =
          build schema base selection .trivial order limit ∧
        ∀ s, build schema base selection r order limit = .ok s →
          ∃ table inner, schema.table? base = some table ∧
            s.select = .level
              (Outline.ownColumns table selection.columns [] (selection.links.map (·.1))) inner
              table.name none none none ∧
            inner.map (·.1) = selection.links.map (·.1) ∧ s.select.keepsAll) := by
  obtain ⟨table, htable⟩ := Restriction.exists_table_of_ofFilter h
  -- the restriction enters a statement only through its overlay on the selection
  have hpruned : build schema base selection r.pruned order limit =
      build schema base selection r order limit := by
    unfold build
    rw [Outline.overlay_pruned (Restriction.isDistinct_ofFilter htable h)]
  refine ⟨hpruned, fun htrivial => ?_⟩
  -- a trivial restriction is pruned to the one without conditions
  rw [Restriction.pruned_of_isTrivial htrivial] at hpruned
  refine ⟨?_, hpruned.symm, fun s hs => exists_of_build_trivial (hpruned.trans hs)⟩
  rw [Restriction.ofFilter_eq, htable]
  rfl

/-- Teams with an owner and a lead, who are users, and users with a team of their own. -/
def ownersWithTeams : Schema :=
  ⟨[((Table.named "teams").addPrimaryKey "xata_id" "text").addLink "owner" "users" |>.addLink "lead"
      "users",
    (Table.named "users").addPrimaryKey "xata_id" "text" |>.addColumn "full_name" "text"
      |>.addLink "team" "teams"]⟩

/-- Nothing is demanded of the lead, nor of the team of the owner. The owner alone is left of the
first filter, and nothing of the second one. -/
theorem build_pruned_owner_and_lead :
    let filter := Filter.group .all
      [.link "owner" (.group .all
        [.column "full_name" (.compare .eq (.text "Ada")), .link "team" (.group .all [])]),
        .link "lead" (.group .any [])]
    let silent := Filter.link "owner" (.link "team" (.group .all []))
    let build (r : Restriction) :=
      build ownersWithTeams "teams" ⟨["*"], [("lead", .everything)]⟩ r [.asc "xata_id"] none
    ∃ r r', Restriction.ofFilter ownersWithTeams "teams" filter = .ok r ∧
      Restriction.ofFilter ownersWithTeams "teams" silent = .ok r' ∧
      r.links.map (·.1) = ["owner", "lead"] ∧ r.pruned.links.map (·.1) = ["owner"] ∧
      build r.pruned = build r ∧
      r'.links.map (·.1) = ["owner"] ∧ r'.isTrivial ∧ build r' = build .trivial := by
  intro filter silent build
  obtain ⟨r, hr⟩ := fault?_eq_none_iff.1
    (show fault? (Restriction.ofFilter ownersWithTeams "teams" filter) = none by decide +kernel)
  obtain ⟨r', hr'⟩ := fault?_eq_none_iff.1
    (show fault? (Restriction.ofFilter ownersWithTeams "teams" silent) = none by decide +kernel)
  have hlinks : (Restriction.ofFilter ownersWithTeams "teams" filter).toOption.map
      (fun r => (r.links.map (·.1), r.pruned.links.map (·.1))) =
        some (["owner", "lead"], ["owner"]) := by
    decide +kernel
  have hlinks' : (Restriction.ofFilter ownersWithTeams "teams" silent).toOption.map
      (fun r => (r.links.map (·.1), r.isTrivial)) = some (["owner"], true) := by
    decide +kernel
  rw [hr] at hlinks
  rw [hr'] at hlinks'
  obtain ⟨hmentioned, hleft⟩ := Prod.mk.inj (Option.some.inj hlinks)
  obtain ⟨hmentioned', htrivial⟩ := Prod.mk.inj (Option.some.inj hlinks')
  exact ⟨r, r', hr, hr', hmentioned, hleft, (build_pruned hr "teams" _ _ none).1, hmentioned',
    htrivial, ((build_pruned hr' "teams" _ _ none).2 htrivial).2.1⟩

end Sql.SelectStatement

end LinkQuery
