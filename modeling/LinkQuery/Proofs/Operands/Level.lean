import LinkQuery.Proofs.Filter.Conditions
import LinkQuery.Proofs.Linked.Filters
import LinkQuery.Proofs.Operands.Mention

/-!
# The parameters of a level

The parameters of a select are the operands of the filter, in the order in which the select is
written: first those of the linked rows, link by link, and then those of the condition on the own
row. The links stand in the order of the selection, and the links that only the filter mentions
follow in the order in which it first mentions them.

* `Mention.params` says so of what a filter mentions. It knows of the filter nothing but the
  operands and the links behind which they stand.
* `Filter.params_condition`: the condition of a level has the operands that stand behind no link.
* `Outline.params_overlay`: the outline of a selection and a filter has these parameters, and
  `Outline.params_of_select` says the same of the select.
-/

namespace LinkQuery

open Json (Value)
open Sql

/-! ### Parameters of conditions -/

namespace Sql.Condition

/-- The parameters of a condition. -/
def params (c : Condition) : List Value := c.fragment.params

theorem fragments_eq_map (cs : List Condition) : fragments cs = cs.map fragment := by
  induction cs with
  | nil => rfl
  | cons c rest ih => rw [fragments, ih, List.map_cons]

/-- The parameters of a combination are those of its members, in their order. -/
theorem params_group (negated : Bool) (joiner : Joiner) (members : List Condition) :
    (group negated joiner members).params = members.flatMap params := by
  rw [params, fragment, Fragment.params_wrapped, Fragment.params_joined, fragments_eq_map,
    List.flatMap_map]
  rfl

/-- A comparison binds its operand, cast or not. -/
theorem params_atom_compare (column : String) (asText : Bool) (op : Comparison) (value : Value)
    (castTo : Option String) : (atom (.compare column asText op value castTo)).params =
      [value] := by
  cases castTo <;> simp [params, fragment, Atom.fragment]

theorem params_atom_like (column : String) (asText : Bool) (pattern : String) :
    (atom (.like column asText pattern)).params = [.text pattern] := by
  simp [params, fragment, Atom.fragment]

end Sql.Condition

/-- A test for presence binds nothing. -/
theorem params_presenceTest (column : String) (expected : Bool) :
    (presenceTest column expected).params = [] := by
  cases expected <;> rfl

/-- Combining conditions keeps their parameters in order. -/
theorem Combinator.params_of_combine {combinator : Combinator} {conditions : List Condition}
    {result : Option Condition} (h : combinator.combine conditions = .ok result) :
    result.toList.flatMap Condition.params = conditions.flatMap Condition.params := by
  unfold combine at h
  split at h
  · split at h
    · simp at h
    · obtain rfl := Except.ok.inj h
      simp [Condition.params_group]
  · split at h
    · obtain rfl := Except.ok.inj h
      rfl
    · obtain rfl := Except.ok.inj h
      rfl
    · obtain rfl := Except.ok.inj h
      simp [Condition.params_group]

/-- What each member has in common with its condition, all members have with all conditions. -/
theorem flatMap_conditions_eq {α γ : Type} {f : Condition → List γ} {g : α → List γ}
    {members : List α} {results : List (Option Condition)}
    (h : List.Forall₂ (fun member result => result.toList.flatMap f = g member) members results) :
    (results.flatMap Option.toList).flatMap f = members.flatMap g := by
  induction h with
  | nil => rfl
  | cons hfirst _ ih => rw [List.flatMap_cons, List.flatMap_append, hfirst, ih, List.flatMap_cons]

/-- A comparison binds its operand, unless that is a null. -/
theorem Table.params_comparison {table : Table} {column : String} {op : Comparison} {value : Value}
    {c : Condition} (h : table.comparison column op value = .ok c) :
    c.params = if value.isNull then [] else [value] := by
  unfold comparison at h
  split at h
  next hnull =>
    -- null is compared by its presence
    rw [if_pos hnull]
    split at h
    · obtain rfl := Except.ok.inj h
      exact params_presenceTest column false
    · obtain rfl := Except.ok.inj h
      exact params_presenceTest column true
    · simp at h
  next hnull =>
    rw [if_neg hnull]
    split at h
    · obtain rfl := Except.ok.inj h
      exact Condition.params_atom_compare _ _ _ _ _
    · obtain rfl := Except.ok.inj h
      exact Condition.params_atom_compare _ _ _ _ _

/-- A predicate binds its operands in the order in which they are written. -/
theorem Predicate.params_condition {table : Table} {column : String} {predicate : Predicate}
    {result : Option Condition} (h : predicate.condition table column = .ok result) :
    result.toList.flatMap Condition.params = predicate.operands := by
  refine condition_induction
    (motive := fun predicate result =>
      result.toList.flatMap Condition.params = predicate.operands) ?_ ?_ ?_ ?_ h
  · intro op value c hc
    rw [operands, ← Table.params_comparison hc]
    simp
  · intro op operand
    rw [operands, ← Condition.params_atom_like column (!table.isTextComparable column)]
    simp
  · intro expected
    rw [operands, ← params_presenceTest column expected]
    simp
  · intro combinator members results result hmembers hcombine
    rw [Combinator.params_of_combine hcombine, operands, memberOperands_eq_flatMap]
    exact flatMap_conditions_eq hmembers

namespace Mention

/-- The operands that stand behind no link. -/
def own (mentions : List Mention) : List Value :=
  mentions.filterMap fun
    | operand value => some value
    | link _ _ => none

/-- The links that are mentioned of a row, each with what is mentioned behind it. -/
def links (mentions : List Mention) : List (String × List Mention) :=
  mentions.filterMap fun
    | operand _ => none
    | link name inside => some (name, inside)

@[simp] theorem own_append (ms ns : List Mention) : own (ms ++ ns) = own ms ++ own ns :=
  List.filterMap_append

@[simp] theorem links_append (ms ns : List Mention) : links (ms ++ ns) = links ms ++ links ns :=
  List.filterMap_append

@[simp] theorem own_map_operand (values : List Value) : own (values.map operand) = values := by
  simp [own, List.filterMap_map]

@[simp] theorem links_map_operand (values : List Value) : links (values.map operand) = [] := by
  simp [links]

end Mention

namespace Filter

/-- A filter on one table alone mentions operands alone, those of its condition. -/
theorem mentions_of_localCondition {table : Table} {filter : Filter} {result : Option Condition}
    (h : filter.localCondition table = .ok result) :
    filter.mentions = (result.toList.flatMap Condition.params).map .operand := by
  refine localCondition_induction
    (motive := fun filter result =>
      filter.mentions = (result.toList.flatMap Condition.params).map .operand) ?_ ?_ ?_ h
  · intro name predicate result hresult
    rw [mentions, Predicate.params_condition hresult]
  · intro name expected
    simp [mentions, params_presenceTest]
  · intro combinator members results result hmembers hcombine
    rw [Combinator.params_of_combine hcombine, mentions, memberMentions_eq_flatMap,
      List.map_flatMap]
    refine (flatMap_conditions_eq (hmembers.imp fun member result hmember => ?_)).symm
    rw [hmember, List.map_flatMap]

/-- **The condition of a filter has the operands that stand behind no link**, and the filters that
are set apart are those on the links that the filter mentions. -/
theorem params_condition {table : Table} {filter : Filter} {result : Option Condition}
    (h : filter.condition table = .ok result) :
    result.toList.flatMap Condition.params = Mention.own filter.mentions ∧
      Mention.links filter.mentions =
        filter.linkFilters.map fun link => (link.1, link.2.mentions) := by
  refine condition_induction
    (motive := fun filter result =>
      result.toList.flatMap Condition.params = Mention.own filter.mentions ∧
        Mention.links filter.mentions =
          filter.linkFilters.map fun link => (link.1, link.2.mentions)) ?_ ?_ ?_ h
  · intro filter result hlinks hlocal
    rw [mentions_of_localCondition hlocal, hlinks]
    simp
  · intro name behind found _
    rw [mentions, linkFilters]
    exact ⟨rfl, rfl⟩
  · intro members results result hmembers hcombine
    rw [Combinator.params_of_combine hcombine, mentions, memberMentions_eq_flatMap, linkFilters]
    clear hcombine
    induction hmembers with
    | nil => exact ⟨rfl, rfl⟩
    | cons hfirst _ ih =>
      rw [List.flatMap_cons, List.flatMap_cons, List.flatMap_append, Mention.own_append,
        Mention.links_append, memberLinkFilters, List.map_append, hfirst.1, hfirst.2, ih.1, ih.2]
      exact ⟨rfl, rfl⟩

end Filter

/-! ### The links of a level -/

/-- The table behind a link. -/
def Schema.behind? (schema : Schema) (table : Table) (name : String) : Option Table :=
  (table.link? name).bind fun found => schema.table? found.targetTable

namespace Mention

mutual

/-- How many links deep a mention goes. -/
def depth : Mention → Nat
  | operand _ => 0
  | link _ inside => depths inside + 1

/-- How many links deep the deepest of the mentions goes. -/
def depths : List Mention → Nat
  | [] => 0
  | m :: rest => max (depth m) (depths rest)

end

/-- What is mentioned behind each link, under its canonical name. The links stand in the order in
which they are first mentioned, and what is mentioned behind a link in the order of the document. -/
def groups (table : Table) (mentions : List Mention) : List (String × List Mention) :=
  (groupByName ((links mentions).filterMap fun (name, inside) =>
    (table.link? name).map fun found => (found.name, inside))).map fun (name, insides) =>
      (name, insides.flatten)

/-- The links of a level behind which something is mentioned, each with what is selected there:
those of the selection in its order, and then the other ones. -/
def arranged (selection : Selection) (groups : List (String × List Mention)) :
    List (String × Selection × List Mention) :=
  (selection.links.filterMap fun (name, sub) =>
      (groups.lookup name).map fun inside => (name, sub, inside)) ++
    (groups.filter fun (name, _) => !(selection.links.map (·.1)).contains name).map
      fun (name, inside) => (name, .empty, inside)

/-- Of two lists the deeper one counts. -/
theorem depths_append (ms ns : List Mention) : depths (ms ++ ns) = max (depths ms) (depths ns) := by
  induction ms with
  | nil => simp [depths]
  | cons m rest ih => rw [List.cons_append, depths, depths, ih, Nat.max_assoc]

theorem depths_flatten_lt {mss : List (List Mention)} {n : Nat} (h : ∀ ms ∈ mss, depths ms < n)
    (hn : 0 < n) : depths mss.flatten < n := by
  induction mss with
  | nil => simpa [depths]
  | cons ms rest ih =>
    have hfirst := h ms (by simp)
    have hrest := ih fun ns hns => h ns (by simp [hns])
    rw [List.flatten_cons, depths_append]
    omega

/-- What is mentioned behind a link is nested less deep. -/
theorem depths_lt_of_mem_links {mentions : List Mention} {name : String} {inside : List Mention}
    (h : (name, inside) ∈ links mentions) : depths inside < depths mentions := by
  induction mentions with
  | nil => simp [links] at h
  | cons m rest ih =>
    rw [depths]
    cases m with
    | operand value =>
      have hrest : (name, inside) ∈ links rest := h
      have := ih hrest
      omega
    | link n ms =>
      rcases List.mem_cons.1 h with heq | hrest
      · obtain ⟨-, rfl⟩ := Prod.mk.inj heq
        rw [depth]
        omega
      · have := ih hrest
        omega

/-- So is what is mentioned behind links of one name. -/
theorem depths_lt_of_mem_groups {table : Table} {mentions : List Mention} {name : String}
    {inside : List Mention} (h : (name, inside) ∈ groups table mentions) :
    depths inside < depths mentions := by
  obtain ⟨group, hgroup, heq⟩ := List.mem_map.1 h
  obtain ⟨rfl, rfl⟩ := Prod.mk.inj heq
  -- every part of the group stands behind a link that is mentioned
  have hparts : ∀ ms ∈ group.2, depths ms < depths mentions := by
    intro ms hms
    obtain ⟨⟨n, ms'⟩, hlink, hfound⟩ := List.mem_filterMap.1 (mem_of_mem_groupByName hgroup hms)
    obtain ⟨found, -, heq⟩ := Option.map_eq_some_iff.1 hfound
    obtain ⟨-, rfl⟩ := Prod.mk.inj heq
    exact depths_lt_of_mem_links hlink
  obtain ⟨ms, hms⟩ := exists_mem_of_mem_groupByName hgroup
  exact depths_flatten_lt hparts (by have := hparts ms hms; omega)

/-- Arranging the groups adds none. -/
theorem mem_of_mem_arranged {selection : Selection} {groups : List (String × List Mention)}
    {name : String} {sub : Selection} {inside : List Mention}
    (h : (name, sub, inside) ∈ arranged selection groups) : (name, inside) ∈ groups := by
  rcases List.mem_append.1 h with h | h
  · obtain ⟨⟨n, sub'⟩, -, hfound⟩ := List.mem_filterMap.1 h
    obtain ⟨inside', hlookup, heq⟩ := Option.map_eq_some_iff.1 hfound
    obtain ⟨rfl, -, rfl⟩ := by simpa using heq
    exact mem_of_lookup_eq_some hlookup
  · obtain ⟨⟨n, inside'⟩, hmem, heq⟩ := List.mem_map.1 h
    obtain ⟨rfl, -, rfl⟩ := by simpa using heq
    exact (List.mem_filter.1 hmem).1

/-- **The parameters of a level**: for each of its links in their order the parameters of the level
behind it, and then the operands of the level itself in the order of the document. -/
def params (schema : Schema) (table : Table) (selection : Selection) (mentions : List Mention) :
    List Value :=
  ((arranged selection (groups table mentions)).attach.flatMap fun ⟨(name, sub, inside), _h⟩ =>
      match schema.behind? table name with
      | none => []
      | some target => params schema target sub inside) ++ own mentions
  termination_by depths mentions
  decreasing_by exact depths_lt_of_mem_groups (mem_of_mem_arranged _h)

/-- The parameters behind a link. -/
def paramsBehind (schema : Schema) (table : Table) (name : String) (sub : Selection)
    (inside : List Mention) : List Value :=
  match schema.behind? table name with
  | none => []
  | some target => params schema target sub inside

/-- The parameters of the links come first, in the order of the links, and then the own ones. -/
theorem params_eq (schema : Schema) (table : Table) (selection : Selection)
    (mentions : List Mention) :
    params schema table selection mentions =
      ((arranged selection (groups table mentions)).flatMap fun (name, sub, inside) =>
        paramsBehind schema table name sub inside) ++ own mentions := by
  rw [params]
  simp only [List.flatMap_subtype, List.unattach_attach]
  rfl

end Mention

/-- The links of a level are those whose filters are set apart. -/
theorem Filter.groups_mentions {table : Table} {filter : Filter} {result : Option Condition}
    (h : filter.condition table = .ok result) :
    Mention.groups table filter.mentions =
      (filter.linkGroups table).map fun group => (group.1, memberMentions group.2) := by
  have hitems : ((Mention.links filter.mentions).filterMap fun link =>
        (table.link? link.1).map fun found => (found.name, link.2)) =
      (filter.linkFilters.filterMap fun link =>
        (table.link? link.1).map fun found => (found.name, link.2)).map
          (Prod.map id Filter.mentions) := by
    rw [(params_condition h).2, List.filterMap_map, List.map_filterMap]
    refine List.filterMap_congr fun link _ => ?_
    cases hfound : table.link? link.1 <;> simp [hfound]
  have hmentions : Mention.groups table filter.mentions =
      (groupByName ((Mention.links filter.mentions).filterMap fun link =>
        (table.link? link.1).map fun found => (found.name, link.2))).map
          fun group => (group.1, group.2.flatten) := rfl
  have hfilters : filter.linkGroups table =
      groupByName (filter.linkFilters.filterMap fun link =>
        (table.link? link.1).map fun found => (found.name, link.2)) := rfl
  rw [hmentions, hfilters, hitems, groupByName_map, List.map_map]
  refine List.map_congr_left fun group _ => Prod.ext rfl ?_
  rw [memberMentions_eq_flatMap, List.flatMap_def]
  rfl

/-! ### Parameters of outlines and selects -/

namespace Outline

mutual

/-- The parameters of an outline. -/
def params : Outline → List Value
  | ⟨_, condition, links, _⟩ => linkParams links ++ condition.toList.flatMap Condition.params

/-- The parameters of the links of an outline. -/
def linkParams : List (String × Bool × Outline) → List Value
  | [] => []
  | (_, _, outline) :: rest => params outline ++ linkParams rest

end

theorem linkParams_eq_flatMap (links : List (String × Bool × Outline)) :
    linkParams links = links.flatMap fun link => link.2.2.params := by
  induction links with
  | nil => rfl
  | cons link rest ih => rw [linkParams, ih, List.flatMap_cons]

/-- The tests that linked rows are there have no parameters. -/
theorem params_enclose (select : Sql.Select) (demanded : List String) :
    (enclose select demanded).fragment.params = select.fragment.params := by
  unfold enclose
  -- each test is put around the select with the ones before
  induction demanded generalizing select with
  | nil => rfl
  | cons name rest ih =>
    rw [List.foldl_cons, ih, Sql.Select.fragment, Fragment.params_wrapped]

/-- The correlation binds nothing. -/
theorem params_whereFragment (correlation : Option Correlation) (condition : Option Condition) :
    (Sql.Select.whereFragment correlation condition).params =
      condition.toList.flatMap Condition.params := by
  unfold Sql.Select.whereFragment
  cases correlation <;> cases condition <;>
    simp [Fragment.joined, Correlation.fragment, Condition.params]

mutual

/-- **A select has the parameters of its outline.** -/
theorem params_of_select {schema : Schema} {table : Table} {correlation : Option Correlation}
    {asName : Option String} {extra : List String} {outline : Outline} {s : Sql.Select}
    (h : outline.select schema table correlation asName extra = .ok s) :
    s.fragment.params = outline.params := by
  match outline with
  | ⟨columns, condition, links, demanded⟩ =>
    obtain ⟨inner, hinner, rfl⟩ := exists_of_select h
    rw [params_enclose, Sql.Select.fragment, params]
    -- the links are written before the condition, and the correlation has no operand
    simp [params_of_selectLinks hinner, params_whereFragment]

/-- The subqueries bind what their outlines bind. -/
theorem params_of_selectLinks {schema : Schema} {table : Table} {visible : String}
    {links : List (String × Bool × Outline)} {selects : List (String × Bool × Sql.Select)}
    (h : selectLinks schema table visible links = .ok selects) :
    (Sql.Select.linkFragments selects).params = linkParams links := by
  match links with
  | [] =>
    rw [selectLinks] at h
    obtain rfl := Except.ok.inj h
    rfl
  | (name, demanded, outline) :: rest =>
    obtain ⟨link, target, inner, others, -, -, hinner, hothers, rfl⟩ :=
      exists_of_selectLinks_cons h
    rw [Sql.Select.linkFragments, linkParams]
    simp [Sql.Select.linkFragment, params_of_select hinner, params_of_selectLinks hothers]

end

mutual

/-- What demands nothing has no parameters, whatever is selected. -/
theorem params_overlay_trivial {selection : Selection} {r : Restriction} (h : r.isTrivial) :
    (overlay selection r).params = [] := by
  match selection with
  | ⟨columns, links⟩ =>
    obtain ⟨own, restricted⟩ := r
    rw [Restriction.isTrivial, Bool.and_eq_true] at h
    obtain ⟨hown, hlinks⟩ := h
    have hnone : own = none := Option.isNone_iff_eq_none.1 hown
    -- none of the links that are restricted is included
    have hrestricted : ofLinks restricted = [] := by
      rw [ofLinks_eq, List.map_eq_nil_iff, List.filter_eq_nil_iff]
      intro link hlink
      simpa using Restriction.areTrivial_iff.1 hlinks link hlink
    rw [overlay, params, hrestricted, hnone, linkParams_eq_flatMap, List.filter_nil,
      List.append_nil, ← linkParams_eq_flatMap, params_overlayLinks_trivial hlinks]
    rfl

/-- Links that are not restricted bind nothing. -/
theorem params_overlayLinks_trivial {links : List (String × Selection)} {own : Option Condition}
    {restricted : List (String × Restriction)} (h : Restriction.areTrivial restricted) :
    linkParams (overlayLinks links ⟨own, restricted⟩) = [] := by
  match links with
  | [] => rfl
  | (name, selection) :: rest =>
    -- what is demanded behind a link would have to be more than nothing
    have hdemand : ((Restriction.link? ⟨own, restricted⟩ name).filter fun r => !r.isTrivial) =
        none := by
      rw [Option.filter_eq_none_iff]
      intro r hr
      simpa using Restriction.areTrivial_iff.1 h (name, r) (mem_of_lookup_eq_some hr)
    rw [overlayLinks, linkParams, hdemand, Option.getD_none, params_overlay_trivial rfl,
      params_overlayLinks_trivial h]
    rfl

end

/-- What is demanded behind a link has, under every selection, the parameters of what is mentioned
there. -/
def HasParams (schema : Schema) (table : Table) (group : String × List Mention)
    (link : String × Restriction) : Prop :=
  link.1 = group.1 ∧ ∀ sub, (overlay sub link.2).params =
    Mention.paramsBehind schema table group.1 sub group.2

section Links

variable {schema : Schema} {table : Table} {groups : List (String × List Mention)}
  {restricted : List (String × Restriction)}

/-- The demand behind a link is found where the mentions are. -/
theorem params_overlay_lookup (h : List.Forall₂ (HasParams schema table) groups restricted)
    (name : String) (sub : Selection) :
    (overlay sub (((restricted.lookup name).filter fun r => !r.isTrivial).getD .trivial)).params =
      ((groups.lookup name).map fun inside =>
        Mention.paramsBehind schema table name sub inside).getD [] := by
  induction h with
  | nil => exact params_overlay_trivial rfl
  | @cons group link _ _ hfirst _ ih =>
    obtain ⟨hname, hparams⟩ := hfirst
    rw [List.lookup_cons, List.lookup_cons, hname]
    by_cases heq : name = group.1
    · subst heq
      rw [beq_self_eq_true, Option.map_some, Option.getD_some, ← hparams]
      cases htrivial : link.2.isTrivial with
      | true =>
        have hnone : (some link.2).filter (fun r => !r.isTrivial) = none := by simp [htrivial]
        have hnothing : Restriction.trivial.isTrivial = true := rfl
        rw [hnone, Option.getD_none, params_overlay_trivial htrivial,
          params_overlay_trivial hnothing]
      | false =>
        have hsome : (some link.2).filter (fun r => !r.isTrivial) = some link.2 := by
          simp [htrivial]
        rw [hsome, Option.getD_some]
    · rw [beq_false_of_ne heq]
      exact ih

/-- The selected links bind what is mentioned under their names. -/
theorem linkParams_overlayLinks (h : List.Forall₂ (HasParams schema table) groups restricted)
    (own : Option Condition) (selected : List (String × Selection)) :
    linkParams (overlayLinks selected ⟨own, restricted⟩) =
      (selected.filterMap fun (name, sub) =>
        (groups.lookup name).map fun inside => (name, sub, inside)).flatMap
          fun (name, sub, inside) => Mention.paramsBehind schema table name sub inside := by
  induction selected with
  | nil => rfl
  | cons link rest ih =>
    obtain ⟨name, sub⟩ := link
    have hfirst := params_overlay_lookup h name sub
    rw [overlayLinks, linkParams, ih]
    cases hlookup : groups.lookup name with
    | none =>
      -- behind this link nothing is mentioned
      rw [hlookup] at hfirst
      simp only [Restriction.link?, hfirst, List.filterMap_cons, hlookup]
      rfl
    | some inside =>
      rw [hlookup] at hfirst
      simp only [Restriction.link?, hfirst, List.filterMap_cons, hlookup]
      rfl

/-- The links that are only restricted bind the rest. -/
theorem linkParams_ofLinks (h : List.Forall₂ (HasParams schema table) groups restricted)
    (selected : List String) :
    linkParams ((ofLinks restricted).filter fun (name, _) => !selected.contains name) =
      ((groups.filter fun (name, _) => !selected.contains name).map
        fun (name, inside) => (name, Selection.empty, inside)).flatMap
          fun (name, sub, inside) => Mention.paramsBehind schema table name sub inside := by
  induction h with
  | nil => rfl
  | @cons group link _ rest hfirst _ ih =>
    obtain ⟨name, inside⟩ := group
    obtain ⟨linkName, r⟩ := link
    obtain ⟨rfl, hparams⟩ := hfirst
    have hempty := hparams .empty
    rw [ofLinks]
    by_cases hselected : linkName ∈ selected
    · cases htrivial : r.isTrivial <;> simpa [hselected] using ih
    · cases htrivial : r.isTrivial with
      | false => simpa [hselected, linkParams, ← hempty, overlay_empty] using ih
      | true =>
        -- the link is left out, and it has no parameters
        rw [params_overlay_trivial htrivial] at hempty
        simpa [hselected, ← hempty] using ih

end Links

/-- **The outline of a selection and a filter has the parameters of the level.** -/
theorem params_overlay {schema : Schema} {tableName : String} {table : Table} {filter : Filter}
    {r : Restriction} (htable : schema.requireTable tableName = .ok table)
    (h : Restriction.ofFilter schema tableName filter = .ok r) (selection : Selection) :
    (overlay selection r).params = Mention.params schema table selection filter.mentions := by
  refine Restriction.ofFilter_induction
    (motive := fun table filter r => ∀ selection,
      (overlay selection r).params = Mention.params schema table selection filter.mentions)
    ?_ htable h selection
  intro table filter own links hown hlinks selection
  have hbehind : List.Forall₂ (HasParams schema table) (Mention.groups table filter.mentions)
      links := by
    rw [Filter.groups_mentions hown, List.forall₂_map_left_iff]
    refine hlinks.imp fun group link hlink => ?_
    obtain ⟨hname, found, target, hfound, htarget, hparams⟩ := hlink
    refine ⟨hname, fun sub => ?_⟩
    have htarget : schema.behind? table group.1 = some target := by
      rw [Schema.behind?, hfound]
      exact htarget
    rw [Mention.paramsBehind, htarget, hparams, Filter.mentions_conjunction]
  obtain ⟨columns, selected⟩ := selection
  rw [Mention.params_eq, Mention.arranged, List.flatMap_append, overlay, params,
    linkParams_eq_flatMap, List.flatMap_append, ← linkParams_eq_flatMap, ← linkParams_eq_flatMap,
    linkParams_overlayLinks hbehind, linkParams_ofLinks hbehind, (Filter.params_condition hown).1]

end Outline

end LinkQuery
