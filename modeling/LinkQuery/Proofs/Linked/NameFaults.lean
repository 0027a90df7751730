import LinkQuery.Proofs.Faults
import LinkQuery.Proofs.Linked.WellFormed
import LinkQuery.Proofs.Page.Pageable

/-!
# What only a schema can refuse

Some faults of a query can be told from the query alone: a path or a filter is not written
correctly, a negation has nothing to negate, null is compared in order. All others are names that
have no meaning for the schema. So a query that has a statement over some schema has none of the
first kind, and over every schema where its table exists it fails with the fault of a name, if it
fails before its statement is written.

* `Filter.IsFormed` is what is left of the form of a filter when the names in it are disregarded.
  `Restriction.ofFilter_blamesName`: such a filter is refused only for a name.
* `Query.resolves_or_isUnresolved` is what comes of it for whole queries.
-/

namespace LinkQuery

/-! ### Selections -/

/-- Paths that are written correctly are refused only for a name. -/
theorem Selection.ofColumns_blamesName {schema : Schema} {tableName : String} {table : Table}
    (htable : schema.requireTable tableName = .ok table) {columns : List String}
    {paths : List ColumnPath} (hpaths : columns.mapM ColumnPath.parse = .ok paths) :
    BlamesName (ofColumns schema tableName columns) := by
  refine (FailsOnly.of_eq_ok hpaths).bind fun paths _ => ?_
  refine (FailsOnly.of_eq_ok htable).bind fun table _ => ?_
  split
  · exact .ok _
  · refine FailsOnly.foldlM (fun selection path _ => ?_) _
    refine (path.resolve_blamesName schema table).bind fun hops _ => ?_
    cases hops <;> exact .ok _

/-! ### Filters -/

/-- A combination fails only as its members do, if under a negation one of them says something. -/
theorem Combinator.failsOnly_combined {α : Type} {combinator : Combinator} {members : List α}
    {each : α → Except Error (Option Sql.Condition)} {silent : α → Bool}
    (hsilent : combinator.negates → ∀ member result, each member = .ok result →
      result.isNone = silent member)
    (hspeaks : combinator.negates → ∃ member ∈ members, silent member = false)
    {p : Error → Prop} (heach : ∀ member ∈ members, FailsOnly p (each member)) :
    FailsOnly p (((members.mapM each).map fun results => results.flatMap Option.toList) >>=
      combinator.combine) := by
  refine ((FailsOnly.mapM heach).map _).bind fun conditions hconditions => ?_
  -- once all members are compiled, nothing is left to fail
  obtain ⟨results, hresults, -⟩ := map_eq_ok_iff.1 hconditions
  obtain ⟨result, hresult⟩ := (exists_combined_iff hsilent).2
    ⟨exists_mapM_eq_ok_iff.1 ⟨results, hresults⟩, hspeaks⟩
  obtain ⟨conditions', hconditions', hcombine⟩ := bind_eq_ok_iff.1 hresult
  obtain rfl := Except.ok.inj (hconditions.symm.trans hconditions')
  exact .of_eq_ok hcombine

/-- A conjunction fails only as its members do. -/
theorem Combinator.failsOnly_conjoined {α : Type} {members : List α}
    {each : α → Except Error (Option Sql.Condition)} {p : Error → Prop}
    (heach : ∀ member ∈ members, FailsOnly p (each member)) :
    FailsOnly p (((members.mapM each).map fun results => results.flatMap Option.toList) >>=
      Combinator.all.combine) :=
  -- it is no negation, so none of them needs to say anything
  @failsOnly_combined α .all members each (fun _ => false) nofun nofun p heach

namespace Filter

variable {schema : Schema} {table other : Table}

/-- What can be compiled on some table fails on another one only for a name. -/
theorem IsLocal.localCondition_blamesName {filter : Filter} (h : filter.IsLocal other) :
    BlamesName (filter.localCondition table) := by
  induction h with
  | column hname hpredicate =>
    refine (table.requireColumn_blamesName _ _ _).bind fun _ _ => ?_
    obtain ⟨result, hresult⟩ := Predicate.exists_condition_iff.2 hpredicate
    exact .of_eq_ok hresult
  | present hname expected => exact (table.requireColumn_blamesName _ _ _).bind fun _ _ => .ok _
  | group hmembers hspeaks ih =>
    rw [localCondition, localConditions_eq]
    exact Combinator.failsOnly_combined (fun _ member result => isNone_localCondition) hspeaks ih

/-- Where no link is used, only an unknown column can be at fault. -/
theorem IsLocal.condition_blamesName {filter : Filter} (h : filter.IsLocal other) :
    BlamesName (filter.condition table) := by
  induction h with
  | column hname hpredicate =>
    simpa [condition] using (IsLocal.column hname hpredicate).localCondition_blamesName
  | present hname expected =>
    simpa [condition] using (IsLocal.present hname expected).localCondition_blamesName
  | @group combinator members hmembers hspeaks ih =>
    cases combinator with
    | all =>
      -- a conjunction is compiled member by member
      rw [condition, memberConditions_eq]
      exact Combinator.failsOnly_conjoined ih
    | any | notAll | notAny =>
      simpa [condition] using (IsLocal.group hmembers hspeaks).localCondition_blamesName

/-- The form of a filter that can be compiled, the names in it disregarded: local on some table, or
a conjunction of such filters, or on a link. -/
inductive IsFormed : Filter → Prop where
  | ofLocal {table : Table} {filter : Filter} (h : filter.IsLocal table) : IsFormed filter
  | all {members : List Filter} (h : ∀ member ∈ members, IsFormed member) :
      IsFormed (.group .all members)
  | link {name : String} {behind : Filter} (h : IsFormed behind) : IsFormed (.link name behind)

/-- What is well-formed for a table is formed. -/
theorem IsWellFormed.isFormed {filter : Filter} (h : filter.IsWellFormed schema table) :
    filter.IsFormed := by
  induction h with
  | ofLocal h => exact .ofLocal h
  | all _ ih => exact .all ih
  | link _ _ _ _ ih => exact .link ih

theorem isFormed_all_iff {members : List Filter} :
    (group .all members).IsFormed ↔ ∀ member ∈ members, member.IsFormed := by
  constructor
  · rintro (⟨⟨⟩⟩ | h)
    case ofLocal.group hmembers _ => exact fun member hmember => .ofLocal (hmembers member hmember)
    case all => exact h
  · exact .all

theorem isFormed_conjunction {filters : List Filter} (h : ∀ filter ∈ filters, filter.IsFormed) :
    (conjunction filters).IsFormed := by
  unfold conjunction
  split
  next => exact h _ List.mem_cons_self
  next => exact .all h

theorem IsFormed.of_mem_linkFilters {filter : Filter} (h : filter.IsFormed) {name : String}
    {behind : Filter} (hmem : (name, behind) ∈ filter.linkFilters) : behind.IsFormed := by
  refine linkFilters_induction (motive := fun filter => filter.IsFormed → behind.IsFormed) ?_ ?_
    hmem h
  · rintro (⟨⟨⟩⟩ | _ | h)
    exact h
  · exact fun members member hmember ih h => ih (isFormed_all_iff.1 h member hmember)

/-- What is formed can only be refused for a name. -/
theorem IsFormed.condition_blamesName {filter : Filter} (h : filter.IsFormed) :
    BlamesName (filter.condition table) := by
  induction h with
  | ofLocal h => exact h.condition_blamesName
  | all _ ih =>
    rw [condition, memberConditions_eq]
    exact Combinator.failsOnly_conjoined ih
  | link _ _ =>
    rw [condition]
    split
    · exact .ok none
    · exact .error rfl

end Filter

/-- A filter of the right form is refused only for a name. -/
theorem Restriction.ofFilter_blamesName {schema : Schema} {tableName : String} {table : Table}
    (htable : schema.requireTable tableName = .ok table) {filter : Filter} (h : filter.IsFormed) :
    BlamesName (ofFilter schema tableName filter) := by
  -- a filter on a link goes one link less deep
  induction hdepth : filter.linkDepth using Nat.strongRecOn generalizing tableName table filter with
  | _ depth ih =>
    rw [ofFilter_eq]
    refine (FailsOnly.of_eq_ok htable).bind fun found _ => ?_
    refine h.condition_blamesName.bind fun own _ => ?_
    refine (FailsOnly.mapM fun group hgroup => ?_).bind fun links _ => .ok _
    refine (linkTarget_blamesName schema found group.1).bind fun target htarget => ?_
    obtain ⟨-, behind, -, -, hbehind⟩ := exists_of_linkTarget_eq_ok htarget
    have hformed : (Filter.conjunction group.2).IsFormed := by
      refine Filter.isFormed_conjunction fun f hf => ?_
      obtain ⟨name, -, hmem, -, -⟩ := Filter.exists_of_mem_linkGroups hgroup hf
      exact h.of_mem_linkFilters hmem
    have hless := Filter.linkDepth_lt_of_mem_linkGroups hgroup
    exact (ih _ (hdepth ▸ hless) (Schema.requireTable_eq_ok_iff.2 hbehind) hformed rfl).bind
      fun r _ => .ok _

/-! ### Queries -/

namespace Query

/-- What a query that has a statement over some schema is like, whatever the schema. -/
theorem exists_of_build_over {q : Query} {schema : Schema} {order : List SortTerm}
    {limit : Option (Nat × Nat)}
    (h : ∃ s, { q with schema := schema }.build order limit = .ok s) :
    (∃ paths, (q.columns.getD []).mapM ColumnPath.parse = .ok paths) ∧
      ∃ filter, Filter.ofJson q.filterValue = .ok filter ∧ filter.IsFormed := by
  obtain ⟨s, hs⟩ := h
  obtain ⟨selection, filter, r, hselection, hfilter, hr, -⟩ := exists_of_build hs
  obtain ⟨paths, hpaths, -⟩ := bind_eq_ok_iff.1 hselection
  obtain ⟨table, -, hformed⟩ := Restriction.exists_ofFilter_iff.1 ⟨r, hr⟩
  exact ⟨⟨paths, hpaths⟩, filter, hfilter, hformed.isFormed⟩

/-- **A query that has a statement over some schema** is refused over another one only for a name,
unless it is resolved and rows can be ordered as it asks. -/
theorem resolves_or_isUnresolved {q : Query} {table : Table}
    (htable : q.schema.table? q.table = some table) {order : List SortTerm}
    {limit : Option (Nat × Nat)}
    (hover : ∃ schema order' limit' s, { q with schema := schema }.build order' limit' = .ok s)
    {e : Error} (he : q.build order limit = .error e) :
    e.isUnresolved ∨ ∃ selection r, q.Resolves table selection r ∧
      ∀ term ∈ order, Sql.SelectStatement.Orders table selection r term := by
  obtain ⟨schema, order', limit', hs⟩ := hover
  obtain ⟨⟨paths, hpaths⟩, filter, hfilter, hformed⟩ := exists_of_build_over hs
  have hfound := Schema.requireTable_eq_ok_iff.2 htable
  refine or_iff_not_imp_right.2 fun hunresolved => ?_
  refine FailsOnly.bind (Selection.ofColumns_blamesName hfound hpaths)
    (fun selection hselection => ?_) e he
  refine (FailsOnly.of_eq_ok hfilter).bind fun filter' hfilter' => ?_
  obtain rfl := Except.ok.inj (hfilter'.symm.trans hfilter)
  refine (Restriction.ofFilter_blamesName hfound hformed).bind fun r hr => ?_
  refine (FailsOnly.of_eq_ok hfound).bind fun found hfound' => ?_
  obtain rfl := Except.ok.inj (hfound'.symm.trans hfound)
  refine (FailsOnly.forM fun term _ => Sql.SelectStatement.checkTerm_blamesName _ _ _ term).bind
    fun _ hterms => ?_
  -- all terms are accepted, so everything is resolved
  refine absurd ⟨selection, r, ⟨htable, hselection, _, hfilter, hr⟩, fun term hterm => ?_⟩
    hunresolved
  exact Sql.SelectStatement.checkTerm_overlay_iff.1 (forM_eq_ok_iff.1 hterms term hterm)

end Query

end LinkQuery
