import LinkQuery.Filter.Compile
import LinkQuery.Proofs.Outcome

/-!
# Induction over compiled filters

A filter and the condition that it is compiled to are gone through together. What holds of the
conditions on columns, and of a combination if it holds of its members, holds of every filter that
can be compiled.

* `conditions_eq`, `localConditions_eq` and `memberConditions_eq`: the conditions of members are
  what the members are compiled to one by one, those that amount to nothing left out.
* `Filter.condition_conjunction` and `Filter.linkFilters_conjunction`: a conjunction of any number
  of filters is compiled member by member, also if there is just one.
* `Predicate.condition_induction`, `Filter.localCondition_induction` and
  `Filter.condition_induction` are the inductions. The last one goes down to where filters on links
  are set apart, and hands what lies below to the second one.
-/

namespace LinkQuery

open Sql

/-! ### Members -/

/-- The conditions of members, compiled one after the other. -/
theorem eq_map_mapM {α : Type} (each : α → Except Error (Option Condition))
    (all : List α → Except Error (List Condition)) (hnil : all [] = .ok [])
    (hcons : ∀ a rest, all (a :: rest) = do
      let own ← each a
      let others ← all rest
      .ok (own.toList ++ others))
    (as : List α) : all as = (as.mapM each).map fun results => results.flatMap Option.toList := by
  induction as with
  | nil => rw [hnil]; rfl
  | cons a rest ih =>
    rw [hcons, ih, List.mapM_cons]
    -- the first fault ends both
    cases each a with
    | error e => rfl
    | ok own => cases rest.mapM each <;> rfl

/-- A condition among those of members is the one that some member is compiled to. -/
theorem exists_member_of_mem {α : Type} {R : α → Option Condition → Prop} {members : List α}
    {results : List (Option Condition)} (h : List.Forall₂ R members results) {c : Condition}
    (hc : c ∈ results.flatMap Option.toList) : ∃ member ∈ members, R member (some c) := by
  obtain ⟨result, hresult, hc⟩ := List.mem_flatMap.1 hc
  obtain rfl := Option.mem_toList.1 hc
  exact exists_left_of_forall₂ h hresult

theorem Predicate.conditions_eq (table : Table) (column : String) (predicates : List Predicate) :
    conditions table column predicates =
      (predicates.mapM (condition table column)).map fun results =>
        results.flatMap Option.toList :=
  eq_map_mapM (condition table column) (conditions table column) rfl (fun _ _ => rfl) predicates

theorem Filter.localConditions_eq (table : Table) (filters : List Filter) :
    localConditions table filters =
      (filters.mapM (localCondition table)).map fun results => results.flatMap Option.toList :=
  eq_map_mapM (localCondition table) (localConditions table) rfl (fun _ _ => rfl) filters

theorem Filter.memberConditions_eq (table : Table) (filters : List Filter) :
    memberConditions table filters =
      (filters.mapM (condition table)).map fun results => results.flatMap Option.toList :=
  eq_map_mapM (condition table) (memberConditions table) (by rw [memberConditions])
    (fun _ _ => by rw [memberConditions]) filters

/-! ### Conjunctions -/

/-- The condition of a conjunction, which a single filter is as well. -/
theorem Filter.condition_conjunction (table : Table) (filters : List Filter) :
    (conjunction filters).condition table =
      (memberConditions table filters >>= Combinator.all.combine) := by
  match filters with
  | [] => rfl
  | [f] =>
    show f.condition table = _
    rw [memberConditions, memberConditions]
    cases f.condition table with
    | error e => rfl
    | ok own => cases own <;> rfl
  | f :: g :: rest =>
    rw [conjunction, condition]
    nofun

/-- The filters on links in a conjunction are those in its members. -/
theorem Filter.linkFilters_conjunction (filters : List Filter) :
    (conjunction filters).linkFilters = memberLinkFilters filters := by
  match filters with
  | [] => rfl
  | [f] => simp [conjunction, memberLinkFilters]
  | f :: g :: rest => simp [conjunction, linkFilters]

/-! ### Inductions -/

variable {table : Table}

/-- **Induction over what a predicate is compiled to.** -/
theorem Predicate.condition_induction {column : String}
    {motive : Predicate → Option Condition → Prop}
    (compare : ∀ op value c, table.comparison column op value = .ok c →
      motive (.compare op value) (some c))
    (like : ∀ op operand, motive (.like op operand)
      (some (.atom (.like column (!table.isTextComparable column) (op.likePattern operand)))))
    (present : ∀ expected, motive (.present expected) (some (presenceTest column expected)))
    (group : ∀ combinator members results result, List.Forall₂ motive members results →
      combinator.combine (results.flatMap Option.toList) = .ok result →
      motive (.group combinator members) result)
    {predicate : Predicate} {result : Option Condition}
    (h : predicate.condition table column = .ok result) : motive predicate result := by
  match predicate with
  | .compare op value =>
    obtain ⟨c, hc, rfl⟩ := map_eq_ok_iff.1 h
    exact compare op value c hc
  | .like op operand =>
    obtain rfl := Except.ok.inj h
    exact like op operand
  | .present expected =>
    obtain rfl := Except.ok.inj h
    exact present expected
  | .group combinator members =>
    obtain ⟨cs, hcs, hcombine⟩ := bind_eq_ok_iff.1 h
    rw [conditions_eq] at hcs
    obtain ⟨results, hresults, rfl⟩ := map_eq_ok_iff.1 hcs
    -- what holds of the members is known of each by recursion
    refine group combinator members results result ?_ hcombine
    exact forall₂_of_mapM_eq_ok hresults fun member _ own hown =>
      condition_induction compare like present group hown
  termination_by sizeOf predicate

/-- **Induction over what a filter on one table alone is compiled to.** -/
theorem Filter.localCondition_induction {motive : Filter → Option Condition → Prop}
    (column : ∀ name predicate result, predicate.condition table name = .ok result →
      motive (.column name predicate) result)
    (present : ∀ name expected, motive (.present name expected) (some (presenceTest name expected)))
    (group : ∀ combinator members results result, List.Forall₂ motive members results →
      combinator.combine (results.flatMap Option.toList) = .ok result →
      motive (.group combinator members) result)
    {filter : Filter} {result : Option Condition} (h : filter.localCondition table = .ok result) :
    motive filter result := by
  match filter with
  | .column name predicate =>
    obtain ⟨-, -, h⟩ := bind_eq_ok_iff.1 h
    exact column name predicate result h
  | .present name expected =>
    obtain ⟨-, -, h⟩ := bind_eq_ok_iff.1 h
    obtain rfl := Except.ok.inj h
    exact present name expected
  | .group combinator members =>
    obtain ⟨cs, hcs, hcombine⟩ := bind_eq_ok_iff.1 h
    rw [localConditions_eq] at hcs
    obtain ⟨results, hresults, rfl⟩ := map_eq_ok_iff.1 hcs
    refine group combinator members results result ?_ hcombine
    exact forall₂_of_mapM_eq_ok hresults fun member _ own hown =>
      localCondition_induction column present group hown
  | .link name _ =>
    -- refused below a combination
    simp [localCondition] at h
  termination_by sizeOf filter

/-- **Induction over what a filter is compiled to.** A conjunction is gone through even if filters
on links stand in it; any other filter has none. -/
theorem Filter.condition_induction {motive : Filter → Option Condition → Prop}
    (unlinked : ∀ filter result, filter.linkFilters = [] →
      filter.localCondition table = .ok result → motive filter result)
    (link : ∀ name behind found, table.link? name = some found → motive (.link name behind) none)
    (conjunction : ∀ members results result, List.Forall₂ motive members results →
      Combinator.all.combine (results.flatMap Option.toList) = .ok result →
      motive (.group .all members) result)
    {filter : Filter} {result : Option Condition} (h : filter.condition table = .ok result) :
    motive filter result := by
  match filter with
  | .group .all members =>
    rw [condition] at h
    obtain ⟨cs, hcs, hcombine⟩ := bind_eq_ok_iff.1 h
    rw [memberConditions_eq] at hcs
    obtain ⟨results, hresults, rfl⟩ := map_eq_ok_iff.1 hcs
    -- filters on links may stand in the members, so the recursion is on the whole filter
    refine conjunction members results result ?_ hcombine
    exact forall₂_of_mapM_eq_ok hresults fun member _ own hown =>
      condition_induction unlinked link conjunction hown
  | .link name behind =>
    rw [condition] at h
    split at h
    next found hfound =>
      obtain rfl := Except.ok.inj h
      exact link name behind found hfound
    next => simp at h
  | .group .any _ | .group .notAll _ | .group .notAny _ | .column _ _ | .present _ _ =>
    -- every other filter is compiled as one on the table alone
    exact unlinked _ result (by simp [linkFilters]) (by simpa [condition] using h)
  termination_by sizeOf filter

end LinkQuery
