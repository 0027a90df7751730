import LinkQuery.Proofs.Filter.Form
import LinkQuery.Proofs.Filter.Restriction
import LinkQuery.Proofs.Sql.Form
import LinkQuery.Query

/-!
# What filters of one form are compiled to

A filter is compiled by the names in it and by the kinds of its operands. So a filter and its form
demand the same of the same tables but for the operands in the conditions, and filters of one form
have statements whose conditions are of one form.

* `Table.comparison_form` is where a choice depends on an operand: on whether it is null, and on
  whether it is a text.
* `Filter.condition_form` is about the condition on the own table, `Restriction.ofFilter_form` about
  what is demanded of all tables.
* `Query.build_form` and `Query.buildPage_form` compare the statements of two filters of one form.
-/

namespace LinkQuery

open Json (Value)

/-! ### Conditions -/

open Sql (Condition)

/-- Combining goes by the number of conditions. -/
theorem Combinator.combine_form (combinator : Combinator) {conditions conditions' : List Condition}
    (h : conditions'.map Condition.form = conditions.map Condition.form) :
    SucceedTogether (fun c c' => c'.map .form = c.map Condition.form)
      (combinator.combine conditions) (combinator.combine conditions') := by
  have hlength : conditions'.length = conditions.length := by
    simpa using congrArg List.length h
  -- without conditions a negation is refused; one condition stands for itself if it is not negated
  match conditions, conditions', hlength with
  | [], [], _ => cases combinator <;> first | exact .error | exact .ok rfl
  | [c], [c'], _ =>
    have hfirst : c'.form = c.form := List.head_eq_of_cons_eq h
    cases combinator with
    | all | any => exact .ok (congrArg some hfirst)
    | notAll | notAny =>
      refine .ok (congrArg some ?_)
      rw [Condition.form_group, Condition.form_group, h]
  | c :: d :: rest, c' :: d' :: rest', _ =>
    cases combinator with
    | all | any | notAll | notAny =>
      refine .ok (congrArg some ?_)
      rw [Condition.form_group, Condition.form_group, h]

/-- Collecting conditions of given forms. -/
theorem SucceedTogether.collect {x x' : Except Error (Option Condition)}
    {y y' : Except Error (List Condition)}
    (hx : SucceedTogether (fun c c' => c'.map .form = c.map Condition.form) x x')
    (hy : SucceedTogether (fun cs cs' => cs'.map .form = cs.map Condition.form) y y') :
    SucceedTogether (fun cs cs' => cs'.map .form = cs.map Condition.form)
      (x >>= fun own => y >>= fun others => .ok (own.toList ++ others))
      (x' >>= fun own => y' >>= fun others => .ok (own.toList ++ others)) := by
  refine hx.bind fun own own' hown => hy.bind fun others others' hothers => .ok ?_
  rw [List.map_append, List.map_append, hothers, ← Option.toList_map, ← Option.toList_map, hown]

/-- **A comparison goes by the kind of its operand**: whether it is null, and whether it is a text.
-/
theorem Table.comparison_form (table : Table) (column : String) (op : Sql.Comparison) (v : Value) :
    SucceedTogether (fun c c' => c'.form = Condition.form c) (table.comparison column op v)
      (table.comparison column op v.form) := by
  unfold comparison castType?
  rw [Value.isNull_form, Value.isText_form]
  split
  · cases op <;> first | exact .error | exact .ok rfl
  · split <;> exact .ok rfl

namespace Predicate

mutual

/-- A predicate and its form are compiled to conditions of one form. -/
theorem condition_form (table : Table) (column : String) (p : Predicate) :
    SucceedTogether (fun c c' => c'.map .form = c.map Condition.form) (p.condition table column)
      (p.form.condition table column) := by
  match p with
  | .compare op value =>
    rw [form, condition, condition]
    exact (table.comparison_form column op value).map fun _ _ => congrArg some
  | .like op operand => exact .ok rfl
  | .present expected => exact .ok rfl
  | .group combinator members =>
    rw [form, condition, condition]
    exact (conditions_form table column members).bind fun _ _ => combinator.combine_form

theorem conditions_form (table : Table) (column : String) (ps : List Predicate) :
    SucceedTogether (fun cs cs' => cs'.map .form = cs.map Condition.form)
      (conditions table column ps) (conditions table column (membersForm ps)) := by
  match ps with
  | [] => exact .ok rfl
  | p :: rest =>
    rw [membersForm, conditions, conditions]
    exact (condition_form table column p).collect (conditions_form table column rest)

end

end Predicate

namespace Filter

mutual

/-- So are a filter on the table and its form. -/
theorem localCondition_form (table : Table) (filter : Filter) :
    SucceedTogether (fun c c' => c'.map .form = c.map Condition.form)
      (filter.localCondition table) (filter.form.localCondition table) := by
  match filter with
  | .group combinator members =>
    rw [form, localCondition, localCondition]
    exact (localConditions_form table members).bind fun _ _ => combinator.combine_form
  | .column name predicate =>
    rw [form, localCondition, localCondition]
    exact .bind_self fun _ _ => predicate.condition_form table name
  | .present name expected =>
    rw [form, localCondition]
    exact .bind_self fun _ _ => .ok rfl
  | .link name behind =>
    rw [form, localCondition, localCondition]
    exact .error

theorem localConditions_form (table : Table) (filters : List Filter) :
    SucceedTogether (fun cs cs' => cs'.map .form = cs.map Condition.form)
      (localConditions table filters) (localConditions table (membersForm filters)) := by
  match filters with
  | [] => exact .ok rfl
  | filter :: rest =>
    rw [membersForm, localConditions, localConditions]
    exact (localCondition_form table filter).collect (localConditions_form table rest)

end

mutual

/-- **What a form demands of its own table is the form of what is demanded.** -/
theorem condition_form (table : Table) (filter : Filter) :
    SucceedTogether (fun c c' => c'.map .form = c.map Condition.form)
      (filter.condition table) (filter.form.condition table) := by
  match filter with
  | .group .all members =>
    rw [form, condition, condition]
    exact (memberConditions_form table members).bind fun _ _ => Combinator.all.combine_form
  | .link name behind =>
    rw [form, condition, condition]
    split
    · exact .ok rfl
    · exact .error
  -- nothing is set apart in the others
  | .group .any members =>
    simpa [form, condition] using localCondition_form table (.group .any members)
  | .group .notAll members =>
    simpa [form, condition] using localCondition_form table (.group .notAll members)
  | .group .notAny members =>
    simpa [form, condition] using localCondition_form table (.group .notAny members)
  | .column name predicate =>
    simpa [form, condition] using localCondition_form table (.column name predicate)
  | .present name expected =>
    simpa [form, condition] using localCondition_form table (.present name expected)

/-- So are the members of a group. -/
theorem memberConditions_form (table : Table) (filters : List Filter) :
    SucceedTogether (fun cs cs' => cs'.map .form = cs.map Condition.form)
      (memberConditions table filters) (memberConditions table (membersForm filters)) := by
  match filters with
  | [] =>
    rw [membersForm, memberConditions]
    exact .ok rfl
  | filter :: rest =>
    rw [membersForm, memberConditions, memberConditions]
    exact (condition_form table filter).collect (memberConditions_form table rest)

end

/-! ### Filters on links -/

mutual

/-- The form of a filter has the forms of its filters on links. -/
theorem linkFilters_form (filter : Filter) :
    filter.form.linkFilters = filter.linkFilters.map (Prod.map id form) := by
  match filter with
  | .group .all members =>
    rw [form, linkFilters, linkFilters, memberLinkFilters_form members]
  | .link name behind =>
    rw [form, linkFilters, linkFilters]
    rfl
  | .group .any _ | .group .notAll _ | .group .notAny _ | .column _ _ | .present _ _ =>
    simp [form, linkFilters]

theorem memberLinkFilters_form (filters : List Filter) :
    memberLinkFilters (membersForm filters) =
      (memberLinkFilters filters).map (Prod.map id form) := by
  match filters with
  | [] => rw [membersForm, memberLinkFilters, List.map_nil]
  | filter :: rest =>
    rw [membersForm, memberLinkFilters, memberLinkFilters, linkFilters_form filter,
      memberLinkFilters_form rest, List.map_append]

end

end Filter

/-- The forms are grouped like the filters. -/
theorem Filter.linkGroups_form (table : Table) (filter : Filter) :
    filter.form.linkGroups table =
      (filter.linkGroups table).map (Prod.map id (List.map form)) := by
  rw [linkGroups, linkGroups, linkFilters_form, ← groupByName_map, List.filterMap_map,
    List.map_filterMap]
  congr 1
  refine List.filterMap_congr fun link _ => ?_
  obtain ⟨name, behind⟩ := link
  show (table.link? name).map _ = ((table.link? name).map _).map _
  cases table.link? name <;> rfl

/-! ### Restrictions -/

namespace Restriction

/-- **What a form demands of the tables is the form of what is demanded.** -/
theorem ofFilter_form (schema : Schema) (tableName : String) (filter : Filter) :
    SucceedTogether (fun r r' => r'.mapConditions .form = r.mapConditions .form)
      (ofFilter schema tableName filter) (ofFilter schema tableName filter.form) := by
  -- a filter on a link goes one link less deep
  induction hdepth : filter.linkDepth using Nat.strongRecOn generalizing filter tableName with
  | _ depth ih =>
    rw [ofFilter_eq, ofFilter_eq]
    refine SucceedTogether.bind_self fun table _ => ?_
    refine (filter.condition_form table).bind fun own own' hown => ?_
    have hgroups : List.Forall₂
        (fun group group' => group' = Prod.map id (List.map Filter.form) group)
        (filter.linkGroups table) (filter.form.linkGroups table) := by
      rw [Filter.linkGroups_form, List.forall₂_map_right_iff]
      exact List.forall₂_same.2 fun _ _ => rfl
    refine (SucceedTogether.mapM (S := fun link link' =>
      Prod.map id (mapConditions .form) link' = Prod.map id (mapConditions .form) link)
        hgroups ?_).bind fun links links' hlinks => .ok ?_
    · rintro ⟨name, filters⟩ hgroup _ rfl
      refine SucceedTogether.bind_self fun target _ => ?_
      have hless := Filter.linkDepth_lt_of_mem_linkGroups hgroup
      have hbehind := ih _ (hdepth ▸ hless) target (Filter.conjunction filters) rfl
      rw [Filter.form_conjunction] at hbehind
      exact hbehind.bind fun r r' hr => .ok (congrArg (Prod.mk name) hr)
    · have hforms : links'.map (Prod.map id (mapConditions .form)) =
          links.map (Prod.map id (mapConditions .form)) := by
        rw [← List.forall₂_eq_eq_eq, List.forall₂_map_left_iff, List.forall₂_map_right_iff]
        exact hlinks.flip
      rw [mapConditions, mapConditions, linksMapConditions_eq_map, linksMapConditions_eq_map,
        hown, hforms]

/-- **Filters of one form demand the same of the same tables** but for operands. -/
theorem ofFilter_congr (schema : Schema) (tableName : String) {filter filter' : Filter}
    (h : filter'.form = filter.form) :
    SucceedTogether (fun r r' => r'.mapConditions .form = r.mapConditions .form)
      (ofFilter schema tableName filter) (ofFilter schema tableName filter') := by
  have hfilter' := ofFilter_form schema tableName filter'
  rw [h] at hfilter'
  refine ((ofFilter_form schema tableName filter).trans_symm hfilter').mono ?_
  rintro r r' ⟨_, hr, hr'⟩
  exact hr'.symm.trans hr

end Restriction

/-! ### Statements -/

namespace Query

variable {q : Query} {layers : List Value}

/-- The layers of a filter have a form each. -/
theorem form_filterValue (h : layers.map Value.form = q.layers.map Value.form) :
    (filterValue { q with layers := layers }).form = q.filterValue.form := by
  obtain ⟨schema, table, layers', sort, columns⟩ := q
  have hall : IsOperatorKey Combinator.all.key := ⟨rfl, rfl⟩
  -- up to one layer is the filter itself, more of them are the members of a conjunction
  match layers, layers', h with
  | [], [], _ => rfl
  | [layer], [layer'], h => exact List.head_eq_of_cons_eq h
  | [_], _ :: _ :: _, h | _ :: _ :: _, [_], h => simp at h
  | first :: second :: rest, first' :: second' :: rest', h =>
    have hitems (layers : List Value) :
        (Value.object [(Combinator.all.key, .array layers)]).form =
          .object [(Combinator.all.key, .array (layers.map Value.form))] := by
      rw [Value.form, Value.membersForm_cons,
        Value.memberForm_of_presence_eq_none hall.splitKey_eq rfl, Value.form,
        Value.itemsForm_eq_map]
      rfl
    exact (hitems _).trans (h ▸ (hitems _).symm)

/-- **Filters of one form have statements of one form.** -/
theorem build_form (h : (filterValue { q with layers := layers }).form = q.filterValue.form)
    (order : List SortTerm) (limit : Option (Nat × Nat)) :
    SucceedTogether (fun s s' => s'.mapConditions .form = s.mapConditions .form)
      (q.build order limit) (build { q with layers := layers } order limit) := by
  refine SucceedTogether.bind_self fun selection _ => ?_
  refine (Filter.ofJson_congr h).bind fun filter filter' hfilter => ?_
  refine (Restriction.ofFilter_congr q.schema q.table hfilter).bind fun r r' hr => ?_
  refine SucceedTogether.of_map_eq (p := Sql.SelectStatement.mapConditions Condition.form) ?_
  rw [← Sql.SelectStatement.build_mapConditions, ← Sql.SelectStatement.build_mapConditions, hr]

theorem buildPage_form (h : (filterValue { q with layers := layers }).form = q.filterValue.form)
    (w : Window) :
    SucceedTogether (fun s s' => s'.mapConditions .form = s.mapConditions .form)
      (q.buildPage w) (buildPage { q with layers := layers } w) :=
  .bind_self fun _ _ => .bind_self fun _ _ => build_form h _ _

end Query

end LinkQuery
