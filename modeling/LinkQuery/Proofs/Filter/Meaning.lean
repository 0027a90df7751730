import LinkQuery.Proofs.Sql.Reading

/-!
# What a filter means

A filter combines conditions on columns, and its meaning is the combination of their values: a
conjunction, a disjunction or the negation of one. A combination without members says nothing, and
nor does what consists of such combinations; in a larger combination it does not count. What a
filter demands behind links is set apart and does not count either.

* `Filter.meaning` is the meaning of a filter on the rows of its own table. It is nothing, or one of
  the three truth values.
* `Filter.amounts_condition`: the condition that a filter is compiled to has this value, and there
  is no condition exactly if the filter says nothing.
* `Filter.read_predicate` joins this with the text: what is written is read as the meaning, alone
  and behind the correlation of a link.
-/

namespace LinkQuery

open Json (Value)
open Sql

/-! ### Meanings -/

/-- The value of a combination. -/
def Combinator.value : Combinator → List Truth → Truth
  | all, values => .conj values
  | any, values => .disj values
  | notAll, values => (Truth.conj values).not
  | notAny, values => (Truth.disj values).not

/-- The meaning of a combination of what its members say. -/
def Combinator.meaning (combinator : Combinator) : List Truth → Option Truth
  | [] => none
  | values => some (combinator.value values)

/-- The condition on a column that a comparison is. -/
def Table.comparisonAtom (table : Table) (column : String) (op : Comparison) (value : Value) :
    Atom :=
  if value.isNull then if op = .eq then .isNull column else .isNotNull column
  else if op.isEquality then
    .compare column (value.isText && !table.isTextComparable column) op value none
  else .compare column false op value (table.castType? column value)

/-- The condition on a column that a test for the presence of a value is. -/
def presenceAtom (column : String) (expected : Bool) : Atom :=
  if expected then .isNotNull column else .isNull column

namespace Predicate

mutual

/-- What a predicate says of a column, given the values of the tests. -/
def meaning (table : Table) (column : String) (u : Test → Truth) : Predicate → Option Truth
  | compare op value => some (u (table.comparisonAtom column op value).test)
  | like op operand =>
    some (u (Atom.like column (!table.isTextComparable column) (op.likePattern operand)).test)
  | present expected => some (u (presenceAtom column expected).test)
  | group combinator members => combinator.meaning (meanings table column u members)

/-- What predicates say of a column, as far as they say anything. -/
def meanings (table : Table) (column : String) (u : Test → Truth) : List Predicate → List Truth
  | [] => []
  | predicate :: rest =>
    (meaning table column u predicate).toList ++ meanings table column u rest

end

end Predicate

namespace Filter

mutual

/-- What a filter says of a row of its own table, given the values of the tests. -/
def meaning (table : Table) (u : Test → Truth) : Filter → Option Truth
  | group combinator members => combinator.meaning (meanings table u members)
  | column name predicate => predicate.meaning table name u
  | present name expected => some (u (presenceAtom name expected).test)
  | link _ _ => none

/-- What filters say of a row, as far as they say anything. -/
def meanings (table : Table) (u : Test → Truth) : List Filter → List Truth
  | [] => []
  | filter :: rest => (meaning table u filter).toList ++ meanings table u rest

end

end Filter

/-! ### Conditions have the values of the filters -/

/-- Of the condition that something is compiled to, if any: it has the given value, and no
combination in it is without members. -/
structure Amounts (result : Option Condition) (meaning : (Test → Truth) → Option Truth) : Prop where
  truth_eq : ∀ u, result.map (Condition.truth u) = meaning u
  solid : ∀ c ∈ result, c.IsSolid

/-- The same of several conditions. -/
structure AmountsAll (results : List Condition) (meanings : (Test → Truth) → List Truth) :
    Prop where
  truth_eq : ∀ u, results.map (Condition.truth u) = meanings u
  solid : ∀ c ∈ results, c.IsSolid

theorem amounts_none : Amounts none fun _ => none := ⟨fun _ => rfl, by simp⟩

theorem amounts_atom (a : Atom) : Amounts (some (.atom a)) fun u => some (u a.test) := by
  refine ⟨fun _ => rfl, ?_⟩
  rintro c ⟨⟩
  exact trivial

/-- What members are compiled to amounts to what they mean, those that say nothing left out. -/
theorem amountsAll_of_forall₂ {α : Type} {members : List α} {results : List (Option Condition)}
    {meaning : α → (Test → Truth) → Option Truth}
    (h : List.Forall₂ (fun member result => Amounts result (meaning member)) members results) :
    AmountsAll (results.flatMap Option.toList)
      fun u => members.flatMap fun member => (meaning member u).toList := by
  induction h with
  | nil => exact ⟨fun _ => rfl, by simp⟩
  | @cons member own members others hown _ ih =>
    refine ⟨fun u => ?_, fun c hc => ?_⟩
    · rw [List.flatMap_cons, List.flatMap_cons, List.map_append, ih.truth_eq, ← hown.truth_eq]
      cases own <;> rfl
    · rw [List.flatMap_cons, List.mem_append] at hc
      obtain hc | hc := hc
      · exact hown.solid c (Option.mem_toList.1 hc)
      · exact ih.solid c hc

/-- **A combination amounts to the combination of the values**: to nothing if there are none, and
one alone stands for itself. -/
theorem Combinator.amounts_of_combine {combinator : Combinator} {conditions : List Condition}
    {result : Option Condition} {meanings : (Test → Truth) → List Truth}
    (hmembers : AmountsAll conditions meanings)
    (h : combinator.combine conditions = .ok result) :
    Amounts result fun u => combinator.meaning (meanings u) := by
  have hvalues : ∀ u, combinator.meaning (meanings u) =
      combinator.meaning (conditions.map (Condition.truth u)) := by
    intro u
    rw [hmembers.truth_eq]
  simp only [hvalues]
  unfold combine at h
  cases conditions with
  | nil =>
    -- a negation of nothing is refused
    cases combinator with
    | all | any =>
      obtain rfl := Except.ok.inj h
      exact amounts_none
    | notAll | notAny => simp [negates] at h
  | cons first rest =>
    -- several members, or one behind a negation, stand in parentheses
    have hgroup : ∀ negated : Bool, (combinator.negates = negated) →
        Amounts (some (.group negated combinator.joiner (first :: rest))) fun u =>
          combinator.meaning ((first :: rest).map (Condition.truth u)) := by
      rintro negated rfl
      refine ⟨fun u => ?_, ?_⟩
      · rw [Option.map_some, Condition.truth, Condition.truths_eq_map]
        cases combinator <;> rfl
      · rintro c ⟨⟩
        exact ⟨by simp, Condition.areSolid_iff.2 hmembers.solid⟩
    by_cases hnegates : combinator.negates = true
    · rw [if_pos hnegates] at h
      obtain rfl := Except.ok.inj h
      exact hgroup true hnegates
    · rw [if_neg hnegates] at h
      cases rest with
      | nil =>
        -- one member alone stands for itself: its value is that of the combination
        obtain rfl := Except.ok.inj h
        refine ⟨fun u => ?_, ?_⟩
        · cases combinator with
          | all => simp [meaning, value]
          | any => simp [meaning, value]
          | notAll | notAny => exact absurd rfl hnegates
        · rintro c ⟨⟩
          exact hmembers.solid first (by simp)
      | cons second rest =>
        obtain rfl := Except.ok.inj h
        exact hgroup false (by simpa using hnegates)

/-- A comparison is a single test. -/
theorem Table.comparison_eq_atom {table : Table} {column : String} {op : Comparison} {value : Value}
    {c : Condition} (h : table.comparison column op value = .ok c) :
    c = .atom (table.comparisonAtom column op value) := by
  unfold comparison at h
  unfold comparisonAtom
  by_cases hnull : value.isNull = true
  · rw [if_pos hnull] at h ⊢
    cases op with
    | eq | ne =>
      obtain rfl := Except.ok.inj h
      rfl
    | gt | ge | lt | le => simp at h
  · -- the same two questions are asked of the atom, in the same order
    rw [if_neg hnull] at h ⊢
    split at h
    next heq =>
      obtain rfl := Except.ok.inj h
      rw [if_pos heq]
    next heq =>
      obtain rfl := Except.ok.inj h
      rw [if_neg heq]

theorem Predicate.meanings_eq_flatMap (table : Table) (column : String) (u : Test → Truth)
    (predicates : List Predicate) :
    meanings table column u predicates =
      predicates.flatMap fun predicate => (predicate.meaning table column u).toList := by
  induction predicates with
  | nil => rfl
  | cons predicate rest ih => rw [meanings, ih, List.flatMap_cons]

theorem Filter.meanings_eq_flatMap (table : Table) (u : Test → Truth) (filters : List Filter) :
    meanings table u filters = filters.flatMap fun filter => (filter.meaning table u).toList := by
  induction filters with
  | nil => rfl
  | cons filter rest ih => rw [meanings, ih, List.flatMap_cons]

/-- The condition of a predicate amounts to its meaning. -/
theorem Predicate.amounts_condition {table : Table} {column : String} {predicate : Predicate}
    {result : Option Condition} (h : predicate.condition table column = .ok result) :
    Amounts result fun u => predicate.meaning table column u := by
  refine condition_induction
    (motive := fun predicate result => Amounts result fun u => predicate.meaning table column u)
    ?_ ?_ ?_ ?_ h
  · intro op value c hc
    rw [Table.comparison_eq_atom hc]
    exact amounts_atom _
  · intro op operand
    exact amounts_atom _
  · intro expected
    exact amounts_atom _
  · intro combinator members results result hmembers hcombine
    simp only [meaning, meanings_eq_flatMap]
    exact Combinator.amounts_of_combine (amountsAll_of_forall₂ hmembers) hcombine

/-- The condition of a filter on the table amounts to its meaning. -/
theorem Filter.amounts_localCondition {table : Table} {filter : Filter} {result : Option Condition}
    (h : filter.localCondition table = .ok result) :
    Amounts result fun u => filter.meaning table u := by
  refine localCondition_induction
    (motive := fun filter result => Amounts result fun u => filter.meaning table u) ?_ ?_ ?_ h
  · intro name predicate result hresult
    exact Predicate.amounts_condition hresult
  · intro name expected
    exact amounts_atom _
  · intro combinator members results result hmembers hcombine
    simp only [meaning, meanings_eq_flatMap]
    exact Combinator.amounts_of_combine (amountsAll_of_forall₂ hmembers) hcombine

/-- **A filter is compiled to a condition with its meaning**, and to none if it says nothing. -/
theorem Filter.amounts_condition {table : Table} {filter : Filter} {result : Option Condition}
    (h : filter.condition table = .ok result) : Amounts result fun u => filter.meaning table u := by
  refine condition_induction
    (motive := fun filter result => Amounts result fun u => filter.meaning table u) ?_ ?_ ?_ h
  · intro filter result _ hlocal
    exact amounts_localCondition hlocal
  · -- what is demanded behind a link is no part of the meaning
    intro name behind found _
    exact amounts_none
  · intro members results result hmembers hcombine
    simp only [meaning, meanings_eq_flatMap]
    exact Combinator.amounts_of_combine (amountsAll_of_forall₂ hmembers) hcombine

/-! ### Predicates are read as they are meant -/

/-- Casts are to single types if the types of a table to which texts are cast are single ones. -/
theorem Sql.Atom.CastIn.singleType {table : Table}
    (htypes : ∀ column value typeName, table.castType? column value = some typeName →
      isTypeName (typeTokens typeName))
    {a : Atom} (h : a.CastIn table) : a.SingleType := by
  cases a with
  | compare column asText op value castTo =>
    cases castTo with
    | none => exact trivial
    | some typeName => exact htypes column value typeName h
  | _ => exact trivial

/-- **A predicate means what the filter says.** Its text, wherever it stands in a statement, is read
by the precedence of the connectives as an expression that has the meaning of the filter. Behind
`where` the expression is that meaning together with the correlation of the link, if there is one.
The types to which texts are cast have to be single types. -/
theorem Filter.read_predicate {schema : Schema} {tableName : String} {table : Table}
    {filter : Filter} {r : Restriction} (htable : schema.requireTable tableName = .ok table)
    (hfilter : Restriction.ofFilter schema tableName filter = .ok r)
    (htypes : ∀ column value typeName, table.castType? column value = some typeName →
      isTypeName (typeTokens typeName)) :
    (r.own = none → ∀ u, filter.meaning table u = none) ∧
      ∀ c, r.own = some c → ∀ before behind,
        (∃ e, (c.fragment.tokensIn? before behind).bind Expr.read? = some e ∧
          ∀ u, filter.meaning table u = some (e.truth u)) ∧
        ∀ correlation : Option Correlation,
          ∃ e, ((Select.whereFragment correlation (some c)).tokensIn? before behind).bind
              readWhere? = some e ∧
            ∀ u, ∃ value, filter.meaning table u = some value ∧
              e.truth u =
                match correlation with
                | none => value
                | some joint => (u joint.test).and value := by
  rw [Restriction.ofFilter_eq] at hfilter
  obtain ⟨found, hfound, hfilter⟩ := bind_eq_ok_iff.1 hfilter
  obtain rfl : found = table := Except.ok.inj (hfound.symm.trans htable)
  obtain ⟨own, hown, hfilter⟩ := bind_eq_ok_iff.1 hfilter
  obtain ⟨links, -, hfilter⟩ := bind_eq_ok_iff.1 hfilter
  obtain rfl := Except.ok.inj hfilter
  have hamounts := Filter.amounts_condition hown
  refine ⟨?_, ?_⟩
  · -- no predicate
    rintro rfl u
    exact (hamounts.truth_eq u).symm
  · rintro c rfl before behind
    -- casts are to single types with plain names, and no combination is empty, so the text is read
    have hcasts := Filter.condition_castIn hown c rfl
    have hsingle : c.Forall Atom.SingleType := hcasts.mono fun a ha => ha.singleType htypes
    have hplain : c.Forall Atom.PlainCast := hcasts.mono fun a ha => ha.plainCast
    have hsolid := hamounts.solid c rfl
    have hmeaning : ∀ u, filter.meaning found u = some (c.truth u) :=
      fun u => (hamounts.truth_eq u).symm
    refine ⟨?_, fun correlation => ?_⟩
    · -- alone
      obtain ⟨e, hread, htruth⟩ := (Condition.readsAs hsingle hsolid).read?
      refine ⟨e, ?_, fun u => ?_⟩
      · rw [(Condition.lexes hplain).tokensIn?_eq, Option.bind_some, hread]
      · rw [htruth, hmeaning]
    · -- behind `where`, with or without a correlation in front
      have hsingle' : ∀ c' ∈ some c, c'.Forall Atom.SingleType := by
        rintro _ ⟨⟩
        exact hsingle
      have hplain' : ∀ c' ∈ some c, c'.Forall Atom.PlainCast := by
        rintro _ ⟨⟩
        exact hplain
      obtain ⟨e, hread, htruth⟩ :=
        Select.readWhere?_tokens correlation hsingle' hamounts.solid (.inr rfl)
      refine ⟨e, ?_, fun u => ⟨c.truth u, hmeaning u, ?_⟩⟩
      · rw [(Select.lexes_whereFragment hplain').tokensIn?_eq, Option.bind_some, hread]
      · rw [htruth, Select.whereTruth]
        cases correlation with
        | none => exact Truth.conj_singleton _
        | some joint => exact congrArg (Truth.and _) (Truth.and_yes _)

/-- A cast is to the type of a column of the table. -/
theorem Table.exists_column_of_castType? {table : Table} {column : String} {value : Value}
    {typeName : String} (h : table.castType? column value = some typeName) :
    ∃ c ∈ table.columns, c.typeName = typeName := by
  unfold castType? at h
  split at h
  · simp at h
  · split at h
    next c hc =>
      split at h
      · exact ⟨c, List.mem_of_find?_eq_some hc, Option.some.inj h⟩
      · simp at h
    next => simp at h

/-- A disjunction of a comparison with a cast and a negation, from which an empty conjunction is
left out. -/
theorem read_predicate_cast_or_not :
    let table := ((Table.named "t").addPrimaryKey "id" "text").addColumn "since"
      "timestamp(3) with time zone"
    let filter := Filter.group .any [.column "since" (.compare .gt (.text "2020")),
      .group .notAll [.present "id" false, .group .all []]]
    let predicate := Condition.group false .or
      [.atom (.compare "since" false .gt (.text "2020") (some "timestamp(3) with time zone")),
        .group true .and [.atom (.isNull "id")]]
    predicate.fragment.render.sql =
        "(\"since\" > CAST ($1 AS timestamp(3) with time zone) or not (\"id\" is null))" ∧
      ∃ e, (predicate.fragment.tokensIn? [] []).bind Expr.read? = some e ∧
        ∀ u, filter.meaning table u = some (e.truth u) := by
  intro table filter predicate
  have htable : (Schema.mk [table]).requireTable "t" = .ok table := rfl
  have hfilter : Restriction.ofFilter ⟨[table]⟩ "t" filter = .ok ⟨some predicate, []⟩ := by
    rw [Restriction.ofFilter_eq]
    rfl
  have hcolumns : ∀ c ∈ table.columns, isTypeName (typeTokens c.typeName) := by decide
  refine ⟨rfl, ((Filter.read_predicate htable hfilter ?_).2 predicate rfl [] []).1⟩
  intro column value typeName hcast
  obtain ⟨c, hmem, rfl⟩ := Table.exists_column_of_castType? hcast
  exact hcolumns c hmem

end LinkQuery
