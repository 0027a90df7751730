import LinkQuery.Query
import LinkQuery.Proofs.Outcome

/-!
# What compiling fails with

A query that cannot be compiled has a fault of its own: a name without a meaning, a path or a filter
that is not written correctly. No other failure arises while a query is compiled, except that the
window of a page may be out of range.

* `BlamesQuery` says that a computation fails with such a fault or not at all. `BlamesQuery.bind`
  and its relatives go through the steps of a computation. `BlamesName` is the same for names
  without a meaning.
* `Filter.ofJson_blames` and `Query.build_blames` are what comes of it for reading a filter and for
  compiling a query.
-/

namespace LinkQuery

open Json (Value Members)

/-- Whether a failure is a fault of the query. -/
def Error.isQueryFault : Error → Bool
  | unresolved _ _ _ | unknownTable _ _ | malformedPath _ _ _ | unknownOperator _ _
  | emptyCombinator _ | invalidFilter _ => true
  | _ => false

/-- Whether a failure is that a name has no meaning for the schema. -/
def Error.isUnresolved : Error → Bool
  | unresolved _ _ _ => true
  | _ => false

/-- If this fails, then for a name that has no meaning. -/
abbrev BlamesName {α : Type} (x : Except Error α) : Prop := FailsOnly (fun e => e.isUnresolved) x

/-- If this fails, the query is to blame. -/
def BlamesQuery {α : Type} (x : Except Error α) : Prop := ∀ e, x = .error e → e.isQueryFault

namespace BlamesQuery

variable {α β : Type}

/-- What succeeds blames nobody. -/
theorem ok (a : α) : BlamesQuery (.ok a) := FailsOnly.ok a

theorem error {e : Error} (h : e.isQueryFault) : BlamesQuery (.error e : Except Error α) :=
  FailsOnly.error h

/-- Of two steps each is answerable for its own failure. -/
theorem bind {x : Except Error α} {f : α → Except Error β} (hx : BlamesQuery x)
    (hf : ∀ a, BlamesQuery (f a)) : BlamesQuery (x >>= f) :=
  FailsOnly.bind hx fun a _ => hf a

theorem map {x : Except Error α} (hx : BlamesQuery x) (f : α → β) : BlamesQuery (x.map f) :=
  FailsOnly.map hx f

/-- A walk through a list fails only where one of its steps does. -/
theorem mapM {f : α → Except Error β} {as : List α} (hf : ∀ a ∈ as, BlamesQuery (f a)) :
    BlamesQuery (as.mapM f) :=
  FailsOnly.mapM hf

theorem foldlM {f : β → α → Except Error β} (hf : ∀ b a, BlamesQuery (f b a)) (as : List α)
    (b : β) :
    BlamesQuery (as.foldlM f b) :=
  FailsOnly.foldlM (fun b a _ => hf b a) b

theorem forM {f : α → Except Error Unit} (hf : ∀ a, BlamesQuery (f a)) (as : List α) :
    BlamesQuery (as.forM f) :=
  FailsOnly.forM fun a _ => hf a

end BlamesQuery

/-- A name without a meaning is a fault of the query. -/
theorem BlamesName.blamesQuery {α : Type} {x : Except Error α} (h : BlamesName x) :
    BlamesQuery x := by
  intro e he
  have hname := h e he
  cases e with
  | unresolved _ _ _ => rfl
  | _ => cases hname

/-! ### Names -/

/-- A table that is not there is named by the query. -/
theorem Schema.requireTable_blames (schema : Schema) (name : String) :
    BlamesQuery (schema.requireTable name) := by
  unfold requireTable
  split
  · exact .ok _
  · exact .error rfl

/-- A column that is not there is a name without a meaning. -/
theorem Table.requireColumn_blamesName (table : Table) (base path column : String) :
    BlamesName (table.requireColumn base path column) := by
  unfold requireColumn checkColumn
  split
  · exact .ok ()
  · exact .error rfl

theorem Table.requireOwnColumn_blames (table : Table) (column : String) :
    BlamesQuery (table.requireOwnColumn column) :=
  (table.requireColumn_blamesName table.name column column).blamesQuery

/-! ### Selections -/

/-- A path that is not read is written incorrectly. -/
theorem ColumnPath.parse_blames (input : String) : BlamesQuery (parse input) := by
  unfold parse
  dsimp only
  split
  · split
    · exact .ok _
    · exact .error rfl
  · exact .error rfl

/-- Following a path fails at a name that is no link. A link to a table that is not there does not
fail, but ends the path. -/
theorem ColumnPath.follow_blamesName (schema : Schema) (base : String) (path : ColumnPath)
    (names : List String) (table : Table) :
    BlamesName (path.follow schema base names table) := by
  induction names generalizing table with
  | nil => exact .ok _
  | cons name names ih =>
    unfold follow
    split
    · exact .error rfl
    · split
      · exact .ok none
      next target _ => exact (ih target).map _

/-- A path that is not resolved has a name without a meaning, on the way or at its end. -/
theorem ColumnPath.resolve_blamesName (schema : Schema) (table : Table) (path : ColumnPath) :
    BlamesName (path.resolve schema table) := by
  refine (follow_blamesName schema table.name path path.links table).bind fun reached _ => ?_
  -- a path that ends at a missing table is dropped, and so is not checked any further
  match reached with
  | none => exact .ok none
  | some (hops, last) =>
    dsimp only
    split
    · exact .ok _
    · exact (last.requireColumn_blamesName _ _ _).bind fun _ _ => .ok _

/-- **A selection that is not made** has a path that is not read or not resolved, or a table that is
not there. -/
theorem Selection.ofColumns_blames (schema : Schema) (tableName : String) (columns : List String) :
    BlamesQuery (ofColumns schema tableName columns) := by
  refine (BlamesQuery.mapM fun column _ => ColumnPath.parse_blames column).bind fun paths => ?_
  refine (schema.requireTable_blames tableName).bind fun table => ?_
  split
  · exact .ok _
  · refine BlamesQuery.foldlM (fun selection path => ?_) paths _
    -- a path is resolved in the same way whatever has been selected before
    refine (path.resolve_blamesName schema table).blamesQuery.bind fun hops => ?_
    cases hops <;> exact .ok _

/-! ### Reading filters -/

/-- A negation of no members is a fault when it is read. -/
theorem Combinator.checked_blames {α : Type} (combinator : Combinator) (members : List α) :
    BlamesQuery (combinator.checked members) := by
  unfold checked
  split
  · exact .error rfl
  · exact .ok _

namespace Predicate

theorem comparisonOfJson_blames (column key : String) (op : Sql.Comparison) (value : Value) :
    BlamesQuery (comparisonOfJson column key op value) := by
  unfold comparisonOfJson
  split
  · exact .error rfl
  · exact .ok _

theorem patternOfJson_blames (column key : String) (op : PatternOp) (value : Value) :
    BlamesQuery (patternOfJson column key op value) := by
  unfold patternOfJson
  split
  · exact .ok _
  · exact .error rfl

theorem presenceOfJson_blames (column key : String) (expected : Bool) (value : Value) :
    BlamesQuery (presenceOfJson column key expected value) := by
  unfold presenceOfJson
  split
  · exact .ok _
  · exact .error rfl

mutual

/-- A condition on a column that is not read has a fault, in whatever place of it the fault is. -/
theorem ofJson_blames (column : String) (value : Value) : BlamesQuery (ofJson column value) := by
  -- the reading goes down into objects and arrays, and any other value is an operand
  match value with
  | .object members => exact (ofOperators_blames column members).map _
  | .array items => exact (ofItems_blames column items).map _
  | .null | .bool _ | .int _ | .float _ | .text _ => exact .ok _

theorem ofItems_blames (column : String) (items : List Value) :
    BlamesQuery (ofItems column items) := by
  match items with
  | [] => exact .ok []
  | value :: rest =>
    rw [ofItems]
    exact (ofJson_blames column value).bind fun _ => (ofItems_blames column rest).bind fun _ =>
      .ok _

theorem ofOperators_blames (column : String) (members : Members) :
    BlamesQuery (ofOperators column members) := by
  match members with
  | [] => exact .ok []
  | (key, value) :: rest =>
    rw [ofOperators]
    exact (ofOperator_blames column key value).bind fun _ =>
      (ofOperators_blames column rest).bind fun _ => .ok _

/-- What stands behind an operator is read by what the operator is, and an unknown operator is a
fault. -/
theorem ofOperator_blames (column key : String) (value : Value) :
    BlamesQuery (ofOperator column key value) := by
  unfold ofOperator
  split
  · exact comparisonOfJson_blames column key _ value
  split
  · exact patternOfJson_blames column key _ value
  split
  · exact presenceOfJson_blames column key _ value
  split
  next combinator _ =>
    -- what is combined are items or operators
    have hmembers : ∀ members : Except Error (List Predicate), BlamesQuery members →
        BlamesQuery (members >>= fun members => combinator.checked members >>= fun members =>
          .ok (group combinator members)) := fun members h =>
      h.bind fun _ => (combinator.checked_blames _).bind fun _ => .ok _
    match value with
    | .array items => exact hmembers _ (ofItems_blames column items)
    | .object members => exact hmembers _ (ofOperators_blames column members)
    | .null | .bool _ | .int _ | .float _ | .text _ => exact hmembers _ (.ok _)
  next => exact .error rfl

end

end Predicate

namespace Filter

/-- A key is split at its dots, and an empty piece is a fault. -/
theorem keyOfPieces_blames (pieces : List (List Char)) : BlamesQuery (keyOfPieces pieces) := by
  fun_induction keyOfPieces pieces with
  | case1 => exact .ok _
  | case2 => exact .ok _
  | case3 => exact .ok _
  | case4 => exact .error rfl
  | case5 segment next more _ _ ih => exact ih.map _

theorem presenceOfJson_blames (key : String) (expected : Bool) (value : Value) :
    BlamesQuery (presenceOfJson key expected value) := by
  unfold presenceOfJson
  split
  · exact .ok _
  · exact .error rfl

mutual

/-- **A filter that is not read has a fault.** -/
theorem ofJson_blames (value : Value) : BlamesQuery (ofJson value) := by
  match value with
  | .object members => exact (ofMembers_blames members).map _
  | .null | .bool _ | .int _ | .float _ | .text _ | .array _ => exact .error rfl

theorem ofItems_blames (items : List Value) : BlamesQuery (ofItems items) := by
  match items with
  | [] => exact .ok []
  | value :: rest =>
    rw [ofItems]
    exact (ofJson_blames value).bind fun _ => (ofItems_blames rest).bind fun _ => .ok _

theorem ofMembers_blames (members : Members) : BlamesQuery (ofMembers members) := by
  match members with
  | [] => exact .ok []
  | (key, value) :: rest =>
    rw [ofMembers]
    exact (ofMember_blames key value).bind fun _ => (ofMembers_blames rest).bind fun _ => .ok _

/-- A member of a filter is an operator, a flag or a column, possibly behind links. -/
theorem ofMember_blames (key : String) (value : Value) : BlamesQuery (ofMember key value) := by
  unfold ofMember
  refine (keyOfPieces_blames _).bind fun (links, name) => ?_
  -- what is read for the name is set behind the links
  have hbehind : ∀ filter : Except Error Filter, BlamesQuery filter →
      BlamesQuery (filter >>= fun filter => .ok (behind links filter)) := fun filter h =>
    h.bind fun _ => .ok _
  dsimp only
  split
  next combinator _ =>
    have hmembers : ∀ members : Except Error (List Filter), BlamesQuery members →
        BlamesQuery (members >>= fun members => combinator.checked members >>= fun members =>
          .ok (group combinator members) >>= fun filter => .ok (behind links filter)) := fun members
          h =>
      h.bind fun _ => (combinator.checked_blames _).bind fun _ => hbehind _ (.ok _)
    match value with
    | .array items => exact hmembers _ (ofItems_blames items)
    | .object members => exact hmembers _ (ofMembers_blames members)
    | .null | .bool _ | .int _ | .float _ | .text _ => exact hmembers _ (.error rfl)
  next =>
    split
    · exact hbehind _ (presenceOfJson_blames _ _ value)
    split
    · exact hbehind _ (.error rfl)
    match value with
    | .object members =>
      dsimp only
      split
      · exact (ofMembers_blames members).bind fun _ => hbehind _ (.ok _)
      · exact hbehind _ ((Predicate.ofJson_blames _ _).map _)
    | .null | .bool _ | .int _ | .float _ | .text _ | .array _ =>
      exact hbehind _ ((Predicate.ofJson_blames _ _).map _)

end

end Filter

/-! ### Compiling filters -/

/-- A negation whose members demand nothing is the only combination that fails. -/
theorem Combinator.combine_blames (combinator : Combinator) (conditions : List Sql.Condition) :
    BlamesQuery (combinator.combine conditions) := by
  unfold combine
  split
  · split
    · exact .error rfl
    · exact .ok _
  · split <;> exact .ok _

/-- A comparison fails where null is to be ordered. -/
theorem Table.comparison_blames (table : Table) (column : String) (op : Sql.Comparison)
    (value : Value) : BlamesQuery (table.comparison column op value) := by
  unfold comparison
  split
  · cases op with
    | eq | ne => exact .ok _
    | gt | ge | lt | le => exact .error rfl
  · split <;> exact .ok _

mutual

/-- A condition on a column that is not compiled has a comparison or a negation that is not. -/
theorem Predicate.condition_blames (table : Table) (column : String) (predicate : Predicate) :
    BlamesQuery (predicate.condition table column) := by
  match predicate with
  | .compare op value => exact (table.comparison_blames column op value).map _
  | .like _ _ | .present _ => exact .ok _
  | .group combinator members =>
    exact (Predicate.conditions_blames table column members).bind combinator.combine_blames

theorem Predicate.conditions_blames (table : Table) (column : String)
    (predicates : List Predicate) :
    BlamesQuery (Predicate.conditions table column predicates) := by
  match predicates with
  | [] => exact .ok []
  | predicate :: rest =>
    exact (Predicate.condition_blames table column predicate).bind fun _ =>
      (Predicate.conditions_blames table column rest).bind fun _ => .ok _

end

namespace Filter

mutual

/-- Where a filter has to be local, a link in it is a fault. -/
theorem localCondition_blames (table : Table) (filter : Filter) :
    BlamesQuery (filter.localCondition table) := by
  match filter with
  | group combinator members =>
    exact (localConditions_blames table members).bind combinator.combine_blames
  | column name predicate =>
    exact (table.requireOwnColumn_blames name).bind fun _ => predicate.condition_blames table name
  | present name _ => exact (table.requireOwnColumn_blames name).bind fun _ => .ok _
  | link _ _ => exact .error rfl

theorem localConditions_blames (table : Table) (filters : List Filter) :
    BlamesQuery (localConditions table filters) := by
  match filters with
  | [] => exact .ok []
  | filter :: rest =>
    exact (localCondition_blames table filter).bind fun _ =>
      (localConditions_blames table rest).bind fun _ => .ok _

end

mutual

/-- **A filter that is not compiled has a fault**, in its names or in its comparisons and negations.
-/
theorem condition_blames (table : Table) (filter : Filter) :
    BlamesQuery (filter.condition table) := by
  match filter with
  | group .all members =>
    exact (memberConditions_blames table members).bind (Combinator.combine_blames .all)
  | link name _ =>
    rw [condition]
    split
    · exact .ok none
    · exact .error rfl
  | group .any _ | group .notAll _ | group .notAny _ | column _ _ | present _ _ =>
    exact localCondition_blames table _

theorem memberConditions_blames (table : Table) (filters : List Filter) :
    BlamesQuery (memberConditions table filters) := by
  match filters with
  | [] => exact .ok []
  | filter :: rest =>
    exact (condition_blames table filter).bind fun _ =>
      (memberConditions_blames table rest).bind fun _ => .ok _

end

end Filter

namespace Restriction

/-- A link, or the table that it leads to, is a name without a meaning. -/
theorem linkTarget_blamesName (schema : Schema) (table : Table) (name : String) :
    BlamesName (linkTarget schema table name) := by
  unfold linkTarget
  split
  · exact .error rfl
  · split
    · exact .error rfl
    · exact .ok _

/-- **A filter that cannot be laid out along its links has a fault.** -/
theorem ofFilter_blames (schema : Schema) (tableName : String) (filter : Filter) :
    BlamesQuery (ofFilter schema tableName filter) := by
  -- a filter on a link goes one link less deep
  induction hdepth : filter.linkDepth using Nat.strongRecOn generalizing tableName filter with
  | ind depth ih =>
    rw [ofFilter_eq]
    refine (schema.requireTable_blames tableName).bind fun table => ?_
    refine (filter.condition_blames table).bind fun own => ?_
    refine (BlamesQuery.mapM fun group hgroup => ?_).bind fun links => .ok _
    -- the link itself is no longer part of the filter behind it
    have hless : (Filter.conjunction group.2).linkDepth < depth := by
      rw [← hdepth]
      exact Filter.linkDepth_lt_of_mem_linkGroups hgroup
    refine (linkTarget_blamesName schema table group.1).blamesQuery.bind fun target => ?_
    exact (ih _ hless target _ rfl).bind fun _ => .ok _

end Restriction

/-! ### Selects -/

namespace Outline

mutual

/-- A level that is not selected has a link that its table does not have. -/
theorem select_blames (schema : Schema) (table : Table) (correlation : Option Sql.Correlation)
    (asName : Option String) (extra : List String) (outline : Outline) :
    BlamesQuery (select schema table correlation asName extra outline) := by
  match outline with
  | ⟨_, _, links, _⟩ =>
    rw [select]
    exact (selectLinks_blames schema table _ links).bind fun _ => .ok _

theorem selectLinks_blames (schema : Schema) (table : Table) (visible : String)
    (links : List (String × Bool × Outline)) :
    BlamesQuery (selectLinks schema table visible links) := by
  match links with
  | [] => exact .ok []
  | (name, demanded, outline) :: rest =>
    rw [selectLinks]
    split
    · exact .error rfl
    next link _ =>
      refine (schema.requireTable_blames link.targetTable).bind fun target => ?_
      refine (select_blames schema target _ _ [] outline).bind fun inner => ?_
      exact (selectLinks_blames schema table visible rest).bind fun _ => .ok _

end

end Outline

/-- A term to order by that is refused is a name without a meaning, or that of a link. -/
theorem Sql.SelectStatement.checkTerm_blamesName (table : Table) (tableName : String)
    (links : List String) (term : SortTerm) :
    BlamesName (checkTerm table tableName links term) := by
  unfold checkTerm
  split
  · exact .ok ()
  · refine (table.requireColumn_blamesName _ _ _).bind fun _ _ => ?_
    split
    · exact .error rfl
    · exact .ok ()

/-- A select that is not built has such a term, or a level that is not selected. -/
theorem Sql.SelectStatement.build_blames (schema : Schema) (tableName : String)
    (selection : Selection) (restriction : Restriction) (order : List SortTerm)
    (limit : Option (Nat × Nat)) :
    BlamesQuery (build schema tableName selection restriction order limit) := by
  refine (schema.requireTable_blames tableName).bind fun table => ?_
  -- the order is checked first, with the links of the whole outline
  have hterms : ∀ links, BlamesQuery (order.forM (checkTerm table tableName links)) := fun links =>
    .forM (fun term => (checkTerm_blamesName table tableName links term).blamesQuery) order
  refine (hterms _).bind fun _ => ?_
  exact (Outline.select_blames schema table none none _ _).bind fun _ => .ok _

/-! ### Queries -/

namespace Query

/-- **A query that is not compiled has a fault.** -/
theorem build_blames (q : Query) (order : List SortTerm) (limit : Option (Nat × Nat)) :
    BlamesQuery (q.build order limit) := by
  refine (Selection.ofColumns_blames q.schema q.table _).bind fun selection => ?_
  refine (Filter.ofJson_blames q.filterValue).bind fun filter => ?_
  refine (Restriction.ofFilter_blames q.schema q.table filter).bind fun r => ?_
  exact Sql.SelectStatement.build_blames q.schema q.table selection r order limit

/-- **A page that is not compiled** is out of range, or its query has a fault. -/
theorem compilePage_eq_error {q : Query} {w : Window} {e : Error} (h : q.compilePage w = .error e) :
    (∃ fault, w.check = .error fault ∧ e = .invalidPage fault) ∨ e.isQueryFault := by
  cases hcheck : w.check with
  | error fault =>
    rw [compilePage, buildPage, hcheck] at h
    exact .inl ⟨fault, rfl, (Except.error.inj h).symm⟩
  | ok range =>
    have hrest : BlamesQuery (q.compilePage w) := by
      rw [compilePage, buildPage, hcheck]
      exact ((q.schema.requireTable_blames q.table).bind fun table => q.build_blames _ _).map _
    exact .inr (hrest e h)

end Query

end LinkQuery
