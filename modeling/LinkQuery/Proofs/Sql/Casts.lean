import LinkQuery.Page.Fetch
import LinkQuery.Proofs.Emit
import LinkQuery.Proofs.Filter.Conditions
import LinkQuery.Proofs.Sql.StatementTokens

/-!
# Casts in statements

The one text that a statement takes from a schema as it is given is the name of a type in a cast.
Such a cast is made only where a text is compared in order with a column, and only to the declared
type of that column, if its name is plain.

* `Atom.CastIn` says this of a condition on a column of a table. It holds of every condition that a
  filter on the table amounts to (`Filter.condition_castIn`).
* `Query.tokens?_of_build`: so every statement of a query is made of its tokens.
-/

namespace LinkQuery

open Json (Value)

/-! ### Conditions of a table -/

/-- A cast is to the type to which a text is cast for the column. -/
def Sql.Atom.CastIn (table : Table) : Sql.Atom → Prop
  | .compare column _ _ value (some typeName) => table.castType? column value = some typeName
  | _ => True

/-- A value is cast to a type only if the name of the type is plain. -/
theorem Table.isPlainType_of_castType? {table : Table} {column : String} {value : Value}
    {typeName : String} (h : table.castType? column value = some typeName) :
    isPlainType typeName := by
  unfold castType? at h
  split at h
  · -- null, and what is no text, is not cast
    simp at h
  · split at h
    next c hc =>
      split at h
      next hplain =>
        obtain rfl : c.typeName = typeName := Option.some.inj h
        exact hplain
      next => simp at h
    next => simp at h

/-- Whatever the table, a cast is to a plain type. -/
theorem Sql.Atom.CastIn.plainCast {table : Table} {a : Sql.Atom} (h : a.CastIn table) :
    a.PlainCast := by
  cases a with
  | compare column asText op value castTo =>
    cases castTo with
    | none => exact trivial
    | some typeName => exact Table.isPlainType_of_castType? h
  | _ => exact trivial

namespace Sql.Condition

variable {p q : Atom → Prop}

/-- All conditions of a group have a property if all its members have it. -/
theorem forallMembers_iff {cs : List Condition} :
    ForallMembers p cs ↔ ∀ c ∈ cs, c.Forall p := by
  induction cs with
  | nil => simp [ForallMembers]
  | cons c rest ih => simp [ForallMembers, ih]

mutual

/-- What follows of each condition on a column follows of all of them. -/
theorem Forall.mono (hpq : ∀ a, p a → q a) {c : Condition} (h : c.Forall p) : c.Forall q := by
  match c with
  | atom a => exact hpq a h
  | group _ _ members => exact ForallMembers.mono hpq h

theorem ForallMembers.mono (hpq : ∀ a, p a → q a) {cs : List Condition}
    (h : ForallMembers p cs) : ForallMembers q cs := by
  match cs with
  | [] => exact trivial
  | c :: rest => exact ⟨Forall.mono hpq h.1, ForallMembers.mono hpq h.2⟩

end

end Sql.Condition

open Sql

variable {p : Atom → Prop}

/-- A combination has no other conditions on columns than its members. -/
theorem Combinator.forall_of_combine {combinator : Combinator} {conditions : List Condition}
    {result : Option Condition} (h : combinator.combine conditions = .ok result)
    (hp : ∀ c ∈ conditions, c.Forall p) : ∀ c ∈ result, c.Forall p := by
  have hmembers := Condition.forallMembers_iff.2 hp
  -- what comes out is nothing, the one member alone, or a group of all members
  unfold combine at h
  split at h
  · split at h
    · simp at h
    · obtain rfl := Except.ok.inj h
      rintro c ⟨⟩
      exact hmembers
  · split at h
    · obtain rfl := Except.ok.inj h
      simp
    · obtain rfl := Except.ok.inj h
      rintro c ⟨⟩
      exact hp _ (by simp)
    · obtain rfl := Except.ok.inj h
      rintro c ⟨⟩
      exact hmembers

/-- The conditions of members have a property if that of each member has it. -/
theorem forall_mem_flatMap_toList {α : Type} {members : List α} {results : List (Option Condition)}
    (h : List.Forall₂ (fun _ result => ∀ c ∈ result, c.Forall p) members results) :
    ∀ c ∈ results.flatMap Option.toList, c.Forall p := by
  intro c hc
  obtain ⟨_, -, hforall⟩ := exists_member_of_mem h hc
  exact hforall c rfl

/-- A test for presence casts nothing. -/
theorem presenceTest_castIn (table : Table) (column : String) (expected : Bool) :
    (presenceTest column expected).Forall (Atom.CastIn table) := by
  cases expected <;> exact trivial

/-- **A comparison casts** only to the type that its column says. -/
theorem Table.comparison_castIn {table : Table} {column : String} {op : Comparison} {value : Value}
    {c : Condition} (h : table.comparison column op value = .ok c) :
    c.Forall (Atom.CastIn table) := by
  unfold comparison at h
  split at h
  · -- null is compared by its presence
    split at h
    · obtain rfl := Except.ok.inj h
      exact presenceTest_castIn table column false
    · obtain rfl := Except.ok.inj h
      exact presenceTest_castIn table column true
    · simp at h
  · split at h
    · obtain rfl := Except.ok.inj h
      exact trivial
    · -- only the order casts a value, to the type that it is asked to be cast to
      obtain rfl := Except.ok.inj h
      cases hcast : table.castType? column value with
      | none => exact trivial
      | some typeName => exact hcast

/-! ### Conditions of filters -/

/-- So does each comparison in a condition on a column. -/
theorem Predicate.condition_castIn {table : Table} {column : String} {predicate : Predicate}
    {result : Option Condition} (h : predicate.condition table column = .ok result) :
    ∀ c ∈ result, c.Forall (Atom.CastIn table) := by
  -- in each case the result is a test, or a combination of what the members amount to
  refine condition_induction (motive := fun _ result => ∀ c ∈ result, c.Forall (Atom.CastIn table))
    ?_ ?_ ?_ ?_ h
  · rintro op value c hc _ ⟨⟩
    exact Table.comparison_castIn hc
  · rintro op operand _ ⟨⟩
    exact trivial
  · rintro expected _ ⟨⟩
    exact presenceTest_castIn table column expected
  · intro combinator members results result hmembers hcombine
    exact Combinator.forall_of_combine hcombine (forall_mem_flatMap_toList hmembers)

/-- And in a filter without links. -/
theorem Filter.localCondition_castIn {table : Table} {filter : Filter} {result : Option Condition}
    (h : filter.localCondition table = .ok result) :
    ∀ c ∈ result, c.Forall (Atom.CastIn table) := by
  refine localCondition_induction
    (motive := fun _ result => ∀ c ∈ result, c.Forall (Atom.CastIn table)) ?_ ?_ ?_ h
  · intro name predicate result hresult
    exact Predicate.condition_castIn hresult
  · rintro name expected _ ⟨⟩
    exact presenceTest_castIn table name expected
  · intro combinator members results result hmembers hcombine
    exact Combinator.forall_of_combine hcombine (forall_mem_flatMap_toList hmembers)

/-- **Casts are to declared types.** -/
theorem Filter.condition_castIn {table : Table} {filter : Filter} {result : Option Condition}
    (h : filter.condition table = .ok result) : ∀ c ∈ result, c.Forall (Atom.CastIn table) := by
  refine condition_induction (motive := fun _ result => ∀ c ∈ result, c.Forall (Atom.CastIn table))
    ?_ ?_ ?_ h
  · intro filter result _ hlocal
    exact localCondition_castIn hlocal
  · -- a filter on a link is compiled to nothing
    rintro name behind found _ _ ⟨⟩
  · intro members results result hmembers hcombine
    exact Combinator.forall_of_combine hcombine (forall_mem_flatMap_toList hmembers)

/-! ### Restrictions, outlines and selects -/

namespace Restriction

mutual

/-- All conditions on columns, of any table, have a property. -/
def Forall (p : Atom → Prop) : Restriction → Prop
  | ⟨own, links⟩ => (∀ c ∈ own, c.Forall p) ∧ ForallLinks p links

/-- All conditions on columns, behind any of the links, have a property. -/
def ForallLinks (p : Atom → Prop) : List (String × Restriction) → Prop
  | [] => True
  | (_, r) :: rest => Forall p r ∧ ForallLinks p rest

end

theorem forallLinks_iff {links : List (String × Restriction)} :
    ForallLinks p links ↔ ∀ link ∈ links, link.2.Forall p := by
  induction links with
  | nil => simp [ForallLinks]
  | cons link rest ih => simp [ForallLinks, ih]

/-- A trivial restriction has no conditions. -/
theorem forall_trivial : trivial.Forall p := ⟨by simp, True.intro⟩

/-- What holds of a restriction holds behind each of its links. -/
theorem Forall.link? {r : Restriction} (h : r.Forall p) {name : String} {sub : Restriction}
    (hsub : r.link? name = some sub) : sub.Forall p := by
  obtain ⟨own, links⟩ := r
  exact forallLinks_iff.1 h.2 (name, sub) (mem_of_lookup_eq_some hsub)

/-- A restriction only casts to plain types. -/
theorem forall_plainCast_of_ofFilter {schema : Schema} {tableName : String} {filter : Filter}
    {r : Restriction} (h : ofFilter schema tableName filter = .ok r) :
    r.Forall Atom.PlainCast := by
  -- the induction is along the links, with another table behind each
  obtain ⟨table, htable⟩ := exists_table_of_ofFilter h
  refine ofFilter_induction (motive := fun _ _ r => r.Forall Atom.PlainCast) ?_ htable h
  intro table filter own links hown hlinks
  refine ⟨fun c hc => ?_, forallLinks_iff.2 fun link hlink => ?_⟩
  · -- the types of a table that are cast to are plain, whatever the table
    exact (Filter.condition_castIn hown c hc).mono fun _ ha => ha.plainCast
  · obtain ⟨group, -, -, found, target, -, -, hforall⟩ := exists_left_of_forall₂ hlinks hlink
    exact hforall

end Restriction

namespace Outline

mutual

/-- All conditions on columns, of any table, have a property. -/
def Forall (p : Atom → Prop) : Outline → Prop
  | ⟨_, condition, links, _⟩ => (∀ c ∈ condition, c.Forall p) ∧ ForallLinks p links

/-- All conditions on columns, behind any of the links, have a property. -/
def ForallLinks (p : Atom → Prop) : List (String × Bool × Outline) → Prop
  | [] => True
  | (_, _, outline) :: rest => Forall p outline ∧ ForallLinks p rest

end

theorem forallLinks_iff {links : List (String × Bool × Outline)} :
    ForallLinks p links ↔ ∀ link ∈ links, link.2.2.Forall p := by
  induction links with
  | nil => simp [ForallLinks]
  | cons link rest ih => simp [ForallLinks, ih]

mutual

/-- An outline of a restriction has the conditions of the restriction. -/
theorem forall_ofRestriction {r : Restriction} (h : r.Forall p) : (ofRestriction r).Forall p := by
  match r with
  | ⟨own, links⟩ => exact ⟨h.1, forall_ofLinks h.2⟩

theorem forall_ofLinks {links : List (String × Restriction)}
    (h : Restriction.ForallLinks p links) : ForallLinks p (ofLinks links) := by
  match links with
  | [] => exact True.intro
  | (name, r) :: rest =>
    rw [ofLinks]
    split
    · exact forall_ofLinks h.2
    · exact ⟨forall_ofRestriction h.1, forall_ofLinks h.2⟩

end

mutual

/-- **The conditions of an outline** are those of its restriction: a selection adds none. -/
theorem forall_overlay {selection : Selection} {r : Restriction} (h : r.Forall p) :
    (overlay selection r).Forall p := by
  match selection with
  | ⟨columns, links⟩ =>
    obtain ⟨own, restricted⟩ := r
    refine ⟨h.1, forallLinks_iff.2 fun link hlink => ?_⟩
    rcases List.mem_append.1 hlink with hlink | hlink
    · -- a selected link
      exact forallLinks_iff.1 (forall_overlayLinks h) link hlink
    · -- a link that is only restricted
      exact forallLinks_iff.1 (forall_ofLinks h.2) link (List.mem_filter.1 hlink).1

theorem forall_overlayLinks {links : List (String × Selection)} {r : Restriction}
    (h : r.Forall p) : ForallLinks p (overlayLinks links r) := by
  match links with
  | [] => exact True.intro
  | (name, selection) :: rest =>
    refine ⟨forall_overlay ?_, forall_overlayLinks h⟩
    -- what is laid under the link is its restriction, if there is one that demands something
    cases hdemand : (r.link? name).filter fun r => !r.isTrivial with
    | none => exact Restriction.forall_trivial
    | some sub => exact h.link? (Option.filter_eq_some_iff.1 hdemand).1

end

/-- Selecting rows by their links adds no condition on a column. -/
theorem forall_enclose {select : Sql.Select} (h : select.Forall p) (demanded : List String) :
    (enclose select demanded).Forall p := by
  unfold enclose
  induction demanded generalizing select with
  | nil => exact h
  | cons name rest ih => exact ih h

mutual

/-- **A select has the conditions of its outline.** -/
theorem forall_select {schema : Schema} {table : Table} {correlation : Option Correlation}
    {asName : Option String} {extra : List String} {outline : Outline} {s : Sql.Select}
    (h : outline.Forall p) (hs : outline.select schema table correlation asName extra = .ok s) :
    s.Forall p := by
  match outline with
  | ⟨columns, condition, links, demanded⟩ =>
    -- the select itself has the conditions, and what is put around it has none
    obtain ⟨inner, hinner, rfl⟩ := exists_of_select hs
    refine forall_enclose ?_ demanded
    exact And.intro (forall_selectLinks h.2 hinner) h.1

theorem forall_selectLinks {schema : Schema} {table : Table} {visible : String}
    {links : List (String × Bool × Outline)} {selects : List (String × Bool × Sql.Select)}
    (h : ForallLinks p links) (hs : selectLinks schema table visible links = .ok selects) :
    Sql.Select.ForallLinks p selects := by
  match links with
  | [] =>
    rw [selectLinks] at hs
    obtain rfl := Except.ok.inj hs
    exact True.intro
  | (name, demanded, outline) :: rest =>
    obtain ⟨link, target, inner, others, -, -, hinner, hothers, rfl⟩ :=
      exists_of_selectLinks_cons hs
    exact ⟨forall_select h.1 hinner, forall_selectLinks h.2 hothers⟩

end

end Outline

/-! ### Queries -/

/-- A statement casts to what its restriction casts to. -/
theorem Sql.SelectStatement.forall_plainCast_of_build {schema : Schema} {tableName : String}
    {selection : Selection} {r : Restriction} {order : List SortTerm} {limit : Option (Nat × Nat)}
    {s : SelectStatement} (h : r.Forall Atom.PlainCast)
    (hs : build schema tableName selection r order limit = .ok s) :
    s.select.Forall Atom.PlainCast := by
  obtain ⟨table, -, hselect, -, -⟩ := exists_of_build hs
  exact Outline.forall_select (Outline.forall_overlay h) hselect

namespace Query

/-- **A statement of a query only casts to plain types.** -/
theorem forall_plainCast_of_build {q : Query} {order : List SortTerm} {limit : Option (Nat × Nat)}
    {s : SelectStatement} (h : q.build order limit = .ok s) : s.select.Forall Atom.PlainCast := by
  obtain ⟨selection, filter, r, -, -, hr, hs⟩ := exists_of_build h
  exact SelectStatement.forall_plainCast_of_build (Restriction.forall_plainCast_of_ofFilter hr) hs

/-- **A query's statement is made of its tokens**, with the values of the parameters in place. -/
theorem tokens?_of_build {q : Query} {order : List SortTerm} {limit : Option (Nat × Nat)}
    {s : SelectStatement} (h : q.build order limit = .ok s) : s.render.tokens? = some s.tokens :=
  (SelectStatement.lexes (forall_plainCast_of_build h)).tokens?_render

end Query

end LinkQuery
