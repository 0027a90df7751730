import LinkQuery.Proofs.Filter.Meaning
import LinkQuery.Proofs.Sql.CastTypes

/-!
# Types of columns in predicates

Where a text is compared in order with a column that is no text, it is cast to the declared type of
the column. The name of the type is written as it stands in the schema, if it is plain. Plain names
may contain parentheses, as in `numeric(10, 2)`, and these are looked at one by one: a name that
closes more of them than it has opened is plain as well, and closes the parenthesis of the cast.

* `Filter.meaning_withoutCasts`: apart from casts, what a filter means does not hang on the types of
  a table.
* `Table.casts_enclose_types` tells exactly when a comparison keeps its type in the cast, and says
  that predicates are then read as they would be for any other types.
-/

namespace LinkQuery

open Json (Value)
open Sql

/-! ### What types have to do with meanings -/

/-- Apart from casts, a comparison is the same for all types. -/
theorem Table.comparisonAtom_withoutCasts (table other : Table) (column : String) (op : Comparison)
    (value : Value) : (table.comparisonAtom column op value).withoutCasts =
      (other.comparisonAtom column op value).withoutCasts := by
  unfold comparisonAtom
  split
  · rfl
  · split <;> rfl

theorem Table.test_comparisonAtom_withoutCasts (table other : Table) (column : String)
    (op : Comparison) (value : Value) : (table.comparisonAtom column op value).test.withoutCasts =
      (other.comparisonAtom column op value).test.withoutCasts := by
  rw [← Atom.test_withoutCasts, ← Atom.test_withoutCasts, comparisonAtom_withoutCasts table other]

namespace Predicate

mutual

theorem meaning_withoutCasts (table other : Table) (column : String) (u : Test → Truth)
    (predicate : Predicate) : predicate.meaning table column (fun t => u t.withoutCasts) =
      predicate.meaning other column fun t => u t.withoutCasts := by
  match predicate with
  -- comparisons are the only tests with a cast
  | compare op value =>
    rw [meaning, meaning, table.test_comparisonAtom_withoutCasts other]
  | like op operand =>
    rw [meaning, meaning, ← Atom.test_withoutCasts, ← Atom.test_withoutCasts]
    rfl
  | present expected => rfl
  | group combinator members =>
    rw [meaning, meaning, meanings_withoutCasts table other column u members]

theorem meanings_withoutCasts (table other : Table) (column : String) (u : Test → Truth)
    (predicates : List Predicate) : meanings table column (fun t => u t.withoutCasts) predicates =
      meanings other column (fun t => u t.withoutCasts) predicates := by
  match predicates with
  | [] => rfl
  | predicate :: rest =>
    rw [meanings, meanings, meaning_withoutCasts table other column u predicate,
      meanings_withoutCasts table other column u rest]

end

end Predicate

namespace Filter

mutual

/-- **Apart from casts, a filter means the same** whatever the types of the columns are. -/
theorem meaning_withoutCasts (table other : Table) (u : Test → Truth) (filter : Filter) :
    filter.meaning table (fun t => u t.withoutCasts) =
      filter.meaning other fun t => u t.withoutCasts := by
  match filter with
  | group combinator members =>
    rw [meaning, meaning, meanings_withoutCasts table other u members]
  -- below a column the predicate decides, and the other tests have no cast
  | column name predicate => exact predicate.meaning_withoutCasts table other name u
  | present name expected => rfl
  | link name behind => rfl

theorem meanings_withoutCasts (table other : Table) (u : Test → Truth) (filters : List Filter) :
    meanings table (fun t => u t.withoutCasts) filters =
      meanings other (fun t => u t.withoutCasts) filters := by
  match filters with
  | [] => rfl
  | filter :: rest =>
    rw [meanings, meanings, meaning_withoutCasts table other u filter,
      meanings_withoutCasts table other u rest]

end

end Filter

/-! ### Types in their casts -/

/-- A text is compared in order as it is, or cast to the type that is declared. -/
theorem Table.comparison_text (table : Table) (column : String) {op : Comparison}
    (hop : op.isEquality = false) (text : String) :
    table.comparison column op (.text text) =
      .ok (.atom (.compare column false op (.text text)
        (table.castType? column (.text text)))) := by
  unfold comparison
  rw [hop]
  rfl

theorem Sql.Atom.CastIn.isEnclosed {table : Table}
    (htypes : ∀ column value typeName, table.castType? column value = some typeName →
      isBalanced typeName)
    {a : Atom} (h : a.CastIn table) : a.IsEnclosed := by
  cases a with
  | compare column asText op value castTo =>
    cases castTo with
    | none => exact trivial
    -- the type comes from the table, where every type is balanced
    | some typeName => exact ⟨Table.isPlainType_of_castType? h, htypes column value typeName h⟩
  | _ => exact trivial

/-- **When casts enclose their types.** A text that is compared in order gives a comparison,
whatever the types are.

* Without its cast it is just the comparison of the column with the text, wherever it stands in a
  statement, if and only if the text is not cast or the name of the type it is cast to is balanced.
* If the names of all types that texts are cast to are balanced, then the predicate of every filter
  on the table is read, without its casts, as an expression that has the meaning of the filter: of
  values that are not cast, and with no regard to the types, so that any other table would do. -/
theorem Table.casts_enclose_types (table : Table) :
    (∀ column (op : Comparison) text, op.isEquality = false →
      ∃ c, table.comparison column op (.text text) = .ok c ∧ ∀ before behind,
        ((c.fragment.tokensIn? before behind).bind (withoutCasts? none) =
            some [.name column, .operator op, .param (.text text)] ↔
          ∀ typeName, table.castType? column (.text text) = some typeName → isBalanced typeName)) ∧
    ((∀ column value typeName, table.castType? column value = some typeName → isBalanced typeName) →
      ∀ schema tableName filter r, schema.requireTable tableName = .ok table →
        Restriction.ofFilter schema tableName filter = .ok r → ∀ c, r.own = some c →
          ∀ before behind,
          ∃ e, ((c.fragment.tokensIn? before behind).bind (withoutCasts? none)).bind Expr.read? =
            some e ∧
            ∀ (other : Table) u, filter.meaning other (fun t => u t.withoutCasts) =
              some (e.truth u)) := by
  refine ⟨fun column op text hop => ⟨_, table.comparison_text column hop text,
    fun before behind => ?_⟩, ?_⟩
  · -- the text of a type is lexed in any case, balanced or not
    have hplain : Atom.PlainCast
        (.compare column false op (.text text) (table.castType? column (.text text))) := by
      cases hcast : table.castType? column (.text text) with
      | none => exact trivial
      | some typeName => exact isPlainType_of_castType? hcast
    have hlexes : (Condition.fragment _).Lexes _ := Condition.lexes (c := .atom _) hplain
    rw [hlexes.tokensIn?_eq, Option.bind_some]
    cases hcast : table.castType? column (.text text) with
    | none => exact iff_of_true rfl nofun
    | some typeName =>
      refine (Atom.withoutCasts?_tokens_iff (isPlainType_of_castType? hcast)).trans ?_
      exact ⟨fun hbalanced _ heq => Option.some.inj heq ▸ hbalanced, fun h => h typeName rfl⟩
  · -- the other half: a whole predicate, once all types of the table are balanced
    intro htypes schema tableName filter r htable hfilter c hc before behind
    rw [Restriction.ofFilter_eq] at hfilter
    obtain ⟨found, hfound, hfilter⟩ := bind_eq_ok_iff.1 hfilter
    obtain rfl : found = table := Except.ok.inj (hfound.symm.trans htable)
    obtain ⟨own, hown, hfilter⟩ := bind_eq_ok_iff.1 hfilter
    obtain ⟨links, -, hfilter⟩ := bind_eq_ok_iff.1 hfilter
    obtain rfl := Except.ok.inj hfilter
    obtain rfl : own = some c := hc
    have hamounts := Filter.amounts_condition hown
    -- whatever the predicate casts to is the type of some column
    have hcasts := Filter.condition_castIn hown c rfl
    have hplain : c.Forall Atom.PlainCast := hcasts.mono fun a ha => ha.plainCast
    have henclosed : c.Forall Atom.IsEnclosed := hcasts.mono fun a ha => ha.isEnclosed htypes
    obtain ⟨e, hread, htruth⟩ := Condition.exists_read?_withoutCasts henclosed
      (hamounts.solid c rfl)
    refine ⟨e, ?_, fun other u => ?_⟩
    · rw [(Condition.lexes hplain).tokensIn?_eq, Option.bind_some, hread]
    · -- the other table stands in for the one that the filter was compiled for
      rw [Filter.meaning_withoutCasts other found, htruth]
      exact (hamounts.truth_eq _).symm

/-- **A type that closes its cast.** The name of the type is plain, and the text that it is compared
with is cast to it. The predicate that is meant to be one comparison is a disjunction, one side of
which is true of every row. -/
theorem type_closes_cast :
    let typeName := "timestamptz) or (true"
    let teams := ((Table.named "teams").addPrimaryKey "xata_id" "text").addColumn "since" typeName
    let q := (Query.new ⟨[teams]⟩ "teams").addFilter
      (.object [("since", .object [("$gt", .text "2020")])])
    (teams.castType? "since" (.text "2020") = some typeName ∧ isBalanced typeName = false) ∧
      q.compile =
        .ok ⟨"select \"xata_id\", \"since\" from \"teams\" where " ++
          "\"since\" > CAST ($1 AS timestamptz) or (true)", [.text "2020"]⟩ ∧
      ∃ c, teams.comparison "since" .gt (.text "2020") = .ok c ∧
        (c.fragment.tokensIn? [] []).bind (withoutCasts? none) =
          some [.name "since", .operator .gt, .param (.text "2020"), .word "or", .symbol '(',
            .word "true", .symbol ')'] := by
  intro typeName teams q
  refine ⟨by decide +kernel, by decide +kernel, _, rfl, ?_⟩
  decide +kernel

/-- A type with numbers in parentheses stays in its cast, in a comparison and in a disjunction with
another one. -/
theorem casts_enclose_types_numeric :
    let table := ((Table.named "t").addPrimaryKey "id" "text").addColumn "price" "numeric(10, 2)"
    let filter := Filter.group .any [.column "price" (.compare .gt (.text "9")),
      .present "id" false]
    (∃ c, table.comparison "price" .gt (.text "9") = .ok c ∧
      (c.fragment.tokensIn? [] []).bind (withoutCasts? none) =
        some [.name "price", .operator .gt, .param (.text "9")]) ∧
      ∃ r c e, Restriction.ofFilter ⟨[table]⟩ "t" filter = .ok r ∧ r.own = some c ∧
        ((c.fragment.tokensIn? [] []).bind (withoutCasts? none)).bind Expr.read? = some e ∧
        ∀ u, filter.meaning (.named "t") (fun t => u t.withoutCasts) = some (e.truth u) := by
  intro table filter
  have hcolumns : ∀ c ∈ table.columns, isBalanced c.typeName := by decide
  have htypes : ∀ column value typeName, table.castType? column value = some typeName →
      isBalanced typeName := by
    intro column value typeName hcast
    obtain ⟨c, hmem, rfl⟩ := Table.exists_column_of_castType? hcast
    exact hcolumns c hmem
  obtain ⟨hcomparison, hpredicate⟩ := table.casts_enclose_types
  constructor
  · obtain ⟨c, hc, hstripped⟩ := hcomparison "price" .gt "9" rfl
    exact ⟨c, hc, (hstripped [] []).2 fun typeName hcast => htypes _ _ typeName hcast⟩
  · obtain ⟨r, hr⟩ : ∃ r, Restriction.ofFilter ⟨[table]⟩ "t" filter = .ok r :=
      fault?_eq_none_iff.1 (by decide +kernel)
    have hown : r.own.isSome = true :=
      eq_of_map_toOption (f := (·.own.isSome)) hr (by decide +kernel)
    obtain ⟨c, hc⟩ := Option.isSome_iff_exists.1 hown
    obtain ⟨e, hread, hmeaning⟩ := hpredicate htypes ⟨[table]⟩ "t" filter r rfl hr c hc [] []
    exact ⟨r, c, e, hr, hc, hread, hmeaning (.named "t")⟩

end LinkQuery
