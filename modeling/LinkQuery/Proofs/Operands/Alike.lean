import LinkQuery.Proofs.Filter.Compiled
import LinkQuery.Proofs.Operands.Places

/-!
# Statements do not depend on values

The operands of a filter are values from outside, and a statement is a text that the database reads
as instructions. The one must not find its way into the other: filters that differ in nothing but
the values of operands of the same kinds are compiled to the same text, and each operand is one
parameter or none, the same whatever it is.

* `Filter.forest_mentions`: filters of one form mention the same links, and as many operands.
* `Sql.Statement.Alike` is what two statements have in common then, and `Query.compile_alike` says
  that the statements of two filters of one form have it.
-/

namespace LinkQuery

open Json (Value)
open Sql

/-! ### What is mentioned by filters of one form -/

namespace Predicate

mutual

theorem length_operands_form (p : Predicate) : p.form.operands.length = p.operands.length := by
  match p with
  | .compare op value =>
    -- a null is kept by the form, as it takes no operand
    rw [form, operands, operands, Value.isNull_form]
    split <;> rfl
  | .like op operand => rfl
  | .present expected => rfl
  | .group combinator members =>
    rw [form, operands, operands, length_memberOperands_form members]

theorem length_memberOperands_form (ps : List Predicate) :
    (memberOperands (membersForm ps)).length = (memberOperands ps).length := by
  match ps with
  | [] => rfl
  | p :: rest =>
    rw [membersForm, memberOperands, memberOperands, List.length_append, List.length_append,
      length_operands_form p, length_memberOperands_form rest]

end

end Predicate

namespace Filter

mutual

theorem forest_mentions_form (filter : Filter) :
    Mention.forest filter.form.mentions = Mention.forest filter.mentions := by
  match filter with
  | .group combinator members =>
    rw [form, mentions, mentions, forest_memberMentions_form members]
  -- every operand stands in the column, whatever it is
  | .column name predicate =>
    rw [form, mentions, mentions, Mention.forest, Mention.forest, Mention.mapAll_map_operand,
      Mention.mapAll_map_operand, List.map_const', List.map_const', predicate.length_operands_form]
  | .present name expected => rw [form]
  | .link name behind =>
    rw [form, mentions, mentions]
    exact congrArg (fun inside => [Mention.link name inside]) (forest_mentions_form behind)

theorem forest_memberMentions_form (filters : List Filter) :
    Mention.forest (memberMentions (membersForm filters)) =
      Mention.forest (memberMentions filters) := by
  match filters with
  | [] => rw [membersForm]
  | filter :: rest =>
    have hfirst := forest_mentions_form filter
    have hrest := forest_memberMentions_form rest
    rw [Mention.forest, Mention.forest] at hfirst hrest
    rw [membersForm, memberMentions, memberMentions, Mention.forest, Mention.forest,
      Mention.mapAll_append, Mention.mapAll_append, hfirst, hrest]

end

/-- Filters of one form mention the same links, and operands in the same places. -/
theorem forest_mentions {filter filter' : Filter} (h : filter'.form = filter.form) :
    Mention.forest filter'.mentions = Mention.forest filter.mentions := by
  rw [← forest_mentions_form filter', h, forest_mentions_form filter]

end Filter

/-! ### Statements -/

/-- What the statements of two filters have in common if the filters differ in operands alone: they
have one text, and each parameter is in both of them the operand at the same place, but for the
parameters of the limit, which are the same. So no parameters differ but those of operands that
differ. -/
structure Sql.Statement.Alike (operands operands' limit : List Value) (s s' : Statement) :
    Prop where
  sql_eq : s'.sql = s.sql
  length_eq : operands'.length = operands.length
  exists_places : ∃ places : List Nat, (∀ place ∈ places, place < operands.length) ∧
    s.params = places.map (operands.getD · .null) ++ limit ∧
    s'.params = places.map (operands'.getD · .null) ++ limit

namespace Query

/-- The operands of the filter of a query, in the order of the document and as they are bound to
parameters. -/
def operands (q : Query) : List Value := Mention.allOperands q.mentions

variable {q : Query} {layers : List Value}

/-- If one of two filters of one form is compiled, they mention the same links, and operands in the
same places. -/
theorem forest_mentions_of_build
    (h : (filterValue { q with layers := layers }).form = q.filterValue.form)
    {order : List SortTerm}
    {limit : Option (Nat × Nat)} {s : SelectStatement} (hs : q.build order limit = .ok s) :
    Mention.forest (mentions { q with layers := layers }) = Mention.forest q.mentions := by
  obtain ⟨-, filter, -, -, hfilter, -, -⟩ := exists_of_build hs
  obtain ⟨filter', hfilter', hforms⟩ := (Filter.ofJson_congr h).exists_right hfilter
  rw [mentions, mentions, Filter.mentions_ofJson hfilter, Filter.mentions_ofJson hfilter']
  exact Filter.forest_mentions hforms

/-- Statements of filters of one form are alike. -/
theorem alike_of_build (h : (filterValue { q with layers := layers }).form = q.filterValue.form)
    {order : List SortTerm} {limit : Option (Nat × Nat)} {s s' : SelectStatement}
    (hs : q.build order limit = .ok s)
    (hs' : build { q with layers := layers } order limit = .ok s')
    (hform : s'.mapConditions .form = s.mapConditions .form) :
    Statement.Alike q.operands (operands { q with layers := layers }) (limitParams limit) s.render
      s'.render := by
  obtain ⟨table, selection, htable, hselection, hparams⟩ := params_of_build hs
  obtain ⟨table', selection', htable', hselection', hparams'⟩ := params_of_build hs'
  -- both are built for the same table and selection, from filters that mention alike
  obtain rfl : table' = table := Except.ok.inj (htable'.symm.trans htable)
  obtain rfl : selection' = selection := Except.ok.inj (hselection'.symm.trans hselection)
  have hforest := forest_mentions_of_build h hs
  obtain ⟨places, hplaces, hvalues, hvalues'⟩ :=
    Mention.exists_places hforest q.schema table' selection'
  refine ⟨SelectStatement.sql_render_congr hform, ?_, places, hplaces, ?_, ?_⟩
  · rw [operands, operands, ← (Mention.allNumbered_mapAll 0
      (mentions { q with layers := layers })).2, ← (Mention.allNumbered_mapAll 0 q.mentions).2]
    exact congrArg (fun ms => (Mention.allOperands ms).length) hforest
  · rw [hparams, hvalues]
    rfl
  · rw [hparams', hvalues']
    rfl

/-- **The text of a statement does not depend on the values of a filter.** Let the layers of two
filters differ only in the values of operands, a null standing for a null, a text for a text, and
any other scalar for any other scalar. Then both are compiled or neither is, and if they are, the
statements have one text and the parameters of operands that differ are all that differs in them. -/
theorem compile_alike (h : layers.map Value.form = q.layers.map Value.form) :
    SucceedTogether (Statement.Alike q.operands (operands { q with layers := layers }) [])
      q.compile (compile { q with layers := layers }) ∧
    ∀ w, SucceedTogether
      (Statement.Alike q.operands (operands { q with layers := layers })
        (limitParams (some (fetchLimit w))))
      (q.compilePage w) (compilePage { q with layers := layers } w) := by
  have hform := form_filterValue h
  -- the text depends on the forms alone, so it stays the same
  have hbuild (order : List SortTerm) (limit : Option (Nat × Nat)) :
      SucceedTogether
        (Statement.Alike q.operands (operands { q with layers := layers }) (limitParams limit))
        ((q.build order limit).map (·.render))
        ((build { q with layers := layers } order limit).map (·.render)) :=
    (build_form hform order limit).with_eq.map
      fun s s' ⟨hforms, hs, hs'⟩ => alike_of_build hform hs hs' hforms
  refine ⟨hbuild q.sort none, fun w => ?_⟩
  -- the check of the window and the primary key are the same for both
  show SucceedTogether _ ((q.buildPage w).map _) ((buildPage { q with layers := layers } w).map _)
  rw [buildPage, buildPage]
  simp only [map_of_bind]
  exact .bind_self fun _ _ => .bind_self fun table _ => hbuild _ (some (fetchLimit w))

/-- The other name looks like the end of a statement, and the number has become a flag. A null has
no parameter in either, and the name that is asked for is no operand. -/
theorem compile_alike_other_owner :
    let users :=
      (Table.named "users").addPrimaryKey "xata_id" "text" |>.addColumn "full_name" "text"
    let teams := (((Table.named "teams").addPrimaryKey "xata_id" "text" |>.addColumn "name" "text"
      |>.addColumn "size" "int").addLink "owner" "users").addLink "lead" "users"
    let layers (part : String) (size : Value) (owner : String) : List Value :=
      [.object [("name", .null), ("lead.full_name", .object [("$contains", .text part)]),
        ("$exists", .text "size")],
        .object [("size", .object [("$gt", size)]),
          ("owner.full_name", .array [.text "Ada", .text owner])]]
    let q := { (Query.new ⟨[teams, users]⟩ "teams").select ["name", "owner.full_name"] with
      layers := layers "a" (.int 3) "Eva" }
    let others := layers "50%" (.bool true) "'; --"
    others.map Value.form = q.layers.map Value.form ∧
      ∃ s s', q.compilePage (.front 4 2) = .ok s ∧
        compilePage { q with layers := others } (.front 4 2) = .ok s' ∧ s'.sql = s.sql ∧
        s.params = [.text "Ada", .text "Eva", .text "%a%", .int 3, .int 3, .int 4] ∧
        s'.params = [.text "Ada", .text "'; --", .text "%50\\%%", .bool true, .int 3, .int 4] := by
  intro users teams layers q others
  have hforms : others.map Value.form = q.layers.map Value.form := by decide +kernel
  have hparams : (q.compilePage (.front 4 2)).toOption.map (·.params) =
      some [.text "Ada", .text "Eva", .text "%a%", .int 3, .int 3, .int 4] := by
    decide +kernel
  have hparams' :
      (compilePage { q with layers := others } (.front 4 2)).toOption.map (·.params) =
        some [.text "Ada", .text "'; --", .text "%50\\%%", .bool true, .int 3, .int 4] := by
    decide +kernel
  obtain ⟨s, hs, hvalues⟩ := Option.map_eq_some_iff.1 hparams
  obtain ⟨s', hs', hvalues'⟩ := Option.map_eq_some_iff.1 hparams'
  rw [toOption_eq_some_iff] at hs hs'
  obtain ⟨t, ht, halike⟩ := ((compile_alike hforms).2 (.front 4 2)).exists_right hs
  obtain rfl : t = s' := Except.ok.inj (ht.symm.trans hs')
  exact ⟨hforms, s, t, hs, ht, halike.sql_eq, hvalues, hvalues'⟩

end Query

end LinkQuery
