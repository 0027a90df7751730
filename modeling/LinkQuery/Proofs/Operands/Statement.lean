import LinkQuery.Proofs.Operands.Level
import LinkQuery.Proofs.Sql.Casts

/-!
# The parameters of a statement

A statement refers to its parameters by placeholders, each to the next one, and has the operands of
its filter for parameters, which the limit and the offset follow.

* `Sql.paramsOf_number`: the numbers of the placeholders go up by one from the first to the last.
* `Query.params_of_build`: what the parameters of a statement are.
* `Query.operands_numbered_in_order` joins the two, for the statement of a page.
-/

namespace LinkQuery

open Json (Value)
open Sql

namespace Sql

/-- Tokens are numbered without a gap, from the left to the right. -/
theorem paramsOf_number {α : Type} (index : Nat) (ts : List (Token α)) :
    paramsOf (number index ts) = List.range' index (paramsOf ts).length := by
  -- along the tokens, where a placeholder takes the index and the rest start behind it
  induction ts generalizing index with
  | nil => rfl
  | cons t ts ih =>
    rw [number, paramsOf_cons, ih]
    cases t with
    | param value =>
      have hlength : (paramsOf (.param value :: ts)).length = (paramsOf ts).length + 1 := rfl
      rw [hlength, List.range'_succ]
      rfl
    | _ => rfl

/-- The placeholders of a statement made of tokens are numbered as its parameters are. -/
theorem Fragment.Lexes.paramsOf_lex_render {f : Fragment} {ts : List (Token Value)}
    (h : f.Lexes ts) :
    ∃ read, lex f.render.sql.toList = some read ∧
      paramsOf read = List.range' 1 f.render.params.length := by
  refine ⟨number 1 ts, h.lex_chars 1, ?_⟩
  rw [paramsOf_number, ← h.params_eq]
  rfl

/-- The parameters of a limit: how many rows to fetch and, if any, how many to leave out. -/
def limitParams : Option (Nat × Nat) → List Value
  | none => []
  | some (count, offset) => .int count :: if offset = 0 then [] else [.int offset]

namespace SelectStatement

theorem params_orderFragment (order : List SortTerm) : (orderFragment order).params = [] := by
  unfold orderFragment
  split <;> rfl

theorem params_limitFragment (limit : Option (Nat × Nat)) :
    (limitFragment limit).params = limitParams limit := by
  cases limit with
  | none => rfl
  | some limit =>
    obtain ⟨count, offset⟩ := limit
    rw [limitFragment, limitParams]
    split <;> simp

end SelectStatement

end Sql

namespace Query

/-- What the filter of a query mentions, all layers together. -/
def mentions (q : Query) : List Mention := q.filterValue.mentions Combinator.all.key

/-- **The parameters of a statement** are those of the level of its table, and then the limit. -/
theorem params_of_build {q : Query} {order : List SortTerm} {limit : Option (Nat × Nat)}
    {s : SelectStatement} (h : q.build order limit = .ok s) :
    ∃ table selection, q.schema.requireTable q.table = .ok table ∧
      Selection.ofColumns q.schema q.table (q.columns.getD []) = .ok selection ∧
      s.render.params =
        Mention.params q.schema table selection q.mentions ++ limitParams limit := by
  obtain ⟨selection, filter, r, hselection, hfilter, hr, hs⟩ := exists_of_build h
  obtain ⟨table, htable, hselect, -, rfl⟩ := SelectStatement.exists_of_build hs
  refine ⟨table, selection, htable, hselection, ?_⟩
  -- the operands of the select come first and the limit and offset last
  calc s.render.params
      = s.select.fragment.params ++ (SelectStatement.limitFragment s.limit).params := by
        simp [SelectStatement.render, Fragment.render, SelectStatement.fragment,
          SelectStatement.params_orderFragment]
    _ = (Outline.overlay selection r).params ++ limitParams s.limit := by
        rw [Outline.params_of_select hselect, SelectStatement.params_limitFragment]
    _ = Mention.params q.schema table selection q.mentions ++ limitParams s.limit := by
        rw [Outline.params_overlay htable hr, mentions, Filter.mentions_ofJson hfilter]

/-- **No parameter is lost, repeated or numbered out of order.** The placeholders of the statement
of a page are those of its parameters, each once and from left to right. The parameters are the
operands of the filter, level by level, followed by the limit and by the offset, if there is one. -/
theorem operands_numbered_in_order {q : Query} {w : Window} {statement : Statement}
    (h : q.compilePage w = .ok statement) :
    (∃ ts, lex statement.sql.toList = some ts ∧
      paramsOf ts = List.range' 1 statement.params.length) ∧
    ∃ table selection, q.schema.requireTable q.table = .ok table ∧
      Selection.ofColumns q.schema q.table (q.columns.getD []) = .ok selection ∧
      statement.params =
        Mention.params q.schema table selection q.mentions ++
          .int (fetchLimit w).1 :: if w.offset = 0 then [] else [.int w.offset] := by
  obtain ⟨s, hpage, rfl⟩ := map_eq_ok_iff.1 h
  obtain ⟨-, -, hpage⟩ := bind_eq_ok_iff.1 hpage
  obtain ⟨found, -, hbuild⟩ := bind_eq_ok_iff.1 hpage
  have hlexes := SelectStatement.lexes (forall_plainCast_of_build hbuild)
  obtain ⟨table, selection, htable, hselection, hparams⟩ := params_of_build hbuild
  -- one row more is asked for, but no other offset
  have hoffset : (fetchLimit w).2 = w.offset := by
    unfold fetchLimit
    split <;> rfl
  refine ⟨hlexes.paramsOf_lex_render, table, selection, htable, hselection, ?_⟩
  rw [hparams, limitParams, hoffset]

/-- The owner is selected and stands first, although the filter mentions the lead before it. A null
has no parameter, and the offset follows the limit. -/
theorem operands_numbered_in_order_owner_and_lead :
    let users :=
      (Table.named "users").addPrimaryKey "xata_id" "text" |>.addColumn "full_name" "text"
    let teams := (((Table.named "teams").addPrimaryKey "xata_id" "text" |>.addColumn "name" "text"
      |>.addColumn "size" "int").addLink "owner" "users").addLink "lead" "users"
    let q := (Query.new ⟨[teams, users]⟩ "teams").select ["name", "owner.full_name"]
      |>.addFilter (.object
        [("name", .null), ("lead.full_name", .object [("$contains", .text "a")])])
      |>.addFilter (.object [("size", .object [("$gt", .int 3)]), ("owner.full_name", .text "Ada")])
    ∃ statement, q.compilePage (.front 4 2) = .ok statement ∧
      statement.params = [.text "Ada", .text "%a%", .int 3, .int 3, .int 4] ∧
      ∃ ts, lex statement.sql.toList = some ts ∧ paramsOf ts = [1, 2, 3, 4, 5] := by
  intro users teams q
  have hparams : (q.compilePage (.front 4 2)).toOption.map (·.params) =
      some [.text "Ada", .text "%a%", .int 3, .int 3, .int 4] := by
    decide +kernel
  cases hstatement : q.compilePage (.front 4 2) with
  | error e => simp [hstatement, Except.toOption] at hparams
  -- the values are those computed, and the theorem tells how they are numbered
  | ok statement =>
    have hvalues : statement.params = [.text "Ada", .text "%a%", .int 3, .int 3, .int 4] := by
      simpa [hstatement, Except.toOption] using hparams
    obtain ⟨⟨ts, hlex, hnumbers⟩, -⟩ := operands_numbered_in_order hstatement
    exact ⟨statement, rfl, hvalues, ts, hlex, by rw [hnumbers, hvalues]; rfl⟩

end Query

end LinkQuery
