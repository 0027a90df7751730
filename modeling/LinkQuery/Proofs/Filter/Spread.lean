import LinkQuery.Proofs.Filter.Members

/-!
# Operands of combinators in objects and in arrays

A combinator has its operands in an object or in an array. The members of the object are operands
one by one, and so is each item of the array, which is an object itself. An object with a single
member is read as that member. So the members of an object may as well be spread over objects of
their own.

A combinator stands either where filters do, and combines filters on rows, or inside the value for a
column, and combines predicates on the column. The two are read by different functions, each of
which has a place for operands in an object and one for operands in an array.

* `Json.Members.spread` is the array of the single members of an object.
* `Predicate.Replaces` relates two values for a column of which one has another operator in one
  place, as `Filter.Replaces` does for filters.
* `Filter.SpreadsOperands` relates two members that differ in one combinator: in the one its
  operands are in an object, and in the other they are spread.
* `Filter.ofJson_spreadsOperands`: they are read alike wherever they stand.
-/

namespace LinkQuery

open Json (Value Members)

/-- The members of an object, each in an object of its own. -/
def Json.Members.spread (members : Members) : List Value :=
  members.map fun member => .object [member]

/-- What reads an object of one member as it reads the member, reads spread members as it reads them
in one object. -/
theorem mapM_spread {α : Type} {node : Value → Except Error α}
    {each : String × Value → Except Error α}
    (h : ∀ member, node (.object [member]) = each member) (members : Members) :
    members.spread.mapM node = members.mapM each := by
  induction members with
  | nil => rfl
  | cons member rest ih =>
    rw [Json.Members.spread, List.map_cons, List.mapM_cons, List.mapM_cons, h]
    exact bind_congr fun _ => congrArg (· >>= _) ih

/-! ### Inside the value for a column -/

namespace Predicate

theorem ofItems_eq_mapM (column : String) (values : List Value) :
    ofItems column values = values.mapM (ofJson column) := by
  induction values with
  | nil => rfl
  | cons value rest ih =>
    rw [ofItems, List.mapM_cons, ih]
    rfl

theorem ofOperators_eq_mapM (column : String) (members : Members) :
    ofOperators column members = members.mapM fun (key, value) => ofOperator column key value := by
  induction members with
  | nil => rfl
  | cons member rest ih =>
    rw [ofOperators, List.mapM_cons, ih]
    rfl

theorem ofItems_congr {column : String} (before after : List Value) {value value' : Value}
    (h : ofJson column value = ofJson column value') :
    ofItems column (before ++ value :: after) = ofItems column (before ++ value' :: after) := by
  simp only [ofItems_eq_mapM, List.mapM_append, List.mapM_cons, h]

theorem ofOperators_congr {column : String} (before after : Members) {entry entry' : String × Value}
    (h : ofOperator column entry.1 entry.2 = ofOperator column entry'.1 entry'.2) :
    ofOperators column (before ++ entry :: after) =
      ofOperators column (before ++ entry' :: after) := by
  simp only [ofOperators_eq_mapM, List.mapM_append, List.mapM_cons, h]

/-- An object with a single operator is read as that operator. -/
theorem ofJson_single (column key : String) (value : Value) :
    ofJson column (.object [(key, value)]) = ofOperator column key value := by
  rw [ofJson, ofOperators, ofOperators]
  cases ofOperator column key value <;> rfl

theorem ofItems_spread (column : String) (members : Members) :
    ofItems column members.spread = ofOperators column members := by
  rw [ofItems_eq_mapM, ofOperators_eq_mapM]
  exact mapM_spread (fun (key, value) => ofJson_single column key value) members

/-- Reads the operands of a combinator on a column. -/
def operandsOfJson (column : String) : Value → Except Error (List Predicate)
  | .array items => ofItems column items
  | .object members => ofOperators column members
  | scalar => .ok [.compare .eq scalar]

/-- The name of a combinator is that of no comparison. -/
theorem comparison_eq_none {key : String} {combinator : Combinator}
    (hkey : Combinator.ofKey? key = some combinator) : Sql.Comparison.ofKey? key = none := by
  unfold Combinator.ofKey? at hkey
  split at hkey
  case h_5 => simp at hkey
  all_goals rfl

theorem ofOperator_combinator {column key : String} {combinator : Combinator}
    (hkey : Combinator.ofKey? key = some combinator) (value : Value) :
    ofOperator column key value = (do
      let members ← combinator.checked (← operandsOfJson column value)
      .ok (.group combinator members)) := by
  have hplain := (isOperatorKey_of_combinator hkey).2
  simp only [ofOperator, comparison_eq_none hkey, hplain.pattern_eq, hplain.presence_eq, hkey]
  cases value <;> rfl

/-- The second value has the operator `entry'` in one place where the first one has `entry`, and
apart from that they are the same. -/
inductive Replaces (entry entry' : String × Value) : Value → Value → Prop where
  | here (before after : Members) :
      Replaces entry entry' (.object (before ++ entry :: after))
        (.object (before ++ entry' :: after))
  /-- In an array stand alternatives, or the operands of a combinator. -/
  | item {value value' : Value} (first rest : List Value) (h : Replaces entry entry' value value') :
      Replaces entry entry' (.array (first ++ value :: rest)) (.array (first ++ value' :: rest))
  | operand {value value' : Value} {key : String} {combinator : Combinator} (before after : Members)
      (hkey : Combinator.ofKey? key = some combinator) (h : Replaces entry entry' value value') :
      Replaces entry entry' (.object (before ++ (key, value) :: after))
        (.object (before ++ (key, value') :: after))

section

variable {column : String} {entry entry' : String × Value} {value value' : Value}

/-- A value for a column is read as a conjunction or as alternatives, whatever operators stand in
it. -/
theorem Replaces.ofJson_eq (h : Replaces entry entry' value value')
    (hoperands : operandsOfJson column value = operandsOfJson column value') :
    ofJson column value = ofJson column value' := by
  cases h with
  | here _ _ | operand _ _ _ _ => exact congrArg (Except.map conjunction) hoperands
  | item _ _ _ => exact congrArg (Except.map (group .any)) hoperands

theorem operandsOfJson_replaces (h : Replaces entry entry' value value')
    (hread : ofOperator column entry.1 entry.2 = ofOperator column entry'.1 entry'.2) :
    operandsOfJson column value = operandsOfJson column value' := by
  induction h with
  | here before after => exact ofOperators_congr before after hread
  | item first rest h ih => exact ofItems_congr first rest (h.ofJson_eq ih)
  | @operand value value' key _ before after hkey _ ih =>
    have hoperator : ofOperator column key value = ofOperator column key value' := by
      rw [ofOperator_combinator hkey, ofOperator_combinator hkey, ih]
    exact ofOperators_congr before after hoperator

/-- **Operators that are read alike may replace each other**, wherever they stand in the value for a
column. -/
theorem ofJson_replaces (h : Replaces entry entry' value value')
    (hread : ofOperator column entry.1 entry.2 = ofOperator column entry'.1 entry'.2) :
    ofJson column value = ofJson column value' :=
  h.ofJson_eq (operandsOfJson_replaces h hread)

/-- A value that describes no row still describes none. -/
theorem Replaces.isLinkMember_eq (h : Replaces entry entry' value value')
    (hkey : entry.1 = entry'.1)
    (name : String) : value.isLinkMember name = value'.isLinkMember name := by
  cases h <;> simp [Value.isLinkMember, Filter.describesRow, hkey]

end

/-- **A combinator on a column reads spread operands** as it reads them in one object. -/
theorem ofOperator_spread {column key : String} {combinator : Combinator}
    (hkey : Combinator.ofKey? key = some combinator) (operands : Members) :
    ofOperator column key (.object operands) = ofOperator column key (.array operands.spread) := by
  rw [ofOperator_combinator hkey, ofOperator_combinator hkey, operandsOfJson, operandsOfJson,
    ofItems_spread]

end Predicate

/-! ### Where filters stand -/

namespace Filter

/-- An object with a single member is read as that member. -/
theorem ofJson_single (key : String) (value : Value) :
    ofJson (.object [(key, value)]) = ofMember key value := by
  rw [ofJson, ofMembers, ofMembers]
  cases ofMember key value <;> rfl

theorem ofItems_spread (members : Members) : ofItems members.spread = ofMembers members := by
  rw [ofItems_eq_mapM, ofMembers_eq_mapM]
  exact mapM_spread (fun (key, value) => ofJson_single key value) members

variable {key last : String} {links : List String}

/-- **A combinator on rows reads spread operands** as it reads them in one object. -/
theorem ofMember_spread (hkey : splitKey key = .ok (links, last)) {combinator : Combinator}
    (hlast : Combinator.ofKey? last = some combinator) (operands : Members) :
    ofMember key (.object operands) = ofMember key (.array operands.spread) := by
  simp only [ofMember, hkey, hlast, ofItems_spread, bind, Except.bind]

/-- A value that describes no row is one for a column. -/
theorem ofMember_column (hkey : splitKey key = .ok (links, last))
    (hlast : isOperator last.toList = false) {value : Value}
    (hvalue : value.isLinkMember last = false) :
    ofMember key value =
      (Predicate.ofJson last value).map fun predicate => behind links (.column last predicate) := by
  -- the last name is no operator and no flag, so only the column is left
  have hpresence := (isPlainKey_of_not_isOperator hlast).presence_eq
  simp only [ofMember, hkey, combinator_eq_none hlast, hpresence, hlast, bind, Except.bind,
    Bool.false_eq_true, if_false]
  cases value with
  | object members =>
    -- an object may describe the row behind a link, which this one does not
    have hrow : describesRow members = false := by simpa [Value.isLinkMember, hlast] using hvalue
    simp only [hrow, Bool.false_eq_true, if_false]
    cases Predicate.ofJson last (.object members) <;> rfl
  | array items => cases hread : Predicate.ofJson last (.array items) <;> simp [hread, Except.map]
  | null | bool _ | int _ | float _ | text _ => rfl

/-- Two members that differ in one combinator: in the second one its operands are spread. It is the
combinator that the member itself is, or one inside the value for a column. -/
inductive SpreadsOperands : String × Value → String × Value → Prop where
  | row {key last : String} {links : List String} {combinator : Combinator}
      (hkey : splitKey key = .ok (links, last)) (hlast : Combinator.ofKey? last = some combinator)
      (operands : Members) :
      SpreadsOperands (key, .object operands) (key, .array operands.spread)
  | column {key last operator : String} {links : List String} {combinator : Combinator}
      {value value' : Value} {operands : Members} (hkey : splitKey key = .ok (links, last))
      (hlast : isOperator last.toList = false) (hvalue : value.isLinkMember last = false)
      (hoperator : Combinator.ofKey? operator = some combinator)
      (h : Predicate.Replaces (operator, .object operands) (operator, .array operands.spread) value
        value') :
      SpreadsOperands (key, value) (key, value')

variable {member member' : String × Value}

theorem SpreadsOperands.ofMember_eq (h : SpreadsOperands member member') :
    ofMember member.1 member.2 = ofMember member'.1 member'.2 := by
  cases h with
  | row hkey hlast operands => exact ofMember_spread hkey hlast operands
  | @column key last _ _ _ value value' operands hkey hlast hvalue hoperator h =>
    have hvalue' : value'.isLinkMember last = false := h.isLinkMember_eq rfl last ▸ hvalue
    rw [ofMember_column hkey hlast hvalue, ofMember_column hkey hlast hvalue',
      Predicate.ofJson_replaces h (Predicate.ofOperator_spread hoperator operands)]

theorem SpreadsOperands.key_eq (h : SpreadsOperands member member') : member.1 = member'.1 := by
  cases h <;> rfl

/-- **The operands of a combinator may be spread.** Wherever a combinator stands in a filter, on
rows or on a column, at any depth, its operands may be in an object or be its members in an array,
each in an object of its own: the same filter is read, or the same fault reported. -/
theorem ofJson_spreadsOperands (hmember : SpreadsOperands member member')
    {members members' : Members} (h : Replaces member member' members members') :
    ofJson (.object members) = ofJson (.object members') := by
  have hkey := congrArg (fun key => isOperator key.toList) hmember.key_eq
  rw [ofJson, ofJson, ofMembers_replaces h hmember.ofMember_eq hkey]

/-- A negation of two operators, among the alternatives for a column, in an operand of a negation
behind links. -/
theorem ofJson_spreadsOperands_not_name :
    let around (operands : Value) := Value.object [("owner.team", .object [("size", .int 3),
      ("$none", .array [.object [("name", .array [.text "b", .object [("$not", operands)]])]])])]
    ofJson (around (.object [("$is", .text "a"), ("$endsWith", .text "z")])) =
      ofJson (around
        (.array [.object [("$is", .text "a")], .object [("$endsWith", .text "z")]])) := by
  intro around
  -- the places that are gone through: a column behind a link, an operator, and a column
  have hteam : splitKey "owner.team" = .ok (["owner"], "team") := by decide +kernel
  have hnone : splitKey "$none" = .ok ([], "$none") := by decide
  have hname : splitKey "name" = .ok ([], "name") := by decide
  have hmember : SpreadsOperands
      ("name", .array [.text "b",
        .object [("$not", .object [("$is", .text "a"), ("$endsWith", .text "z")])]])
      ("name", .array [.text "b",
        .object [("$not", .array [.object [("$is", .text "a")],
          .object [("$endsWith", .text "z")]])]]) :=
    -- the operands stand under a name, inside the first item of an array
    .column hname rfl rfl rfl (.item [.text "b"] [] (.here [] []))
  exact ofJson_spreadsOperands hmember
    (.behind [] [] hteam rfl rfl (.item [("size", .int 3)] [] [] [] hnone rfl (.here [] [])))

end Filter

end LinkQuery
