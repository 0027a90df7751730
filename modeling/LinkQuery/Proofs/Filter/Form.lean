import LinkQuery.Proofs.Operands.Mention

/-!
# The form of a filter

Of an operand nothing matters for the text of a statement but its kind: whether it is null, a text,
or another scalar. The *form* of a filter has one operand of each kind in the place of all operands
of that kind. Names and flags that a test for presence is asked with are no operands, and stay.

A filter can be read if its form can, and what is read of the form is the form of what is read. So
two filters of one form are read alike.

* `Value.form` is the form of a filter as it is written, `Predicate.form` and `Filter.form` are the
  forms of what is read of it.
* `Filter.ofJson_form` compares a filter with its form, `Filter.ofJson_congr` two filters of one
  form.
-/

namespace LinkQuery

open Json (Value Members)

/-! ### Values -/

namespace Json.Value

/-- Whether a value can be the name of a column or a flag. -/
def isNameOrFlag : Value → Bool
  | text _ | bool _ => true
  | _ => false

/-- Whether a test for presence is asked with the value of a member. -/
def asksPresence (key : String) (value : Value) : Bool :=
  (presenceOfKey? (memberPath key value).2).isSome && value.isNameOrFlag

mutual

/-- The form of a value. -/
def form : Value → Value
  | null => null
  | text _ => text ""
  | bool _ | int _ | float _ => int 0
  | array items => array (itemsForm items)
  | object members => object (membersForm members)

/-- The forms of items. -/
def itemsForm : List Value → List Value
  | [] => []
  | value :: rest => form value :: itemsForm rest

/-- The forms of the values of members. -/
def membersForm : Members → Members
  | [] => []
  | (key, value) :: rest =>
    (key, if asksPresence key value then value else form value) :: membersForm rest

end

/-- The form of the value of a member. -/
def memberForm (key : String) (value : Value) : Value :=
  if asksPresence key value then value else value.form

@[simp] theorem isContainer_form (v : Value) : v.form.isContainer = v.isContainer := by
  cases v <;> rfl

@[simp] theorem isNull_form (v : Value) : v.form.isNull = v.isNull := by
  cases v <;> rfl

@[simp] theorem isText_form (v : Value) : v.form.isText = v.isText := by
  cases v <;> rfl

theorem itemsForm_eq_map (vs : List Value) : itemsForm vs = vs.map form := by
  induction vs with
  | nil => rfl
  | cons v rest ih => rw [itemsForm, ih, List.map_cons]

/-- Each member has its own form. -/
theorem membersForm_cons (key : String) (value : Value) (rest : Members) :
    membersForm ((key, value) :: rest) = (key, value.memberForm key) :: membersForm rest := rfl

/-- The form keeps the names of the members. -/
theorem map_fst_membersForm (ms : Members) : (membersForm ms).map (·.1) = ms.map (·.1) := by
  induction ms with
  | nil => rfl
  | cons m rest ih =>
    obtain ⟨key, value⟩ := m
    rw [membersForm, List.map_cons, List.map_cons, ih]

/-- The name or flag that asks for presence is part of the form. -/
theorem memberForm_of_splitKey {key : String} {links : List String} {last : String}
    (hkey : Filter.splitKey key = .ok (links, last)) (value : Value) :
    value.memberForm key =
      if (presenceOfKey? last).isSome && value.isNameOrFlag then value else value.form := by
  -- only the last part of the key tells whether presence is asked for
  have hlast : (memberPath key value).2 = last := by
    show ((Filter.splitKey key).toOption.getD ([], key)).2 = last
    rw [hkey]
    rfl
  rw [memberForm, asksPresence, hlast]

/-- Under a name that tests no presence every value has its form. -/
theorem memberForm_of_presence_eq_none {key : String} {links : List String} {last : String}
    (hkey : Filter.splitKey key = .ok (links, last)) (h : presenceOfKey? last = none)
    (value : Value) : value.memberForm key = value.form := by
  rw [memberForm_of_splitKey hkey, h]
  rfl

/-- Under a test for presence names and flags stay. -/
theorem memberForm_of_presence_eq_some {key : String} {links : List String} {last : String}
    (hkey : Filter.splitKey key = .ok (links, last)) {expected : Bool}
    (h : presenceOfKey? last = some expected) (value : Value) :
    value.memberForm key = if value.isNameOrFlag then value else value.form := by
  rw [memberForm_of_splitKey hkey, h]
  rfl

end Json.Value

/-! ### Reading predicates -/

/-- A negation wants a member, whatever the members are. -/
theorem Combinator.checked_map {α β : Type} (combinator : Combinator) (f : α → β)
    (members : List α) :
    SucceedTogether (fun members members' => members' = members.map f)
      (combinator.checked members) (combinator.checked (members.map f)) := by
  unfold checked
  rw [List.isEmpty_map]
  split
  · exact .error
  · exact .ok rfl

namespace Predicate

mutual

/-- The form of a predicate. -/
def form : Predicate → Predicate
  | compare op value => compare op value.form
  | like op _ => like op ""
  | present expected => present expected
  | group combinator members => group combinator (membersForm members)

/-- The forms of predicates. -/
def membersForm : List Predicate → List Predicate
  | [] => []
  | p :: rest => form p :: membersForm rest

end

theorem membersForm_eq_map (ps : List Predicate) : membersForm ps = ps.map form := by
  induction ps with
  | nil => rfl
  | cons p rest ih => rw [membersForm, ih, List.map_cons]

/-- The form of a conjunction is that of its members. -/
theorem form_conjunction (ps : List Predicate) :
    (conjunction ps).form = conjunction (ps.map form) := by
  rw [← membersForm_eq_map]
  match ps with
  | [] | [_] | _ :: _ :: _ => rfl

/-- Combining what has been read. -/
theorem group_form (combinator : Combinator) {x y : Except Error (List Predicate)}
    (h : SucceedTogether (fun members members' => members' = members.map form) x y) :
    SucceedTogether (fun p p' => p' = p.form)
      (x >>= fun members => combinator.checked members >>= fun members =>
        Except.ok (group combinator members))
      (y >>= fun members => combinator.checked members >>= fun members =>
        Except.ok (group combinator members)) := by
  refine h.bind ?_
  rintro members _ rfl
  refine (combinator.checked_map form members).bind ?_
  rintro members _ rfl
  refine .ok ?_
  rw [form, membersForm_eq_map]

mutual

/-- What is read of a form is the form of what is read. -/
theorem ofJson_form (column : String) (v : Value) :
    SucceedTogether (fun p p' => p' = p.form) (ofJson column v) (ofJson column v.form) := by
  match v with
  -- members and items are read one by one, and the form keeps how many there are
  | .object members =>
    rw [Value.form, ofJson, ofJson]
    refine (ofOperators_form column members).map ?_
    rintro ps _ rfl
    exact (form_conjunction ps).symm
  | .array items =>
    rw [Value.form, ofJson, ofJson]
    refine (ofItems_form column items).map ?_
    rintro ps _ rfl
    rw [form, membersForm_eq_map]
  | .null | .bool _ | .int _ | .float _ | .text _ => exact .ok rfl

theorem ofItems_form (column : String) (vs : List Value) :
    SucceedTogether (fun ps ps' => ps' = ps.map form) (ofItems column vs)
      (ofItems column (Value.itemsForm vs)) := by
  match vs with
  | [] => exact .ok rfl
  | v :: rest =>
    rw [Value.itemsForm, ofItems, ofItems]
    refine (ofJson_form column v).bind ?_
    rintro p _ rfl
    refine (ofItems_form column rest).bind ?_
    rintro ps _ rfl
    exact .ok rfl

theorem ofOperators_form (column : String) (ms : Members) :
    SucceedTogether (fun ps ps' => ps' = ps.map form) (ofOperators column ms)
      (ofOperators column (Value.membersForm ms)) := by
  match ms with
  | [] => exact .ok rfl
  | (key, v) :: rest =>
    rw [Value.membersForm_cons, ofOperators, ofOperators]
    refine (ofOperator_form column key v).bind ?_
    rintro p _ rfl
    refine (ofOperators_form column rest).bind ?_
    rintro ps _ rfl
    exact .ok rfl

/-- One operator of a column reads the same from the form of its operand. -/
theorem ofOperator_form (column key : String) (v : Value) :
    SucceedTogether (fun p p' => p' = p.form) (ofOperator column key v)
      (ofOperator column key (v.memberForm key)) := by
  rw [ofOperator, ofOperator]
  -- the keys of an object are tried as comparison, pattern, presence and combinator in turn
  split
  next op hcomparison =>
    obtain ⟨hkey, hplain⟩ := isOperatorKey_of_comparison hcomparison
    rw [Value.memberForm_of_presence_eq_none hkey.splitKey_eq hplain.presence_eq]
    unfold comparisonOfJson
    rw [Value.isContainer_form]
    -- a comparison takes no container, and the form of one is another
    split
    · exact .error
    · exact .ok rfl
  next =>
    split
    next op hpattern =>
      obtain ⟨hkey, hpresence⟩ := isOperatorKey_of_pattern hpattern
      rw [Value.memberForm_of_presence_eq_none hkey.splitKey_eq hpresence]
      match v with
      | .text _ => exact .ok rfl
      | .null | .bool _ | .int _ | .float _ | .array _ | .object _ => exact .error
    next =>
      split
      next expected hpresence =>
        -- a flag stays, and nothing else is one
        have hkey := isOperatorKey_of_presence hpresence
        rw [Value.memberForm_of_presence_eq_some hkey.splitKey_eq hpresence]
        match v with
        | .bool _ => exact .ok rfl
        | .null | .text _ | .int _ | .float _ | .array _ | .object _ => exact .error
      next =>
        split
        next combinator hcombinator =>
          obtain ⟨hkey, hplain⟩ := isOperatorKey_of_combinator hcombinator
          rw [Value.memberForm_of_presence_eq_none hkey.splitKey_eq hplain.presence_eq]
          match v with
          -- items and members are read as predicates, a single operand as an equality
          | .array items => exact group_form combinator (ofItems_form column items)
          | .object members => exact group_form combinator (ofOperators_form column members)
          | .null | .bool _ | .int _ | .float _ | .text _ =>
            exact group_form combinator (x := .ok [.compare .eq _]) (y := .ok [.compare .eq _])
              (.ok rfl)
        next => exact .error

end

end Predicate

/-! ### Reading filters -/

namespace Filter

mutual

/-- The form of a filter. -/
def form : Filter → Filter
  | group combinator members => group combinator (membersForm members)
  | column name predicate => column name predicate.form
  | present name expected => present name expected
  | link name filter => link name (form filter)

/-- The forms of filters. -/
def membersForm : List Filter → List Filter
  | [] => []
  | filter :: rest => form filter :: membersForm rest

end

theorem membersForm_eq_map (filters : List Filter) : membersForm filters = filters.map form := by
  induction filters with
  | nil => rfl
  | cons filter rest ih => rw [membersForm, ih, List.map_cons]

/-- The form of a conjunction is that of its members. -/
theorem form_conjunction (filters : List Filter) :
    (conjunction filters).form = conjunction (filters.map form) := by
  rw [← membersForm_eq_map]
  match filters with
  | [] | [_] | _ :: _ :: _ => rfl

/-- The form goes through the links. -/
theorem form_behind (links : List String) (filter : Filter) :
    (behind links filter).form = behind links filter.form := by
  induction links with
  | nil => rfl
  | cons link rest ih => exact congrArg (Filter.link link) ih

/-- Whether an object describes a row is a matter of its names. -/
theorem describesRow_membersForm (ms : Members) :
    describesRow (Value.membersForm ms) = describesRow ms := by
  have hnames (ms : Members) :
      describesRow ms = (ms.map (·.1)).any fun key => !isOperator key.toList := by
    rw [List.any_map]
    rfl
  rw [hnames, hnames, Value.map_fst_membersForm]

/-- Setting behind links what has been read. -/
theorem behind_form (links : List String) {x y : Except Error Filter}
    (h : SucceedTogether (fun filter filter' => filter' = filter.form) x y) :
    SucceedTogether (fun filter filter' => filter' = filter.form)
      (x >>= fun filter => Except.ok (behind links filter))
      (y >>= fun filter => Except.ok (behind links filter)) := by
  refine h.bind ?_
  rintro filter _ rfl
  exact .ok (form_behind links filter).symm

/-- Combining what has been read, and setting it behind links. -/
theorem group_form (links : List String) (combinator : Combinator)
    {x y : Except Error (List Filter)}
    (h : SucceedTogether (fun members members' => members' = members.map form) x y) :
    SucceedTogether (fun filter filter' => filter' = filter.form)
      (x >>= fun members => combinator.checked members >>= fun members =>
        Except.ok (group combinator members) >>= fun filter => Except.ok (behind links filter))
      (y >>= fun members => combinator.checked members >>= fun members =>
        Except.ok (group combinator members) >>= fun filter =>
          Except.ok (behind links filter)) := by
  refine h.bind ?_
  rintro members _ rfl
  refine (combinator.checked_map form members).bind ?_
  rintro members _ rfl
  refine behind_form links (.ok ?_)
  rw [form, membersForm_eq_map]

mutual

/-- **What is read of a form is the form of what is read.** -/
theorem ofJson_form (v : Value) :
    SucceedTogether (fun filter filter' => filter' = filter.form) (ofJson v) (ofJson v.form) := by
  match v with
  | .object members =>
    rw [Value.form, ofJson, ofJson]
    refine (ofMembers_form members).map ?_
    rintro filters _ rfl
    exact (form_conjunction filters).symm
  | .null | .bool _ | .int _ | .float _ | .text _ | .array _ => exact .error

theorem ofItems_form (vs : List Value) :
    SucceedTogether (fun filters filters' => filters' = filters.map form) (ofItems vs)
      (ofItems (Value.itemsForm vs)) := by
  match vs with
  | [] => exact .ok rfl
  | v :: rest =>
    rw [Value.itemsForm, ofItems, ofItems]
    refine (ofJson_form v).bind ?_
    rintro filter _ rfl
    refine (ofItems_form rest).bind ?_
    rintro filters _ rfl
    exact .ok rfl

theorem ofMembers_form (ms : Members) :
    SucceedTogether (fun filters filters' => filters' = filters.map form) (ofMembers ms)
      (ofMembers (Value.membersForm ms)) := by
  match ms with
  | [] => exact .ok rfl
  | (key, v) :: rest =>
    rw [Value.membersForm_cons, ofMembers, ofMembers]
    refine (ofMember_form key v).bind ?_
    rintro filter _ rfl
    refine (ofMembers_form rest).bind ?_
    rintro filters _ rfl
    exact .ok rfl

/-- One member of a filter reads the same from the form of its value. -/
theorem ofMember_form (key : String) (v : Value) :
    SucceedTogether (fun filter filter' => filter' = filter.form) (ofMember key v)
      (ofMember key (v.memberForm key)) := by
  rw [ofMember, ofMember]
  refine SucceedTogether.bind_self ?_
  rintro ⟨links, name⟩ hkey
  -- a column reads its value as a predicate
  have hcolumn (v : Value) : SucceedTogether (fun filter filter' => filter' = filter.form)
      ((Predicate.ofJson name v).map (Filter.column name))
      ((Predicate.ofJson name v.form).map (Filter.column name)) := by
    refine (Predicate.ofJson_form name v).map ?_
    rintro p _ rfl
    rw [form]
  dsimp only
  -- the last part of the key decides how the value is read
  cases hcombinator : Combinator.ofKey? name with
  | some combinator =>
    have hpresence := (isOperatorKey_of_combinator hcombinator).2.presence_eq
    rw [Value.memberForm_of_presence_eq_none hkey hpresence]
    match v with
    | .array items => exact group_form links combinator (ofItems_form items)
    | .object members => exact group_form links combinator (ofMembers_form members)
    | .null | .bool _ | .int _ | .float _ | .text _ => exact .error
  | none =>
    cases hpresence : presenceOfKey? name with
    | some expected =>
      -- a name stays, and nothing else is one
      rw [Value.memberForm_of_presence_eq_some hkey hpresence]
      refine behind_form links ?_
      match v with
      | .text _ =>
        refine .ok ?_
        rw [form]
      | .null | .bool _ | .int _ | .float _ | .array _ | .object _ => exact .error
    | none =>
      rw [Value.memberForm_of_presence_eq_none hkey hpresence]
      dsimp only
      -- links without a column are refused whatever the value is
      split
      · exact .error
      match v with
      | .object members =>
        rw [Value.form]
        dsimp only
        rw [describesRow_membersForm]
        split
        · -- the members describe the row behind a link
          refine (ofMembers_form members).bind ?_
          rintro filters _ rfl
          refine behind_form links (.ok ?_)
          rw [form, form_conjunction]
        · exact behind_form links (hcolumn (.object members))
      | .array items => exact behind_form links (hcolumn (.array items))
      | .null => exact behind_form links (hcolumn .null)
      | .bool flag => exact behind_form links (hcolumn (.bool flag))
      | .int i => exact behind_form links (hcolumn (.int i))
      | .float x => exact behind_form links (hcolumn (.float x))
      | .text s => exact behind_form links (hcolumn (.text s))

end

/-- **Filters of one form are read together**, as filters of one form. -/
theorem ofJson_congr {v v' : Value} (h : v'.form = v.form) :
    SucceedTogether (fun filter filter' => filter'.form = filter.form) (ofJson v) (ofJson v') := by
  have hv' := ofJson_form v'
  rw [h] at hv'
  refine ((ofJson_form v).trans_symm hv').mono ?_
  rintro filter filter' ⟨_, rfl, hfilter⟩
  exact hfilter.symm

end Filter

end LinkQuery
