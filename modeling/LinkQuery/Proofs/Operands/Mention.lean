import LinkQuery.Filter.Json
import LinkQuery.Proofs.Outcome

/-!
# What a filter mentions

Of a filter only two things matter for the parameters of a statement: its operands, and the links
behind which they stand. What is left of a filter if all else is taken away is a forest of links
with operands at its leaves, in the order of the document.

* `Mention` is a tree of the forest. `Json.Value.mentions` reads the forest off a filter as it is
  written, without regard to what its operators mean, and `Filter.mentions` off a filter.
* `Filter.mentions_ofJson`: reading a filter loses no operand, repeats none and keeps their order.
-/

namespace LinkQuery

open Json (Value Members)

/-- What is left of a part of a filter. -/
inductive Mention where
  /-- An operand, as it is bound to a parameter. -/
  | operand (value : Value)
  /-- A link, and what is mentioned of the row behind it. -/
  | link (name : String) (inside : List Mention)

namespace Mention

/-- What is mentioned behind the given links, the first one outermost. -/
def behind (links : List String) (inside : List Mention) : List Mention :=
  links.foldr (fun name inside => [link name inside]) inside

@[simp] theorem behind_nil (inside : List Mention) : behind [] inside = inside := rfl

@[simp] theorem behind_cons (name : String) (links : List String) (inside : List Mention) :
    behind (name :: links) inside = [link name (behind links inside)] := rfl

/-- A path of links is its first links and then the others. -/
theorem behind_append (links others : List String) (inside : List Mention) :
    behind (links ++ others) inside = behind links (behind others inside) :=
  List.foldr_append

end Mention

/-! ### In a document -/

namespace Json.Value

/-- The operands that a scalar amounts to under the name of a member. Null is none, nor is what a
test for presence is asked with; of a text operator the operand is the pattern. -/
def scalarOperands (key : String) (scalar : Value) : List Value :=
  if scalar.isNull ∨ (presenceOfKey? key).isSome then []
  else
    match PatternOp.ofKey? key, scalar with
    | some op, text operand => [text (op.likePattern operand)]
    | _, _ => [scalar]

/-- Whether a member is a link, because its value describes a row. -/
def isLinkMember (key : String) : Value → Bool
  | object members => !Filter.isOperator key.toList && Filter.describesRow members
  | _ => false

/-- The links that a member leads through, and the name at their end. -/
def memberPath (key : String) (value : Value) : List String × String :=
  let (links, last) := (Filter.splitKey key).toOption.getD ([], key)
  (if isLinkMember last value then links ++ [last] else links, last)

mutual

/-- What is mentioned in the value of a member of the given name. -/
def mentions (key : String) : Value → List Mention
  | array items => itemMentions key items
  | object members => memberMentions members
  | null => []
  | bool value => (scalarOperands key (bool value)).map .operand
  | int value => (scalarOperands key (int value)).map .operand
  | float value => (scalarOperands key (float value)).map .operand
  | text value => (scalarOperands key (text value)).map .operand

/-- What is mentioned in the items of an array, which is the value of a member of the given name. -/
def itemMentions (key : String) : List Value → List Mention
  | [] => []
  | value :: rest => mentions key value ++ itemMentions key rest

/-- What is mentioned in the members of an object. -/
def memberMentions : Members → List Mention
  | [] => []
  | (key, value) :: rest =>
    Mention.behind (memberPath key value).1 (mentions (memberPath key value).2 value) ++
      memberMentions rest

end

end Json.Value

/-! ### In a filter -/

namespace Predicate

mutual

/-- The operands of a predicate. -/
def operands : Predicate → List Value
  | compare _ value => if value.isNull then [] else [value]
  | like op operand => [.text (op.likePattern operand)]
  | present _ => []
  | group _ members => memberOperands members

/-- The operands of predicates. -/
def memberOperands : List Predicate → List Value
  | [] => []
  | predicate :: rest => operands predicate ++ memberOperands rest

end

end Predicate

namespace Filter

mutual

/-- What a filter mentions. -/
def mentions : Filter → List Mention
  | group _ members => memberMentions members
  | column _ predicate => predicate.operands.map .operand
  | present _ _ => []
  | link name filter => [.link name (mentions filter)]

/-- What filters mention. -/
def memberMentions : List Filter → List Mention
  | [] => []
  | filter :: rest => mentions filter ++ memberMentions rest

end

end Filter

theorem Predicate.memberOperands_eq_flatMap (predicates : List Predicate) :
    memberOperands predicates = predicates.flatMap operands := by
  induction predicates with
  | nil => rfl
  | cons predicate rest ih => rw [memberOperands, ih, List.flatMap_cons]

theorem Filter.memberMentions_eq_flatMap (filters : List Filter) :
    memberMentions filters = filters.flatMap mentions := by
  induction filters with
  | nil => rfl
  | cons filter rest ih => rw [memberMentions, ih, List.flatMap_cons]

/-- A conjunction mentions what its members mention, whether or not it is written as one. -/
theorem Predicate.operands_conjunction (predicates : List Predicate) :
    (conjunction predicates).operands = memberOperands predicates := by
  unfold conjunction
  split
  · simp [memberOperands]
  · rfl

/-- A conjunction mentions what its members mention. -/
theorem Filter.mentions_conjunction (filters : List Filter) :
    (conjunction filters).mentions = memberMentions filters := by
  unfold conjunction
  split
  · simp [memberMentions]
  · rfl

/-- A filter behind links mentions everything behind them. -/
theorem Filter.mentions_behind (links : List String) (filter : Filter) :
    (behind links filter).mentions = Mention.behind links filter.mentions := by
  induction links with
  | nil => rfl
  | cons name rest ih =>
    have hmentions : (Filter.link name (behind rest filter)).mentions =
        [.link name (behind rest filter).mentions] := by
      rw [mentions]
    rw [Mention.behind_cons, ← ih, ← hmentions]
    rfl

/-! ### Names of operators -/

/-- A name that changes nothing about an operand: that of a column, of a comparison or of a
combination. -/
structure IsPlainKey (key : String) : Prop where
  pattern_eq : PatternOp.ofKey? key = none
  presence_eq : presenceOfKey? key = none

/-- A name of an operator is not taken apart. -/
structure IsOperatorKey (key : String) : Prop where
  isOperator : Filter.isOperator key.toList = true
  splitKey_eq : Filter.splitKey key = .ok ([], key)

/-- A comparison is an operator, and its operands are taken as they are. -/
theorem isOperatorKey_of_comparison {key : String} {op : Sql.Comparison}
    (h : Sql.Comparison.ofKey? key = some op) : IsOperatorKey key ∧ IsPlainKey key := by
  unfold Sql.Comparison.ofKey? at h
  split at h
  case h_7 => simp at h
  all_goals exact ⟨⟨rfl, rfl⟩, ⟨rfl, rfl⟩⟩

/-- A pattern is an operator that does not ask for presence. -/
theorem isOperatorKey_of_pattern {key : String} {op : PatternOp}
    (h : PatternOp.ofKey? key = some op) :
    IsOperatorKey key ∧ presenceOfKey? key = none := by
  unfold PatternOp.ofKey? at h
  split at h
  case h_5 => simp at h
  all_goals exact ⟨⟨rfl, rfl⟩, rfl⟩

theorem isOperatorKey_of_presence {key : String} {expected : Bool}
    (h : presenceOfKey? key = some expected) : IsOperatorKey key := by
  unfold presenceOfKey? at h
  split at h
  case h_3 => simp at h
  all_goals exact ⟨rfl, rfl⟩

/-- A combinator is an operator, and its operands are taken as they are. -/
theorem isOperatorKey_of_combinator {key : String} {combinator : Combinator}
    (h : Combinator.ofKey? key = some combinator) : IsOperatorKey key ∧ IsPlainKey key := by
  unfold Combinator.ofKey? at h
  split at h
  case h_5 => simp at h
  all_goals exact ⟨⟨rfl, rfl⟩, ⟨rfl, rfl⟩⟩

/-- The name of a column or of a link is plain. -/
theorem isPlainKey_of_not_isOperator {key : String} (h : Filter.isOperator key.toList = false) :
    IsPlainKey key := by
  constructor
  · cases hkey : PatternOp.ofKey? key with
    | none => rfl
    | some op => simp [(isOperatorKey_of_pattern hkey).1.isOperator] at h
  · cases hkey : presenceOfKey? key with
    | none => rfl
    | some expected => simp [(isOperatorKey_of_presence hkey).isOperator] at h

namespace Json.Value

/-- A plain operand is mentioned unless it is a null. -/
theorem scalarOperands_of_plain {key : String} (hkey : IsPlainKey key) (scalar : Value) :
    scalarOperands key scalar = if scalar.isNull then [] else [scalar] := by
  unfold scalarOperands
  simp [hkey.pattern_eq, hkey.presence_eq]

/-- A pattern is mentioned as it is sent. -/
theorem scalarOperands_of_pattern {key : String} {op : PatternOp}
    (h : PatternOp.ofKey? key = some op) (operand : String) :
    scalarOperands key (text operand) = [text (op.likePattern operand)] := by
  simp [scalarOperands, h, (isOperatorKey_of_pattern h).2, isNull]

/-- A flag is not mentioned. -/
theorem scalarOperands_of_presence {key : String} {expected : Bool}
    (h : presenceOfKey? key = some expected) (scalar : Value) : scalarOperands key scalar = [] := by
  simp [scalarOperands, h]

theorem isLinkMember_of_isOperator {key : String} (hkey : Filter.isOperator key.toList = true)
    (value : Value) : isLinkMember key value = false := by
  cases value <;> simp [isLinkMember, hkey]

/-- An operator leads through no link. -/
theorem memberPath_of_isOperatorKey {key : String} (hkey : IsOperatorKey key) (value : Value) :
    memberPath key value = ([], key) := by
  simp [memberPath, hkey.splitKey_eq, Except.toOption,
    isLinkMember_of_isOperator hkey.isOperator value]

/-- What is mentioned in a value that is neither an array nor an object. -/
theorem mentions_scalar (key : String) {value : Value} (h : value.isContainer = false) :
    mentions key value = (scalarOperands key value).map .operand := by
  cases value with
  | array items => simp [isContainer] at h
  | object members => simp [isContainer] at h
  | null => simp [mentions, scalarOperands, isNull]
  | _ => rw [mentions]

end Json.Value

/-! ### Reading a filter -/

/-- A combinator refuses its members or leaves them as they are. -/
theorem Combinator.eq_of_checked {α : Type} {combinator : Combinator} {members members' : List α}
    (h : combinator.checked members = .ok members') : members' = members := by
  unfold checked at h
  split at h
  · simp at h
  · exact (Except.ok.inj h).symm

namespace Predicate

theorem operands_of_checked {combinator : Combinator} {members : List Predicate}
    {predicate : Predicate}
    (h : (do
      let members ← combinator.checked members
      .ok (group combinator members)) = Except.ok (ε := Error) predicate) :
    predicate.operands = memberOperands members := by
  obtain ⟨checked, hchecked, hresult⟩ := bind_eq_ok_iff.1 h
  obtain rfl := Combinator.eq_of_checked hchecked
  obtain rfl := Except.ok.inj hresult
  rw [operands]

mutual

/-- The operands of a predicate are those that its text mentions. -/
theorem mentions_ofJson {column key : String} (hkey : IsPlainKey key) {value : Value}
    {predicate : Predicate} (h : ofJson column value = .ok predicate) :
    value.mentions key = predicate.operands.map .operand := by
  match value with
  | .object members =>
    obtain ⟨predicates, hmembers, rfl⟩ := map_eq_ok_iff.1 h
    rw [Value.mentions, operands_conjunction, mentions_ofOperators hmembers]
  | .array items =>
    obtain ⟨predicates, hitems, rfl⟩ := map_eq_ok_iff.1 h
    rw [Value.mentions, operands, mentions_ofItems hkey hitems]
  | .null | .bool _ | .int _ | .float _ | .text _ =>
    -- a scalar is compared with
    obtain rfl := Except.ok.inj h
    rw [Value.mentions_scalar key rfl, Value.scalarOperands_of_plain hkey, operands]

theorem mentions_ofItems {column key : String} (hkey : IsPlainKey key) {items : List Value}
    {predicates : List Predicate} (h : ofItems column items = .ok predicates) :
    Value.itemMentions key items = (memberOperands predicates).map .operand := by
  match items with
  | [] =>
    obtain rfl := Except.ok.inj h
    rfl
  | value :: rest =>
    obtain ⟨predicate, hvalue, h⟩ := bind_eq_ok_iff.1 h
    obtain ⟨others, hrest, h⟩ := bind_eq_ok_iff.1 h
    obtain rfl := Except.ok.inj h
    rw [Value.itemMentions, memberOperands, List.map_append, mentions_ofJson hkey hvalue,
      mentions_ofItems hkey hrest]

theorem mentions_ofOperators {column : String} {members : Members} {predicates : List Predicate}
    (h : ofOperators column members = .ok predicates) :
    Value.memberMentions members = (memberOperands predicates).map .operand := by
  match members with
  | [] =>
    obtain rfl := Except.ok.inj h
    rfl
  | (key, value) :: rest =>
    obtain ⟨predicate, hvalue, h⟩ := bind_eq_ok_iff.1 h
    obtain ⟨others, hrest, h⟩ := bind_eq_ok_iff.1 h
    obtain rfl := Except.ok.inj h
    obtain ⟨hkey, hmentions⟩ := mentions_ofOperator hvalue
    rw [Value.memberMentions, Value.memberPath_of_isOperatorKey hkey, Mention.behind_nil,
      memberOperands, List.map_append, hmentions, mentions_ofOperators hrest]

/-- An operator of a column mentions the operands of its predicate. -/
theorem mentions_ofOperator {column key : String} {value : Value} {predicate : Predicate}
    (h : ofOperator column key value = .ok predicate) :
    IsOperatorKey key ∧ value.mentions key = predicate.operands.map .operand := by
  rw [ofOperator] at h
  split at h
  next op hcomparison =>
    -- a comparison has a scalar to compare with
    obtain ⟨hkey, hplain⟩ := isOperatorKey_of_comparison hcomparison
    unfold comparisonOfJson at h
    split at h
    next => simp at h
    next hscalar =>
      obtain rfl := Except.ok.inj h
      refine ⟨hkey, ?_⟩
      rw [Value.mentions_scalar key (by simpa using hscalar),
        Value.scalarOperands_of_plain hplain, operands]
  next =>
    split at h
    next op hpattern =>
      -- a text operator has a text
      obtain ⟨hkey, -⟩ := isOperatorKey_of_pattern hpattern
      unfold patternOfJson at h
      split at h
      next operand =>
        obtain rfl := Except.ok.inj h
        refine ⟨hkey, ?_⟩
        rw [Value.mentions_scalar key rfl, operands, Value.scalarOperands_of_pattern hpattern]
      next => simp at h
    next =>
      split at h
      next expected hpresence =>
        -- a test for presence has a flag, which is no operand
        unfold presenceOfJson at h
        split at h
        next flag =>
          obtain rfl := Except.ok.inj h
          refine ⟨isOperatorKey_of_presence hpresence, ?_⟩
          rw [Value.mentions_scalar key rfl, operands, Value.scalarOperands_of_presence hpresence]
        next => simp at h
      next =>
        split at h
        next combinator hcombinator =>
          obtain ⟨hkey, hplain⟩ := isOperatorKey_of_combinator hcombinator
          refine ⟨hkey, ?_⟩
          match value with
          | .array items =>
            obtain ⟨predicates, hitems, h⟩ := bind_eq_ok_iff.1 h
            rw [Value.mentions, mentions_ofItems hplain hitems, operands_of_checked h]
          | .object members =>
            obtain ⟨predicates, hmembers, h⟩ := bind_eq_ok_iff.1 h
            rw [Value.mentions, mentions_ofOperators hmembers, operands_of_checked h]
          | .null | .bool _ | .int _ | .float _ | .text _ =>
            -- a scalar alone stands for a comparison
            rw [Value.mentions_scalar key rfl, Value.scalarOperands_of_plain hplain,
              operands_of_checked h, memberOperands, memberOperands, operands, List.append_nil]
        next => simp at h

end

end Predicate

namespace Filter

/-- A combination, once it is checked and put behind links, mentions what its members do. -/
theorem exists_of_checked {combinator : Combinator} {links : List String} {members : List Filter}
    {filter : Filter}
    (h : (do
      let members ← combinator.checked members
      let inner ← .ok (group combinator members)
      .ok (behind links inner)) = Except.ok (ε := Error) filter) :
    ∃ inner, behind links inner = filter ∧ memberMentions members = inner.mentions := by
  obtain ⟨checked, hchecked, hresult⟩ := bind_eq_ok_iff.1 h
  obtain rfl := Combinator.eq_of_checked hchecked
  exact ⟨_, Except.ok.inj hresult, by rw [mentions]⟩

/-- A test for presence has no operand. -/
theorem mentions_of_presence {key : String} {expected : Bool}
    (hkey : presenceOfKey? key = some expected) {value : Value} {filter : Filter}
    (h : presenceOfJson key expected value = .ok filter) :
    value.mentions key = filter.mentions := by
  unfold presenceOfJson at h
  split at h
  next name =>
    obtain rfl := Except.ok.inj h
    rw [Value.mentions_scalar key rfl, Value.scalarOperands_of_presence hkey, mentions]
    rfl
  next => simp at h

/-- The filter on a column mentions what its predicate does. -/
theorem mentions_of_column {key : String} (hkey : isOperator key.toList = false) {value : Value}
    {filter : Filter} (h : (Predicate.ofJson key value).map (Filter.column key) = .ok filter) :
    value.mentions key = filter.mentions := by
  obtain ⟨predicate, hpredicate, rfl⟩ := map_eq_ok_iff.1 h
  rw [mentions, Predicate.mentions_ofJson (isPlainKey_of_not_isOperator hkey) hpredicate]

mutual

/-- **Reading a filter keeps what its text mentions**: each operand once, in its order, behind the
links that it is written behind. -/
theorem mentions_ofJson {key : String} {value : Value} {filter : Filter}
    (h : ofJson value = .ok filter) : value.mentions key = filter.mentions := by
  match value with
  | .object members =>
    obtain ⟨filters, hmembers, rfl⟩ := map_eq_ok_iff.1 h
    rw [Value.mentions, mentions_conjunction, mentions_ofMembers hmembers]
  | .null | .bool _ | .int _ | .float _ | .text _ | .array _ => simp [ofJson] at h

theorem mentions_ofItems {key : String} {items : List Value} {filters : List Filter}
    (h : ofItems items = .ok filters) : Value.itemMentions key items = memberMentions filters := by
  match items with
  | [] =>
    obtain rfl := Except.ok.inj h
    rfl
  | value :: rest =>
    obtain ⟨filter, hvalue, h⟩ := bind_eq_ok_iff.1 h
    obtain ⟨others, hrest, h⟩ := bind_eq_ok_iff.1 h
    obtain rfl := Except.ok.inj h
    rw [Value.itemMentions, memberMentions, mentions_ofJson hvalue, mentions_ofItems hrest]

/-- The members of an object mention what their filters mention, one after the other. -/
theorem mentions_ofMembers {members : Members} {filters : List Filter}
    (h : ofMembers members = .ok filters) :
    Value.memberMentions members = memberMentions filters := by
  match members with
  | [] =>
    obtain rfl := Except.ok.inj h
    rfl
  | (key, value) :: rest =>
    obtain ⟨filter, hvalue, h⟩ := bind_eq_ok_iff.1 h
    obtain ⟨others, hrest, h⟩ := bind_eq_ok_iff.1 h
    obtain rfl := Except.ok.inj h
    rw [Value.memberMentions, memberMentions, mentions_ofMember hvalue, mentions_ofMembers hrest]

/-- A member mentions, behind its links, what its filter mentions. -/
theorem mentions_ofMember {key : String} {value : Value} {filter : Filter}
    (h : ofMember key value = .ok filter) :
    Mention.behind (Value.memberPath key value).1 (value.mentions (Value.memberPath key value).2) =
      filter.mentions := by
  rw [ofMember] at h
  obtain ⟨⟨links, last⟩, hkey, h⟩ := bind_eq_ok_iff.1 h
  -- what stands behind the links is a combination, a test for presence, a link or a column
  obtain ⟨inner, rfl, hinner⟩ : ∃ inner, behind links inner = filter ∧
      Mention.behind (if Value.isLinkMember last value then [last] else []) (value.mentions last) =
        inner.mentions := by
    dsimp only at h
    split at h
    next combinator hcombinator =>
      have hlink : Value.isLinkMember last value = false :=
        Value.isLinkMember_of_isOperator (isOperatorKey_of_combinator hcombinator).1.isOperator
          value
      rw [hlink]
      match value with
      | .array items =>
        obtain ⟨filters, hitems, h⟩ := bind_eq_ok_iff.1 h
        obtain ⟨inner, hinner, hmentions⟩ := exists_of_checked h
        exact ⟨inner, hinner, (mentions_ofItems hitems).trans hmentions⟩
      | .object members =>
        obtain ⟨filters, hmembers, h⟩ := bind_eq_ok_iff.1 h
        obtain ⟨inner, hinner, hmentions⟩ := exists_of_checked h
        exact ⟨inner, hinner, (mentions_ofMembers hmembers).trans hmentions⟩
      | .null | .bool _ | .int _ | .float _ | .text _ => simp [bind, Except.bind] at h
    next =>
      split at h
      next expected hpresence =>
        have hlink : Value.isLinkMember last value = false :=
          Value.isLinkMember_of_isOperator (isOperatorKey_of_presence hpresence).isOperator value
        rw [hlink]
        obtain ⟨inner, hinner, h⟩ := bind_eq_ok_iff.1 h
        exact ⟨inner, Except.ok.inj h, mentions_of_presence hpresence hinner⟩
      next =>
        split at h
        next => simp [bind, Except.bind] at h
        next hoperator =>
          have hname : isOperator last.toList = false := by simpa using hoperator
          match value with
          | .object members =>
            dsimp only at h
            split at h
            next hrow =>
              -- the members describe the row behind a link
              obtain ⟨filters, hmembers, h⟩ := bind_eq_ok_iff.1 h
              refine ⟨_, Except.ok.inj h, ?_⟩
              have hlink : Value.isLinkMember last (.object members) = true := by
                simp [Value.isLinkMember, hname, hrow]
              rw [hlink, mentions, mentions_conjunction, ← mentions_ofMembers hmembers]
              rfl
            next hrow =>
              obtain ⟨inner, hinner, h⟩ := bind_eq_ok_iff.1 h
              have hlink : Value.isLinkMember last (.object members) = false := by
                simp [Value.isLinkMember, hrow]
              rw [hlink]
              exact ⟨inner, Except.ok.inj h, mentions_of_column hname hinner⟩
          | .null | .bool _ | .int _ | .float _ | .text _ | .array _ =>
            obtain ⟨inner, hinner, h⟩ := bind_eq_ok_iff.1 h
            exact ⟨inner, Except.ok.inj h, mentions_of_column hname hinner⟩
  have hpath : Value.memberPath key value =
      (links ++ (if Value.isLinkMember last value then [last] else []), last) := by
    simp only [Value.memberPath, hkey, Except.toOption, Option.getD_some]
    cases Value.isLinkMember last value <;> simp
  rw [hpath, Mention.behind_append, hinner, mentions_behind]

end

end Filter

end LinkQuery
