import LinkQuery.Proofs.Sql.Casts
import LinkQuery.Proofs.Sql.Expression

/-!
# Conditions are read as they are meant

The tree of a condition fixes its value. Its tokens are read as an expression of that value, by the
precedence of the connectives and whatever stands around it: a combination is in parentheses, and
one condition alone binds closer than any connective.

* `Condition.truth` is the value of a condition, given the values of the tests.
* `ReadsAs` says of tokens that they are read as an expression wherever one may stand. Connecting
  such tokens gives such tokens in parentheses (`readsAs_group`).
* `Condition.readsAs` is the law for conditions, `Select.readWhere?_tokens` the one for all that
  stands behind `where`.
-/

namespace LinkQuery.Sql

open Json (Value)

/-! ### Values of conditions -/

/-- The value of a combination before any negation. -/
def Joiner.truth : Joiner → List Truth → Truth
  | and => Truth.conj
  | or => Truth.disj

namespace Condition

mutual

/-- The value of a condition. -/
def truth (u : Test → Truth) : Condition → Truth
  | atom a => u a.test
  | group negated joiner members =>
    let value := joiner.truth (truths u members)
    if negated then value.not else value

/-- The values of conditions. -/
def truths (u : Test → Truth) : List Condition → List Truth
  | [] => []
  | c :: rest => truth u c :: truths u rest

end

mutual

/-- No combination is without members. -/
def IsSolid : Condition → Prop
  | atom _ => True
  | group _ _ members => members ≠ [] ∧ AreSolid members

/-- No combination in any of the conditions is without members. -/
def AreSolid : List Condition → Prop
  | [] => True
  | c :: rest => IsSolid c ∧ AreSolid rest

end

/-- Members are solid when each one is. -/
theorem areSolid_iff {cs : List Condition} : AreSolid cs ↔ ∀ c ∈ cs, c.IsSolid := by
  induction cs with
  | nil => simp [AreSolid]
  | cons c rest ih => simp [AreSolid, ih]

theorem truths_eq_map (u : Test → Truth) (cs : List Condition) :
    truths u cs = cs.map (truth u) := by
  induction cs with
  | nil => rfl
  | cons c rest ih => rw [truths, ih, List.map_cons]

end Condition

/-- The test that a correlation is. -/
def Correlation.test (c : Correlation) : Test :=
  .compare (.column c.target) .eq (.columnOf c.parent c.localColumn)

/-! ### Tokens that are read as an expression -/

/-- The tokens are read as an expression of the given value, wherever an expression may stand. -/
def ReadsAs (ts : List (Token Value)) (value : (Test → Truth) → Truth) : Prop :=
  ∃ its e, (∀ rest, items? (ts ++ rest) = (items? rest).map (its ++ ·)) ∧
    (∀ u, e.truth u = value u) ∧
    ∀ frame frames, its.foldlM Reader.step ⟨frame :: frames, none⟩ =
      some (Reader.take e frame frames)

theorem items?_of_append {ts : List (Token Value)} {its : List Item}
    (h : ∀ rest, items? (ts ++ rest) = (items? rest).map (its ++ ·)) : items? ts = some its := by
  have hend := h []
  rw [List.append_nil, items?] at hend
  simpa using hend

/-- A test is read as an expression. -/
theorem readsAs_of_items? {ts : List (Token Value)} {test : Test}
    (h : ∀ rest, items? (ts ++ rest) = (items? rest).map (.test test :: ·)) :
    ReadsAs ts fun u => u test :=
  ⟨[.test test], .test test, h, fun _ => rfl, fun _ _ => rfl⟩

/-- A test is read as itself. -/
theorem Atom.readsAs {a : Atom} (h : a.SingleType) : ReadsAs a.tokens fun u => u a.test :=
  readsAs_of_items? (a.items?_tokens h)

/-- A correlation is read as its test. -/
theorem Correlation.readsAs (c : Correlation) : ReadsAs c.tokens fun u => u c.test := by
  refine readsAs_of_items? fun rest => ?_
  have hitem : Item.ofToken? (.name c.target) = none := rfl
  have hread : readTest? (c.tokens ++ rest) = some (c.test, rest) := rfl
  exact items?_of_readTest? hitem hread

/-! ### Connecting expressions -/

namespace Joiner

/-- The item of a connection. -/
def item : Joiner → Item
  | and => .and
  | or => .or

/-- An expression that connects two. -/
def connect : Joiner → Expr → Expr → Expr
  | and => .and
  | or => .or

/-- A frame in which expressions are being connected in one way. -/
def frame (joiner : Joiner) (before : Option Expr) : Frame :=
  match joiner with
  | and => ⟨none, before, 0⟩
  | or => ⟨before, none, 0⟩

theorem items?_token (joiner : Joiner) (rest : List (Token Value)) :
    items? (joiner.token :: rest) = (items? rest).map (joiner.item :: ·) := by
  cases joiner <;> rw [token, items?] <;> rfl

/-- A connective waits for what stands behind it. -/
theorem step_item (joiner : Joiner) (before : Option Expr) (e : Expr) (frames : List Frame) :
    Reader.step ⟨joiner.frame before :: frames, some e⟩ joiner.item =
      some ⟨joiner.frame (some (Frame.connected joiner.connect before e)) :: frames, none⟩ := by
  cases joiner <;> rfl

theorem total_frame (joiner : Joiner) (before : Option Expr) (e : Expr) :
    (joiner.frame before).total e = Frame.connected joiner.connect before e := by
  cases joiner <;> rfl

/-- An expression behind a connective waits for the next item. -/
theorem take_frame (joiner : Joiner) (before : Option Expr) (e : Expr) (frames : List Frame) :
    Reader.take e (joiner.frame before) frames = ⟨joiner.frame before :: frames, some e⟩ := by
  cases joiner <;> rfl

/-- Connecting an expression with what stands before it adds its value. -/
theorem truth_connected (joiner : Joiner) (before : Option Expr) (e : Expr) (u : Test → Truth)
    (values : List Truth) :
    joiner.truth ((Frame.connected joiner.connect before e).truth u :: values) =
      joiner.truth ((before.map (Expr.truth u)).toList ++ e.truth u :: values) := by
  cases before with
  | none => rfl
  | some front =>
    cases joiner with
    | and => exact Truth.and_assoc _ _ _
    | or => exact Truth.or_assoc _ _ _

theorem truth_singleton (joiner : Joiner) (t : Truth) : joiner.truth [t] = t := by
  cases joiner with
  | and => exact Truth.conj_singleton t
  | or => exact Truth.disj_singleton t

end Joiner

/-- Expressions with a connective between them, behind others that are connected in the same way. -/
theorem exists_items_intercalate (joiner : Joiner) {tss : List (List (Token Value))}
    {values : List ((Test → Truth) → Truth)} (h : List.Forall₂ ReadsAs tss values)
    (hne : tss ≠ []) :
    ∃ its, (∀ rest, items? ([joiner.token].intercalate tss ++ rest) =
        (items? rest).map (its ++ ·)) ∧
      ∀ before, ∃ before' e,
        (∀ frames, its.foldlM Reader.step ⟨joiner.frame before :: frames, none⟩ =
          some ⟨joiner.frame before' :: frames, some e⟩) ∧
        ∀ u, ((joiner.frame before').total e).truth u =
          joiner.truth ((before.map (Expr.truth u)).toList ++ values.map (· u)) := by
  -- what has been connected so far is kept in front, so the induction is over all that may stand
  -- there
  induction h with
  | nil => exact absurd rfl hne
  | @cons ts value tss values hfirst hrest ih =>
    obtain ⟨its, e, hits, hvalue, hread⟩ := hfirst
    cases hrest with
    | nil =>
      refine ⟨its, fun rest => ?_, fun before => ⟨before, e, fun frames => ?_, fun u => ?_⟩⟩
      · rw [List.intercalate_singleton]
        exact hits rest
      · rw [hread, joiner.take_frame]
      · rw [joiner.total_frame, ← joiner.truth_singleton (Expr.truth u _), joiner.truth_connected,
          hvalue]
        rfl
    | @cons ts' value' tss values hsecond hrest =>
      -- the connective moves the first expression to what stands in front of the others
      obtain ⟨its', hits', hread'⟩ := ih (by simp)
      refine ⟨its ++ joiner.item :: its', fun rest => ?_, fun before => ?_⟩
      · -- the items
        rw [List.intercalate_cons_cons, List.append_assoc, List.append_assoc, hits,
          List.singleton_append, joiner.items?_token, hits']
        simp [Function.comp_def]
      · obtain ⟨before', e', hfold, htruth⟩ :=
          hread' (some (Frame.connected joiner.connect before e))
        refine ⟨before', e', fun frames => ?_, fun u => ?_⟩
        · -- the reading
          rw [List.foldlM_append, hread, joiner.take_frame, Option.bind_eq_bind, Option.bind_some,
            List.foldlM_cons, joiner.step_item, Option.bind_eq_bind, Option.bind_some, hfold]
        · -- the value
          rw [htruth, List.map_cons (l := value' :: values), ← hvalue]
          exact joiner.truth_connected before e u _

/-! ### Parentheses -/

/-- **Connected expressions in parentheses** are read as one expression. -/
theorem readsAs_group (joiner : Joiner) {tss : List (List (Token Value))}
    {values : List ((Test → Truth) → Truth)} (h : List.Forall₂ ReadsAs tss values)
    (hne : tss ≠ []) :
    ReadsAs (.symbol '(' :: [joiner.token].intercalate tss ++ [.symbol ')'])
      fun u => joiner.truth (values.map (· u)) := by
  obtain ⟨its, hits, hread⟩ := exists_items_intercalate joiner h hne
  obtain ⟨before, e, hfold, htruth⟩ := hread none
  refine ⟨.opening :: its ++ [.closing], (joiner.frame before).total e, fun rest => ?_, htruth,
    fun frame frames => ?_⟩
  · -- the items are those inside, between the parentheses
    have hopen : ∀ ts, items? (.symbol '(' :: ts) = (items? ts).map (.opening :: ·) := by
      intro ts
      rw [items?]
      rfl
    have hclose : items? (.symbol ')' :: rest) = (items? rest).map (.closing :: ·) := by
      rw [items?]
      rfl
    rw [List.cons_append, List.cons_append, List.append_assoc, hopen, hits, List.singleton_append,
      hclose]
    simp [Function.comp_def]
  · -- reading starts in a fresh frame, and the closing parenthesis takes its total
    have hfresh : Frame.fresh = joiner.frame none := by cases joiner <;> rfl
    have hopened : Reader.step ⟨frame :: frames, none⟩ .opening =
        some ⟨joiner.frame none :: frame :: frames, none⟩ := by
      rw [← hfresh]
      rfl
    rw [List.cons_append, List.foldlM_cons, hopened, Option.bind_eq_bind, Option.bind_some,
      List.foldlM_append, hfold]
    rfl

/-- A negation in front of an expression. -/
theorem ReadsAs.not {ts : List (Token Value)} {value : (Test → Truth) → Truth}
    (h : ReadsAs ts value) : ReadsAs (.word "not" :: ts) fun u => (value u).not := by
  obtain ⟨its, e, hits, hvalue, hread⟩ := h
  refine ⟨.not :: its, .not e, fun rest => ?_, fun u => ?_, fun frame frames => ?_⟩
  · rw [List.cons_append, items?]
    have hitem : Item.ofToken? (.word "not") = some .not := rfl
    rw [hitem]
    dsimp only
    rw [hits]
    simp [Function.comp_def]
  · rw [Expr.truth, hvalue]
  · -- the negation waits in the frame until the expression is complete
    have hnot : Reader.step ⟨frame :: frames, none⟩ .not =
        some ⟨{ frame with negations := frame.negations + 1 } :: frames, none⟩ := rfl
    rw [List.foldlM_cons, hnot, Option.bind_eq_bind, Option.bind_some, hread]
    rfl

/-- What is read as an expression is one, standing alone. -/
theorem ReadsAs.read? {ts : List (Token Value)} {value : (Test → Truth) → Truth}
    (h : ReadsAs ts value) : ∃ e, Expr.read? ts = some e ∧ ∀ u, e.truth u = value u := by
  obtain ⟨its, e, hits, hvalue, hread⟩ := h
  refine ⟨e, ?_, hvalue⟩
  unfold Expr.read?
  rw [items?_of_append hits, Option.bind_eq_bind, Option.bind_some, hread]
  rfl

/-! ### Conditions -/

namespace Condition

mutual

/-- **The tokens of a condition are read as the condition**, wherever it may stand. -/
theorem readsAs {c : Condition} (htypes : c.Forall Atom.SingleType) (hsolid : c.IsSolid) :
    ReadsAs c.tokens fun u => c.truth u := by
  match c with
  | atom a => exact Atom.readsAs htypes
  | group negated joiner members =>
    have hne : tokensOfMembers members ≠ [] := by
      have hmembers := hsolid.1
      cases members with
      | nil => exact absurd rfl hmembers
      | cons c rest => simp [tokensOfMembers]
    have hgroup := readsAs_group joiner (readsAs_members htypes hsolid.2) hne
    have hvalue : ∀ u, ((members.map fun c u => c.truth u).map (· u)) = truths u members := by
      intro u
      rw [truths_eq_map, List.map_map]
      rfl
    simp only [hvalue] at hgroup
    -- a negation in front binds closer than any connective behind
    cases negated with
    | false => exact hgroup
    | true => exact hgroup.not

/-- The members of a group are read one by one. -/
theorem readsAs_members {cs : List Condition} (htypes : ForallMembers Atom.SingleType cs)
    (hsolid : AreSolid cs) :
    List.Forall₂ ReadsAs (tokensOfMembers cs) (cs.map fun c u => c.truth u) := by
  match cs with
  | [] => exact .nil
  | c :: rest =>
    exact .cons (readsAs htypes.1 hsolid.1) (readsAs_members htypes.2 hsolid.2)

end

end Condition

/-! ### The conditions of a level -/

/-- The condition behind `where`. -/
def readWhere? : List (Token Value) → Option Expr
  | .word "where" :: ts => Expr.read? ts
  | _ => none

namespace Select

/-- The value of all conditions of a level. -/
def whereTruth (u : Test → Truth) (correlation : Option Correlation)
    (condition : Option Condition) : Truth :=
  .conj (correlation.toList.map (fun c => u c.test) ++ condition.toList.map (Condition.truth u))

/-- **The conditions of a level hold together**: the correlation and the condition, connected by
`and`, are read as their conjunction. -/
theorem readWhere?_tokens (correlation : Option Correlation) {condition : Option Condition}
    (htypes : ∀ c ∈ condition, c.Forall Atom.SingleType) (hsolid : ∀ c ∈ condition, c.IsSolid)
    (hne : correlation.isSome ∨ condition.isSome) :
    ∃ e, readWhere? (whereTokens correlation condition) = some e ∧
      ∀ u, e.truth u = whereTruth u correlation condition := by
  have hparts : List.Forall₂ ReadsAs (conditionTokens correlation condition)
      (correlation.toList.map (fun c u => u c.test) ++
        condition.toList.map fun c u => c.truth u) := by
    unfold conditionTokens
    refine List.rel_append ?_ ?_
    · cases correlation with
      | none => exact .nil
      | some c => exact .cons c.readsAs .nil
    · cases condition with
      | none => exact .nil
      | some c => exact .cons (Condition.readsAs (htypes c rfl) (hsolid c rfl)) .nil
  have hsome : conditionTokens correlation condition ≠ [] := by
    unfold conditionTokens
    cases correlation <;> cases condition <;> simp at hne ⊢
  have hand : Joiner.and.token = .word "and" := rfl
  obtain ⟨its, hits, hread⟩ := exists_items_intercalate .and hparts hsome
  obtain ⟨before, e, hfold, htruth⟩ := hread none
  refine ⟨(Joiner.and.frame before).total e, ?_, fun u => ?_⟩
  · have hwhere : whereTokens correlation condition =
        .word "where" :: [.word "and"].intercalate (conditionTokens correlation condition) := by
      unfold whereTokens
      split
      next hnil => exact absurd hnil hsome
      next => rfl
    -- behind `where` nothing is in parentheses: the outermost frame takes the conjuncts
    have hstart : its.foldlM Reader.step ⟨[.fresh], none⟩ =
        some ⟨[Joiner.and.frame before], some e⟩ := hfold []
    rw [hwhere, readWhere?, Expr.read?, ← hand, items?_of_append hits, Option.bind_eq_bind,
      Option.bind_some, hstart]
    rfl
  · rw [htruth]
    simp [whereTruth, Joiner.truth, Function.comp_def]

end Select

end LinkQuery.Sql
