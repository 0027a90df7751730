import LinkQuery.Page.Stream
import LinkQuery.Proofs.Faults
import LinkQuery.Proofs.Outcome
import LinkQuery.Proofs.Page.Adjacent
import LinkQuery.Proofs.Page.Statement
import LinkQuery.Proofs.Page.Walk

/-!
# What is asked of the database

A request for a page, or for the next row of a stream, may fail for many reasons: a token that is
not accepted, a name without a meaning, a filter of the wrong form, a window out of range. All of
them are found before the database is asked anything, so a failure of that kind costs no statement,
and whoever sees it knows that nothing was sent.

The reason is that everything is decided beforehand. A `Plan` is either settled, or it consists of
one statement and of what becomes of the answer; more than one statement cannot be written down.
Fetching a window, asking for a page and taking a step of a stream are each carried out by a plan
(`Query.fetch_eq_run`, `Query.paginate_eq_run`, `RecordStream.next_eq_run`), with any database in
any monad. A step may be thought of as a loop that goes round again once its page has come, and that
comes to the same (`RecordStream.next_eq_loop`). What remains is that these plans are candid: where
they are settled the failure is not one of the database, and once they have asked only the database
can fail (`Plan.IsCandid`).

To say what was handed over, a database is put behind a record of its exchanges
(`Transport.recorded`), which changes nothing else. `Accords` is what a result says about the
exchanges, and `exchanges_accord` says it of every request, of every step of a stream, and of each
among any number of steps, failed ones included.
-/

namespace LinkQuery

/-! ### Plans -/

/-- What is decided before a database is asked: the result, or a statement and what becomes of its
answer. -/
inductive Plan (α : Type) where
  | settled (result : α)
  | ask (statement : Sql.Statement) (finish : Except TransportError (List Row) → α)

namespace Plan

variable {α β : Type} {m : Type → Type}

/-- Carries out a plan. -/
def run [Monad m] (transport : Transport m) : Plan α → m α
  | settled result => pure result
  | ask statement finish => finish <$> transport statement

/-- A plan with something else made of its result. -/
def map (f : α → β) : Plan α → Plan β
  | settled result => settled (f result)
  | ask statement finish => ask statement (f ∘ finish)

/-- The statement that a plan hands over. -/
def statement? : Plan α → Option Sql.Statement
  | settled _ => none
  | ask statement _ => some statement

/-- What is done with the result of a plan does not change its exchanges. -/
theorem run_map [Monad m] [LawfulMonad m] (transport : Transport m) (f : α → β) (plan : Plan α) :
    (plan.map f).run transport = f <$> plan.run transport := by
  cases plan with
  | settled result => exact (map_pure f result).symm
  | ask statement finish => exact comp_map finish f (transport statement)

@[simp] theorem statement?_map (f : α → β) (plan : Plan α) :
    (plan.map f).statement? = plan.statement? := by
  cases plan <;> rfl

end Plan

/-! ### The plans of requests -/

/-- The plan to fetch the page of a window. -/
def Query.fetchPlan (q : Query) (w : Window) : Plan (Except Error Page) :=
  match q.compilePage w with
  | .error e => .settled (.error e)
  | .ok statement => .ask statement fun answer => (answer.mapError .transport).map (q.page w)

/-- The plan to fetch the page that a request asks for. -/
def Query.paginatePlan (q : Query) (request : PageRequest) : Plan (Except Error Page) :=
  match request.target q with
  | .error e => .settled (.error e)
  | .ok (.window query w) => query.fetchPlan w
  | .ok (.beyond query w) => .settled (.ok (query.pageBeyond w))

namespace RecordStream

/-- What a step yields once the page at `offset` has been fetched. A failure leaves the stream where
it is. -/
def afterFetch (s : RecordStream) (offset : Nat) :
    Except Error Page → Except Error (Option Row) × RecordStream
  | .error e => (.error e, s)
  | .ok page => (.ok (s.received offset page).pop.1, (s.received offset page).pop.2)

/-- The plan to take the next row. -/
def nextPlan (s : RecordStream) : Plan (Except Error (Option Row) × RecordStream) :=
  match s.buffer, s.pending with
  | _ :: _, _ => .settled (.ok s.pop.1, s.pop.2)
  | [], none => .settled (.ok none, s)
  | [], some offset => (s.query.fetchPlan (.front offset s.batch)).map (s.afterFetch offset)

end RecordStream

section Carried

variable {m : Type → Type} [Monad m] [LawfulMonad m] (transport : Transport m)

/-- Fetching a window carries out its plan. -/
theorem Query.fetch_eq_run (q : Query) (w : Window) :
    q.fetch transport w = (q.fetchPlan w).run transport := by
  unfold fetch fetchPlan
  cases q.compilePage w with
  | error e => rfl
  | ok statement =>
    -- only the answer is left to be looked at, the same way on both sides
    show (transport statement >>= _) = _ <$> transport statement
    rw [map_eq_pure_bind]
    refine bind_congr fun answer => ?_
    cases answer <;> rfl

/-- So does asking for a page. -/
theorem Query.paginate_eq_run (q : Query) (request : PageRequest) :
    q.paginate transport request = (q.paginatePlan request).run transport := by
  unfold paginate paginatePlan
  cases request.target q with
  | error e => rfl
  | ok target =>
    cases target with
    | window query w => exact query.fetch_eq_run transport w
    | beyond query w => rfl

/-- So does taking the next row. -/
theorem RecordStream.next_eq_run (s : RecordStream) :
    s.next transport = s.nextPlan.run transport := by
  unfold next nextPlan
  cases s.buffer with
  | cons row buffer => rfl
  | nil =>
    cases s.pending with
    | none => rfl
    | some offset =>
      show (s.query.fetch transport _ >>= _) = ((s.query.fetchPlan _).map _).run transport
      rw [Plan.run_map, ← s.query.fetch_eq_run transport, map_eq_pure_bind]
      refine bind_congr fun result => ?_
      cases result <;> rfl

end Carried

/-! ### Going round again -/

/-- A page that has come holds a row, or nothing lies behind it. So a step that goes round again
once its page has come asks nothing further. -/
theorem RecordStream.next_received {m : Type → Type} [Monad m] (transport : Transport m)
    (s : RecordStream) {offset : Nat} {statement : Sql.Statement}
    (hcompile : s.query.compilePage (.front offset s.batch) = .ok statement) (rows : List Row) :
    let s' := s.received offset (s.query.page (.front offset s.batch) rows)
    s'.next transport = pure (.ok s'.pop.1, s'.pop.2) := by
  intro s'
  unfold next
  cases hbuffer : s'.buffer with
  | cons row buffer => rfl
  | nil =>
    -- a window has room for one row at least, so no row has come
    obtain ⟨select, hbuild, -⟩ := map_eq_ok_iff.1 hcompile
    have hbatch : 0 < s.batch := (Window.check_eq_ok_iff.1 (Query.check_of_buildPage hbuild)).1.1
    have hmore := more_of_records_nil s.query offset hbatch hbuffer
    have hpending : s'.pending = none := by
      show (if (s.query.page (.front offset s.batch) rows).more then _ else none) = none
      rw [hmore]
      rfl
    rw [hpending, pop_of_buffer_nil hbuffer]

/-- **A step is a loop**: it hands out a row of the buffer, or it fetches the next page and goes
round again. -/
theorem RecordStream.next_eq_loop {m : Type → Type} [Monad m] [LawfulMonad m]
    (transport : Transport m) (s : RecordStream) :
    s.next transport =
      match s.buffer, s.pending with
      | row :: buffer, _ => pure (.ok (some row), { s with buffer := buffer })
      | [], none => pure (.ok none, s)
      | [], some offset => s.query.fetch transport (.front offset s.batch) >>= fun
        | .error e => pure (.error e, s)
        | .ok page => (s.received offset page).next transport := by
  cases hbuffer : s.buffer with
  | cons row buffer =>
    unfold next
    rw [hbuffer]
    -- a row of the buffer is handed out without a look at what is pending
    simp only [pop, hbuffer, List.head?_cons, List.tail_cons]
  | nil =>
    cases hpending : s.pending with
    | none =>
      unfold next
      rw [hbuffer, hpending]
    | some offset =>
      -- only the left side is opened: the step on the right comes after the page
      conv_lhs => unfold next
      rw [hbuffer, hpending]
      dsimp only
      unfold Query.fetch
      cases hcompile : s.query.compilePage (.front offset s.batch) with
      | error e => simp only [pure_bind]
      | ok statement =>
        simp only [bind_assoc]
        refine bind_congr fun answer => ?_
        cases answer with
        | error e => simp only [pure_bind]
        | ok rows =>
          simp only [pure_bind]
          exact (s.next_received transport hcompile rows).symm

/-! ### The record of exchanges -/

/-- A statement that was handed over to a database, and what came back. -/
structure Exchange where
  statement : Sql.Statement
  answer : Except TransportError (List Row)

/-- A database behind a record of what is handed over to it. -/
def Transport.recorded {σ : Type} (transport : Transport (StateM σ)) :
    Transport (StateM (σ × List Exchange)) := fun statement (s, record) =>
  let (answer, s') := (transport statement).run s
  (answer, s', record ++ [⟨statement, answer⟩])

/-- What a result says about the exchanges that were made for it. -/
structure Accords {β : Type} (result : Except Error β) (exchanges : List Exchange) : Prop where
  /-- One statement is enough. -/
  length_le : exchanges.length ≤ 1
  /-- A failure that is not the database's costs no statement. -/
  nil_of_compileError : ∀ e, result = .error e → e.isCompileError → exchanges = []
  /-- If the database fails, that is the failure, and nothing else was handed over. -/
  error_of_failed : ∀ x ∈ exchanges, ∀ e, x.answer = .error e →
    result = .error (.transport e) ∧ exchanges = [x]
  /-- A failure of the database is one that it answered with. -/
  failed_of_error : ∀ e, result = .error (.transport e) →
    ∃ statement, exchanges = [⟨statement, .error e⟩]

namespace Plan

variable {α β γ δ : Type} {σ : Type}

/-- What a plan hands over to a database in state `s`. -/
def exchanges (transport : Transport (StateM σ)) (s : σ) : Plan α → List Exchange
  | settled _ => []
  | ask statement _ => [⟨statement, ((transport statement).run s).1⟩]

/-- The record grows by what is handed over, and is all that is different. -/
theorem run_recorded (transport : Transport (StateM σ)) (s : σ) (record : List Exchange)
    (plan : Plan α) :
    (plan.run transport.recorded).run (s, record) =
      (((plan.run transport).run s).1, ((plan.run transport).run s).2,
        record ++ plan.exchanges transport s) := by
  cases plan with
  | settled result =>
    show (result, s, record) = (result, s, record ++ [])
    rw [List.append_nil]
  | ask statement finish => rfl

/-- The statements sent in a run are the one that the plan asks, if it asks any. -/
theorem map_statement_exchanges (transport : Transport (StateM σ)) (s : σ) (plan : Plan α) :
    (plan.exchanges transport s).map Exchange.statement = plan.statement?.toList := by
  cases plan <;> rfl

/-- A plan that finds every fault before it asks: what is settled is no failure of the database, and
once it has asked, the failure of the database is the only one. -/
def IsCandid (outcome : α → Except Error β) : Plan α → Prop
  | settled result => ∀ e, outcome result ≠ .error (.transport e)
  | ask _ finish =>
    (∀ e, outcome (finish (.error e)) = .error (.transport e)) ∧
      ∀ rows e, outcome (finish (.ok rows)) ≠ .error e

/-- What is made of a result may be anything, as long as failures stay what they are. -/
theorem IsCandid.map {outcome : α → Except Error β} {outcome' : γ → Except Error δ} {f : α → γ}
    (hf : ∀ a e, outcome' (f a) = .error e ↔ outcome a = .error e) {plan : Plan α}
    (h : plan.IsCandid outcome) : (plan.map f).IsCandid outcome' := by
  cases plan with
  | settled result =>
    intro e he
    exact h e ((hf result _).1 he)
  | ask statement finish =>
    obtain ⟨hfailed, hanswered⟩ := h
    refine ⟨fun e => ?_, fun rows e he => ?_⟩
    · exact (hf _ _).2 (hfailed e)
    · exact hanswered rows e ((hf _ _).1 he)

/-- **The result of a candid plan accords with what was handed over**, whatever the database does.
-/
theorem IsCandid.accords {outcome : α → Except Error β} {plan : Plan α} (h : plan.IsCandid outcome)
    (transport : Transport (StateM σ)) (s : σ) :
    Accords (outcome ((plan.run transport).run s).1) (plan.exchanges transport s) := by
  cases plan with
  | settled result =>
    show Accords (outcome result) []
    exact ⟨Nat.zero_le 1, fun _ _ _ => rfl, nofun, fun e he => absurd he (h e)⟩
  | ask statement finish =>
    obtain ⟨hfailed, hanswered⟩ := h
    show Accords (outcome (finish ((transport statement).run s).1))
      [⟨statement, ((transport statement).run s).1⟩]
    cases ((transport statement).run s).1 with
    | error lost =>
      -- the one exchange failed, and the result is that failure
      rw [hfailed lost]
      refine ⟨Nat.le_refl 1, fun e he hcompile => ?_, fun x hx e he => ?_, fun e he => ?_⟩
      · obtain rfl := Except.error.inj he
        exact absurd hcompile Bool.false_ne_true
      · obtain rfl := List.mem_singleton.1 hx
        obtain rfl := Except.error.inj he
        exact ⟨rfl, rfl⟩
      · obtain rfl := Error.transport.inj (Except.error.inj he)
        exact ⟨statement, rfl⟩
    | ok rows =>
      -- the one exchange was answered, and nothing fails any more
      refine ⟨Nat.le_refl 1, fun e he => absurd he (hanswered rows e), fun x hx e he => ?_,
        fun e he => absurd he (hanswered rows _)⟩
      obtain rfl := List.mem_singleton.1 hx
      exact absurd he nofun

/-- Whatever the database answers, the result is of this kind. -/
def Yields (P : α → Prop) : Plan α → Prop
  | settled result => P result
  | ask _ finish => ∀ answer, P (finish answer)

theorem yields_of_forall {P : α → Prop} (h : ∀ result, P result) (plan : Plan α) :
    plan.Yields P := by
  cases plan with
  | settled result => exact h result
  | ask statement finish => exact fun answer => h (finish answer)

theorem Yields.map {P : γ → Prop} {f : α → γ} {plan : Plan α} (h : plan.Yields (P ∘ f)) :
    (plan.map f).Yields P := by
  cases plan with
  | settled result => exact h
  | ask statement finish => exact h

/-- What holds of all results of a plan holds of the result of a run. -/
theorem Yields.run {P : α → Prop} {plan : Plan α} (h : plan.Yields P)
    (transport : Transport (StateM σ)) (s : σ) : P ((plan.run transport).run s).1 := by
  cases plan with
  | settled result => exact h
  | ask statement finish => exact h ((transport statement).run s).1

end Plan

/-! ### Faults are found first -/

/-- A fault of a query is no failure of the database. -/
theorem Error.isCompileError_of_isQueryFault {e : Error} (h : e.isQueryFault) :
    e.isCompileError := by
  cases e <;> first | rfl | exact absurd h Bool.false_ne_true

/-- What goes wrong while a page is compiled is a fault of the query or its window. -/
theorem Query.isCompileError_of_compilePage {q : Query} {w : Window} {e : Error}
    (h : q.compilePage w = .error e) : e.isCompileError := by
  rcases compilePage_eq_error h with ⟨fault, -, rfl⟩ | hfault
  · rfl
  · exact Error.isCompileError_of_isQueryFault hfault

/-- A token that is not accepted is a fault of the cursor. -/
theorem Cursor.exists_of_decode_eq_error {token : String} {e : Error}
    (h : decode token = .error e) :
    ∃ fault, e = .invalidCursor fault := by
  unfold decode at h
  split at h
  · exact ⟨_, (Except.error.inj h).symm⟩
  · split at h
    · exact ⟨_, (Except.error.inj h).symm⟩
    · split at h
      · exact ⟨_, (Except.error.inj h).symm⟩
      · exact absurd h nofun

/-- So is what goes wrong while a cursor is restored. -/
theorem Query.isCompileError_of_restore {q : Query} {token : String} {e : Error}
    (h : q.restore token = .error e) : e.isCompileError := by
  rcases bind_eq_error_iff.1 h with hdecode | ⟨cursor, -, h⟩
  · obtain ⟨fault, rfl⟩ := Cursor.exists_of_decode_eq_error hdecode
    rfl
  · split at h
    · obtain rfl := Except.error.inj h
      rfl
    · -- past the table only the filter can be at fault
      rcases bind_eq_error_iff.1 h with hfilter | ⟨filter, -, h⟩
      · exact Error.isCompileError_of_isQueryFault (Filter.ofJson_blames cursor.filter e hfilter)
      · exact absurd h nofun

/-- So is what goes wrong while the target of a request is found. -/
theorem PageRequest.isCompileError_of_target {q : Query} {request : PageRequest} {e : Error}
    (h : request.target q = .error e) : e.isCompileError := by
  cases request with
  | offset size skipped =>
    rw [target] at h
    split at h
    · obtain rfl := Except.error.inj h
      rfl
    · exact absurd h nofun
  | lastOf size => exact absurd h nofun
  | relative step token size =>
    rcases bind_eq_error_iff.1 h with hrestore | ⟨restored, -, h⟩
    · exact Query.isCompileError_of_restore hrestore
    · exact absurd h nofun

/-! ### Plans are candid -/

theorem Query.isCandid_fetchPlan (q : Query) (w : Window) : (q.fetchPlan w).IsCandid id := by
  unfold fetchPlan
  cases hcompile : q.compilePage w with
  | error e =>
    intro lost he
    obtain rfl := Except.error.inj he
    exact absurd (isCompileError_of_compilePage hcompile) Bool.false_ne_true
  | ok statement => exact ⟨fun e => rfl, fun rows e => nofun⟩

theorem Query.isCandid_paginatePlan (q : Query) (request : PageRequest) :
    (q.paginatePlan request).IsCandid id := by
  unfold paginatePlan
  cases htarget : request.target q with
  | error e =>
    intro lost he
    obtain rfl := Except.error.inj he
    exact absurd (PageRequest.isCompileError_of_target htarget) Bool.false_ne_true
  | ok target =>
    cases target with
    | window query w => exact query.isCandid_fetchPlan w
    | beyond query w => exact fun lost => nofun

theorem RecordStream.isCandid_nextPlan (s : RecordStream) : s.nextPlan.IsCandid Prod.fst := by
  unfold nextPlan
  cases s.buffer with
  | cons row buffer => exact fun lost => nofun
  | nil =>
    cases s.pending with
    | none => exact fun lost => nofun
    | some offset =>
      have hfetch := s.query.isCandid_fetchPlan (.front offset s.batch)
      refine hfetch.map fun result e => ?_
      cases result with
      | error e' =>
        show (Except.error e' : Except Error (Option Row)) = .error e ↔
          (Except.error e' : Except Error Page) = .error e
        rw [Except.error.injEq, Except.error.injEq]
      | ok page => exact ⟨nofun, nofun⟩

/-! ### Requests -/

/-- The request leads beyond an end of the rows, from a window of `query` at that end. -/
inductive PageRequest.LeadsBeyond (q : Query) (query : Query) (w : Window) : PageRequest → Prop
  | behindLast {token : String} {size : Option Nat} (hrestore : q.restore token = .ok (query, w))
    (hanchor : w.anchor = .back) (hoffset : w.offset = 0) :
    LeadsBeyond q query w (.relative .next token size)
  | beforeFirst {token : String} {size : Option Nat} (hrestore : q.restore token = .ok (query, w))
    (hanchor : w.anchor = .front) (hoffset : w.offset = 0) :
    LeadsBeyond q query w (.relative .previous token size)

/-- A step leads beyond the rows exactly when it finds no window. -/
theorem PageStep.target_eq_beyond_iff {step : PageStep} {q query : Query} {w v : Window}
    {size : Nat} :
    step.target q w size = .beyond query v ↔
      (q = query ∧ w = v) ∧
        ((step = .next ∧ w.after size = none) ∨ (step = .previous ∧ w.before size = none)) := by
  cases step with
  | next => cases h : w.after size <;> simp [target, h]
  | previous => cases h : w.before size <;> simp [target, h]
  | first | last => simp [target]

/-- A request leads beyond the rows by such a step. -/
theorem PageRequest.target_eq_beyond_iff {request : PageRequest} {q query : Query} {w : Window} :
    request.target q = .ok (.beyond query w) ↔ request.LeadsBeyond q query w := by
  constructor
  · intro h
    cases request with
    | offset size skipped =>
      rw [target] at h
      split at h
      · exact absurd h nofun
      · exact absurd (Except.ok.inj h) nofun
    | lastOf size => exact absurd (Except.ok.inj h) nofun
    | relative step token size =>
      obtain ⟨⟨restored, v⟩, hrestore, h⟩ := bind_eq_ok_iff.1 h
      obtain ⟨⟨rfl, rfl⟩, hstep⟩ := PageStep.target_eq_beyond_iff.1 (Except.ok.inj h)
      rcases hstep with ⟨rfl, hafter⟩ | ⟨rfl, hbefore⟩
      · obtain ⟨hanchor, hoffset⟩ := Window.after_eq_none_iff.1 hafter
        exact .behindLast hrestore hanchor hoffset
      · obtain ⟨hanchor, hoffset⟩ := Window.before_eq_none_iff.1 hbefore
        exact .beforeFirst hrestore hanchor hoffset
  · intro h
    -- either way the token is accepted, and there is no window on the side asked for
    cases h with
    | behindLast hrestore hanchor hoffset =>
      refine bind_eq_ok_iff.2 ⟨_, hrestore, congrArg Except.ok ?_⟩
      exact PageStep.target_eq_beyond_iff.2
        ⟨⟨rfl, rfl⟩, .inl ⟨rfl, Window.after_eq_none_iff.2 ⟨hanchor, hoffset⟩⟩⟩
    | beforeFirst hrestore hanchor hoffset =>
      refine bind_eq_ok_iff.2 ⟨_, hrestore, congrArg Except.ok ?_⟩
      exact PageStep.target_eq_beyond_iff.2
        ⟨⟨rfl, rfl⟩, .inr ⟨rfl, Window.before_eq_none_iff.2 ⟨hanchor, hoffset⟩⟩⟩

/-- Fetching a page asks its statement, if that compiles. -/
theorem Query.fetchPlan_statement? (q : Query) (w : Window) :
    (q.fetchPlan w).statement? = (q.compilePage w).toOption := by
  unfold fetchPlan
  cases q.compilePage w <;> rfl

/-- What is handed over for a request is the statement of the window that it means. -/
theorem Query.paginatePlan_statement?_eq_some_iff {q : Query} {request : PageRequest}
    {statement : Sql.Statement} :
    (q.paginatePlan request).statement? = some statement ↔
      ∃ query w, request.target q = .ok (.window query w) ∧
        query.compilePage w = .ok statement := by
  unfold paginatePlan
  cases request.target q with
  | error e => exact ⟨nofun, nofun⟩
  | ok target =>
    cases target with
    | window query w =>
      show (query.fetchPlan w).statement? = some statement ↔ _
      rw [fetchPlan_statement?, toOption_eq_some_iff]
      constructor
      · intro h
        exact ⟨query, w, rfl, h⟩
      · rintro ⟨query', w', htarget, h⟩
        obtain ⟨rfl, rfl⟩ := PageTarget.window.inj (Except.ok.inj htarget)
        exact h
    | beyond query w =>
      refine ⟨nofun, ?_⟩
      rintro ⟨query', w', htarget, -⟩
      exact absurd (Except.ok.inj htarget) nofun

/-- The plan for a request that leads beyond an end is settled, and there is no other way to a page
that is settled beforehand. -/
theorem Query.paginatePlan_eq_settled_iff {q : Query} {request : PageRequest} {page : Page} :
    q.paginatePlan request = .settled (.ok page) ↔
      ∃ query w, request.LeadsBeyond q query w ∧ page = query.pageBeyond w := by
  constructor
  · intro h
    unfold paginatePlan at h
    cases htarget : request.target q with
    | error e =>
      rw [htarget] at h
      exact absurd (Plan.settled.inj h) nofun
    | ok target =>
      rw [htarget] at h
      cases target with
      | beyond query w =>
        obtain rfl := Except.ok.inj (Plan.settled.inj h)
        exact ⟨query, w, PageRequest.target_eq_beyond_iff.1 htarget, rfl⟩
      | window query w =>
        -- a window is fetched with a statement, or there is no page
        dsimp only at h
        unfold fetchPlan at h
        cases hcompile : query.compilePage w with
        | error e =>
          rw [hcompile] at h
          exact absurd (Plan.settled.inj h) nofun
        | ok statement =>
          rw [hcompile] at h
          exact absurd h nofun
  · rintro ⟨query, w, hbeyond, rfl⟩
    unfold paginatePlan
    rw [PageRequest.target_eq_beyond_iff.2 hbeyond]

/-! ### Steps -/

/-- A stream asks only when its buffer is empty and a page is pending. -/
theorem RecordStream.mem_nextPlan_statement? {stream : RecordStream} {statement : Sql.Statement}
    (h : stream.nextPlan.statement? = some statement) :
    stream.buffer = [] ∧ ∃ offset, stream.pending = some offset ∧
      stream.query.compilePage (.front offset stream.batch) = .ok statement := by
  unfold nextPlan at h
  cases hbuffer : stream.buffer with
  | cons row buffer =>
    rw [hbuffer] at h
    exact absurd h nofun
  | nil =>
    cases hpending : stream.pending with
    | none =>
      rw [hbuffer, hpending] at h
      exact absurd h nofun
    | some offset =>
      rw [hbuffer, hpending] at h
      dsimp only at h
      rw [Plan.statement?_map, Query.fetchPlan_statement?] at h
      exact ⟨rfl, offset, rfl, toOption_eq_some_iff.1 h⟩

/-- A step that fails leaves the stream as it was. -/
theorem RecordStream.nextPlan_yields (stream : RecordStream) :
    stream.nextPlan.Yields fun (item, stream') => ∀ e, item = .error e → stream' = stream := by
  unfold nextPlan
  cases stream.buffer with
  | cons row buffer => exact fun e => nofun
  | nil =>
    cases stream.pending with
    | none => exact fun e => nofun
    | some offset =>
      refine .map (Plan.yields_of_forall (fun result => ?_) _)
      cases result with
      | error e => exact fun _ _ => rfl
      | ok page => exact fun e => nofun

/-! ### Results and exchanges -/

/-- What holds of a request and of the exchanges that were made for it. -/
structure PageRequest.Costs (q : Query) (request : PageRequest) (result : Except Error Page)
    (exchanges : List Exchange) : Prop extends Accords result exchanges where
  /-- What is handed over is the statement of the window that the request means. -/
  meant : ∀ x ∈ exchanges, ∃ query w,
    request.target q = .ok (.window query w) ∧ query.compilePage w = .ok x.statement
  /-- A page beyond an end costs nothing, and it is the only page that does. -/
  free : ∀ page, (result = .ok page ∧ exchanges = []) ↔
    ∃ query w, request.LeadsBeyond q query w ∧ page = query.pageBeyond w

/-- What holds of a step of a stream and of the exchanges that were made for it. -/
structure RecordStream.Costs (stream : RecordStream) (item : Except Error (Option Row))
    (stream' : RecordStream) (exchanges : List Exchange) : Prop extends Accords item exchanges where
  /-- What is handed over is the statement of the next page, and only once the buffer is empty. -/
  meant : ∀ x ∈ exchanges, stream.buffer = [] ∧ ∃ offset, stream.pending = some offset ∧
    stream.query.compilePage (.front offset stream.batch) = .ok x.statement
  /-- A step that fails leaves the stream where it is. -/
  kept : ∀ e, item = .error e → stream' = stream

section Recorded

variable {α : Type} {σ : Type} (transport : Transport (StateM σ)) (s : σ) (record : List Exchange)

/-- Carrying out a plan with a record and without. -/
theorem Plan.exists_run_recorded (plan : Plan α) :
    ∃ result s', (plan.run transport).run s = (result, s') ∧
      (plan.run transport.recorded).run (s, record) =
        (result, s', record ++ plan.exchanges transport s) :=
  ⟨_, _, rfl, plan.run_recorded transport s record⟩

theorem Plan.statement?_of_mem_exchanges {plan : Plan α} {x : Exchange}
    (hx : x ∈ plan.exchanges transport s) : plan.statement? = some x.statement := by
  have hmem : x.statement ∈ plan.statement?.toList := by
    rw [← plan.map_statement_exchanges transport s]
    exact List.mem_map_of_mem hx
  exact Option.mem_toList.1 hmem

/-- Carrying out a request, behind a record and without. -/
theorem Query.paginate_recorded (q : Query) (request : PageRequest) :
    ∃ result s' exchanges,
      (q.paginate transport request).run s = (result, s') ∧
      (q.paginate transport.recorded request).run (s, record) = (result, s', record ++ exchanges) ∧
      request.Costs q result exchanges := by
  obtain ⟨result, s', hrun, hrecorded⟩ :=
    (q.paginatePlan request).exists_run_recorded transport s record
  have haccords := (q.isCandid_paginatePlan request).accords transport s
  rw [hrun] at haccords
  refine ⟨result, s', _, ?_, ?_, haccords, fun x hx => ?_, fun page => ?_⟩
  · rw [paginate_eq_run, hrun]
  · rw [paginate_eq_run, hrecorded]
  · exact paginatePlan_statement?_eq_some_iff.1 (Plan.statement?_of_mem_exchanges transport s hx)
  · rw [← paginatePlan_eq_settled_iff]
    -- without an exchange the plan has been settled, and then its result is that of the run
    cases hplan : q.paginatePlan request with
    | settled settledResult =>
      rw [hplan] at hrun
      obtain rfl : settledResult = result := (Prod.mk.inj hrun).1
      exact ⟨fun h => congrArg Plan.settled h.1, fun h => ⟨Plan.settled.inj h, rfl⟩⟩
    | ask statement finish => exact ⟨fun h => absurd h.2 nofun, nofun⟩

/-- Taking a step, behind a record and without. -/
theorem RecordStream.next_recorded (stream : RecordStream) :
    ∃ item stream' s' exchanges,
      (stream.next transport).run s = ((item, stream'), s') ∧
      (stream.next transport.recorded).run (s, record) =
        ((item, stream'), s', record ++ exchanges) ∧
      stream.Costs item stream' exchanges := by
  obtain ⟨⟨item, stream'⟩, s', hrun, hrecorded⟩ :=
    stream.nextPlan.exists_run_recorded transport s record
  have haccords := stream.isCandid_nextPlan.accords transport s
  have hkept := stream.nextPlan_yields.run transport s
  rw [hrun] at haccords hkept
  refine ⟨item, stream', s', _, ?_, ?_, haccords, fun x hx => ?_, hkept⟩
  · rw [next_eq_run, hrun]
  · rw [next_eq_run, hrecorded]
  · exact mem_nextPlan_statement? (Plan.statement?_of_mem_exchanges transport s hx)

/-- Taking any number of steps, behind a record and without. -/
theorem RecordStream.pull_recorded (count : Nat) (stream : RecordStream) :
    ∃ items stream' s' exchanges,
      (stream.pull transport count).run s = ((items, stream'), s') ∧
      (stream.pull transport.recorded count).run (s, record) =
        ((items, stream'), s', record ++ exchanges.flatten) ∧
      List.Forall₂ Accords items exchanges := by
  induction count generalizing stream s record with
  | zero =>
    refine ⟨[], stream, s, [], rfl, ?_, .nil⟩
    rw [List.flatten_nil, List.append_nil]
    rfl
  | succ count ih =>
    obtain ⟨item, stream₁, s₁, made, hnext, hnext', hcosts⟩ :=
      stream.next_recorded transport s record
    -- the rest starts from the record that the first step leaves
    obtain ⟨items, stream₂, s₂, exchanges, hrest, hrest', hall⟩ := ih s₁ (record ++ made) stream₁
    refine ⟨item :: items, stream₂, s₂, made :: exchanges, ?_, ?_, .cons hcosts.toAccords hall⟩
    · rw [pull, StateT.run_bind, hnext]
      show ((stream₁.pull transport count >>= _).run s₁) = _
      rw [StateT.run_bind, hrest]
      rfl
    · rw [pull, StateT.run_bind, hnext']
      show ((stream₁.pull transport.recorded count >>= _).run (s₁, record ++ made)) = _
      rw [StateT.run_bind, hrest', List.flatten_cons, List.append_assoc]
      rfl

end Recorded

/-- **A request that is at fault costs nothing, and any other one statement at most.** For every
database and whatever has been handed over before, a request for a page adds at most one exchange to
the record: none if it fails by a fault of its own or leads beyond an end, and just the one that
failed if it fails by a failure of the database. The same is true of every step of a stream, and of
each one among any number of steps. -/
theorem exchanges_accord {σ : Type} (transport : Transport (StateM σ)) (s : σ)
    (record : List Exchange) :
    (∀ (q : Query) (request : PageRequest), ∃ result s' exchanges,
      (q.paginate transport request).run s = (result, s') ∧
      (q.paginate transport.recorded request).run (s, record) = (result, s', record ++ exchanges) ∧
      request.Costs q result exchanges) ∧
    (∀ stream : RecordStream, ∃ item stream' s' exchanges,
      (stream.next transport).run s = ((item, stream'), s') ∧
      (stream.next transport.recorded).run (s, record) =
        ((item, stream'), s', record ++ exchanges) ∧
      stream.Costs item stream' exchanges) ∧
    (∀ (count : Nat) (stream : RecordStream), ∃ items stream' s' exchanges,
      (stream.pull transport count).run s = ((items, stream'), s') ∧
      (stream.pull transport.recorded count).run (s, record) =
        ((items, stream'), s', record ++ exchanges.flatten) ∧
      List.Forall₂ Accords items exchanges) := by
  refine ⟨fun q request => ?_, fun stream => ?_, fun count stream => ?_⟩
  · exact q.paginate_recorded transport s record request
  · exact stream.next_recorded transport s record
  · exact RecordStream.pull_recorded transport s record count stream

/-- A negation of nothing is a fault of the query: nothing is handed over for it. -/
example :
    ((Query.new ⟨[Table.named "t"]⟩ "t").addCombined .notAll []
      |>.paginatePlan .default).statement? = none := by
  decide +kernel

end LinkQuery
