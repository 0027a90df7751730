import LinkQuery.Proofs.Page.Exchange
import LinkQuery.Proofs.Page.Pageable
import LinkQuery.Proofs.Page.Resume

/-!
# Requests that are refused

A request names a size, or takes over that of its cursor, and it names a query, its own or the one
in the cursor. A page has between one and `maxPageSize` rows and every page has a statement, so a
request for another size, or for the pages of a query that has none, ought to be refused.

Size and query are looked at where the statement of a window is made. On the way there two things
may become of a size. A step towards the end at which the window of the cursor is anchored is cut
short at that end, and then the size that is looked at is the number of rows left. And if none is
left, there is no window at all, and the page beyond the end is handed out with nothing looked at.

* `PageRequest.asked` are the query and the size that a request stands for.
* `Query.HasPages` is said of queries that have statements for their windows (`Query.hasPages_iff`).
* `PageRequest.IsRefused` is a failure that costs no exchange with the database, whatever the
  database is, and `PageRequest.isRefused_iff_target` tells it from the window that a request means.
* `PageRequest.bad_refused_iff` tells which of the bad requests are refused, and what becomes of the
  others.
-/

namespace LinkQuery

/-- The query that a request stands for, and the number of rows that it asks for. -/
def PageRequest.asked (q : Query) : PageRequest → Except Error (Query × Nat)
  | .offset size _ => .ok (q, size)
  | .lastOf size => .ok (q, size)
  | .relative _ token size => do
    let (restored, w) ← q.restore token
    .ok (restored, size.getD w.size)

/-! ### Queries with pages -/

namespace Query

variable {q : Query} {w : Window}

/-- Some window of the query has a statement. -/
def HasPages (q : Query) : Prop := ∃ w statement, q.compilePage w = .ok statement

/-- Then every window in range has one. -/
theorem exists_compilePage_iff_hasPages :
    (∃ statement, q.compilePage w = .ok statement) ↔ w.check = .ok () ∧ q.HasPages := by
  constructor
  · rintro ⟨statement, hcompile⟩
    exact ⟨(exists_compilePage_iff_buildOrdered.1 ⟨statement, hcompile⟩).1, w, statement, hcompile⟩
  · rintro ⟨hw, w', hcompile⟩
    exact exists_compilePage_iff_buildOrdered.2
      ⟨hw, (exists_compilePage_iff_buildOrdered.1 hcompile).2⟩

/-- **A query has pages** if it has a statement and its primary key can be added to the order. -/
theorem hasPages_iff :
    q.HasPages ↔ (∃ statement, q.compile = .ok statement) ∧
      ∀ table selection r, q.Resolves table selection r →
        (∃ term ∈ q.sort, term.column = table.primaryKey) ∨
          selection.link? table.primaryKey = none ∧
            ∀ sub, (table.primaryKey, sub) ∈ r.links → sub.isTrivial := by
  have hfirst : (Window.front 0 1).check = .ok () := by decide
  calc q.HasPages
      ↔ ∃ statement, q.compilePage (.front 0 1) = .ok statement := by
        rw [exists_compilePage_iff_hasPages, and_iff_right hfirst]
    _ ↔ _ := (exists_compilePage_iff q (.front 0 1)).trans
      (and_iff_right (Window.check_eq_ok_iff.1 hfirst))

theorem not_hasPages_of_compile_error {e : Error} (h : q.compile = .error e) : ¬ q.HasPages := by
  intro hpages
  obtain ⟨⟨statement, hcompile⟩, -⟩ := hasPages_iff.1 hpages
  rw [h] at hcompile
  exact absurd hcompile nofun

end Query

/-! ### Refusal -/

namespace PageRequest

variable {q query : Query} {request : PageRequest} {w v : Window} {size : Nat}

/-- The request fails, and nothing is handed over to the database: whatever the database is and
whatever state it is in, the state and the record of exchanges are left as they are. -/
def IsRefused (q : Query) (request : PageRequest) : Prop :=
  ∃ e, ∀ (σ : Type) (transport : Transport (StateM σ)) (s : σ) (record : List Exchange),
    (q.paginate transport.recorded request).run (s, record) = (.error e, s, record)

/-- That is so if the request is settled with a failure. -/
theorem isRefused_iff_settled :
    request.IsRefused q ↔ ∃ e, q.paginatePlan request = .settled (.error e) := by
  constructor
  · rintro ⟨e, hrefused⟩
    refine ⟨e, ?_⟩
    -- a database that answers everything is enough to tell
    have hrun := hrefused Unit (fun _ => pure (.ok [])) () []
    rw [Query.paginate_eq_run, Plan.run_recorded] at hrun
    cases hplan : q.paginatePlan request with
    | settled result =>
      rw [hplan] at hrun
      exact congrArg Plan.settled (congrArg Prod.fst hrun)
    | ask statement finish =>
      rw [hplan] at hrun
      exact absurd (congrArg (fun outcome => outcome.2.2) hrun) nofun
  · rintro ⟨e, hplan⟩
    refine ⟨e, fun σ transport s record => ?_⟩
    -- a settled plan asks nothing, so no database can matter
    rw [Query.paginate_eq_run, hplan]
    rfl

theorem isRefused_of_target_error {e : Error} (h : request.target q = .error e) :
    request.IsRefused q := by
  rw [isRefused_iff_settled, Query.paginatePlan, h]
  exact ⟨e, rfl⟩

/-- A request that means a window is refused if the window is out of range or has a query without
pages. -/
theorem isRefused_iff_of_window (h : request.target q = .ok (.window query w)) :
    request.IsRefused q ↔ (w.check = .ok () → ¬ query.HasPages) := by
  rw [isRefused_iff_settled, Query.paginatePlan, h, ← not_and,
    ← Query.exists_compilePage_iff_hasPages]
  show (∃ e, query.fetchPlan w = .settled (.error e)) ↔ _
  rw [Query.fetchPlan]
  cases query.compilePage w with
  | error e => exact iff_of_true ⟨e, rfl⟩ nofun
  | ok statement => exact iff_of_false nofun fun hnone => hnone ⟨statement, rfl⟩

/-- A request that leads beyond an end is not refused. -/
theorem not_isRefused_of_beyond (h : request.LeadsBeyond q query w) : ¬ request.IsRefused q := by
  rw [isRefused_iff_settled, Query.paginatePlan, target_eq_beyond_iff.2 h]
  exact nofun

/-! ### Steps that are cut short -/

/-- The request is a step to `v`, towards the end at which the window of its cursor is anchored, and
fewer rows than it asks for are left up to there. -/
inductive IsCutShort (q query : Query) (v : Window) : PageRequest → Prop
  | next {token : String} {size : Option Nat} {w : Window}
      (hrestore : q.restore token = .ok (query, w))
    (hanchor : w.anchor = .back) (hsome : 0 < w.offset) (hfew : w.offset < size.getD w.size)
    (hv : v = .back 0 w.offset) : IsCutShort q query v (.relative .next token size)
  | previous {token : String} {size : Option Nat} {w : Window}
      (hrestore : q.restore token = .ok (query, w))
    (hanchor : w.anchor = .front) (hsome : 0 < w.offset) (hfew : w.offset < size.getD w.size)
    (hv : v = .front 0 w.offset) : IsCutShort q query v (.relative .previous token size)

end PageRequest

/-! The window next to another one has the size that is asked for, unless it is cut short. -/

namespace Window

variable {w v : Window} {size : Nat}

theorem towards_of_lt (hsome : 0 < w.offset) (hfew : w.offset < size) :
    w.towards size = some ⟨w.anchor, 0, w.offset⟩ := by
  rw [towards_eq_some_iff, Nat.sub_eq_zero_of_le hfew.le, Nat.min_eq_right hfew.le]
  exact ⟨hsome.ne', rfl⟩

theorem after_of_lt (hanchor : w.anchor = .back) (hsome : 0 < w.offset) (hfew : w.offset < size) :
    w.after size = some (.back 0 w.offset) := by
  have htowards := towards_of_lt hsome hfew
  rw [hanchor] at htowards
  rw [after, hanchor]
  exact htowards

theorem before_of_lt (hanchor : w.anchor = .front) (hsome : 0 < w.offset) (hfew : w.offset < size) :
    w.before size = some (.front 0 w.offset) := by
  have htowards := towards_of_lt hsome hfew
  rw [hanchor] at htowards
  rw [before, hanchor]
  exact htowards

theorem size_of_towards (h : w.towards size = some v) :
    v.size = size ∨ (0 < w.offset ∧ w.offset < size ∧ v = ⟨w.anchor, 0, w.offset⟩) := by
  rcases Nat.lt_or_ge w.offset size with hfew | henough
  · obtain ⟨hoffset, -⟩ := towards_eq_some_iff.1 h
    have hsome := Nat.pos_of_ne_zero hoffset
    exact .inr ⟨hsome, hfew, Option.some.inj (h.symm.trans (towards_of_lt hsome hfew))⟩
  · obtain ⟨-, rfl⟩ := towards_eq_some_iff.1 h
    exact .inl (Nat.min_eq_left henough)

theorem size_of_after (h : w.after size = some v) :
    v.size = size ∨ (w.anchor = .back ∧ 0 < w.offset ∧ w.offset < size ∧ v = .back 0 w.offset) := by
  unfold after at h
  cases hanchor : w.anchor with
  -- away from the start a window never grows into a border
  | front =>
    rw [hanchor] at h
    obtain rfl := Option.some.inj h
    exact .inl rfl
  | back =>
    rw [hanchor] at h
    rcases size_of_towards h with hsize | ⟨hsome, hfew, hv⟩
    · exact .inl hsize
    · -- towards the start it is cut to the rows that are left
      rw [hanchor] at hv
      exact .inr ⟨rfl, hsome, hfew, hv⟩

theorem size_of_before (h : w.before size = some v) :
    v.size = size ∨ (w.anchor = .front ∧ 0 < w.offset ∧ w.offset < size ∧
      v = .front 0 w.offset) := by
  unfold before at h
  cases hanchor : w.anchor with
  | front =>
    rw [hanchor] at h
    rcases size_of_towards h with hsize | ⟨hsome, hfew, hv⟩
    · exact .inl hsize
    · rw [hanchor] at hv
      exact .inr ⟨rfl, hsome, hfew, hv⟩
  | back =>
    rw [hanchor] at h
    obtain rfl := Option.some.inj h
    exact .inl rfl

end Window

namespace PageRequest

variable {q query : Query} {request : PageRequest} {w v : Window} {size : Nat}

theorem target_of_restore {token : String} (hrestore : q.restore token = .ok (query, w))
    (step : PageStep) (given : Option Nat) : target q (.relative step token given) =
      .ok (step.target query w (given.getD w.size)) :=
  bind_eq_ok_iff.2 ⟨_, hrestore, rfl⟩

theorem IsCutShort.target (h : request.IsCutShort q query v) :
    request.target q = .ok (.window query v) := by
  cases h with
  | next hrestore hanchor hsome hfew hv =>
    rw [target_of_restore hrestore, PageStep.target, Window.after_of_lt hanchor hsome hfew, hv]
  | previous hrestore hanchor hsome hfew hv =>
    rw [target_of_restore hrestore, PageStep.target, Window.before_of_lt hanchor hsome hfew, hv]

/-- **What a request means**, once its query and its size are known: it fails, it leads beyond an
end, or it means a window of the query, which has the size unless it is cut short. -/
theorem target_of_asked (h : request.asked q = .ok (query, size)) :
    (∃ e, request.target q = .error e) ∨ (∃ w, request.LeadsBeyond q query w) ∨
      ∃ v, request.target q = .ok (.window query v) ∧
        (v.size = size ∨ request.IsCutShort q query v) := by
  -- a request names its size itself, or leaves it to the window it starts from
  cases request with
  | offset count skipped =>
    obtain ⟨rfl, rfl⟩ := Prod.mk.inj (Except.ok.inj h)
    rw [target]
    split
    · exact .inl ⟨_, rfl⟩
    · exact .inr (.inr ⟨_, rfl, .inl rfl⟩)
  | lastOf count =>
    obtain ⟨rfl, rfl⟩ := Prod.mk.inj (Except.ok.inj h)
    exact .inr (.inr ⟨_, rfl, .inl rfl⟩)
  | relative step token given =>
    obtain ⟨⟨restored, w⟩, hrestore, h⟩ := bind_eq_ok_iff.1 h
    obtain ⟨rfl, rfl⟩ := Prod.mk.inj (Except.ok.inj h)
    refine .inr ?_
    rw [target_of_restore hrestore]
    cases step with
    | next =>
      cases hafter : w.after (given.getD w.size) with
      | none =>
        -- no window is left behind the last row
        obtain ⟨hanchor, hoffset⟩ := Window.after_eq_none_iff.1 hafter
        exact .inl ⟨w, .behindLast hrestore hanchor hoffset⟩
      | some v =>
        refine .inr ⟨v, by rw [PageStep.target, hafter], ?_⟩
        rcases Window.size_of_after hafter with hsize | ⟨hanchor, hsome, hfew, hv⟩
        · exact .inl hsize
        · exact .inr (.next hrestore hanchor hsome hfew hv)
    | previous =>
      cases hbefore : w.before (given.getD w.size) with
      | none =>
        -- no window is left before the first row
        obtain ⟨hanchor, hoffset⟩ := Window.before_eq_none_iff.1 hbefore
        exact .inl ⟨w, .beforeFirst hrestore hanchor hoffset⟩
      | some v =>
        refine .inr ⟨v, by rw [PageStep.target, hbefore], ?_⟩
        rcases Window.size_of_before hbefore with hsize | ⟨hanchor, hsome, hfew, hv⟩
        · exact .inl hsize
        · exact .inr (.previous hrestore hanchor hsome hfew hv)
    | first | last => exact .inr ⟨_, rfl, .inl rfl⟩

theorem target_error_of_asked {e : Error} (h : request.asked q = .error e) :
    request.target q = .error e := by
  cases request with
  | offset count skipped => exact absurd h nofun
  | lastOf count => exact absurd h nofun
  | relative step token given =>
    rcases bind_eq_error_iff.1 h with hrestore | ⟨restored, -, h⟩
    · exact bind_eq_error_iff.2 (.inl hrestore)
    · exact absurd h nofun

/-- **Which bad requests are refused.** A token that is not accepted always is. A request for a size
out of range, or for the pages of a query that has none, is refused unless it leads beyond an end,
where the page without records is handed out, or is cut short to a window in range of a query with
pages, whose page is fetched. -/
theorem bad_refused_iff (q : Query) (request : PageRequest) :
    (∀ e, request.asked q = .error e → request.IsRefused q) ∧
    ∀ query size, request.asked q = .ok (query, size) →
      (size = 0 ∨ maxPageSize < size ∨ (∃ e, query.compile = .error e) ∨ ¬ query.HasPages) →
      (request.IsRefused q ↔ (∀ w, ¬ request.LeadsBeyond q query w) ∧
        ∀ v, request.IsCutShort q query v → v.check = .ok () → ¬ query.HasPages) ∧
      (∀ w, request.LeadsBeyond q query w → ∀ (m : Type → Type) [Monad m] (transport : Transport m),
        q.paginate transport request = pure (.ok (query.pageBeyond w))) ∧
      ∀ v, request.IsCutShort q query v → ∀ (m : Type → Type) [Monad m] (transport : Transport m),
        q.paginate transport request = query.fetch transport v := by
  refine ⟨fun e hasked => isRefused_of_target_error (target_error_of_asked hasked),
    fun query size hasked hbad => ⟨⟨fun hrefused => ⟨fun w hbeyond => ?_, fun v hcut => ?_⟩, ?_⟩,
      ?_, ?_⟩⟩
  · exact not_isRefused_of_beyond hbeyond hrefused
  · exact (isRefused_iff_of_window hcut.target).1 hrefused
  · rintro ⟨hbeyond, hcut⟩
    rcases target_of_asked hasked with ⟨e, he⟩ | ⟨w, hw⟩ | ⟨v, htarget, hv⟩
    · exact isRefused_of_target_error he
    · exact absurd hw (hbeyond w)
    · rw [isRefused_iff_of_window htarget]
      rcases hv with rfl | hv
      · -- the window has the size that was asked for
        intro hcheck hpages
        obtain ⟨⟨hsome, hlarge⟩, -⟩ := Window.check_eq_ok_iff.1 hcheck
        rcases hbad with hnone | hmany | ⟨e, he⟩ | hnot
        · exact hsome.ne' hnone
        · exact Nat.not_lt.2 hlarge hmany
        · exact Query.not_hasPages_of_compile_error he hpages
        · exact hnot hpages
      · exact hcut v hv
  · intro w hbeyond m _ transport
    rw [Query.paginate, target_eq_beyond_iff.2 hbeyond]
  · intro v hcut m _ transport
    rw [Query.paginate, hcut.target]

end PageRequest

/-! ### Requests through a cursor -/

/-- The cursor of a query without a filter holds the query itself. -/
theorem Query.restore_of_layers_nil {q r : Query} {w : Window} (hlayers : q.layers = [])
    (hw : w.check = .ok ()) (hschema : r.schema = q.schema) (htable : r.table = q.table) :
    r.restore (q.cursor w).encode = .ok (q, w) := by
  have hfilter : q.filterValue = .object [] := by rw [filterValue, hlayers]
  have hproper : q.filterValue.IsProper := by
    rw [hfilter]
    exact ⟨List.nodup_nil, trivial⟩
  -- without layers there is nothing to read back, and the query is restored as it is
  have hresumed : q = q.resumed (.object []) (.group .all []) := by
    obtain ⟨schema, table, layers, sort, columns⟩ := q
    obtain rfl : layers = [] := hlayers
    rfl
  refine (restore_eq_ok_iff hproper hw hschema htable).2
    ⟨?_, .object [], .group .all [], ?_, rfl, hresumed, rfl⟩
  · rw [hfilter]
    decide
  · rw [hfilter]
    rfl

/-- All users. -/
def allUsers : Query := .new Query.profilesOfUsers "users"

/-- No rows, asked for behind the first users. -/
theorem bad_refused_iff_behind_first :
    (PageRequest.relative .next (allUsers.cursor (.front 0 20)).encode (some 0)).IsRefused
      allUsers := by
  have hfirst : allUsers.restore (allUsers.cursor (.front 0 20)).encode =
      .ok (allUsers, .front 0 20) :=
    Query.restore_of_layers_nil rfl rfl rfl rfl
  obtain ⟨-, hbad⟩ := PageRequest.bad_refused_iff allUsers
    (.relative .next (allUsers.cursor (.front 0 20)).encode (some 0))
  obtain ⟨hiff, -, -⟩ := hbad allUsers 0 (bind_eq_ok_iff.2 ⟨_, hfirst, rfl⟩) (.inl rfl)
  -- behind a window at the start there is always another one
  have hfront : ∀ {w : Window}, allUsers.restore (allUsers.cursor (.front 0 20)).encode =
      .ok (allUsers, w) →
      w.anchor ≠ .back := by
    rintro w hw hanchor
    obtain ⟨-, rfl⟩ := Prod.mk.inj (Except.ok.inj (hfirst.symm.trans hw))
    exact absurd hanchor nofun
  refine hiff.2 ⟨fun w hbeyond => ?_, fun v hcut _ => ?_⟩
  · cases hbeyond with
    | behindLast hw hanchor => exact hfront hw hanchor
  · cases hcut with
    | next hw hanchor => exact absurd hanchor (hfront hw)

/-- **Bad requests that are served**: no rows behind the last ones, five thousand rows before the
sixth, and rows of a query that does not compile, before its first ones. -/
theorem bad_requests_served :
    let noneBehind := PageRequest.relative .next (allUsers.cursor (.back 0 20)).encode (some 0)
    let manyBefore := PageRequest.relative .previous (allUsers.cursor (.front 5 20)).encode
      (some 5000)
    let unknown := allUsers.select ["missing"]
    let unknownBefore := PageRequest.relative .previous (unknown.cursor (.front 0 20)).encode none
    (noneBehind.asked allUsers = .ok (allUsers, 0) ∧ ¬ noneBehind.IsRefused allUsers) ∧
    (manyBefore.asked allUsers = .ok (allUsers, 5000) ∧ ¬ manyBefore.IsRefused allUsers) ∧
    (unknownBefore.asked allUsers = .ok (unknown, 20) ∧ (∃ e, unknown.compile = .error e) ∧
      ¬ unknownBefore.IsRefused allUsers) := by
  intro noneBehind manyBefore unknown unknownBefore
  have hlast : allUsers.restore (allUsers.cursor (.back 0 20)).encode =
      .ok (allUsers, .back 0 20) :=
    Query.restore_of_layers_nil rfl rfl rfl rfl
  have hsixth : allUsers.restore (allUsers.cursor (.front 5 20)).encode =
      .ok (allUsers, .front 5 20) :=
    Query.restore_of_layers_nil rfl rfl rfl rfl
  have hunknown : allUsers.restore (unknown.cursor (.front 0 20)).encode =
      .ok (unknown, .front 0 20) :=
    Query.restore_of_layers_nil rfl rfl rfl rfl
  have hpages : allUsers.compilePage (.front 0 5) =
      .ok ⟨"select \"xata_id\", \"full_name\" from \"users\" order by \"xata_id\" asc limit $1",
        [.int 6]⟩ := by
    decide +kernel
  have hcompile : unknown.compile =
      .error (.unresolved "users" "missing" (.noColumn "missing" "users" none)) := by
    decide +kernel
  -- two steps lead outside and are not refused, the third is cut to a size that is allowed
  refine ⟨⟨?_, PageRequest.not_isRefused_of_beyond (.behindLast hlast rfl rfl)⟩, ⟨?_, ?_⟩, ?_,
    ⟨_, hcompile⟩, PageRequest.not_isRefused_of_beyond (.beforeFirst hunknown rfl rfl)⟩
  · exact bind_eq_ok_iff.2 ⟨_, hlast, rfl⟩
  · exact bind_eq_ok_iff.2 ⟨_, hsixth, rfl⟩
  · -- five users are left
    have hcut : manyBefore.IsCutShort allUsers allUsers (.front 0 5) :=
      .previous hsixth rfl (by decide) (by decide) rfl
    rw [PageRequest.isRefused_iff_of_window hcut.target]
    exact fun hnot => hnot rfl ⟨_, _, hpages⟩
  · exact bind_eq_ok_iff.2 ⟨_, hunknown, rfl⟩

end LinkQuery
