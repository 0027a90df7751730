import LinkQuery.Page.Fetch

/-!
# Record streams

A record stream hands out the rows of a query one after the other and fetches them a page at a time,
as they are needed. If a fetch fails the stream stays where it is, so that the next attempt goes on
without a gap.

* `RecordStream.next` is the next row, or nothing at the end.
* `RecordStream.pull` is a number of such steps.
* `RecordStream.drain` takes all rows that are left, up to the first failure. It ends because the
  offset grows with each page, and no window lies beyond the largest offset.
* `Query.all` are all rows of a query.
-/

namespace LinkQuery

/-- A walk through the rows of a query. -/
structure RecordStream where
  query : Query
  /-- How many rows to fetch at a time. -/
  batch : Nat
  /-- The offset of the next page to fetch, if there is one. -/
  pending : Option Nat
  /-- The rows that have been fetched and not yet handed out. -/
  buffer : List Row
  deriving DecidableEq, Repr

/-- The walk from the first row on. -/
def Query.records (q : Query) (batch : Nat) : RecordStream := ⟨q, batch, some 0, []⟩

namespace RecordStream

variable {m : Type → Type} [Monad m]

/-- The window of the next page to fetch. -/
def position (s : RecordStream) : Option Window := s.pending.map fun offset => .front offset s.batch

/-- The offset of the page after the one at `offset`. -/
def nextOffset (offset batch : Nat) : Nat := Window.saturatingAdd offset batch

/-- The stream after the page at `offset` has been fetched. -/
def received (s : RecordStream) (offset : Nat) (page : Page) : RecordStream :=
  { s with
    pending := if page.more then some (nextOffset offset s.batch) else none
    buffer := page.records }

/-- Hands out the next row of the buffer. -/
def pop (s : RecordStream) : Option Row × RecordStream :=
  (s.buffer.head?, { s with buffer := s.buffer.tail })

/-- The next row, and the stream after it. -/
def next (transport : Transport m) (s : RecordStream) :
    m (Except Error (Option Row) × RecordStream) :=
  match s.buffer, s.pending with
  | _ :: _, _ => pure (.ok s.pop.1, s.pop.2)
  | [], none => pure (.ok none, s)
  | [], some offset => do
    match ← s.query.fetch transport (.front offset s.batch) with
    | .error e => pure (.error e, s)
    | .ok page =>
      let s := s.received offset page
      pure (.ok s.pop.1, s.pop.2)

/-- What `count` steps yield, and the stream after them. -/
def pull (transport : Transport m) :
    Nat → RecordStream → m (List (Except Error (Option Row)) × RecordStream)
  | 0, s => pure ([], s)
  | count + 1, s => do
    let (item, s) ← s.next transport
    let (items, s) ← pull transport count s
    pure (item :: items, s)

/-- The rows from `offset` on, and the failure that ended them, if one did. -/
def drainFrom (transport : Transport m) (q : Query) (batch offset : Nat) :
    m (List Row × Option Error) :=
  match _h : (Window.front offset batch).check with
  | .error fault => pure ([], some (.invalidPage fault))
  | .ok () => do
    match ← q.fetch transport (.front offset batch) with
    | .error e => pure ([], some e)
    | .ok page =>
      if page.more then do
        let (rows, failure) ← drainFrom transport q batch (nextOffset offset batch)
        pure (page.records ++ rows, failure)
      else pure (page.records, none)
  termination_by maxWindowOffset + 1 - offset
  decreasing_by
    have h := Window.check_eq_ok_iff.1 _h
    simp only [Window.front, maxPageSize, maxWindowOffset] at h
    simp only [nextOffset, Window.saturatingAdd, maxWord, maxWindowOffset]
    omega

/-- The rows that are left, and the failure that ended them, if one did. -/
def drain (transport : Transport m) (s : RecordStream) : m (List Row × Option Error) :=
  match s.pending with
  | none => pure (s.buffer, none)
  | some offset => do
    let (rows, failure) ← drainFrom transport s.query s.batch offset
    pure (s.buffer ++ rows, failure)

end RecordStream

/-- All rows of a query, fetched `batch` rows at a time. -/
def Query.all {m : Type → Type} [Monad m] (transport : Transport m) (q : Query) (batch : Nat) :
    m (Except Error (List Row)) := do
  match ← (q.records batch).drain transport with
  | (rows, none) => pure (.ok rows)
  | (_, some e) => pure (.error e)

end LinkQuery
