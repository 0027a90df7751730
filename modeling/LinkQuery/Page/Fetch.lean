import LinkQuery.Page.Cursor
import LinkQuery.Query

/-!
# Pages

A page is what the rows of a window amount to: the records, whether further rows follow, and a
cursor from which the walk through the rows can go on at any later time.

The database is a function that runs a statement, and either answers with rows or fails. It may act
in any monad. All that is decided about a page is decided outside of it, so a request leads to at
most one statement, and to none if it is refused.

* `PageRequest` are the ways to ask for a page, and `PageRequest.target` is the window that a
  request means, of the query at hand or of the query in a cursor.
* `Query.page` is the page that the rows fetched for a window make up.
* `Query.fetch` fetches the page of a window, `Query.paginate` the one of a request.
-/

namespace LinkQuery

open Json (Members)

/-- A row as it comes from the database: columns with their values, linked rows as nested objects.
-/
abbrev Row := Members

/-- A database: it runs a statement, and answers with rows or fails. -/
abbrev Transport (m : Type → Type) := Sql.Statement → m (Except TransportError (List Row))

/-- Where a page lies, seen from another page of the same query. -/
inductive PageStep where
  /-- Right behind it. -/
  | next
  /-- Right before it. -/
  | previous
  | first
  | last
  deriving DecidableEq, Repr

/-- A request for a page. -/
inductive PageRequest where
  /-- `size` rows of the query at hand, after leaving out `skipped` of them. -/
  | offset (size skipped : Nat)
  /-- The last `size` rows of the query at hand. -/
  | lastOf (size : Nat)
  /-- A page seen from the page of a cursor, of the same size unless one is given. -/
  | relative (step : PageStep) (cursor : String) (size : Option Nat)
  deriving DecidableEq, Repr

/-- The request for the first page in the default size. -/
def PageRequest.default : PageRequest := .offset defaultPageSize 0

/-- A page of a query. -/
structure Page where
  records : List Row
  /-- The token of the cursor for this page. -/
  cursor : String
  /-- Whether rows follow. -/
  more : Bool
  query : Query
  window : Window
  deriving DecidableEq, Repr

namespace Query

/-- The cursor for a window of a query. -/
def cursor (q : Query) (w : Window) : Cursor := ⟨q.table, q.filterValue, q.sort, q.columns, w⟩

/-- The records of a window, given the rows that its statement delivered, and whether rows follow.
-/
def recordsOf (w : Window) (rows : List Row) : List Row × Bool :=
  match w.anchor with
  | .front => (rows.take w.size, w.size < rows.length)
  | .back => (rows.reverse, 0 < w.offset)

/-- The page of a window, given the rows that its statement delivered. -/
def page (q : Query) (w : Window) (rows : List Row) : Page :=
  { records := (recordsOf w rows).1
    cursor := (q.cursor w).encode
    more := (recordsOf w rows).2
    query := q
    window := w }

/-- The page without records that lies beyond the end of the rows next to a window. -/
def pageBeyond (q : Query) (w : Window) : Page :=
  { records := [], cursor := (q.cursor w).encode, more := false, query := q, window := w }

/-- The query and window that a cursor token holds. The cursor has to be one for the same table. -/
def restore (q : Query) (token : String) : Except Error (Query × Window) := do
  let cursor ← Cursor.decode token
  if cursor.table ≠ q.table then .error (.invalidCursor (.table cursor.table q.table))
  else
    let filter ← Filter.ofJson cursor.filter
    let layers := if filter.isVacuous then [] else [cursor.filter]
    .ok (⟨q.schema, q.table, layers, cursor.sort, cursor.columns⟩, cursor.window)

end Query

/-- What a request for a page means. -/
inductive PageTarget where
  | window (query : Query) (window : Window)
  /-- There is nothing on the side asked for of the given window. -/
  | beyond (query : Query) (window : Window)
  deriving DecidableEq, Repr

/-- The window that a step leads to, or the end that it leads beyond. -/
def PageStep.target (step : PageStep) (q : Query) (w : Window) (size : Nat) : PageTarget :=
  let adjacent : Option Window → PageTarget
    | some v => .window q v
    | none => .beyond q w
  match step with
  | next => adjacent (w.after size)
  | previous => adjacent (w.before size)
  | first => .window q (.front 0 size)
  | last => .window q (.back 0 size)

/-- The window that a request means. -/
def PageRequest.target (q : Query) : PageRequest → Except Error PageTarget
  | .offset size skipped =>
    if maxRequestOffset < skipped then .error (.invalidPage (.requestOffset skipped))
    else .ok (.window q (.front skipped size))
  | .lastOf size => .ok (.window q (.back 0 size))
  | .relative step token size => do
    let (restored, w) ← q.restore token
    .ok (step.target restored w (size.getD w.size))

namespace Query

variable {m : Type → Type} [Monad m]

/-- Fetches the page of a window. -/
def fetch (transport : Transport m) (q : Query) (w : Window) : m (Except Error Page) :=
  match q.compilePage w with
  | .error e => pure (.error e)
  | .ok statement => do
    match ← transport statement with
    | .error e => pure (.error (.transport e))
    | .ok rows => pure (.ok (q.page w rows))

/-- Fetches the page that a request asks for. -/
def paginate (transport : Transport m) (q : Query) (request : PageRequest) :
    m (Except Error Page) :=
  match request.target q with
  | .error e => pure (.error e)
  | .ok (.window query w) => query.fetch transport w
  | .ok (.beyond query w) => pure (.ok (query.pageBeyond w))

/-- The first row, if there is one. -/
def first? (transport : Transport m) (q : Query) : m (Except Error (Option Row)) := do
  match ← q.paginate transport (.offset 1 0) with
  | .error e => pure (.error e)
  | .ok page => pure (.ok page.records.head?)

end Query

namespace Page

variable {m : Type → Type} [Monad m]

/-- Goes from a page to another one of the same query. -/
def go (transport : Transport m) (p : Page) (step : PageStep) (size : Option Nat) :
    m (Except Error Page) :=
  p.query.paginate transport (.relative step p.cursor size)

end Page

end LinkQuery
