import LinkQuery.CommandLine.Listing
import LinkQuery.Postgres.Transport
import LinkQuery.Schema.Document
import LinkQuery.Settings

/-!
# Commands

A command reads the settings and the schema, and then prints a statement, what a query resolves to,
a page of rows, or the schema itself. Everything it needs from outside is given to it: the files,
the variables and the server.

* `Surroundings` is what a command finds outside.
* `perform` carries out an invocation, `execute` reads the arguments first.
-/

namespace LinkQuery.CommandLine

open Report (line need)

/-- What there is under the name of a file. -/
inductive FileContent where
  | missing
  | unreadable
  | text (text : String)
  deriving DecidableEq, Repr

/-- What a command finds outside. -/
structure Surroundings (m : Type → Type) where
  /-- The values of variables. -/
  valueOf : String → Option String
  /-- What there is under the name of a file. -/
  contentOf : String → m FileContent
  /-- The server at an address, with at most so many connections. -/
  connect : String → Nat → m (Except TransportError (Postgres.Server m))

/-! ### Queries -/

/-- The term of an order that is written as a column, or as a column and a direction. -/
def sortTerm (text : String) : Except Failure SortTerm :=
  if text = "random" then .ok .random
  else
    let cs := text.toList
    let column := String.ofList (cs.takeWhile (· ≠ ':'))
    match cs.dropWhile (· ≠ ':') with
    | [] => .ok (.asc column)
    | _ :: direction =>
      match String.ofList direction with
      | "asc" => .ok (.asc column)
      | "desc" => .ok (.desc column)
      | other => .error (.unknownDirection other)

/-- The value of a filter that is written as JSON. -/
def filterValue (text : String) : Except Failure Json.Value :=
  match Json.Value.read? text with
  | some value => .ok value
  | none => .error .filterNotJson

/-- The query that arguments describe. -/
def QueryArguments.query (schema : Schema) (a : QueryArguments) : Except Failure Query := do
  let query ← (Query.ofTable schema a.table).mapError .error
  let query := if a.columns.isEmpty then query else query.select (a.columns.map Text.trim)
  let query ←
    match a.filter with
    | none => .ok query
    | some text => do .ok (query.addFilter (← filterValue text))
  let terms ← a.sort.mapM sortTerm
  .ok (terms.foldl (fun q term => q.addSort term) query)

/-- The statement that arguments describe: that of a page if its size is given. -/
def QueryArguments.statement (schema : Schema) (a : QueryArguments) :
    Except Failure Sql.Statement := do
  let query ← a.query schema
  match a.size with
  | some size => (query.compilePage (.front a.offset size)).mapError .error
  | none => query.compile.mapError .error

/-- The page that arguments ask for, in the size of the settings unless they give one. -/
def QueryArguments.request (settings : Settings) (a : QueryArguments)
    (cursor : Option (PageStep × String)) : PageRequest :=
  match cursor with
  | some (step, token) => .relative step token a.size
  | none => .offset (a.size.getD settings.pageSize) a.offset

/-! ### Commands without a database -/

/-- Prints the statement of a query. -/
def compile (schema : Schema) (format : Format) (a : QueryArguments) : Report Unit := do
  printStatement (← liftExcept (a.statement schema)) format

/-- Prints what a query resolves to: its selection, its filter, its order, its statement. -/
def explain (schema : Schema) (a : QueryArguments) : Report Unit := do
  let query ← liftExcept (a.query schema)
  line "📋 Query Analysis"
  line ""
  line ("  Table: " ++ query.table)
  let selection ← need (Selection.ofColumns schema query.table (query.columns.getD []))
  line "  Selection:"
  printSelection 2 selection
  let filter ← need (Filter.ofJson query.filterValue)
  if filter.isVacuous then pure () else line ("  Filter: " ++ query.filterValue.compact)
  query.sort.forM printSort
  line ""
  line "Generated SQL:"
  let statement ← need query.compile
  line statement.sql
  printBindings statement.params

/-! ### Files -/

/-- The last part of a path. -/
def fileName (path : String) : String :=
  let parts := (path.toList.splitOn '/').filter fun part => part ≠ [] ∧ part ≠ ['.']
  String.ofList (parts.getLast?.getD [])

/-- What stands behind the last dot of a file name, if anything stands before it. -/
def extension? (name : String) : Option String :=
  match (name.toList.splitOn '.').reverse with
  | last :: before :: more =>
    if before = [] ∧ more = [] ∨ name = ".." then none else some (String.ofList last)
  | _ => none

/-- The schema in a file: in TOML if the name says so, in JSON otherwise. -/
def schemaOfFile (path : String) : FileContent → Except Error Schema
  | .text text =>
    if extension? (fileName path) = some "toml" then Schema.ofToml text else Schema.ofJson text
  | _ => .error .unreadableFile

/-- The settings in a file. -/
def settingsOfFile : FileContent → Except Error Settings
  | .missing => .ok .default
  | .unreadable => .error .unreadableFile
  | .text text => Settings.ofToml text

/-- The directory with the settings of the user: that of a variable, if it is given in full, or else
the usual one in the user's home. -/
def userDirectory (valueOf : String → Option String) : Option String :=
  match valueOf "XDG_CONFIG_HOME" with
  | some directory =>
    if directory.startsWith "/" then some directory
    else (valueOf "HOME").map (· ++ "/.config")
  | none => (valueOf "HOME").map (· ++ "/.config")

section Performing

variable {m : Type → Type} [Monad m]

/-- Reads the settings: those of the working directory, or else those of the user. -/
def loadSettings (s : Surroundings m) : m (Except Error Settings) := do
  match ← s.contentOf settingsFile with
  | .missing =>
    match userDirectory s.valueOf with
    | none => pure (.ok .default)
    | some directory => do
      pure (settingsOfFile (← s.contentOf (directory ++ "/" ++ userSettingsFile)))
  | content => pure (settingsOfFile content)

/-- The report that stops at once. -/
def failed (failure : Failure) : Report Unit := throw failure

/-- Fetches and prints a page. The connection comes first. -/
def run (s : Surroundings m) (schema : Schema) (settings : Settings) (invocation : Invocation)
    (a : QueryArguments) (cursor : Option (PageStep × String)) : m (Report Unit) := do
  match invocation.databaseUrl.or settings.databaseUrl with
  | none => pure (failed .noDatabase)
  | some url =>
    match ← s.connect url settings.maxConnections with
    | .error e => pure (failed (.error (.transport e)))
    | .ok server =>
      match a.query schema with
      | .error failure => pure (failed failure)
      | .ok query =>
        match ← query.paginate (Postgres.transport server) (a.request settings cursor) with
        | .error e => pure (failed (.error e))
        | .ok page => pure (printPage page invocation.format)

/-- Carries out an invocation. -/
def perform (s : Surroundings m) (invocation : Invocation) : m (Report Unit) := do
  match ← loadSettings s with
  | .error e => pure (failed (.error e))
  | .ok settings =>
    match invocation.schema.or settings.schemaPath with
    | none => pure (failed .noSchema)
    | some path =>
      match schemaOfFile path (← s.contentOf path) with
      | .error e => pure (failed (.error e))
      | .ok schema =>
        match invocation.command with
        | .compile a => pure (compile schema invocation.format a)
        | .explain a => pure (explain schema a)
        | .run a cursor => run s schema settings invocation a cursor
        | .tables => pure (printTables schema)

/-- A reminder of how the program is called. -/
def usage : String :=
  "Usage: " ++ programName ++ " [OPTIONS] <compile|explain|run|tables> [TABLE] [OPTIONS]\n"

/-- Carries out what the arguments say. -/
def execute (s : Surroundings m) (arguments : List String) : m Outcome := do
  match Invocation.ofArguments (s.valueOf schemaVariable) (s.valueOf databaseVariable)
      arguments with
  | .error .usage => pure ⟨2, "", none, true⟩
  | .error .help => pure ⟨0, "", none, true⟩
  | .error .version => pure ⟨0, programName ++ " " ++ programVersion ++ "\n", none, false⟩
  | .ok invocation => do pure (← perform s invocation).outcome

end Performing

end LinkQuery.CommandLine
