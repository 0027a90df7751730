import LinkQuery.Error

/-!
# The program on the command line

The program goes by a name, which also appears in the names of its variables and files. What it
prints is collected as text, and it stops at the first failure; what was printed before stands.

* `Failure` are the reasons to stop, `Failure.text` their wording.
* `Report` is a computation that prints and may stop.
-/

namespace LinkQuery.CommandLine

/-- The name of the program. -/
def programName : String := "relq"

/-- The version of the program. -/
def programVersion : String := "0.3.0"

/-- The variable with the place of the schema. -/
def schemaVariable : String := "RELQ_SCHEMA"

/-- The variable with the place of the database. -/
def databaseVariable : String := "RELQ_DATABASE_URL"

/-- The file with the settings, in the working directory. -/
def settingsFile : String := programName ++ ".toml"

/-- The file with the settings of a user, in the directory for such files. -/
def userSettingsFile : String := programName ++ "/config.toml"

/-- Why the program stops. -/
inductive Failure where
  | error (error : Error)
  | noSchema
  | noDatabase
  | filterNotJson
  | unknownDirection (found : String)
  deriving DecidableEq, Repr

/-- The wording of a failure, with those of its causes. -/
def Failure.text : Failure → String
  | error (.transport e) => String.intercalate ": " (e.text :: e.causes)
  | error e => e.wording.text
  | noSchema =>
    s!"no schema file: pass --schema, set {schemaVariable} or schema_path in {settingsFile}"
  | noDatabase => s!"no database URL: pass --database-url or set {databaseVariable}"
  | filterNotJson => "filter is not valid JSON"
  | unknownDirection found => s!"unknown sort direction '{found}' (expected asc or desc)"

/-- A computation that prints and may stop. -/
abbrev Report := ExceptT Failure (StateM String)

namespace Report

/-- Prints a line. -/
def line (text : String) : Report Unit := modify fun printed => printed ++ text ++ "\n"

/-- Goes on with a result, or stops. -/
def need {α : Type} (result : Except Error α) : Report α :=
  ExceptT.mk (pure (result.mapError .error))

end Report

/-- What the program leaves behind: its exit code, what it printed, and why it stopped. -/
structure Outcome where
  code : Nat
  output : String
  failure : Option String
  /-- Whether the caller is to be reminded of how the program is called. -/
  reminds : Bool
  deriving DecidableEq, Repr

/-- The outcome of a report: a failure has the exit code 1. -/
def Report.outcome (report : Report Unit) : Outcome :=
  match report.run.run "" with
  | (.ok (), printed) => ⟨0, printed, none, false⟩
  | (.error failure, printed) => ⟨1, printed, some failure.text, false⟩

end LinkQuery.CommandLine
