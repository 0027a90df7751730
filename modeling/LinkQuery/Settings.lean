import LinkQuery.Page.Window
import LinkQuery.Toml.Reader

/-!
# Settings

The settings say where the database and its schema are found, how many rows a page has unless the
request says otherwise, and how many connections may be open at a time. They are written in TOML,
and those that are not written have a default.

* `Settings.ofToml` reads settings and checks that they are in range.
-/

namespace LinkQuery

/-- The settings. -/
structure Settings where
  databaseUrl : Option String
  schemaPath : Option String
  pageSize : Nat
  maxConnections : Nat
  deriving DecidableEq, Repr

namespace Settings

/-- The largest number that the setting for connections holds, which has 32 bits. -/
def maxConnectionsBound : Nat := 4294967295

/-- The number of connections unless a setting says otherwise. -/
def defaultMaxConnections : Nat := 5

/-- The settings when nothing is written. -/
def default : Settings := ⟨none, none, defaultPageSize, defaultMaxConnections⟩

/-- Checks that the settings are in range. -/
def check (s : Settings) : Except SettingFault Unit :=
  if s.pageSize = 0 ∨ maxPageSize < s.pageSize then .error .pageSize
  else if s.maxConnections = 0 then .error .maxConnections
  else .ok ()

/-- The settings, if they are in range. -/
def checked (s : Settings) : Except Error Settings :=
  (s.check.map fun _ => s).mapError .invalidSetting

/-- Reads settings. -/
def ofDocument? (d : Document) : Option Settings := do
  match ← d.fields? Toml.dialect
      [["database_url"], ["schema_path"], ["page_size"], ["max_connections"]] with
  | [databaseUrl, schemaPath, pageSize, maxConnections] =>
    some
      { databaseUrl := ← defaulted (fun d => d.text?.map some) none databaseUrl
        schemaPath := ← defaulted (fun d => d.text?.map some) none schemaPath
        pageSize := ← defaulted (Document.natUpTo? maxWord) defaultPageSize pageSize
        maxConnections :=
          ← defaulted (Document.natUpTo? maxConnectionsBound) defaultMaxConnections maxConnections }
  | _ => none

/-- The settings written in TOML text. -/
def ofToml (text : String) : Except Error Settings :=
  match (Toml.read? text).bind ofDocument? with
  | some settings => settings.checked
  | none => .error .malformedToml

end Settings

end LinkQuery
