import LinkQuery.CommandLine.Run

/-!
# The executable

Gives the command line its files and variables, prints what it leaves behind, and returns its exit
code. No connection to a server is built in, so commands that need one report that.
-/

namespace LinkQuery.CommandLine

/-- What there is under the name of a file. -/
def readContent (path : String) : IO FileContent := do
  try
    return .text (← IO.FS.readFile path)
  catch
    | .noFileOrDirectory .. => return .missing
    | _ => return .unreadable

/-- The surroundings of the process, with the given variables. -/
def surroundings (environment : List (String × Option String)) : Surroundings IO where
  valueOf name := (environment.lookup name).join
  contentOf := readContent
  connect _ _ := return .error ⟨"no connection to a server is built in", []⟩

/-- The variables that the command line looks at. -/
def variableNames : List String := [schemaVariable, databaseVariable, "XDG_CONFIG_HOME", "HOME"]

end LinkQuery.CommandLine

open LinkQuery.CommandLine in
/-- Runs the command line. -/
def main (arguments : List String) : IO UInt32 := do
  let environment ← variableNames.mapM fun name => do return (name, ← IO.getEnv name)
  let outcome ← execute (surroundings environment) arguments
  IO.print outcome.output
  if outcome.reminds then
    if outcome.code = 0 then IO.print usage else IO.eprint usage
  match outcome.failure with
  | some text => IO.eprintln ("Error: " ++ text)
  | none => pure ()
  return UInt32.ofNat outcome.code
