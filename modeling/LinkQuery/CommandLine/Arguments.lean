import LinkQuery.Page.Fetch

/-!
# Arguments of the command line

An invocation names a command, with the table to query and options. The options that say where the
schema and the database are and how to print may stand before the command and after it; one after
the command counts more. The value of an option is the next argument, or stands in the same argument
behind the name of the option.

* `Invocation.ofArguments` reads the arguments. What cannot be read as an invocation is a usage
  error; the requests for help and for the version end the reading where they stand.
-/

namespace LinkQuery.CommandLine

/-- How a result is printed. -/
inductive Format where
  | table
  | json
  deriving DecidableEq, Repr

/-- The description of a query. -/
structure QueryArguments where
  table : String
  columns : List String
  filter : Option String
  sort : List String
  size : Option Nat
  offset : Nat
  deriving DecidableEq, Repr

/-- What to do. -/
inductive Command where
  /-- Print the statement of a query. -/
  | compile (query : QueryArguments)
  /-- Print what a query resolves to. -/
  | explain (query : QueryArguments)
  /-- Print a page of rows, which lies next to the page of a cursor if one is given. -/
  | run (query : QueryArguments) (cursor : Option (PageStep × String))
  /-- Print the schema. -/
  | tables
  deriving DecidableEq, Repr

/-- What the arguments say. -/
structure Invocation where
  schema : Option String
  databaseUrl : Option String
  format : Format
  command : Command
  deriving DecidableEq, Repr

/-- Why the reading of arguments ends without an invocation. -/
inductive Stop where
  | usage
  | help
  | version
  deriving DecidableEq, Repr

/-! ### Options -/

/-- The options that take a value. -/
inductive Setting where
  | schema
  | databaseUrl
  | format
  | columns
  | filter
  | sort
  | size
  | offset
  | after
  | before
  deriving DecidableEq, Repr

/-- The natural number that a text spells, if it has 64 bits. A plus may stand before the digits. -/
def word? (text : String) : Option Nat :=
  let digits :=
    match text.toList with
    | '+' :: rest => rest
    | cs => cs
  if digits ≠ [] ∧ digits.all Char.isDigit then
    let n := digits.foldl (fun n c => n * 10 + (c.toNat - '0'.toNat)) 0
    if n ≤ maxWord then some n else none
  else none

/-- The format of a given name. -/
def Format.ofName? : String → Option Format
  | "table" => some .table
  | "json" => some .json
  | _ => none

namespace Setting

/-- The name of an option, behind two hyphens. -/
def long : Setting → String
  | schema => "schema"
  | databaseUrl => "database-url"
  | format => "format"
  | columns => "columns"
  | filter => "filter"
  | sort => "sort"
  | size => "size"
  | offset => "offset"
  | after => "after"
  | before => "before"

/-- The letter of an option, behind one hyphen, if it has one. -/
def short? : Setting → Option Char
  | schema => some 's'
  | columns => some 'c'
  | filter => some 'f'
  | _ => none

/-- Whether an option may be given more than once. -/
def repeats : Setting → Bool
  | columns | sort => true
  | _ => false

/-- Whether an option can have the given value. -/
def accepts (value : String) : Setting → Bool
  | schema => value ≠ ""
  | format => (Format.ofName? value).isSome
  | size | offset => (word? value).isSome
  | _ => true

/-- The options before a command and after every command. -/
def general : List Setting := [schema, databaseUrl, format]

/-- The options after a command on a query. -/
def ofQuery : List Setting := general ++ [columns, filter, sort, size, offset]

/-- The options after the command that runs a query. -/
def ofRun : List Setting := ofQuery ++ [after, before]

end Setting

/-- The options given with their values, first one first. -/
abbrev Given := List (Setting × String)

namespace Given

/-- The value of an option. -/
def value? (given : Given) (setting : Setting) : Option String := given.lookup setting

/-- The values of an option that may be given more than once. -/
def values (given : Given) (setting : Setting) : List String :=
  given.filterMap fun (s, value) => if s = setting then some value else none

/-- Adds an option with its value. -/
def add (given : Given) (setting : Setting) (value : String) : Except Stop Given :=
  if !setting.accepts value ∨ (!setting.repeats ∧ (given.value? setting).isSome) then .error .usage
  else .ok (given ++ [(setting, value)])

end Given

/-! ### Single arguments -/

/-- What an argument is, by itself. -/
inductive Argument where
  | word
  /-- The two hyphens that make words of all that follows. -/
  | separator
  | stop (reason : Stop)
  | setting (setting : Setting) (value : String)
  /-- An option whose value has to follow. -/
  | pending (setting : Setting)
  deriving DecidableEq, Repr

namespace Argument

/-- An argument behind two hyphens. -/
def ofLong (settings : List Setting) (hasVersion : Bool) (cs : List Char) : Argument :=
  let name := String.ofList (cs.takeWhile (· ≠ '='))
  match cs.dropWhile (· ≠ '='), settings.find? (·.long = name) with
  | _ :: value, some s => .setting s (String.ofList value)
  | _ :: _, none => .stop .usage
  | [], some s => .pending s
  | [], none =>
    if name = "help" then .stop .help
    else if name = "version" ∧ hasVersion then .stop .version
    else .stop .usage

/-- An argument behind one hyphen, which begins with a letter. -/
def ofShort (settings : List Setting) (hasVersion : Bool) (letter : Char) (rest : List Char) :
    Argument :=
  match settings.find? (·.short? = some letter) with
  | some s =>
    match rest with
    | [] => .pending s
    | '=' :: value => .setting s (String.ofList value)
    | value => .setting s (String.ofList value)
  | none =>
    if letter = 'h' then .stop .help
    else if letter = 'V' ∧ hasVersion then .stop .version
    else .stop .usage

/-- What an argument is, where the given options are known. -/
def classify (settings : List Setting) (hasVersion : Bool) (arg : String) : Argument :=
  match arg.toList with
  | ['-', '-'] => .separator
  | '-' :: '-' :: cs => ofLong settings hasVersion cs
  | '-' :: letter :: rest => ofShort settings hasVersion letter rest
  | _ => .word

end Argument

/-- Whether an argument can be the value of the option before it: it must not look like an option.
-/
def isValue (arg : String) : Bool := !(arg.startsWith "-") || arg = "-"

/-! ### The arguments before and after the command -/

/-- Reads the options before the command. The command and what follows it are left over. -/
def readBefore (given : Given) : List String → Except Stop (Given × List String)
  | [] => .ok (given, [])
  | arg :: rest =>
    match Argument.classify Setting.general true arg with
    | .word => .ok (given, arg :: rest)
    | .separator => .error .usage
    | .stop reason => .error reason
    | .setting s value => do readBefore (← given.add s value) rest
    | .pending s =>
      match rest with
      | [] => .error .usage
      | value :: rest =>
        if isValue value then do readBefore (← given.add s value) rest else .error .usage

/-- Reads the options and words after the command, of which there may be at most `limit` words. -/
def readAfter (settings : List Setting) (limit : Nat) (given : Given) (words : List String) :
    List String → Except Stop (Given × List String)
  | [] => .ok (given, words)
  | arg :: rest =>
    match Argument.classify settings false arg with
    | .word =>
      if words.length < limit then readAfter settings limit given (words ++ [arg]) rest
      else .error .usage
    | .separator =>
      if words.length + rest.length ≤ limit then .ok (given, words ++ rest) else .error .usage
    | .stop reason => .error reason
    | .setting s value => do readAfter settings limit (← given.add s value) words rest
    | .pending s =>
      match rest with
      | [] => .error .usage
      | value :: rest =>
        if isValue value then do readAfter settings limit (← given.add s value) words rest
        else .error .usage

/-- The parts of a text between commas. -/
def commaParts (text : String) : List String :=
  (text.toList.splitOn ',').map String.ofList

/-- The description of a query by the options and words after a command. -/
def queryOf (given : Given) (words : List String) : Except Stop QueryArguments :=
  match words with
  | [table] =>
    .ok
      { table := table
        columns := (given.values .columns).flatMap commaParts
        filter := given.value? .filter
        sort := given.values .sort
        size := (given.value? .size).bind word?
        offset := ((given.value? .offset).bind word?).getD 0 }
  | _ => .error .usage

/-- The names of the commands. -/
def commandNames : List String := ["compile", "explain", "run", "tables", "help"]

/-- The end of a request for help, which may be about one command. -/
def helpAbout : List String → Stop
  | [] => .help
  | [name] => if commandNames.contains name then .help else .usage
  | _ => .usage

/-- Reads a command with its arguments. -/
def readCommand (name : String) (arguments : List String) : Except Stop (Command × Given) :=
  match name with
  | "compile" => do
    let (given, words) ← readAfter Setting.ofQuery 1 [] [] arguments
    .ok (.compile (← queryOf given words), given)
  | "explain" => do
    let (given, words) ← readAfter Setting.ofQuery 1 [] [] arguments
    .ok (.explain (← queryOf given words), given)
  | "run" => do
    let (given, words) ← readAfter Setting.ofRun 1 [] [] arguments
    let query ← queryOf given words
    match given.value? .after, given.value? .before with
    | some _, some _ => .error .usage
    | some cursor, none => .ok (.run query (some (.next, cursor)), given)
    | none, some cursor => .ok (.run query (some (.previous, cursor)), given)
    | none, none => .ok (.run query none, given)
  | "tables" => do
    let (given, _) ← readAfter Setting.general 0 [] [] arguments
    .ok (.tables, given)
  | "help" => .error (helpAbout arguments)
  | _ => .error .usage

namespace Invocation

/-- The value of a general option: that after the command, or that before it, or else `fallback`,
which is consulted on either side where the option is missing. -/
def general (setting : Setting) (before after : Given) (fallback : Option String) :
    Except Stop (Option String) :=
  match before.value? setting, after.value? setting with
  | some _, some value => .ok (some value)
  | given, other =>
    match fallback with
    | some value =>
      if setting.accepts value then .ok ((other.or given).or (some value)) else .error .usage
    | none => .ok (other.or given)

/-- What the arguments say. The places of the schema and of the database can also be given by
variables, here `schemaVariable` and `databaseVariable`. -/
def ofArguments (schemaVariable databaseVariable : Option String) (arguments : List String) :
    Except Stop Invocation := do
  match ← readBefore [] arguments with
  | (_, []) => .error .usage
  | (before, name :: rest) =>
    let (command, after) ← readCommand name rest
    let format ← general .format before after none
    .ok
      { schema := ← general .schema before after schemaVariable
        databaseUrl := ← general .databaseUrl before after databaseVariable
        format := (format.bind Format.ofName?).getD .table
        command := command }

end Invocation

end LinkQuery.CommandLine
