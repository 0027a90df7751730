import LinkQuery.Json.Printer

/-!
# What can go wrong

Every failure is a value that says what went wrong, with the names and values concerned; its wording
is in one place, `Error.message`. The failures of a kind have a type of their own:

* `NameFault`: a name in a query has no meaning for the schema;
* `PathFault`: a column path is not written correctly;
* `FilterFault`: a filter is not of the required form;
* `WindowFault`: a page lies outside the permitted range;
* `CursorFault`: a cursor token is not accepted;
* `SettingFault`: a setting lies outside the permitted range.

`Error` joins them with the failures of files and of the database.
-/

namespace LinkQuery

/-- The largest number of rows of a page. -/
def maxPageSize : Nat := 1000

/-- The largest offset of an explicit request for a page. -/
def maxRequestOffset : Nat := 49000

/-- What is added to a message when a known name is near. -/
def didYouMean : Option String → String
  | none => ""
  | some name => s!". Did you mean '{name}'?"

/-! ### The kinds of fault -/

/-- Why a name in a query has no meaning for the schema. Where a known name is `near`, it is
suggested. -/
inductive NameFault where
  /-- A column path goes through a link that its table does not have. -/
  | noPathLink (link table : String) (near : Option String)
  /-- A filter is on a link that its table does not have. -/
  | noFilterLink (link : String) (near : Option String)
  | noColumn (column table : String) (near : Option String)
  /-- The canonical name of a link does not lead to a link. -/
  | linkLost
  /-- A link leads to a table that the schema does not have. -/
  | unknownTarget (table : String)
  /-- The rows are to be ordered by a link that is part of the output. -/
  | sortedLink
  deriving DecidableEq, Repr

/-- Why a column path is not written correctly. -/
inductive PathFault where
  | segmentExpected
  | wildcardInside
  deriving DecidableEq, Repr

/-- Why a filter is not of the required form. -/
inductive FilterFault where
  | nodeExpected (found : Json.Value)
  | columnNameExpected (operator : String) (found : Json.Value)
  | emptySegment (key : String)
  | childrenExpected (combinator : String) (found : Json.Value)
  | scalarExpected (operator column : String) (found : Json.Value)
  | textExpected (operator column : String) (found : Json.Value)
  | flagExpected (operator column : String) (found : Json.Value)
  /-- A filter on a link stands where it cannot be moved to the link's own rows. -/
  | linkBelowCombinator (link : String)
  | orderedByNull (column symbol : String)
  deriving DecidableEq, Repr

/-- Why a page lies outside the permitted range. -/
inductive WindowFault where
  | size (found : Nat)
  | offset (found : Nat)
  | requestOffset (found : Nat)
  deriving DecidableEq, Repr

/-- Why a cursor token is not accepted. -/
inductive CursorFault where
  /-- The token is not the text of a cursor. -/
  | undecodable
  | version (found : Nat)
  | window (fault : WindowFault)
  | table (found expected : String)
  deriving DecidableEq, Repr

/-- Which setting lies outside the permitted range. -/
inductive SettingFault where
  | pageSize
  | maxConnections
  deriving DecidableEq, Repr

/-- A failure of the database or of the connection to it: its text, and the texts of its causes, the
outermost first. -/
structure TransportError where
  text : String
  causes : List String
  deriving DecidableEq, Repr

/-- A failure. -/
inductive Error where
  /-- The name `path`, used on `table`, has no meaning. -/
  | unresolved (table path : String) (fault : NameFault)
  | unknownTable (table : String) (near : Option String)
  | malformedPath (path : String) (position : Nat) (fault : PathFault)
  | unknownOperator (column operator : String)
  /-- A negation has nothing to negate. -/
  | emptyCombinator (combinator : String)
  | invalidFilter (fault : FilterFault)
  | invalidCursor (fault : CursorFault)
  | invalidPage (fault : WindowFault)
  | transport (error : TransportError)
  | invalidSetting (fault : SettingFault)
  | unreadableFile
  | malformedJson
  | malformedToml
  deriving DecidableEq, Repr

/-! ### Wording -/

/-- The wording of a name fault. -/
def NameFault.message : NameFault → String
  | noPathLink link _ (some near) => s!"no link named '{link}'" ++ didYouMean near
  | noPathLink link table none => s!"no link named '{link}' on table '{table}'"
  | noFilterLink link near => s!"no link named '{link}'" ++ didYouMean near
  | noColumn column table near =>
    s!"column '{column}' not found in table '{table}'" ++ didYouMean near
  | linkLost => "link not found"
  | unknownTarget table => s!"link targets unknown table '{table}'"
  | sortedLink => "cannot sort on a link that is selected or filtered"

/-- The wording of a path fault. -/
def PathFault.message : PathFault → String
  | segmentExpected => "expected identifier or '*' between dots"
  | wildcardInside => "'*' is only allowed as the last segment"

/-- The wording of a filter fault. -/
def FilterFault.message : FilterFault → String
  | nodeExpected found => "filter node must be an object, got " ++ found.compact
  | columnNameExpected operator found =>
    s!"{operator} expects a column name, got " ++ found.compact
  | emptySegment key => s!"invalid filter key '{key}'"
  | childrenExpected combinator found =>
    s!"{combinator} expects an array or object, got " ++ found.compact
  | scalarExpected operator column found =>
    s!"{operator} on '{column}' expects a scalar value, got " ++ found.compact
  | textExpected operator column found =>
    s!"{operator} on '{column}' expects a string, got " ++ found.compact
  | flagExpected operator column found =>
    s!"{operator} on '{column}' expects a boolean, got " ++ found.compact
  | linkBelowCombinator link =>
    s!"filter on link '{link}' is only allowed at the top level or inside $all"
  | orderedByNull column symbol => s!"'{column}' cannot be compared with null using {symbol}"

/-- The wording of a window fault. -/
def WindowFault.message : WindowFault → String
  | size found => s!"page size must be between 1 and {maxPageSize}, got {found}"
  | offset found => s!"offset {found} is out of range"
  | requestOffset found => s!"offset must not exceed {maxRequestOffset}, got {found}"

/-- The wording of a cursor fault; a token that cannot be decoded has none of its own. -/
def CursorFault.message : CursorFault → Option String
  | undecodable => none
  | version found => some s!"unsupported cursor version {found}"
  | window fault => some fault.message
  | table found expected => some s!"cursor belongs to table '{found}', not '{expected}'"

/-- The wording of a setting fault. -/
def SettingFault.message : SettingFault → String
  | pageSize => s!"page_size must be between 1 and {maxPageSize}"
  | maxConnections => "max_connections must be positive"

namespace Error

/-- The label of a failure, and what its message says after the label; nothing if that depends on
the reader of a file format. Some failures have no label, others nothing after it. -/
inductive Wording where
  | whole (text : String)
  | labelled (label detail : String)
  | cut (label : String)
  deriving DecidableEq, Repr

/-- The wording of a failure. -/
def wording : Error → Wording
  | unresolved table path fault =>
    .labelled s!"Cannot resolve '{path}' on table '{table}'" fault.message
  | unknownTable table near => .labelled "Unknown table" (s!"'{table}'" ++ didYouMean near)
  | malformedPath path position fault =>
    .labelled s!"Invalid column path '{path}' at position {position}" fault.message
  | unknownOperator column operator => .whole s!"Unsupported operator '{operator}' on '{column}'"
  | emptyCombinator combinator =>
    .whole s!"Combinator '{combinator}' requires at least one child expression"
  | invalidFilter fault => .labelled "Invalid filter" fault.message
  | invalidCursor fault =>
    match fault.message with
    | some detail => .labelled "Invalid cursor" detail
    | none => .cut "Invalid cursor"
  | invalidPage fault => .labelled "Invalid pagination" fault.message
  | transport error => .whole error.text
  | invalidSetting fault => .labelled "Configuration error" fault.message
  | unreadableFile => .cut "IO error"
  | malformedJson => .cut "JSON error"
  | malformedToml => .cut "TOML error"

/-- The text of a wording, as far as it goes. -/
def Wording.text : Wording → String
  | whole text => text
  | labelled label detail => label ++ ": " ++ detail
  | cut label => label

/-- The message of a failure, where its wording is fixed. -/
def message (e : Error) : Option String :=
  match e.wording with
  | .cut _ => none
  | w => some w.text

/-- Whether the failure arose before anything was sent to the database. -/
def isCompileError : Error → Bool
  | transport _ => false
  | _ => true

end Error

end LinkQuery
