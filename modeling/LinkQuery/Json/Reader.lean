import LinkQuery.Json.Token
import LinkQuery.Text.Utf8

/-!
# Documents from JSON tokens

The nesting of a document is recovered from its tokens by a machine with a stack, which holds one
frame for each list or table that is still open: `Builder.step` says what a token does. Reading a
document therefore takes one pass whatever the depth of the nesting.

* `read? text` is the document written in `text`, if it is written correctly.
* `readBytes? bytes` is the document whose text is given in UTF-8. The text literals of parts that
  nobody asks for may contain any bytes. By `readBytes?_toUTF8`, reading a text and reading its
  bytes are the same.
-/

namespace LinkQuery.Json

/-- A list or table that is still open, with its parts so far in reverse. -/
inductive Frame where
  | list (items : List Document)
  | table (members : List (Option String × Document))
  /-- A table whose next member has its name already. -/
  | member (members : List (Option String × Document)) (name : Option String)
  deriving Repr

/-- What may come next. -/
inductive Expectation where
  | value
  /-- After an opening bracket. -/
  | valueOrEnd
  | name
  /-- After an opening brace. -/
  | nameOrEnd
  | colon
  /-- After a part of an open list or table. -/
  | commaOrEnd
  | finished (document : Document)
  deriving Repr

/-- A document under construction. -/
structure Builder where
  stack : List Frame
  expect : Expectation
  deriving Repr

namespace Builder

/-- Nothing read yet. -/
def start : Builder := ⟨[], .value⟩

/-- A complete value takes its place in the innermost open list or table. -/
def place (value : Document) : List Frame → Option Builder
  | [] => some ⟨[], .finished value⟩
  | .list items :: stack => some ⟨.list (value :: items) :: stack, .commaOrEnd⟩
  | .member members name :: stack => some ⟨.table ((name, value) :: members) :: stack, .commaOrEnd⟩
  | .table _ :: _ => none

/-- The innermost list ends. -/
def closeList : List Frame → Option Builder
  | .list items :: stack => place (.list items.reverse) stack
  | _ => none

/-- The innermost table ends. -/
def closeTable : List Frame → Option Builder
  | .table members :: stack => place (.table members.reverse) stack
  | _ => none

/-- A token where a value may start. -/
def stepValue (stack : List Frame) : Token → Option Builder
  | .scalar value => place value stack
  | .text value => place (.text value) stack
  | .openList => some ⟨.list [] :: stack, .valueOrEnd⟩
  | .openTable => some ⟨.table [] :: stack, .nameOrEnd⟩
  | _ => none

/-- A token where the name of a member may stand. -/
def stepName : List Frame → Token → Option Builder
  | .table members :: stack, .text name => some ⟨.member members name :: stack, .colon⟩
  | _, _ => none

/-- The next token. -/
def step (b : Builder) (token : Token) : Option Builder :=
  match b.expect, token with
  | .value, token => stepValue b.stack token
  | .valueOrEnd, .closeList => closeList b.stack
  | .valueOrEnd, token => stepValue b.stack token
  | .name, token => stepName b.stack token
  | .nameOrEnd, .closeTable => closeTable b.stack
  | .nameOrEnd, token => stepName b.stack token
  | .colon, .colon => some { b with expect := .value }
  | .commaOrEnd, .closeList => closeList b.stack
  | .commaOrEnd, .closeTable => closeTable b.stack
  | .commaOrEnd, .comma =>
    match b.stack with
    | .list _ :: _ => some { b with expect := .value }
    | .table _ :: _ => some { b with expect := .name }
    | _ => none
  | _, _ => none

/-- The document, if it is complete. -/
def finish (b : Builder) : Option Document :=
  match b.expect with
  | .finished document => some document
  | _ => none

end Builder

/-- The document with the given tokens. -/
def build? (tokens : List Token) : Option Document :=
  (tokens.foldlM Builder.step .start).bind (·.finish)

/-- The document written in `text`. -/
def read? (text : String) : Option Document := (tokens? (text.toList.map some)).bind build?

/-- The document whose text is given in UTF-8. -/
def readBytes? (bytes : ByteArray) : Option Document := (tokens? (Text.symbols bytes)).bind build?

/-- The bytes of a text are read as the text is. -/
theorem readBytes?_toUTF8 (text : String) : readBytes? text.toUTF8 = read? text := by
  rw [readBytes?, Text.symbols_toUTF8, read?]

end LinkQuery.Json
