import LinkQuery.Json.Value

/-!
# Fragments of statements

A statement refers to its parameters by number, in the order in which they occur in its text. While
a statement is being put together the numbers are not known yet, so a *fragment* is a list of parts
that are either text or the value of a parameter. The parameters are numbered once, from left to
right, when the finished fragment is rendered.

* `Fragment` has the empty fragment and concatenation `++`. Where a text meets a text the two become
  one part, so a fragment does not show in which pieces its text was added.
* `Fragment.joined` and `Fragment.wrapped` are concatenations.
* `Fragment.render` gives the `Statement`: its text with placeholders, and its parameters.
-/

namespace LinkQuery.Sql

/-- A part of a statement. -/
inductive Part where
  | text (text : String)
  | param (value : Json.Value)
  deriving DecidableEq, Repr

/-- A piece of a statement whose parameters are not numbered yet. -/
structure Fragment where
  parts : List Part
  deriving DecidableEq, Repr

/-- A finished statement: its text, and the values of its parameters `$1`, `$2` and so on. -/
structure Statement where
  sql : String
  params : List Json.Value
  deriving DecidableEq, Repr

/-- Concatenates lists of parts; texts that meet become one part. -/
def gluedParts : List Part → List Part → List Part
  | [], qs => qs
  | [.text a], .text b :: qs => .text (a ++ b) :: qs
  | p :: ps, qs => p :: gluedParts ps qs

/-- How the parameter of the given number is written in a statement. -/
def placeholder (index : Nat) : String := "$" ++ toString index

namespace Fragment

/-- The fragment without parts. -/
def empty : Fragment := ⟨[]⟩

/-- A text. It is a part of its own even if it has no characters. -/
def text (s : String) : Fragment := ⟨[.text s]⟩

/-- A parameter. -/
def param (value : Json.Value) : Fragment := ⟨[.param value]⟩

instance : Append Fragment := ⟨fun a b => ⟨gluedParts a.parts b.parts⟩⟩

instance : Inhabited Fragment := ⟨empty⟩

/-- Whether a fragment has no parts. -/
def isEmpty (f : Fragment) : Bool := f.parts.isEmpty

/-- The fragments one after the other, with `separator` between them. -/
def joined (separator : String) : List Fragment → Fragment
  | [] => empty
  | [f] => f
  | f :: g :: rest => f ++ text separator ++ joined separator (g :: rest)

/-- A fragment between two texts. -/
def wrapped (before after : String) (f : Fragment) : Fragment := text before ++ f ++ text after

@[simp] theorem parts_empty : empty.parts = [] := rfl

@[simp] theorem parts_text (s : String) : (text s).parts = [.text s] := rfl

@[simp] theorem parts_param (value : Json.Value) : (param value).parts = [.param value] := rfl

@[simp] theorem parts_append (f g : Fragment) : (f ++ g).parts = gluedParts f.parts g.parts := rfl

/-! ### Rendering -/

/-- The text of a list of parts, whose first parameter has the number `index`. -/
def sqlOfParts (index : Nat) : List Part → String
  | [] => ""
  | .text s :: rest => s ++ sqlOfParts index rest
  | .param _ :: rest => placeholder index ++ sqlOfParts (index + 1) rest

/-- The values of the parameters, in order. -/
def params (f : Fragment) : List Json.Value :=
  f.parts.filterMap fun
    | .param value => some value
    | .text _ => none

/-- The finished statement. -/
def render (f : Fragment) : Statement := ⟨sqlOfParts 1 f.parts, f.params⟩

end Fragment

end LinkQuery.Sql
