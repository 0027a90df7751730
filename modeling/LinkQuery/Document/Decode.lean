import LinkQuery.Document

/-!
# Reading records out of documents

A record is written as a table with a member for each field, in any order, under the name of the
field or an alias of it; members that belong to no field are passed over, and a field given twice is
a mistake. A record may also be written as a list of its fields in their proper order. A choice
among fixed alternatives is written as the name of the alternative, or as a table with that name as
its only member, beside which nothing of interest stands.

Formats differ in small points of this, which `Dialect` collects. The readers return `none` where
the document is not as required.
-/

namespace LinkQuery

/-- The points in which file formats differ when records are read. -/
structure Dialect where
  /-- What may stand beside the name of an alternative that is written as a table. -/
  isVoid : Document → Bool
  /-- Whether a record written as a list may have items beyond its fields. -/
  allowsSurplus : Bool

namespace Document

/-- The text that a document consists of. -/
def text? : Document → Option String
  | .text value => value
  | _ => none

/-- The truth value that a document consists of. -/
def bool? : Document → Option Bool
  | .bool value => some value
  | _ => none

/-- The natural number that a document consists of, if it is at most `bound`. -/
def natUpTo? (bound : Nat) : Document → Option Nat
  | .integer value => if 0 ≤ value ∧ value ≤ bound then some value.toNat else none
  | _ => none

/-- The items of a list, each read by `read`. -/
def listOf? {α : Type} (read : Document → Option α) : Document → Option (List α)
  | .list items => items.mapM read
  | _ => none

/-- The members of a table under their names, each read by `read`. -/
def mapOf? {α : Type} (read : Document → Option α) : Document → Option (List (String × α))
  | .table members => members.mapM fun (name, value) => do some (← name, ← read value)
  | _ => none

/-- The alternative that a document names. -/
def choice? {α : Type} (dialect : Dialect) (alternatives : List (String × α)) :
    Document → Option α
  | .text (some name) => alternatives.lookup name
  | .table [(some name, value)] =>
    if dialect.isVoid value then alternatives.lookup name else none
  | _ => none

/-- The member for a field of the given names: `none` if there are several. -/
def field? (members : List (Option String × Document)) (names : List String) :
    Option (Option Document) :=
  match members.filter fun (name, _) => name.any names.contains with
  | [] => some none
  | [(_, value)] => some (some value)
  | _ => none

/-- The fields of a record, in the order of `layout`, which gives the names of each field; a field
that is not written is `none`. -/
def fields? (dialect : Dialect) (layout : List (List String)) :
    Document → Option (List (Option Document))
  | .table members =>
    if members.all (·.1.isSome) then layout.mapM (field? members) else none
  | .list items =>
    if items.length ≤ layout.length ∨ dialect.allowsSurplus then
      some ((List.range layout.length).map fun i => items[i]?)
    else none
  | _ => none

end Document

/-- A field that must be written. -/
def required {α : Type} (read : Document → Option α) (field : Option Document) : Option α :=
  field.bind read

/-- A field that has a value even if it is not written. -/
def defaulted {α : Type} (read : Document → Option α) (value : α) : Option Document → Option α
  | none => some value
  | some document => read document

end LinkQuery
