import LinkQuery.Document.Decode

/-!
# Tables of TOML

A table of a TOML file can be written in pieces: under a header with its name, by keys with dots,
and by headers of tables inside it. What is written once must not be written again, and a table must
not be taken up in another way than it was begun. To check this, each table remembers its origin.

* `Item` is a member of a table, with the origins of tables.
* `Items.change` changes the table at the end of a path, and begins the tables on the way there.
* `Assembly` is a file as far as it has been read: the tables that are complete, and the section of
  the file that is being read.
-/

namespace LinkQuery.Toml

/-- How a table came to be. -/
inductive Origin where
  /-- By a header of its own, or as the whole file. -/
  | header
  /-- On the way to a table that has a header. -/
  | passage
  /-- By a key with dots. -/
  | dotted
  deriving DecidableEq, Repr

/-- A member of a table. -/
inductive Item where
  | value (value : Document)
  | table (origin : Origin) (members : List (String × Item))
  /-- A list of tables, each with a header of its own. -/
  | tables (rows : List (List (String × Item)))
  deriving Repr, Inhabited

/-- The members of a table. -/
abbrev Items := List (String × Item)

mutual

/-- What an item says. -/
def Item.document : Item → Document
  | .value value => value
  | .table _ members => .table (documents members)
  | .tables rows => .list (documentRows rows)

/-- What the members of a table say. -/
def documents : Items → List (Option String × Document)
  | [] => []
  | (name, item) :: rest => (some name, item.document) :: documents rest

/-- What the tables of a list say. -/
def documentRows : List Items → List Document
  | [] => []
  | members :: rest => .table (documents members) :: documentRows rest

end

namespace Items

/-- Sets a member. -/
def put (name : String) (item : Item) : Items → Items
  | [] => [(name, item)]
  | (n, old) :: rest => if n = name then (n, item) :: rest else (n, old) :: put name item rest

/-- Removes a member. -/
def erase (name : String) (items : Items) : Items := items.filter fun (n, _) => n ≠ name

/-- Changes the table at the end of a path, given with its origin. Tables on the way that are not
there yet begin as `origin` tells. A key with dots must not lead into a table that has a header. A
path through a list of tables goes on in the last one. -/
def change (origin : Origin) (f : Origin → Items → Option Items) :
    List String → Origin → Items → Option Items
  | [], own, members => f own members
  | name :: path, _, members =>
    match members.lookup name with
    | none => do
      let inner ← change origin f path origin []
      some (put name (.table origin inner) members)
    | some (.value _) => none
    | some (.table own inner) =>
      if origin = .dotted ∧ own = .header then none
      else do
        let inner ← change origin f path own inner
        some (put name (.table own inner) members)
    | some (.tables rows) =>
      match rows.reverse with
      | [] => none
      | last :: earlier => do
        let last ← change origin f path .header last
        some (put name (.tables (last :: earlier).reverse) members)

/-- Adds a value under a key, whose last part is `name`. A key with dots adds to tables that were
begun by keys with dots only. -/
def addValue (path : List String) (name : String) (value : Document) (own : Origin)
    (members : Items) : Option Items :=
  change .dotted
    (fun origin inner =>
      if (origin == .dotted) == path.isEmpty then none
      else if (inner.lookup name).isSome then none
      else some (put name (.value value) inner))
    path own members

end Items

/-! ### Sections of a file -/

/-- Where a section of a file belongs. -/
inductive Heading where
  /-- The beginning of the file, before any header. -/
  | root
  | table (path : List String) (name : String)
  /-- The next table of a list. -/
  | row (path : List String) (name : String)
  deriving DecidableEq, Repr

/-- A file as far as it has been read: the complete tables, and the section that is being read. -/
structure Assembly where
  complete : Items
  heading : Heading
  members : Items
  deriving Repr

namespace Assembly

/-- Nothing read yet. -/
def start : Assembly := ⟨[], .root, []⟩

/-- The tables after the section has ended. -/
def close (a : Assembly) : Option Items :=
  match a.heading with
  | .root => some a.members
  | .table path name =>
    Items.change .passage
      (fun _ inner => some (inner.put name (.table .header a.members))) path .header a.complete
  | .row path name =>
    Items.change .passage
      (fun _ inner =>
        match inner.lookup name with
        | none => some (inner.put name (.tables [a.members]))
        | some (.tables rows) => some (inner.put name (.tables (rows ++ [a.members])))
        | some _ => none)
      path .header a.complete

/-- The members of the table at the end of a path, if it has begun. -/
def membersAt? : List String → Items → Option Items
  | [], members => some members
  | name :: path, members =>
    match members.lookup name with
    | some (.table _ inner) => membersAt? path inner
    | some (.tables rows) => rows.getLast?.bind (membersAt? path)
    | _ => none

/-- Begins the section of a table. A table that has come to be as a passage to others is taken up
with its members; in any other way it must not have come to be. -/
def openTable (path : List String) (name : String) (a : Assembly) : Option Assembly := do
  let complete ← a.close
  -- What a passage to other tables has begun goes on in the section, and leaves its old place.
  let members :=
    match (membersAt? path complete).bind fun inner => inner.lookup name with
    | some (.table .passage members) => members
    | _ => []
  let complete ←
    Items.change .passage
      (fun _ inner =>
        match inner.lookup name with
        | none => some inner
        | some (.table .passage _) => some (inner.erase name)
        | some _ => none)
      path .header complete
  some ⟨complete, .table path name, members⟩

/-- Begins the section of the next table of a list. -/
def openRow (path : List String) (name : String) (a : Assembly) : Option Assembly := do
  let complete ← a.close
  let complete ←
    Items.change .passage
      (fun _ inner =>
        match inner.lookup name with
        | none | some (.tables _) => some inner
        | some _ => none)
      path .header complete
  some ⟨complete, .row path name, []⟩

/-- Adds a value to the section. -/
def addValue (path : List String) (name : String) (value : Document) (a : Assembly) :
    Option Assembly := do
  some { a with members := ← Items.addValue path name value .header a.members }

/-- What the whole file says. -/
def finish (a : Assembly) : Option Document := a.close.map fun items => .table (documents items)

end Assembly

end LinkQuery.Toml
