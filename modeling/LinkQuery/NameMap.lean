import LinkQuery.Text.NameOrder

/-!
# Maps from names

A map from names lists its entries in the order of their names, each name once; the order of names
is `Text.precedes`. It is part of the type, so two maps with the same entries are equal, and a map
is traversed in the same order wherever it came from.

* `NameMap.get?` looks a name up, `NameMap.insert` sets its value.
* `NameMap.ofList` is the map with the given entries, of which the last of one name counts.
-/

namespace LinkQuery

/-- A finite map from names to values. -/
structure NameMap (α : Type) where
  /-- The entries, in increasing order of their names. -/
  entries : List (String × α)
  sorted : entries.Pairwise fun a b => Text.precedes a.1 b.1
  deriving DecidableEq, Repr

namespace NameMap

variable {α : Type}

/-- The map without entries. -/
def empty : NameMap α := ⟨[], .nil⟩

instance : Inhabited (NameMap α) := ⟨empty⟩

instance : EmptyCollection (NameMap α) := ⟨empty⟩

/-- Puts an entry where the order wants it, in place of one of the same name. -/
def insertEntry (name : String) (value : α) : List (String × α) → List (String × α)
  | [] => [(name, value)]
  | (n, v) :: rest =>
    if Text.precedes name n then (name, value) :: (n, v) :: rest
    else if name = n then (name, value) :: rest
    else (n, v) :: insertEntry name value rest

theorem mem_insertEntry {name : String} {value : α} {entries : List (String × α)} {e : String × α}
    (h : e ∈ insertEntry name value entries) : e = (name, value) ∨ e ∈ entries := by
  induction entries with
  | nil => simpa [insertEntry] using h
  | cons head rest ih =>
    obtain ⟨n, v⟩ := head
    simp only [insertEntry] at h
    split at h
    · simpa using h
    · split at h
      · rcases List.mem_cons.1 h with h | h <;> simp [h]
      · rcases List.mem_cons.1 h with h | h
        · simp [h]
        · rcases ih h with h | h <;> simp [h]

theorem pairwise_insertEntry (name : String) (value : α) {entries : List (String × α)}
    (h : entries.Pairwise fun a b => Text.precedes a.1 b.1) :
    (insertEntry name value entries).Pairwise fun a b => Text.precedes a.1 b.1 := by
  induction entries with
  | nil => simp [insertEntry]
  | cons head rest ih =>
    obtain ⟨n, v⟩ := head
    have hrest := List.pairwise_cons.1 h
    simp only [insertEntry]
    split
    next hlt =>
      refine List.pairwise_cons.2 ⟨fun e he => ?_, h⟩
      rcases List.mem_cons.1 he with he | he
      · simpa [he] using hlt
      · exact Text.precedes_trans hlt (hrest.1 e he)
    next hlt =>
      split
      next heq =>
        refine List.pairwise_cons.2 ⟨fun e he => ?_, hrest.2⟩
        simpa [heq] using hrest.1 e he
      next hne =>
        refine List.pairwise_cons.2 ⟨fun e he => ?_, ih hrest.2⟩
        rcases mem_insertEntry he with he | he
        · subst he
          rcases Text.precedes_trichotomy name n with h | h | h
          · exact absurd h hlt
          · exact absurd h hne
          · exact h
        · exact hrest.1 e he

/-- Sets the value of a name. -/
def insert (name : String) (value : α) (map : NameMap α) : NameMap α :=
  ⟨insertEntry name value map.entries, pairwise_insertEntry name value map.sorted⟩

/-- The value of a name. -/
def get? (map : NameMap α) (name : String) : Option α := map.entries.lookup name

/-- The map with the given entries, of which the last of one name counts. -/
def ofList (entries : List (String × α)) : NameMap α :=
  entries.foldl (fun map (name, value) => map.insert name value) empty

/-- The names, in order. -/
def names (map : NameMap α) : List String := map.entries.map (·.1)

/-- The values, in the order of their names. -/
def values (map : NameMap α) : List α := map.entries.map (·.2)

@[simp] theorem entries_empty : (empty : NameMap α).entries = [] := rfl

@[simp] theorem entries_insert (name : String) (value : α) (map : NameMap α) :
    (map.insert name value).entries = insertEntry name value map.entries := rfl

end NameMap

end LinkQuery
