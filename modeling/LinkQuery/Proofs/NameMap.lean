import LinkQuery.NameMap
import Mathlib.Data.List.Induction
import Mathlib.Data.List.Nodup
import Mathlib.Data.List.Sort

/-!
# Maps from names are made of their entries

The entries of a map are in the order of their names, so they are determined by what entries there
are. What a map is made of may therefore stand in any order, as long as no name is given twice.

* `NameMap.perm_entries_ofList`: a map has the entries that it is made of.
* `NameMap.ofList_eq_of_perm`: their order is of no matter.
* `NameMap.ofList_entries`: every map is made of its entries.
-/

namespace LinkQuery.NameMap

variable {α : Type}

/-- A new name is added to the entries. -/
theorem perm_insertEntry {name : String} (value : α) {entries : List (String × α)}
    (h : ∀ e ∈ entries, e.1 ≠ name) :
    (insertEntry name value entries).Perm ((name, value) :: entries) := by
  induction entries with
  | nil => exact .refl _
  | cons head rest ih =>
    obtain ⟨n, v⟩ := head
    have hne : name ≠ n := fun heq => h (n, v) List.mem_cons_self heq.symm
    rw [insertEntry, if_neg hne]
    -- the entry is put before the first that it precedes
    split
    · exact .refl _
    · have hrest := ih fun e he => h e (List.mem_cons_of_mem _ he)
      exact (hrest.cons (n, v)).trans (.swap (name, value) (n, v) rest)

/-- Of distinct names, a map has the entries that it is made of. -/
theorem perm_entries_ofList {entries : List (String × α)} (h : (entries.map (·.1)).Nodup) :
    (ofList entries).entries.Perm entries := by
  induction entries using List.reverseRecOn with
  | nil => exact .refl _
  | append_singleton entries last ih =>
    rw [List.map_append, List.map_singleton, List.nodup_append] at h
    have hperm := ih h.1
    -- the last name is new, so its entry is inserted and replaces none
    have hnew : ∀ e ∈ (ofList entries).entries, e.1 ≠ last.1 := fun e he =>
      h.2.2 e.1 (List.mem_map_of_mem (hperm.mem_iff.1 he)) last.1 (List.mem_singleton.2 rfl)
    have hlast : (ofList (entries ++ [last])).entries =
        insertEntry last.1 last.2 (ofList entries).entries := by
      rw [ofList, List.foldl_append, List.foldl_cons, List.foldl_nil, entries_insert, ofList]
    rw [hlast]
    calc
      List.Perm _ (last :: (ofList entries).entries) := perm_insertEntry last.2 hnew
      List.Perm _ (last :: entries) := hperm.cons last
      List.Perm _ (entries ++ [last]) := (List.perm_append_singleton last entries).symm

/-- Entries in the order of their names are determined by what entries there are. -/
theorem eq_of_perm {map map' : NameMap α} (h : map.entries.Perm map'.entries) : map = map' := by
  -- two sorted lists of the same entries agree when entries in both orders are equal
  have hantisymm : ∀ a b : String × α, a ∈ map.entries → b ∈ map'.entries →
      Text.precedes a.1 b.1 → Text.precedes b.1 a.1 → a = b := by
    intro a b _ _ hab hba
    have hself := Text.precedes_trans hab hba
    rw [Text.precedes_irrefl] at hself
    contradiction
  have hentries : map.entries = map'.entries := h.eq_of_pairwise hantisymm map.sorted map'.sorted
  cases map
  cases map'
  cases hentries
  rfl

/-- **The order in which a map is written is of no matter**, if no name is written twice. -/
theorem ofList_eq_of_perm {entries entries' : List (String × α)}
    (hnodup : (entries.map (·.1)).Nodup)
    (h : entries.Perm entries') : ofList entries = ofList entries' := by
  have hnodup' : (entries'.map (·.1)).Nodup := (h.map _).nodup_iff.1 hnodup
  exact eq_of_perm (((perm_entries_ofList hnodup).trans h).trans (perm_entries_ofList hnodup').symm)

/-- No name is in a map twice, as the names ascend. -/
theorem nodup_names (map : NameMap α) : (map.entries.map (·.1)).Nodup := by
  refine List.pairwise_map.2 (map.sorted.imp fun hprecedes heq => ?_)
  rw [heq, Text.precedes_irrefl] at hprecedes
  contradiction

/-- A map is made of its entries. -/
theorem ofList_entries (map : NameMap α) : ofList map.entries = map :=
  eq_of_perm (perm_entries_ofList map.nodup_names)

end LinkQuery.NameMap
