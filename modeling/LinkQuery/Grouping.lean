/-!
# Grouping by name

Items that carry a name are collected under their names. The groups stand in the order in which
their names first appear, and the items of a group in the order in which they stand.

* `itemsUnder name items` are the items of one name, `groupByName items` are all groups.
-/

namespace LinkQuery

variable {α : Type}

/-- The items of the given name. -/
def itemsUnder (name : String) (items : List (String × α)) : List α :=
  items.filterMap fun (n, item) => if n = name then some item else none

/-- The items under each name. -/
def groupByName (items : List (String × α)) : List (String × List α) :=
  (items.map (·.1)).eraseDups.map fun name => (name, itemsUnder name items)

@[simp] theorem mem_itemsUnder {name : String} {items : List (String × α)} {item : α} :
    item ∈ itemsUnder name items ↔ (name, item) ∈ items := by
  simp only [itemsUnder, List.mem_filterMap]
  constructor
  · rintro ⟨⟨n, x⟩, h, hx⟩
    split at hx <;> simp_all
  · exact fun h => ⟨(name, item), h, by simp⟩

theorem mem_of_mem_groupByName {items : List (String × α)} {group : String × List α}
    (h : group ∈ groupByName items) {item : α} (hitem : item ∈ group.2) :
    (group.1, item) ∈ items := by
  obtain ⟨name, _, rfl⟩ := List.mem_map.1 h
  exact mem_itemsUnder.1 hitem

/-- No group is empty: its name comes from one of its items. -/
theorem exists_mem_of_mem_groupByName {items : List (String × α)} {group : String × List α}
    (h : group ∈ groupByName items) : ∃ item, item ∈ group.2 := by
  obtain ⟨name, hname, rfl⟩ := List.mem_map.1 h
  obtain ⟨⟨n, item⟩, hmem, rfl⟩ := List.mem_map.1 (List.mem_eraseDups.1 hname)
  exact ⟨item, mem_itemsUnder.2 hmem⟩

end LinkQuery
