import LinkQuery.Json.Value
import Mathlib.Data.List.Induction
import Mathlib.Data.List.Nodup

/-!
# Members of objects

Setting a member never makes a name occur twice, and it changes no other member. So what is
collected from written members has distinct names, and is what was written if there the names were
distinct already.

* `Members.collect_spec`: the names are distinct, and each member is one that was written.
* `Members.collect_of_nodup`: members with distinct names are collected as they are.
* `Members.get?_collect`: of several members of one name the last one counts.
-/

namespace LinkQuery.Json.Members

/-! ### The names -/

/-- What is a member after a value was put is that value or was one before. -/
theorem mem_of_mem_put {name : String} {value : Value} {members : Members} {m : String × Value}
    (h : m ∈ put name value members) : m = (name, value) ∨ m ∈ members := by
  induction members with
  | nil => exact .inl (List.mem_singleton.1 h)
  | cons first rest ih =>
    obtain ⟨n, v⟩ := first
    unfold put at h
    split at h
    -- the value of the first member is replaced
    next heq =>
      rcases List.mem_cons.1 h with rfl | h
      · exact .inl (by rw [heq])
      · exact .inr (List.mem_cons_of_mem _ h)
    -- the member is put further on
    next =>
      rcases List.mem_cons.1 h with rfl | h
      · exact .inr List.mem_cons_self
      · exact (ih h).imp id (List.mem_cons_of_mem _)

/-- A new name is put at the end, and one that is there stays at its place. -/
theorem map_fst_put (name : String) (value : Value) (members : Members) :
    (put name value members).map (·.1) =
      if name ∈ members.map (·.1) then members.map (·.1) else members.map (·.1) ++ [name] := by
  induction members with
  | nil => rfl
  | cons first rest ih =>
    obtain ⟨n, v⟩ := first
    unfold put
    by_cases heq : n = name
    · simp [heq]
    · -- another name is first, so the rest tells whether the name is new
      have hne : name ≠ n := fun h => heq h.symm
      rw [if_neg heq, List.map_cons, ih]
      by_cases hmem : name ∈ rest.map (·.1) <;> simp [hne, hmem]

/-- Putting a value keeps the names distinct. -/
theorem nodup_put {name : String} {value : Value} {members : Members}
    (h : (members.map (·.1)).Nodup) : ((put name value members).map (·.1)).Nodup := by
  rw [map_fst_put]
  split
  · exact h
  -- a new name comes last
  next hnew =>
    refine List.nodup_append.2 ⟨h, List.nodup_cons.2 ⟨nofun, List.nodup_nil⟩, ?_⟩
    rintro a ha b hb rfl
    obtain rfl := List.mem_singleton.1 hb
    exact hnew ha

/-- Collected members have distinct names, and each of them is written. -/
theorem collect_spec (written : Members) :
    ((collect written).map (·.1)).Nodup ∧ ∀ m ∈ collect written, m ∈ written := by
  -- along what is still to be written, over what was collected before
  have hfold : ∀ (rest before : Members), (before.map (·.1)).Nodup →
      ((rest.foldl (fun members m => put m.1 m.2 members) before).map (·.1)).Nodup ∧
        ∀ m ∈ rest.foldl (fun members m => put m.1 m.2 members) before, m ∈ before ∨ m ∈ rest := by
    intro rest
    induction rest with
    | nil => exact fun before hbefore => ⟨hbefore, fun m hm => .inl hm⟩
    | cons first rest ih =>
      intro before hbefore
      obtain ⟨hnodup, hmem⟩ := ih (put first.1 first.2 before) (nodup_put hbefore)
      refine ⟨hnodup, fun m hm => ?_⟩
      rcases hmem m hm with hput | hrest
      · rcases mem_of_mem_put hput with rfl | hbefore
        · exact .inr List.mem_cons_self
        · exact .inl hbefore
      · exact .inr (List.mem_cons_of_mem _ hrest)
  obtain ⟨hnodup, hmem⟩ := hfold written [] List.nodup_nil
  exact ⟨hnodup, fun m hm => (hmem m hm).resolve_left List.not_mem_nil⟩

/-- A value under a new name comes last. -/
theorem put_of_not_mem {name : String} {value : Value} {members : Members}
    (h : name ∉ members.map (·.1)) : put name value members = members ++ [(name, value)] := by
  induction members with
  | nil => rfl
  | cons m ms ih =>
    obtain ⟨n, v⟩ := m
    rw [List.map_cons, List.mem_cons, not_or] at h
    rw [put, if_neg fun heq => h.1 heq.symm, ih h.2]
    rfl

/-- Members with distinct names are collected as they are. -/
theorem collect_of_nodup {members : Members} (h : (members.map (·.1)).Nodup) :
    collect members = members := by
  -- along what is still to be written, as long as no name was met before
  have hfold : ∀ (before written : Members), ((before ++ written).map (·.1)).Nodup →
      written.foldl (fun members m => put m.1 m.2 members) before = before ++ written := by
    intro before written hnodup
    induction written generalizing before with
    | nil => rw [List.foldl_nil, List.append_nil]
    | cons m ms ih =>
      have hnew : m.1 ∉ before.map (·.1) := by
        rw [List.map_append, List.map_cons] at hnodup
        have hdisjoint := (List.nodup_append.1 hnodup).2.2
        exact fun hmem => hdisjoint m.1 hmem m.1 List.mem_cons_self rfl
      have happend : before ++ m :: ms = (before ++ [m]) ++ ms := by simp
      rw [List.foldl_cons]
      show ms.foldl _ (put m.1 m.2 before) = _
      rw [put_of_not_mem hnew, happend]
      exact ih _ (happend ▸ hnodup)
  exact hfold [] members h

/-! ### The values -/

/-- The first member is found under its name, any other further on. -/
theorem get?_cons (name : String) (value : Value) (members : Members) (other : String) :
    get? ((name, value) :: members) other =
      if other = name then some value else members.get? other := by
  by_cases h : other = name
  · rw [if_pos h, h]
    exact List.lookup_cons_self
  · have hbeq : (other == name) = false := by simpa using h
    rw [if_neg h, get?, List.lookup_cons, hbeq]
    rfl

/-- The value under a name is the one that was put there. -/
theorem get?_put (name : String) (value : Value) (members : Members) (other : String) :
    (put name value members).get? other =
      if other = name then some value else members.get? other := by
  induction members with
  | nil => exact get?_cons name value [] other
  | cons member members ih =>
    obtain ⟨n, v⟩ := member
    rw [put, get?_cons]
    by_cases hn : n = name
    · rw [if_pos hn, get?_cons, hn]
      split <;> rfl
    · -- the first member is passed over by both
      rw [if_neg hn, get?_cons, ih]
      by_cases hother : other = n
      · rw [if_pos hother, if_pos hother, if_neg (hother ▸ hn)]
      · rw [if_neg hother, if_neg hother]

/-- Of several members of one name the last one counts. -/
theorem get?_collect (written : Members) (name : String) :
    (collect written).get? name = written.reverse.lookup name := by
  induction written using List.reverseRecOn with
  | nil => rfl
  | append_singleton written last ih =>
    obtain ⟨n, value⟩ := last
    rw [collect] at ih
    rw [collect, List.foldl_append, List.foldl_cons, List.foldl_nil, get?_put, ih,
      List.reverse_append, List.reverse_singleton, List.singleton_append, List.lookup_cons]
    by_cases h : name = n
    · simp [h]
    · have hbeq : (name == n) = false := by simpa using h
      rw [if_neg h, hbeq]

end LinkQuery.Json.Members
