import LinkQuery.Proofs.Operands.Statement

/-!
# The places of parameters

Which operand a parameter of a level is does not depend on what the operands are: it is the operand
at a place of the filter that the links determine. So levels that mention the same links have their
parameters from the same places.

* `Mention.allOperands` are the operands of a filter in the order of the document, and
  `Mention.mapAll` puts others in their places.
* `Mention.params_mapAll`: then others stand in the places of the parameters.
* `Mention.places` are the places of the parameters of a level, and `Mention.exists_places`: two
  filters that differ in operands alone have their parameters from the same places.
-/

namespace LinkQuery

open Json (Value)

namespace Mention

mutual

/-- The operands of a mention, in the order of the document. -/
def operands : Mention → List Value
  | operand value => [value]
  | link _ inside => allOperands inside

/-- The operands of mentions, in the order of the document. -/
def allOperands : List Mention → List Value
  | [] => []
  | m :: rest => operands m ++ allOperands rest

end

mutual

/-- The mention with other operands. -/
def map (f : Value → Value) : Mention → Mention
  | operand value => operand (f value)
  | link name inside => link name (mapAll f inside)

/-- The mentions with other operands. -/
def mapAll (f : Value → Value) : List Mention → List Mention
  | [] => []
  | m :: rest => map f m :: mapAll f rest

end

variable {f : Value → Value}

theorem mapAll_append (ms ns : List Mention) :
    mapAll f (ms ++ ns) = mapAll f ms ++ mapAll f ns := by
  induction ms with
  | nil => rfl
  | cons m rest ih => rw [List.cons_append, mapAll, mapAll, ih, List.cons_append]

theorem mapAll_flatten (mss : List (List Mention)) :
    mapAll f mss.flatten = (mss.map (mapAll f)).flatten := by
  induction mss with
  | nil => rfl
  | cons ms rest ih =>
    rw [List.flatten_cons, mapAll_append, ih, List.map_cons, List.flatten_cons]

theorem allOperands_append (ms ns : List Mention) :
    allOperands (ms ++ ns) = allOperands ms ++ allOperands ns := by
  induction ms with
  | nil => rfl
  | cons m rest ih => rw [List.cons_append, allOperands, allOperands, ih, List.append_assoc]

theorem mapAll_map_operand (values : List Value) :
    mapAll f (values.map operand) = (values.map f).map operand := by
  induction values with
  | nil => rfl
  | cons value rest ih => rw [List.map_cons, mapAll, map, ih, List.map_cons, List.map_cons]

/-! ### Parameters with other operands -/

/-- Changing all operands changes those of the level itself. -/
theorem own_mapAll (ms : List Mention) : own (mapAll f ms) = (own ms).map f := by
  induction ms with
  | nil => rfl
  | cons m rest ih =>
    cases m with
    | operand value => exact congrArg (f value :: ·) ih
    | link name inside => exact ih

/-- Changing all operands changes those behind the links, under the same names. -/
theorem links_mapAll (ms : List Mention) :
    links (mapAll f ms) = (links ms).map (Prod.map id (mapAll f)) := by
  induction ms with
  | nil => rfl
  | cons m rest ih =>
    cases m with
    | operand value => exact ih
    | link name inside => exact congrArg ((name, mapAll f inside) :: ·) ih

/-- Grouping looks at the names of the links only. -/
theorem groups_mapAll (table : Table) (ms : List Mention) :
    groups table (mapAll f ms) = (groups table ms).map (Prod.map id (mapAll f)) := by
  -- changing the operands renames no link
  have hitems : ((links (mapAll f ms)).filterMap fun link =>
        (table.link? link.1).map fun found => (found.name, link.2)) =
      ((links ms).filterMap fun link =>
        (table.link? link.1).map fun found => (found.name, link.2)).map
          (Prod.map id (mapAll f)) := by
    rw [links_mapAll, List.filterMap_map, List.map_filterMap]
    refine List.filterMap_congr fun link _ => ?_
    obtain ⟨name, inside⟩ := link
    show (table.link? name).map _ = ((table.link? name).map _).map _
    cases table.link? name <;> rfl
  rw [groups, groups, hitems, groupByName_map, List.map_map, List.map_map]
  refine List.map_congr_left fun group _ => ?_
  exact congrArg (Prod.mk group.1) (mapAll_flatten group.2).symm

/-- So does arranging the groups for a selection. -/
theorem arranged_map (selection : Selection) (groups : List (String × List Mention)) :
    arranged selection (groups.map (Prod.map id (mapAll f))) =
      (arranged selection groups).map (Prod.map id (Prod.map id (mapAll f))) := by
  have hlookup (name : String) : (groups.map (Prod.map id (mapAll f))).lookup name =
      (groups.lookup name).map (mapAll f) := by
    induction groups with
    | nil => rfl
    | cons group rest ih =>
      obtain ⟨n, inside⟩ := group
      rw [List.map_cons, Prod.map_apply, id, List.lookup_cons, List.lookup_cons, ih]
      cases name == n <;> rfl
  -- which links are selected is a matter of their names
  rw [arranged, arranged, List.map_append, List.map_filterMap, List.filter_map, List.map_map,
    List.map_map]
  refine congrArg₂ (· ++ ·) (List.filterMap_congr fun link _ => ?_) rfl
  obtain ⟨name, sub⟩ := link
  dsimp only
  rw [hlookup]
  cases groups.lookup name <;> rfl

/-- **The parameters of a level come from places that do not depend on the operands**: with others
in the places of the operands, those are the parameters. -/
theorem params_mapAll (schema : Schema) (table : Table) (selection : Selection)
    (ms : List Mention) :
    params schema table selection (mapAll f ms) = (params schema table selection ms).map f := by
  -- what is mentioned behind a link goes one link less deep
  induction hdepth : depths ms using Nat.strongRecOn generalizing table selection ms with
  | _ depth ih =>
    rw [params_eq, params_eq, groups_mapAll, arranged_map, own_mapAll, List.map_append,
      List.map_flatMap, List.flatMap_map]
    refine congrArg (· ++ _) (List.flatMap_congr fun link hlink => ?_)
    obtain ⟨name, sub, inside⟩ := link
    show paramsBehind schema table name sub (mapAll f inside) =
      (paramsBehind schema table name sub inside).map f
    unfold paramsBehind
    cases schema.behind? table name with
    | none => rfl
    | some target =>
      have hless := depths_lt_of_mem_groups (mem_of_mem_arranged hlink)
      exact ih _ (hdepth ▸ hless) target sub inside rfl

/-! ### Every parameter is an operand -/

/-- The operands of the level itself are among all operands. -/
theorem mem_allOperands_of_mem_own {ms : List Mention} {value : Value} (h : value ∈ own ms) :
    value ∈ allOperands ms := by
  induction ms with
  | nil => simp [own] at h
  | cons m rest ih =>
    rw [allOperands, List.mem_append]
    -- an operand of this level, or one of a link
    cases m with
    | operand v =>
      rcases List.mem_cons.1 h with rfl | h
      · exact .inl (List.mem_singleton.2 rfl)
      · exact .inr (ih h)
    | link name inside => exact .inr (ih h)

/-- So are those behind a link. -/
theorem mem_allOperands_of_mem_links {ms : List Mention} {name : String} {inside : List Mention}
    (hlink : (name, inside) ∈ links ms) {value : Value} (h : value ∈ allOperands inside) :
    value ∈ allOperands ms := by
  induction ms with
  | nil => simp [links] at hlink
  | cons m rest ih =>
    rw [allOperands, List.mem_append]
    cases m with
    | operand v => exact .inr (ih hlink)
    | link n ms =>
      rcases List.mem_cons.1 hlink with heq | hlink
      · obtain ⟨rfl, rfl⟩ := Prod.mk.inj heq
        exact .inl h
      · exact .inr (ih hlink)

theorem mem_allOperands_flatten {mss : List (List Mention)} {value : Value} :
    value ∈ allOperands mss.flatten ↔ ∃ ms ∈ mss, value ∈ allOperands ms := by
  induction mss with
  | nil => simp [allOperands]
  | cons ms rest ih =>
    rw [List.flatten_cons, allOperands_append, List.mem_append, ih]
    simp

/-- So are those of a group of links. -/
theorem mem_allOperands_of_mem_groups {table : Table} {ms : List Mention} {name : String}
    {inside : List Mention} (hgroup : (name, inside) ∈ groups table ms) {value : Value}
    (h : value ∈ allOperands inside) : value ∈ allOperands ms := by
  obtain ⟨⟨n, insides⟩, hinsides, heq⟩ := List.mem_map.1 hgroup
  obtain ⟨rfl, rfl⟩ := Prod.mk.inj heq
  obtain ⟨part, hpart, hvalue⟩ := mem_allOperands_flatten.1 h
  -- the part stands behind a link that is mentioned
  obtain ⟨⟨n', part'⟩, hlink, hfound⟩ :=
    List.mem_filterMap.1 (mem_of_mem_groupByName hinsides hpart)
  obtain ⟨found, -, heq⟩ := Option.map_eq_some_iff.1 hfound
  obtain ⟨-, rfl⟩ := Prod.mk.inj heq
  exact mem_allOperands_of_mem_links hlink hvalue

/-- Only operands become parameters. -/
theorem mem_allOperands_of_mem_params {schema : Schema} {table : Table} {selection : Selection}
    {ms : List Mention} {value : Value} (h : value ∈ params schema table selection ms) :
    value ∈ allOperands ms := by
  -- on how deep the links are nested: those behind a link are nested less deep
  induction hdepth : depths ms using Nat.strongRecOn generalizing table selection ms with
  | _ depth ih =>
    rw [params_eq, List.mem_append, List.mem_flatMap] at h
    -- the parameters of the links come first, the own ones last
    rcases h with ⟨⟨name, sub, inside⟩, hlink, hvalue⟩ | hown
    · have hgroup := mem_of_mem_arranged hlink
      have hless := depths_lt_of_mem_groups hgroup
      dsimp only at hvalue
      unfold paramsBehind at hvalue
      split at hvalue
      · simp at hvalue
      · exact mem_allOperands_of_mem_groups hgroup (ih _ (hdepth ▸ hless) hvalue rfl)
    · exact mem_allOperands_of_mem_own hown

/-! ### Numbers for operands -/

mutual

/-- The mention with numbers for its operands, from `start` on. -/
def numbered (start : Nat) : Mention → Mention
  | operand _ => operand (.int start)
  | link name inside => link name (allNumbered start inside)

/-- The mentions with numbers for their operands, from `start` on. -/
def allNumbered (start : Nat) : List Mention → List Mention
  | [] => []
  | m :: rest => numbered start m :: allNumbered (start + (operands m).length) rest

end

/-- The place that a number stands for. -/
def place : Value → Nat
  | .int i => i.toNat
  | _ => 0

mutual

/-- The operands are those at the places that their numbers stand for. -/
theorem map_numbered (before after : List Value) (m : Mention) :
    (numbered before.length m).map
      (fun number => (before ++ (operands m ++ after)).getD (place number) .null) = m := by
  match m with
  | operand value =>
    rw [numbered, map]
    simp [place, operands]
  | link name inside =>
    rw [numbered, map, operands, mapAll_allNumbered before after inside]

/-- Numbered mentions are the mentions themselves once the numbers are looked up. -/
theorem mapAll_allNumbered (before after : List Value) (ms : List Mention) :
    mapAll (fun number => (before ++ (allOperands ms ++ after)).getD (place number) .null)
      (allNumbered before.length ms) = ms := by
  match ms with
  | [] => rfl
  | m :: rest =>
    -- the first mention takes the numbers right behind those before it
    have hfirst := map_numbered before (allOperands rest ++ after) m
    have hrest := mapAll_allNumbered (before ++ operands m) after rest
    rw [List.length_append, List.append_assoc] at hrest
    rw [allNumbered, mapAll, allOperands, List.append_assoc, hfirst, hrest]

end

mutual

/-- The numbers do not depend on the operands. -/
theorem numbered_map (start : Nat) (m : Mention) :
    numbered start (m.map f) = numbered start m ∧
      (operands (m.map f)).length = (operands m).length := by
  match m with
  | operand value => exact ⟨rfl, rfl⟩
  | link name inside =>
    obtain ⟨hnumbers, hlength⟩ := allNumbered_mapAll start inside
    rw [map, numbered, numbered, operands, operands, hnumbers, hlength]
    exact ⟨rfl, rfl⟩

/-- The numbers do not depend on the operands. -/
theorem allNumbered_mapAll (start : Nat) (ms : List Mention) :
    allNumbered start (mapAll f ms) = allNumbered start ms ∧
      (allOperands (mapAll f ms)).length = (allOperands ms).length := by
  match ms with
  | [] => exact ⟨rfl, rfl⟩
  | m :: rest =>
    obtain ⟨hfirst, hlength⟩ := numbered_map start m
    obtain ⟨hrest, hlengths⟩ := allNumbered_mapAll (start + (operands m).length) rest
    rw [mapAll, allNumbered, allNumbered, allOperands, allOperands, List.length_append,
      List.length_append, hfirst, hlength, hrest, hlengths]
    exact ⟨rfl, rfl⟩

end

mutual

theorem operands_numbered (start : Nat) (m : Mention) :
    operands (numbered start m) =
      (List.range' start (operands m).length).map fun number => .int number := by
  match m with
  | operand value => rfl
  | link name inside => rw [numbered, operands, operands, allOperands_allNumbered start inside]

/-- As many numbers are given as there are operands. -/
theorem allOperands_allNumbered (start : Nat) (ms : List Mention) :
    allOperands (allNumbered start ms) =
      (List.range' start (allOperands ms).length).map fun number => .int number := by
  match ms with
  | [] => rfl
  | m :: rest =>
    rw [allNumbered, allOperands, allOperands, operands_numbered start m,
      allOperands_allNumbered _ rest, List.length_append, ← List.map_append, List.range'_append_1]

end

/-! ### Filters that differ in operands alone -/

/-- The mentions without their operands, one standing for all. -/
def forest (ms : List Mention) : List Mention := mapAll (fun _ => .null) ms

/-- The places that the parameters of a level come from: the parameters of the numbers tell them. -/
def places (schema : Schema) (table : Table) (selection : Selection) (ms : List Mention) :
    List Nat :=
  (params schema table selection (allNumbered 0 ms)).map place

section Places

variable (schema : Schema) (table : Table) (selection : Selection)

/-- The parameters of a level are the operands at its places. -/
theorem params_eq_map_places (ms : List Mention) :
    params schema table selection ms =
      (places schema table selection ms).map ((allOperands ms).getD · .null) := by
  have hms := mapAll_allNumbered [] [] ms
  rw [List.nil_append, List.append_nil, List.length_nil] at hms
  rw [places, List.map_map]
  calc params schema table selection ms
      = params schema table selection (mapAll
          (fun number => (allOperands ms).getD (place number) .null) (allNumbered 0 ms)) := by
        rw [hms]
    _ = _ := params_mapAll schema table selection (allNumbered 0 ms)

/-- Every place is one of an operand. -/
theorem lt_of_mem_places {ms : List Mention} {i : Nat} (h : i ∈ places schema table selection ms) :
    i < (allOperands ms).length := by
  obtain ⟨number, hnumber, rfl⟩ := List.mem_map.1 h
  have hmem := mem_allOperands_of_mem_params hnumber
  rw [allOperands_allNumbered] at hmem
  obtain ⟨j, hj, rfl⟩ := List.mem_map.1 hmem
  have hless : j < 0 + (allOperands ms).length := (List.mem_range'_1.1 hj).2
  simpa [place] using hless

/-- Filters that differ in operands alone have the same numbers for them. -/
theorem allNumbered_congr {ms ms' : List Mention} (h : forest ms' = forest ms) (start : Nat) :
    allNumbered start ms' = allNumbered start ms := by
  rw [← (allNumbered_mapAll start ms').1, ← (allNumbered_mapAll start ms).1]
  exact congrArg (allNumbered start) h

/-- The places depend on the mentions but for their operands. -/
theorem places_congr {ms ms' : List Mention} (h : forest ms' = forest ms) :
    places schema table selection ms' = places schema table selection ms := by
  rw [places, places, allNumbered_congr h]

end Places

/-- **Filters that differ in operands alone have their parameters from the same places.** -/
theorem exists_places {ms ms' : List Mention} (h : forest ms' = forest ms) (schema : Schema)
    (table : Table) (selection : Selection) :
    ∃ places : List Nat, (∀ place ∈ places, place < (allOperands ms).length) ∧
      params schema table selection ms = places.map ((allOperands ms).getD · .null) ∧
      params schema table selection ms' = places.map ((allOperands ms').getD · .null) := by
  refine ⟨places schema table selection ms, fun i => lt_of_mem_places schema table selection,
    params_eq_map_places schema table selection ms, ?_⟩
  rw [← places_congr schema table selection h]
  exact params_eq_map_places schema table selection ms'

end Mention

end LinkQuery
