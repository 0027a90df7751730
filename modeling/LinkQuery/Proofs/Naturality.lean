import LinkQuery.Emit
import LinkQuery.Proofs.Outcome

/-!
# Conditions are carried along

A statement is built of the names that have to be looked up, and it takes the conditions on the rows
of each table as they are. So whether there is a statement does not depend on the conditions, and if
others stand in their places, others stand in the same places of the statement.

* `Restriction.mapConditions`, `Outline.mapConditions` and `Sql.Select.mapConditions` put other
  conditions in the places of the conditions.
* `Outline.overlay_mapConditions` and `Outline.select_mapConditions`: laying a selection over a
  restriction and making a select of the outline carry the conditions along.
* `Sql.SelectStatement.build_mapConditions` says so of whole statements.
-/

namespace LinkQuery

variable {g : Sql.Condition → Sql.Condition}

/-! ### Restrictions -/

namespace Restriction

mutual

/-- The restriction with other conditions. -/
def mapConditions (g : Sql.Condition → Sql.Condition) : Restriction → Restriction
  | ⟨own, links⟩ => ⟨own.map g, linksMapConditions g links⟩

/-- The restrictions behind links with other conditions. -/
def linksMapConditions (g : Sql.Condition → Sql.Condition) :
    List (String × Restriction) → List (String × Restriction)
  | [] => []
  | (name, r) :: rest => (name, mapConditions g r) :: linksMapConditions g rest

end

/-- The links keep their names and their order. -/
theorem linksMapConditions_eq_map (links : List (String × Restriction)) :
    linksMapConditions g links = links.map (Prod.map id (mapConditions g)) := by
  induction links with
  | nil => rw [linksMapConditions, List.map_nil]
  | cons link rest ih =>
    obtain ⟨name, r⟩ := link
    rw [linksMapConditions, ih, List.map_cons]
    rfl

mutual

/-- A restriction is trivial because of where it has conditions, whatever they are. -/
theorem isTrivial_mapConditions (r : Restriction) :
    (r.mapConditions g).isTrivial = r.isTrivial := by
  match r with
  | ⟨own, links⟩ =>
    rw [mapConditions, isTrivial, isTrivial, Option.isNone_map,
      areTrivial_linksMapConditions links]

theorem areTrivial_linksMapConditions (links : List (String × Restriction)) :
    areTrivial (linksMapConditions g links) = areTrivial links := by
  match links with
  | [] => rw [linksMapConditions]
  | (name, r) :: rest =>
    rw [linksMapConditions, areTrivial, areTrivial, isTrivial_mapConditions r,
      areTrivial_linksMapConditions rest]

end

theorem links_mapConditions (r : Restriction) :
    (r.mapConditions g).links = linksMapConditions g r.links := by
  obtain ⟨own, links⟩ := r
  rw [mapConditions]

theorem own_mapConditions (r : Restriction) : (r.mapConditions g).own = r.own.map g := by
  obtain ⟨own, links⟩ := r
  rw [mapConditions]

theorem mapConditions_trivial : mapConditions g trivial = trivial := rfl

/-- What is behind a link is looked up by its name. -/
theorem link?_mapConditions (r : Restriction) (name : String) :
    (r.mapConditions g).link? name = (r.link? name).map (mapConditions g) := by
  rw [link?, link?, links_mapConditions]
  induction r.links with
  | nil => rfl
  | cons link rest ih =>
    obtain ⟨n, sub⟩ := link
    rw [linksMapConditions, List.lookup_cons, List.lookup_cons, ih]
    cases name == n <;> rfl

/-- The links with conditions behind them stay the same. -/
theorem map_fst_effectiveLinks_mapConditions (r : Restriction) :
    (r.mapConditions g).effectiveLinks.map (·.1) = r.effectiveLinks.map (·.1) := by
  rw [effectiveLinks, effectiveLinks, links_mapConditions]
  induction r.links with
  | nil => rfl
  | cons link rest ih =>
    obtain ⟨n, sub⟩ := link
    rw [linksMapConditions, List.filter_cons, List.filter_cons]
    simp only [isTrivial_mapConditions]
    split
    · exact congrArg (n :: ·) ih
    · exact ih

end Restriction

/-! ### Outlines -/

namespace Outline

mutual

/-- The outline with other conditions. -/
def mapConditions (g : Sql.Condition → Sql.Condition) : Outline → Outline
  | ⟨columns, condition, links, demanded⟩ =>
    ⟨columns, condition.map g, linksMapConditions g links, demanded⟩

/-- The outlines of links with other conditions. -/
def linksMapConditions (g : Sql.Condition → Sql.Condition) :
    List (String × Bool × Outline) → List (String × Bool × Outline)
  | [] => []
  | (name, demanded, outline) :: rest =>
    (name, demanded, mapConditions g outline) :: linksMapConditions g rest

end

theorem linksMapConditions_append (links others : List (String × Bool × Outline)) :
    linksMapConditions g (links ++ others) =
      linksMapConditions g links ++ linksMapConditions g others := by
  induction links with
  | nil => rw [linksMapConditions, List.nil_append, List.nil_append]
  | cons link rest ih =>
    obtain ⟨name, demanded, outline⟩ := link
    rw [List.cons_append, linksMapConditions, linksMapConditions, ih, List.cons_append]

/-- Links are chosen by their names, which do not change. -/
theorem linksMapConditions_filter (p : String → Bool) (links : List (String × Bool × Outline)) :
    linksMapConditions g (links.filter fun link => p link.1) =
      (linksMapConditions g links).filter fun link => p link.1 := by
  induction links with
  | nil => rw [List.filter_nil, linksMapConditions, List.filter_nil]
  | cons link rest ih =>
    obtain ⟨name, demanded, outline⟩ := link
    rw [List.filter_cons, linksMapConditions, List.filter_cons]
    dsimp only
    split
    · rw [linksMapConditions, ih]
    · exact ih

theorem map_fst_linksMapConditions (links : List (String × Bool × Outline)) :
    (linksMapConditions g links).map (·.1) = links.map (·.1) := by
  induction links with
  | nil => rw [linksMapConditions]
  | cons link rest ih =>
    obtain ⟨name, demanded, outline⟩ := link
    rw [linksMapConditions, List.map_cons, List.map_cons, ih]

/-- The links of an outline keep their names. -/
theorem linkNames_mapConditions (outline : Outline) :
    (outline.mapConditions g).linkNames = outline.linkNames := by
  obtain ⟨columns, condition, links, demanded⟩ := outline
  rw [mapConditions]
  exact map_fst_linksMapConditions links

/-- The links that are demanded stay the same. -/
theorem demanded_mapConditions (outline : Outline) :
    (outline.mapConditions g).demanded = outline.demanded := by
  obtain ⟨columns, condition, links, demanded⟩ := outline
  rw [mapConditions]

mutual

/-- An outline of a restriction alone has the conditions of the restriction. -/
theorem ofRestriction_mapConditions (r : Restriction) :
    ofRestriction (r.mapConditions g) = (ofRestriction r).mapConditions g := by
  match r with
  | ⟨own, links⟩ =>
    have hdemanded := Restriction.map_fst_effectiveLinks_mapConditions (g := g) ⟨own, links⟩
    -- the demanded links are told by their names, so they are known before the links are gone
    -- through
    rw [Restriction.mapConditions] at hdemanded ⊢
    rw [ofRestriction, ofRestriction, mapConditions, ofLinks_mapConditions links, hdemanded]

theorem ofLinks_mapConditions (links : List (String × Restriction)) :
    ofLinks (Restriction.linksMapConditions g links) = linksMapConditions g (ofLinks links) := by
  match links with
  | [] => rw [Restriction.linksMapConditions, ofLinks, linksMapConditions]
  | (name, r) :: rest =>
    rw [Restriction.linksMapConditions, ofLinks, ofLinks, Restriction.isTrivial_mapConditions]
    split
    · exact ofLinks_mapConditions rest
    · rw [linksMapConditions, ofRestriction_mapConditions r, ofLinks_mapConditions rest]

end

mutual

/-- **Laying a selection over a restriction carries the conditions along.** -/
theorem overlay_mapConditions (selection : Selection) (r : Restriction) :
    overlay selection (r.mapConditions g) = (overlay selection r).mapConditions g := by
  match selection with
  | ⟨columns, links⟩ =>
    rw [overlay, overlay, mapConditions, Restriction.own_mapConditions,
      Restriction.links_mapConditions, linksMapConditions_append,
      linksMapConditions_filter (fun name => !(links.map (·.1)).contains name),
      overlayLinks_mapConditions links r, ofLinks_mapConditions,
      Restriction.map_fst_effectiveLinks_mapConditions]

theorem overlayLinks_mapConditions (links : List (String × Selection)) (r : Restriction) :
    overlayLinks links (r.mapConditions g) = linksMapConditions g (overlayLinks links r) := by
  match links with
  | [] => rw [overlayLinks, overlayLinks, linksMapConditions]
  | (name, selection) :: rest =>
    -- whether anything is demanded behind the link does not depend on the conditions
    have hdemand : (((r.mapConditions g).link? name).filter fun sub => !sub.isTrivial) =
        ((r.link? name).filter fun sub => !sub.isTrivial).map (Restriction.mapConditions g) := by
      rw [Restriction.link?_mapConditions, Option.filter_map]
      simp only [Function.comp_def, Restriction.isTrivial_mapConditions]
    rw [overlayLinks, overlayLinks, overlayLinks_mapConditions rest r, hdemand]
    cases (r.link? name).filter fun sub => !sub.isTrivial with
    | none =>
      -- a link that is only selected is laid over no condition at all
      have hselection := overlay_mapConditions selection .trivial
      rw [Restriction.mapConditions_trivial] at hselection
      rw [linksMapConditions]
      exact congrArg (fun outline => (name, false, outline) :: _) hselection
    | some sub =>
      rw [linksMapConditions]
      exact congrArg (fun outline => (name, true, outline) :: _)
        (overlay_mapConditions selection sub)

end

end Outline

/-! ### Selects -/

namespace Sql.Select

mutual

/-- The select with other conditions. -/
def mapConditions (g : Condition → Condition) : Select → Select
  | level columns links table asName correlation condition =>
    level columns (linksMapConditions g links) table asName correlation (condition.map g)
  | whereLinked inner link => whereLinked (mapConditions g inner) link

/-- The selects of linked rows with other conditions. -/
def linksMapConditions (g : Condition → Condition) :
    List (String × Bool × Select) → List (String × Bool × Select)
  | [] => []
  | (name, demanded, inner) :: rest =>
    (name, demanded, mapConditions g inner) :: linksMapConditions g rest

end

end Sql.Select

namespace Outline

variable (schema : Schema)

/-- Selecting rows by their links leaves the conditions inside. -/
theorem enclose_mapConditions (s : Sql.Select) (demanded : List String) :
    enclose (s.mapConditions g) demanded = (enclose s demanded).mapConditions g := by
  unfold enclose
  induction demanded generalizing s with
  | nil => rfl
  | cons name rest ih =>
    rw [List.foldl_cons, List.foldl_cons, ← ih, Sql.Select.mapConditions]

mutual

/-- **A select takes the conditions of its outline as they are.** -/
theorem select_mapConditions (table : Table) (correlation : Option Sql.Correlation)
    (asName : Option String) (extra : List String) (outline : Outline) :
    (outline.mapConditions g).select schema table correlation asName extra =
      (outline.select schema table correlation asName extra).map (·.mapConditions g) := by
  match outline with
  | ⟨columns, condition, links, demanded⟩ =>
    -- the links are selected first, and what encloses the level only sees which of them are
    -- demanded
    rw [mapConditions, select, select, selectLinks_mapConditions table _ links, bind_of_map,
      map_of_bind, map_fst_linksMapConditions]
    refine bind_congr fun inner => ?_
    rw [Except.map, ← enclose_mapConditions, Sql.Select.mapConditions]

/-- The selects of links take the conditions of their outlines. -/
theorem selectLinks_mapConditions (table : Table) (visible : String)
    (links : List (String × Bool × Outline)) :
    selectLinks schema table visible (linksMapConditions g links) =
      (selectLinks schema table visible links).map (Sql.Select.linksMapConditions g) := by
  match links with
  | [] =>
    rw [linksMapConditions, selectLinks, Except.map, Sql.Select.linksMapConditions]
  | (name, demanded, outline) :: rest =>
    rw [linksMapConditions, selectLinks, selectLinks]
    cases table.link? name with
    | none => rfl
    | some link =>
      -- the same names are looked up on both sides, and what is found there is carried along
      dsimp only
      rw [map_of_bind]
      refine bind_congr fun target => ?_
      rw [select_mapConditions target _ _ [] outline, bind_of_map, map_of_bind]
      refine bind_congr fun inner => ?_
      rw [selectLinks_mapConditions table visible rest, bind_of_map, map_of_bind]
      refine bind_congr fun others => ?_
      rw [Except.map, Sql.Select.linksMapConditions]

end

end Outline

/-! ### Statements -/

namespace Sql.SelectStatement

/-- The statement with other conditions. -/
def mapConditions (g : Condition → Condition) (s : SelectStatement) : SelectStatement :=
  { s with select := s.select.mapConditions g }

/-- **A statement takes the conditions of a restriction as they are.** Whether there is one does not
depend on them. -/
theorem build_mapConditions (schema : Schema) (tableName : String) (selection : Selection)
    (r : Restriction) (order : List SortTerm) (limit : Option (Nat × Nat)) :
    build schema tableName selection (r.mapConditions g) order limit =
      (build schema tableName selection r order limit).map (mapConditions g) := by
  unfold build
  rw [map_of_bind]
  refine bind_congr fun table => ?_
  dsimp only
  -- the order is checked against the names of the links alone
  rw [Outline.overlay_mapConditions, Outline.linkNames_mapConditions,
    Outline.demanded_mapConditions, map_of_bind]
  refine bind_congr fun _ => ?_
  rw [Outline.select_mapConditions, bind_of_map, map_of_bind]
  exact bind_congr fun _ => rfl

end Sql.SelectStatement

end LinkQuery
