import LinkQuery.Proofs.Linked.Filters

/-!
# Statements that are not refused

A statement is refused if the name of a filtered link is not alone among what its level delivers.
Two things can stand beside it: the primary key, if the link has its name, and the column of the
link itself, where all columns of an open table are asked for. Nothing else can, as the columns with
the names of links are left out and no link is included twice.

* `Selection.IsDistinct` holds of every selection that paths describe
  (`Selection.isDistinct_ofPaths`).
* `Query.isClear_of_build`: over declared tables, none of whose links has the name of the primary
  key, no statement of a query is refused.
-/

namespace LinkQuery

open Sql

/-! ### Selections -/

namespace Selection

mutual

/-- No link is selected twice. -/
def IsDistinct : Selection → Prop
  | ⟨_, links⟩ => (links.map (·.1)).Nodup ∧ AreDistinct links

/-- The same behind links. -/
def AreDistinct : List (String × Selection) → Prop
  | [] => True
  | (_, selection) :: rest => IsDistinct selection ∧ AreDistinct rest

end

theorem areDistinct_iff {links : List (String × Selection)} :
    AreDistinct links ↔ ∀ link ∈ links, link.2.IsDistinct := by
  induction links with
  | nil => simp [AreDistinct]
  | cons link rest ih => simp [AreDistinct, ih]

theorem isDistinct_empty : empty.IsDistinct := ⟨List.nodup_nil, trivial⟩

/-- Changing a link adds its name at the end, unless it is there. -/
theorem map_fst_changeLink (change : Selection → Selection) (name : String)
    (links : List (String × Selection)) :
    (changeLink change name links).map (·.1) =
      if name ∈ links.map (·.1) then links.map (·.1) else links.map (·.1) ++ [name] := by
  -- along the links, up to the one of the name
  induction links with
  | nil => rfl
  | cons link rest ih =>
    obtain ⟨n, sub⟩ := link
    rw [changeLink]
    by_cases hname : n = name
    · simp [hname]
    · -- the name is new to the list if it is new to the rest
      rw [if_neg hname, List.map_cons, ih, List.map_cons]
      have hne : ¬ name = n := fun h => hname h.symm
      by_cases hmem : name ∈ rest.map (·.1)
      · simp [hmem]
      · simp [hmem, hne]

/-- Changing a link keeps what is behind the links distinct. -/
theorem areDistinct_changeLink {change : Selection → Selection}
    (hchange : ∀ selection : Selection, selection.IsDistinct → (change selection).IsDistinct)
    (name : String) {links : List (String × Selection)} (h : AreDistinct links) :
    AreDistinct (changeLink change name links) := by
  induction links with
  | nil => exact ⟨hchange empty isDistinct_empty, trivial⟩
  | cons link rest ih =>
    obtain ⟨n, sub⟩ := link
    rw [changeLink]
    -- the link is there and changed, or it is looked for further on
    split
    · exact ⟨hchange sub h.1, h.2⟩
    · exact ⟨h.1, ih h.2⟩

/-- Adding a column behind links keeps a selection distinct. -/
theorem IsDistinct.insert {column : String} {names : List String} {selection : Selection}
    (h : selection.IsDistinct) : (Selection.insert column names selection).IsDistinct := by
  induction names generalizing selection with
  | nil =>
    obtain ⟨columns, links⟩ := selection
    -- a terminal column adds to the columns and no link
    rw [insert_nil, addColumn]
    split
    · exact h
    · exact h
  | cons name rest ih =>
    obtain ⟨columns, links⟩ := selection
    refine ⟨?_, areDistinct_changeLink (fun sub hsub => ih hsub) name h.2⟩
    rw [map_fst_changeLink]
    by_cases hmem : name ∈ links.map (·.1)
    · rw [if_pos hmem]
      exact h.1
    · -- a link that is not selected yet comes last
      rw [if_neg hmem]
      refine List.nodup_append.2 ⟨h.1, List.nodup_singleton name, ?_⟩
      intro n hn n' hn' heq
      obtain rfl := List.mem_singleton.1 hn'
      exact hmem (heq ▸ hn)

/-- So does adding all paths. -/
theorem isDistinct_foldlM_addPath {schema : Schema} {table : Table} {paths : List ColumnPath}
    {start selection : Selection} (hstart : start.IsDistinct)
    (h : paths.foldlM (addPath schema table) start = .ok selection) : selection.IsDistinct := by
  induction paths generalizing start with
  | nil =>
    obtain rfl := Except.ok.inj h
    exact hstart
  | cons path rest ih =>
    rw [List.foldlM_cons] at h
    obtain ⟨next, hnext, h⟩ := bind_eq_ok_iff.1 h
    refine ih ?_ h
    -- a path adds its column behind its links, or nothing at all
    obtain ⟨hops?, -, hnext⟩ := bind_eq_ok_iff.1 hnext
    cases hops? with
    | none =>
      obtain rfl := Except.ok.inj hnext
      exact hstart
    | some hops =>
      obtain rfl := Except.ok.inj hnext
      exact hstart.insert

/-- **Paths describe each link once.** -/
theorem isDistinct_ofPaths {schema : Schema} {tableName : String} {paths : List ColumnPath}
    {selection : Selection} (h : ofPaths schema tableName paths = .ok selection) :
    selection.IsDistinct := by
  obtain ⟨table, -, h⟩ := bind_eq_ok_iff.1 h
  split at h
  · obtain rfl := Except.ok.inj h
    exact ⟨List.nodup_nil, trivial⟩
  · exact isDistinct_foldlM_addPath isDistinct_empty h

/-- A selection that was read is distinct. -/
theorem isDistinct_ofColumns {schema : Schema} {tableName : String} {columns : List String}
    {selection : Selection} (h : ofColumns schema tableName columns = .ok selection) :
    selection.IsDistinct := by
  obtain ⟨_, -, hpaths⟩ := bind_eq_ok_iff.1 h
  exact isDistinct_ofPaths hpaths

end Selection

/-! ### Outlines -/

namespace Outline

mutual

/-- No link is included twice, and the demanded links are included. -/
def IsDistinct : Outline → Prop
  | ⟨_, _, links, demanded⟩ =>
    (links.map (·.1)).Nodup ∧ (∀ name ∈ demanded, name ∈ links.map (·.1)) ∧ AreDistinct links

/-- The same behind links. -/
def AreDistinct : List (String × Bool × Outline) → Prop
  | [] => True
  | (_, _, outline) :: rest => IsDistinct outline ∧ AreDistinct rest

end

theorem areDistinct_iff {links : List (String × Bool × Outline)} :
    AreDistinct links ↔ ∀ link ∈ links, link.2.2.IsDistinct := by
  induction links with
  | nil => simp [AreDistinct]
  | cons link rest ih => simp [AreDistinct, ih]

/-- The links outlined for a restriction are those that restrict anything. -/
theorem map_fst_ofLinks (links : List (String × Restriction)) :
    (ofLinks links).map (·.1) = (links.filter fun link => !link.2.isTrivial).map (·.1) := by
  rw [ofLinks_eq, List.map_map]
  rfl

mutual

/-- The outline of a distinct restriction is distinct. -/
theorem isDistinct_ofRestriction {r : Restriction} (hr : r.IsDistinct) :
    (ofRestriction r).IsDistinct := by
  match r with
  | ⟨own, links⟩ =>
    refine ⟨?_, ?_, areDistinct_ofLinks hr.2⟩
    · rw [map_fst_ofLinks]
      exact hr.1.sublist (List.filter_sublist.map _)
    · rw [map_fst_ofLinks]
      exact fun name hname => hname

theorem areDistinct_ofLinks {links : List (String × Restriction)}
    (hlinks : Restriction.AreDistinct links) : AreDistinct (ofLinks links) := by
  match links with
  | [] => exact trivial
  | (name, r) :: rest =>
    -- a trivial link leads to no outline
    rw [ofLinks]
    split
    · exact areDistinct_ofLinks hlinks.2
    · exact ⟨isDistinct_ofRestriction hlinks.1, areDistinct_ofLinks hlinks.2⟩

end

/-- What is demanded behind a link is as distinct as the restriction. -/
theorem isDistinct_demand {r : Restriction} (hr : r.IsDistinct) (name : String) :
    (((r.link? name).filter fun r => !r.isTrivial).getD .trivial).IsDistinct := by
  -- a link without a restriction is taken as one with the trivial restriction
  cases hdemand : (r.link? name).filter fun r => !r.isTrivial with
  | none => exact ⟨List.nodup_nil, trivial⟩
  | some sub =>
    obtain ⟨own, links⟩ := r
    have hmem : (name, sub) ∈ links :=
      mem_of_lookup_eq_some (Option.filter_eq_some_iff.1 hdemand).1
    exact Restriction.areDistinct_iff.1 hr.2 (name, sub) hmem

/-- The links included are those selected and those that are only restricted. -/
theorem linkNames_overlay (selection : Selection) (r : Restriction) :
    (overlay selection r).linkNames = selection.links.map (·.1) ++
      (r.effectiveLinks.map (·.1)).filter fun name =>
        !(selection.links.map (·.1)).contains name := by
  obtain ⟨columns, links⟩ := selection
  rw [linkNames, overlay, overlayLinks_eq, ofLinks_eq, List.map_append, List.map_map,
    List.filter_map, List.map_map, List.filter_map]
  rfl

mutual

/-- **An outline includes each link once.** -/
theorem isDistinct_overlay {selection : Selection} (hselection : selection.IsDistinct)
    {r : Restriction} (hr : r.IsDistinct) : (overlay selection r).IsDistinct := by
  match selection with
  | ⟨columns, links⟩ =>
    have hnames : ((overlay ⟨columns, links⟩ r).links.map (·.1)) = _ :=
      linkNames_overlay ⟨columns, links⟩ r
    have heffective : (r.effectiveLinks.map (·.1)).Nodup := by
      obtain ⟨own, restricted⟩ := r
      exact hr.1.sublist (List.filter_sublist.map _)
    refine ⟨hnames ▸ ?_, hnames ▸ fun name hname => ?_, areDistinct_iff.2 fun link hlink => ?_⟩
    · -- those that are only restricted have names that no selected link has
      refine List.nodup_append.2 ⟨hselection.1, heffective.filter _, ?_⟩
      intro name hname name' hname' heq
      have hfresh := (List.mem_filter.1 hname').2
      simp [← heq, hname] at hfresh
    · -- a demanded link is selected or only restricted
      by_cases hselected : name ∈ links.map (·.1)
      · exact List.mem_append_left _ hselected
      · refine List.mem_append_right _ (List.mem_filter.2 ⟨hname, ?_⟩)
        simpa using hselected
    · -- a link is selected or only restricted, and its outline is distinct either way
      rcases List.mem_append.1 hlink with hlink | hlink
      · exact areDistinct_iff.1 (areDistinct_overlayLinks hselection.2 hr) link hlink
      · obtain ⟨own, restricted⟩ := r
        exact areDistinct_iff.1 (areDistinct_ofLinks hr.2) link (List.mem_filter.1 hlink).1

/-- Selected links stay distinct under a restriction. -/
theorem areDistinct_overlayLinks {links : List (String × Selection)}
    (hlinks : Selection.AreDistinct links) {r : Restriction} (hr : r.IsDistinct) :
    AreDistinct (overlayLinks links r) := by
  match links with
  | [] => exact trivial
  | (name, selection) :: rest =>
    exact ⟨isDistinct_overlay hlinks.1 (isDistinct_demand hr name),
      areDistinct_overlayLinks hlinks.2 hr⟩

end

/-! ### Clear selects -/

/-- A declared table delivers its own columns under names that no included link has, apart from the
primary key. -/
theorem eq_or_not_mem_of_mem_ownColumns {table : Table} (hopen : table.isOpen = false)
    {columns extra links : List String} {c : OutputColumn}
    (hc : c ∈ ownColumns table columns extra links) :
    ∃ name, c = .column name ∧ (name = table.primaryKey ∨ name ∉ links) := by
  unfold ownColumns at hc
  rw [List.mem_eraseDups, hopen, Bool.false_and, if_neg (by simp), List.singleton_append,
    List.mem_cons] at hc
  obtain rfl | hc := hc
  · exact ⟨table.primaryKey, rfl, .inl rfl⟩
  · obtain ⟨name, -, hname⟩ := List.mem_flatMap.1 hc
    unfold requestedColumns at hname
    rw [hopen] at hname
    split at hname
    · -- all columns, but those under the names of included links
      rw [if_neg (by simp)] at hname
      obtain ⟨column, hcolumn, rfl⟩ := List.mem_map.1 hname
      exact ⟨column.name, rfl, .inr (by simpa using (List.mem_filter.1 hcolumn).2)⟩
    · split at hname
      · simp at hname
      next hlinks =>
        obtain rfl := List.mem_singleton.1 hname
        exact ⟨name, rfl, .inr (by simpa using hlinks)⟩

variable {schema : Schema}

/-- A demanded link is alone in having its name. -/
theorem count_names_eq_one (db : Database) {table : Table} (hopen : table.isOpen = false)
    {outline : Outline} (h : outline.IsDistinct) (hkey : table.primaryKey ∉ outline.linkNames)
    (extra : List String) {name : String} (hname : name ∈ outline.demanded) :
    (outline.names db extra table).count name = 1 := by
  obtain ⟨columns, condition, links, demanded⟩ := outline
  have hmem : name ∈ links.map (·.1) := h.2.1 name hname
  -- the own columns avoid the links, except for the key, which is none
  have hown : name ∉ (ownColumns table columns extra (links.map (·.1))).flatMap
      (·.names db table.name) := by
    intro hflat
    obtain ⟨c, hc, hcname⟩ := List.mem_flatMap.1 hflat
    obtain ⟨n, rfl, hn⟩ := eq_or_not_mem_of_mem_ownColumns hopen hc
    obtain rfl := List.mem_singleton.1 hcname
    obtain rfl | hn := hn
    · exact hkey hmem
    · exact hn hmem
  have hnames : names db extra table ⟨columns, condition, links, demanded⟩ =
      (ownColumns table columns extra (links.map (·.1))).flatMap (·.names db table.name) ++
        links.map (·.1) := rfl
  rw [hnames, List.count_append, List.count_eq_zero.2 hown, Nat.zero_add]
  exact List.count_eq_one_of_mem h.1 hmem

mutual

/-- **Over declared tables no select is refused**, if no link has the name of a primary key. -/
theorem isClear_of_isDistinct (db : Database)
    (hopen : ∀ table ∈ schema.tables, table.isOpen = false)
    (hkeys : ∀ table ∈ schema.tables, table.link? table.primaryKey = none) {table : Table}
    (htable : table ∈ schema.tables) {correlation : Option Correlation} {asName : Option String}
    {extra : List String} {outline : Outline} {s : Select} (h : outline.IsDistinct)
    (hs : outline.select schema table correlation asName extra = .ok s) : s.isClear db := by
  match outline with
  | ⟨columns, condition, links, demanded⟩ =>
    obtain ⟨inner, hinner, hclear⟩ := isClear_select db hs
    obtain ⟨hinnerClear, hnames⟩ := areClear_of_areDistinct db hopen hkeys htable h.2.2 hinner
    refine hclear.2 ⟨hinnerClear, fun name hname => ?_⟩
    -- the primary key is no link, but every included link is one
    have hkey : table.primaryKey ∉ links.map (·.1) := by
      intro hmem
      obtain ⟨link, hlink⟩ := hnames table.primaryKey hmem
      rw [hkeys table htable] at hlink
      simp at hlink
    exact count_names_eq_one db (hopen table htable) h hkey extra hname

/-- The same for the subqueries of links, which all have their link at the table. -/
theorem areClear_of_areDistinct (db : Database)
    (hopen : ∀ table ∈ schema.tables, table.isOpen = false)
    (hkeys : ∀ table ∈ schema.tables, table.link? table.primaryKey = none) {table : Table}
    (htable : table ∈ schema.tables) {visible : String} {links : List (String × Bool × Outline)}
    {selects : List (String × Bool × Select)} (h : AreDistinct links)
    (hs : selectLinks schema table visible links = .ok selects) :
    Select.areClear db selects ∧
      ∀ name ∈ links.map (·.1), ∃ link, table.link? name = some link := by
  match links with
  | [] =>
    obtain rfl := Except.ok.inj hs
    exact ⟨rfl, by simp⟩
  | (name, demanded, outline) :: rest =>
    -- the links are resolved one after the other, each at its target
    obtain ⟨link, target, inner, others, hlink, htarget, hinner, hothers, rfl⟩ :=
      exists_of_selectLinks_cons hs
    have hinnerClear :=
      isClear_of_isDistinct db hopen hkeys (Schema.mem_tables_of_table? htarget) h.1 hinner
    obtain ⟨hothersClear, hnames⟩ := areClear_of_areDistinct db hopen hkeys htable h.2 hothers
    refine ⟨?_, List.forall_mem_cons.2 ⟨⟨link, hlink⟩, hnames⟩⟩
    rw [Select.areClear, hinnerClear, hothersClear]
    rfl

end

end Outline

/-- **No statement of a query is refused**, whatever is selected and filtered, over declared tables
none of whose links has the name of the primary key. -/
theorem Query.isClear_of_build {q : Query} {order : List SortTerm} {limit : Option (Nat × Nat)}
    {s : SelectStatement} (hopen : ∀ table ∈ q.schema.tables, table.isOpen = false)
    (hkeys : ∀ table ∈ q.schema.tables, table.link? table.primaryKey = none)
    (hs : q.build order limit = .ok s) (db : Database) : s.select.isClear db := by
  obtain ⟨selection, filter, r, hselection, -, hr, hs⟩ := exists_of_build hs
  obtain ⟨table, htable, hselect, -, -⟩ := SelectStatement.exists_of_build hs
  have hmem := Schema.mem_tables_of_table? (Schema.requireTable_eq_ok_iff.1 htable)
  exact Outline.isClear_of_isDistinct db hopen hkeys hmem
    (Outline.isDistinct_overlay (Selection.isDistinct_ofColumns hselection)
      (Restriction.isDistinct_ofFilter htable hr)) hselect

end LinkQuery
