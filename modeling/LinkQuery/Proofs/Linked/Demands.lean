import LinkQuery.Proofs.Linked.Delivery
import Mathlib.Data.List.Nodup

/-!
# Which rows an outline delivers

An outline laid out of a selection and a restriction delivers a row if the restriction accepts it
and nothing is null that is delivered behind its demanded links. The second condition comes with the
selection: what is selected behind a demanded link decides about the row.

* `Restriction.accepts` says of a row that its condition is true, and that the rows behind its links
  exist and are accepted in turn, wherever something is demanded of them.
* `Outline.isComplete` says of a row that the records behind its demanded links are delivered
  without a null, and are complete in turn.
* `Outline.isSome_delivered?_overlay`: a row is delivered if both hold of it.
-/

namespace LinkQuery

open Sql

/-! ### Restrictions and completeness -/

namespace Restriction

variable (schema : Schema) (db : Database)

mutual

/-- Whether a restriction accepts a row. -/
def accepts (table : Table) (row : TableRow) : Restriction → Bool
  | ⟨own, links⟩ => Outline.holds db table row own && acceptsLinks table row links

/-- Whether the rows behind links are there and accepted, where something is demanded of them. -/
def acceptsLinks (table : Table) (row : TableRow) : List (String × Restriction) → Bool
  | [] => true
  | (name, r) :: rest =>
    (r.isTrivial ||
        (table.linkedRow? schema db row name).any fun (target, other) => accepts target other r) &&
      acceptsLinks table row rest

end

end Restriction

namespace Outline

variable (schema : Schema) (db : Database)

mutual

/-- Whether the records behind the demanded links of a row have no null. -/
def isComplete (table : Table) (row : TableRow) : Outline → Bool
  | ⟨_, _, links, _⟩ => areComplete table row links

/-- Whether the records behind those of the links that are demanded have no null. -/
def areComplete (table : Table) (row : TableRow) : List (String × Bool × Outline) → Bool
  | [] => true
  | (name, demanded, outline) :: rest =>
    (!demanded || (table.linkedRow? schema db row name).all fun (target, other) =>
        (outline.record schema db [] target other).isFull && isComplete target other outline) &&
      areComplete table row rest

end

end Outline

variable {schema : Schema} {db : Database}

/-- The rows behind all links that restrict anything have to be accepted. -/
theorem Restriction.acceptsLinks_iff {table : Table} {row : TableRow}
    {links : List (String × Restriction)} :
    acceptsLinks schema db table row links ↔ ∀ link ∈ links, link.2.isTrivial = false →
      ∃ target other, table.linkedRow? schema db row link.1 = some (target, other) ∧
        link.2.accepts schema db target other := by
  induction links with
  | nil => simp [acceptsLinks]
  | cons link rest ih =>
    rw [acceptsLinks, Bool.and_eq_true, ih, List.forall_mem_cons]
    refine and_congr_left' ?_
    -- a trivial link asks for nothing, any other for a row behind it
    cases htrivial : link.2.isTrivial with
    | true => simp
    | false => rcases table.linkedRow? schema db row link.1 with _ | ⟨target, other⟩ <;> simp

/-- The rows behind all demanded links have to be full and complete. -/
theorem Outline.areComplete_iff {table : Table} {row : TableRow}
    {links : List (String × Bool × Outline)} :
    areComplete schema db table row links ↔ ∀ link ∈ links, link.2.1 = true →
      ∀ target other, table.linkedRow? schema db row link.1 = some (target, other) →
        (link.2.2.record schema db [] target other).isFull ∧
          link.2.2.isComplete schema db target other := by
  induction links with
  | nil => simp [areComplete]
  | cons link rest ih =>
    rw [areComplete, Bool.and_eq_true, ih, List.forall_mem_cons]
    refine and_congr_left' ?_
    -- only a demanded link needs a record, and only where a row is behind it
    cases hdemanded : link.2.1 with
    | false => simp
    | true => rcases table.linkedRow? schema db row link.1 with _ | ⟨target, other⟩ <;> simp

/-! ### Names of restrictions -/

namespace Restriction

mutual

/-- No link is mentioned twice. -/
def IsDistinct : Restriction → Prop
  | ⟨_, links⟩ => (links.map (·.1)).Nodup ∧ AreDistinct links

/-- The same behind links. -/
def AreDistinct : List (String × Restriction) → Prop
  | [] => True
  | (_, r) :: rest => IsDistinct r ∧ AreDistinct rest

end

theorem areDistinct_iff {links : List (String × Restriction)} :
    AreDistinct links ↔ ∀ link ∈ links, link.2.IsDistinct := by
  induction links with
  | nil => simp [AreDistinct]
  | cons link rest ih => simp [AreDistinct, ih]

end Restriction

/-- An entry of a list is found by its name if no other entry has the name. -/
theorem lookup_of_count_eq_one {α : Type} {entries : List (String × α)} {name : String} {value : α}
    (hmem : (name, value) ∈ entries) (hcount : (entries.map (·.1)).count name = 1) :
    entries.lookup name = some value := by
  induction entries with
  | nil => simp at hmem
  | cons entry rest ih =>
    obtain ⟨n, v⟩ := entry
    rw [List.map_cons, List.count_cons] at hcount
    by_cases hn : n = name
    · -- the first entry has the name, so no other one does
      subst hn
      have hrest : (rest.map (·.1)).count n = 0 := by simpa using hcount
      have hfresh : (n, value) ∉ rest := by
        intro h
        exact List.count_eq_zero.1 hrest (List.mem_map.2 ⟨(n, value), h, rfl⟩)
      obtain heq | hrest := List.mem_cons.1 hmem
      · obtain ⟨-, rfl⟩ := Prod.mk.inj heq
        exact List.lookup_cons_self
      · exact absurd hrest hfresh
    · -- the first entry is passed over
      have hrest : (name, value) ∈ rest := by
        obtain heq | hrest := List.mem_cons.1 hmem
        · exact absurd (Prod.mk.inj heq).1.symm hn
        · exact hrest
      have hbeq : (name == n) = false := beq_false_of_ne (Ne.symm hn)
      rw [List.lookup_cons, hbeq]
      exact ih hrest (by simpa [hn] using hcount)

/-- Among distinct links each is found under its name. -/
theorem Restriction.IsDistinct.lookup_eq {r : Restriction} (h : r.IsDistinct) {name : String}
    {sub : Restriction} (hmem : (name, sub) ∈ r.links) : r.link? name = some sub := by
  obtain ⟨own, links⟩ := r
  have hname : name ∈ links.map (·.1) := List.mem_map.2 ⟨(name, sub), hmem, rfl⟩
  exact lookup_of_count_eq_one hmem (List.count_eq_one_of_mem h.1 hname)

/-! ### The links of an outline -/

namespace Outline

/-- The cell of a link: the record of the row behind it, if that is delivered. -/
def linkCell (schema : Schema) (db : Database) (table : Table) (row : TableRow)
    (link : String × Bool × Outline) : Cell :=
  (((table.linkedRow? schema db row link.1).bind fun (target, other) =>
    delivered? schema db [] target other link.2.2).filter fun record =>
      !link.2.1 || record.isFull).map Record.toJson

theorem linkCells_eq_map (table : Table) (row : TableRow)
    (links : List (String × Bool × Outline)) :
    linkCells schema db table row links =
      links.map fun link => (link.1, linkCell schema db table row link) := by
  induction links with
  | nil => rfl
  | cons link rest ih =>
    rw [linkCells, ih]
    rfl

/-- A demanded link is not null if the row behind it is delivered, without a null. -/
theorem isSome_linkCell_iff {table : Table} {row : TableRow} {name : String} {outline : Outline} :
    (linkCell schema db table row (name, true, outline)).isSome ↔
      ∃ target other, table.linkedRow? schema db row name = some (target, other) ∧
        (delivered? schema db [] target other outline).isSome ∧
        (outline.record schema db [] target other).isFull := by
  unfold linkCell
  cases table.linkedRow? schema db row name with
  | none => simp
  | some found =>
    obtain ⟨target, other⟩ := found
    rw [Option.bind_some]
    -- nothing is delivered behind the link, or a record that counts when it is full
    cases hdelivered : delivered? schema db [] target other outline with
    | none => simp [hdelivered]
    | some record =>
      obtain rfl := eq_record_of_delivered? hdelivered
      cases hfull : (outline.record schema db [] target other).isFull <;>
        simp [Option.filter_some, hfull, hdelivered]

/-! ### The links of a selection and a restriction -/

/-- Each link that restricts anything is demanded. -/
theorem ofLinks_eq (links : List (String × Restriction)) :
    ofLinks links = (links.filter fun link => !link.2.isTrivial).map fun link =>
      (link.1, true, ofRestriction link.2) := by
  induction links with
  | nil => rfl
  | cons link rest ih =>
    rw [ofLinks, ih]
    cases htrivial : link.2.isTrivial <;> simp [htrivial]

/-- A selected link is demanded when it is restricted. -/
theorem overlayLinks_eq (links : List (String × Selection)) (r : Restriction) :
    overlayLinks links r = links.map fun link =>
      let demand := (r.link? link.1).filter fun r => !r.isTrivial
      (link.1, demand.isSome, overlay link.2 (demand.getD .trivial)) := by
  induction links with
  | nil => rfl
  | cons link rest ih =>
    rw [overlayLinks, ih]
    rfl

/-- Where nothing is selected, the outline is that of the restriction. -/
theorem overlay_empty (r : Restriction) : overlay .empty r = ofRestriction r := by
  obtain ⟨own, links⟩ := r
  rw [Selection.empty, overlay, ofRestriction, overlayLinks, List.nil_append]
  simp

/-- The links demanded are those behind which the restriction demands something. -/
theorem demanded_overlay (selection : Selection) (r : Restriction) :
    (overlay selection r).demanded = r.effectiveLinks.map (·.1) := by
  obtain ⟨columns, links⟩ := selection
  rfl

/-- Behind a demanded link stands some selection and what the restriction demands there. -/
theorem exists_of_mem_links_overlay {selection : Selection} {r : Restriction} {name : String}
    {outline : Outline} (h : (name, true, outline) ∈ (overlay selection r).links) :
    ∃ sub selected, (name, sub) ∈ r.effectiveLinks ∧ outline = overlay selected sub := by
  obtain ⟨columns, links⟩ := selection
  rw [overlay, overlayLinks_eq, ofLinks_eq] at h
  obtain h | h := List.mem_append.1 h
  · -- the link is selected
    obtain ⟨⟨n, selected⟩, -, heq⟩ := List.mem_map.1 h
    obtain ⟨rfl, hbehind⟩ := Prod.mk.inj heq
    obtain ⟨hsome, rfl⟩ := Prod.mk.inj hbehind
    obtain ⟨sub, hsub⟩ := Option.isSome_iff_exists.1 hsome
    obtain ⟨hlink, htrivial⟩ := Option.filter_eq_some_iff.1 hsub
    refine ⟨sub, selected, List.mem_filter.2 ⟨mem_of_lookup_eq_some hlink, htrivial⟩, ?_⟩
    rw [hsub, Option.getD_some]
  · -- the link is only restricted
    obtain ⟨h, -⟩ := List.mem_filter.1 h
    obtain ⟨⟨n, sub⟩, hsub, heq⟩ := List.mem_map.1 h
    obtain ⟨rfl, hbehind⟩ := Prod.mk.inj heq
    obtain ⟨-, rfl⟩ := Prod.mk.inj hbehind
    exact ⟨sub, .empty, hsub, (overlay_empty sub).symm⟩

/-- Every link behind which something is demanded is included, and demanded. -/
theorem exists_mem_links_overlay (selection : Selection) {r : Restriction} (hr : r.IsDistinct)
    {name : String} {sub : Restriction} (h : (name, sub) ∈ r.effectiveLinks) :
    ∃ selected, (name, true, overlay selected sub) ∈ (overlay selection r).links := by
  obtain ⟨columns, links⟩ := selection
  obtain ⟨hmem, htrivial⟩ := List.mem_filter.1 h
  -- distinct names make this the restriction that is looked up
  have hdemand : ((r.link? name).filter fun r => !r.isTrivial) = some sub := by
    rw [hr.lookup_eq hmem, Option.filter_some, if_pos htrivial]
  rw [overlay, overlayLinks_eq, ofLinks_eq]
  by_cases hselected : name ∈ links.map (·.1)
  · -- a selected link keeps its selection
    obtain ⟨⟨n, selected⟩, hlink, rfl⟩ := List.mem_map.1 hselected
    refine ⟨selected, List.mem_append.2 (.inl (List.mem_map.2 ⟨(n, selected), hlink, ?_⟩))⟩
    dsimp only at hdemand ⊢
    rw [hdemand]
    rfl
  · -- the others follow, and nothing is selected behind them
    refine ⟨.empty, List.mem_append.2 (.inr (List.mem_filter.2 ⟨?_, by simpa using hselected⟩))⟩
    rw [overlay_empty]
    exact List.mem_map.2 ⟨(name, sub), h, rfl⟩

/-! ### The selects of links -/

/-- A wrapped select is clear when each demanded name stands in one output. -/
theorem isClear_enclose {s : Select} {demanded : List String} :
    (enclose s demanded).isClear db ↔
      s.isClear db ∧ ∀ name ∈ demanded, (s.outputs db).count name = 1 := by
  induction demanded generalizing s with
  | nil => simp [enclose_nil]
  | cons name rest ih =>
    rw [enclose_cons, ih, Select.isClear, Select.outputs, Bool.and_eq_true, beq_iff_eq,
      List.forall_mem_cons, and_assoc]

/-- The select of an outline is clear if its subqueries are, and every demanded link alone has its
name. -/
theorem isClear_select (db : Database) {table : Table} {correlation : Option Correlation}
    {asName : Option String} {extra : List String} {outline : Outline} {s : Select}
    (hs : outline.select schema table correlation asName extra = .ok s) :
    ∃ inner, selectLinks schema table (asName.getD table.name) outline.links = .ok inner ∧
      (s.isClear db ↔ Select.areClear db inner ∧
        ∀ name ∈ outline.demanded, (outline.names db extra table).count name = 1) := by
  rw [← outputs_select hs]
  obtain ⟨inner, hinner, rfl⟩ := exists_of_select hs
  refine ⟨inner, hinner, ?_⟩
  rw [isClear_enclose, outputs_enclose]
  exact Iff.rfl

/-- The subquery of a link is the select of the outline behind it. -/
theorem exists_select_of_mem {table : Table} {visible : String}
    {links : List (String × Bool × Outline)} {selects : List (String × Bool × Select)}
    (hs : selectLinks schema table visible links = .ok selects)
    (hclear : Select.areClear db selects) {name : String} {demanded : Bool} {outline : Outline}
    (hmem : (name, demanded, outline) ∈ links) :
    ∃ link target correlation asName inner, table.link? name = some link ∧
      schema.table? link.targetTable = some target ∧
      outline.select schema target correlation asName [] = .ok inner ∧ inner.isClear db := by
  induction links generalizing selects with
  | nil => simp at hmem
  | cons first rest ih =>
    obtain ⟨n, d, o⟩ := first
    obtain ⟨link, target, inner, others, hlink, htarget, hinner, hothers, rfl⟩ :=
      exists_of_selectLinks_cons hs
    -- the subquery of the link is the first one or built further on
    rw [Select.areClear, Bool.and_eq_true] at hclear
    obtain heq | hrest := List.mem_cons.1 hmem
    · obtain ⟨rfl, hbehind⟩ := Prod.mk.inj heq
      obtain ⟨-, rfl⟩ := Prod.mk.inj hbehind
      exact ⟨link, target, _, _, inner, hlink, htarget, hinner, hclear.1⟩
    · exact ih hothers hclear.2 hrest

/-! ### Delivered rows -/

/-- A row is delivered when the condition holds and all demanded cells have values. -/
theorem isSome_delivered?_iff {extra : List String} {table : Table} {row : TableRow}
    {outline : Outline} :
    (delivered? schema db extra table row outline).isSome ↔
      holds db table row outline.condition ∧
        ∀ name ∈ outline.demanded,
          ((outline.record schema db extra table row).cell name).isSome := by
  rw [delivered?_eq, ← List.all_eq_true, ← Bool.and_eq_true]
  split
  next hkept => simp [hkept]
  next hkept => simp [hkept]

/-- A link that alone has its name is found in the record under this name. -/
theorem cell_record {extra : List String} {table : Table} {row : TableRow} {outline : Outline}
    {link : String × Bool × Outline} (hmem : link ∈ outline.links)
    (hcount : (outline.names db extra table).count link.1 = 1) :
    (outline.record schema db extra table row).cell link.1 = linkCell schema db table row link := by
  -- the record has an entry for the link, and by its name no other one
  have hentry : (link.1, linkCell schema db table row link) ∈
      outline.record schema db extra table row := by
    rw [record, linkCells_eq_map]
    exact List.mem_append_right _ (List.mem_map.2 ⟨link, hmem, rfl⟩)
  rw [← map_fst_record schema db extra table row] at hcount
  rw [Record.cell, lookup_of_count_eq_one hentry hcount]
  rfl

end Outline

/-- The row behind a link is one of its target table. -/
theorem Table.target_of_linkedRow? {table : Table} {row : TableRow} {name : String} {link : Link}
    {target target' : Table} {other : TableRow}
    (h : table.linkedRow? schema db row name = some (target', other))
    (hlink : table.link? name = some link)
    (htarget : schema.table? link.targetTable = some target) :
    target' = target := by
  rw [linkedRow?_eq hlink htarget] at h
  obtain ⟨other', -, heq⟩ := Option.map_eq_some_iff.1 h
  exact (Prod.mk.inj heq).1.symm

namespace Restriction

theorem sizeOf_lt_of_mem_effectiveLinks {r : Restriction} {name : String} {sub : Restriction}
    (h : (name, sub) ∈ r.effectiveLinks) : sizeOf sub < sizeOf r := by
  obtain ⟨own, links⟩ := r
  have hlinks := List.sizeOf_lt_of_mem (List.mem_filter.1 h).1
  simp only [Prod.mk.sizeOf_spec] at hlinks
  simp only [mk.sizeOf_spec]
  omega

theorem IsDistinct.of_mem_effectiveLinks {r : Restriction} (hr : r.IsDistinct) {name : String}
    {sub : Restriction} (h : (name, sub) ∈ r.effectiveLinks) : sub.IsDistinct := by
  obtain ⟨own, links⟩ := r
  exact areDistinct_iff.1 hr.2 (name, sub) (List.mem_filter.1 h).1

/-- A restriction accepts a row that meets its condition, if the rows behind its links are there and
accepted. -/
theorem accepts_iff {r : Restriction} {table : Table} {row : TableRow} :
    r.accepts schema db table row ↔ Outline.holds db table row r.own ∧
      ∀ link ∈ r.effectiveLinks, ∃ target other,
        table.linkedRow? schema db row link.1 = some (target, other) ∧
          link.2.accepts schema db target other := by
  obtain ⟨own, links⟩ := r
  rw [accepts, Bool.and_eq_true, acceptsLinks_iff]
  simp [effectiveLinks]

end Restriction

namespace Outline

/-- An outline is complete at a row when it is behind all demanded links. -/
theorem isComplete_iff {outline : Outline} {table : Table} {row : TableRow} :
    outline.isComplete schema db table row ↔ ∀ link ∈ outline.links, link.2.1 = true →
      ∀ target other, table.linkedRow? schema db row link.1 = some (target, other) →
        (link.2.2.record schema db [] target other).isFull ∧
          link.2.2.isComplete schema db target other := by
  obtain ⟨columns, condition, links, demanded⟩ := outline
  rw [isComplete, areComplete_iff]

/-- The cell of a demanded link, given what is delivered of the row behind it. -/
theorem isSome_cell_overlay_iff {r sub : Restriction} {selection selected : Selection}
    {extra : List String} {table : Table} {row : TableRow} {name : String}
    (hmem : (name, true, overlay selected sub) ∈ (overlay selection r).links)
    (hcount : ((overlay selection r).names db extra table).count name = 1)
    (hbehind : ∀ target other, table.linkedRow? schema db row name = some (target, other) →
      ((delivered? schema db [] target other (overlay selected sub)).isSome ↔
        sub.accepts schema db target other ∧
          (overlay selected sub).isComplete schema db target other)) :
    (((overlay selection r).record schema db extra table row).cell name).isSome ↔
      ∃ target other, table.linkedRow? schema db row name = some (target, other) ∧
        (sub.accepts schema db target other ∧
          (overlay selected sub).isComplete schema db target other) ∧
        ((overlay selected sub).record schema db [] target other).isFull := by
  rw [cell_record hmem hcount, isSome_linkCell_iff]
  refine exists_congr fun target => exists_congr fun other => ?_
  refine and_congr_right fun hlinked => ?_
  exact and_congr_left' (hbehind target other hlinked)

/-- **A row is delivered if the restriction accepts it and it is complete.** -/
theorem isSome_delivered?_overlay {r : Restriction} (hr : r.IsDistinct) {selection : Selection}
    {table : Table} {correlation : Option Correlation} {asName : Option String}
    {extra : List String} {s : Select}
    (hs : (overlay selection r).select schema table correlation asName extra = .ok s)
    (hclear : s.isClear db) (row : TableRow) :
    (delivered? schema db extra table row (overlay selection r)).isSome ↔
      r.accepts schema db table row ∧ (overlay selection r).isComplete schema db table row := by
  -- the restriction alone decides what is demanded
  have hcondition : (overlay selection r).condition = r.own := by
    cases selection
    rfl
  have hdemanded := demanded_overlay selection r
  obtain ⟨inner, hinner, hiff⟩ := isClear_select db hs
  obtain ⟨hinnerClear, hcounts⟩ := hiff.1 hclear
  -- the claim of the theorem, for the rows behind the demanded links
  have hcell : ∀ name sub selected, (name, sub) ∈ r.effectiveLinks →
      (name, true, overlay selected sub) ∈ (overlay selection r).links →
        ((((overlay selection r).record schema db extra table row).cell name).isSome ↔
          ∃ target other, table.linkedRow? schema db row name = some (target, other) ∧
            (sub.accepts schema db target other ∧
              (overlay selected sub).isComplete schema db target other) ∧
            ((overlay selected sub).record schema db [] target other).isFull) := by
    intro name sub selected hsub hmem
    have hname : name ∈ (overlay selection r).demanded := by
      rw [hdemanded]
      exact List.mem_map.2 ⟨(name, sub), hsub, rfl⟩
    refine isSome_cell_overlay_iff hmem (hcounts name hname) fun target other hlinked => ?_
    obtain ⟨link, target', correlation', asName', s', hlink, htarget, hs', hclear'⟩ :=
      exists_select_of_mem hinner hinnerClear hmem
    obtain rfl := Table.target_of_linkedRow? hlinked hlink htarget
    exact isSome_delivered?_overlay (hr.of_mem_effectiveLinks hsub) hs' hclear' other
  rw [isSome_delivered?_iff, hcondition, hdemanded, Restriction.accepts_iff, isComplete_iff]
  constructor
  · rintro ⟨hholds, hcells⟩
    have hsome : ∀ name sub, (name, sub) ∈ r.effectiveLinks →
        (((overlay selection r).record schema db extra table row).cell name).isSome :=
      fun name sub hsub => hcells name (List.mem_map.2 ⟨(name, sub), hsub, rfl⟩)
    refine ⟨⟨hholds, ?_⟩, ?_⟩
    · -- the row is accepted
      rintro ⟨name, sub⟩ hsub
      obtain ⟨selected, hmem⟩ := exists_mem_links_overlay selection hr hsub
      obtain ⟨target, other, hlinked, ⟨haccepts, -⟩, -⟩ :=
        (hcell name sub selected hsub hmem).1 (hsome name sub hsub)
      exact ⟨target, other, hlinked, haccepts⟩
    · -- it is complete, as whatever is demanded comes from the restriction
      rintro ⟨name, demanded, outline⟩ hmem hflag target other hlinked
      obtain rfl : demanded = true := hflag
      obtain ⟨sub, selected, hsub, rfl⟩ := exists_of_mem_links_overlay hmem
      obtain ⟨target', other', hlinked', ⟨-, hcomplete⟩, hfull⟩ :=
        (hcell name sub selected hsub hmem).1 (hsome name sub hsub)
      obtain ⟨rfl, rfl⟩ := Prod.mk.inj (Option.some.inj (hlinked'.symm.trans hlinked))
      exact ⟨hfull, hcomplete⟩
  · -- an accepted row that is complete has no demanded link that is null
    rintro ⟨⟨hholds, haccepts⟩, hcomplete⟩
    refine ⟨hholds, fun name hname => ?_⟩
    obtain ⟨⟨n, sub⟩, hsub, rfl⟩ := List.mem_map.1 hname
    obtain ⟨selected, hmem⟩ := exists_mem_links_overlay selection hr hsub
    obtain ⟨target, other, hlinked, hsubAccepts⟩ := haccepts (n, sub) hsub
    obtain ⟨hfull, hsubComplete⟩ := hcomplete _ hmem rfl target other hlinked
    exact (hcell n sub selected hsub hmem).2
      ⟨target, other, hlinked, ⟨hsubAccepts, hsubComplete⟩, hfull⟩
  termination_by sizeOf r
  decreasing_by exact Restriction.sizeOf_lt_of_mem_effectiveLinks hsub

end Outline

end LinkQuery
