import LinkQuery.Proofs.Filter.Compiled
import LinkQuery.Proofs.Page.Continuation

/-!
# Resuming a walk

A walk through the pages of a query goes on from cursors. What is restored from a cursor of a query
need not be compiled as the query is, for a float of its filter may be read as another one, and from
the cursors of what is restored the floats may be read as others again. But it is always a query
that has pages and whose cursors are accepted: a walk through the pages of a query never gets stuck
at a cursor.

* `Query.Resumes` are the queries that a walk meets.
* `Query.IsWalkable` is what is asked of a query for a walk through its pages, and
  `Query.IsWalkable.exists_restore` that what is restored is such a query again.
-/

namespace LinkQuery

open Json (Value)

variable {q query r : Query} {w : Window}

/-! ### Filters that have been read again -/

namespace Json.Value

/-- A name or a flag is read as itself. -/
theorem reread?_of_isNameOrFlag {v read : Value} (hv : v.isNameOrFlag)
    (h : v.reread? = some read) : read = v := by
  cases v with
  | bool _ | text _ => exact (Option.some.inj h).symm
  | null | int _ | float _ | array _ | object _ => simp [isNameOrFlag] at hv

theorem isNameOrFlag_of_reread? {v read : Value} (h : v.reread? = some read) :
    read.isNameOrFlag = v.isNameOrFlag := by
  cases v with
  | null | bool _ | int _ | text _ =>
    obtain rfl := Option.some.inj h
    rfl
  | float _ | array _ | object _ =>
    obtain ⟨_, -, rfl⟩ := Option.map_eq_some_iff.1 h
    rfl

mutual

/-- **What a value is read as has the form of the value**: nothing but floats may be others. -/
theorem form_of_reread? {v read : Value} (h : v.reread? = some read) : read.form = v.form := by
  match v with
  | null | bool _ | int _ | text _ =>
    obtain rfl := Option.some.inj h
    rfl
  | float x =>
    -- the float may be another, but its form is that of any float
    obtain ⟨y, -, rfl⟩ := Option.map_eq_some_iff.1 h
    rfl
  | array items =>
    obtain ⟨items', hitems, rfl⟩ := Option.map_eq_some_iff.1 h
    rw [form, form, itemsForm_of_reread? hitems]
  | object members =>
    obtain ⟨members', hmembers, rfl⟩ := Option.map_eq_some_iff.1 h
    rw [form, form, membersForm_of_reread? hmembers]

theorem itemsForm_of_reread? {vs read : List Value} (h : itemsReread? vs = some read) :
    itemsForm read = itemsForm vs := by
  match vs with
  | [] =>
    obtain rfl := Option.some.inj h
    rfl
  | v :: vs =>
    obtain ⟨first, hfirst, h⟩ := Option.bind_eq_some_iff.1 h
    obtain ⟨rest, hrest, h⟩ := Option.bind_eq_some_iff.1 h
    obtain rfl := Option.some.inj h
    rw [itemsForm, itemsForm, form_of_reread? hfirst, itemsForm_of_reread? hrest]

theorem membersForm_of_reread? {ms read : List (String × Value)}
    (h : membersReread? ms = some read) : membersForm read = membersForm ms := by
  match ms with
  | [] =>
    obtain rfl := Option.some.inj h
    rfl
  | (key, v) :: ms =>
    obtain ⟨first, hfirst, h⟩ := Option.bind_eq_some_iff.1 h
    obtain ⟨rest, hrest, h⟩ := Option.bind_eq_some_iff.1 h
    obtain rfl := Option.some.inj h
    have hform : first.memberForm key = v.memberForm key := by
      -- a name or flag is part of the form and read back as it is
      have hasks : first.asksPresence key = v.asksPresence key :=
        congrArg ((presenceOfKey? (memberPath key v).2).isSome && ·)
          (isNameOrFlag_of_reread? hfirst)
      rw [memberForm, memberForm, hasks]
      split
      next hv => exact reread?_of_isNameOrFlag (Bool.and_eq_true_iff.1 hv).2 hfirst
      next => exact form_of_reread? hfirst
    rw [membersForm_cons, membersForm_cons, hform, membersForm_of_reread? hrest]

end

end Json.Value

namespace Query

/-- A query has its pages as before if its filter is read again. -/
theorem exists_compilePage_reread {read : Value} (h : q.filterValue.reread? = some read)
    {statement : Sql.Statement} (hcompile : q.compilePage w = .ok statement) :
    ∃ statement', compilePage { q with layers := [read] } w = .ok statement' := by
  obtain ⟨s, hbuild, -⟩ := map_eq_ok_iff.1 hcompile
  have hform : (filterValue { q with layers := [read] }).form = q.filterValue.form :=
    Value.form_of_reread? h
  obtain ⟨s', hbuild', -⟩ := (buildPage_form hform w).exists_right hbuild
  exact ⟨s'.render, map_eq_ok_iff.2 ⟨s', hbuild', rfl⟩⟩

/-- The filter of a query that has a page can be read. -/
theorem exists_filter {statement : Sql.Statement} (h : q.compilePage w = .ok statement) :
    ∃ filter, Filter.ofJson q.filterValue = .ok filter := by
  obtain ⟨s, hbuild, -⟩ := map_eq_ok_iff.1 h
  obtain ⟨⟨⟩, -, h⟩ := bind_eq_ok_iff.1 hbuild
  obtain ⟨table, -, h⟩ := bind_eq_ok_iff.1 h
  obtain ⟨-, filter, -, -, hfilter, -⟩ := exists_of_build h
  exact ⟨filter, hfilter⟩

/-- A cursor is decoded if its filter is not nested too deep, and only then. -/
theorem exists_decode_iff (hproper : q.filterValue.IsProper) (hw : w.check = .ok ()) :
    (∃ c, Cursor.decode (q.cursor w).encode = .ok c) ↔
      q.filterValue.depth ≤ Cursor.maxFilterDepth := by
  -- only the filter can change or be refused when a cursor is read back
  have hdecode := Cursor.decode_encode_bare (c := q.cursor w) hw hproper
  have hfilter : (q.cursor w).filter = q.filterValue := rfl
  rw [hdecode, Cursor.reread?, hfilter]
  split
  next hdepth =>
    -- every proper value within the bound is read back
    obtain ⟨read, hread⟩ := Option.isSome_iff_exists.1 (Value.isSome_reread? hproper)
    rw [hread]
    exact ⟨fun _ => hdepth, fun _ => ⟨_, rfl⟩⟩
  next hdepth => exact ⟨by rintro ⟨_, ⟨⟩⟩, fun h => absurd h hdepth⟩

/-- What is restored from the cursors of `q` if its filter is read as the value `read`, and that as
`filter`. -/
def resumed (q : Query) (read : Value) (filter : Filter) : Query :=
  { q with layers := if filter.isVacuous then [] else [read] }

/-- **What is restored from a cursor.** Nothing but the filter is new, and it makes no difference
who receives the cursor. -/
theorem restore_eq_ok_iff (hproper : q.filterValue.IsProper) (hw : w.check = .ok ())
    (hschema : r.schema = q.schema) (htable : r.table = q.table) {restored : Query} {w' : Window} :
    r.restore (q.cursor w).encode = .ok (restored, w') ↔
      q.filterValue.depth ≤ Cursor.maxFilterDepth ∧ ∃ read filter,
        q.filterValue.reread? = some read ∧
        Filter.ofJson read = .ok filter ∧ restored = q.resumed read filter ∧ w' = w := by
  -- restoring reads the cursor, compares the tables and reads the filter, in this order
  have hbare : Cursor.decode (q.cursor w).encode = (q.cursor w).reread?.elim
      (.error (.invalidCursor .undecodable)) .ok := Cursor.decode_encode_bare hw hproper
  have hreread : (q.cursor w).reread? =
      (if q.filterValue.depth ≤ Cursor.maxFilterDepth then q.filterValue.reread? else none).map
        fun filter => { q.cursor w with filter := filter } := rfl
  rw [restore, hbare, hreread]
  by_cases hdepth : q.filterValue.depth ≤ Cursor.maxFilterDepth
  · rw [if_pos hdepth]
    cases hread : q.filterValue.reread? with
    | none => exact ⟨by rintro ⟨⟩, by rintro ⟨-, _, _, ⟨⟩, -⟩⟩
    | some read =>
      show (if q.table ≠ r.table then _ else Filter.ofJson read >>= _) = _ ↔ _
      rw [if_neg fun hne => hne htable.symm, bind_eq_ok_iff, hschema, htable]
      constructor
      · rintro ⟨filter, hfilter, h⟩
        obtain ⟨rfl, rfl⟩ := Prod.mk.inj (Except.ok.inj h)
        exact ⟨hdepth, read, filter, rfl, hfilter, rfl, rfl⟩
      · rintro ⟨-, _, filter, ⟨⟩, hfilter, rfl, rfl⟩
        exact ⟨filter, hfilter, rfl⟩
  · rw [if_neg hdepth]
    exact ⟨by rintro ⟨⟩, fun h => absurd h.1 hdepth⟩

/-- A query has its pages as before if it is restored from its cursors. -/
theorem exists_compilePage_resumed {read : Value} (hread : q.filterValue.reread? = some read)
    {filter : Filter} (hfilter : Filter.ofJson read = .ok filter) {statement : Sql.Statement}
    (hcompile : q.compilePage w = .ok statement) :
    ∃ statement', (q.resumed read filter).compilePage w = .ok statement' := by
  obtain ⟨statement', hcompile'⟩ := exists_compilePage_reread hread hcompile
  refine ⟨statement', ?_⟩
  unfold resumed
  split
  next hvacuous =>
    -- a vacuous layer is left out, which changes no statement
    have hdrop := q.restriction_dropVacuous [] [] hfilter hvacuous
    rw [← hcompile']
    exact ((compile_withLayers hdrop).2 w).symm
  next => exact hcompile'

/-! ### The queries of a walk -/

/-- The queries that a walk through the pages of `q` meets: the query itself, and what is restored
from the cursors of those. -/
inductive Resumes (q : Query) : Query → Prop
  | self : Resumes q q
  | restored {query restored : Query} {w w' : Window} (hquery : Resumes q query)
      (hw : w.check = .ok ()) (h : q.restore (query.cursor w).encode = .ok (restored, w')) :
        Resumes q restored

/-- What a query of a walk has in common with the one whose pages are walked through. -/
structure Shares (query q : Query) : Prop where
  schema : query.schema = q.schema
  table : query.table = q.table
  sort : query.sort = q.sort
  isProper : query.filterValue.IsProper

/-- A query restored from a cursor of the walk is one of the walk, and the window is that of the
cursor. -/
theorem Shares.of_restore (hquery : query.Shares q) (hw : w.check = .ok ()) {restored : Query}
    {w' : Window} (h : q.restore (query.cursor w).encode = .ok (restored, w')) :
    restored.Shares q ∧ w' = w := by
  obtain ⟨hproper, -⟩ := isProper_of_restore h
  obtain ⟨-, read, filter, -, -, rfl, rfl⟩ :=
    (restore_eq_ok_iff hquery.isProper hw hquery.schema.symm hquery.table.symm).1 h
  exact ⟨⟨hquery.schema, hquery.table, hquery.sort, hproper⟩, rfl⟩

/-- **All queries of a walk share these.** -/
theorem Resumes.shares (h : q.Resumes query) (hproper : q.filterValue.IsProper) :
    query.Shares q := by
  induction h with
  | self => exact ⟨rfl, rfl, rfl, hproper⟩
  | restored _ hw h ih => exact (ih.of_restore hw h).1

/-- A query that has pages and whose cursors are decoded. Its filter is a value that can be written.
-/
structure IsWalkable (q : Query) : Prop where
  isProper : q.filterValue.IsProper
  compiles : ∃ w statement, q.compilePage w = .ok statement
  decodes : ∀ w, w.check = .ok () → ∃ c, Cursor.decode (q.cursor w).encode = .ok c

/-- The cursors of a query that can be walked through are restored, whoever receives them. -/
theorem IsWalkable.exists_restore (hq : q.IsWalkable) (hw : w.check = .ok ()) :
    ∃ restored, ∀ r : Query, r.schema = q.schema → r.table = q.table →
      r.restore (q.cursor w).encode = .ok (restored, w) := by
  have hdepth := (exists_decode_iff hq.isProper hw).1 (hq.decodes w hw)
  obtain ⟨read, hread⟩ := Option.isSome_iff_exists.1 (Value.isSome_reread? hq.isProper)
  -- the filter of the query can be read, so the one read again can be
  obtain ⟨_, _, hcompile⟩ := hq.compiles
  obtain ⟨filter, hfilter⟩ := exists_filter hcompile
  obtain ⟨filter', hfilter', -⟩ :=
    (Filter.ofJson_congr (Value.form_of_reread? hread)).exists_right hfilter
  refine ⟨q.resumed read filter', fun r hschema htable => ?_⟩
  exact (restore_eq_ok_iff hq.isProper hw hschema htable).2
    ⟨hdepth, read, filter', hread, hfilter', rfl, rfl⟩

theorem IsWalkable.of_restore (hquery : query.IsWalkable) (hw : w.check = .ok ())
    (hschema : q.schema = query.schema) (htable : q.table = query.table) {restored : Query}
    {w' : Window} (h : q.restore (query.cursor w).encode = .ok (restored, w')) :
    restored.IsWalkable := by
  -- what was restored is proper and no deeper than before
  obtain ⟨hproper, hdepth⟩ := isProper_of_restore h
  obtain ⟨-, read, filter, hread, hfilter, rfl, -⟩ :=
    (restore_eq_ok_iff hquery.isProper hw hschema htable).1 h
  obtain ⟨w₀, statement, hcompile⟩ := hquery.compiles
  exact ⟨hproper, ⟨w₀, exists_compilePage_resumed hread hfilter hcompile⟩,
    fun w hw => (exists_decode_iff hproper hw).2 hdepth⟩

/-- **A walk never gets stuck at a cursor**: every query that it meets can be walked through. -/
theorem Resumes.isWalkable (h : q.Resumes query) (hq : q.IsWalkable) : query.IsWalkable := by
  induction h with
  | self => exact hq
  | restored hquery hw h ih =>
    have hshares := hquery.shares hq.isProper
    exact ih.of_restore hw hshares.schema.symm hshares.table.symm h

end Query

end LinkQuery
