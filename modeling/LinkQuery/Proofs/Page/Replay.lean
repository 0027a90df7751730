import LinkQuery.Page.Fetch
import LinkQuery.Proofs.Filter.Conditions
import LinkQuery.Proofs.Filter.Members
import LinkQuery.Proofs.Page.CursorToken

/-!
# Replaying a query from a cursor

A cursor holds the filter of a query as one value, where the query has layers, and the query
restored from it has that value for its only layer, or no layer if the value demands nothing.
Neither makes a difference to what is compiled.

* `Query.ofJson_filterValue`: the filter of a query is the conjunction of its layers, however many
  they are.
* `Restriction.ofFilter_dropVacuous`: a vacuous filter leaves no trace in a conjunction.
* `Query.restriction_dropVacuous`: a query demands what it would if its vacuous layers were not
  there.
* `Query.cursor_replays`: the query restored from a cursor is compiled as the one it was made of.
-/

namespace LinkQuery

open Json (Value)

/-! ### Vacuous filters -/

namespace Filter

mutual

/-- A vacuous filter puts no condition on a row. -/
theorem localCondition_of_isVacuous {table : Table} {filter : Filter} (h : filter.isVacuous) :
    filter.localCondition table = .ok none := by
  match filter with
  | group .all members | group .any members =>
    rw [localCondition, localConditions_of_areVacuous h]
    rfl
  | group .notAll _ | group .notAny _ | column _ _ | present _ _ | link _ _ =>
    simp [isVacuous] at h

theorem localConditions_of_areVacuous {table : Table} {filters : List Filter}
    (h : areVacuous filters) : localConditions table filters = .ok [] := by
  match filters with
  | [] => rfl
  | f :: rest =>
    rw [areVacuous, Bool.and_eq_true] at h
    rw [localConditions, localCondition_of_isVacuous h.1, localConditions_of_areVacuous h.2]
    rfl

end

mutual

theorem condition_of_isVacuous {table : Table} {filter : Filter} (h : filter.isVacuous) :
    filter.condition table = .ok none := by
  match filter with
  -- only plain groups are vacuous, and those through their members
  | group .all members =>
    rw [condition, memberConditions_of_areVacuous h]
    rfl
  | group .any members =>
    rw [condition]
    · exact localCondition_of_isVacuous h
    all_goals nofun
  | group .notAll _ | group .notAny _ | column _ _ | present _ _ | link _ _ =>
    simp [isVacuous] at h

theorem memberConditions_of_areVacuous {table : Table} {filters : List Filter}
    (h : areVacuous filters) : memberConditions table filters = .ok [] := by
  match filters with
  | [] => rw [memberConditions]
  | f :: rest =>
    rw [areVacuous, Bool.and_eq_true] at h
    rw [memberConditions, condition_of_isVacuous h.1, memberConditions_of_areVacuous h.2]
    rfl

end

mutual

theorem linkFilters_of_isVacuous {filter : Filter} (h : filter.isVacuous) :
    filter.linkFilters = [] := by
  match filter with
  | group .all members =>
    rw [linkFilters]
    exact memberLinkFilters_of_areVacuous h
  | group .any members => simp [linkFilters]
  | group .notAll _ | group .notAny _ | column _ _ | present _ _ | link _ _ =>
    simp [isVacuous] at h

theorem memberLinkFilters_of_areVacuous {filters : List Filter} (h : areVacuous filters) :
    memberLinkFilters filters = [] := by
  match filters with
  | [] => rfl
  | f :: rest =>
    rw [areVacuous, Bool.and_eq_true] at h
    rw [memberLinkFilters, linkFilters_of_isVacuous h.1, memberLinkFilters_of_areVacuous h.2]
    rfl

end

/-! ### Conjunctions -/

section DropVacuous

variable {before after : List Filter} {vacuous : Filter}

theorem memberConditions_dropVacuous (table : Table) (h : vacuous.isVacuous) :
    memberConditions table (before ++ vacuous :: after) =
      memberConditions table (before ++ after) := by
  induction before with
  | nil =>
    rw [List.nil_append, List.nil_append, memberConditions, condition_of_isVacuous h]
    cases memberConditions table after <;> rfl
  | cons f rest ih =>
    rw [List.cons_append, List.cons_append, memberConditions, memberConditions, ih]

theorem memberLinkFilters_dropVacuous (h : vacuous.isVacuous) :
    memberLinkFilters (before ++ vacuous :: after) = memberLinkFilters (before ++ after) := by
  induction before with
  | nil =>
    rw [List.nil_append, List.nil_append, memberLinkFilters, linkFilters_of_isVacuous h,
      List.nil_append]
  | cons f rest ih => rw [List.cons_append, List.cons_append, memberLinkFilters, memberLinkFilters,
    ih]

end DropVacuous

end Filter

open LinkQuery.Filter in
/-- **A vacuous filter leaves no trace in a conjunction.** -/
theorem Restriction.ofFilter_dropVacuous (schema : Schema) (tableName : String)
    {before after : List Filter} {vacuous : Filter} (h : vacuous.isVacuous) :
    Restriction.ofFilter schema tableName (conjunction (before ++ vacuous :: after)) =
      Restriction.ofFilter schema tableName (conjunction (before ++ after)) := by
  -- the vacuous filter adds nothing, neither to the own condition nor behind a link
  have hcondition : ∀ table, (conjunction (before ++ vacuous :: after)).condition table =
      (conjunction (before ++ after)).condition table := by
    intro table
    rw [condition_conjunction, condition_conjunction, memberConditions_dropVacuous table h]
  have hlinks : ∀ table, (conjunction (before ++ vacuous :: after)).linkGroups table =
      (conjunction (before ++ after)).linkGroups table := by
    intro table
    rw [linkGroups, linkGroups, linkFilters_conjunction, linkFilters_conjunction,
      memberLinkFilters_dropVacuous h]
  rw [Restriction.ofFilter_eq, Restriction.ofFilter_eq]
  simp only [hcondition, hlinks]

/-! ### Layers -/

namespace Query

/-- The filter of a query is the conjunction of its layers. -/
theorem ofJson_filterValue (q : Query) :
    Filter.ofJson q.filterValue = (Filter.ofItems q.layers).map Filter.conjunction := by
  unfold filterValue
  split
  next hlayers => rw [hlayers]; rfl
  next layer hlayers =>
    rw [hlayers, Filter.ofItems, Filter.ofItems]
    cases Filter.ofJson layer <;> rfl
  next hnil hone =>
    -- several layers are combined under one name
    have hmember : Filter.ofMember Combinator.all.key (.array q.layers) =
        (Filter.ofItems q.layers).map (.group .all) := by
      have hkey : Filter.splitKey Combinator.all.key = .ok ([], "$all") := by decide
      rw [Filter.ofMember, hkey]
      show (do
        let members ← Filter.ofItems q.layers
        let members ← Combinator.all.checked members
        Except.ok (Filter.group .all members)) = _
      cases Filter.ofItems q.layers <;> rfl
    rw [Filter.ofJson, Filter.ofMembers, Filter.ofMembers, hmember]
    cases hread : Filter.ofItems q.layers with
    | error e => rfl
    | ok filters =>
      -- there are as many filters as layers, so not exactly one
      have hfilters : Filter.conjunction filters = .group .all filters := by
        unfold Filter.conjunction
        split
        next f =>
          rw [Filter.ofItems_eq_mapM] at hread
          have hlength := (mapM_eq_ok_iff.1 hread).length_eq
          obtain ⟨layer, hlayer⟩ := List.length_eq_one_iff.1 hlength
          exact absurd hlayer (hone layer)
        next => rfl
      show Except.ok (Filter.group .all filters) = Except.ok (Filter.conjunction filters)
      rw [hfilters]

/-- What the filter of a query demands. -/
def restriction (q : Query) : Except Error Restriction :=
  Filter.ofJson q.filterValue >>= Restriction.ofFilter q.schema q.table

theorem build_eq (q : Query) (order : List SortTerm) (limit : Option (Nat × Nat)) :
    q.build order limit = (do
      let selection ← Selection.ofColumns q.schema q.table (q.columns.getD [])
      let r ← q.restriction
      Sql.SelectStatement.build q.schema q.table selection r order limit) := by
  unfold build restriction
  cases Selection.ofColumns q.schema q.table (q.columns.getD []) with
  | error e => rfl
  | ok selection => cases Filter.ofJson q.filterValue <;> rfl

/-- Queries that differ in their layers are compiled alike if these demand the same. -/
theorem build_withLayers {q : Query} {layers layers' : List Value}
    (h : restriction { q with layers := layers } = restriction { q with layers := layers' })
    (order : List SortTerm) (limit : Option (Nat × Nat)) :
    build { q with layers := layers } order limit =
      build { q with layers := layers' } order limit := by
  rw [build_eq, build_eq, h]

theorem compile_withLayers {q : Query} {layers layers' : List Value}
    (h : restriction { q with layers := layers } = restriction { q with layers := layers' }) :
    compile { q with layers := layers } = compile { q with layers := layers' } ∧
      ∀ w, compilePage { q with layers := layers } w =
        compilePage { q with layers := layers' } w := by
  -- the layers enter a statement through the restriction alone
  have hbuild := build_withLayers h
  refine ⟨?_, fun w => ?_⟩
  · unfold compile
    rw [hbuild]
  · unfold compilePage buildPage
    simp only [hbuild]

/-- **A vacuous layer makes no difference**, wherever it stands. -/
theorem restriction_dropVacuous (q : Query) (before after : List Value) {layer : Value}
    {vacuous : Filter} (hread : Filter.ofJson layer = .ok vacuous) (h : vacuous.isVacuous) :
    restriction { q with layers := before ++ layer :: after } =
      restriction { q with layers := before ++ after } := by
  unfold restriction
  rw [ofJson_filterValue, ofJson_filterValue, Filter.ofItems_eq_mapM, Filter.ofItems_eq_mapM,
    List.mapM_append, List.mapM_append, List.mapM_cons, hread]
  -- the layers on either side are read first, and may be refused in both
  cases before.mapM Filter.ofJson with
  | error e => rfl
  | ok fs =>
    cases after.mapM Filter.ofJson with
    | error e => rfl
    | ok gs => exact Restriction.ofFilter_dropVacuous q.schema q.table h

/-- The layers of a query may be put together. -/
theorem restriction_filterValue (q : Query) :
    restriction { q with layers := [q.filterValue] } = q.restriction := rfl

/-! ### Restored queries -/

theorem areProper_iff {values : List Value} :
    Value.AreProper values ↔ ∀ v ∈ values, v.IsProper := by
  induction values with
  | nil => simp [Value.AreProper]
  | cons v rest ih => rw [Value.AreProper, List.forall_mem_cons, ih]

/-- The filter of a query is proper if its layers are. -/
theorem isProper_filterValue {q : Query} (h : ∀ layer ∈ q.layers, layer.IsProper) :
    q.filterValue.IsProper := by
  unfold filterValue
  split
  next => exact ⟨List.nodup_nil, trivial⟩
  next layer hlayers => exact h layer (by rw [hlayers]; exact List.mem_singleton_self layer)
  next => exact ⟨by simp, areProper_iff.2 h, trivial⟩

theorem mem_itemsFloats_iff {values : List Value} {x : Binary64} :
    x ∈ Value.itemsFloats values ↔ ∃ v ∈ values, x ∈ v.floats := by
  induction values with
  | nil => simp [Value.itemsFloats]
  | cons v rest ih => simp [Value.itemsFloats, ih]

/-- The floats in the filter of a query are those in its layers. -/
theorem exists_layer_of_mem_floats {q : Query} {x : Binary64} (h : x ∈ q.filterValue.floats) :
    ∃ layer ∈ q.layers, x ∈ layer.floats := by
  unfold filterValue at h
  split at h
  next => exact absurd h (by simp [Value.floats, Value.membersFloats])
  next layer hlayers => exact ⟨layer, by rw [hlayers]; exact List.mem_singleton_self layer, h⟩
  next =>
    rw [Value.floats, Value.membersFloats, Value.membersFloats, List.append_nil] at h
    exact mem_itemsFloats_iff.1 h

/-- The query restored from a cursor of a query whose filter reads as `filter`. -/
def restored (q : Query) (filter : Filter) : Query :=
  { q with layers := if filter.isVacuous then [] else [q.filterValue] }

theorem restore_encode {q r : Query} {w : Window} {filter : Filter} (hschema : r.schema = q.schema)
    (htable : r.table = q.table) (hfilter : Filter.ofJson q.filterValue = .ok filter)
    (hdecode : Cursor.decode (q.cursor w).encode = .ok (q.cursor w)) :
    r.restore (q.cursor w).encode = .ok (q.restored filter, w) := by
  -- the cursor names the table of the query that receives it
  have hsame : ¬ (q.cursor w).table ≠ r.table := fun hne => hne htable.symm
  have hread : Filter.ofJson (q.cursor w).filter = .ok filter := hfilter
  unfold restore
  rw [hdecode]
  show (if (q.cursor w).table ≠ r.table then _ else _) = _
  rw [if_neg hsame, hread]
  show Except.ok _ = _
  rw [hschema, htable]
  rfl

/-- What the restored query demands is what the query demands. -/
theorem restriction_restored {q : Query} {filter : Filter}
    (hfilter : Filter.ofJson q.filterValue = .ok filter) :
    (q.restored filter).restriction = q.restriction := by
  unfold restored
  split
  -- the layer that a vacuous filter would leave is dropped
  next hvacuous =>
    calc restriction { q with layers := [] }
        = restriction { q with layers := [q.filterValue] } :=
          (q.restriction_dropVacuous [] [] hfilter hvacuous).symm
      _ = q.restriction := q.restriction_filterValue
  next => exact q.restriction_filterValue

/-- What a token means depends on the schema and the table alone. -/
theorem restore_congr {r r' : Query} (hschema : r.schema = r'.schema) (htable : r.table = r'.table)
    (token : String) : r.restore token = r'.restore token := by
  unfold restore
  rw [hschema, htable]

/-- **A cursor replays the query that made it.** If the cursor of a query is accepted, then every
query on the same schema and table restores the same query from it, which is compiled as the query
that made the cursor, and the same window. So what a request relative to a cursor leads to does not
depend on the query that receives it. A vacuous filter may be dropped from a query, for nothing is
compiled differently. -/
theorem cursor_replays :
    (∀ (q : Query) (w : Window) (filter : Filter) (read : Cursor),
      Filter.ofJson q.filterValue = .ok filter →
      (∀ layer ∈ q.layers, layer.IsProper ∧ ∀ x ∈ layer.floats, x.reread? = some x) →
      Cursor.decode (q.cursor w).encode = .ok read →
        ∃ restored : Query,
          (∀ r : Query, r.schema = q.schema → r.table = q.table →
            r.restore (q.cursor w).encode = .ok (restored, w)) ∧
          restored.compile = q.compile ∧ ∀ w', restored.compilePage w' = q.compilePage w') ∧
    (∀ r r' : Query, r.schema = r'.schema → r.table = r'.table →
      ∀ (m : Type → Type) [Monad m] (transport : Transport m) (step : PageStep) (token : String)
        (size : Option Nat),
        r.paginate transport (.relative step token size) =
          r'.paginate transport (.relative step token size)) ∧
    ∀ (q : Query) (before after : List Value) (layer : Value) (vacuous : Filter),
      q.layers = before ++ layer :: after → Filter.ofJson layer = .ok vacuous → vacuous.isVacuous →
        compile { q with layers := before ++ after } = q.compile ∧
          ∀ w, compilePage { q with layers := before ++ after } w = q.compilePage w := by
  refine ⟨fun q w filter read hfilter hlayers hread => ?_, fun r r' hschema htable => ?_,
    fun q before after layer vacuous hq hlayer hvacuous => ?_⟩
  · -- all floats of the layers read back exactly, so the token gives the very cursor
    have hproper : (q.cursor w).filter.IsProper :=
      isProper_filterValue fun layer hlayer => (hlayers layer hlayer).1
    have hfloats : ∀ x ∈ (q.cursor w).filter.floats, x.reread? = some x := by
      intro x hx
      obtain ⟨layer, hlayer, hx⟩ := exists_layer_of_mem_floats hx
      exact (hlayers layer hlayer).2 x hx
    obtain rfl := Cursor.eq_of_decode_encode hproper hfloats hread
    have hcompile := compile_withLayers (restriction_restored hfilter)
    exact ⟨q.restored filter, fun r hschema htable => restore_encode hschema htable hfilter hread,
      hcompile⟩
  · intro m _ transport step token size
    -- a request is resolved against the schema and the table only
    have htarget : PageRequest.target r (.relative step token size) =
        PageRequest.target r' (.relative step token size) := by
      rw [PageRequest.target, PageRequest.target, restore_congr hschema htable]
    unfold paginate
    rw [htarget]
  · have hsame := q.restriction_dropVacuous before after hlayer hvacuous
    rw [← hq] at hsame
    exact compile_withLayers hsame.symm

/-- Two layers, one of them vacuous, with a pattern, an order and columns. -/
theorem cursor_replays_two_layers :
    let q := (new ⟨[Table.named "t"]⟩ "t").addFilter
        (.object [("name", .object [("$contains", .text "50%")])])
      |>.addCombined .any [.object [("$all", .array [])]] |>.addSort (.desc "n")
      |>.select ["name", "n"]
    let rows := "select \"xata_id\", \"name\", \"n\" from \"t\" where \"name\" like $1"
    let page := rows ++ " order by \"n\" desc, \"xata_id\" asc limit $2 offset $3"
    ∃ restored : Query,
      (∀ r : Query, r.schema = q.schema → r.table = q.table →
        r.restore (q.cursor (.front 2 5)).encode = .ok (restored, .front 2 5)) ∧
      restored.compilePage (.front 7 5) =
        .ok ⟨page, [.text "%50\\%%", .int 6, .int 7]⟩ := by
  intro q rows page
  have hcompile : q.compilePage (.front 7 5) =
      .ok ⟨page, [.text "%50\\%%", .int 6, .int 7]⟩ := by
    decide +kernel
  have hlayers : ∀ layer ∈ q.layers, layer.IsProper ∧ ∀ x ∈ layer.floats, x.reread? = some x := by
    intro layer hlayer
    have hmem : layer = .object [("name", .object [("$contains", .text "50%")])] ∨
        layer = .object [("$any", .array [.object [("$all", .array [])]])] := by
      simpa [q, addFilter, addCombined, addColumnFilter, addSort, select, new, Combinator.key]
        using hlayer
    rcases hmem with rfl | rfl
    · exact ⟨⟨by simp, ⟨⟨by simp, ⟨trivial, trivial⟩⟩, trivial⟩⟩, nofun⟩
    · exact ⟨⟨by simp, ⟨⟨⟨by simp, trivial, trivial⟩, trivial⟩, trivial⟩⟩, nofun⟩
  have hdecode : Cursor.decode (q.cursor (.front 2 5)).encode = .ok (q.cursor (.front 2 5)) :=
    Cursor.decode_encode_self rfl (isProper_filterValue fun layer hlayer =>
      (hlayers layer hlayer).1)
      (by decide) nofun
  obtain ⟨restored, hrestored, -, hpages⟩ :=
    cursor_replays.1 q (.front 2 5) _ _ rfl hlayers hdecode
  exact ⟨restored, hrestored, (hpages _).trans hcompile⟩

end Query

end LinkQuery
