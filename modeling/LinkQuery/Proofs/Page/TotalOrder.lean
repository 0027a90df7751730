import LinkQuery.Proofs.Page.Ordered

/-!
# Which orders of pages leave no choice

The pages of a query are fetched one by one, and every statement orders the rows anew. The pages fit
together only if the rows come in the same order each time. The primary key settles that, as no two
rows share it, but a random term in front of it does not: it decides between the rows, and each time
differently. So what matters is which of the two an order comes to first.

The primary key is added to the order of pages unless a term of the query has it as its column. A
random term may have a column too, which the statement does not show. With such a term on the
primary key, nothing is added, and the rows of each page come in an order of their own.

* `compareDrawing` compares rows by the terms of an order where a random term draws a number for
  each row, and `AgreeInOrder` says that fetches agree on the order whatever they draw.
* `agreeInOrder_iff` is the criterion: the order comes to the key before any random term.
* `Query.pageClause?_of_compilePage` applies it to the text of a page.
-/

namespace LinkQuery

/-! ### Drawing -/

section Draw

variable (cmp : String → Row → Row → Ordering) (draws : Nat → Row → Nat)

/-- Compares rows by the terms of an order. A random term compares the numbers drawn for the rows;
each term has draws of its own, told apart by how many terms follow. -/
def compareDrawing : List SortTerm → Row → Row → Ordering
  | [], _, _ => .eq
  | term :: rest, a, b =>
    (if term.isRandom then compareOn (draws rest.length) a b else compareTerm cmp term a b).then
      (compareDrawing rest a b)

/-- The rows stand in the order of the given terms and draws. -/
def IsDrawn (order : List SortTerm) (rows : List Row) : Prop :=
  rows.Pairwise fun a b => (compareDrawing cmp draws order a b).isLE

end Draw

/-- Any two fetches of the same rows agree on their order, whatever each of them draws. No two rows
share the key, and the values of a column may be ordered in any way. -/
def AgreeInOrder (key : String) (order : List SortTerm) : Prop :=
  ∀ (cmp : String → Row → Row → Ordering) [∀ column, Std.TransCmp (cmp column)]
    (draws draws' : Nat → Row → Nat) (rows rows' : List Row), rows'.Perm rows →
    rows.Pairwise (fun a b => cmp key a b ≠ .eq) →
    IsDrawn cmp draws order rows → IsDrawn cmp draws' order rows' → rows' = rows

/-- Whether an order comes to the key before any random term. -/
def settles (key : String) : List SortTerm → Bool
  | [] => false
  | term :: rest => !term.isRandom && (decide (term.column = key) || settles key rest)

variable {key : String}

theorem settles_cons {term : SortTerm} {rest : List SortTerm} :
    settles key (term :: rest) ↔ ¬ term.isRandom ∧ (term.column = key ∨ settles key rest) := by
  simp [settles]

/-- The key is among the terms of an order that comes to it. -/
theorem exists_mem_of_settles {order : List SortTerm} (h : settles key order) :
    ∃ term ∈ order, term.column = key ∧ ¬ term.isRandom := by
  induction order with
  | nil => cases h
  | cons term rest ih =>
    obtain ⟨hrandom, hkey | hrest⟩ := settles_cons.1 h
    · exact ⟨term, List.mem_cons_self, hkey, hrandom⟩
    · obtain ⟨term', hmem, hterm'⟩ := ih hrest
      exact ⟨term', List.mem_cons_of_mem _ hmem, hterm'⟩

/-- A change of terms that makes no random term of an ordinary one, nor the other way round, and
that keeps the columns of the ordinary ones. -/
structure KeepsColumns (f : SortTerm → SortTerm) : Prop where
  isRandom : ∀ term, (f term).isRandom = term.isRandom
  column : ∀ term, ¬ term.isRandom → (f term).column = term.column

theorem keepsColumns_reversed : KeepsColumns SortTerm.reversed where
  isRandom := SortTerm.isRandom_reversed
  column term _ := SortTerm.column_reversed term

theorem keepsColumns_shown : KeepsColumns SortTerm.shown where
  isRandom term := by
    unfold SortTerm.shown
    split
    next hrandom => exact hrandom.symm
    next => rfl
  column term hrandom := by rw [SortTerm.shown_of_not_isRandom hrandom]

theorem KeepsColumns.comp {f g : SortTerm → SortTerm} (hf : KeepsColumns f)
    (hg : KeepsColumns g) : KeepsColumns (f ∘ g) where
  isRandom term := (hf.isRandom (g term)).trans (hg.isRandom term)
  column term hrandom := by
    have hg' : ¬ (g term).isRandom := by rwa [hg.isRandom]
    exact (hf.column (g term) hg').trans (hg.column term hrandom)

/-- The opposite of what a statement shows is what the statement of the opposite order shows. -/
theorem SortTerm.shown_reversed (term : SortTerm) : term.reversed.shown = term.shown.reversed := by
  obtain ⟨column, direction⟩ := term
  cases direction <;> rfl

namespace KeepsColumns

variable {f : SortTerm → SortTerm} (h : KeepsColumns f) (order : List SortTerm)
include h

theorem settles_map : settles key (order.map f) = settles key order := by
  induction order with
  | nil => rfl
  | cons term rest ih =>
    rw [List.map_cons, Bool.eq_iff_iff, settles_cons, settles_cons, h.isRandom, ih]
    exact and_congr_right fun hterm => by rw [h.column term hterm]

theorem exists_ordered_map :
    (∃ term ∈ order.map f, term.column = key ∧ ¬ term.isRandom) ↔
      ∃ term ∈ order, term.column = key ∧ ¬ term.isRandom := by
  simp only [List.mem_map, exists_exists_and_eq_and]
  refine exists_congr fun term => and_congr_right fun _ => ?_
  rw [h.isRandom]
  exact and_congr_left fun hterm => by rw [h.column term hterm]

end KeepsColumns

/-! ### The criterion -/

section Criterion

variable {cmp : String → Row → Row → Ordering} {draws : Nat → Row → Nat}

/-- Rows that differ in the key are compared before anything is drawn. -/
theorem compareDrawing_eq_compareBy {order : List SortTerm} (h : settles key order) {a b : Row}
    (hkey : cmp key a b ≠ .eq) : compareDrawing cmp draws order a b = compareBy cmp order a b := by
  -- along the terms, up to the one that settles the order
  induction order with
  | nil => cases h
  | cons term rest ih =>
    obtain ⟨hrandom, hterm⟩ := settles_cons.1 h
    rw [compareDrawing, if_neg hrandom, compareBy]
    rcases hterm with rfl | hrest
    · -- this term decides, and what follows has no say
      have hdecided : compareTerm cmp term a b ≠ .eq := by
        intro heq
        have halone : compareBy cmp [term] a b = .eq := by
          rw [compareBy, heq]
          rfl
        exact hkey (eq_of_compareBy_eq halone List.mem_cons_self hrandom)
      cases hcompare : compareTerm cmp term a b with
      | lt => rfl
      | gt => rfl
      | eq => exact absurd hcompare hdecided
    · rw [ih hrest]

theorem IsDrawn.isOrdered {order : List SortTerm} (h : settles key order) {rows : List Row}
    (hkey : rows.Pairwise fun a b => cmp key a b ≠ .eq) (hrows : IsDrawn cmp draws order rows) :
    IsOrdered cmp order rows :=
  (hkey.and hrows).imp fun {_ _} hab => compareDrawing_eq_compareBy h hab.1 ▸ hab.2

/-- Orders that come to the key first leave no choice. -/
theorem agreeInOrder_of_settles {order : List SortTerm} (h : settles key order) :
    AgreeInOrder key order := by
  intro cmp _ draws draws' rows rows' hperm hkey hrows hrows'
  obtain ⟨term, hmem, rfl, hrandom⟩ := exists_mem_of_settles h
  have hkey' : rows'.Pairwise fun a b => cmp term.column a b ≠ .eq :=
    hkey.perm hperm.symm fun {a b} hab hba => hab (Std.OrientedCmp.eq_symm hba)
  exact (hrows.isOrdered h hkey).unique hmem hrandom hperm hkey (hrows'.isOrdered h hkey')

end Criterion

/-- Rows compared by the number of their cells in one column, and equal in all others. -/
def compareWidth (key column : String) : Row → Row → Ordering :=
  if column = key then compareOn List.length else fun _ _ => .eq

instance transCmp_compareWidth (key column : String) : Std.TransCmp (compareWidth key column) := by
  unfold compareWidth
  split
  · infer_instance
  · exact { eq_swap := rfl, isLE_trans := fun _ _ => rfl }

/-- What is compared first is drawn if the order does not come to the key: any two rows may stand
either way. -/
theorem isLE_compareDrawing {order : List SortTerm} (h : ¬ settles key order)
    {draws : Nat → Row → Nat} {a b : Row} (hdraws : ∀ i, draws i a < draws i b) :
    (compareDrawing (compareWidth key) draws order a b).isLE := by
  induction order with
  | nil => rfl
  | cons term rest ih =>
    rw [settles_cons, not_and_or, not_not, not_or] at h
    rw [compareDrawing]
    by_cases hrandom : term.isRandom
    · -- the lower number comes first
      rw [if_pos hrandom, compareOn, Std.compare_eq_lt.2 (hdraws _)]
      rfl
    · -- the rows are equal in the columns other than the key
      obtain ⟨hcolumn, hrest⟩ := h.resolve_left (fun hterm => hrandom hterm)
      have hequal : compareTerm (compareWidth key) term a b = .eq := by
        unfold compareTerm compareWidth
        rw [if_neg hcolumn]
        cases term.direction <;> rfl
      rw [if_neg hrandom, hequal]
      exact ih hrest

/-- **Fetches agree on the order of the rows if it comes to the key before any random term, and only
then.** Otherwise there are two rows that may come either way. -/
theorem agreeInOrder_iff {order : List SortTerm} : AgreeInOrder key order ↔ settles key order := by
  refine ⟨fun hagree => ?_, agreeInOrder_of_settles⟩
  by_contra h
  -- one fetch draws the higher number for the longer row, the other one for the shorter row
  let short : Row := []
  let long : Row := [("", .null)]
  have hkey : [short, long].Pairwise fun a b => compareWidth key key a b ≠ .eq := by
    simp [compareWidth, compareOn, short, long]
  have hrows : IsDrawn (compareWidth key) (fun _ row => row.length) order [short, long] := by
    have hle :
        (compareDrawing (compareWidth key) (fun _ row => row.length) order short long).isLE :=
      isLE_compareDrawing h fun _ => by simp [short, long]
    simpa [IsDrawn] using hle
  have hrows' : IsDrawn (compareWidth key) (fun _ row => 1 - row.length) order [long, short] := by
    have hle :
        (compareDrawing (compareWidth key) (fun _ row => 1 - row.length) order long short).isLE :=
      isLE_compareDrawing h fun _ => by simp [short, long]
    simpa [IsDrawn] using hle
  have hsame := hagree (compareWidth key) _ _ _ _ (.swap short long []) hkey hrows hrows'
  simp [short, long] at hsame

/-! ### Pages -/

namespace Query

/-- The key at the end settles what the terms leave open, unless they have drawn before. -/
theorem settles_append_key {sort : List SortTerm} :
    settles key (sort ++ [.asc key]) ↔ ∀ before term after, sort = before ++ term :: after →
      term.isRandom → ∃ t ∈ before, t.column = key ∧ ¬ t.isRandom := by
  induction sort with
  | nil => simp [settles, SortTerm.asc, SortTerm.isRandom]
  | cons first rest ih =>
    rw [List.cons_append, settles_cons, ih]
    constructor
    · rintro ⟨hfirst, hkey⟩ before term after hsplit hrandom
      cases before with
      | nil =>
        -- the first term is no random one
        obtain ⟨rfl, -⟩ := List.cons.inj hsplit
        exact absurd hrandom hfirst
      | cons head before =>
        obtain ⟨rfl, hrest⟩ := List.cons.inj hsplit
        rcases hkey with hkey | hkey
        · exact ⟨first, List.mem_cons_self, hkey, hfirst⟩
        · obtain ⟨t, hmem, ht⟩ := hkey before term after hrest hrandom
          exact ⟨t, List.mem_cons_of_mem _ hmem, ht⟩
    · intro h
      refine ⟨fun hrandom => ?_, or_iff_not_imp_left.2 fun hcolumn => ?_⟩
      · obtain ⟨t, hmem, -⟩ := h [] first rest rfl hrandom
        exact absurd hmem List.not_mem_nil
      · intro before term after hrest hrandom
        obtain ⟨t, hmem, ht⟩ := h (first :: before) term after (congrArg _ hrest) hrandom
        rcases List.mem_cons.1 hmem with rfl | hmem
        · exact absurd ht.1 hcolumn
        · exact ⟨t, hmem, ht⟩

/-- Where a term has the key as its column, another one at the end changes nothing. -/
theorem settles_pageOrder {sort : List SortTerm} :
    settles key (pageOrder key sort) = settles key (sort ++ [.asc key]) := by
  unfold pageOrder
  split
  -- the key is among the terms, and everything behind it has no say
  next h =>
    induction sort with
    | nil => cases h
    | cons first rest ih =>
      rw [List.any_cons, Bool.or_eq_true, decide_eq_true_iff] at h
      rw [List.cons_append, settles, settles]
      by_cases hcolumn : first.column = key
      · simp [hcolumn]
      · rw [ih (h.resolve_left hcolumn)]
  next => rfl

/-- The key is missing from the order of pages if all terms of the query that have it as their
column are random. -/
theorem key_mem_pageOrder_iff {sort : List SortTerm} :
    (∃ term ∈ pageOrder key sort, term.column = key ∧ ¬ term.isRandom) ↔
      ((∃ term ∈ sort, term.column = key) →
        ∃ term ∈ sort, term.column = key ∧ ¬ term.isRandom) := by
  unfold pageOrder
  split
  -- a term on the key is there already, and nothing is appended
  next h =>
    have hkey : ∃ term ∈ sort, term.column = key := by simpa using h
    exact (imp_iff_right hkey).symm
  -- the ascending key is appended
  next h =>
    have hkey : ¬ ∃ term ∈ sort, term.column = key := by simpa using h
    exact iff_of_true ⟨.asc key, by simp, rfl, by simp [SortTerm.asc, SortTerm.isRandom]⟩
      fun hsome => absurd hsome hkey

/-- The terms of a column that are not random are its two ordinary ones. -/
theorem exists_ordered_iff {order : List SortTerm} :
    (∃ term ∈ order, term.column = key ∧ ¬ term.isRandom) ↔
      .asc key ∈ order ∨ .desc key ∈ order := by
  constructor
  · rintro ⟨⟨column, direction⟩, hmem, rfl, hrandom⟩
    cases direction with
    | asc => exact .inl hmem
    | desc => exact .inr hmem
    | random => exact absurd rfl hrandom
  · rintro (hmem | hmem)
    · exact ⟨_, hmem, rfl, by simp [SortTerm.asc, SortTerm.isRandom]⟩
    · exact ⟨_, hmem, rfl, by simp [SortTerm.desc, SortTerm.isRandom]⟩

/-- What a statement shows keeps the columns of the order, from either end. -/
theorem exists_keepsColumns (anchor : Anchor) : ∃ f, KeepsColumns f ∧ ∀ order,
    (fetchOrder anchor order).map SortTerm.shown = order.map f := by
  cases anchor with
  | front => exact ⟨_, keepsColumns_shown, fun order => rfl⟩
  | back =>
    exact ⟨_, keepsColumns_shown.comp keepsColumns_reversed, fun order => List.map_map⟩

/-- The statements of windows show one and the same order: those of windows at the other end show
the opposite one. -/
theorem shown_fetchOrder (anchor anchor' : Anchor) (order : List SortTerm) :
    (fetchOrder anchor' order).map SortTerm.shown =
      if anchor' = anchor then (fetchOrder anchor order).map SortTerm.shown
      else ((fetchOrder anchor order).map SortTerm.shown).map SortTerm.reversed := by
  have hcomm : (order.map SortTerm.reversed).map SortTerm.shown =
      (order.map SortTerm.shown).map SortTerm.reversed := by
    rw [List.map_map, List.map_map]
    exact List.map_congr_left fun term _ => SortTerm.shown_reversed term
  cases anchor <;> cases anchor' <;> simp [fetchOrder, hcomm]

/-- **What the statement of a page orders by.** -/
theorem pageClause?_of_compilePage {q : Query} {w : Window} {statement : Sql.Statement}
    (h : q.compilePage w = .ok statement) {table : Table}
    (htable : q.schema.table? q.table = some table) :
    ∃ clause, statement.pageClause? = some clause ∧
      ((.asc table.primaryKey ∈ clause.order ∨ .desc table.primaryKey ∈ clause.order) ↔
        ((∃ term ∈ q.sort, term.column = table.primaryKey) →
          ∃ term ∈ q.sort, term.column = table.primaryKey ∧ ¬ term.isRandom)) ∧
      (AgreeInOrder table.primaryKey clause.order ↔
        ∀ before term after, q.sort = before ++ term :: after → term.isRandom →
          ∃ t ∈ before, t.column = table.primaryKey ∧ ¬ t.isRandom) ∧
      ∀ w' : Window, w'.check = .ok () → ∃ statement' clause',
        q.compilePage w' = .ok statement' ∧ statement'.pageClause? = some clause' ∧
          clause'.order =
            if w'.anchor = w.anchor then clause.order else clause.order.map SortTerm.reversed := by
  obtain ⟨found, hfound, hpages⟩ := pagesBy_of_compilePage h
  obtain rfl := Option.some.inj ((Schema.requireTable_eq_ok_iff.1 hfound).symm.trans htable)
  obtain ⟨s, hs, -⟩ := map_eq_ok_iff.1 h
  obtain ⟨statement', hstatement', hclause⟩ := hpages w (check_of_buildPage hs)
  obtain rfl := Except.ok.inj (hstatement'.symm.trans h)
  obtain ⟨f, hf, hshown⟩ := exists_keepsColumns w.anchor
  refine ⟨_, hclause, ?_, ?_, fun w' hw' => ?_⟩
  · -- the order that is sent has the columns and the random terms of the one shown
    rw [← exists_ordered_iff, hshown, hf.exists_ordered_map]
    exact key_mem_pageOrder_iff
  · rw [agreeInOrder_iff, hshown, hf.settles_map, settles_pageOrder, settles_append_key]
  · obtain ⟨statement', hstatement', hclause'⟩ := hpages w' hw'
    exact ⟨statement', _, hstatement', hclause', shown_fetchOrder w.anchor w'.anchor _⟩

/-- Teams with names. -/
def namedTeams : Schema :=
  ⟨[(Table.named "teams").addPrimaryKey "xata_id" "text" |>.addColumn "name" "text"]⟩

/-- **A page in no order of its own.** The term on the primary key is a random one. Nothing is added
to the order, which does not have the primary key, and another fetch may deliver other rows. -/
theorem random_key_not_ordered :
    let q := (Query.new namedTeams "teams").addSort ⟨"xata_id", .random⟩
    ∃ statement clause, q.compilePage (.front 0 20) = .ok statement ∧
      statement = ⟨"select \"xata_id\", \"name\" from \"teams\" order by random() limit $1",
        [.int 21]⟩ ∧
      statement.pageClause? = some clause ∧
      ¬ (.asc "xata_id" ∈ clause.order ∨ .desc "xata_id" ∈ clause.order) ∧
      ¬ AgreeInOrder "xata_id" clause.order := by
  refine ⟨⟨"select \"xata_id\", \"name\" from \"teams\" order by random() limit $1", [.int 21]⟩,
    ⟨[.random], 21, 0⟩, by decide +kernel, rfl, by decide +kernel, by decide, ?_⟩
  rw [agreeInOrder_iff]
  decide

/-- The last teams by name, from the end. -/
theorem pageClause?_of_compilePage_by_name :
    let q := (Query.new namedTeams "teams").addSort (.desc "name")
    ∃ statement clause, q.compilePage (.back 0 2) = .ok statement ∧
      statement.pageClause? = some clause ∧ AgreeInOrder "xata_id" clause.order := by
  intro q
  obtain ⟨statement, hcompile⟩ : ∃ statement, q.compilePage (.back 0 2) = .ok statement :=
    fault?_eq_none_iff.1 (by decide +kernel)
  have htable : q.schema.table? q.table = some namedTeams.tables[0] := rfl
  obtain ⟨clause, hclause, -, hagree, -⟩ := pageClause?_of_compilePage hcompile htable
  refine ⟨statement, clause, hcompile, hclause, hagree.2 ?_⟩
  -- no term of the query is a random one
  intro before term after hsplit hrandom
  have hmem : term ∈ q.sort := by rw [hsplit]; simp
  obtain rfl := List.mem_singleton.1 hmem
  cases hrandom

end Query

end LinkQuery
