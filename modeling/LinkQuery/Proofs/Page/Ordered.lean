import LinkQuery.Proofs.Page.Adjacent
import LinkQuery.Proofs.Page.Statement
import Mathlib.Data.List.Pairwise

/-!
# Pages of ordered rows

A page is the window of the ordered rows that it was asked for, whichever end the window is counted
from.

The database orders the rows by the terms that it reads in the text of the statement. Each column
has some order of its values; `compareBy` compares rows by the terms of an order, one after the
other. Since the order of pages contains the primary key, no two rows are equal in it, and there is
only one way to order the rows (`IsOrdered.unique`). In the opposite order they come in reverse
(`IsOrdered.reverse`), so a window at the end is fetched as one at the start and turned round.

* `Answers` says of a database that it orders its rows and cuts them as asked. One that sorts them
  is such a database (`answers_sorting`).
* `Query.page_eq_window` is the law of pages.
-/

namespace LinkQuery

/-! ### Orders -/

section Compare

variable (cmp : String → Row → Row → Ordering)

/-- Compares rows by a term. A random term decides nothing. -/
def compareTerm (term : SortTerm) (a b : Row) : Ordering :=
  match term.direction with
  | .asc => cmp term.column a b
  | .desc => (cmp term.column a b).swap
  | .random => .eq

/-- Compares rows by the terms of an order: a later one decides between rows that the earlier ones
leave equal. -/
def compareBy : List SortTerm → Row → Row → Ordering
  | [], _, _ => .eq
  | term :: rest, a, b => (compareTerm cmp term a b).then (compareBy rest a b)

/-- The rows stand in the order of the given terms. -/
def IsOrdered (order : List SortTerm) (rows : List Row) : Prop :=
  rows.Pairwise fun a b => (compareBy cmp order a b).isLE

end Compare

variable {cmp : String → Row → Row → Ordering}

theorem compareTerm_reversed (term : SortTerm) (a b : Row) :
    compareTerm cmp term.reversed a b = (compareTerm cmp term a b).swap := by
  obtain ⟨column, direction⟩ := term
  cases direction with
  | asc => rfl
  | desc => exact (Ordering.swap_swap).symm
  | random => rfl

theorem compareBy_reversed (order : List SortTerm) (a b : Row) :
    compareBy cmp (order.map SortTerm.reversed) a b = (compareBy cmp order a b).swap := by
  induction order with
  | nil => rfl
  | cons term rest ih =>
    rw [List.map_cons, compareBy, compareTerm_reversed, ih, compareBy, Ordering.swap_then]

/-- Rows that are equal in an order are equal in each of its terms. -/
theorem eq_of_compareBy_eq {order : List SortTerm} {a b : Row} (h : compareBy cmp order a b = .eq)
    {term : SortTerm} (hmem : term ∈ order) (hrandom : ¬ term.isRandom) :
    cmp term.column a b = .eq := by
  induction order with
  | nil => simp at hmem
  | cons first rest ih =>
    rw [compareBy, Ordering.then_eq_eq] at h
    rcases List.mem_cons.1 hmem with rfl | hmem
    · -- turning the term round leaves equal rows equal
      have hterm := h.1
      unfold compareTerm at hterm
      obtain ⟨column, direction⟩ := term
      cases direction with
      | asc => exact hterm
      | desc => simpa using hterm
      | random => exact absurd rfl hrandom
    · exact ih h.2 hmem

variable [∀ column, Std.TransCmp (cmp column)]

theorem compareTerm_swap (term : SortTerm) (a b : Row) :
    compareTerm cmp term b a = (compareTerm cmp term a b).swap := by
  have hswap : cmp term.column b a = (cmp term.column a b).swap := Std.OrientedCmp.eq_swap
  unfold compareTerm
  cases term.direction with
  | asc => exact hswap
  | desc => exact congrArg Ordering.swap hswap
  | random => rfl

theorem compareBy_swap (order : List SortTerm) (a b : Row) :
    compareBy cmp order b a = (compareBy cmp order a b).swap := by
  induction order with
  | nil => rfl
  | cons term rest ih => rw [compareBy, compareTerm_swap, ih, compareBy, Ordering.swap_then]

/-- In the opposite order, rows come in reverse. -/
theorem IsOrdered.reverse {order : List SortTerm} {rows : List Row}
    (h : IsOrdered cmp order rows) :
    IsOrdered cmp (order.map SortTerm.reversed) rows.reverse := by
  unfold IsOrdered at h ⊢
  rw [List.pairwise_reverse]
  refine h.imp fun {a b} hab => ?_
  rw [compareBy_reversed, compareBy_swap, Ordering.swap_swap]
  exact hab

/-- There is one way to order rows in an order that has the primary key among its terms. -/
theorem IsOrdered.unique {order : List SortTerm} {key : SortTerm} (hmem : key ∈ order)
    (hrandom : ¬ key.isRandom) {rows rows' : List Row} (hperm : rows'.Perm rows)
    (hkey : rows.Pairwise fun a b => cmp key.column a b ≠ .eq) (h : IsOrdered cmp order rows)
    (h' : IsOrdered cmp order rows') : rows' = rows := by
  refine List.Perm.eq_of_pairwise (fun a b ha hb hab hba => ?_) h' h hperm
  -- rows that may stand either way are equal in the order, so in the key, which no two rows share
  have heq : compareBy cmp order a b = .eq := by
    rw [compareBy_swap order a b] at hba
    exact Ordering.eq_eq_of_isLE_of_isLE_swap hab hba
  by_contra hne
  have hsymm : Std.Symm fun a b => cmp key.column a b ≠ .eq :=
    ⟨fun a b hab hba => hab (Std.OrientedCmp.eq_symm hba)⟩
  exact hkey.forall (hperm.subset ha) hb hne (eq_of_compareBy_eq heq hmem hrandom)

/-! ### The database -/

variable {m : Type → Type} [Monad m]

/-- A database that holds `rows`. It orders them as the statement asks, and delivers as many of them
as are wanted behind those that are left out. -/
def Answers (cmp : String → Row → Row → Ordering) (rows : List Row) (transport : Transport m) :
    Prop :=
  ∀ statement clause, statement.pageClause? = some clause →
    ∃ sorted, sorted.Perm rows ∧ IsOrdered cmp clause.order sorted ∧
      transport statement = pure (.ok ((sorted.drop clause.offset).take clause.limit))

/-- A database that sorts its rows anew for every statement. -/
def sorting (cmp : String → Row → Row → Ordering) (rows : List Row) : Transport m :=
  fun statement =>
    match statement.pageClause? with
    | some clause =>
      let sorted := rows.mergeSort fun a b => (compareBy cmp clause.order a b).isLE
      pure (.ok ((sorted.drop clause.offset).take clause.limit))
    | none => pure (.error ⟨"the statement asks for no page", []⟩)

namespace Query

theorem fetch_of_answer [LawfulMonad m] {q : Query} {w : Window} {statement : Sql.Statement}
    (hstatement : q.compilePage w = .ok statement) {transport : Transport m} {rows : List Row}
    (h : transport statement = pure (.ok rows)) :
    q.fetch transport w = pure (.ok (q.page w rows)) := by
  unfold fetch
  rw [hstatement]
  dsimp only
  rw [h, pure_bind]

/-- The primary key is among the terms of the order of pages. -/
theorem exists_key_mem_pageOrder (key : String) {sort : List SortTerm}
    (hrandom : ∀ term ∈ sort, ¬ term.isRandom) :
    ∃ term ∈ pageOrder key sort, term.column = key ∧ ¬ term.isRandom := by
  unfold pageOrder
  by_cases hsort : sort.any (·.column = key)
  · obtain ⟨term, hmem, hcolumn⟩ := List.any_eq_true.1 hsort
    rw [if_pos hsort]
    exact ⟨term, hmem, by simpa using hcolumn, hrandom term hmem⟩
  · rw [if_neg hsort]
    exact ⟨.asc key, by simp, rfl, by simp [SortTerm.asc, SortTerm.isRandom]⟩

theorem not_isRandom_of_mem_pageOrder (key : String) {sort : List SortTerm}
    (hrandom : ∀ term ∈ sort, ¬ term.isRandom) :
    ∀ term ∈ pageOrder key sort, ¬ term.isRandom := by
  intro term hmem
  unfold pageOrder at hmem
  split at hmem
  · exact hrandom term hmem
  · rcases List.mem_append.1 hmem with hmem | hmem
    · exact hrandom term hmem
    · obtain rfl := List.mem_singleton.1 hmem
      simp [SortTerm.asc, SortTerm.isRandom]

/-- Without random terms, a statement shows the order as it is. -/
theorem map_shown {order : List SortTerm} (h : ∀ term ∈ order, ¬ term.isRandom) :
    order.map SortTerm.shown = order := by
  rw [List.map_congr_left fun term hmem => SortTerm.shown_of_not_isRandom (h term hmem)]
  exact List.map_id' order

variable {q : Query} {key : String} {rows : List Row} {transport : Transport m}

/-- There is one way to order the rows as the text for a window asks: that of the query, or the
reverse of it. -/
theorem eq_turn_of_isOrdered (hrandom : ∀ term ∈ q.sort, ¬ term.isRandom)
    (hkey : rows.Pairwise fun a b => cmp key a b ≠ .eq)
    (hrows : IsOrdered cmp (pageOrder key q.sort) rows) {anchor : Anchor} {sorted : List Row}
    (hperm : sorted.Perm rows)
    (hsorted : IsOrdered cmp ((fetchOrder anchor (pageOrder key q.sort)).map SortTerm.shown)
      sorted) :
    sorted = anchor.turn rows := by
  obtain ⟨term, hmem, rfl, hterm⟩ := exists_key_mem_pageOrder key hrandom
  have hplain := not_isRandom_of_mem_pageOrder term.column hrandom
  cases anchor with
  | front =>
    -- asked for in the order of the query, the rows come in the one way there is
    rw [fetchOrder, map_shown hplain] at hsorted
    exact hrows.unique hmem hterm hperm hkey hsorted
  | back =>
    -- asked for in the opposite order, they come in reverse, which is the one way there
    have hreversed : ∀ t ∈ (pageOrder term.column q.sort).map SortTerm.reversed, ¬ t.isRandom := by
      intro t ht
      obtain ⟨t', ht', rfl⟩ := List.mem_map.1 ht
      rw [SortTerm.isRandom_reversed]
      exact hplain t' ht'
    rw [fetchOrder, map_shown hreversed] at hsorted
    have hkey' : rows.reverse.Pairwise fun a b => cmp term.reversed.column a b ≠ .eq :=
      List.pairwise_reverse.2 (hkey.imp fun {a b} hab hba => hab (Std.OrientedCmp.eq_symm hba))
    have hmem' := List.mem_map_of_mem (f := SortTerm.reversed) hmem
    have hterm' : ¬ term.reversed.isRandom := by rwa [SortTerm.isRandom_reversed]
    exact hrows.reverse.unique hmem' hterm' (hperm.trans (List.reverse_perm rows).symm) hkey'
      hsorted

theorem fetchLimit_snd (w : Window) : (fetchLimit w).2 = w.offset := by
  unfold fetchLimit
  cases w.anchor <;> rfl

/-- The page that the database delivers for a window has the rows of the window. -/
theorem exists_page [LawfulMonad m] (hq : q.PagesBy (pageOrder key q.sort))
    (hrandom : ∀ term ∈ q.sort, ¬ term.isRandom)
    (hkey : rows.Pairwise fun a b => cmp key a b ≠ .eq)
    (hrows : IsOrdered cmp (pageOrder key q.sort) rows) (htransport : Answers cmp rows transport)
    {w : Window} (hw : w.check = .ok ()) :
    ∃ page, q.fetch transport w = pure (.ok page) ∧ page.records = w.rowsOf rows ∧
      page.more = w.showsMore rows.length := by
  obtain ⟨statement, hstatement, hclause⟩ := hq w hw
  obtain ⟨sorted, hperm, hsorted, hanswer⟩ := htransport statement _ hclause
  obtain rfl := eq_turn_of_isOrdered hrandom hkey hrows hperm hsorted
  dsimp only at hanswer
  rw [fetchLimit_snd] at hanswer
  have hrecords := recordsOf_fetched w rows
  exact ⟨_, fetch_of_answer hstatement hanswer, congrArg Prod.fst hrecords,
    congrArg Prod.snd hrecords⟩

/-! ### Windows -/

theorem fetch_front [LawfulMonad m] (hq : q.PagesBy (pageOrder key q.sort))
    (hrandom : ∀ term ∈ q.sort, ¬ term.isRandom)
    (hkey : rows.Pairwise fun a b => cmp key a b ≠ .eq)
    (hrows : IsOrdered cmp (pageOrder key q.sort) rows) (htransport : Answers cmp rows transport)
    {offset size : Nat} (hw : (Window.front offset size).check = .ok ()) :
    ∃ page, q.fetch transport (.front offset size) = pure (.ok page) ∧
      page.records = (rows.drop offset).take size ∧
      (page.more = true ↔ offset + size < rows.length) := by
  obtain ⟨page, hpage, hrecords, hmore⟩ := exists_page hq hrandom hkey hrows htransport hw
  refine ⟨page, hpage, ?_, ?_⟩
  · have hrows' : (Window.front offset size).rowsOf rows =
      (rows.take (offset + size)).drop offset := rfl
    rw [hrecords, hrows', List.drop_take, Nat.add_sub_cancel_left]
  · rw [hmore]
    exact decide_eq_true_iff

theorem fetch_back [LawfulMonad m] (hq : q.PagesBy (pageOrder key q.sort))
    (hrandom : ∀ term ∈ q.sort, ¬ term.isRandom)
    (hkey : rows.Pairwise fun a b => cmp key a b ≠ .eq)
    (hrows : IsOrdered cmp (pageOrder key q.sort) rows) (htransport : Answers cmp rows transport)
    {offset size : Nat} (hw : (Window.back offset size).check = .ok ()) :
    ∃ page, q.fetch transport (.back offset size) = pure (.ok page) ∧
      page.records = (rows.take (rows.length - offset)).drop (rows.length - offset - size) := by
  obtain ⟨page, hpage, hrecords, -⟩ := exists_page hq hrandom hkey hrows htransport hw
  exact ⟨page, hpage, hrecords⟩

/-- **A page is its window of the ordered rows, from either end.** A window at the start has the
rows from its offset on, and further rows follow if there are rows behind it. A window at the end
has the rows up to its offset from the end, in the order of the query. So the same rows make up the
same page, whichever end they are counted from. -/
theorem page_eq_window [LawfulMonad m] {w : Window} {statement : Sql.Statement}
    (hcompile : q.compilePage w = .ok statement) {table : Table}
    (htable : q.schema.requireTable q.table = .ok table)
    (hrandom : ∀ term ∈ q.sort, ¬ term.isRandom)
    (hkey : rows.Pairwise fun a b => cmp table.primaryKey a b ≠ .eq)
    (hrows : IsOrdered cmp (pageOrder table.primaryKey q.sort) rows)
    (htransport : Answers cmp rows transport) :
    (∀ offset size, (Window.front offset size).check = .ok () →
      ∃ page, q.fetch transport (.front offset size) = pure (.ok page) ∧
        page.records = (rows.drop offset).take size ∧
        (page.more = true ↔ offset + size < rows.length)) ∧
    (∀ offset size, (Window.back offset size).check = .ok () →
      ∃ page, q.fetch transport (.back offset size) = pure (.ok page) ∧
        page.records =
          (rows.take (rows.length - offset)).drop (rows.length - offset - size)) ∧
    (∀ offset size, offset + size ≤ rows.length → (Window.front offset size).check = .ok () →
      (Window.back (rows.length - offset - size) size).check = .ok () →
      ∃ page page', q.fetch transport (.front offset size) = pure (.ok page) ∧
        q.fetch transport (.back (rows.length - offset - size) size) = pure (.ok page') ∧
        page.records = page'.records) := by
  obtain ⟨found, hfound, hq⟩ := pagesBy_of_compilePage hcompile
  obtain rfl : found = table := Except.ok.inj (hfound.symm.trans htable)
  refine ⟨fun offset size hw => fetch_front hq hrandom hkey hrows htransport hw,
    fun offset size hw => fetch_back hq hrandom hkey hrows htransport hw,
    fun offset size hle hfront hback => ?_⟩
  -- the window at the start and the one at the end are cut from the same rows
  obtain ⟨page, hpage, hrecords, -⟩ := fetch_front hq hrandom hkey hrows htransport hfront
  obtain ⟨page', hpage', hrecords'⟩ := fetch_back hq hrandom hkey hrows htransport hback
  refine ⟨page, page', hpage, hpage', ?_⟩
  have hend : rows.length - (rows.length - offset - size) = offset + size := by omega
  rw [hrecords, hrecords', hend, Nat.add_sub_cancel, List.drop_take, Nat.add_sub_cancel_left]

end Query

/-! ### Such databases exist -/

instance transCmp_compareTerm (term : SortTerm) : Std.TransCmp (compareTerm cmp term) where
  eq_swap := compareTerm_swap term _ _
  isLE_trans := by
    intro a b c hab hbc
    unfold compareTerm at hab hbc ⊢
    obtain ⟨column, direction⟩ := term
    cases direction with
    | asc =>
      have htrans : (cmp column a c).isLE := Std.TransCmp.isLE_trans hab hbc
      exact htrans
    | desc =>
      simp only [Ordering.isLE_swap] at hab hbc ⊢
      exact Std.TransCmp.isGE_trans hab hbc
    | random => rfl

instance transCmp_compareBy (order : List SortTerm) : Std.TransCmp (compareBy cmp order) := by
  induction order with
  | nil => exact { eq_swap := rfl, isLE_trans := fun _ _ => rfl }
  | cons term rest ih =>
    -- comparing by several terms is comparing lexicographically
    exact inferInstanceAs (Std.TransCmp (compareLex (compareTerm cmp term) (compareBy cmp rest)))

/-- A database that sorts its rows orders them as asked, in whatever order it holds them. -/
theorem answers_sorting {rows rows' : List Row} (h : rows'.Perm rows) :
    Answers cmp rows (sorting (m := m) cmp rows') := by
  intro statement clause hclause
  refine ⟨rows'.mergeSort fun a b => (compareBy cmp clause.order a b).isLE,
    (List.mergeSort_perm _ _).trans h, ?_, ?_⟩
  · refine List.pairwise_mergeSort (fun a b c => Std.TransCmp.isLE_trans) (fun a b => ?_) rows'
    rw [compareBy_swap clause.order a b]
    cases compareBy cmp clause.order a b <;> rfl
  · unfold sorting
    rw [hclause]

/-- The number in a column. -/
def intIn (column : String) (row : Row) : Int :=
  match row.lookup column with
  | some (.int n) => n
  | _ => 0

/-- The two rows in front of the last one, from a database that holds the rows in no order. -/
theorem page_eq_window_three_rows :
    let q := Query.new ⟨[Table.named "t"]⟩ "t"
    let row (n : Int) : Row := [("xata_id", .int n)]
    ∃ page, q.fetch (m := Id)
        (sorting (fun column => compareOn (intIn column)) [row 2, row 3, row 1]) (.back 1 2) =
          pure (.ok page) ∧
      page.records = [row 1, row 2] := by
  intro q row
  have hcompile : q.compilePage (.front 0 2) =
      .ok ⟨"select * from \"t\" order by \"xata_id\" asc limit $1", [.int 3]⟩ := by
    decide +kernel
  have htable : q.schema.requireTable q.table = .ok (Table.named "t") := rfl
  have hrandom : ∀ term ∈ q.sort, ¬ term.isRandom := by simp [q, Query.new]
  have hkey : [row 1, row 2, row 3].Pairwise fun a b =>
      compareOn (intIn (Table.named "t").primaryKey) a b ≠ .eq := by
    decide
  have hrows : IsOrdered (fun column => compareOn (intIn column))
      (Query.pageOrder (Table.named "t").primaryKey q.sort) [row 1, row 2, row 3] := by
    unfold IsOrdered
    decide
  have hperm : [row 2, row 3, row 1].Perm [row 1, row 2, row 3] := by decide
  exact (Query.page_eq_window hcompile htable hrandom hkey hrows (answers_sorting hperm)).2.1 1 2
    (by decide)

end LinkQuery
