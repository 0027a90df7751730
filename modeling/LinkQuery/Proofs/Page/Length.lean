import LinkQuery.Proofs.Page.Continuation
import LinkQuery.Proofs.Page.Ordered
import LinkQuery.Proofs.Page.Visit

/-!
# The number of records of a page

A page has as many records as its window has rows, or fewer at an end. That much is asked for in the
statement, and what is said here is what becomes of it if the database does not keep to the limit
and answers with any rows whatever.

From the first row, one row more than the window has is fetched, so the rows are cut to the size of
the window, and the page is never larger. From the last row just the rows of the window are fetched.
They are turned round and are not cut, so the page is as large as the answer.

* `Query.length_records_page_le_iff` is about the page made of given rows.
* `Page.length_le_size_iff` is about the pages of windows and of requests, with any database.
-/

namespace LinkQuery

namespace Query

variable {q : Query} {w : Window} {rows : List Row}

theorem length_records_page_front (h : w.anchor = .front) :
    (q.page w rows).records.length = min w.size rows.length := by
  simp only [page, recordsOf, h, List.length_take]

theorem records_page_back (h : w.anchor = .back) : (q.page w rows).records = rows.reverse := by
  simp only [page, recordsOf, h]

/-- **A page is no larger than its window**, unless the window is counted from the last row and more
rows have come than it has. -/
theorem length_records_page_le_iff :
    (q.page w rows).records.length ≤ w.size ↔ (w.anchor = .back → rows.length ≤ w.size) := by
  -- a front page cuts the answer, a back page only turns it around
  cases hanchor : w.anchor with
  | front =>
    rw [length_records_page_front hanchor]
    exact iff_of_true (Nat.min_le_left _ _) nofun
  | back =>
    rw [records_page_back hanchor, List.length_reverse]
    exact ⟨fun hle _ => hle, fun hle => hle rfl⟩

/-- From the last row, as many rows are asked for as the window has. -/
theorem fetchLimit_fst_back (h : w.anchor = .back) : (fetchLimit w).1 = w.size := by
  rw [fetchLimit, h]

/-- So the page of an answer that keeps to the limit is no larger than its window. -/
theorem length_records_page_le (h : rows.length ≤ (fetchLimit w).1) :
    (q.page w rows).records.length ≤ w.size := by
  rw [length_records_page_le_iff]
  intro hanchor
  rwa [fetchLimit_fst_back hanchor] at h

end Query

namespace Page

variable {σ : Type} (transport : Transport (StateM σ)) (s : σ)

/-- **A page is larger than its window only from the last row**, and there only if the database
answers with more rows than it is asked for.

A window whose statement compiles has a page whenever the database answers with rows, whatever the
rows are, so this says of every window and every answer how large the page is. Whatever is
requested, a page larger than its window is the answer turned round. -/
theorem length_le_size_iff :
    (∀ (q : Query) (w : Window) (statement : Sql.Statement) (rows : List Row) (s' : σ),
      q.compilePage w = .ok statement → (transport statement).run s = (.ok rows, s') →
      ∃ p : Page, (q.fetch transport w).run s = (.ok p, s') ∧ p.window = w ∧
        (p.records.length ≤ w.size ↔ (w.anchor = .back → rows.length ≤ w.size)) ∧
        (rows.length ≤ (Query.fetchLimit w).1 → p.records.length ≤ w.size)) ∧
    ∀ (q : Query) (request : PageRequest) (p : Page) (s' : σ),
      (q.paginate transport request).run s = (.ok p, s') → p.window.size < p.records.length →
      p.window.anchor = .back ∧ ∃ statement rows, p.query.compilePage p.window = .ok statement ∧
        (transport statement).run s = (.ok rows, s') ∧ (Query.fetchLimit p.window).1 < rows.length ∧
        p.records = rows.reverse := by
  constructor
  · intro q w statement rows s' hcompile hanswer
    exact ⟨q.page w rows, Query.fetch_run_of_answer hcompile hanswer, rfl,
      Query.length_records_page_le_iff, Query.length_records_page_le⟩
  · intro q request p s' hp hsize
    -- a page is refused, fetched, or empty because it lies behind the last row
    rcases Query.paginate_run_cases hp with
      ⟨e, -, he⟩ | ⟨query, w, -, hfetch⟩ | ⟨query, w, -, hbeyond⟩
    · exact absurd he nofun
    · rcases Query.fetch_run_cases hfetch with
        ⟨e, -, he⟩ | ⟨e, he⟩ | ⟨statement, rows, hcompile, hanswer, hpage⟩
      · exact absurd he nofun
      · exact absurd he nofun
      · obtain rfl := Except.ok.inj hpage
        -- only an answer of a back window that is not cut makes a page too long
        have hlong : ¬ (w.anchor = .back → rows.length ≤ w.size) := fun h =>
          Nat.not_lt.2 (Query.length_records_page_le_iff.2 h) hsize
        obtain ⟨hanchor, hrows⟩ := Classical.not_imp.1 hlong
        refine ⟨hanchor, statement, rows, hcompile, hanswer, ?_, Query.records_page_back hanchor⟩
        show (Query.fetchLimit w).1 < rows.length
        rw [Query.fetchLimit_fst_back hanchor]
        exact Nat.lt_of_not_le hrows
    · -- a page behind the last row has no records
      obtain rfl := Except.ok.inj hbeyond
      exact absurd hsize (Nat.not_lt_zero _)

/-- A database that answers with all its rows, the last one first, whatever the limit. -/
def unlimited (count : Nat) : Transport (StateM Unit) :=
  fun _ => pure (.ok (numberedRows count).reverse)

/-- The statement for the last two rows. -/
theorem compilePage_allNumbered_back : allNumbered.compilePage (.back 0 2) =
    .ok ⟨"select * from \"t\" order by \"xata_id\" desc limit $1", [.int 2]⟩ := by
  decide +kernel

/-- Three rows where the last two are asked for. -/
theorem length_le_size_iff_last_two :
    ∃ p : Page, (allNumbered.fetch (unlimited 3) (.back 0 2)).run () = (.ok p, ()) ∧
      ¬ p.records.length ≤ 2 ∧ p.records = numberedRows 3 := by
  obtain ⟨hfetched, hlarge⟩ := length_le_size_iff (unlimited 3) ()
  obtain ⟨p, hp, hwindow, hiff, -⟩ :=
    hfetched allNumbered (.back 0 2) _ _ _ compilePage_allNumbered_back rfl
  -- all three rows are answered and none is dropped
  have hlong : ¬ p.records.length ≤ 2 := fun hle => absurd (hiff.1 hle rfl) (by decide)
  have hsize : p.window.size < p.records.length := by
    rw [hwindow]
    exact Nat.lt_of_not_le hlong
  obtain ⟨-, statement, rows, -, hanswer, -, hrecords⟩ :=
    hlarge allNumbered (.lastOf 2) p () hp hsize
  obtain rfl : (numberedRows 3).reverse = rows := Except.ok.inj (congrArg Prod.fst hanswer)
  exact ⟨p, hp, hlong, by rw [hrecords, List.reverse_reverse]⟩

/-- With the same answer, the page of the first two rows holds two and that of the last two rows
holds three. -/
theorem longer_than_size :
    ∃ first last : Page,
      (allNumbered.paginate (unlimited 3) (.offset 2 0)).run () = (.ok first, ()) ∧
      first.records.length = first.window.size ∧
      (allNumbered.paginate (unlimited 3) (.lastOf 2)).run () = (.ok last, ()) ∧
      last.window.check = .ok () ∧ last.window.size < last.records.length := by
  have hfront : allNumbered.compilePage (.front 0 2) =
      .ok ⟨"select * from \"t\" order by \"xata_id\" asc limit $1", [.int 3]⟩ := by decide +kernel
  exact ⟨_, _, Query.fetch_run_of_answer hfront rfl, by decide,
    Query.fetch_run_of_answer compilePage_allNumbered_back rfl, by decide, by decide⟩

end Page
end LinkQuery
