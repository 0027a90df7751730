import LinkQuery.Text.Blank
import Mathlib.Data.List.TakeWhile

/-!
# Trimming

The blanks around a text are dropped, and nothing else is.

* `Trims s t` says that `t` is `s` without the blanks around it. There is just one such text
  (`Trims.trim_eq`), and it is what trimming makes of `s` (`trims_trim`).
* `trim_surrounded` is the case of a text that has no blanks at all.
-/

namespace LinkQuery.Text

/-- `t` is `s` without the blanks around it. -/
structure Trims (s t : String) : Prop where
  surrounded : ∃ before behind, s = before ++ t ++ behind ∧ (∀ c ∈ before.toList, isBlank c) ∧
    ∀ c ∈ behind.toList, isBlank c
  head_eq_false : ∀ c ∈ t.toList.head?, isBlank c = false
  getLast_eq_false : ∀ c ∈ t.toList.getLast?, isBlank c = false

theorem dropWhile_isBlank_append {blank cs : List Char} (hblank : ∀ c ∈ blank, isBlank c)
    (hcs : ∀ c ∈ cs.head?, isBlank c = false) : (blank ++ cs).dropWhile isBlank = cs := by
  induction blank with
  | nil =>
    cases cs with
    | nil => rfl
    | cons c rest =>
      have hc : isBlank c = false := hcs c rfl
      rw [List.nil_append, List.dropWhile_cons, hc]
      rfl
  | cons b rest ih =>
    have hb : isBlank b = true := hblank b List.mem_cons_self
    rw [List.cons_append, List.dropWhile_cons, hb, if_pos rfl]
    exact ih fun c hc => hblank c (List.mem_cons_of_mem b hc)

/-- Where the blanks end, another character stands. -/
theorem head?_dropWhile_isBlank (cs : List Char) :
    ∀ c ∈ (cs.dropWhile isBlank).head?, isBlank c = false := by
  intro c hc
  have h := List.head?_dropWhile_not isBlank cs
  rw [Option.mem_def.1 hc] at h
  simpa using h

/-- A text without blanks around it is what is left of it between blanks. -/
theorem Trims.trim_eq {s t : String} (h : Trims s t) : trim s = t := by
  obtain ⟨before, behind, rfl, hbefore, hbehind⟩ := h.surrounded
  cases hcs : t.toList with
  | nil =>
    -- all characters are blanks, and they are dropped from the left
    have hall : (before.toList ++ behind.toList).dropWhile isBlank = [] := by
      have hblank : ∀ c ∈ before.toList ++ behind.toList, isBlank c := fun c hc =>
        (List.mem_append.1 hc).elim (hbefore c) (hbehind c)
      have hnone : ∀ c ∈ ([] : List Char).head?, isBlank c = false := by simp
      have hdrop := dropWhile_isBlank_append hblank hnone
      rw [List.append_nil] at hdrop
      exact hdrop
    have hempty : t = "" := String.toList_eq_nil_iff.1 hcs
    rw [trim, hempty, trimStartChars, String.toList_append, String.toList_append]
    simp [hall, trimEndChars]
  | cons c rest =>
    have hfirst : ∀ d ∈ (t.toList ++ behind.toList).head?, isBlank d = false := by
      intro d hd
      rw [hcs] at hd
      obtain rfl : c = d := by simpa using hd
      exact h.head_eq_false c (by rw [hcs]; rfl)
    have hlast : ∀ d ∈ t.toList.reverse.head?, isBlank d = false := by
      rw [List.head?_reverse]
      exact h.getLast_eq_false
    have hstart : (before.toList ++ (t.toList ++ behind.toList)).dropWhile isBlank =
        t.toList ++ behind.toList := dropWhile_isBlank_append hbefore hfirst
    have hend : (behind.toList.reverse ++ t.toList.reverse).dropWhile isBlank =
        t.toList.reverse :=
      dropWhile_isBlank_append (fun d hd => hbehind d (List.mem_reverse.1 hd)) hlast
    rw [trim, trimStartChars, String.toList_append, String.toList_append, List.append_assoc, hstart,
      trimEndChars, List.reverse_append, hend, List.reverse_reverse, String.ofList_toList]

/-- **Trimming drops the blanks around a text.** -/
theorem trims_trim (s : String) : Trims s (trim s) := by
  -- the blanks in front, what follows them, and the blanks at its end
  let rest := s.toList.dropWhile isBlank
  have htrim : (trim s).toList = (rest.reverse.dropWhile isBlank).reverse := String.toList_ofList
  have hrest : (trim s).toList ++ (rest.reverse.takeWhile isBlank).reverse = rest := by
    rw [htrim, ← List.reverse_append, List.takeWhile_append_dropWhile, List.reverse_reverse]
  refine ⟨⟨String.ofList (s.toList.takeWhile isBlank),
    String.ofList (rest.reverse.takeWhile isBlank).reverse, ?_, ?_, ?_⟩, ?_, ?_⟩
  · rw [← String.toList_inj, String.toList_append, String.toList_append, String.toList_ofList,
      String.toList_ofList, List.append_assoc, hrest, List.takeWhile_append_dropWhile]
  · intro c hc
    rw [String.toList_ofList] at hc
    exact List.mem_takeWhile_imp hc
  · intro c hc
    rw [String.toList_ofList, List.mem_reverse] at hc
    exact List.mem_takeWhile_imp hc
  · -- the first character of what is left is that of the rest
    intro c hc
    refine head?_dropWhile_isBlank s.toList c ?_
    show rest.head? = some c
    rw [← hrest, List.head?_append, Option.mem_def.1 hc]
    rfl
  · rw [htrim, List.getLast?_reverse]
    exact head?_dropWhile_isBlank rest.reverse

@[simp] theorem trim_trim (s : String) : trim (trim s) = trim s := by
  have h := trims_trim s
  refine Trims.trim_eq ⟨⟨"", "", ?_, by simp, by simp⟩, h.head_eq_false, h.getLast_eq_false⟩
  rw [String.empty_append, String.append_empty]

/-- A text without blanks is what is left of it between blanks. -/
theorem trim_surrounded {before text behind : String} (hbefore : ∀ c ∈ before.toList, isBlank c)
    (hbehind : ∀ c ∈ behind.toList, isBlank c) (htext : ∀ c ∈ text.toList, isBlank c = false) :
    trim (before ++ text ++ behind) = text :=
  Trims.trim_eq ⟨⟨before, behind, rfl, hbefore, hbehind⟩,
    fun c hc => htext c (List.mem_of_mem_head? hc),
    fun c hc => htext c (List.mem_of_mem_getLast? hc)⟩

end LinkQuery.Text
