import LinkQuery.Path
import LinkQuery.Proofs.Outcome
import LinkQuery.Proofs.Text.Blank
import Mathlib.Data.List.TakeWhile

/-!
# The grammar of column paths

A column path is a list of segments between dots: identifiers, of which the last one may be a star
instead. The reader takes the longest segment again and again, and is never wrong in doing so, since
no identifier has a dot in it. So a text can be taken apart in one way at most, and where the reader
stops, no longer list of segments could have been read.

* `Segment.Spells` says that segments with dots between them spell out a text. They are what is read
  of it (`Segment.readList_of_spells`).
* `Segment.eq_append_readList` and `Segment.length_le_of_spells`: what is read of any text is a list
  of segments, and no longer one could have been read.
* `ColumnPath.parse_accepts_grammar`: just the texts of the grammar are accepted. They are written
  again as they were, and any other text is refused at the right position.
-/

namespace LinkQuery

/-! ### Sizes -/

theorem byteSize_append (cs ds : List Char) : byteSize (cs ++ ds) = byteSize cs + byteSize ds := by
  induction cs with
  | nil => simp [byteSize]
  | cons c cs ih => rw [List.cons_append, byteSize, byteSize, ih, Nat.add_assoc]

/-! ### Segments -/

namespace Segment

/-- Segments that can be written: a star, or a name of one or more characters of identifiers. -/
def IsProper : Segment → Prop
  | name cs => cs ≠ [] ∧ ∀ c ∈ cs, isNameChar c
  | star => True

theorem IsProper.chars_ne_nil {segment : Segment} (h : segment.IsProper) : segment.chars ≠ [] := by
  cases segment with
  | name cs => exact h.1
  | star => simp [chars]

theorem isNameChar_dot : isNameChar '.' = false := by decide

/-- An identifier is read as far as it goes on. -/
theorem read?_name_append {cs : List Char} (h : (name cs).IsProper) (rest : List Char) :
    read? (cs ++ rest) =
      some (name (cs ++ rest.takeWhile isNameChar), rest.dropWhile isNameChar) := by
  obtain ⟨hne, hcs⟩ := h
  have htake : (cs ++ rest).takeWhile isNameChar = cs ++ rest.takeWhile isNameChar :=
    List.takeWhile_append_of_pos hcs
  have hdrop : (cs ++ rest).dropWhile isNameChar = rest.dropWhile isNameChar :=
    List.dropWhile_append_of_pos hcs
  obtain ⟨c, more, rfl⟩ := List.exists_cons_of_ne_nil hne
  unfold read?
  split
  next more' heq =>
    -- a star is no character of identifiers
    obtain ⟨rfl, -⟩ := List.cons.inj heq
    have hstar : isNameChar '*' = true := hcs '*' List.mem_cons_self
    exact absurd hstar (by decide)
  next =>
    rw [htake, hdrop]
    rfl

/-- A segment that ends where no identifier goes on is read as it is. -/
theorem read?_chars_append {segment : Segment} (h : segment.IsProper) (rest : List Char)
    (hrest : ∀ c ∈ rest.head?, isNameChar c = false) :
    read? (segment.chars ++ rest) = some (segment, rest) := by
  cases segment with
  | star => rfl
  | name cs =>
    have hstop : rest.takeWhile isNameChar = [] ∧ rest.dropWhile isNameChar = rest := by
      cases rest with
      | nil => exact ⟨rfl, rfl⟩
      | cons c rest =>
        have hc : ¬ isNameChar c = true := by simp [hrest c rfl]
        exact ⟨List.takeWhile_cons_of_neg hc, List.dropWhile_cons_of_neg hc⟩
    rw [chars, read?_name_append h, hstop.1, hstop.2, List.append_nil]

/-- No longer segment could have been read. -/
theorem exists_read?_of_prefix {segment : Segment} (h : segment.IsProper) (rest : List Char) :
    ∃ longest after, read? (segment.chars ++ rest) = some (longest, after) ∧
      segment.chars.length ≤ longest.chars.length := by
  cases segment with
  | star => exact ⟨star, rest, rfl, Nat.le_refl _⟩
  | name cs => exact ⟨_, _, read?_name_append h rest, by simp [chars]⟩

/-- What is read as a segment is a proper one in front of what is left. -/
theorem of_read? {cs rest : List Char} {segment : Segment} (h : read? cs = some (segment, rest)) :
    segment.IsProper ∧ cs = segment.chars ++ rest := by
  unfold read? at h
  split at h
  next more =>
    obtain ⟨rfl, rfl⟩ := Prod.mk.inj (Option.some.inj h)
    exact ⟨trivial, rfl⟩
  next =>
    split at h
    next => cases h
    next c more hrun =>
      obtain ⟨rfl, rfl⟩ := Prod.mk.inj (Option.some.inj h)
      rw [← hrun]
      refine ⟨⟨by simp [hrun], fun d hd => List.mem_takeWhile_imp hd⟩, ?_⟩
      exact List.takeWhile_append_dropWhile.symm

/-! ### Lists of segments -/

/-- The written form of segments, with dots between them. -/
def listChars (segments : List Segment) : List Char := ['.'].intercalate (segments.map chars)

/-- `cs` is spelled out by one or more segments with dots between them. -/
structure Spells (segments : List Segment) (cs : List Char) : Prop where
  ne_nil : segments ≠ []
  isProper : ∀ segment ∈ segments, segment.IsProper
  listChars_eq : listChars segments = cs

theorem listChars_singleton (segment : Segment) : listChars [segment] = segment.chars := by
  simp [listChars]

/-- Segments are written with a point between them. -/
theorem listChars_cons {segment : Segment} {more : List Segment} (h : more ≠ []) :
    listChars (segment :: more) = segment.chars ++ '.' :: listChars more := by
  obtain ⟨next, more, rfl⟩ := List.exists_cons_of_ne_nil h
  simp [listChars, List.intercalate]

theorem listChars_ne_nil {segments : List Segment} (hne : segments ≠ [])
    (hproper : ∀ segment ∈ segments, segment.IsProper) : listChars segments ≠ [] := by
  obtain ⟨segment, more, rfl⟩ := List.exists_cons_of_ne_nil hne
  have hchars : segment.chars ≠ [] := (hproper segment List.mem_cons_self).chars_ne_nil
  by_cases hend : more = []
  · rwa [hend, listChars_singleton]
  · rw [listChars_cons hend]
    simp

theorem length_lt_length_listChars {segment : Segment} {more : List Segment} (h : more ≠ []) :
    segment.chars.length < (listChars (segment :: more)).length := by
  rw [listChars_cons h, List.length_append, List.length_cons]
  omega

theorem length_chars_le (segment : Segment) (more : List Segment) :
    segment.chars.length ≤ (listChars (segment :: more)).length := by
  cases more with
  | nil => rw [listChars_singleton]
  | cons next more => exact (length_lt_length_listChars (by simp)).le

/-! ### What is read -/

/-- Nothing is read where no segment stands. -/
theorem readList_of_read?_eq_none {cs : List Char} (h : read? cs = none) :
    readList cs = ([], cs) := by
  rw [readList]
  split <;> simp_all

/-- Behind a point another segment has to follow, or the point is left. -/
theorem readList_of_read?_dot {cs after : List Char} {segment : Segment}
    (h : read? cs = some (segment, '.' :: after)) :
    readList cs =
      if (readList after).1 = [] then ([segment], '.' :: after)
      else (segment :: (readList after).1, (readList after).2) := by
  rw [readList]
  split
  next hnone => simp [h] at hnone
  next found after' hfound =>
    obtain ⟨rfl, hafter⟩ := Prod.mk.inj (Option.some.inj (h.symm.trans hfound))
    obtain rfl := (List.cons.inj hafter).2
    split <;> simp_all
  next found rest hother hfound =>
    obtain ⟨rfl, rfl⟩ := Prod.mk.inj (Option.some.inj (h.symm.trans hfound))
    exact absurd rfl (hother after)

/-- The last segment has no point behind it. -/
theorem readList_of_read?_end {cs rest : List Char} {segment : Segment}
    (h : read? cs = some (segment, rest)) (hrest : ∀ after, rest ≠ '.' :: after) :
    readList cs = ([segment], rest) := by
  rw [readList]
  split
  next hnone => simp [h] at hnone
  next found after hfound =>
    obtain ⟨-, hafter⟩ := Prod.mk.inj (Option.some.inj (h.symm.trans hfound))
    exact absurd hafter (hrest after)
  next found rest' _ hfound =>
    obtain ⟨rfl, rfl⟩ := Prod.mk.inj (Option.some.inj (h.symm.trans hfound))
    rfl

/-- **What is read is a list of segments**, unless it is nothing, and what is left follows it. -/
theorem eq_append_readList (cs : List Char) :
    cs = listChars (readList cs).1 ++ (readList cs).2 ∧
      ∀ segment ∈ (readList cs).1, segment.IsProper := by
  -- what follows a segment is shorter
  induction hlength : cs.length using Nat.strongRecOn generalizing cs with
  | _ length ih =>
    cases hread : read? cs with
    | none =>
      rw [readList_of_read?_eq_none hread]
      exact ⟨rfl, by simp⟩
    | some found =>
      obtain ⟨segment, rest⟩ := found
      obtain ⟨hproper, hcs⟩ := of_read? hread
      by_cases hdot : ∃ after, rest = '.' :: after
      · obtain ⟨after, rfl⟩ := hdot
        have hless : after.length < length := by
          have hrest := length_lt_of_read? hread
          rw [List.length_cons] at hrest
          omega
        obtain ⟨hafter, hmore⟩ := ih _ hless after rfl
        rw [readList_of_read?_dot hread]
        split
        next hnone =>
          -- behind the dot there is no segment, so the dot is left
          rw [listChars_singleton]
          exact ⟨hcs, by simpa using hproper⟩
        next hsome =>
          rw [listChars_cons hsome, List.append_assoc, List.cons_append, ← hafter]
          exact ⟨hcs, List.forall_mem_cons.2 ⟨hproper, hmore⟩⟩
      · rw [readList_of_read?_end hread fun after h => hdot ⟨after, h⟩, listChars_singleton]
        exact ⟨hcs, by simpa using hproper⟩

/-- What is read spells its segments. -/
theorem spells_readList {cs : List Char} (h : (readList cs).1 ≠ []) :
    Spells (readList cs).1 (listChars (readList cs).1) :=
  ⟨h, (eq_append_readList cs).2, rfl⟩

/-- **A list of segments is read as it is.** -/
theorem readList_of_spells {segments : List Segment} {cs : List Char} (h : Spells segments cs) :
    readList cs = (segments, []) := by
  obtain ⟨hne, hproper, rfl⟩ := h
  induction segments with
  | nil => exact absurd rfl hne
  | cons segment more ih =>
    obtain ⟨hsegment, hmore⟩ := List.forall_mem_cons.1 hproper
    by_cases hend : more = []
    · subst hend
      have hread := read?_chars_append hsegment [] (by simp)
      rw [List.append_nil, ← listChars_singleton] at hread
      exact readList_of_read?_end hread (by simp)
    · have hread := read?_chars_append hsegment ('.' :: listChars more)
        (by simp [isNameChar_dot])
      rw [← listChars_cons hend] at hread
      rw [readList_of_read?_dot hread, ih hend hmore, if_neg hend]

/-- **No longer list of segments could have been read.** -/
theorem length_le_of_spells {segments : List Segment} {cs rest : List Char}
    (h : Spells segments cs) :
    cs.length ≤ (listChars (readList (cs ++ rest)).1).length := by
  obtain ⟨hne, hproper, rfl⟩ := h
  induction segments with
  | nil => exact absurd rfl hne
  | cons segment more ih =>
    obtain ⟨hsegment, hmore⟩ := List.forall_mem_cons.1 hproper
    by_cases hend : more = []
    · -- the first segment read is at least as long as the only one here
      subst hend
      rw [listChars_singleton]
      obtain ⟨longest, after, hread, hle⟩ := exists_read?_of_prefix hsegment rest
      refine hle.trans ?_
      by_cases hdot : ∃ after', after = '.' :: after'
      · obtain ⟨after', rfl⟩ := hdot
        rw [readList_of_read?_dot hread]
        split <;> exact length_chars_le longest _
      · rw [readList_of_read?_end hread fun after' h => hdot ⟨after', h⟩]
        exact length_chars_le longest []
    · -- a dot ends the first segment, so it is read as it is
      have hread := read?_chars_append hsegment ('.' :: (listChars more ++ rest))
        (by simp [isNameChar_dot])
      have hle := ih hend hmore
      have hsome : (readList (listChars more ++ rest)).1 ≠ [] := by
        intro hnone
        rw [hnone] at hle
        exact listChars_ne_nil hend hmore (List.eq_nil_of_length_eq_zero (Nat.le_zero.1 hle))
      rw [listChars_cons hend, List.append_assoc, List.cons_append, readList_of_read?_dot hread,
        if_neg hsome, listChars_cons hsome, List.length_append, List.length_append,
        List.length_cons, List.length_cons]
      omega

end Segment

/-! ### Paths -/

namespace ColumnPath

open Segment

/-- A path is written with a dot behind each link. -/
theorem text_cons (link : String) (path : ColumnPath) :
    text { path with links := link :: path.links } = link ++ "." ++ path.text := by
  simp only [text, List.map_cons, String.join_cons, String.append_assoc]

/-- A path is written as its segments are. -/
theorem text_of_ofSegments {position : Nat} {segments : List Segment} {path : ColumnPath}
    (h : ofSegments position segments = .ok path) :
    path.text = String.ofList (listChars segments) ∧ .star ∉ segments.dropLast := by
  fun_induction ofSegments position segments generalizing path with
  | case1 => cases h
  | case2 position cs =>
    obtain rfl := Except.ok.inj h
    simp [text, column, listChars_singleton, chars]
  | case3 =>
    obtain rfl := Except.ok.inj h
    simp [text, listChars_singleton, chars]
  | case4 => cases h
  | case5 position cs next more ih =>
    -- a name is a link, and what is behind it is a path again
    obtain ⟨behind, hbehind, rfl⟩ := map_eq_ok_iff.1 h
    obtain ⟨htext, hstar⟩ := ih hbehind
    refine ⟨?_, fun hmem => (List.mem_cons.1 hmem).elim nofun hstar⟩
    rw [text_cons, htext, listChars_cons (List.cons_ne_nil next more), ← String.toList_inj]
    simp [chars]

/-- The characters of segments with a dot behind each. -/
def stemChars (segments : List Segment) : List Char :=
  segments.flatMap fun segment => segment.chars ++ ['.']

/-- Segments that make no path have a star before the last one, and the position of the first such
star is reported. -/
theorem exists_star_of_ofSegments {position reported : Nat} {segments : List Segment}
    (hne : segments ≠ []) (h : ofSegments position segments = .error reported) :
    ∃ before after, segments = before ++ .star :: after ∧ .star ∉ before ∧ after ≠ [] ∧
      reported = position + byteSize (stemChars before) := by
  fun_induction ofSegments position segments with
  | case1 => exact absurd rfl hne
  | case2 => cases h
  | case3 => cases h
  | case4 position next more =>
    obtain rfl := Except.error.inj h
    exact ⟨[], next :: more, rfl, by simp, by simp, rfl⟩
  | case5 position cs next more ih =>
    -- the star is behind the first name, which counts for the position
    obtain ⟨before, after, hsegments, hstar, hafter, rfl⟩ :=
      ih (List.cons_ne_nil next more) (map_eq_error_iff.1 h)
    refine ⟨.name cs :: before, after, congrArg (List.cons _) hsegments, ?_, hafter, ?_⟩
    · exact fun hmem => (List.mem_cons.1 hmem).elim nofun hstar
    · have hstem : stemChars (.name cs :: before) = cs ++ '.' :: stemChars before := by
        simp [stemChars, chars]
      have hdot : '.'.utf8Size = 1 := rfl
      rw [hstem, byteSize_append, byteSize, hdot]
      omega

/-- Up to an inner star, segments are written with a dot behind each. -/
theorem listChars_append_star (before : List Segment) {after : List Segment} (h : after ≠ []) :
    listChars (before ++ .star :: after) = stemChars before ++ '*' :: '.' :: listChars after := by
  induction before with
  | nil => exact listChars_cons h
  | cons segment before ih =>
    rw [List.cons_append, listChars_cons (by simp), ih]
    simp [stemChars]

/-! ### Reading paths -/

/-- A text of the grammar: segments with dots between them, of which the last one alone may be a
star. -/
def InGrammar (cs : List Char) : Prop := ∃ segments, Spells segments cs ∧ .star ∉ segments.dropLast

/-- The longest list of segments that `cs` starts with ends at a byte, which is the first one if
`cs` starts with none. -/
structure ListEndsAt (cs : List Char) (position : Nat) : Prop where
  reached : (∃ segments listed, Spells segments listed ∧ listed <+: cs ∧
      byteSize listed = position) ∨
    position = 0 ∧ ∀ segments listed, Spells segments listed → ¬ listed <+: cs
  longest : ∀ segments listed, Spells segments listed → listed <+: cs → byteSize listed ≤ position

/-- In the list of segments `cs`, the first star that is not the last segment stands at a byte. -/
def InnerStarAt (cs : List Char) (position : Nat) : Prop :=
  ∃ before after, Spells (before ++ .star :: after) cs ∧ .star ∉ before ∧ after ≠ [] ∧
    cs = stemChars before ++ '*' :: '.' :: listChars after ∧ byteSize (stemChars before) = position

/-- The reader stops at the end of the longest list of segments. -/
theorem listEndsAt_readList (cs : List Char) :
    ListEndsAt cs (byteSize cs - byteSize (readList cs).2) := by
  obtain ⟨happend, -⟩ := eq_append_readList cs
  have hposition : byteSize cs - byteSize (readList cs).2 =
      byteSize (listChars (readList cs).1) := by
    have hsize := congrArg byteSize happend
    rw [byteSize_append] at hsize
    omega
  have hread : listChars (readList cs).1 <+: cs := ⟨_, happend.symm⟩
  have hlongest : ∀ segments listed, Spells segments listed → listed <+: cs →
      listed <+: listChars (readList cs).1 := by
    rintro segments listed hlisted ⟨rest, rfl⟩
    exact List.prefix_of_prefix_length_le (List.prefix_append listed rest) hread
      (length_le_of_spells hlisted)
  rw [hposition]
  refine ⟨?_, fun segments listed hlisted hbegins => ?_⟩
  · by_cases hnone : (readList cs).1 = []
    · -- a list that `cs` starts with would have been read
      refine .inr ⟨by rw [hnone]; rfl, fun segments listed hlisted hbegins => ?_⟩
      have hempty := hlongest segments listed hlisted hbegins
      rw [hnone] at hempty
      obtain ⟨hne, hproper, rfl⟩ := hlisted
      exact listChars_ne_nil hne hproper (List.prefix_nil.1 hempty)
    · exact .inl ⟨_, _, spells_readList hnone, hread, rfl⟩
  · obtain ⟨rest, hrest⟩ := hlongest segments listed hlisted hbegins
    rw [← hrest, byteSize_append]
    omega

variable {input : String}

/-- A text that is a list of segments is read as they say. -/
theorem parse_of_spells {segments : List Segment}
    (h : Spells segments (Text.trim input).toList) :
    parse input = (ofSegments 0 segments).mapError (.malformedPath input · .wildcardInside) := by
  obtain ⟨segment, more, rfl⟩ := List.exists_cons_of_ne_nil h.ne_nil
  unfold parse
  dsimp only
  rw [readList_of_spells h]
  dsimp only
  cases ofSegments 0 (segment :: more) <;> rfl

/-- A text that is no list of segments is refused where the reader stops. -/
theorem parse_of_not_spells (h : ∀ segments, ¬ Spells segments (Text.trim input).toList) :
    parse input = .error (.malformedPath input
      (byteSize (Text.trim input).toList - byteSize (readList (Text.trim input).toList).2)
      .segmentExpected) := by
  unfold parse
  dsimp only
  split
  next segment more hread =>
    -- what is read of the whole text would spell it out
    obtain ⟨happend, hproper⟩ := eq_append_readList (Text.trim input).toList
    rw [hread, List.append_nil] at happend
    rw [hread] at hproper
    exact absurd ⟨by simp, hproper, happend.symm⟩ (h (segment :: more))
  next rest _ hread => rw [hread]

/-- A path that was accepted is spelled by its segments. -/
theorem exists_spells_of_parse {path : ColumnPath} (h : parse input = .ok path) :
    ∃ segments, Spells segments (Text.trim input).toList ∧ ofSegments 0 segments = .ok path := by
  by_cases hlist : ∃ segments, Spells segments (Text.trim input).toList
  · obtain ⟨segments, hsegments⟩ := hlist
    rw [parse_of_spells hsegments] at h
    exact ⟨segments, hsegments, mapError_eq_ok_iff.1 h⟩
  · rw [parse_of_not_spells (not_exists.1 hlist)] at h
    cases h

/-- A path is written as the text that it was read of, without blanks around it. -/
theorem text_of_parse {path : ColumnPath} (h : parse input = .ok path) :
    path.text = Text.trim input := by
  obtain ⟨segments, hsegments, hpath⟩ := exists_spells_of_parse h
  rw [(text_of_ofSegments hpath).1, hsegments.listChars_eq, String.ofList_toList]

/-- What is written of a path is read again. -/
theorem parse_text_of_parse {path : ColumnPath} (h : parse input = .ok path) :
    parse path.text = .ok path := by
  obtain ⟨segments, hsegments, hpath⟩ := exists_spells_of_parse h
  have htrim : Text.trim path.text = Text.trim input := by rw [text_of_parse h, Text.trim_trim]
  rw [parse_of_spells (htrim ▸ hsegments), hpath]
  rfl

/-- A path is accepted exactly when it is in the grammar. -/
theorem exists_parse_iff :
    (∃ path, parse input = .ok path) ↔ InGrammar (Text.trim input).toList := by
  constructor
  · rintro ⟨path, h⟩
    obtain ⟨segments, hsegments, hpath⟩ := exists_spells_of_parse h
    exact ⟨segments, hsegments, (text_of_ofSegments hpath).2⟩
  · rintro ⟨segments, hsegments, hlast⟩
    rw [parse_of_spells hsegments]
    cases hpath : ofSegments 0 segments with
    | ok path => exact ⟨path, rfl⟩
    | error position =>
      -- the star that is reported does not come last
      obtain ⟨before, after, rfl, -, hafter, -⟩ :=
        exists_star_of_ofSegments hsegments.ne_nil hpath
      refine absurd (?_ : Segment.star ∈ (before ++ .star :: after).dropLast) hlast
      rw [List.dropLast_append_cons, List.dropLast_cons_of_ne_nil hafter]
      simp

/-- Where a list of segments is refused, a star does not come last. -/
theorem innerStarAt_of_parse {segments : List Segment} {e : Error}
    (hsegments : Spells segments (Text.trim input).toList) (h : parse input = .error e) :
    ∃ position, e = .malformedPath input position .wildcardInside ∧
      InnerStarAt (Text.trim input).toList position := by
  rw [parse_of_spells hsegments] at h
  cases hpath : ofSegments 0 segments with
  | ok path =>
    rw [hpath] at h
    cases h
  | error position =>
    rw [hpath] at h
    obtain ⟨before, after, rfl, hstar, hafter, hposition⟩ :=
      exists_star_of_ofSegments hsegments.ne_nil hpath
    refine ⟨position, (Except.error.inj h).symm, before, after, hsegments, hstar, hafter, ?_, ?_⟩
    · rw [← hsegments.listChars_eq, listChars_append_star before hafter]
    · omega

/-- **The reader accepts just the texts of the grammar**, which are written as they were and read
again as the same path. Blanks around a text do not count. A text that is refused is no list of
segments, and the error points behind the longest one that it starts with, or it is a list in which
a star does not come last, and the error points to the first such star. -/
theorem parse_accepts_grammar (input : String) :
    Text.Trims input (Text.trim input) ∧
      ((∃ path, parse input = .ok path) ↔ InGrammar (Text.trim input).toList) ∧
      (∀ path, parse input = .ok path →
        path.text = Text.trim input ∧ parse path.text = .ok path) ∧
      ∀ e, parse input = .error e → ∃ position fault, e = .malformedPath input position fault ∧
        ((∀ segments, ¬ Spells segments (Text.trim input).toList) →
          fault = .segmentExpected ∧ ListEndsAt (Text.trim input).toList position) ∧
        ((∃ segments, Spells segments (Text.trim input).toList) →
          fault = .wildcardInside ∧ InnerStarAt (Text.trim input).toList position) := by
  refine ⟨Text.trims_trim input, exists_parse_iff,
    fun path h => ⟨text_of_parse h, parse_text_of_parse h⟩, fun e h => ?_⟩
  by_cases hlist : ∃ segments, Spells segments (Text.trim input).toList
  · obtain ⟨segments, hsegments⟩ := hlist
    obtain ⟨position, rfl, hstar⟩ := innerStarAt_of_parse hsegments h
    exact ⟨position, _, rfl, fun hnone => absurd hsegments (hnone segments), fun _ => ⟨rfl, hstar⟩⟩
  · rw [parse_of_not_spells (not_exists.1 hlist)] at h
    exact ⟨_, _, (Except.error.inj h).symm, fun _ => ⟨rfl, listEndsAt_readList _⟩,
      fun hsome => absurd hsome hlist⟩

/-- The list of segments ends behind the second one, whose letters take more bytes than one. -/
example : parse "größe.pet..x" = .error (.malformedPath "größe.pet..x" 11 .segmentExpected) := by
  cbv

end ColumnPath

end LinkQuery
