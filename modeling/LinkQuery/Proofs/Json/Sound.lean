import LinkQuery.Proofs.Json.ReadBack

/-!
# What is read is proper

The integers of a document that was read from a text have 64 bits, its other numbers are numbers of
the format, and the value of a document has distinct names in each object. So a value that was read
is proper, and it is not nested deeper than reading allows (`Value.isProper_of_ofDocument?`).

The numbers are followed through the two machines that read a text: the scanner makes tokens whose
numbers are in range, and the builder puts them into lists and tables without changing them.
-/

namespace LinkQuery

open Json (Value)

/-! ### Runs of machines -/

/-- What each step preserves is preserved by a run. -/
theorem invariant_of_foldlM {σ α : Type} {f : σ → α → Option σ} {P : σ → Prop} {as : List α}
    {s s' : σ} (hstep : ∀ a ∈ as, ∀ s s', P s → f s a = some s' → P s') (hs : P s)
    (h : as.foldlM f s = some s') : P s' := by
  induction as generalizing s with
  | nil =>
    obtain rfl := Option.some.inj h
    exact hs
  | cons a as ih =>
    rw [List.foldlM_cons] at h
    obtain ⟨mid, hmid, h⟩ := Option.bind_eq_some_iff.1 h
    have hP : P mid := hstep a List.mem_cons_self s mid hs hmid
    exact ih (fun b hb => hstep b (List.mem_cons_of_mem a hb)) hP h

namespace Document

mutual

/-- Whether all integers of a document have 64 bits, and its other numbers are those of the format.
-/
def IsSound : Document → Prop
  | integer i => minSigned ≤ i ∧ i ≤ maxWord
  | real x => ∀ y ∈ x, y.IsInRange
  | list items => AreSound items
  | table members => MembersAreSound members
  | null | bool _ | text _ | other => True

/-- Whether all numbers of items are in range. -/
def AreSound : List Document → Prop
  | [] => True
  | d :: ds => IsSound d ∧ AreSound ds

/-- Whether all numbers of members are in range. -/
def MembersAreSound : List (Option String × Document) → Prop
  | [] => True
  | (_, d) :: ms => IsSound d ∧ MembersAreSound ms

end

theorem areSound_iff {ds : List Document} : AreSound ds ↔ ∀ d ∈ ds, d.IsSound := by
  induction ds with
  | nil => simp [AreSound]
  | cons d ds ih => rw [AreSound, List.forall_mem_cons, ih]

theorem membersAreSound_iff {ms : List (Option String × Document)} :
    MembersAreSound ms ↔ ∀ m ∈ ms, m.2.IsSound := by
  induction ms with
  | nil => simp [MembersAreSound]
  | cons m ms ih => rw [MembersAreSound, List.forall_mem_cons, ih]

end Document

namespace Json

/-! ### Tokens -/

/-- A literal stands for an integer only if this has 64 bits, and for a float else, which is in
range if there is one. -/
theorem Literal.isSound_value (l : Literal) : l.value.IsSound := by
  have hreal : (Document.real l.toBinary64).IsSound := fun x hx => isInRange_toBinary64 hx
  unfold Literal.value
  dsimp only
  split
  next =>
    split
    next hwhole =>
      -- without a sign the number is not negative, and is bounded from above alone
      have hmin : minSigned ≤ 0 := by decide
      exact ⟨by omega, Int.ofNat_le.2 hwhole.2⟩
    next =>
      split
      next hnegative =>
        -- with one it is not positive
        have hmax : (0 : Int) ≤ maxWord := by decide
        exact ⟨hnegative.2.2, by omega⟩
      next => exact hreal
  next => exact hreal

/-- Whether the number that a token is, if it is one, is in range. -/
def Token.IsSound : Token → Prop
  | scalar d => d.IsSound
  | _ => True

/-- A word is a constant or a number. -/
theorem isSound_of_word? {cs : List Char} {t : Token} (h : word? cs = some t) : t.IsSound := by
  unfold word? at h
  split at h
  · obtain rfl := Option.some.inj h
    trivial
  split at h
  · obtain rfl := Option.some.inj h
    trivial
  split at h
  · obtain rfl := Option.some.inj h
    trivial
  obtain ⟨l, -, rfl⟩ := Option.map_eq_some_iff.1 h
  exact l.isSound_value

/-- Punctuation is no number. -/
theorem isSound_of_punctuation? {c : Char} {t : Token} (h : punctuation? c = some t) :
    t.IsSound := by
  unfold punctuation? at h
  repeat' split at h
  all_goals first | contradiction | (obtain rfl := Option.some.inj h; trivial)

namespace Scanner

/-- Whether all tokens found so far are sound. -/
def IsSound (s : Scanner) : Prop := ∀ t ∈ s.tokens, t.IsSound

/-- Between two tokens nothing is found but punctuation. -/
theorem isSound_stepBetween {found : List Token} {c : Char} {s : Scanner}
    (hfound : ∀ t ∈ found, t.IsSound) (h : stepBetween found c = some s) : s.IsSound := by
  unfold stepBetween at h
  split at h
  · obtain rfl := Option.some.inj h
    exact hfound
  split at h
  · obtain rfl := Option.some.inj h
    exact hfound
  split at h
  · obtain rfl := Option.some.inj h
    exact hfound
  obtain ⟨t, ht, rfl⟩ := Option.map_eq_some_iff.1 h
  exact List.forall_mem_cons.2 ⟨isSound_of_punctuation? ht, hfound⟩

/-- **A step of the scanner** adds a token at most: a text that is closed, or what a word is that
has ended. -/
theorem isSound_step {s s' : Scanner} {c : Char} (hs : s.IsSound) (h : s.step c = some s') :
    s'.IsSound := by
  obtain ⟨found, mode⟩ := s
  cases mode with
  | between => exact isSound_stepBetween hs h
  | word chars =>
    simp only [step] at h
    split at h
    · obtain rfl := Option.some.inj h
      exact hs
    · -- the word has ended
      obtain ⟨t, ht, h⟩ := Option.bind_eq_some_iff.1 h
      exact isSound_stepBetween (List.forall_mem_cons.2 ⟨isSound_of_word? ht, hs⟩) h
  | text pieces =>
    simp only [step] at h
    split at h
    · obtain rfl := Option.some.inj h
      exact List.forall_mem_cons.2 ⟨trivial, hs⟩
    split at h
    · obtain rfl := Option.some.inj h
      exact hs
    split at h
    · contradiction
    · obtain rfl := Option.some.inj h
      exact hs
  | escape pieces =>
    simp only [step] at h
    split at h
    · obtain rfl := Option.some.inj h
      exact hs
    · obtain ⟨d, -, rfl⟩ := Option.map_eq_some_iff.1 h
      exact hs
  | hex pieces left value =>
    obtain ⟨d, -, rfl⟩ := Option.map_eq_some_iff.1 h
    cases left <;> exact hs

/-- What is no character is skipped or ends the reading. -/
theorem isSound_stepSymbol {s s' : Scanner} {symbol : Option Char} (hs : s.IsSound)
    (h : s.stepSymbol symbol = some s') : s'.IsSound := by
  cases symbol with
  | some c => exact isSound_step hs h
  | none =>
    rw [stepSymbol, stepStray] at h
    split at h
    · obtain rfl := Option.some.inj h
      exact hs
    · contradiction

end Scanner

/-- The tokens of a text are sound. -/
theorem isSound_of_tokens? {symbols : List (Option Char)} {ts : List Token}
    (h : tokens? symbols = some ts) : ∀ t ∈ ts, t.IsSound := by
  obtain ⟨s, hrun, hfinish⟩ := Option.bind_eq_some_iff.1 h
  -- nothing is found at first, and no step finds a number out of range
  have hs : s.IsSound := invariant_of_foldlM (P := Scanner.IsSound)
    (fun _ _ _ _ => Scanner.isSound_stepSymbol) (s := .start)
      (by simp [Scanner.IsSound, Scanner.start])
    hrun
  unfold Scanner.finish at hfinish
  split at hfinish
  · obtain rfl := Option.some.inj hfinish
    -- the tokens are found in reverse order
    exact fun t ht => hs t (List.mem_reverse.1 ht)
  · obtain ⟨t, ht, rfl⟩ := Option.map_eq_some_iff.1 hfinish
    -- the text ends with a word
    have hall := List.forall_mem_cons.2 ⟨isSound_of_word? ht, hs⟩
    exact fun t ht => hall t (List.mem_reverse.1 ht)
  · contradiction

/-! ### Documents -/

/-- Whether all parts of an open list or table are sound. -/
def Frame.IsSound : Frame → Prop
  | list items => ∀ d ∈ items, d.IsSound
  | table members | member members _ => ∀ m ∈ members, m.2.IsSound

namespace Builder

/-- Whether everything built so far is sound. -/
structure IsSound (b : Builder) : Prop where
  stack : ∀ frame ∈ b.stack, frame.IsSound
  document : ∀ d, b.expect = .finished d → d.IsSound

/-- As long as the document is not finished, all that has been built is in the open lists and
tables. -/
theorem isSound_of_open {stack : List Frame} {e : Expectation}
    (hstack : ∀ frame ∈ stack, frame.IsSound) (he : ∀ d, e ≠ .finished d) :
    IsSound ⟨stack, e⟩ :=
  ⟨hstack, fun d hd => absurd hd (he d)⟩

/-- A document is put into the innermost list or table that is open, or is the whole. -/
theorem isSound_place {d : Document} {stack : List Frame} {b : Builder} (hd : d.IsSound)
    (hstack : ∀ frame ∈ stack, frame.IsSound) (h : place d stack = some b) : b.IsSound := by
  unfold place at h
  split at h
  · obtain rfl := Option.some.inj h
    -- nothing is open any more
    refine ⟨hstack, fun d' hd' => ?_⟩
    obtain rfl := Expectation.finished.inj hd'
    exact hd
  · obtain rfl := Option.some.inj h
    obtain ⟨hframe, hrest⟩ := List.forall_mem_cons.1 hstack
    exact isSound_of_open (List.forall_mem_cons.2 ⟨List.forall_mem_cons.2 ⟨hd, hframe⟩, hrest⟩)
      (by simp)
  · obtain rfl := Option.some.inj h
    obtain ⟨hframe, hrest⟩ := List.forall_mem_cons.1 hstack
    exact isSound_of_open (List.forall_mem_cons.2 ⟨List.forall_mem_cons.2 ⟨hd, hframe⟩, hrest⟩)
      (by simp)
  · contradiction

/-- A list that is closed is put into the one around it. -/
theorem isSound_closeList {stack : List Frame} {b : Builder}
    (hstack : ∀ frame ∈ stack, frame.IsSound) (h : closeList stack = some b) : b.IsSound := by
  unfold closeList at h
  split at h
  · obtain ⟨hframe, hrest⟩ := List.forall_mem_cons.1 hstack
    -- the items are collected in reverse order
    have hitems := Document.areSound_iff.2 fun d hd => hframe d (List.mem_reverse.1 hd)
    exact isSound_place (d := .list _) hitems hrest h
  · contradiction

/-- So is a table. -/
theorem isSound_closeTable {stack : List Frame} {b : Builder}
    (hstack : ∀ frame ∈ stack, frame.IsSound) (h : closeTable stack = some b) : b.IsSound := by
  unfold closeTable at h
  split at h
  · obtain ⟨hframe, hrest⟩ := List.forall_mem_cons.1 hstack
    have hmembers := Document.membersAreSound_iff.2 fun m hm => hframe m (List.mem_reverse.1 hm)
    exact isSound_place (d := .table _) hmembers hrest h
  · contradiction

/-- Where a value is expected, it stands there, or a list or table is opened. -/
theorem isSound_stepValue {stack : List Frame} {t : Token} {b : Builder} (ht : t.IsSound)
    (hstack : ∀ frame ∈ stack, frame.IsSound) (h : stepValue stack t = some b) : b.IsSound := by
  cases t with
  | scalar d => exact isSound_place ht hstack h
  | text s => exact isSound_place (d := .text s) trivial hstack h
  | openList =>
    obtain rfl := Option.some.inj h
    exact isSound_of_open (List.forall_mem_cons.2 ⟨nofun, hstack⟩) nofun
  | openTable =>
    obtain rfl := Option.some.inj h
    exact isSound_of_open (List.forall_mem_cons.2 ⟨nofun, hstack⟩) nofun
  | closeList | closeTable | comma | colon => contradiction

theorem isSound_stepName {stack : List Frame} {t : Token} {b : Builder}
    (hstack : ∀ frame ∈ stack, frame.IsSound) (h : stepName stack t = some b) : b.IsSound := by
  unfold stepName at h
  split at h
  · obtain rfl := Option.some.inj h
    obtain ⟨hframe, hrest⟩ := List.forall_mem_cons.1 hstack
    exact isSound_of_open (List.forall_mem_cons.2 ⟨hframe, hrest⟩) (by simp)
  · contradiction

/-- **A step of the builder** puts what the tokens say where it belongs, and changes no number. -/
theorem isSound_step {b b' : Builder} {t : Token} (hb : b.IsSound) (ht : t.IsSound)
    (h : b.step t = some b') : b'.IsSound := by
  obtain ⟨stack, e⟩ := b
  have hstack := hb.stack
  unfold step at h
  split at h
  next => exact isSound_stepValue ht hstack h
  next => exact isSound_closeList hstack h
  next => exact isSound_stepValue ht hstack h
  next => exact isSound_stepName hstack h
  next => exact isSound_closeTable hstack h
  next => exact isSound_stepName hstack h
  next =>
    obtain rfl := Option.some.inj h
    exact isSound_of_open hstack (by simp)
  next => exact isSound_closeList hstack h
  next => exact isSound_closeTable hstack h
  next =>
    -- a comma leaves the open list or table as it is
    split at h
    · obtain rfl := Option.some.inj h
      exact isSound_of_open hstack (by simp)
    · obtain rfl := Option.some.inj h
      exact isSound_of_open hstack (by simp)
    · contradiction
  next => contradiction

end Builder

/-- The document that is built of sound tokens is sound. -/
theorem isSound_of_build? {ts : List Token} {d : Document} (hts : ∀ t ∈ ts, t.IsSound)
    (h : build? ts = some d) : d.IsSound := by
  obtain ⟨b, hrun, hfinish⟩ := Option.bind_eq_some_iff.1 h
  -- at first nothing is open and nothing finished
  have hstart : Builder.start.IsSound :=
    Builder.isSound_of_open (e := .value) (List.forall_mem_nil _) nofun
  have hb : b.IsSound := invariant_of_foldlM (P := Builder.IsSound)
    (fun t ht _ _ hb => Builder.isSound_step hb (hts t ht)) hstart hrun
  unfold Builder.finish at hfinish
  split at hfinish
  next hexpect =>
    obtain rfl := Option.some.inj hfinish
    exact hb.document _ hexpect
  next => contradiction

/-- **The integers of a document that was read have 64 bits.** -/
theorem isSound_of_readBytes? {bytes : ByteArray} {d : Document} (h : readBytes? bytes = some d) :
    d.IsSound := by
  obtain ⟨ts, hts, h⟩ := Option.bind_eq_some_iff.1 h
  exact isSound_of_build? (isSound_of_tokens? hts) h

/-! ### Values -/

namespace Value

theorem membersAreProper_iff {ms : List (String × Value)} :
    MembersAreProper ms ↔ ∀ m ∈ ms, m.2.IsProper := by
  induction ms with
  | nil => simp [MembersAreProper]
  | cons m ms ih => rw [MembersAreProper, List.forall_mem_cons, ih]

/-- Members are as deep as the deepest of them. -/
theorem membersDepth_le_iff {ms : List (String × Value)} {bound : Nat} :
    membersDepth ms ≤ bound ↔ ∀ m ∈ ms, m.2.depth ≤ bound := by
  induction ms with
  | nil => simp [membersDepth]
  | cons m ms ih => rw [membersDepth, Nat.max_le, List.forall_mem_cons, ih]

mutual

/-- **The value of a document is proper**, and not nested deeper than allowed. -/
theorem isProper_of_ofDocument? {d : Document} {bound : Nat} {v : Value} (hd : d.IsSound)
    (h : ofDocument? bound d = some v) : v.IsProper ∧ v.depth ≤ bound := by
  match d with
  | .null | .bool b =>
    obtain rfl := Option.some.inj h
    exact ⟨trivial, Nat.zero_le _⟩
  | .integer i =>
    obtain rfl := Option.some.inj h
    exact ⟨hd, Nat.zero_le _⟩
  | .real x =>
    obtain ⟨y, hy, rfl⟩ := Option.map_eq_some_iff.1 h
    exact ⟨hd y hy, Nat.zero_le _⟩
  | .text x =>
    obtain ⟨_, -, rfl⟩ := Option.map_eq_some_iff.1 h
    exact ⟨trivial, Nat.zero_le _⟩
  | .other => contradiction
  | .list items =>
    cases bound with
    -- here the nesting is deeper than allowed
    | zero => contradiction
    | succ bound =>
      obtain ⟨vs, hvs, rfl⟩ := Option.map_eq_some_iff.1 h
      obtain ⟨hproper, hdepth⟩ := areProper_of_itemsOfDocuments? hd hvs
      exact ⟨hproper, Nat.succ_le_succ hdepth⟩
  | .table members =>
    cases bound with
    | zero => contradiction
    | succ bound =>
      obtain ⟨ms, hms, rfl⟩ := Option.map_eq_some_iff.1 h
      obtain ⟨hproper, hdepth⟩ := membersAreProper_of_membersOfDocuments? hd hms
      -- the members collected are among those written
      obtain ⟨hnodup, hmem⟩ := Members.collect_spec ms
      refine ⟨⟨hnodup, membersAreProper_iff.2 fun m hm => ?_⟩, Nat.succ_le_succ ?_⟩
      · exact membersAreProper_iff.1 hproper m (hmem m hm)
      · exact membersDepth_le_iff.2 fun m hm => membersDepth_le_iff.1 hdepth m (hmem m hm)

/-- Items are proper one by one. -/
theorem areProper_of_itemsOfDocuments? {ds : List Document} {bound : Nat} {vs : List Value}
    (hds : Document.AreSound ds) (h : itemsOfDocuments? bound ds = some vs) :
    AreProper vs ∧ itemsDepth vs ≤ bound := by
  match ds with
  | [] =>
    obtain rfl := Option.some.inj h
    exact ⟨trivial, Nat.zero_le _⟩
  | d :: ds =>
    obtain ⟨v, hv, h⟩ := Option.bind_eq_some_iff.1 h
    obtain ⟨rest, hrest, h⟩ := Option.bind_eq_some_iff.1 h
    obtain rfl := Option.some.inj h
    obtain ⟨hproper, hdepth⟩ := isProper_of_ofDocument? hds.1 hv
    obtain ⟨hproper', hdepth'⟩ := areProper_of_itemsOfDocuments? hds.2 hrest
    exact ⟨⟨hproper, hproper'⟩, Nat.max_le.2 ⟨hdepth, hdepth'⟩⟩

theorem membersAreProper_of_membersOfDocuments? {ds : List (Option String × Document)}
    {bound : Nat} {ms : List (String × Value)} (hds : Document.MembersAreSound ds)
    (h : membersOfDocuments? bound ds = some ms) :
    MembersAreProper ms ∧ membersDepth ms ≤ bound := by
  match ds with
  | [] =>
    obtain rfl := Option.some.inj h
    exact ⟨trivial, Nat.zero_le _⟩
  | (name, d) :: ds =>
    obtain ⟨n, -, h⟩ := Option.bind_eq_some_iff.1 h
    obtain ⟨v, hv, h⟩ := Option.bind_eq_some_iff.1 h
    obtain ⟨rest, hrest, h⟩ := Option.bind_eq_some_iff.1 h
    obtain rfl := Option.some.inj h
    obtain ⟨hproper, hdepth⟩ := isProper_of_ofDocument? hds.1 hv
    obtain ⟨hproper', hdepth'⟩ := membersAreProper_of_membersOfDocuments? hds.2 hrest
    exact ⟨⟨hproper, hproper'⟩, Nat.max_le.2 ⟨hdepth, hdepth'⟩⟩

end

end Value

end Json

end LinkQuery
