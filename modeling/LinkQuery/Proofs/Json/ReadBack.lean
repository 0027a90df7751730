import LinkQuery.Proofs.Json.FloatRange
import LinkQuery.Proofs.Json.Members
import LinkQuery.Proofs.Json.Scan

/-!
# Reading back what was written

The text of a value is read as a document of the same shape (`Value.read?_compact`), and the
document of a proper value denotes the value again, as far as it is not nested too deep and its
floats are read back (`Value.ofDocument?_document`).

* `Value.reread?` is what the text of a value is read as: the value with its floats read back.
* `Value.floats` are the floats in a value, and `Value.depth` is how deep it is nested.
-/

namespace LinkQuery.Json

namespace Value

/-! ### Documents of values -/

mutual

/-- The document that a value is read as. -/
def document : Value → Document
  | null => .null
  | bool b => .bool b
  | int i => intDocument i
  | float x => .real x.reread?
  | text s => .text (some s)
  | array items => .list (documents items)
  | object members => .table (memberDocuments members)

/-- The documents that items are read as. -/
def documents : List Value → List Document
  | [] => []
  | v :: vs => document v :: documents vs

/-- The members that the members of an object are read as. -/
def memberDocuments : List (String × Value) → List (Option String × Document)
  | [] => []
  | (n, v) :: ms => (some n, document v) :: memberDocuments ms

end

end Value

namespace Value

mutual

/-- The tokens of a value put its document into its place. -/
theorem build_tokens (v : Value) (stack : List Frame) {e : Expectation}
    (he : e = .value ∨ e = .valueOrEnd) :
    v.tokens.foldlM Builder.step ⟨stack, e⟩ = Builder.place v.document stack := by
  match v with
  | null => rcases he with rfl | rfl <;> simp [tokens, document, Builder.step, Builder.stepValue]
  | bool b => rcases he with rfl | rfl <;> simp [tokens, document, Builder.step, Builder.stepValue]
  | int i => rcases he with rfl | rfl <;> simp [tokens, document, Builder.step, Builder.stepValue]
  | float x => rcases he with rfl | rfl <;> simp [tokens, document, Builder.step, Builder.stepValue]
  | text s => rcases he with rfl | rfl <;> simp [tokens, document, Builder.step, Builder.stepValue]
  | array [] =>
    rcases he with rfl | rfl <;>
      simp [tokens, document, documents, Builder.step, Builder.stepValue, Builder.closeList]
  -- the list is opened, its first value placed in it, and the other items follow
  | array (v :: vs) =>
    have hopen : Builder.step ⟨stack, e⟩ .openList = some ⟨.list [] :: stack, .valueOrEnd⟩ := by
      rcases he with rfl | rfl <;> rfl
    have hfirst := build_tokens v (.list [] :: stack) (.inr rfl)
    have hrest := build_itemsTokens vs stack [v.document]
    rw [tokens, List.foldlM_cons, hopen]
    simp [List.foldlM_append, hfirst, Builder.place, hrest, Builder.step, Builder.closeList,
      document, documents]
  | object [] =>
    rcases he with rfl | rfl <;>
      simp [tokens, document, memberDocuments, Builder.step, Builder.stepValue, Builder.closeTable]
  -- a table likewise, with a name before each value
  | object ((n, v) :: ms) =>
    have hopen : Builder.step ⟨stack, e⟩ .openTable = some ⟨.table [] :: stack, .nameOrEnd⟩ := by
      rcases he with rfl | rfl <;> rfl
    have hfirst := build_tokens v (.member [] (some n) :: stack) (.inl rfl)
    have hrest := build_membersTokens ms stack [(some n, v.document)]
    rw [tokens, List.foldlM_cons, hopen]
    simp [List.foldlM_append, hfirst, Builder.place, hrest, Builder.step, Builder.stepName,
      Builder.closeTable, document, memberDocuments]

/-- The items of a list are placed one after the other. -/
theorem build_itemsTokens (vs : List Value) (stack : List Frame) (before : List Document) :
    (itemsTokens vs).foldlM Builder.step ⟨.list before :: stack, .commaOrEnd⟩ =
      some ⟨.list ((documents vs).reverse ++ before) :: stack, .commaOrEnd⟩ := by
  match vs with
  | [] => rfl
  | v :: vs =>
    -- behind the comma a value is due, so the list cannot end there
    have hfirst := build_tokens v (.list before :: stack) (.inl rfl)
    have hrest := build_itemsTokens vs stack (v.document :: before)
    rw [itemsTokens, List.foldlM_cons]
    simp [Builder.step, List.foldlM_append, hfirst, Builder.place, hrest, documents]

/-- The members of a table are placed under their names one after the other. -/
theorem build_membersTokens (ms : List (String × Value)) (stack : List Frame)
    (before : List (Option String × Document)) :
    (membersTokens ms).foldlM Builder.step ⟨.table before :: stack, .commaOrEnd⟩ =
      some ⟨.table ((memberDocuments ms).reverse ++ before) :: stack, .commaOrEnd⟩ := by
  match ms with
  | [] => rfl
  | (n, v) :: ms =>
    have hfirst := build_tokens v (.member before (some n) :: stack) (.inl rfl)
    have hrest := build_membersTokens ms stack ((some n, v.document) :: before)
    rw [membersTokens, List.foldlM_cons]
    simp [Builder.step, Builder.stepName, List.foldlM_append, hfirst, Builder.place, hrest,
      memberDocuments]

end

/-- **The text of a value is read as its document.** -/
theorem read?_compact (v : Value) : Json.read? v.compact = some v.document := by
  have htokens : tokens? (v.compact.toList.map some) = some v.tokens := by
    rw [compact, String.toList_ofList]
    exact tokens?_of_reads (reads_chars v)
  rw [Json.read?, htokens, Option.bind_some, build?, Builder.start, build_tokens v [] (.inl rfl)]
  rfl

/-! ### Values of documents -/

mutual

/-- Whether all integers have 64 bits, all floats are numbers of the format, and no object has two
members of one name. -/
def IsProper : Value → Prop
  | null => True
  | bool _ => True
  | int i => minSigned ≤ i ∧ i ≤ maxWord
  | float x => x.IsInRange
  | text _ => True
  | array items => AreProper items
  | object members => (members.map (·.1)).Nodup ∧ MembersAreProper members

/-- Whether all items are proper. -/
def AreProper : List Value → Prop
  | [] => True
  | v :: vs => IsProper v ∧ AreProper vs

/-- Whether all members are proper. -/
def MembersAreProper : List (String × Value) → Prop
  | [] => True
  | (_, v) :: ms => IsProper v ∧ MembersAreProper ms

end

mutual

/-- How many arrays and objects are nested at most. -/
def depth : Value → Nat
  | array items => itemsDepth items + 1
  | object members => membersDepth members + 1
  | null | bool _ | int _ | float _ | text _ => 0

/-- How deep the items are nested. -/
def itemsDepth : List Value → Nat
  | [] => 0
  | v :: vs => max (depth v) (itemsDepth vs)

/-- How deep the members are nested. -/
def membersDepth : List (String × Value) → Nat
  | [] => 0
  | (_, v) :: ms => max (depth v) (membersDepth ms)

end

mutual

/-- What the text of a value is read as, if all its floats are read. -/
def reread? : Value → Option Value
  | float x => x.reread?.map float
  | array items => (itemsReread? items).map array
  | object members => (membersReread? members).map object
  | null => some null
  | bool b => some (bool b)
  | int i => some (int i)
  | text s => some (text s)

/-- What items are read as. -/
def itemsReread? : List Value → Option (List Value)
  | [] => some []
  | v :: vs => do
    let v ← reread? v
    let vs ← itemsReread? vs
    some (v :: vs)

/-- What members are read as. -/
def membersReread? : List (String × Value) → Option (List (String × Value))
  | [] => some []
  | (n, v) :: ms => do
    let v ← reread? v
    let ms ← membersReread? ms
    some ((n, v) :: ms)

end

/-- Reading members back keeps their names. -/
theorem map_fst_membersReread? {ms read : List (String × Value)}
    (h : membersReread? ms = some read) :
    read.map (·.1) = ms.map (·.1) := by
  -- reading a value again changes neither how many members there are nor their names
  induction ms generalizing read with
  | nil =>
    obtain rfl := Option.some.inj h
    rfl
  | cons m ms ih =>
    obtain ⟨v, -, h⟩ := Option.bind_eq_some_iff.1 h
    obtain ⟨rest, hrest, h⟩ := Option.bind_eq_some_iff.1 h
    obtain rfl := Option.some.inj h
    rw [List.map_cons, List.map_cons, ih hrest]

mutual

/-- **The document of a value denotes the value**, with its floats read back, if it is not nested
too deep. -/
theorem ofDocument?_document {v : Value} (h : v.IsProper) (bound : Nat) :
    ofDocument? bound v.document = if v.depth ≤ bound then v.reread? else none := by
  match v with
  | null => rfl
  | bool b => rfl
  | int i =>
    -- an integer of a proper value is within the words that read back as integers
    have hword : minSigned ≤ i ∧ i ≤ maxWord := h
    rw [document, intDocument, if_pos hword]
    rfl
  | float x => rfl
  | text s => rfl
  | array items =>
    -- each level of nesting spends one of the bound, so without any left nothing is read
    cases bound with
    | zero => rfl
    | succ bound =>
      rw [document, ofDocument?, itemsOfDocuments?_documents h bound, depth, reread?]
      by_cases hdepth : itemsDepth items ≤ bound
      · rw [if_pos hdepth, if_pos (Nat.succ_le_succ hdepth)]
      · rw [if_neg hdepth, if_neg fun hle => hdepth (Nat.le_of_succ_le_succ hle)]
        rfl
  | object members =>
    cases bound with
    | zero => rfl
    | succ bound =>
      rw [document, ofDocument?, membersOfDocuments?_documents h.2 bound, depth, reread?]
      by_cases hdepth : membersDepth members ≤ bound
      · rw [if_pos hdepth, if_pos (Nat.succ_le_succ hdepth)]
        cases hread : membersReread? members with
        | none => rfl
        | some read =>
          -- the names are those written, which are distinct, so collecting drops no member
          have hnodup : (read.map (·.1)).Nodup := (map_fst_membersReread? hread) ▸ h.1
          rw [Option.map_some, Option.map_some, Members.collect_of_nodup hnodup]
      · rw [if_neg hdepth, if_neg fun hle => hdepth (Nat.le_of_succ_le_succ hle)]
        rfl

/-- The items of a list are read back within the bound that is left. -/
theorem itemsOfDocuments?_documents {vs : List Value} (h : AreProper vs) (bound : Nat) :
    itemsOfDocuments? bound (documents vs) =
      if itemsDepth vs ≤ bound then itemsReread? vs else none := by
  match vs with
  | [] => rfl
  | v :: vs =>
    rw [documents, itemsOfDocuments?, ofDocument?_document h.1, itemsOfDocuments?_documents h.2,
      itemsDepth, itemsReread?]
    simp only [Nat.max_le]
    -- the depth of the items is within the bound exactly when both parts are
    by_cases hv : v.depth ≤ bound <;> by_cases hvs : itemsDepth vs ≤ bound <;> simp [hv, hvs]

/-- So are the members of an object. -/
theorem membersOfDocuments?_documents {ms : List (String × Value)} (h : MembersAreProper ms)
    (bound : Nat) :
    membersOfDocuments? bound (memberDocuments ms) =
      if membersDepth ms ≤ bound then membersReread? ms else none := by
  match ms with
  | [] => rfl
  | (n, v) :: ms =>
    rw [memberDocuments, membersOfDocuments?, ofDocument?_document h.1,
      membersOfDocuments?_documents h.2, membersDepth, membersReread?]
    simp only [Nat.max_le]
    by_cases hv : v.depth ≤ bound <;> by_cases hms : membersDepth ms ≤ bound <;> simp [hv, hms]

end

/-! ### Floats -/

mutual

/-- The floats in a value. -/
def floats : Value → List Binary64
  | float x => [x]
  | array items => itemsFloats items
  | object members => membersFloats members
  | null | bool _ | int _ | text _ => []

/-- The floats in items. -/
def itemsFloats : List Value → List Binary64
  | [] => []
  | v :: vs => floats v ++ itemsFloats vs

/-- The floats in members. -/
def membersFloats : List (String × Value) → List Binary64
  | [] => []
  | (_, v) :: ms => floats v ++ membersFloats ms

end

mutual

/-- A value whose floats are read back is read back. -/
theorem reread?_eq {v : Value} (h : ∀ x ∈ v.floats, x.reread? = some x) : v.reread? = some v := by
  match v with
  | null | bool b | int i | text s => rfl
  | float x => rw [reread?, h x (by simp [floats]), Option.map_some]
  | array items => rw [reread?, itemsReread?_eq h, Option.map_some]
  | object members => rw [reread?, membersReread?_eq h, Option.map_some]

theorem itemsReread?_eq {vs : List Value} (h : ∀ x ∈ itemsFloats vs, x.reread? = some x) :
    itemsReread? vs = some vs := by
  match vs with
  | [] => rfl
  | v :: vs =>
    rw [itemsFloats, List.forall_mem_append] at h
    rw [itemsReread?, reread?_eq h.1, itemsReread?_eq h.2]
    rfl

theorem membersReread?_eq {ms : List (String × Value)}
    (h : ∀ x ∈ membersFloats ms, x.reread? = some x) : membersReread? ms = some ms := by
  match ms with
  | [] => rfl
  | (n, v) :: ms =>
    rw [membersFloats, List.forall_mem_append] at h
    rw [membersReread?, reread?_eq h.1, membersReread?_eq h.2]
    rfl

end

mutual

/-- **A proper value is read**, though its floats need not be read as they were. -/
theorem isSome_reread? {v : Value} (h : v.IsProper) : v.reread?.isSome := by
  match v with
  | null | bool b | int i | text s => rfl
  | float x => rw [reread?, Option.isSome_map, Binary64.isSome_reread? h]
  | array items => rw [reread?, Option.isSome_map, isSome_itemsReread? h]
  | object members => rw [reread?, Option.isSome_map, isSome_membersReread? h.2]

theorem isSome_itemsReread? {vs : List Value} (h : AreProper vs) : (itemsReread? vs).isSome := by
  match vs with
  | [] => rfl
  | v :: vs =>
    obtain ⟨read, hread⟩ := Option.isSome_iff_exists.1 (isSome_reread? h.1)
    obtain ⟨rest, hrest⟩ := Option.isSome_iff_exists.1 (isSome_itemsReread? h.2)
    rw [itemsReread?, hread, hrest]
    rfl

theorem isSome_membersReread? {ms : List (String × Value)} (h : MembersAreProper ms) :
    (membersReread? ms).isSome := by
  match ms with
  | [] => rfl
  | (n, v) :: ms =>
    obtain ⟨read, hread⟩ := Option.isSome_iff_exists.1 (isSome_reread? h.1)
    obtain ⟨rest, hrest⟩ := Option.isSome_iff_exists.1 (isSome_membersReread? h.2)
    rw [membersReread?, hread, hrest]
    rfl

end

end Value

end LinkQuery.Json
