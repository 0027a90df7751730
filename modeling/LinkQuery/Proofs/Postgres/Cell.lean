import LinkQuery.Postgres.Transport
import LinkQuery.Proofs.Filter.Restriction
import LinkQuery.Proofs.Json.Members
import LinkQuery.Proofs.Number.Interchange
import LinkQuery.Proofs.Outcome

/-!
# What becomes null on the way back

The library that reads the cells finds a value in a cell, or refuses the cell, or stops the program.
A value becomes null if it says null itself: it is the null of JSON, or a number that is not finite
and has no counterpart in JSON. But a cell that is refused becomes null too. Nothing tells these
apart in a row, and the statement succeeds in either case.

All this is shown for every library that finds nothing in absent cells, and only there
(`Decoder.IsLawful`). Which cells it refuses, and on which ones it stops, is its own affair.

* `Decoder.isLawful_binary`, `isRefused_binary_iff`: the decoder of the binary format is such a
  library, and refuses the types that cannot be read as anything, and bytes in another format.
* `decodeCell_eq_null_iff`: a cell becomes null iff it is null (`IsNull`) or refused (`IsRefused`).
* `ResultSet.get?_of_row`: of several columns of one name the last one is in the row.
* `ResultSet.nulls_iff` is about whole answers: a null in a row stands for a null in the database
  exactly in those answers in which no cell that counts is refused.
-/

namespace LinkQuery.Postgres

open Json (Value)

/-! ### Libraries -/

/-- What is relied on: in an absent cell nothing is found, and in one that is there a value is
found, if it is read at all. -/
structure Decoder.IsLawful (decoder : Decoder) : Prop where
  absent : ∀ kind typeName, decoder.get kind typeName none = .value none
  present : ∀ kind typeName bytes, decoder.get kind typeName (some bytes) ≠ .value none

/-- The kind that is asked for is one that the type can be read as, if there is any. -/
theorem Kind.mem_accepted_ofTypeName_iff {typeName : String} :
    typeName ∈ (ofTypeName typeName).accepted ↔ ∃ kind : Kind, typeName ∈ kind.accepted := by
  have hall : ∀ kind : Kind, ∀ t ∈ kind.accepted, t ∈ (ofTypeName t).accepted := by
    intro kind
    cases kind <;> decide
  exact ⟨fun h => ⟨_, h⟩, fun ⟨kind, h⟩ => hall kind typeName h⟩

namespace Decoder

variable {kind : Kind} {typeName : String}

theorem get_binary_of_mem (h : typeName ∈ kind.accepted) (bytes : List UInt8) :
    binary.get kind typeName (some bytes) = (kind.readBytes typeName bytes).map some :=
  if_pos h

/-- A type that is not accepted is refused, whatever the bytes are. -/
theorem get_binary_of_not_mem (h : typeName ∉ kind.accepted) (bytes : List UInt8) :
    binary.get kind typeName (some bytes) = .refused :=
  if_neg h

theorem isLawful_binary : binary.IsLawful where
  absent _ _ := rfl
  present kind typeName bytes := by
    by_cases h : typeName ∈ kind.accepted
    · rw [get_binary_of_mem h]
      cases kind.readBytes typeName bytes <;> exact nofun
    · rw [get_binary_of_not_mem h]
      exact nofun

end Decoder

/-! ### Values -/

/-- The values that say null: the null of JSON, and the numbers that are not finite, whose exponent
field is all ones. -/
def Kind.SaysNull : (kind : Kind) → kind.Carrier → Prop
  | json, value => value = .null
  | float4, bits => bits.toNat / 2 ^ 23 % 2 ^ 8 = 2 ^ 8 - 1
  | float8, bits => bits.toNat / 2 ^ 52 % 2 ^ 11 = 2 ^ 11 - 1
  | _, _ => False

theorem getD_map_float_eq_null_iff (x : Option Binary64) :
    (x.map Value.float).getD .null = .null ↔ x = none := by
  cases x <;> simp

/-- **What a value becomes null for.** -/
theorem Kind.toValue_eq_null_iff (kind : Kind) (a : kind.Carrier) :
    kind.toValue a = .null ↔ kind.SaysNull a := by
  cases kind with
  -- a document says null itself, a float is null when it is not finite, and nothing else is
  | json => exact Iff.rfl
  | float4 =>
    exact (getD_map_float_eq_null_iff _).trans
      (Binary64.ofBits?_eq_none_iff (by decide) (by decide) (by decide) (by decide) _)
  | float8 =>
    exact (getD_map_float_eq_null_iff _).trans
      (Binary64.ofBits?_eq_none_iff (by decide) (by decide) (by decide) (by decide) _)
  | _ => exact iff_of_false nofun id

/-! ### Cells -/

section Cells

variable {decoder : Decoder} {typeName : String} {cell : Cell}

/-- Whether a cell is null where it comes from: it is absent, or its value says null. -/
def IsNull (decoder : Decoder) (typeName : String) (cell : Cell) : Prop :=
  cell = none ∨ ∃ a, decoder.get (.ofTypeName typeName) typeName cell = .value (some a) ∧
    (Kind.ofTypeName typeName).SaysNull a

/-- Whether a cell cannot be read as what it is asked for. -/
def IsRefused (decoder : Decoder) (typeName : String) (cell : Cell) : Prop :=
  decoder.get (.ofTypeName typeName) typeName cell = .refused

instance : Decidable (IsRefused decoder typeName cell) := inferInstanceAs (Decidable (_ = _))

/-- **What is refused in the binary format**: all cells of a type that cannot be read as anything,
and the cells whose bytes are not in the format of their type. -/
theorem isRefused_binary_iff :
    IsRefused .binary typeName cell ↔ ∃ bytes, cell = some bytes ∧
      ((∀ kind : Kind, typeName ∉ kind.accepted) ∨
        (Kind.ofTypeName typeName).readBytes typeName bytes = .refused) := by
  cases cell with
  | none => exact iff_of_false nofun fun ⟨bytes, hbytes, _⟩ => nomatch hbytes
  | some bytes =>
    simp only [Option.some.injEq, exists_eq_left', ← not_exists, ← Kind.mem_accepted_ofTypeName_iff]
    -- the type is checked first, and only then are the bytes read
    by_cases h : typeName ∈ (Kind.ofTypeName typeName).accepted
    · rw [or_iff_right (not_not.2 h), IsRefused, Decoder.get_binary_of_mem h]
      cases (Kind.ofTypeName typeName).readBytes typeName bytes <;> simp [Reading.map]
    · exact iff_of_true (Decoder.get_binary_of_not_mem h bytes) (.inl h)

/-- A null is not refused. -/
theorem IsNull.not_isRefused (hdecoder : decoder.IsLawful) (h : IsNull decoder typeName cell) :
    ¬ IsRefused decoder typeName cell := by
  intro hrefused
  rcases h with rfl | ⟨a, ha, -⟩
  · cases (hdecoder.absent _ _).symm.trans hrefused
  · cases ha.symm.trans hrefused

/-- The program stops at the cells at which the library does. -/
theorem decodeCell_eq_none_iff :
    decodeCell decoder typeName cell = none ↔
      decoder.get (.ofTypeName typeName) typeName cell = .halted := by
  unfold decodeCell
  dsimp only
  split <;> simp [*]

/-- **What a cell becomes null for.** -/
theorem decodeCell_eq_null_iff (hdecoder : decoder.IsLawful) :
    decodeCell decoder typeName cell = some .null ↔
      IsNull decoder typeName cell ∨ IsRefused decoder typeName cell := by
  unfold decodeCell IsNull IsRefused
  dsimp only
  cases cell with
  | none =>
    rw [hdecoder.absent]
    simp
  | some bytes =>
    -- what is there never decodes to an absent value
    have hpresent := hdecoder.present (.ofTypeName typeName) typeName bytes
    cases hget : decoder.get (.ofTypeName typeName) typeName (some bytes) with
    | value found =>
      cases found with
      | none => contradiction
      | some a => simp [Kind.toValue_eq_null_iff]
    | refused => simp
    | halted => simp

end Cells

/-! ### Rows -/

/-- The cell in the last column of the given name, with the name of its type. -/
def lastCell? (columns : List (String × String)) (cells : List Cell) (name : String) :
    Option (String × Cell) :=
  ((columns.zip cells).map fun ((n, typeName), cell) => (n, typeName, cell)).reverse.lookup name

/-- A list of values is looked up in like the list that they are made of. -/
theorem lookup_eq_bind_of_forall₂ {α : Type} {f : α → Option Value} {entries : List (String × α)}
    {members : Json.Members}
    (h : List.Forall₂ (fun e m => (f e.2).map (fun value => (e.1, value)) = some m) entries members)
    (name : String) : members.lookup name = (entries.lookup name).bind f := by
  induction h with
  | nil => rfl
  -- the first entry of the name is at the place of the first member of the name
  | @cons entry member entries members hmember _ ih =>
    obtain ⟨n, a⟩ := entry
    obtain ⟨value, hvalue, rfl⟩ := Option.map_eq_some_iff.1 hmember
    rw [List.lookup_cons, List.lookup_cons, ih]
    cases name == n with
    | true => exact hvalue.symm
    | false => rfl

namespace ResultSet

variable {decoder : Decoder}

/-- **What a row says under a name** is what is read in the last column of that name. -/
theorem get?_of_row {columns : List (String × String)} {cells : List Cell} {r : Row}
    (h : row decoder columns cells = some r) (name : String) :
    r.get? name = (lastCell? columns cells name).bind fun (typeName, cell) =>
      decodeCell decoder typeName cell := by
  obtain ⟨members, hmembers, rfl⟩ := Option.map_eq_some_iff.1 h
  -- later columns overwrite earlier ones, so the last of a name counts
  rw [Json.Members.get?_collect, lastCell?]
  refine lookup_eq_bind_of_forall₂ (List.forall₂_reverse_iff.2 ?_) name
  rw [List.forall₂_map_left_iff]
  exact mapM_eq_some_iff.1 hmembers

/-- **What a null in a row stands for.** -/
theorem get?_eq_null_iff (hdecoder : decoder.IsLawful) {columns : List (String × String)}
    {cells : List Cell} {r : Row} (h : row decoder columns cells = some r) (name : String) :
    r.get? name = some .null ↔
      ∃ typeName cell, lastCell? columns cells name = some (typeName, cell) ∧
        (IsNull decoder typeName cell ∨ IsRefused decoder typeName cell) := by
  rw [get?_of_row h, Option.bind_eq_some_iff, Prod.exists]
  simp only [decodeCell_eq_null_iff hdecoder]

/-! ### Answers -/

/-- Whether the program stops at some cell, whether it counts in its row or not. -/
def Halts (decoder : Decoder) (result : ResultSet) : Prop :=
  ∃ cells ∈ result.rows, ∃ name typeName cell, ((name, typeName), cell) ∈ result.columns.zip cells ∧
    decoder.get (.ofTypeName typeName) typeName cell = .halted

/-- Whether no cell is refused that counts in its row. -/
def IsReadable (decoder : Decoder) (result : ResultSet) : Prop :=
  ∀ cells ∈ result.rows, ∀ name typeName cell,
    lastCell? result.columns cells name = some (typeName, cell) → ¬ IsRefused decoder typeName cell

/-- Whether every null in the rows of values stands for a null in the database. -/
def NullsAreGenuine (decoder : Decoder) (result : ResultSet) (rows : List Row) : Prop :=
  ∀ cells r, (cells, r) ∈ result.rows.zip rows → ∀ name, r.get? name = some .null →
    ∃ typeName cell, lastCell? result.columns cells name = some (typeName, cell) ∧
      IsNull decoder typeName cell

/-- The program stops if the library stops at any of the cells. -/
theorem toRows_eq_none_iff (result : ResultSet) :
    result.toRows decoder = none ↔ result.Halts decoder := by
  have hrow : ∀ cells : List Cell, row decoder result.columns cells = none ↔
      ∃ name typeName cell, ((name, typeName), cell) ∈ result.columns.zip cells ∧
        decoder.get (.ofTypeName typeName) typeName cell = .halted := by
    -- the cells are decoded from left to right, and the first that halts ends it
    intro cells
    rw [row, Option.map_eq_none_iff, mapM_eq_none_iff]
    simp only [Prod.exists, Option.map_eq_none_iff, decodeCell_eq_none_iff]
  rw [toRows, mapM_eq_none_iff, Halts]
  simp only [hrow]

/-- There is one row of values for each row of the answer, and it is read from this one. -/
theorem toRows_eq_some_iff {result : ResultSet} {rows : List Row} :
    result.toRows decoder = some rows ↔ result.rows.length = rows.length ∧
      ∀ {cells r}, (cells, r) ∈ result.rows.zip rows → row decoder result.columns cells = some r :=
  mapM_eq_some_iff.trans List.forall₂_iff_zip

theorem nullsAreGenuine_iff (hdecoder : decoder.IsLawful) {result : ResultSet} {rows : List Row}
    (h : result.toRows decoder = some rows) :
    result.NullsAreGenuine decoder rows ↔ result.IsReadable decoder := by
  obtain ⟨hlength, hrow⟩ := toRows_eq_some_iff.1 h
  constructor
  · -- a refused cell that counts makes a null, which would have to be one of the database
    intro hnulls cells hcells name typeName cell hcell hrefused
    rw [← List.map_fst_zip hlength.le] at hcells
    obtain ⟨⟨_, r⟩, hmem, rfl⟩ := List.mem_map.1 hcells
    have hnull := (get?_eq_null_iff hdecoder (hrow hmem) name).2
      ⟨typeName, cell, hcell, .inr hrefused⟩
    obtain ⟨typeName', cell', hcell', hnull'⟩ := hnulls _ r hmem name hnull
    obtain ⟨rfl, rfl⟩ := Prod.mk.inj (Option.some.inj (hcell'.symm.trans hcell))
    exact hnull'.not_isRefused hdecoder hrefused
  · -- without refused cells the only nulls left are those of the database
    intro hreadable cells r hmem name hnull
    obtain ⟨typeName, cell, hcell, hor⟩ := (get?_eq_null_iff hdecoder (hrow hmem) name).1 hnull
    have hread := hreadable cells (List.of_mem_zip hmem).1 name typeName cell hcell
    exact ⟨typeName, cell, hcell, hor.resolve_right hread⟩

theorem isReadable_of_forall {result : ResultSet}
    (h : ∀ cells ∈ result.rows, ∀ p ∈ result.columns.zip cells, ¬ IsRefused decoder p.1.2 p.2) :
    result.IsReadable decoder := by
  intro cells hcells name typeName cell hcell
  -- a cell that counts is one of the cells
  have hmem := mem_of_lookup_eq_some hcell
  rw [List.mem_reverse, List.mem_map] at hmem
  obtain ⟨⟨⟨n, typeName⟩, cell⟩, hp, heq⟩ := hmem
  obtain ⟨rfl, rfl, rfl⟩ : n = name ∧ typeName = _ ∧ cell = _ := by simpa using heq
  exact h cells hcells _ hp

/-- **Nulls on the way back.** What a server answers is passed on: a rejection as a failure, and a
result set as its rows, unless the program stops at a cell, whatever else is in the cells. There is
one row of values for each row of the answer. A null in it stands for an absent cell, or for one
whose value says null, or for one that is refused; so all nulls are nulls of the database in exactly
those answers in which no cell that counts is refused. -/
theorem nulls_iff {m : Type → Type} [Monad m] {decoder : Decoder} (hdecoder : decoder.IsLawful)
    (halted : m (Except TransportError (List Row))) (server : Server m)
    (statement : Sql.Statement) :
    (transportVia decoder halted server statement = do
      match ← server statement.sql (statement.params.map Parameter.ofJson) with
      | .error text => pure (.error (rejection text))
      | .ok result => (result.toRows decoder).elim halted fun rows => pure (.ok rows)) ∧
    ∀ result : ResultSet, (result.toRows decoder = none ↔ result.Halts decoder) ∧
      ∀ rows, result.toRows decoder = some rows →
        rows.length = result.rows.length ∧
        (∀ cells r, (cells, r) ∈ result.rows.zip rows → ∀ name, r.get? name = some .null ↔
          ∃ typeName cell, lastCell? result.columns cells name = some (typeName, cell) ∧
            (IsNull decoder typeName cell ∨ IsRefused decoder typeName cell)) ∧
        (result.NullsAreGenuine decoder rows ↔ result.IsReadable decoder) := by
  constructor
  · rw [transportVia]
    congr 1
    -- what the server answers is either passed on or turned into rows
    funext answer
    cases answer with
    | error text => rfl
    | ok result =>
      dsimp only
      cases result.toRows decoder <;> rfl
  · intro result
    refine ⟨toRows_eq_none_iff result, fun rows h => ?_⟩
    obtain ⟨hlength, hrow⟩ := toRows_eq_some_iff.1 h
    exact ⟨hlength.symm, fun cells r hmem => get?_eq_null_iff hdecoder (hrow hmem),
      nullsAreGenuine_iff hdecoder h⟩

end ResultSet

/-- A server that knows one answer. -/
def answering (result : ResultSet) : Server Id := fun _ _ => .ok result

/-- The scores of two players with remarks. One score is not a number, and one remark is null. -/
def scores : ResultSet where
  columns := [("player", "CHAR"), ("score", "FLOAT8"), ("remark", "JSONB")]
  rows :=
    [[some [65, 100, 97], some [127, 248, 0, 0, 0, 0, 0, 0], some [1, 110, 117, 108, 108]],
      [some [66, 111, 98], none, none]]

/-- All scores and remarks are null, and all of them are nulls of the database. -/
theorem ResultSet.nulls_iff_scores :
    let rows : List Row :=
      [[("player", .text "Ada"), ("score", .null), ("remark", .null)],
        [("player", .text "Bob"), ("score", .null), ("remark", .null)]]
    Decoder.binary.IsLawful ∧ transport (answering scores) ⟨"select 1", []⟩ = .ok rows ∧
      scores.toRows .binary = some rows ∧ scores.NullsAreGenuine .binary rows := by
  intro rows
  have hrows : scores.toRows .binary = some rows := by decide +kernel
  have hreadable : scores.IsReadable .binary := isReadable_of_forall (by decide +kernel)
  -- no cell is refused, so the nulls are absent cells, a score that is no number and a null remark
  obtain ⟨htransport, hanswer⟩ := nulls_iff Decoder.isLawful_binary (pure (.error stopped))
    (answering scores) ⟨"select 1", []⟩
  obtain ⟨-, -, hgenuine⟩ := (hanswer scores).2 rows hrows
  refine ⟨Decoder.isLawful_binary, htransport.trans ?_, hrows, hgenuine.2 hreadable⟩
  show (scores.toRows .binary).elim _ _ = _
  rw [hrows]
  rfl

/-- A price of a type that cannot be read as text. -/
def prices : ResultSet :=
  ⟨[("price", "NUMERIC")], [[some [0, 2, 0, 0, 0, 0, 0, 1, 0, 12, 19, 136]]]⟩

/-- **A price that is there becomes null**, and nothing fails. -/
theorem price_read_as_null :
    let price : Cell := some [0, 2, 0, 0, 0, 0, 0, 1, 0, 12, 19, 136]
    let rows : List Row := [[("price", .null)]]
    transport (answering prices) ⟨"select 1", []⟩ = .ok rows ∧
      IsRefused .binary "NUMERIC" price ∧ ¬ IsNull .binary "NUMERIC" price ∧
      ¬ prices.NullsAreGenuine .binary rows := by
  intro price rows
  -- no kind of value is read from this type
  have hunknown : ∀ kind : Kind, "NUMERIC" ∉ kind.accepted := by
    intro kind
    cases kind <;> decide
  have hrefused : IsRefused .binary "NUMERIC" price :=
    isRefused_binary_iff.2 ⟨_, rfl, .inl hunknown⟩
  have hnotNull : ¬ IsNull .binary "NUMERIC" price := fun hnull =>
    hnull.not_isRefused Decoder.isLawful_binary hrefused
  refine ⟨rfl, hrefused, hnotNull, fun hgenuine => ?_⟩
  obtain ⟨typeName, cell, hcell, hnull⟩ := hgenuine _ _ (.head _) "price" rfl
  obtain ⟨rfl, rfl⟩ := Prod.mk.inj (Option.some.inj hcell)
  exact hnotNull hnull

end LinkQuery.Postgres
