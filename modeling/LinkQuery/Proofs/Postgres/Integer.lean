import LinkQuery.Postgres.Parameter
import LinkQuery.Proofs.Number.Integer
import LinkQuery.Proofs.Operands.Covered

/-!
# Integers as parameters

An integer of a filter has 64 bits, with or without a sign. As a parameter it is an integer with a
sign, if it fits; the upper half of the numbers without a sign does not, and these are sent as
floats. A float has 53 bits, so up there only the multiples of 2048 are floats. The other integers
are sent as the nearest of these, and integers that are close to each other become one parameter.

* `Binary64.ofInt_eq`: what an integer in the upper half is rounded to.
* `Parameter.number?_ofJson_int`: the number that is sent for an integer,
  `Parameter.ofJson_int_eq_iff`: when the same is sent for two.
* `Query.integers_bound` is about the operands of filters: every one is sent, and filters that
  differ in one integer are sent differently unless the two integers are in the upper half and are
  rounded to the same float.
-/

namespace LinkQuery

open Json (Value)
open Sql

namespace Postgres.Parameter

/-- The number that is sent. -/
def number? : Parameter → Option ℚ
  | int8 value => some value
  | float8 x => some x.toRat
  | absent | bool _ | text _ | jsonb _ => none

theorem ofJson_int_of_le {z : Int} (hlow : minSigned ≤ z) (hhigh : z ≤ maxSigned) :
    ofJson (.int z) = int8 z := by
  rw [ofJson, if_pos (fitsSigned_iff.2 ⟨hlow, hhigh⟩)]

theorem ofJson_int_of_lt {z : Int} (hlow : maxSigned < z) (hhigh : z ≤ maxWord) :
    ofJson (.int z) = float8 (.ofMultiple (Binary64.roundToEven z.toNat 2048)) := by
  rw [ofJson, if_neg fun h => Int.not_le.2 hlow (fitsSigned_iff.1 h).2,
    Binary64.ofInt_eq hlow hhigh]

/-- **The number that is sent for an integer** is the integer, unless this is in the upper half and
no multiple of
2048. It is never further away than half of that. -/
theorem number?_ofJson_int {z : Int} (hz : IsWord z) :
    ∃ x : ℚ, (ofJson (.int z)).number? = some x ∧ (x = z ↔ z ≤ maxSigned ∨ 2048 ∣ z) ∧
      |x - z| ≤ 1024 := by
  by_cases h : z ≤ maxSigned
  · -- what fits is sent as it is
    rw [ofJson_int_of_le hz.1 h]
    exact ⟨z, rfl, iff_of_true rfl (.inl h), by norm_num⟩
  · have hlow := Int.not_le.1 h
    have hnonneg : 0 ≤ z := Int.le_trans (by decide) (Int.le_of_lt hlow)
    -- beyond that it is rounded to a multiple of 2048
    obtain ⟨n, rfl⟩ := Int.eq_ofNat_of_zero_le hnonneg
    rw [ofJson_int_of_lt hlow hz.2, Int.toNat_natCast]
    refine ⟨_, congrArg some (Binary64.toRat_ofMultiple _), ?_, ?_⟩
    · rw [Int.cast_natCast, or_iff_right h]
      have hmultiple := Binary64.mul_roundToEven_eq_iff n (show 0 < 2048 by decide)
      rw [← Nat.cast_ofNat, ← Nat.cast_mul, Nat.cast_inj, hmultiple]
      exact (Int.natCast_dvd_natCast (m := 2048) (n := n)).symm
    · have herror := Binary64.roundToEven_error n (show 0 < 2048 by decide)
      rw [abs_le] at herror ⊢
      constructor <;> push_cast at herror ⊢ <;> linarith [herror.1, herror.2]

/-- **When the same is sent for two integers.** -/
theorem ofJson_int_eq_iff {a b : Int} (ha : IsWord a) (hb : IsWord b) :
    ofJson (.int b) = ofJson (.int a) ↔ a = b ∨ maxSigned < a ∧ maxSigned < b ∧
      Binary64.roundToEven a.toNat 2048 = Binary64.roundToEven b.toNat 2048 := by
  by_cases hlowa : a ≤ maxSigned
  · have hnot : ¬ (maxSigned < a ∧ maxSigned < b ∧
        Binary64.roundToEven a.toNat 2048 = Binary64.roundToEven b.toNat 2048) :=
      fun h => Int.not_le.2 h.1 hlowa
    rw [or_iff_left hnot, ofJson_int_of_le ha.1 hlowa]
    -- an integer that fits is never the same parameter as a rounded one
    by_cases hlowb : b ≤ maxSigned
    · rw [ofJson_int_of_le hb.1 hlowb, int8.injEq, eq_comm]
    · rw [ofJson_int_of_lt (Int.not_le.1 hlowb) hb.2]
      exact iff_of_false nofun fun heq => hlowb (heq ▸ hlowa)
  · rw [ofJson_int_of_lt (Int.not_le.1 hlowa) ha.2]
    by_cases hlowb : b ≤ maxSigned
    · rw [ofJson_int_of_le hb.1 hlowb]
      refine iff_of_false nofun ?_
      rintro (heq | h)
      · exact hlowa (heq ▸ hlowb)
      · exact Int.not_le.2 h.2.1 hlowb
    · -- two rounded ones are the same when they round to the same multiple
      rw [ofJson_int_of_lt (Int.not_le.1 hlowb) hb.2, float8.injEq, Binary64.ofMultiple_inj,
        eq_comm]
      constructor
      · intro hround
        exact .inr ⟨Int.not_le.1 hlowa, Int.not_le.1 hlowb, hround⟩
      · rintro (rfl | h)
        · rfl
        · exact h.2.2

end Postgres.Parameter

/-! ### Operands -/

/-- The parameters of a statement as they are sent. -/
def Sql.Statement.bound (s : Statement) : List Postgres.Parameter := s.params.map .ofJson

namespace Query

open Postgres (Parameter)

/-- Another filter differs from that of a query in one operand alone, which is an integer in both.
-/
structure DiffersAt (q : Query) (layers : List Value) (place : Nat) (a b : Int) : Prop where
  form_eq : layers.map Value.form = q.layers.map Value.form
  operand_eq : q.operands[place]? = some (.int a)
  operands_eq : operands { q with layers := layers } = q.operands.set place (.int b)

/-- What is sent differs where the operand is sent. -/
theorem map_getD_set_eq_iff {operands : List Value} {places : List Nat} {place : Nat}
    {old new : Value}
    (hold : operands[place]? = some old) (hplace : place ∈ places) {f : Value → Parameter} :
    (places.map ((operands.set place new).getD · .null)).map f =
      (places.map (operands.getD · .null)).map f ↔
      f new = f old := by
  obtain ⟨hless, -⟩ := List.getElem?_eq_some_iff.1 hold
  have hself : (operands.set place new).getD place .null = new := by
    rw [List.getD_eq_getElem?_getD, List.getElem?_set_self hless, Option.getD_some]
  have hother : operands.getD place .null = old := by
    rw [List.getD_eq_getElem?_getD, hold, Option.getD_some]
  rw [List.map_map, List.map_map, List.map_inj_left]
  constructor
  · intro hall
    have hat : f ((operands.set place new).getD place .null) = f (operands.getD place .null) :=
      hall place hplace
    rwa [hself, hother] at hat
  · -- at the other places nothing changes
    intro heq i _
    show f ((operands.set place new).getD i .null) = f (operands.getD i .null)
    by_cases hi : i = place
    · rw [hi, hself, hother, heq]
    · rw [List.getD_eq_getElem?_getD, List.getElem?_set_ne (Ne.symm hi),
        ← List.getD_eq_getElem?_getD]

/-- **Integer operands as they are sent.** Every integer operand of a filter is sent with the
statement. The number that is sent for it is the integer, unless this is beyond the integers with a
sign and no multiple of 2048. Filters that differ in one integer operand have the same text, and the
same is sent with it only where both integers are beyond the integers with a sign and nearest to the
same multiple of 2048. -/
theorem integers_bound (q : Query) (window : Option Window) {s : Statement}
    (hs : q.statement window = .ok s) :
    (∀ z, Value.int z ∈ q.operands → Parameter.ofJson (.int z) ∈ s.bound) ∧
    (∀ z, IsWord z → ∃ x : ℚ, (Parameter.ofJson (.int z)).number? = some x ∧
      (x = z ↔ z ≤ maxSigned ∨ 2048 ∣ z) ∧ |x - z| ≤ 1024) ∧
    ∀ (layers : List Value) (place : Nat) (a b : Int), q.DiffersAt layers place a b → IsWord a →
      IsWord b →
      ∃ s', statement { q with layers := layers } window = .ok s' ∧ s'.sql = s.sql ∧
        (s'.bound = s.bound ↔ a = b ∨ maxSigned < a ∧ maxSigned < b ∧
          Binary64.roundToEven a.toNat 2048 = Binary64.roundToEven b.toNat 2048) := by
  refine ⟨fun z hz => ?_, fun z => Parameter.number?_ofJson_int, ?_⟩
  · -- every operand has a place among the parameters
    obtain ⟨s', places, -, -, hcover, hparams, -⟩ := exists_covering_places rfl hs
    obtain ⟨place, hplace, hoperand⟩ := List.mem_iff_getElem.1 hz
    refine List.mem_map_of_mem ?_
    rw [hparams, List.mem_append]
    refine .inl (List.mem_map.2 ⟨place, (hcover place).2 hplace, ?_⟩)
    rw [List.getD_eq_getElem?_getD, List.getElem?_eq_getElem hplace, hoperand, Option.getD_some]
  · intro layers place a b hdiffers ha hb
    -- the other query is of the same form, so its operands take the same places
    obtain ⟨s', places, hs', hsql, hcover, hparams, hparams'⟩ :=
      exists_covering_places hdiffers.form_eq hs
    refine ⟨s', hs', hsql, ?_⟩
    obtain ⟨hplace, -⟩ := List.getElem?_eq_some_iff.1 hdiffers.operand_eq
    rw [← Parameter.ofJson_int_eq_iff ha hb, Statement.bound, Statement.bound, hparams, hparams',
      List.map_append, List.map_append, List.append_left_inj, hdiffers.operands_eq]
    exact map_getD_set_eq_iff hdiffers.operand_eq ((hcover place).2 hplace)

/-- The teams of a given size. -/
def teamsOfSize (size : Int) : Query :=
  { Query.new ⟨[(Table.named "teams").addColumn "size" "numeric"]⟩ "teams" with
    layers := [.object [("size", .int size)]] }

/-- Three sizes that become one float: the first one is a multiple of 2048, and the others are
nearest to it. -/
theorem integers_bound_three_sizes :
    let size : Int := 9223372036854775808
    ∃ s s' s'' : Statement, (teamsOfSize size).compile = .ok s ∧
      (teamsOfSize (size + 1)).compile = .ok s' ∧
      (teamsOfSize (size + 1024)).compile = .ok s'' ∧ s'.bound = s.bound ∧ s''.bound = s.bound := by
  intro size
  have hcompile : (teamsOfSize size).compile =
      .ok ⟨"select \"xata_id\", \"size\" from \"teams\" where \"size\" = $1", [.int size]⟩ := by
    decide +kernel
  obtain ⟨-, -, hdiffers⟩ := integers_bound (teamsOfSize size) none hcompile
  have hone : (teamsOfSize size).DiffersAt [.object [("size", .int (size + 1))]] 0 size
      (size + 1) :=
    ⟨rfl, rfl, rfl⟩
  have hmany : (teamsOfSize size).DiffersAt [.object [("size", .int (size + 1024))]] 0 size
      (size + 1024) :=
    ⟨rfl, rfl, rfl⟩
  obtain ⟨s', hs', -, hiff'⟩ := hdiffers _ _ _ _ hone (by decide) (by decide)
  obtain ⟨s'', hs'', -, hiff''⟩ := hdiffers _ _ _ _ hmany (by decide) (by decide)
  exact ⟨_, s', s'', hcompile, hs', hs'', hiff'.2 (.inr (by decide)), hiff''.2 (.inr (by decide))⟩

/-- **An integer that is not sent exactly**: the same is sent for two sizes, and it is neither of
them. -/
theorem size_not_sent_exactly :
    let size : Int := 9223372036854775809
    IsWord size ∧ IsWord (size + 1) ∧
      (∃ s s' : Statement, (teamsOfSize size).compile = .ok s ∧
        (teamsOfSize (size + 1)).compile = .ok s' ∧
        s.params = [.int size] ∧ s'.params = [.int (size + 1)] ∧ s.bound = s'.bound) ∧
      (Parameter.ofJson (.int size)).number? ≠ some (size : ℚ) ∧
        (Parameter.ofJson (.int (size + 1))).number? ≠ some ((size + 1 : Int) : ℚ) := by
  intro size
  have hcompile : (teamsOfSize size).compile =
      .ok ⟨"select \"xata_id\", \"size\" from \"teams\" where \"size\" = $1", [.int size]⟩ := by
    decide +kernel
  have hcompile' : (teamsOfSize (size + 1)).compile =
      .ok ⟨"select \"xata_id\", \"size\" from \"teams\" where \"size\" = $1",
        [.int (size + 1)]⟩ := by
    decide +kernel
  -- neither number is a multiple of 2048
  have hinexact : ∀ z : Int, IsWord z → ¬ (z ≤ maxSigned ∨ 2048 ∣ z) →
      (Parameter.ofJson (.int z)).number? ≠ some (z : ℚ) := by
    intro z hz hnot heq
    obtain ⟨x, hx, hiff, -⟩ := Parameter.number?_ofJson_int hz
    exact hnot (hiff.1 (Option.some.inj (hx.symm.trans heq)))
  exact ⟨by decide, by decide, ⟨_, _, hcompile, hcompile', rfl, rfl, by decide +kernel⟩,
    hinexact size (by decide) (by decide), hinexact (size + 1) (by decide) (by decide)⟩

end Query

end LinkQuery
