import LinkQuery.Postgres.Parameter
import LinkQuery.Proofs.Operands.Statement
import LinkQuery.Proofs.Page.Adjacent
import LinkQuery.Proofs.Page.Ordered

/-!
# Positions of windows

Offsets and sizes are numbers of 64 bits. A sum that does not fit stays at the largest of them, and
a difference below zero stays at zero, so what comes out need not be what was meant. What is meant
are positions: numbers without bounds, from 0 upwards for rows counted from the first one, and from
-1 downwards for rows counted from the last.

Nothing is lost all the same. The largest number is no offset that a window in range may have, so a
sum that was cut off is refused wherever a window is checked. A difference that was cut off belongs
to a window at its anchor, and the size is cut with it, to the positions that are left.

* `Window.Covers` are the positions of a window.
* `Window.IsRightBehind` and `Window.IsRightBefore` say what the window next to another one is meant
  to be. `Window.isRightBehind_of_after` and `Window.isRightBefore_of_before`: once it is in range,
  it is that.
* `Query.exists_operands_of_compilePage`: the numbers of a window are sent as they are.
-/

namespace LinkQuery

open Json (Value)
open Postgres (Parameter)

/-- Where there are rows: from the first one upwards, or from the last one downwards. -/
def Anchor.Faces (anchor : Anchor) (p : Int) : Prop :=
  match anchor with
  | .front => 0 ≤ p
  | .back => p < 0

namespace Window

/-! ### Positions -/

/-- The position at which a window begins. -/
def lower (w : Window) : Int :=
  match w.anchor with
  | .front => w.offset
  | .back => -(w.offset + w.size)

/-- The position behind the last one of a window. -/
def upper (w : Window) : Int := w.lower + w.size

/-- The positions of a window. -/
def Covers (w : Window) (p : Int) : Prop := w.lower ≤ p ∧ p < w.upper

@[simp] theorem lower_front (offset size : Nat) : lower ⟨.front, offset, size⟩ = offset := rfl

@[simp] theorem lower_back (offset size : Nat) : lower ⟨.back, offset, size⟩ = -(offset + size) :=
  rfl

@[simp] theorem upper_front (offset size : Nat) : upper ⟨.front, offset, size⟩ = offset + size :=
  rfl

@[simp] theorem upper_back (offset size : Nat) : upper ⟨.back, offset, size⟩ = -offset := by
  simp only [upper, lower_back]
  omega

/-- The window `v` is what is meant by the `size` positions right behind `w`: those of them that
there are. -/
structure IsRightBehind (w : Window) (size : Nat) (v : Window) : Prop where
  anchor_eq : v.anchor = w.anchor
  lower_eq : v.lower = w.upper
  disjoint : ∀ p, ¬ (w.Covers p ∧ v.Covers p)
  covers_iff : ∀ p, v.Covers p ↔ (w.upper ≤ p ∧ p < w.upper + size) ∧ w.anchor.Faces p
  /-- With fewer positions it reaches to the anchor. -/
  size_eq : v.size = size ∨ v.size < size ∧ v.upper = 0

/-- The window `v` is what is meant by the `size` positions right before `w`: those of them that
there are. -/
structure IsRightBefore (w : Window) (size : Nat) (v : Window) : Prop where
  anchor_eq : v.anchor = w.anchor
  upper_eq : v.upper = w.lower
  disjoint : ∀ p, ¬ (w.Covers p ∧ v.Covers p)
  covers_iff : ∀ p, v.Covers p ↔ (w.lower - size ≤ p ∧ p < w.lower) ∧ w.anchor.Faces p
  /-- With fewer positions it reaches to the anchor. -/
  size_eq : v.size = size ∨ v.size < size ∧ v.lower = 0

variable {w v : Window} {size : Nat}

/-- Where one window begins and the other one stops they share no position. -/
theorem not_covers_of_upper_eq (h : w.upper = v.lower) (p : Int) : ¬ (w.Covers p ∧ v.Covers p) := by
  rintro ⟨⟨-, hw⟩, hv, -⟩
  omega

/-! ### Next to a window -/

/-- **A sum that was cut off is refused.** -/
theorem add_le_of_check_away (h : (w.away size).check = .ok ()) :
    w.offset + w.size ≤ maxWindowOffset := by
  have hoffset : saturatingAdd w.offset w.size ≤ maxWindowOffset := (check_eq_ok_iff.1 h).2
  unfold saturatingAdd maxWord maxWindowOffset at *
  omega

/-- So the window on the other side of `w` from the anchor has the offset that it is meant to have.
-/
theorem away_of_check (h : (w.away size).check = .ok ()) :
    w.away size = ⟨w.anchor, w.offset + w.size, size⟩ := by
  have hsum := add_le_of_check_away h
  have hexact : saturatingAdd w.offset w.size = w.offset + w.size := by
    unfold saturatingAdd maxWord
    unfold maxWindowOffset at hsum
    omega
  rw [away, hexact]

/-- **The window right behind** another one, once it is in range, is what it is meant to be. -/
theorem isRightBehind_of_after (h : w.after size = some v) (hv : v.check = .ok ()) :
    w.IsRightBehind size v := by
  obtain ⟨anchor, offset, count⟩ := w
  cases anchor with
  | front =>
    -- away from the anchor, where positions have no end
    obtain rfl := Option.some.inj h
    rw [away_of_check hv]
    have hlower : lower ⟨.front, offset + count, size⟩ = upper ⟨.front, offset, count⟩ := by simp
    refine ⟨rfl, hlower, not_covers_of_upper_eq hlower.symm, fun p => ?_, .inl rfl⟩
    simp only [Covers, Anchor.Faces, hlower, upper_front]
    omega
  | back =>
    -- towards the anchor, with the positions that are left
    obtain ⟨-, rfl⟩ := towards_eq_some_iff.1 h
    have hlower : lower ⟨.back, offset - size, min size offset⟩ = upper ⟨.back, offset, count⟩ := by
      simp only [lower_back, upper_back]
      omega
    refine ⟨rfl, hlower, not_covers_of_upper_eq hlower.symm, fun p => ?_, ?_⟩
    · simp only [Covers, Anchor.Faces, hlower, upper_back]
      omega
    · simp only [upper_back]
      omega

/-- **The window right before** another one, once it is in range, is what it is meant to be. -/
theorem isRightBefore_of_before (h : w.before size = some v) (hv : v.check = .ok ()) :
    w.IsRightBefore size v := by
  -- the mirror image, with the two anchors exchanged
  obtain ⟨anchor, offset, count⟩ := w
  cases anchor with
  | front =>
    obtain ⟨-, rfl⟩ := towards_eq_some_iff.1 h
    have hupper : upper ⟨.front, offset - size, min size offset⟩ =
        lower ⟨.front, offset, count⟩ := by
      simp only [upper_front, lower_front]
      omega
    refine ⟨rfl, hupper, fun p hp => not_covers_of_upper_eq hupper p hp.symm, fun p => ?_, ?_⟩
    · simp only [Covers, Anchor.Faces, hupper, lower_front]
      omega
    · simp only [lower_front]
      omega
  | back =>
    obtain rfl := Option.some.inj h
    rw [away_of_check hv]
    have hupper : upper ⟨.back, offset + count, size⟩ = lower ⟨.back, offset, count⟩ := by simp
    refine ⟨rfl, hupper, fun p hp => not_covers_of_upper_eq hupper p hp.symm, fun p => ?_, .inl rfl⟩
    simp only [Covers, Anchor.Faces, hupper, lower_back]
    omega

end Window

/-! ### What is sent for a window -/

/-- A number that is no larger than an offset may be is sent as an integer of 64 bits. -/
theorem Postgres.Parameter.ofJson_of_le {n : Nat} (h : n ≤ maxWindowOffset) :
    Parameter.ofJson (.int n) = .int8 n := by
  have hfits : fitsSigned (n : Int) = true := by
    rw [fitsSigned_iff, minSigned, maxSigned]
    unfold maxWindowOffset at h
    omega
  rw [ofJson, if_pos hfits]

namespace Query

/-- The numbers of a window with a statement: none of them is cut off, and the last parameters are
the limit and the offset, unless that is 0. -/
theorem exists_operands_of_compilePage {q : Query} {w : Window} {statement : Sql.Statement}
    (h : q.compilePage w = .ok statement) :
    w.size + 1 ≤ maxWord ∧ w.offset + w.size ≤ maxWord ∧
      ∃ operands, statement.params = operands ++ Sql.limitParams (some (fetchLimit w)) ∧
        statement.params.map Parameter.ofJson = operands.map Parameter.ofJson ++
          .int8 (fetchLimit w).1 :: if w.offset = 0 then [] else [.int8 w.offset] := by
  obtain ⟨s, hpage, rfl⟩ := map_eq_ok_iff.1 h
  have hcheck := Window.check_eq_ok_iff.1 (check_of_buildPage hpage)
  obtain ⟨-, -, hpage⟩ := bind_eq_ok_iff.1 hpage
  obtain ⟨found, -, hbuild⟩ := bind_eq_ok_iff.1 hpage
  obtain ⟨table, selection, -, -, hparams⟩ := params_of_build hbuild
  obtain ⟨⟨-, hsize⟩, hoffset⟩ := hcheck
  unfold maxPageSize at hsize
  -- one row more than the largest page is far below the bound
  have hcount : (fetchLimit w).1 ≤ maxWindowOffset := by
    unfold fetchLimit maxWindowOffset
    split <;> dsimp only <;> omega
  have hwords : w.size + 1 ≤ maxWord ∧ w.offset + w.size ≤ maxWord := by
    unfold maxWindowOffset at hoffset
    unfold maxWord
    omega
  refine ⟨hwords.1, hwords.2, _, hparams, ?_⟩
  rw [hparams, List.map_append, Sql.limitParams, List.map_cons, Parameter.ofJson_of_le hcount,
    fetchLimit_snd]
  -- an offset of zero is not sent
  split
  · rfl
  · rw [List.map_singleton, Parameter.ofJson_of_le hoffset]

end Query

/-! ### Windows -/

/-- **The arithmetic of windows is exact** wherever a window is in range.

* The window next to another one on either side has the positions next to it, as many as are asked
  for, or else all up to the anchor.
* A sum that was cut off is no offset of a window in range.
* From the window next to a window in range, a step back in the old size leads to where it began.
* For a window with a statement nothing is cut off, and its limit and its offset are sent as
  integers of 64 bits with the values that they have. -/
theorem windows_exact :
    (∀ (w v : Window) (size : Nat), v.check = .ok () →
      (w.after size = some v → w.IsRightBehind size v) ∧
      (w.before size = some v → w.IsRightBefore size v)) ∧
    (∀ (anchor : Anchor) (a b size : Nat), maxWord < a + b →
      (⟨anchor, Window.saturatingAdd a b, size⟩ : Window).check ≠ .ok ()) ∧
    (∀ (w v : Window) (size : Nat), w.check = .ok () →
      (w.after size = some v → v.before w.size = some w) ∧
      (w.before size = some v → v.after w.size = some w)) ∧
    ∀ (q : Query) (w : Window) (statement : Sql.Statement), q.compilePage w = .ok statement →
      w.size + 1 ≤ maxWord ∧ w.offset + w.size ≤ maxWord ∧
        ∃ operands, statement.params = operands ++ Sql.limitParams (some (Query.fetchLimit w)) ∧
          statement.params.map Parameter.ofJson = operands.map Parameter.ofJson ++
            .int8 (Query.fetchLimit w).1 :: if w.offset = 0 then [] else [.int8 w.offset] := by
  refine ⟨fun w v size hv => ⟨fun h => ?_, fun h => ?_⟩, fun anchor a b size hsum hcheck => ?_,
    fun w v size hw => ⟨fun h => ?_, fun h => ?_⟩, fun q w statement h => ?_⟩
  · exact Window.isRightBehind_of_after h hv
  · exact Window.isRightBefore_of_before h hv
  · -- the sum is the offset next to a window with the two numbers
    have hle := Window.add_le_of_check_away (w := ⟨anchor, a, b⟩) hcheck
    dsimp only at hle
    unfold maxWord at hsum
    unfold maxWindowOffset at hle
    omega
  · exact Window.before_of_after hw h
  · exact Window.after_of_before hw h
  · exact Query.exists_operands_of_compilePage h

/-- Five rows lie before the sixth one. Ten are asked for, and the window holds those five; ten rows
on from there is the window where it began. The statement for that one fetches eleven rows and
leaves out five. -/
theorem windows_exact_cut_at_anchor :
    let q := Query.new ⟨[Table.named "t"]⟩ "t"
    let w := Window.front 5 10
    let v := Window.front 0 5
    (w.before 10 = some v ∧ v.check = .ok () ∧ w.check = .ok ()) ∧
      w.IsRightBefore 10 v ∧ v.after 10 = some w ∧
      (Window.front (Window.saturatingAdd maxWord 10) 10).check ≠ .ok () ∧
      ∃ statement, q.compilePage w = .ok statement ∧
        ∃ operands : List Value, statement.params.map Parameter.ofJson =
          operands.map Parameter.ofJson ++ [.int8 11, .int8 5] := by
  intro q w v
  have hv : v.check = .ok () := rfl
  have hw : w.check = .ok () := rfl
  have hbefore : w.before 10 = some v := rfl
  obtain ⟨statement, hstatement⟩ : ∃ statement, q.compilePage w = .ok statement :=
    fault?_eq_none_iff.1 (by decide +kernel)
  obtain ⟨hadjacent, hrefused, hback, hsent⟩ := windows_exact
  obtain ⟨-, -, operands, -, hbound⟩ := hsent q w statement hstatement
  exact ⟨⟨hbefore, hv, hw⟩, (hadjacent w v 10 hv).2 hbefore, (hback w v 10 hw).2 hbefore,
    hrefused .front maxWord 10 10 (by decide), statement, hstatement, operands, hbound⟩

end LinkQuery
