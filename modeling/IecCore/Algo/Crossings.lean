import IecCore.Algo.Processing
import IecCore.Lib.Positions
import Mathlib.Data.Int.Cast.Lemmas

/-! # The crossings that the periods are

The last loop of `algo::findMinMax` compares every point with the side of the first one: the sign
stays as it is when the signal crosses the midline. So every point on the other side is taken, up to
three of them, and the comments on the crossings are right of some signals only.

* **`deviation points j`**, **`side points`** — the selected channel about its midline, and the side
  of the first point.
* **`OtherSide`**, **`SameSide`** — the points strictly on one side, by their index.
* **`crossingLoop_eq`**, **`periods_eq`** — the periods are the first three points on the other side.
* **`ThreeCrossings`** — a crossing, the opposite one, and the second one of the first kind.
* **`report_iff`** — the report is reached when three points are on the other side.
* **`findsCrossings_iff`** — when the periods are such crossings; **`crossesOnce_reported`** is a
  signal that crosses once, and is reported. -/

namespace IecCore

namespace Algo

variable {points : List Point}

/-! ## The signal -/

/-- The deviation of a point from the midline, in the selected channel; zero where there is no
point. -/
def deviation (points : List Point) (j : Nat) : ℚ :=
  let e := extremes points
  let selected := (select e).selected
  (points[j]?).elim 0 fun point => (point.values selected : ℚ) - e.adcMid selected

/-- The side of the first point: -1 below the midline, and 1 on it or above. -/
def side (points : List Point) : ℤ := if deviation points 0 < 0 then -1 else 1

/-- A point strictly on the **other side** of the midline than the first one. -/
def OtherSide (points : List Point) (j : Nat) : Prop := side points * deviation points j < 0

/-- A point strictly on the **same side** as the side of the first one. -/
def SameSide (points : List Point) (j : Nat) : Prop := 0 < side points * deviation points j

/-- A point that is not on the midline is on one of its sides: `OtherSide points j ∨ SameSide points
j`. -/
theorem sides_of_deviation_ne {j : Nat} (hj : deviation points j ≠ 0) :
    OtherSide points j ∨ SameSide points j := by
  have hside : side points ≠ 0 := by
    rw [side]
    split
    · decide
    · decide
  exact lt_or_gt_of_ne (mul_ne_zero (Int.cast_ne_zero.mpr hside) hj)

/-- A point on the other side is not on the same side, since its product has one sign. -/
theorem OtherSide.not_sameSide {j : Nat} (hj : OtherSide points j) : ¬SameSide points j :=
  not_lt_of_gt hj

/-- A point on the other side is not on the midline: `deviation points j ≠ 0`. -/
theorem OtherSide.deviation_ne {j : Nat} (hj : OtherSide points j) : deviation points j ≠ 0 := by
  intro hzero
  rw [OtherSide, hzero, mul_zero] at hj
  exact lt_irrefl 0 hj

/-- A point on the same side is not on the midline: `deviation points j ≠ 0`. -/
theorem SameSide.deviation_ne {j : Nat} (hj : SameSide points j) : deviation points j ≠ 0 := by
  intro hzero
  rw [SameSide, hzero, mul_zero] at hj
  exact lt_irrefl 0 hj

/-- Past the end there is no deviation, so that only points of the batch are on a side. -/
theorem deviation_of_length_le {j : Nat} (hj : points.length ≤ j) : deviation points j = 0 := by
  rw [deviation, List.getElem?_eq_none hj]
  rfl

/-! ## The loop -/

/-- The condition of the loop for one point, `position * sign < 0`. -/
def crosses (selected : Channel) (mid : ℚ) (sign : ℤ) (point : Point) : Bool :=
  decide (((point.values selected : ℚ) - mid) * sign < 0)

/-- **The loop** takes the points that meet its condition, until it has three. -/
theorem crossingLoop_eq (selected : Channel) (mid : ℚ) (sign : ℤ) (rest : List Point)
    (index : Nat) (found : List Nat) (hfound : found.length < 3) :
    crossingLoop selected mid sign rest index found
      = (found ++ positions (crosses selected mid sign) rest index).take 3 := by
  refine loop_eq_take_positions (fun _ _ => rfl) (fun point l index found => ?_) rest index found
    hfound
  rw [crossingLoop]
  exact if_congr decide_eq_true_iff.symm rfl rfl

/-- The points behind the first one that are on the other side, by their indexes. -/
def otherSides (points : List Point) : List Nat :=
  positions (crosses (select (extremes points)).selected
    ((extremes points).adcMid (select (extremes points)).selected) (side points)) points.tail 1

/-- The loop starts with the side of the first point: `firstSign` is `side points`. -/
theorem firstSign_eq (hpoints : points ≠ []) :
    firstSign (points.head hpoints) (select (extremes points)).selected
      ((extremes points).adcMid (select (extremes points)).selected) = side points := by
  obtain ⟨point, rest, rfl⟩ := List.exists_cons_of_ne_nil hpoints
  rfl

/-- **The periods** are the first three points on the other side, or all of them when there are
less. -/
theorem periods_eq (hpoints : points ≠ []) :
    periods points hpoints = (otherSides points).take 3 := by
  rw [periods, firstSign_eq, crossingLoop_eq _ _ _ _ _ _ (by decide), List.nil_append, otherSides]

/-- The other side, in the terms of the loop: the points behind the first one that meet its
condition. -/
theorem mem_otherSides {j : Nat} : j ∈ otherSides points ↔ 0 < j ∧ OtherSide points j := by
  rw [otherSides, mem_positions]
  constructor
  · rintro ⟨hj, point, hget, hcrosses⟩
    rw [List.getElem?_tail, Nat.sub_add_cancel hj] at hget
    refine ⟨hj, ?_⟩
    rw [OtherSide, deviation, hget, mul_comm]
    exact of_decide_eq_true hcrosses
  · rintro ⟨hj, hother⟩
    -- past the end there is no deviation, so that the index is one of the points
    have hlength : j < points.length := by
      by_contra hend
      exact hother.deviation_ne (deviation_of_length_le (not_lt.mp hend))
    have hget : points[j]? = some points[j] := List.getElem?_eq_getElem hlength
    rw [OtherSide, deviation, hget, mul_comm] at hother
    rw [List.getElem?_tail, Nat.sub_add_cancel hj]
    exact ⟨hj, points[j], hget, decide_eq_true hother⟩

/-- The points on the other side are listed by growing indexes, so that the last one is the
greatest. -/
theorem pairwise_otherSides (points : List Point) : (otherSides points).Pairwise (· < ·) :=
  pairwise_positions _ _

/-- Every period is a point on the other side, and not the first point. -/
theorem otherSide_of_mem_periods (hpoints : points ≠ []) {j : Nat}
    (hj : j ∈ periods points hpoints) : 0 < j ∧ OtherSide points j := by
  rw [periods_eq] at hj
  exact mem_otherSides.mp (List.mem_of_mem_take hj)

/-! ## The report -/

/-- **The report is reached** when the three slots are set, none of which is `u64max` then. -/
theorem report_iff_length (count : Nat) (hpoints : points ≠ []) :
    (findMinMax count points hpoints).1.isSome ↔ 3 ≤ (periods points hpoints).length := by
  have hslot (k : Nat) : (periods points hpoints)[k]? = none
      ↔ (periods points hpoints).length ≤ k := List.getElem?_eq_none_iff
  simp only [findMinMax, hslot]
  split_ifs with hfirst hsecond hthird
  · exact iff_of_false Bool.false_ne_true (by omega)
  · exact iff_of_false Bool.false_ne_true (by omega)
  · exact iff_of_false Bool.false_ne_true (by omega)
  · -- all slots are set
    exact iff_of_true rfl (by omega)

/-- **The report is reached** when three points are on the other side, wherever the signal is
between them. -/
theorem report_iff (count : Nat) (hpoints : points ≠ []) :
    (findMinMax count points hpoints).1.isSome ↔ ∃ a b c, 0 < a ∧ a < b ∧ b < c ∧
      OtherSide points a ∧ OtherSide points b ∧ OtherSide points c := by
  -- the loop stops at the third point, so that there are three when there are three at all
  have hthree : 3 ≤ ((otherSides points).take 3).length ↔ 3 ≤ (otherSides points).length := by
    rw [List.length_take]
    omega
  rw [report_iff_length, periods_eq, hthree, three_le_length_iff (pairwise_otherSides points)]
  constructor
  · rintro ⟨a, b, c, hab, hbc, ha, hb, hc⟩
    obtain ⟨hpos, ha⟩ := mem_otherSides.mp ha
    exact ⟨a, b, c, hpos, hab, hbc, ha, (mem_otherSides.mp hb).2, (mem_otherSides.mp hc).2⟩
  · rintro ⟨a, b, c, hpos, hab, hbc, ha, hb, hc⟩
    have hb' := mem_otherSides.mpr ⟨hpos.trans hab, hb⟩
    have hc' := mem_otherSides.mpr ⟨(hpos.trans hab).trans hbc, hc⟩
    exact ⟨a, b, c, hab, hbc, mem_otherSides.mpr ⟨hpos, ha⟩, hb', hc'⟩

/-! ## The crossings -/

/-- A **crossing** of the midline, the **opposite** one, and the **second** one of the first
kind. -/
structure ThreeCrossings (points : List Point) (p0 p1 p2 : Nat) : Prop where
  /-- The first point behind the start that is on the other side. -/
  crossing : FirstAfter (OtherSide points) 0 p0
  /-- The next point on the side of the start. -/
  opposite : FirstAfter (SameSide points) p0 p1
  /-- The next point on the other side again. -/
  second : FirstAfter (OtherSide points) p1 p2

/-- The loop **finds the crossings**: the report is reached when the signal has three, and then they
are the periods. -/
structure FindsCrossings (count : Nat) (points : List Point) (hpoints : points ≠ []) : Prop where
  /-- The report: it is printed when there are three crossings, and only then. -/
  report : (findMinMax count points hpoints).1.isSome ↔ ∃ p0 p1 p2, ThreeCrossings points p0 p1 p2
  /-- The periods: the three slots hold the indexes of the crossings. -/
  exact : ∀ p0 p1 p2, ThreeCrossings points p0 p1 p2 → periods points hpoints = [p0, p1, p2]

/-- A signal that comes back to its side between two points on the other one has the three
crossings. -/
theorem ThreeCrossings.exists_of_sameSide {a b c : Nat} (hpos : 0 < a) (hab : a < b) (hbc : b < c)
    (ha : OtherSide points a) (hb : SameSide points b) (hc : OtherSide points c) :
    ∃ p0 p1 p2, ThreeCrossings points p0 p1 p2 := by
  obtain ⟨p0, hp0, hle0⟩ := FirstAfter.exists_le hpos ha
  obtain ⟨p1, hp1, hle1⟩ := FirstAfter.exists_le (hle0.trans_lt hab) hb
  obtain ⟨p2, hp2, -⟩ := FirstAfter.exists_le (hle1.trans_lt hbc) hc
  exact ⟨p0, p1, p2, hp0, hp1, hp2⟩

/-- The opposite crossing is not among the periods, so that these are other points. -/
theorem ThreeCrossings.periods_ne {p0 p1 p2 : Nat} (hcrossings : ThreeCrossings points p0 p1 p2)
    (hpoints : points ≠ []) : periods points hpoints ≠ [p0, p1, p2] := by
  intro hperiods
  have hmem : p1 ∈ periods points hpoints := by
    rw [hperiods]
    exact List.mem_cons_of_mem p0 List.mem_cons_self
  exact (otherSide_of_mem_periods hpoints hmem).2.not_sameSide hcrossings.opposite.holds

/-- **The crossings are found** only when there is nothing to find: between two points on the other
side, the signal stays on the midline. -/
theorem findsCrossings_iff (count : Nat) (hpoints : points ≠ []) :
    FindsCrossings count points hpoints ↔ ∀ a b c, 0 < a → a < b → b < c →
      OtherSide points a → OtherSide points c → deviation points b = 0 := by
  constructor
  · rintro ⟨hreport, hexact⟩ a b c hpos hab hbc ha hc
    by_contra hb
    -- on either side, the point between them gives crossings
    obtain ⟨p0, p1, p2, hcrossings⟩ : ∃ p0 p1 p2, ThreeCrossings points p0 p1 p2 := by
      rcases sides_of_deviation_ne hb with hother | hsame
      · exact hreport.mp ((report_iff count hpoints).mpr ⟨a, b, c, hpos, hab, hbc, ha, hother, hc⟩)
      · exact ThreeCrossings.exists_of_sameSide hpos hab hbc ha hsame hc
    exact hcrossings.periods_ne hpoints (hexact p0 p1 p2 hcrossings)
  · intro hmidline
    -- neither a report nor crossings
    have hnone : ¬∃ p0 p1 p2, ThreeCrossings points p0 p1 p2 := by
      rintro ⟨p0, p1, p2, hp0, hp1, hp2⟩
      exact hp1.holds.deviation_ne
        (hmidline p0 p1 p2 hp0.after hp1.after hp2.after hp0.holds hp2.holds)
    constructor
    · rw [report_iff]
      refine iff_of_false ?_ hnone
      rintro ⟨a, b, c, hpos, hab, hbc, ha, hb, hc⟩
      exact hb.deviation_ne (hmidline a b c hpos hab hbc ha hc)
    · intro p0 p1 p2 hcrossings
      exact absurd ⟨p0, p1, p2, hcrossings⟩ hnone

theorem one_isF32 : -f32max ≤ 1 ∧ 1 ≤ f32max := by decide +kernel

/-- A point with the value 1 in every channel. -/
def positivePoint : Point where
  values _ := ⟨1, one_isF32⟩

/-- A signal that crosses its midline once, and stays there for three points. -/
def crossesOnce : List Point := [positivePoint, negativePoint, negativePoint, negativePoint]

theorem crossesOnce_ne_nil : crossesOnce ≠ [] := List.cons_ne_nil _ _

theorem findsCrossings_iff_crossesOnce :
    FindsCrossings 1 crossesOnce crossesOnce_ne_nil ↔ ∀ a b c, 0 < a → a < b → b < c →
      OtherSide crossesOnce a → OtherSide crossesOnce c → deviation crossesOnce b = 0 :=
  findsCrossings_iff 1 crossesOnce_ne_nil

/-- **One crossing** is reported as three: the periods are the points that stay on the other
side. -/
theorem crossesOnce_reported :
    (findMinMax 1 crossesOnce crossesOnce_ne_nil).1.isSome ∧
      periods crossesOnce crossesOnce_ne_nil = [1, 2, 3] ∧
      (¬∃ p0 p1 p2, ThreeCrossings crossesOnce p0 p1 p2) ∧
      ¬FindsCrossings 1 crossesOnce crossesOnce_ne_nil := by
  have hreport : (findMinMax 1 crossesOnce crossesOnce_ne_nil).1.isSome := by decide +kernel
  -- no point behind the first one is on its side
  have hother : ∀ j < 4, 0 < j → OtherSide crossesOnce j := by
    unfold OtherSide
    decide +kernel
  have hnone : ¬∃ p0 p1 p2, ThreeCrossings crossesOnce p0 p1 p2 := by
    rintro ⟨p0, p1, p2, hp0, hp1, -⟩
    have hpos : 0 < p1 := hp0.after.trans hp1.after
    by_cases hend : p1 < 4
    · exact (hother p1 hend hpos).not_sameSide hp1.holds
    · exact hp1.holds.deviation_ne (deviation_of_length_le (not_lt.mp hend))
  exact ⟨hreport, by decide +kernel, hnone, fun hfinds => hnone (hfinds.report.mp hreport)⟩

end Algo

end IecCore
