import IecCore.Algo.SinglePrecision
import IecCore.Lib.Overflow

/-! # Processing of the points in `f32`

`algo::findMinMax` as it runs: every operation is rounded to `binary32`, and a result beyond `f32max`
is an infinity. The extremes are values of the points and stay finite; a range, a sum of extremes, a
midline and a deviation may be infinite.

* **`findMinMax`** — the function, with **`diff`**, **`adcMid`**, **`select`**, **`position`** and
  **`crossingLoop`** for its statements.
* **`AcrossAt points j`** — the point `j` is across the midline from the first one.
* **`report_iff_across`** — when the report is reached, for all points with values of type `f32`,
  also when something overflows.
* **`findMinMax_eq_single`** — without overflow it is `Single.findMinMax`.
* **`findMinMax_eq`** — when it gives the report of exact arithmetic. -/

namespace IecCore

namespace Algo

namespace Binary32

open Iec Extended

/-! ## The function -/

/-- `maxArray[index] - minArray[index]`, which is infinite beyond `f32max`. -/
def diff (e : Extremes) (index : Channel) : Extended :=
  binary32.result f32max (e.maxArray index - e.minArray index)

/-- `(maxArray[index] + minArray[index]) / 2`, where the sum may be infinite, and stays so. -/
def adcMid (e : Extremes) (index : Channel) : Extended :=
  binary32.div f32max (binary32.result f32max (e.maxArray index + e.minArray index)) 2

/-- The channel that is selected so far, with a range that may be infinite. -/
structure Selection where
  /-- The channel, the first one while no range exceeds the start. -/
  selected : Channel
  /-- Its range, or the start while no range exceeds it. -/
  magnitude : Extended

/-- The selection before the loop: the first channel, with a range of `f32min`. -/
def Selection.start : Selection where
  selected := ⟨0, unitsPerASDU_pos⟩
  magnitude := ofRat f32min

/-- The body of the loop over the channels: an infinite range is larger than every finite one. -/
def Selection.consider (e : Extremes) (s : Selection) (index : Channel) : Selection :=
  if diff e index > s.magnitude then { selected := index, magnitude := diff e index } else s

/-- Select the channel with the largest range, in the order of the channels. -/
def select (e : Extremes) : Selection :=
  (List.finRange unitsPerASDU).foldl (Selection.consider e) .start

/-- `points[index].values[selected] - adcMid[selected]`, infinite when the midline is. -/
def position (point : Point) (selected : Channel) (mid : Extended) : Extended :=
  binary32.sub f32max (point.values selected) mid

/-- The sign of the signal in the first point: negative below the midline. -/
def firstSign (first : Point) (selected : Channel) (mid : Extended) : ℤ :=
  if position first selected mid < ofRat 0 then -1 else 1

/-- The loop over the points that are left, up to the third one that is taken. -/
def crossingLoop (selected : Channel) (mid : Extended) (sign : ℤ) :
    (rest : List Point) → (index : Nat) → (periods : List Nat) → List Nat
  | [], _, periods => periods
  | point :: rest, index, periods =>
      if binary32.mul f32max (position point selected mid) sign < ofRat 0 then
        let periods := periods ++ [index]
        -- the break
        if periods.length = 3 then periods
        else crossingLoop selected mid sign rest (index + 1) periods
      else
        crossingLoop selected mid sign rest (index + 1) periods

/-- The periods: the indexes of the points that are taken for crossings, at most three. -/
def periods (points : List Point) (hpoints : points ≠ []) : List Nat :=
  let e := extremes points
  let selected := (select e).selected
  let mid := adcMid e selected
  crossingLoop selected mid (firstSign (points.head hpoints) selected mid) points.tail 1 []

/-- What is printed. The extremes are values of the points, the magnitude may be infinite. -/
structure Report where
  /-- The number of the report, the static counter `count`. -/
  step : Nat
  /-- The number of points, all of those that are processed. -/
  numPoints : Nat
  /-- The minimal values. -/
  mins : Channel → ℚ
  /-- The maximal values. -/
  maxs : Channel → ℚ
  /-- The range of the selected channel, which may be an infinity. -/
  magnitude : Extended

/-- **`findMinMax`** in `f32`, for points that are not empty: the report, and the next value of its
counter. A slot that is not set ends the function. -/
def findMinMax (count : Nat) (points : List Point) (hpoints : points ≠ []) :
    Option Report × Nat :=
  let e := extremes points
  let periods := periods points hpoints
  -- no first crossing
  if periods[0]? = none then (none, count)
  -- no opposite crossing
  else if periods[1]? = none then (none, count)
  -- no second crossing of the first kind
  else if periods[2]? = none then (none, count)
  else
    (some { step := count, numPoints := points.length, mins := e.minArray, maxs := e.maxArray,
            magnitude := (select e).magnitude }, count + 1)

variable {points : List Point}

/-! ## The midline and the deviations -/

theorem f32max_nonneg : 0 ≤ f32max := by norm_num [f32max]

/-- A midline that is not infinite is a number of type `f32`, as the result of a rounding. -/
theorem representable_of_adcMid_eq {e : Extremes} {i : Channel} {r : ℚ}
    (h : adcMid e i = ofRat r) : binary32.Representable r :=
  Format.representable_of_div_eq h

/-- **The sign of a deviation**: `position point selected mid < 0` when the value is below the
midline, which may be infinite. -/
theorem position_neg_iff {point : Point} (hpoint : point.IsSingle) (selected : Channel)
    {mid : Extended} (hmid : ∀ r, mid = ofRat r → binary32.Representable r) :
    position point selected mid < ofRat 0 ↔ ofRat (point.values selected) < mid :=
  Format.sub_neg_iff f32max_nonneg (hpoint selected) hmid

/-- `0 < position point selected mid` when the value is above the midline, which may be infinite. -/
theorem position_pos_iff {point : Point} (hpoint : point.IsSingle) (selected : Channel)
    {mid : Extended} (hmid : ∀ r, mid = ofRat r → binary32.Representable r) :
    ofRat 0 < position point selected mid ↔ mid < ofRat (point.values selected) :=
  Format.sub_pos_iff f32max_nonneg (hpoint selected) hmid

/-- A value is **across** a midline from another one, which belongs to the upper side when it is on
the midline. -/
def Across (mid : Extended) (first value : ℚ) : Prop :=
  (ofRat first < mid ∧ mid < ofRat value) ∨ (mid ≤ ofRat first ∧ ofRat value < mid)

/-- The condition of the loop for one point, `position * sign < 0`. -/
def crosses (selected : Channel) (mid : Extended) (sign : ℤ) (point : Point) : Bool :=
  decide (binary32.mul f32max (position point selected mid) sign < ofRat 0)

/-- **The condition of the loop** is that the value is across the midline from the first one:
neither the roundings nor an overflow of the deviation moves a point to another side. -/
theorem crosses_iff {first point : Point} (hfirst : first.IsSingle) (hpoint : point.IsSingle)
    (selected : Channel) {mid : Extended} (hmid : ∀ r, mid = ofRat r → binary32.Representable r) :
    crosses selected mid (firstSign first selected mid) point = true
      ↔ Across mid (first.values selected) (point.values selected) := by
  have hposition : ∀ r, position point selected mid = ofRat r → binary32.Representable r :=
    fun r hr => Format.representable_of_sub_eq hr
  rw [crosses, decide_eq_true_iff, firstSign, Across]
  -- the first point is below the midline, or on it or above
  by_cases hbelow : position first selected mid < ofRat 0
  · rw [if_pos hbelow, Int.cast_neg, Int.cast_one,
      Format.mul_neg_one_neg_iff f32max_nonneg hposition, position_pos_iff hpoint selected hmid]
    rw [position_neg_iff hfirst selected hmid] at hbelow
    exact ⟨fun h => .inl ⟨hbelow, h⟩, fun h => h.elim And.right fun h => absurd hbelow h.1.not_gt⟩
  · rw [if_neg hbelow, Int.cast_one, Format.mul_one_neg_iff f32max_nonneg hposition,
      position_neg_iff hpoint selected hmid]
    rw [position_neg_iff hfirst selected hmid, not_lt] at hbelow
    exact ⟨fun h => .inr ⟨hbelow, h⟩, fun h => h.elim (fun h => absurd h.1 hbelow.not_gt) And.right⟩

/-! ## The report -/

/-- **The report is reached** when the three slots are set: there are at least three crossings in
`periods`. -/
theorem report_iff_length (count : Nat) (hpoints : points ≠ []) :
    (findMinMax count points hpoints).1.isSome ↔ 3 ≤ (periods points hpoints).length := by
  have hslot (k : Nat) : (periods points hpoints)[k]? = none
      ↔ (periods points hpoints).length ≤ k := List.getElem?_eq_none_iff
  simp only [findMinMax, hslot]
  split_ifs with hfirst hsecond hthird
  · exact iff_of_false Bool.false_ne_true (by omega)
  · exact iff_of_false Bool.false_ne_true (by omega)
  · exact iff_of_false Bool.false_ne_true (by omega)
  · exact iff_of_true rfl (by omega)

/-- **The loop** takes the points that meet its condition, until it has three. -/
theorem crossingLoop_eq (selected : Channel) (mid : Extended) (sign : ℤ) (rest : List Point)
    (index : Nat) (found : List Nat) (hfound : found.length < 3) :
    crossingLoop selected mid sign rest index found
      = (found ++ positions (crosses selected mid sign) rest index).take 3 := by
  refine loop_eq_take_positions (fun _ _ => rfl) (fun point l index found => ?_) rest index found
    hfound
  rw [crossingLoop]
  exact if_congr decide_eq_true_iff.symm rfl rfl

/-- A point of the batch is across the midline from the first one, in the selected channel. -/
def AcrossAt (points : List Point) (j : Nat) : Prop :=
  let selected := (select (extremes points)).selected
  ∃ first point, points[0]? = some first ∧ points[j]? = some point ∧
    Across (adcMid (extremes points) selected) (first.values selected) (point.values selected)

/-- **The report** is reached when three later points are across the midline from the first one: the
values are compared with the midline as they are, although their deviations are rounded and may
overflow. -/
theorem report_iff_across (count : Nat) (hsingle : ∀ point ∈ points, point.IsSingle)
    (hpoints : points ≠ []) :
    (findMinMax count points hpoints).1.isSome ↔ ∃ a b c, 0 < a ∧ a < b ∧ b < c ∧
      AcrossAt points a ∧ AcrossAt points b ∧ AcrossAt points c := by
  rw [report_iff_length, periods, crossingLoop_eq _ _ _ _ _ _ (by decide), List.nil_append]
  obtain ⟨first, rest, rfl⟩ := List.exists_cons_of_ne_nil hpoints
  rw [List.head_cons, List.tail_cons]
  generalize hfound : positions (crosses _ _ _) rest 1 = found
  have hmid (r : ℚ) (hr : adcMid (extremes (first :: rest))
      (select (extremes (first :: rest))).selected = ofRat r) : binary32.Representable r :=
    representable_of_adcMid_eq hr
  have hiff (point : Point) (hpoint : point ∈ rest) :=
    crosses_iff (hsingle first List.mem_cons_self)
      (hsingle point (List.mem_cons_of_mem first hpoint))
      (select (extremes (first :: rest))).selected hmid
  -- the positions that the loop counts
  have hmem (j : Nat) : j ∈ found ↔ 0 < j ∧ AcrossAt (first :: rest) j := by
    rw [← hfound, mem_positions, AcrossAt]
    constructor
    · rintro ⟨hj, point, hget, hcrosses⟩
      refine ⟨hj, first, point, rfl, ?_, (hiff point (List.mem_of_getElem? hget)).mp hcrosses⟩
      rwa [List.getElem?_cons, if_neg (by omega)]
    · rintro ⟨hj, _, point, hfirst, hget, hacross⟩
      cases hfirst
      rw [List.getElem?_cons, if_neg (by omega)] at hget
      exact ⟨hj, point, hget, (hiff point (List.mem_of_getElem? hget)).mpr hacross⟩
  have hsorted : found.Pairwise (· < ·) := hfound ▸ pairwise_positions _ _
  have hthree : 3 ≤ (found.take 3).length ↔ 3 ≤ found.length := by
    rw [List.length_take]
    omega
  rw [hthree, three_le_length_iff hsorted]
  simp only [hmem]
  constructor
  · rintro ⟨a, b, c, hab, hbc, ⟨hpos, ha⟩, ⟨-, hb⟩, -, hc⟩
    exact ⟨a, b, c, hpos, hab, hbc, ha, hb, hc⟩
  · rintro ⟨a, b, c, hpos, hab, hbc, ha, hb, hc⟩
    exact ⟨a, b, c, hab, hbc, ⟨hpos, ha⟩, ⟨hpos.trans hab, hb⟩, (hpos.trans hab).trans hbc, hc⟩

/-- Nothing is across an infinite midline: all values are finite, and on the same side of it. -/
theorem not_across_of_infinite {mid : Extended} (hmid : mid = ⊥ ∨ mid = ⊤) (first value : ℚ) :
    ¬Across mid first value := by
  rintro (⟨hlow, hhigh⟩ | ⟨hhigh, hlow⟩)
  · obtain rfl | rfl := hmid
    · exact not_lt_bot hlow
    · exact not_top_lt hhigh
  · obtain rfl | rfl := hmid
    · exact not_lt_bot hlow
    · exact absurd (ofRat_lt_top first) hhigh.not_gt

/-- **Nothing is printed when the midline overflows**: if `adcMid` of the selected channel is an
infinity, no point is across it. -/
theorem not_report_of_infinite (count : Nat) (hsingle : ∀ point ∈ points, point.IsSingle)
    (hpoints : points ≠ []) (hmid : adcMid (extremes points) (select (extremes points)).selected = ⊥ ∨
      adcMid (extremes points) (select (extremes points)).selected = ⊤) :
    ¬(findMinMax count points hpoints).1.isSome := by
  rw [report_iff_across count hsingle hpoints]
  rintro ⟨a, -, -, -, -, -, ⟨first, point, -, -, hacross⟩, -, -⟩
  exact not_across_of_infinite hmid _ _ hacross

theorem crossesOnce_isSingle : ∀ point ∈ crossesOnce, point.IsSingle := by
  have hone : binary32.Representable ((1 : ℤ) : ℚ) :=
    Format.representable_intCast (by decide) (by decide)
  have hminusOne : binary32.Representable ((-1 : ℤ) : ℚ) :=
    Format.representable_intCast (by decide) (by decide)
  intro point hpoint i
  rw [crossesOnce] at hpoint
  simp only [List.mem_cons, List.not_mem_nil, or_false, or_self] at hpoint
  obtain rfl | rfl := hpoint
  · exact hone
  · exact hminusOne

theorem report_iff_across_crossesOnce :
    (findMinMax 1 crossesOnce crossesOnce_ne_nil).1.isSome ↔ ∃ a b c, 0 < a ∧ a < b ∧ b < c ∧
      AcrossAt crossesOnce a ∧ AcrossAt crossesOnce b ∧ AcrossAt crossesOnce c :=
  report_iff_across 1 crossesOnce_isSingle crossesOnce_ne_nil

/-! ## An alternating signal -/

/-- Points **alternate** between the values `v i` and `-v i` of every channel `i`. -/
def Alternates (points : List Point) (v : Channel → ℚ) : Prop :=
  ∀ (j : Nat) (point : Point), points[j]? = some point →
    ∀ i, (point.values i : ℚ) = if Even j then v i else -v i

/-- The extremes of points that alternate are `v i` and `-v i`, and `adcMid (extremes points) i` is
zero: both values occur, and `v i` is not below the start `f32min` of the maximal values. -/
theorem Alternates.adcMid_eq {v : Channel → ℚ} (h : Alternates points v) (i : Channel)
    (hv : f32min ≤ v i) (hlength : 2 ≤ points.length) : adcMid (extremes points) i = ofRat 0 := by
  obtain ⟨first, second, rest, rfl⟩ : ∃ first second rest, points = first :: second :: rest := by
    match points, hlength with
    | first :: second :: rest, _ => exact ⟨first, second, rest, rfl⟩
  have hpos : 0 ≤ v i := le_trans (by norm_num [f32min]) hv
  have hfirst : first.values i = v i := h 0 first rfl i
  have hsecond : second.values i = -v i := h 1 second rfl i
  have hpoints : first :: second :: rest ≠ [] := List.cons_ne_nil _ _
  have hbound : ∀ x ∈ channel (first :: second :: rest) i, -v i ≤ x ∧ x ≤ v i := by
    intro x hx
    obtain ⟨point, hpoint, rfl⟩ := List.mem_map.mp hx
    obtain ⟨j, hj⟩ := List.mem_iff_getElem?.mp hpoint
    rw [h j point hj i]
    split_ifs
    · exact ⟨neg_le_self hpos, le_refl _⟩
    · exact ⟨le_refl _, neg_le_self hpos⟩
  -- the arrays hold the only least and the only greatest value
  have hleast : IsLeast {x | x ∈ channel (first :: second :: rest) i} (-v i) :=
    ⟨hsecond ▸ List.mem_map_of_mem (f := fun point : Point => (point.values i : ℚ))
      (List.mem_cons_of_mem _ List.mem_cons_self), fun x hx => (hbound x hx).1⟩
  have hgreatest : IsGreatest {x | x ∈ channel (first :: second :: rest) i} (v i) :=
    ⟨hfirst ▸ List.mem_map_of_mem (f := fun point : Point => (point.values i : ℚ))
      List.mem_cons_self, fun x hx => (hbound x hx).2⟩
  have hmin := (isLeast_minArray hpoints i).unique hleast
  have hmax := ((isGreatest_maxArray_iff hpoints i).mpr
    ⟨first, List.mem_cons_self, hfirst ▸ hv⟩).unique hgreatest
  have hzero : binary32.result f32max 0 = ofRat 0 := by
    rw [Format.result_of_abs_le, Format.round_zero]
    rw [Format.round_zero, abs_zero]
    exact f32max_nonneg
  rw [adcMid, hmin, hmax, add_neg_cancel, hzero, Format.div, elim_ofRat, zero_div, hzero]

/-- **An alternating signal is reported**: the points 1, 3 and 5 are across the midline, which is
zero, in every channel that may be selected. -/
theorem Alternates.report {v : Channel → ℚ} (h : Alternates points v) (hv : ∀ i, f32min ≤ v i)
    (hlength : 6 ≤ points.length) (count : Nat) (hsingle : ∀ point ∈ points, point.IsSingle)
    (hpoints : points ≠ []) : (findMinMax count points hpoints).1.isSome := by
  have hacross (j : Nat) (hj : j < points.length) (hodd : ¬Even j) : AcrossAt points j := by
    rw [AcrossAt, h.adcMid_eq _ (hv _) (by omega)]
    set i := (select (extremes points)).selected
    have hpos : 0 < v i := lt_of_lt_of_le (by norm_num [f32min]) (hv i)
    have hget (k : Nat) (hk : k < points.length) : points[k]? = some points[k] :=
      List.getElem?_eq_getElem hk
    refine ⟨points[0], points[j], hget 0 (by omega), hget j hj, .inr ⟨?_, ?_⟩⟩
    · rw [h 0 _ (hget 0 (by omega)) i, if_pos Even.zero]
      exact not_lt.mp (mt ofRat_lt_ofRat.mp hpos.not_gt)
    · rw [h j _ (hget j hj) i, if_neg hodd]
      exact ofRat_lt_ofRat.mpr (neg_lt_zero.mpr hpos)
  -- the second, the fourth and the sixth point are across the midline, which is zero
  exact (report_iff_across count hsingle hpoints).mpr ⟨1, 3, 5, by decide, by decide, by decide,
    hacross 1 (by omega) (by decide), hacross 3 (by omega) (by decide),
    hacross 5 (by omega) (by decide)⟩

theorem largePoint_isF32 : -f32max ≤ 3 * 2 ^ 126 ∧ 3 * 2 ^ 126 ≤ f32max := by decide +kernel

theorem f32max_isF32 : -f32max ≤ f32max ∧ f32max ≤ f32max := by decide +kernel

/-- Points whose sum of extremes is beyond `f32max`: the midline is `⊤`, although the difference of
the extremes is finite. -/
def overflowing : List Point :=
  { values := fun _ => ⟨f32max, f32max_isF32⟩ } ::
    List.replicate 3 { values := fun _ => ⟨3 * 2 ^ 126, largePoint_isF32⟩ }

-- nothing is printed, where the function without overflow has three crossings
example : adcMid (extremes overflowing) ⟨0, unitsPerASDU_pos⟩ = ⊤ ∧
    periods overflowing (List.cons_ne_nil _ _) = [] ∧
    Single.periods overflowing (List.cons_ne_nil _ _) = [1, 2, 3] := by
  decide +kernel

/-! ## Without overflow -/

/-- A report whose magnitude is a number, not an infinity: `report` of `Single`, with `ofRat` of its
magnitude. -/
def Report.ofSingle (report : Algo.Report) : Report where
  step := report.step
  numPoints := report.numPoints
  mins := report.mins
  maxs := report.maxs
  magnitude := ofRat report.magnitude

section InRange

variable (hrange : Single.InRange points)

include hrange

/-- The ranges are the rounded ones, when nothing overflows: `diff` is `ofRat` of `Single.diff`. -/
theorem diff_eq_single (i : Channel) :
    diff (extremes points) i = ofRat (Single.diff (extremes points) i) :=
  Format.result_of_abs_le (hrange.diff i)

/-- The midlines are the rounded ones: neither the sum nor its half overflows. -/
theorem adcMid_eq_single (i : Channel) :
    adcMid (extremes points) i = ofRat (Single.adcMid (extremes points) i) := by
  rw [adcMid, Format.result_of_abs_le (hrange.sum i)]
  exact Format.result_of_abs_le (hrange.adcMid i)

/-- The selection is the one by rounded ranges: the same channel, and `ofRat` of the same
magnitude. -/
theorem select_eq_single :
    select (extremes points) = { selected := (Single.select (extremes points)).selected
                                 magnitude := ofRat (Single.select (extremes points)).magnitude } := by
  -- the two loops over the channels run side by side, by induction on those that are left
  have hfold (l : List Channel) (s : Algo.Selection) :
      l.foldl (Selection.consider (extremes points)) ⟨s.selected, ofRat s.magnitude⟩
        = ⟨(l.foldl (Single.consider (extremes points)) s).selected,
            ofRat (l.foldl (Single.consider (extremes points)) s).magnitude⟩ := by
    induction l generalizing s with
    | nil => rfl
    | cons i l ih =>
        rw [List.foldl_cons, List.foldl_cons, ← ih, Selection.consider, Single.consider,
          diff_eq_single hrange]
        congr 1
        by_cases hlarger : Single.diff (extremes points) i > s.magnitude
        · rw [if_pos (ofRat_lt_ofRat.mpr hlarger), if_pos hlarger]
        · rw [if_neg (mt ofRat_lt_ofRat.mp hlarger), if_neg hlarger]
  exact hfold (List.finRange unitsPerASDU) .start

/-- The deviations from a midline are the rounded ones: `position` is `ofRat` of `Single.position`,
for every point of the list. -/
theorem position_eq_single {point : Point} (hpoint : point ∈ points) (i : Channel) :
    position point i (ofRat (Single.adcMid (extremes points) i))
      = ofRat (Single.position point i (Single.adcMid (extremes points) i)) :=
  Format.result_of_abs_le (hrange.position point hpoint i)

/-- The sign of the first point is the one of the rounded function. -/
theorem firstSign_eq_single {first : Point} (hfirst : first ∈ points) (i : Channel) :
    firstSign first i (ofRat (Single.adcMid (extremes points) i))
      = Single.firstSign first i (Single.adcMid (extremes points) i) := by
  rw [firstSign, Single.firstSign, position_eq_single hrange hfirst]
  exact if_congr ofRat_lt_ofRat rfl rfl

/-- The loop over the points is the one of the rounded function. -/
theorem crossingLoop_eq_single (i : Channel) (sign : ℤ) {rest : List Point}
    (hrest : ∀ point ∈ rest, point ∈ points) (index : Nat) (found : List Nat) :
    crossingLoop i (ofRat (Single.adcMid (extremes points) i)) sign rest index found
      = Single.crossingLoop i (Single.adcMid (extremes points) i) sign rest index found := by
  induction rest generalizing index found with
  | nil => rfl
  | cons point rest ih =>
      obtain ⟨hpoint, hrest⟩ := List.forall_mem_cons.mp hrest
      rw [crossingLoop, Single.crossingLoop, position_eq_single hrange hpoint]
      simp only [ih hrest]
      exact if_congr (Format.result_neg_iff f32max_nonneg) rfl rfl

/-- The periods are those of the rounded function: `periods points = Single.periods points`. -/
theorem periods_eq_single (hpoints : points ≠ []) :
    periods points hpoints = Single.periods points hpoints := by
  rw [periods, Single.periods]
  simp only [select_eq_single hrange, adcMid_eq_single hrange,
    firstSign_eq_single hrange (List.head_mem hpoints)]
  exact crossingLoop_eq_single hrange _ _ (fun point => List.mem_of_mem_tail) 1 []

/-- **Without overflow** the function is `Single.findMinMax`, and the magnitude it prints is
finite. -/
theorem findMinMax_eq_single (count : Nat) (hpoints : points ≠ []) :
    findMinMax count points hpoints
      = ((Single.findMinMax count points hpoints).1.map .ofSingle,
          (Single.findMinMax count points hpoints).2) := by
  simp only [findMinMax, Single.findMinMax, periods_eq_single hrange, select_eq_single hrange]
  split_ifs with hfirst hsecond hthird
  · rfl
  · rfl
  · rfl
  · rfl

end InRange

/-- A report of exact arithmetic, with its magnitude rounded to the format, as it is printed. -/
def Report.ofExact (report : Algo.Report) : Report := .ofSingle (Single.rounded report)

/-- **The report of exact arithmetic**, with its magnitude rounded, is printed when nothing
overflows, a channel is ahead and its values are clear of the midline. -/
theorem findMinMax_eq (count : Nat) (hsingle : ∀ point ∈ points, point.IsSingle)
    (hpoints : points ≠ []) (hrange : Single.InRange points) {k : Channel}
    (hahead : Single.Ahead (extremes points) k) (hclear : Single.Clear points k) :
    findMinMax count points hpoints
      = ((Algo.findMinMax count points hpoints).1.map .ofExact,
          (Algo.findMinMax count points hpoints).2) := by
  rw [findMinMax_eq_single hrange, Single.findMinMax_eq_rounded count hsingle hpoints hahead hclear,
    Option.map_map]
  rfl

/-- The report of the square wave is that of exact arithmetic: all its hypotheses hold of these
points. -/
theorem findMinMax_eq_squareWave :
    findMinMax 1 Single.squareWave Single.squareWave_ne_nil
      = ((Algo.findMinMax 1 Single.squareWave Single.squareWave_ne_nil).1.map .ofExact,
          (Algo.findMinMax 1 Single.squareWave Single.squareWave_ne_nil).2) :=
  findMinMax_eq 1 Single.squareWave_isSingle Single.squareWave_ne_nil Single.squareWave_inRange
    Single.squareWave_ahead Single.squareWave_clear

end Binary32

end Algo

end IecCore
