import IecCore.Algo.Crossings
import IecCore.Lib.Rounding

/-! # Processing of the points in single precision

`algo::findMinMax` computes with `f32`: the difference and the sum of the extremes, the half of the
sum, the deviation of every point and its product with the sign are rounded. This file has the
function with its roundings, in a format whose exponents do not end, so that overflow is left out
here; `Binary32.findMinMax` is the function with both. The loop over the points, which only compares,
is the exact one.

* **`binary32`** — the format, and **`Point.IsSingle`** — the points with values of it.
* **`Single.select`**, **`Single.crossingLoop`**, **`Single.findMinMax`** — the rounded function,
  under the names of the exact one.
* **`Single.crossingLoop_eq`** — rounding does not move a point to another side: a difference of two
  numbers of the format keeps its sign.
* **`Single.Ahead`**, **`Single.Clear`** — margins beyond the rounding of the ranges and of the
  midline, by **`Single.diff_bounds`** and **`Single.abs_adcMid_sub_le`**.
* **`Single.findMinMax_eq_rounded`** — with these margins, the report is that of exact arithmetic.
* **`Single.InRange`**, **`Single.inRange_of_abs_le`** — nothing overflows, for instance while all
  values are at most `2 ^ 125`. -/

namespace IecCore

namespace Algo

open Iec

theorem digits_pos : 0 < 24 := by decide

/-- The format of **`f32`**, without its largest exponent: a result beyond `f32max` stays finite in
it. -/
def binary32 : Format where
  precision := 24
  minExp := -149
  precision_pos := digits_pos

/-- The values of a point are numbers of type `f32`, `binary32.Representable` in every channel. -/
def Point.IsSingle (point : Point) : Prop := ∀ i, binary32.Representable (point.values i)

namespace Single

/-! ## The function -/

/-- `maxArray[index] - minArray[index]`, rounded to the format as the source's float is. -/
def diff (e : Extremes) (index : Channel) : ℚ :=
  binary32.round (e.maxArray index - e.minArray index)

/-- `(maxArray[index] + minArray[index]) / 2`: the sum is rounded, and its half again. -/
def adcMid (e : Extremes) (index : Channel) : ℚ :=
  binary32.round (binary32.round (e.maxArray index + e.minArray index) / 2)

/-- The body of the loop over the channels, with rounded ranges. -/
def consider (e : Extremes) (s : Selection) (index : Channel) : Selection :=
  if diff e index > s.magnitude then { selected := index, magnitude := diff e index } else s

/-- Select the channel with the largest range, of the rounded ones. -/
def select (e : Extremes) : Selection :=
  (List.finRange unitsPerASDU).foldl (consider e) .start

/-- `points[index].values[selected] - adcMid[selected]`, rounded. -/
def position (point : Point) (selected : Channel) (mid : ℚ) : ℚ :=
  binary32.round (point.values selected - mid)

/-- The sign of the signal in the first point: negative below the midline. -/
def firstSign (first : Point) (selected : Channel) (mid : ℚ) : ℤ :=
  if position first selected mid < 0 then -1 else 1

/-- The loop over the points that are left; the product with the sign is rounded too. -/
def crossingLoop (selected : Channel) (mid : ℚ) (sign : ℤ) :
    (rest : List Point) → (index : Nat) → (periods : List Nat) → List Nat
  | [], _, periods => periods
  | point :: rest, index, periods =>
      if binary32.round (position point selected mid * sign) < 0 then
        let periods := periods ++ [index]
        -- the break
        if periods.length = 3 then periods
        else crossingLoop selected mid sign rest (index + 1) periods
      else
        crossingLoop selected mid sign rest (index + 1) periods

/-- The periods: the indexes of the points that are taken for crossings, at most three. -/
def periods (points : List Point) (hpoints : points ≠ []) : List Nat :=
  let e := extremes points
  let selected := (select e).selected
  let mid := adcMid e selected
  crossingLoop selected mid (firstSign (points.head hpoints) selected mid) points.tail 1 []

/-- `findMinMax` with its roundings and without overflow, for points that are not empty. -/
def findMinMax (count : Nat) (points : List Point) (hpoints : points ≠ []) :
    Option Report × Nat :=
  let e := extremes points
  let periods := periods points hpoints
  -- no first crossing
  if periods[0]? = none then (none, count)
  -- no opposite crossing
  else if periods[1]? = none then (none, count)
  -- no second crossing of the first kind
  else if periods[2]? = none then (none, count)
  else
    (some { step := count, numPoints := points.length, mins := e.minArray, maxs := e.maxArray,
            magnitude := (select e).magnitude }, count + 1)

/-! ## The extremes -/

variable {points : List Point}

theorem f32max_representable : binary32.Representable f32max :=
  ⟨2 ^ 24 - 1, 104, by decide, by decide, by rw [f32max]; norm_cast⟩

theorem f32min_representable : binary32.Representable f32min := by
  have h := Format.representable_zpow (f := binary32) (e := -126) (by decide)
  rwa [zpow_neg, ← one_div] at h

/-- The extremes of numbers of type `f32` are such numbers: the loop over the points only
compares. -/
theorem representable_extremes (hsingle : ∀ point ∈ points, point.IsSingle) (i : Channel) :
    binary32.Representable ((extremes points).minArray i) ∧
      binary32.Representable ((extremes points).maxArray i) := by
  -- both starts are numbers of type `f32`, and every step keeps this
  have hscan (e : Extremes) (hmin : binary32.Representable (e.minArray i))
      (hmax : binary32.Representable (e.maxArray i)) :
      binary32.Representable ((points.foldl Extremes.scan e).minArray i) ∧
        binary32.Representable ((points.foldl Extremes.scan e).maxArray i) := by
    induction points generalizing e with
    | nil => exact ⟨hmin, hmax⟩
    | cons point points ih =>
        obtain ⟨hpoint, hrest⟩ := List.forall_mem_cons.mp hsingle
        refine ih hrest (e.scan point) ?_ ?_
        · exact min_rec' binary32.Representable hmin (hpoint i)
        · exact max_rec' binary32.Representable hmax (hpoint i)
  exact hscan .start f32max_representable f32min_representable

/-- No value is outside of the extremes: `minArray i ≤ point.values i ≤ maxArray i`. -/
theorem le_extremes {point : Point} (hpoint : point ∈ points) (i : Channel) :
    (extremes points).minArray i ≤ point.values i ∧
      (point.values i : ℚ) ≤ (extremes points).maxArray i := by
  have hmem : (point.values i : ℚ) ∈ channel points i := List.mem_map_of_mem hpoint
  have hne : channel points i ≠ [] := List.ne_nil_of_mem hmem
  rw [extremes, (foldl_scan points .start i).1, (foldl_scan points .start i).2,
    List.foldl_min_eq_min hne, List.foldl_max_eq_max hne]
  exact ⟨(min_le_right _ _).trans (List.min_le_of_mem hmem),
    (List.le_max_of_mem hmem).trans (le_max_right _ _)⟩

/-- The extremes of points that are not empty are in the right order, also when they are not
exact. -/
theorem minArray_le_maxArray (hpoints : points ≠ []) (i : Channel) :
    (extremes points).minArray i ≤ (extremes points).maxArray i := by
  obtain ⟨point, hpoint⟩ := List.exists_mem_of_ne_nil points hpoints
  exact (le_extremes hpoint i).1.trans (le_extremes hpoint i).2

/-! ## The midline -/

/-- The midline is a number of type `f32`, as the result of a rounding. -/
theorem representable_adcMid (e : Extremes) (i : Channel) : binary32.Representable (adcMid e i) :=
  Format.representable_round _

/-- **The error of the midline**: that of the sum, and the digit that the half may lose. -/
theorem abs_adcMid_sub_le (hsingle : ∀ point ∈ points, point.IsSingle) (i : Channel) :
    |adcMid (extremes points) i - (extremes points).adcMid i|
      ≤ |(extremes points).adcMid i| / 2 ^ 24 + 1 / 2 ^ 150 := by
  obtain ⟨hmin, hmax⟩ := representable_extremes hsingle i
  have hsum := Format.abs_round_add_sub_le hmax hmin
  -- a half is exact but for the least numbers, where it may lose a digit
  have hhalf := Format.abs_round_half_sub_le
    (Format.representable_round (f := binary32)
      ((extremes points).maxArray i + (extremes points).minArray i))
  have hleast : (2 : ℚ) ^ binary32.minExp / 2 = 1 / 2 ^ 150 := by norm_num [binary32]
  rw [hleast] at hhalf
  rw [adcMid, Extremes.adcMid]
  generalize (extremes points).maxArray i + (extremes points).minArray i = sum at hsum hhalf ⊢
  have hdetour := abs_sub_le (binary32.round (binary32.round sum / 2)) (binary32.round sum / 2)
    (sum / 2)
  rw [← sub_div, abs_div, abs_two] at hdetour
  rw [abs_div, abs_two]
  change _ ≤ |sum| / 2 ^ 24 at hsum
  linarith

/-! ## The loop -/

/-- The rounded deviation has the sign of the exact one: a difference of two numbers of type `f32`
rounds to zero only when they are equal. -/
theorem position_neg_iff {point : Point} (hpoint : point.IsSingle) (selected : Channel) {mid : ℚ}
    (hmid : binary32.Representable mid) :
    position point selected mid < 0 ↔ (point.values selected : ℚ) - mid < 0 := by
  rw [position, Format.round_sub_neg_iff (hpoint selected) hmid, sub_neg]

/-- The product of the deviation with the sign of the first point has the sign of the exact
product. -/
theorem position_mul_neg_iff {point : Point} (hpoint : point.IsSingle) (selected : Channel) {mid : ℚ}
    (hmid : binary32.Representable mid) {sign : ℤ} (hsign : sign = 1 ∨ sign = -1) :
    binary32.round (position point selected mid * sign) < 0
      ↔ ((point.values selected : ℚ) - mid) * sign < 0 := by
  have hround := Format.round_of_representable
    (Format.representable_round (f := binary32) (point.values selected - mid))
  rw [← position] at hround
  obtain rfl | rfl := hsign
  · rw [Int.cast_one, mul_one, mul_one, hround, position_neg_iff hpoint selected hmid]
  · rw [Int.cast_neg, Int.cast_one, mul_neg_one, mul_neg_one, Format.round_neg, hround, neg_lt_zero,
      neg_lt_zero, position, Format.round_sub_pos_iff (hpoint selected) hmid, sub_pos]

/-- The sign of the first point is the exact one, for the same midline. -/
theorem firstSign_eq {first : Point} (hfirst : first.IsSingle) (selected : Channel) {mid : ℚ}
    (hmid : binary32.Representable mid) :
    firstSign first selected mid = Algo.firstSign first selected mid := by
  rw [firstSign, Algo.firstSign]
  exact if_congr (position_neg_iff hfirst selected hmid) rfl rfl

/-- The sign of the first point is one of two, so that the product only turns the deviation
around. -/
theorem firstSign_cases (first : Point) (selected : Channel) (mid : ℚ) :
    Algo.firstSign first selected mid = 1 ∨ Algo.firstSign first selected mid = -1 := by
  rw [Algo.firstSign]
  split
  · exact .inr rfl
  · exact .inl rfl

/-- **The loop** does not notice its roundings: at the same midline it takes the same points. -/
theorem crossingLoop_eq (selected : Channel) {mid : ℚ} (hmid : binary32.Representable mid)
    {sign : ℤ} (hsign : sign = 1 ∨ sign = -1) {rest : List Point}
    (hrest : ∀ point ∈ rest, point.IsSingle) (index : Nat) (found : List Nat) :
    crossingLoop selected mid sign rest index found
      = Algo.crossingLoop selected mid sign rest index found := by
  induction rest generalizing index found with
  | nil => rfl
  | cons point rest ih =>
      obtain ⟨hpoint, hrest⟩ := List.forall_mem_cons.mp hrest
      have hiff := position_mul_neg_iff hpoint selected hmid hsign
      rw [crossingLoop, Algo.crossingLoop]
      simp only [ih hrest]
      exact if_congr hiff rfl rfl

/-- The periods are found by the exact loop, at the rounded midline of the channel that is selected
by rounded ranges. -/
theorem periods_eq (hsingle : ∀ point ∈ points, point.IsSingle) (hpoints : points ≠ []) :
    periods points hpoints
      = Algo.crossingLoop (select (extremes points)).selected
          (adcMid (extremes points) (select (extremes points)).selected)
          (Algo.firstSign (points.head hpoints) (select (extremes points)).selected
            (adcMid (extremes points) (select (extremes points)).selected))
          points.tail 1 [] := by
  have hmid := representable_adcMid (extremes points) (select (extremes points)).selected
  have htail : ∀ point ∈ points.tail, point.IsSingle :=
    fun point hpoint => hsingle point (List.mem_of_mem_tail hpoint)
  rw [periods, firstSign_eq (hsingle _ (List.head_mem hpoints)) _ hmid,
    crossingLoop_eq _ hmid (firstSign_cases _ _ _) htail]

/-! ## The exact function -/

/-- The selection is the exact one on the rounded ranges: `select e` is `Algo.select` of extremes
whose ranges are those of `diff`. -/
theorem select_eq (e : Extremes) :
    select e = Algo.select { minArray := fun _ => 0, maxArray := diff e } := by
  have hconsider (s : Selection) (i : Channel) : consider e s i
      = Selection.consider { minArray := fun _ => 0, maxArray := diff e } s i := by
    rw [consider, Selection.consider, Extremes.diff, sub_zero]
  rw [select, Algo.select, funext₂ hconsider]

/-- A channel whose range in the arrays exceeds the start and every other one is selected. -/
theorem algo_select_of_ahead {e : Extremes} {k : Channel} (hexceeds : f32min < e.diff k)
    (hahead : ∀ j, j ≠ k → e.diff j < e.diff k) :
    Algo.select e = { selected := k, magnitude := e.diff k } := by
  have h := (foldl_consider e (List.finRange unitsPerASDU) .start).trans
    (foldl_keepLarger_of_ahead hexceeds hahead)
  obtain ⟨hselected, hmagnitude⟩ := Prod.mk.inj h
  rw [← Algo.select] at hselected hmagnitude
  rw [← hmagnitude, ← hselected]

/-- A channel whose rounded range exceeds the start and every other one is selected. -/
theorem select_of_ahead {e : Extremes} {k : Channel} (hexceeds : f32min < diff e k)
    (hahead : ∀ j, j ≠ k → diff e j < diff e k) :
    select e = { selected := k, magnitude := diff e k } := by
  have hdiff (i : Channel) :
      Extremes.diff { minArray := fun _ => 0, maxArray := diff e } i = diff e i := sub_zero _
  rw [select_eq, algo_select_of_ahead (by rwa [hdiff]) (by simpa only [hdiff] using hahead), hdiff]

/-- A channel is **ahead** by more than the rounding of the ranges, a half of a unit in the last
place. -/
structure Ahead (e : Extremes) (k : Channel) : Prop where
  /-- Its range exceeds the starting magnitude, by more than rounding can take away. -/
  start : f32min < e.diff k * (1 - 1 / 2 ^ 24)
  /-- Its range exceeds every other one, by more than rounding can take away. -/
  others : ∀ j, j ≠ k → e.diff j * (1 + 1 / 2 ^ 24) < e.diff k * (1 - 1 / 2 ^ 24)

/-- The rounding of a range, from both sides: it is off by a factor of `1 ± 1 / 2 ^ 24` at most. -/
theorem diff_bounds (hsingle : ∀ point ∈ points, point.IsSingle) (hpoints : points ≠ [])
    (i : Channel) :
    (extremes points).diff i * (1 - 1 / 2 ^ 24) ≤ diff (extremes points) i ∧
      diff (extremes points) i ≤ (extremes points).diff i * (1 + 1 / 2 ^ 24) := by
  obtain ⟨hmin, hmax⟩ := representable_extremes hsingle i
  have herror := Format.abs_round_sub_sub_le hmax hmin
  have hle : 0 ≤ (extremes points).maxArray i - (extremes points).minArray i :=
    sub_nonneg.mpr (minArray_le_maxArray hpoints i)
  rw [abs_of_nonneg hle] at herror
  change _ ≤ _ / (2 : ℚ) ^ 24 at herror
  obtain ⟨hlow, hhigh⟩ := abs_le.mp herror
  rw [diff, Extremes.diff]
  constructor
  · linarith
  · linarith

/-- A channel that is ahead is selected by exact and by rounded ranges. -/
theorem Ahead.select_eq (hsingle : ∀ point ∈ points, point.IsSingle) (hpoints : points ≠ [])
    {k : Channel} (hahead : Ahead (extremes points) k) :
    Algo.select (extremes points) = { selected := k, magnitude := (extremes points).diff k } ∧
      select (extremes points) = { selected := k, magnitude := diff (extremes points) k } := by
  have hnonneg (i : Channel) : 0 ≤ (extremes points).diff i :=
    sub_nonneg.mpr (minArray_le_maxArray hpoints i)
  constructor
  · -- the exact ranges are ahead by more than is asked for, the rounded ones by what is left of it
    apply algo_select_of_ahead
    · have := hahead.start
      have := hnonneg k
      linarith
    · intro j hj
      have := hahead.others j hj
      have := hnonneg k
      have := hnonneg j
      linarith
  · apply select_of_ahead
    · exact hahead.start.trans_le (diff_bounds hsingle hpoints k).1
    · intro j hj
      exact ((diff_bounds hsingle hpoints j).2.trans_lt (hahead.others j hj)).trans_le
        (diff_bounds hsingle hpoints k).1

/-- A value that is further from a midline than another midline is, is on the same side of both. -/
theorem mul_neg_iff_of_clear {value mid mid' : ℚ} (hclear : |mid' - mid| < |value - mid|) {sign : ℤ}
    (hsign : sign = 1 ∨ sign = -1) : (value - mid') * sign < 0 ↔ (value - mid) * sign < 0 := by
  obtain ⟨hlow, hhigh⟩ := abs_lt.mp hclear
  -- the value is on or above the midline, or below it, and the sign turns this around or not
  obtain ⟨hvalue, hside⟩ | ⟨hvalue, hside⟩ := abs_cases (value - mid)
  · rw [hvalue] at hlow hhigh
    obtain rfl | rfl := hsign
    · rw [Int.cast_one, mul_one, mul_one]
      exact iff_of_false (by linarith) (by linarith)
    · rw [Int.cast_neg, Int.cast_one, mul_neg_one, mul_neg_one]
      exact iff_of_true (by linarith) (by linarith)
  · rw [hvalue] at hlow hhigh
    obtain rfl | rfl := hsign
    · rw [Int.cast_one, mul_one, mul_one]
      exact iff_of_true (by linarith) (by linarith)
    · rw [Int.cast_neg, Int.cast_one, mul_neg_one, mul_neg_one]
      exact iff_of_false (by linarith) (by linarith)

/-- The values of a channel are **clear** of its midline by more than its rounding. -/
def Clear (points : List Point) (k : Channel) : Prop :=
  ∀ point ∈ points, |(extremes points).adcMid k| / 2 ^ 24 + 1 / 2 ^ 150
    < |(point.values k : ℚ) - (extremes points).adcMid k|

/-- The loops at two midlines take the same points, when all values are clear of one midline. -/
theorem crossingLoop_congr {selected : Channel} {mid mid' : ℚ} {sign : ℤ}
    (hsign : sign = 1 ∨ sign = -1) {rest : List Point}
    (hclear : ∀ point ∈ rest, |mid' - mid| < |(point.values selected : ℚ) - mid|)
    (index : Nat) (found : List Nat) :
    Algo.crossingLoop selected mid' sign rest index found
      = Algo.crossingLoop selected mid sign rest index found := by
  induction rest generalizing index found with
  | nil => rfl
  | cons point rest ih =>
      obtain ⟨hpoint, hrest⟩ := List.forall_mem_cons.mp hclear
      have hiff := mul_neg_iff_of_clear hpoint hsign
      rw [Algo.crossingLoop, Algo.crossingLoop]
      simp only [ih hrest]
      exact if_congr hiff rfl rfl

/-- The periods are those of exact arithmetic, when a channel is ahead and its values are clear. -/
theorem periods_eq_of_clear (hsingle : ∀ point ∈ points, point.IsSingle) (hpoints : points ≠ [])
    {k : Channel} (hahead : Ahead (extremes points) k) (hclear : Clear points k) :
    periods points hpoints = Algo.periods points hpoints := by
  obtain ⟨hexact, hrounded⟩ := hahead.select_eq hsingle hpoints
  -- the rounded midline is nearer to the exact one than any value is
  have hmid (point : Point) (hpoint : point ∈ points) :
      |adcMid (extremes points) k - (extremes points).adcMid k|
        < |(point.values k : ℚ) - (extremes points).adcMid k| :=
    (abs_adcMid_sub_le hsingle k).trans_lt (hclear point hpoint)
  have hfirst : Algo.firstSign (points.head hpoints) k (adcMid (extremes points) k)
      = Algo.firstSign (points.head hpoints) k ((extremes points).adcMid k) := by
    have hiff := mul_neg_iff_of_clear (hmid _ (List.head_mem hpoints)) (.inl (rfl : (1 : ℤ) = 1))
    rw [Int.cast_one, mul_one, mul_one] at hiff
    exact if_congr hiff rfl rfl
  rw [periods_eq hsingle hpoints, Algo.periods, hexact, hrounded]
  simp only [hfirst]
  exact crossingLoop_congr (firstSign_cases _ _ _)
    (fun point hpoint => hmid point (List.mem_of_mem_tail hpoint)) 1 []

/-- A report with its magnitude rounded, the one value of it that is computed. -/
def rounded (report : Report) : Report :=
  { report with magnitude := binary32.round report.magnitude }

/-- **The report of exact arithmetic**, with its magnitude rounded, is the one of the rounded function
when a channel is ahead and its values are clear of the midline. -/
theorem findMinMax_eq_rounded (count : Nat) (hsingle : ∀ point ∈ points, point.IsSingle)
    (hpoints : points ≠ []) {k : Channel} (hahead : Ahead (extremes points) k)
    (hclear : Clear points k) :
    findMinMax count points hpoints
      = ((Algo.findMinMax count points hpoints).1.map rounded,
          (Algo.findMinMax count points hpoints).2) := by
  obtain ⟨hexact, hrounded⟩ := hahead.select_eq hsingle hpoints
  simp only [findMinMax, Algo.findMinMax, periods_eq_of_clear hsingle hpoints hahead hclear, hexact,
    hrounded]
  split_ifs with hfirst hsecond hthird
  · rfl
  · rfl
  · rfl
  · rfl

theorem isF32_of_unit (positive : Bool) (i : Channel) :
    -f32max ≤ (if i.val = 0 then (if positive then 1 else -1) else 0) ∧
      (if i.val = 0 then (if positive then 1 else -1) else 0) ≤ f32max := by
  have hone := one_isF32
  have hminusOne := minusOne_isF32
  split_ifs
  · exact hone
  · exact hminusOne
  · constructor <;> linarith

/-- A point with a signal in the first channel only, one or minus one; the other channels are
zero. -/
def unitPoint (positive : Bool) : Point where
  values i := ⟨if i.val = 0 then (if positive then 1 else -1) else 0, isF32_of_unit positive i⟩

/-- A square wave in the first channel, with three points on the other side. -/
def squareWave : List Point :=
  [unitPoint true, unitPoint false, unitPoint true, unitPoint false, unitPoint false]

theorem squareWave_ne_nil : squareWave ≠ [] := List.cons_ne_nil _ _

theorem squareWave_isSingle : ∀ point ∈ squareWave, point.IsSingle := by
  have hsmall (n : ℤ) (hn : |n| ≤ 2 ^ 24) : binary32.Representable n :=
    Format.representable_intCast (by decide) hn
  have hunit (positive : Bool) : (unitPoint positive).IsSingle := by
    intro i
    change binary32.Representable (if i.val = 0 then (if positive then 1 else -1) else 0)
    split_ifs
    · exact hsmall 1 (by decide)
    · exact hsmall (-1) (by decide)
    · exact hsmall 0 (by decide)
  intro point hpoint
  rw [squareWave] at hpoint
  simp only [List.mem_cons, List.not_mem_nil, or_false] at hpoint
  obtain rfl | rfl | rfl | rfl | rfl := hpoint
  all_goals exact hunit _

theorem squareWave_ahead : Ahead (extremes squareWave) Selection.start.selected :=
  ⟨by decide +kernel, by decide +kernel⟩

theorem squareWave_clear : Clear squareWave Selection.start.selected := by
  unfold Clear
  decide +kernel

/-! ## Overflow -/

/-- All results are **in range**: none overflows to an infinity, and so the format without a largest
exponent has the values of the machine. -/
structure InRange (points : List Point) : Prop where
  /-- The ranges: `maxArray[i] - minArray[i]` does not overflow. -/
  diff : ∀ i, |diff (extremes points) i| ≤ f32max
  /-- The sums of the extremes: `maxArray[i] + minArray[i]` does not overflow. -/
  sum : ∀ i, |binary32.round ((extremes points).maxArray i + (extremes points).minArray i)| ≤ f32max
  /-- The midlines, the halves of the sums, do not overflow. -/
  adcMid : ∀ i, |adcMid (extremes points) i| ≤ f32max
  /-- The deviations: `point[i] - adcMid` does not overflow. -/
  position : ∀ point ∈ points, ∀ i, |position point i (Single.adcMid (extremes points) i)| ≤ f32max

/-- The extremes of bounded values are bounded, when the bound is above the start of `maxArray`. -/
theorem abs_extremes_le (hpoints : points ≠ []) {bound : ℚ} (hbound : f32min ≤ bound) {i : Channel}
    (hvalues : ∀ point ∈ points, |(point.values i : ℚ)| ≤ bound) :
    |(extremes points).minArray i| ≤ bound ∧ |(extremes points).maxArray i| ≤ bound := by
  have hchannel : ∀ x ∈ channel points i, |x| ≤ bound := by
    intro x hx
    obtain ⟨point, hpoint, rfl⟩ := List.mem_map.mp hx
    exact hvalues point hpoint
  have hpos : 0 < f32min := by norm_num [f32min]
  constructor
  · exact hchannel _ (isLeast_minArray hpoints i).1
  · rw [extremes, (foldl_scan points .start i).2, List.foldl_max_eq_max (channel_ne_nil hpoints i)]
    refine max_rec' (fun x => |x| ≤ bound) ?_ (hchannel _ (List.max_mem _))
    exact (abs_of_pos hpos).trans_le hbound

/-- **Nothing overflows** while the values leave room for one digit. -/
theorem inRange_of_abs_le (hpoints : points ≠ [])
    (hvalues : ∀ point ∈ points, ∀ i, |(point.values i : ℚ)| ≤ 2 ^ 125) : InRange points := by
  have hbound : f32min ≤ 2 ^ 125 := by norm_num [f32min]
  have hextremes (i : Channel) := abs_extremes_le hpoints hbound fun point h => hvalues point h i
  -- a rounded result is bounded by the power of two that bounds the exact one
  have hround (n : ℕ) (hn : n ≤ 127) {x : ℚ} (hx : |x| ≤ 2 ^ n) : |binary32.round x| ≤ 2 ^ n := by
    rw [← zpow_natCast] at hx ⊢
    exact Format.abs_round_le (Format.representable_zpow (by change (-149 : ℤ) ≤ n; omega)) hx
  have hmax (n : ℕ) (hn : n ≤ 127) : (2 : ℚ) ^ n ≤ f32max :=
    (pow_le_pow_right₀ one_le_two hn).trans (by norm_num [f32max])
  have hsum (i : Channel) :
      |binary32.round ((extremes points).maxArray i + (extremes points).minArray i)| ≤ 2 ^ 126 := by
    have := (abs_add_le _ _).trans (add_le_add (hextremes i).2 (hextremes i).1)
    exact hround 126 (by decide) (by linarith)
  have hmid (i : Channel) : |adcMid (extremes points) i| ≤ 2 ^ 125 := by
    refine hround 125 (by decide) ?_
    rw [abs_div, abs_two]
    have := hsum i
    linarith
  refine ⟨fun i => ?_, fun i => (hsum i).trans (hmax 126 (by decide)),
    fun i => (hmid i).trans (hmax 125 (by decide)), fun point hpoint i => ?_⟩
  · have := (abs_sub _ _).trans (add_le_add (hextremes i).2 (hextremes i).1)
    exact (hround 126 (by decide) (by linarith)).trans (hmax 126 (by decide))
  · have := (abs_sub _ _).trans (add_le_add (hvalues point hpoint i) (hmid i))
    exact (hround 126 (by decide) (by linarith)).trans (hmax 126 (by decide))

theorem squareWave_inRange : InRange squareWave :=
  inRange_of_abs_le squareWave_ne_nil (by decide +kernel)

end Single

end Algo

end IecCore
