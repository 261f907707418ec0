import IecCore.Iec.Asdu
import IecCore.Lib.Extremes
import Mathlib.Algebra.Order.Ring.Rat

/-! # Processing of the points

`algo::findMinMax` goes over a batch of points three times: it looks for the extremes of every
channel, selects the channel with the largest range, and looks for the points where that channel is
on the other side of its midline. Values are exact here: a finite number of type `f32` is a rational
number, and sums, differences and halves are not rounded. The function as it runs, with roundings and
infinities, is `Binary32.findMinMax`; the first loop only compares, and is the same in both.

* **`F32`**, **`Point`** — the finite values of `f32`, and a point with one for each channel.
* **`Extremes.scan`**, **`Selection.consider`**, **`crossingLoop`** — the steps of the three loops,
  and **`extremes`**, **`select`**, **`periods`** — what they compute.
* **`findMinMax`** — the function, with the **`Report`** that it prints.
* **`isLeast_minArray`**, **`isGreatest_maxArray_iff`** — the extremes, by the start of each array.
* **`ExactExtremes`**, **`exactExtremes_iff`** — what the first two loops look for, and when they
  find it. -/

namespace IecCore

namespace Algo

open Iec

/-! ## Values -/

/-- `std::numeric_limits<f32>::min()`: the smallest positive normal number, not the least one. -/
def f32min : ℚ := 1 / 2 ^ 126

/-- `std::numeric_limits<f32>::max()`, with 24 digits that are all one. -/
def f32max : ℚ := (2 ^ 24 - 1) * 2 ^ 104

/-- A finite number of type `f32`, as a rational number between the limits. -/
abbrev F32 := {value : ℚ // -f32max ≤ value ∧ value ≤ f32max}

/-- The index of a channel, `index` in the loops of the source: one of the eight data units. -/
abbrev Channel := Fin unitsPerASDU

/-- The real representation of an ASDU: its samples as values of type `f32`. -/
structure Point where
  /-- The values of the channels, each of them a number of the format. -/
  values : Channel → F32

/-! ## The extremes -/

/-- The two arrays of extremes, which the loop over the points fills. -/
structure Extremes where
  /-- The minimal values, `minArray` in the source. -/
  minArray : Channel → ℚ
  /-- The maximal values, `maxArray` in the source. -/
  maxArray : Channel → ℚ

/-- The arrays before the loop: `minArray.fill(f32max)` and `maxArray.fill(f32min)`. -/
def Extremes.start : Extremes where
  minArray _ := f32max
  maxArray _ := f32min

/-- The body of the loop over the points: one point, in all channels. -/
def Extremes.scan (e : Extremes) (point : Point) : Extremes where
  minArray index := min (e.minArray index) (point.values index)
  maxArray index := max (e.maxArray index) (point.values index)

/-- The minimal and maximal values of all signals, as the loop leaves them. -/
def extremes (points : List Point) : Extremes := points.foldl Extremes.scan .start

/-! ## The channel -/

/-- The range of a channel, as the arrays have it: `maxArray[index] - minArray[index]`. -/
def Extremes.diff (e : Extremes) (index : Channel) : ℚ := e.maxArray index - e.minArray index

/-- The midline of a channel, half of the sum of its extremes: `(maxArray[index] + minArray[index])
/ 2`. -/
def Extremes.adcMid (e : Extremes) (index : Channel) : ℚ :=
  (e.maxArray index + e.minArray index) / 2

/-- The channel that is selected so far, `selected` and `magnitude` in the source. -/
structure Selection where
  /-- The channel, the first one while no range exceeds the start. -/
  selected : Channel
  /-- Its range, or `f32min` while no range exceeds it. -/
  magnitude : ℚ

theorem unitsPerASDU_pos : 0 < unitsPerASDU := by decide

/-- The selection before the loop: the first channel, with a range of `f32min`. -/
def Selection.start : Selection where
  selected := ⟨0, unitsPerASDU_pos⟩
  magnitude := f32min

/-- The body of the loop over the channels: a larger range is selected. -/
def Selection.consider (e : Extremes) (s : Selection) (index : Channel) : Selection :=
  if e.diff index > s.magnitude then { selected := index, magnitude := e.diff index } else s

/-- Select the channel with the largest range, in the order of the channels. -/
def select (e : Extremes) : Selection :=
  (List.finRange unitsPerASDU).foldl (Selection.consider e) .start

/-! ## The crossings -/

/-- The sign of the signal in the first point: negative below the midline, and positive on it. -/
def firstSign (first : Point) (selected : Channel) (mid : ℚ) : ℤ :=
  if (first.values selected : ℚ) - mid < 0 then -1 else 1

/-- The loop over the points that are left, of which the first has an index. The periods are the
slots that are set so far; the loop ends when three are. -/
def crossingLoop (selected : Channel) (mid : ℚ) (sign : ℤ) :
    (rest : List Point) → (index : Nat) → (periods : List Nat) → List Nat
  | [], _, periods => periods
  | point :: rest, index, periods =>
      let position := (point.values selected : ℚ) - mid
      -- the sign is the one of the first point, also behind a crossing
      if position * sign < 0 then
        let periods := periods ++ [index]
        -- the break
        if periods.length = 3 then periods
        else crossingLoop selected mid sign rest (index + 1) periods
      else
        crossingLoop selected mid sign rest (index + 1) periods

/-- The **periods**: the indexes of the points that are taken for crossings. -/
def periods (points : List Point) (hpoints : points ≠ []) : List Nat :=
  let e := extremes points
  let selected := (select e).selected
  let mid := e.adcMid selected
  crossingLoop selected mid (firstSign (points.head hpoints) selected mid) points.tail 1 []

/-! ## The report -/

/-- What is printed, with the number of the report and the extremes of all channels. -/
structure Report where
  /-- The number of the report, the static counter `count`. -/
  step : Nat
  /-- The number of points, all of those that are processed. -/
  numPoints : Nat
  /-- The minimal values. -/
  mins : Channel → ℚ
  /-- The maximal values. -/
  maxs : Channel → ℚ
  /-- The range of the selected channel. -/
  magnitude : ℚ

/-- **`findMinMax`** for points that are not empty: the report, and the next value of its counter. A
slot that is not set ends the function. -/
def findMinMax (count : Nat) (points : List Point) (hpoints : points ≠ []) :
    Option Report × Nat :=
  let e := extremes points
  let periods := periods points hpoints
  -- no first crossing
  if periods[0]? = none then (none, count)
  -- no opposite crossing
  else if periods[1]? = none then (none, count)
  -- no second crossing of the first kind
  else if periods[2]? = none then (none, count)
  else
    (some { step := count, numPoints := points.length, mins := e.minArray, maxs := e.maxArray,
            magnitude := (select e).magnitude }, count + 1)

/-! ## What the loops find -/

variable {points : List Point}

/-- The values of a channel, in the order of the points: what the statements about extremes fold
over. -/
def channel (points : List Point) (i : Channel) : List ℚ :=
  points.map fun point => (point.values i : ℚ)

/-- A channel of points that are not empty has a value, so that it has extremes. -/
theorem channel_ne_nil (hpoints : points ≠ []) (i : Channel) : channel points i ≠ [] := by
  rw [channel, Ne, List.map_eq_nil_iff]
  exact hpoints

/-- The loop goes over the values of each channel: both arrays are folds of `min` and `max`. -/
theorem foldl_scan (points : List Point) (e : Extremes) (i : Channel) :
    (points.foldl Extremes.scan e).minArray i = (channel points i).foldl min (e.minArray i) ∧
      (points.foldl Extremes.scan e).maxArray i = (channel points i).foldl max (e.maxArray i) := by
  induction points generalizing e with
  | nil => exact ⟨rfl, rfl⟩
  | cons point points ih => exact ih (e.scan point)

/-- **The minimal value** is the least of the channel: no value is above the start. -/
theorem isLeast_minArray (hpoints : points ≠ []) (i : Channel) :
    IsLeast {x | x ∈ channel points i} ((extremes points).minArray i) := by
  obtain ⟨x, hx⟩ := List.exists_mem_of_ne_nil _ (channel_ne_nil hpoints i)
  -- every value is an `f32`, and so not above the start
  rw [extremes, (foldl_scan points .start i).1, isLeast_foldl_min_iff (channel_ne_nil hpoints i)]
  obtain ⟨point, -, rfl⟩ := List.mem_map.mp hx
  exact ⟨_, hx, (point.values i).2.2⟩

/-- **The maximal value** is the greatest of the channel when some value is not below the start, and
only then. -/
theorem isGreatest_maxArray_iff (hpoints : points ≠ []) (i : Channel) :
    IsGreatest {x | x ∈ channel points i} ((extremes points).maxArray i)
      ↔ ∃ point ∈ points, f32min ≤ point.values i := by
  rw [extremes, (foldl_scan points .start i).2,
    isGreatest_foldl_max_iff (channel_ne_nil hpoints i), channel]
  simp only [List.mem_map, exists_exists_and_eq_and]
  rfl

/-- The loop over the channels is one that keeps the first index with the largest weight,
`keepLarger`. -/
theorem foldl_consider (e : Extremes) (l : List Channel) (s : Selection) :
    ((l.foldl (Selection.consider e) s).selected, (l.foldl (Selection.consider e) s).magnitude)
      = l.foldl (keepLarger e.diff) (s.selected, s.magnitude) := by
  induction l generalizing s with
  | nil => rfl
  | cons i l ih =>
      rw [List.foldl_cons, List.foldl_cons, ih, Selection.consider, keepLarger]
      by_cases hlarger : e.diff i > s.magnitude
      · rw [if_pos hlarger, if_pos hlarger]
      · rw [if_neg hlarger, if_neg hlarger]

/-- **The selected channel** is the first one with the largest range in the arrays, when a range
exceeds the starting magnitude. -/
theorem select_isFirstLargest (e : Extremes) (hexceeds : ∃ i, f32min < e.diff i) :
    IsFirstLargest e.diff (select e).selected ∧
      (select e).magnitude = e.diff (select e).selected := by
  obtain ⟨k, hends, hfirst⟩ :=
    foldl_keepLarger_finRange e.diff (Selection.start.selected, f32min) hexceeds
  have hselect := (foldl_consider e (List.finRange unitsPerASDU) .start).trans hends
  obtain ⟨hselected, hmagnitude⟩ := Prod.mk.inj hselect
  rw [← select] at hselected hmagnitude
  rw [hselected, hmagnitude]
  exact ⟨hfirst, rfl⟩

/-- The range of a channel: its greatest value less its least, by `IsGreatest` and `IsLeast`. -/
def IsRange (points : List Point) (i : Channel) (range : ℚ) : Prop :=
  ∃ least greatest, IsLeast {x | x ∈ channel points i} least ∧
    IsGreatest {x | x ∈ channel points i} greatest ∧ range = greatest - least

/-- The extremes and the selection are **exact**, as the comments of the source say that they
are. -/
structure ExactExtremes (points : List Point) : Prop where
  /-- The arrays hold the least and the greatest value of every channel. -/
  extreme : ∀ i, IsLeast {x | x ∈ channel points i} ((extremes points).minArray i) ∧
    IsGreatest {x | x ∈ channel points i} ((extremes points).maxArray i)
  /-- If some range exceeds the starting magnitude, the first channel with the largest range is
  selected, with its range. -/
  selection : ∀ range : Channel → ℚ, (∀ i, IsRange points i (range i)) →
    (∃ i, f32min < range i) → IsFirstLargest range (select (extremes points)).selected ∧
      (select (extremes points)).magnitude = range (select (extremes points)).selected

/-- **The loops are exact** when every channel has a value that is not below the smallest positive
normal number. -/
theorem exactExtremes_iff (hpoints : points ≠ []) :
    ExactExtremes points ↔ ∀ i, ∃ point ∈ points, f32min ≤ point.values i := by
  constructor
  · intro hexact i
    exact (isGreatest_maxArray_iff hpoints i).mp (hexact.extreme i).2
  · intro hvalues
    have hgreatest i := (isGreatest_maxArray_iff hpoints i).mpr (hvalues i)
    refine ⟨fun i => ⟨isLeast_minArray hpoints i, hgreatest i⟩, ?_⟩
    intro range hrange hexceeds
    -- the arrays have the ranges
    have hdiff : range = (extremes points).diff := by
      funext i
      obtain ⟨least, greatest, hleast, hgreatest', hi⟩ := hrange i
      rw [hi, hleast.unique (isLeast_minArray hpoints i), hgreatest'.unique (hgreatest i)]
      rfl
    subst hdiff
    exact select_isFirstLargest (extremes points) hexceeds

theorem smallValue_isF32 : ∀ n : Fin 16, -f32max ≤ (n.val : ℚ) - 8 ∧ (n.val : ℚ) - 8 ≤ f32max := by
  decide +kernel

/-- `smallValue n` is the number `n - 8`, a value of type `f32`. -/
def smallValue (n : Fin 16) : F32 := ⟨n.val - 8, smallValue_isF32 n⟩

/-- Three points: the third channel has the values 3, -4 and 0, and every other one 1, 0 and -1. -/
def threePoints : List Point :=
  [{ values := fun i => smallValue (if i.val = 2 then 11 else 9) },
    { values := fun i => smallValue (if i.val = 2 then 4 else 8) },
    { values := fun i => smallValue (if i.val = 2 then 8 else 7) }]

theorem threePoints_ne_nil : threePoints ≠ [] := List.cons_ne_nil _ _

/-- The third channel of `threePoints` is selected, with the range 7. -/
theorem exactExtremes_iff_threePoints :
    (select (extremes threePoints)).selected.val = 2 ∧
      (select (extremes threePoints)).magnitude = 7 ∧
      (ExactExtremes threePoints ↔ ∀ i, ∃ point ∈ threePoints, f32min ≤ point.values i) :=
  ⟨by decide +kernel, by decide +kernel, exactExtremes_iff threePoints_ne_nil⟩

theorem minusOne_isF32 : -f32max ≤ -1 ∧ -1 ≤ f32max := by decide +kernel

/-- A point with the value -1 in every channel. -/
def negativePoint : Point where
  values _ := ⟨-1, minusOne_isF32⟩

/-- **A negative signal**: its greatest value is -1, and the array has the smallest positive normal
number. -/
theorem negative_maxArray :
    (∀ i, IsGreatest {x | x ∈ channel [negativePoint] i} (-1) ∧
      (extremes [negativePoint]).maxArray i = f32min) ∧ ¬ExactExtremes [negativePoint] := by
  have hpositive : f32min ≠ -1 := by decide +kernel
  have hchannel : ∀ i, channel [negativePoint] i = [-1] := fun _ => rfl
  -- the start of `maxArray` is above every value, and is never replaced
  have hmax : ∀ i, (extremes [negativePoint]).maxArray i = f32min :=
    fun _ => max_eq_left (show (-1 : ℚ) ≤ f32min by decide +kernel)
  refine ⟨fun i => ⟨?_, hmax i⟩, ?_⟩
  · rw [hchannel]
    exact ⟨List.mem_singleton_self _, fun x hx => (List.mem_singleton.mp hx).le⟩
  · intro hexact
    have hmem := (hexact.extreme Selection.start.selected).2.1
    rw [hmax, Set.mem_ofPred_eq, hchannel, List.mem_singleton] at hmem
    exact hpositive hmem

end Algo

end IecCore
