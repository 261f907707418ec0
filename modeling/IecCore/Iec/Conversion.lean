import IecCore.Algo.SinglePrecision

/-! # The real representation of the ASDUs

`IecParser::convert` appends a point for every ASDU: each sample becomes an `f32`, which is
multiplied by the scale of its channel. The two scales are literals, which are rounded as well. So
there are three roundings: of the sample, of the literal and of the product. No value comes near the
largest `f32`, so that nothing overflows here (`abs_scaled_le`).

* **`scaled i instMagI`** — the conversion of one sample of the channel `i`.
* **`convert sequence points`** — the points of the ASDUs (`pointOf`) behind those that are there.
* **`scaled_keeps`** — what it keeps exactly: the order, the symmetry and the sign.
* **`abs_scaled_sub_le`** — its error, at most `3 / 2 ^ 24` of the value that is meant.
* **`raw`**, **`map_raw_convert`** — samples of moderate size are recovered from the points.
* **`inRange_of_pointOf`** — points of ASDUs are such that the results on `f32` hold of them. -/

namespace IecCore

namespace Iec

open Algo

/-! ## The conversion -/

/-- `0.001f`, the scale of the currents: the number of the format that is nearest to a
thousandth. -/
def ampScaleFactor : ℚ := binary32.round (1 / 1000)

/-- `0.01f`, the scale of the voltages: the number of the format that is nearest to a hundredth. -/
def volScaleFactor : ℚ := binary32.round (1 / 100)

/-- The scale of a channel: the currents come first, four of them. -/
def scaleFactor (i : Channel) : ℚ :=
  if i.val < unitsPerASDU / 2 then ampScaleFactor else volScaleFactor

/-- `static_cast<f32>(instMagI) * scaleFactor`: the sample is rounded first, and the product is
rounded again. -/
def scaled (i : Channel) (instMagI : ℤ) : ℚ :=
  binary32.round (binary32.round instMagI * scaleFactor i)

/-- The scale of a channel that is meant, as the decimal fraction that the literal is written
with. -/
def unit (i : Channel) : ℚ := if i.val < unitsPerASDU / 2 then 1 / 1000 else 1 / 100

theorem ampScaleFactor_eq : ampScaleFactor = 8589935 / 2 ^ 33 := by decide +kernel

theorem volScaleFactor_eq : volScaleFactor = 10737418 / 2 ^ 30 := by decide +kernel

/-- The literals have 24 digits of the scales, and are not equal to them. -/
theorem scaleFactor_cases (i : Channel) :
    (scaleFactor i = 8589935 / 2 ^ 33 ∧ unit i = 1 / 1000) ∨
      (scaleFactor i = 10737418 / 2 ^ 30 ∧ unit i = 1 / 100) := by
  rw [scaleFactor, unit, ampScaleFactor_eq, volScaleFactor_eq]
  split_ifs
  · exact .inl ⟨rfl, rfl⟩
  · exact .inr ⟨rfl, rfl⟩

theorem unit_pos (i : Channel) : 0 < unit i := by
  obtain ⟨-, h⟩ | ⟨-, h⟩ := scaleFactor_cases i
  · norm_num [h]
  · norm_num [h]

/-- The literals are between two powers of two, which is all that the bounds of the products
need. -/
theorem scaleFactor_bounds (i : Channel) :
    2 ^ (-10 : ℤ) ≤ scaleFactor i ∧ scaleFactor i ≤ 1 / 64 := by
  obtain ⟨h, -⟩ | ⟨h, -⟩ := scaleFactor_cases i
  · norm_num [h]
  · norm_num [h]

theorem scaleFactor_pos (i : Channel) : 0 < scaleFactor i :=
  (Format.two_zpow_pos (-10)).trans_le (scaleFactor_bounds i).1

/-- The error of the literals, less than half of a unit in the last place. -/
theorem abs_scaleFactor_sub_le (i : Channel) :
    |scaleFactor i - unit i| ≤ |unit i| * (4 / 5 / 2 ^ 24) := by
  obtain ⟨hliteral, hunit⟩ | ⟨hliteral, hunit⟩ := scaleFactor_cases i
  · rw [hliteral, hunit]
    norm_num [abs_le]
  · rw [hliteral, hunit]
    norm_num [abs_le]

/-- The size of a sample: an `i32` is at most `2 ^ 31` away from zero. -/
theorem abs_toInt_le (a : Int32) : |a.toInt| ≤ 2 ^ 31 := by
  have hlow := a.le_toInt
  have hhigh := a.toInt_lt
  exact abs_le.mpr ⟨by omega, by omega⟩

/-- A converted sample is far below the largest `f32`: at most `2 ^ 25`. -/
theorem abs_scaled_le (i : Channel) {n : ℤ} (hn : |n| ≤ 2 ^ 31) : |scaled i n| ≤ 2 ^ 25 := by
  have hbound (n : ℕ) : binary32.Representable (2 ^ n) := by
    rw [← zpow_natCast]
    exact Format.representable_zpow (by change (-149 : ℤ) ≤ n; omega)
  have hint : |(n : ℚ)| ≤ 2 ^ 31 := by exact_mod_cast hn
  have hround := Format.abs_round_le (hbound 31) hint
  refine Format.abs_round_le (hbound 25) ?_
  rw [abs_mul, abs_of_pos (scaleFactor_pos i)]
  calc |binary32.round n| * scaleFactor i ≤ 2 ^ 31 * (1 / 64) :=
        mul_le_mul hround (scaleFactor_bounds i).2 (scaleFactor_pos i).le (pow_pos two_pos _).le
    _ = 2 ^ 25 := by norm_num

theorem scaled_isF32 (i : Channel) (a : Int32) :
    -f32max ≤ scaled i a.toInt ∧ scaled i a.toInt ≤ f32max :=
  abs_le.mp ((abs_scaled_le i (abs_toInt_le a)).trans (by norm_num [f32max]))

/-- The point of an ASDU: each sample is converted in its own channel. -/
def pointOf (asdu : ASDU) : Point where
  values i := ⟨scaled i asdu.data[i].instMagI.toInt, scaled_isF32 i asdu.data[i].instMagI⟩

/-- **`convert`** appends the points of a sequence, and keeps those that were there. -/
def convert (sequence : List ASDU) (points : List Point) : List Point :=
  points ++ sequence.map pointOf

/-- The points of ASDUs have values of type `f32`, since the product is rounded at last. -/
theorem isSingle_pointOf (asdu : ASDU) : (pointOf asdu).IsSingle :=
  fun _ => Format.representable_round _

/-- Points of ASDUs have values of type `f32`, and nothing overflows on them. -/
theorem inRange_of_pointOf {asdus : List ASDU} {points : List Point}
    (hasdus : ∀ point ∈ points, point ∈ asdus.map pointOf) (hpoints : points ≠ []) :
    (∀ point ∈ points, point.IsSingle) ∧ Single.InRange points := by
  refine ⟨fun point hpoint => ?_, Single.inRange_of_abs_le hpoints fun point hpoint i => ?_⟩
  · obtain ⟨asdu, -, rfl⟩ := List.mem_map.mp (hasdus point hpoint)
    exact isSingle_pointOf asdu
  · obtain ⟨asdu, -, rfl⟩ := List.mem_map.mp (hasdus point hpoint)
    exact (abs_scaled_le i (abs_toInt_le _)).trans (by norm_num)

/-! ## What is kept -/

/-- The order of the samples is kept, since every rounding keeps it. -/
theorem scaled_mono (i : Channel) {m n : ℤ} (hmn : m ≤ n) : scaled i m ≤ scaled i n := by
  have hcast : (m : ℚ) ≤ n := by exact_mod_cast hmn
  exact Format.round_mono
    (mul_le_mul_of_nonneg_right (Format.round_mono hcast) (scaleFactor_pos i).le)

/-- The conversion of zero is zero, in both scales: `scaled i 0 = 0` for every channel `i`. -/
theorem scaled_zero (i : Channel) : scaled i 0 = 0 := by
  rw [scaled, Int.cast_zero, Format.round_zero, zero_mul, Format.round_zero]

/-- The conversion of the opposite sample is the opposite value. -/
theorem scaled_neg (i : Channel) (n : ℤ) : scaled i (-n) = -scaled i n := by
  rw [scaled, scaled, Int.cast_neg, Format.round_neg, neg_mul, Format.round_neg]

/-- A sample that is not zero is at least one as an `f32`: `1 ≤ |binary32.round n|`. -/
theorem one_le_abs_round {n : ℤ} (hn : n ≠ 0) : 1 ≤ |binary32.round n| := by
  have hone : binary32.Representable ((1 : ℤ) : ℚ) :=
    Format.representable_intCast (by decide) (by decide)
  rw [Int.cast_one] at hone
  obtain hneg | hpos := lt_or_gt_of_ne hn
  · have hcast : (n : ℚ) ≤ -1 := by exact_mod_cast Int.le_sub_one_of_lt hneg
    exact le_abs.mpr (.inr (le_neg_of_le_neg (Format.round_le hone.neg hcast)))
  · have hcast : (1 : ℚ) ≤ n := by exact_mod_cast hpos
    exact le_abs.mpr (.inl (Format.le_round hone hcast))

/-- The product with the scale is far above the smallest normal number, unless the sample is
zero. -/
theorem le_abs_product (i : Channel) {n : ℤ} (hn : n ≠ 0) :
    2 ^ (-10 : ℤ) ≤ |binary32.round n * scaleFactor i| := by
  rw [abs_mul, abs_of_pos (scaleFactor_pos i)]
  exact (scaleFactor_bounds i).1.trans
    (le_mul_of_one_le_left (scaleFactor_pos i).le (one_le_abs_round hn))

/-- `2 ^ (-10) ≤ scaled i n` for a positive sample `n`: its conversion is a normal number. -/
theorem le_scaled (i : Channel) {n : ℤ} (hn : 0 < n) : 2 ^ (-10 : ℤ) ≤ scaled i n := by
  have hcast : (0 : ℚ) ≤ n := by exact_mod_cast hn.le
  have hround := Format.le_round (Format.representable_zero (f := binary32)) hcast
  have hproduct := le_abs_product i hn.ne'
  rw [abs_of_nonneg (mul_nonneg hround (scaleFactor_pos i).le)] at hproduct
  exact Format.le_round (Format.representable_zpow (by decide)) hproduct

/-- A positive sample stays positive: no product is rounded to zero. -/
theorem scaled_pos (i : Channel) {n : ℤ} (hn : 0 < n) : 0 < scaled i n :=
  (Format.two_zpow_pos (-10)).trans_le (le_scaled i hn)

/-- **Signs are kept**: `0 < scaled i n ↔ 0 < n`, so that no sample is rounded away to zero. -/
theorem scaled_pos_iff (i : Channel) {n : ℤ} : 0 < scaled i n ↔ 0 < n := by
  constructor
  · intro h
    by_contra hn
    have hle := scaled_mono i (not_lt.mp hn)
    rw [scaled_zero] at hle
    exact absurd h (not_lt.mpr hle)
  · exact scaled_pos i

/-- **The order, the symmetry and the sign** of the samples are kept in every channel. -/
theorem scaled_keeps (i : Channel) : (∀ m n, m ≤ n → scaled i m ≤ scaled i n) ∧
    (∀ n, scaled i (-n) = -scaled i n) ∧
    ∀ n, (0 < scaled i n ↔ 0 < n) ∧ (scaled i n < 0 ↔ n < 0) := by
  refine ⟨fun m n => scaled_mono i, scaled_neg i, fun n => ⟨scaled_pos_iff i, ?_⟩⟩
  have h := scaled_pos_iff i (n := -n)
  rwa [scaled_neg, neg_pos, neg_pos] at h

/-! ## The error -/

/-- The error of the conversion to `f32`, half of a unit in the last of 24 digits. -/
theorem abs_round_intCast_sub_le (n : ℤ) : |binary32.round n - n| ≤ |(n : ℚ)| * (1 / 2 ^ 24) := by
  by_cases hn : n = 0
  · rw [hn, Int.cast_zero, Format.round_zero, sub_zero, abs_zero, zero_mul]
  · have hone : (2 : ℚ) ^ (0 : ℤ) ≤ |(n : ℚ)| := by exact_mod_cast Int.one_le_abs hn
    have h := Format.abs_round_sub_le_mul (f := binary32)
      ((zpow_le_zpow_right₀ one_le_two (by decide)).trans hone)
    rwa [mul_one_div]

/-- The error of the product, which is rounded as a normal number. -/
theorem abs_scaled_sub_product_le (i : Channel) (n : ℤ) :
    |scaled i n - binary32.round n * scaleFactor i|
      ≤ |binary32.round n * scaleFactor i| * (1 / 2 ^ 24) := by
  by_cases hn : n = 0
  · rw [hn, scaled_zero, Int.cast_zero, Format.round_zero, zero_mul, sub_zero, abs_zero, zero_mul]
  · have h := Format.abs_round_sub_le_mul (f := binary32)
      ((zpow_le_zpow_right₀ one_le_two (by decide)).trans (le_abs_product i hn))
    rwa [mul_one_div]

/-- The error of the product with the scale that is meant: that of the literal and that of the
product. -/
theorem abs_scaled_sub_unit_le (i : Channel) (n : ℤ) :
    |scaled i n - binary32.round n * unit i|
      ≤ |binary32.round n * unit i| * (15 / 8 / 2 ^ 24) := by
  have hscale : |binary32.round n * scaleFactor i - binary32.round n * unit i|
      ≤ |binary32.round n * unit i| * (4 / 5 / 2 ^ 24) := by
    rw [← mul_sub, abs_mul, abs_mul, mul_assoc]
    exact mul_le_mul_of_nonneg_left (abs_scaleFactor_sub_le i) (abs_nonneg _)
  have h := Format.abs_sub_le_mul_trans (by norm_num) hscale (abs_scaled_sub_product_le i n)
  exact h.trans (mul_le_mul_of_nonneg_left (by norm_num) (abs_nonneg _))

/-- **The error of the conversion**: the sample, the scale and the product are rounded, which makes
less than three units of `2 ^ (-24)` together. -/
theorem abs_scaled_sub_le (i : Channel) (n : ℤ) :
    |scaled i n - n * unit i| ≤ |n * unit i| * (3 / 2 ^ 24) := by
  have hround : |binary32.round n * unit i - n * unit i| ≤ |n * unit i| * (1 / 2 ^ 24) := by
    rw [← sub_mul, abs_mul, abs_mul, mul_right_comm]
    exact mul_le_mul_of_nonneg_right (abs_round_intCast_sub_le n) (abs_nonneg _)
  have h := Format.abs_sub_le_mul_trans (by norm_num) hround (abs_scaled_sub_unit_le i n)
  exact h.trans (mul_le_mul_of_nonneg_left (by norm_num) (abs_nonneg _))

/-! ## The way back -/

/-- The sample of a converted value: the nearest whole number to the value over the scale. -/
def raw (point : Point) (i : Channel) : ℤ := nearestEven (point.values i / unit i)

/-- A sample of moderate size is recovered: below `2 ^ 22` the error is less than a half. -/
theorem nearestEven_scaled_div (i : Channel) {n : ℤ} (hn : |n| ≤ 2 ^ 22) :
    nearestEven (scaled i n / unit i) = n := by
  apply nearestEven_eq_of_abs_sub_lt
  -- samples of this size are numbers of type `f32`, so that only the scale and the product are
  -- rounded
  have hexact : binary32.round n = n := Format.round_of_representable
    (Format.representable_intCast (by decide) (hn.trans (by decide)))
  have herror := abs_scaled_sub_unit_le i n
  have hsize : |(n : ℚ)| ≤ 2 ^ 22 := by exact_mod_cast hn
  rw [hexact, abs_mul, abs_of_pos (unit_pos i)] at herror
  have hsplit : scaled i n / unit i - n = (scaled i n - n * unit i) / unit i := by
    rw [sub_div, mul_div_cancel_right₀ _ (unit_pos i).ne']
  rw [hsplit, abs_div, abs_of_pos (unit_pos i), div_lt_iff₀ (unit_pos i)]
  calc |scaled i n - n * unit i| ≤ |(n : ℚ)| * unit i * (15 / 8 / 2 ^ 24) := herror
    _ ≤ 2 ^ 22 * unit i * (15 / 8 / 2 ^ 24) := by
      gcongr
      exact (unit_pos i).le
    _ < 1 / 2 * unit i := by
      have := unit_pos i
      linarith

/-- The samples of an ASDU, as whole numbers: the magnitude of the data unit of channel `i`. -/
def samples (asdu : ASDU) (i : Channel) : ℤ := asdu.data[i].instMagI.toInt

/-- **The way back**: the samples of moderate size are recovered from the points that are
appended. -/
theorem map_raw_convert {sequence : List ASDU} (points : List Point)
    (hsmall : ∀ asdu ∈ sequence, ∀ i, |samples asdu i| ≤ 2 ^ 22) :
    ((convert sequence points).drop points.length).map raw = sequence.map samples := by
  rw [convert, List.drop_left, List.map_map]
  apply List.map_congr_left
  intro asdu hasdu
  funext i
  exact nearestEven_scaled_div i (hsmall asdu hasdu i)

/-- An ASDU with the largest samples of moderate size in all channels. -/
def largest : ASDU where
  smpCnt := 0
  smpSynch := 0
  confRev := 0
  data := Vector.replicate unitsPerASDU { instMagI := -4194304, quality := 0, bitset := 0 }

theorem largest_small : ∀ asdu ∈ [largest], ∀ i, |samples asdu i| ≤ 2 ^ 22 := by decide +kernel

theorem map_raw_convert_largest :
    ((convert [largest] [pointOf largest]).drop 1).map raw = [largest].map samples :=
  map_raw_convert [pointOf largest] largest_small

end Iec

end IecCore
