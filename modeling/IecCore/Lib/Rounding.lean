import Mathlib.Algebra.Order.Archimedean.Basic
import Mathlib.Algebra.Order.Floor.Ring
import Mathlib.Data.Int.Log
import Mathlib.Data.Rat.Floor
import Mathlib.Tactic.Linarith
import Mathlib.Tactic.Ring

/-! # Rounding to a binary format

A binary format has a number of digits and a least exponent; the exponents are not bounded from
above, so that nothing overflows here, and below the normal numbers the digits run out gradually.
A result is rounded to the nearest number of the format, with ties to the even digit.

* **`nearestEven`** — the nearest integer.
* **`Format.Representable`** — the numbers of a format.
* **`Format.round`** — the rounding, and **`Format.abs_round_sub_le_abs_sub`**: no number of the
  format is nearer.
* **`Format.round_mono`**, **`Format.round_of_representable`** — what follows for bounds.
* **`Format.round_sub_neg_iff`** — a rounded difference has the sign of the exact one. -/

namespace IecCore

/-! ## The nearest integer -/

/-- The **nearest integer**, and the even one of two when they are equally near. -/
def nearestEven (x : ℚ) : ℤ :=
  if Int.fract x < 1 / 2 then ⌊x⌋
  else if 1 / 2 < Int.fract x then ⌊x⌋ + 1
  -- a tie
  else if Even ⌊x⌋ then ⌊x⌋
  else ⌊x⌋ + 1

/-- **Integers stay**: `nearestEven n = n`, as `n` is the only integer at distance zero. -/
theorem nearestEven_intCast (n : ℤ) : nearestEven n = n := by
  rw [nearestEven, Int.fract_intCast, if_pos one_half_pos, Int.floor_intCast]

/-- The nearest integer is at most a half away, which is all that is known of it at a tie. -/
theorem abs_nearestEven_sub_le (x : ℚ) : |(nearestEven x : ℚ) - x| ≤ 1 / 2 := by
  have hsplit : (⌊x⌋ : ℚ) + Int.fract x = x := Int.floor_add_fract x
  have hpos := Int.fract_nonneg x
  have hlt := Int.fract_lt_one x
  rw [nearestEven, abs_le]
  split_ifs with hbelow habove heven
  · constructor <;> linarith
  · push_cast
    constructor <;> linarith
  · constructor <;> linarith
  · push_cast
    constructor <;> linarith

/-- **Nearest**: no integer `k` is nearer to `x` than `nearestEven x`, not even one of a tie. -/
theorem abs_nearestEven_sub_le_abs_sub (x : ℚ) (k : ℤ) :
    |(nearestEven x : ℚ) - x| ≤ |(k : ℚ) - x| := by
  by_cases hk : k = nearestEven x
  · rw [hk]
  · -- another integer is at least one away, and so at least a half away from `x`
    have hint : 1 ≤ |k - nearestEven x| := Int.one_le_abs (sub_ne_zero.mpr hk)
    have hapart : (1 : ℚ) ≤ |(k : ℚ) - nearestEven x| := by exact_mod_cast hint
    have hdetour := abs_sub_le (k : ℚ) x (nearestEven x)
    rw [abs_sub_comm x] at hdetour
    have hhalf := abs_nearestEven_sub_le x
    linarith

/-- An integer that is less than a half away is the nearest one; ties are excluded by the strict
bound. -/
theorem nearestEven_eq_of_abs_sub_lt {x : ℚ} {n : ℤ} (h : |x - n| < 1 / 2) : nearestEven x = n := by
  by_contra hne
  have hint : 1 ≤ |nearestEven x - n| := Int.one_le_abs (sub_ne_zero.mpr hne)
  have hapart : (1 : ℚ) ≤ |(nearestEven x : ℚ) - n| := by exact_mod_cast hint
  have hdetour := abs_sub_le (nearestEven x : ℚ) x n
  have hhalf := abs_nearestEven_sub_le x
  linarith

/-- **Oddness** of the nearest integer: a tie is resolved to the opposite even number for `-x`. -/
theorem nearestEven_neg (x : ℚ) : nearestEven (-x) = -nearestEven x := by
  by_cases hint : Int.fract x = 0
  · have hx : x = ⌊x⌋ := by
      have hsplit := Int.floor_add_fract x
      rw [hint, add_zero] at hsplit
      exact hsplit.symm
    rw [hx, ← Int.cast_neg, nearestEven_intCast, nearestEven_intCast]
  · have hfract : Int.fract (-x) = 1 - Int.fract x := Int.fract_neg hint
    have hfloor : ⌊-x⌋ = -⌊x⌋ - 1 := by
      rw [Int.fract, Int.fract] at hfract
      have hcast : (⌊-x⌋ : ℚ) = (-⌊x⌋ - 1 : ℤ) := by
        push_cast
        linarith
      exact_mod_cast hcast
    rw [nearestEven, nearestEven, hfract, hfloor]
    rcases lt_trichotomy (Int.fract x) (1 / 2) with hbelow | htie | habove
    · rw [if_neg (by linarith), if_pos (by linarith), if_pos hbelow]
      ring
    · -- the floors on both sides of a tie have different parities
      have hparity : Even (-⌊x⌋ - 1) ↔ ¬Even ⌊x⌋ := by rw [Int.even_sub_one, even_neg]
      rw [htie, if_neg (by norm_num), if_neg (by norm_num), if_neg (lt_irrefl _),
        if_neg (lt_irrefl _)]
      by_cases heven : Even ⌊x⌋
      · rw [if_neg (by rwa [hparity, not_not]), if_pos heven]
        ring
      · rw [if_pos (hparity.mpr heven), if_neg heven]
        ring
    · rw [if_pos (by linarith), if_neg (by linarith), if_pos habove]
      ring

/-! ## Formats -/

/-- A binary format: the digits of its numbers, and the least exponent of the last one. There is no
greatest exponent. -/
structure Format where
  /-- The number of digits of a significand. -/
  precision : ℕ
  /-- The least exponent of the last digit, that of the smallest numbers. -/
  minExp : ℤ
  /-- There is a digit. -/
  precision_pos : 0 < precision

namespace Format

variable (f : Format)

/-- The **numbers of the format**: their digits `m`, and the exponent `e` of the last one, which is
not below `minExp`. -/
def Representable (x : ℚ) : Prop :=
  ∃ m e : ℤ, |m| < 2 ^ f.precision ∧ f.minExp ≤ e ∧ x = m * 2 ^ e

/-- The exponent of the last digit of a result: that of a number with all digits of the format, or
`minExp` for a small one. -/
def lastExp (x : ℚ) : ℤ := max f.minExp (Int.log 2 |x| + 1 - f.precision)

/-- The **rounding** of an exact result to the nearest number of the format, with ties to the even
digit. -/
def round (x : ℚ) : ℚ := nearestEven (x / 2 ^ f.lastExp x) * 2 ^ f.lastExp x

variable {f}

/-! ## The last digit -/

/-- The weight of a digit is positive, whatever the sign of its exponent: `0 < 2 ^ e`. -/
theorem two_zpow_pos (e : ℤ) : (0 : ℚ) < 2 ^ e := zpow_pos two_pos e

/-- A result has at most the digits of the format before its last one: `|x| < 2 ^ (precision +
lastExp x)`. -/
theorem abs_lt_of_lastExp (x : ℚ) : |x| < 2 ^ (f.precision + f.lastExp x) := by
  have hle : Int.log 2 |x| + 1 ≤ f.precision + f.lastExp x := by
    have := le_max_right f.minExp (Int.log 2 |x| + 1 - f.precision)
    rw [lastExp]
    omega
  calc |x| < 2 ^ (Int.log 2 |x| + 1) := Int.lt_zpow_succ_log_self one_lt_two |x|
    _ ≤ 2 ^ (f.precision + f.lastExp x) := zpow_le_zpow_right₀ one_le_two hle

/-- A result whose last digit is above the least one has all digits of the format; the digits run
out below `minExp` only. -/
theorem le_abs_of_lastExp {x : ℚ} (hx : x ≠ 0) (hlast : f.minExp < f.lastExp x) :
    2 ^ (f.precision + f.lastExp x - 1) ≤ |x| := by
  have heq : f.precision + f.lastExp x - 1 = Int.log 2 |x| := by
    rw [lastExp] at hlast ⊢
    omega
  rw [heq]
  exact Int.zpow_log_le_self one_lt_two (abs_pos.mpr hx)

/-! ## The numbers of the format -/

/-- The digits and the last exponent bound a number of the format. -/
theorem abs_lt_of_digits {m e : ℤ} (hm : |m| < 2 ^ f.precision) :
    |(m : ℚ) * 2 ^ e| < 2 ^ (f.precision + e) := by
  have hcast : |(m : ℚ)| < 2 ^ f.precision := by exact_mod_cast hm
  rw [abs_mul, abs_of_pos (two_zpow_pos e), zpow_add₀ two_ne_zero, zpow_natCast]
  exact mul_lt_mul_of_pos_right hcast (two_zpow_pos e)

/-- Digits up to the bound `2 ^ precision` itself give a number of the format: the bound has one
digit, and a larger exponent. -/
theorem representable_of_abs_le {m e : ℤ} (hm : |m| ≤ 2 ^ f.precision) (he : f.minExp ≤ e) :
    f.Representable (m * 2 ^ e) := by
  obtain hlt | heq := hm.lt_or_eq
  · exact ⟨m, e, hlt, he, rfl⟩
  · -- carry to the next exponent
    obtain ⟨p, hp⟩ := Nat.exists_eq_add_of_lt f.precision_pos
    rw [zero_add] at hp
    have hcarry (s : ℤ) (hs : |s| = 1) : f.Representable (s * 2 ^ f.precision * 2 ^ e) := by
      refine ⟨s * 2 ^ p, e + 1, ?_, by omega, ?_⟩
      · rw [abs_mul, hs, one_mul, abs_of_pos (pow_pos two_pos p), hp]
        exact pow_lt_pow_right₀ one_lt_two (Nat.lt_succ_self p)
      · rw [hp, zpow_add₀ two_ne_zero, zpow_one]
        push_cast
        ring
    rcases eq_or_eq_neg_of_abs_eq heq with hpos | hneg
    · have h := hcarry 1 rfl
      rw [Int.cast_one, one_mul] at h
      rw [hpos]
      exact_mod_cast h
    · have h := hcarry (-1) rfl
      rw [Int.cast_neg, Int.cast_one, neg_one_mul] at h
      rw [hneg]
      exact_mod_cast h

/-- The opposite of a number of the format is one: its digits change their sign. -/
theorem Representable.neg {x : ℚ} (hx : f.Representable x) : f.Representable (-x) := by
  obtain ⟨m, e, hm, he, rfl⟩ := hx
  exact ⟨-m, e, by rwa [abs_neg], he, by push_cast; ring⟩

/-- Zero is a number of the format: its significand is zero, with any exponent. -/
theorem representable_zero : f.Representable 0 :=
  ⟨0, f.minExp, by rw [abs_zero]; exact pow_pos two_pos _, le_rfl, by rw [Int.cast_zero, zero_mul]⟩

/-- The integers up to `2 ^ precision` are numbers of the format, when the format has the digit of
weight one. -/
theorem representable_intCast (hexp : f.minExp ≤ 0) {n : ℤ} (hn : |n| ≤ 2 ^ f.precision) :
    f.Representable n := by
  have h := representable_of_abs_le hn hexp
  rwa [zpow_zero, mul_one] at h

/-- A power of two that is not below the least digit is a number of the format: it has one digit. -/
theorem representable_zpow {e : ℤ} (he : f.minExp ≤ e) : f.Representable (2 ^ e) := by
  have h := representable_of_abs_le (f := f) (m := 1) (one_le_pow₀ one_le_two) he
  rwa [Int.cast_one, one_mul] at h

/-- Every number of the format is a multiple of the least digit `2 ^ minExp`. -/
theorem Representable.exists_eq_mul {x : ℚ} (hx : f.Representable x) :
    ∃ n : ℤ, x = n * 2 ^ f.minExp := by
  obtain ⟨m, e, -, he, rfl⟩ := hx
  obtain ⟨k, rfl⟩ := Int.le.dest he
  refine ⟨m * 2 ^ k, ?_⟩
  rw [zpow_add₀ two_ne_zero, zpow_natCast]
  push_cast
  ring

/-! ## The nearest number -/

/-- **The rounded result** is a number of the format. Its digits may reach the bound, which
`representable_of_abs_le` allows. -/
theorem representable_round (x : ℚ) : f.Representable (f.round x) := by
  refine representable_of_abs_le ?_ (le_max_left _ _)
  have hpos := two_zpow_pos (f.lastExp x)
  -- the digits before rounding are below the bound, and the bound is an integer
  have hdigits : |x / 2 ^ f.lastExp x| < 2 ^ f.precision := by
    rw [abs_div, abs_of_pos hpos, div_lt_iff₀ hpos, ← zpow_natCast, ← zpow_add₀ two_ne_zero]
    exact abs_lt_of_lastExp x
  have hround := abs_nearestEven_sub_le (x / 2 ^ f.lastExp x)
  have hsum := abs_add_le ((nearestEven (x / 2 ^ f.lastExp x) : ℚ) - x / 2 ^ f.lastExp x)
    (x / 2 ^ f.lastExp x)
  rw [sub_add_cancel] at hsum
  have hlt : ((|nearestEven (x / 2 ^ f.lastExp x)| : ℤ) : ℚ) < (2 ^ f.precision + 1 : ℤ) := by
    push_cast
    linarith
  exact Int.lt_add_one_iff.mp (by exact_mod_cast hlt)

/-- Zero stays: `f.round 0 = 0`, since it is a number of the format. -/
theorem round_zero : f.round 0 = 0 := by
  rw [round, zero_div, ← Int.cast_zero (R := ℚ), nearestEven_intCast, Int.cast_zero, zero_mul]

/-- **Oddness** of the rounding: `f.round (-x) = -f.round x`. -/
theorem round_neg (x : ℚ) : f.round (-x) = -f.round x := by
  have hlast : f.lastExp (-x) = f.lastExp x := by rw [lastExp, lastExp, abs_neg]
  rw [round, round, hlast, neg_div, nearestEven_neg, Int.cast_neg, neg_mul]

/-- No multiple of the last digit of the result is nearer to it than the rounded result. -/
theorem abs_round_sub_le_of_multiple (x : ℚ) (k : ℤ) :
    |f.round x - x| ≤ |k * 2 ^ f.lastExp x - x| := by
  have hpos := two_zpow_pos (f.lastExp x)
  have hscale (d : ℚ) : |d * 2 ^ f.lastExp x - x| = |d - x / 2 ^ f.lastExp x| * 2 ^ f.lastExp x := by
    rw [← abs_of_pos hpos, ← abs_mul, abs_of_pos hpos, sub_mul, div_mul_cancel₀ _ hpos.ne']
  rw [round, hscale, hscale]
  exact mul_le_mul_of_nonneg_right (abs_nearestEven_sub_le_abs_sub _ k) hpos.le

/-- No result is rounded away from a bound that has all digits of the format and the last digit of
the result. -/
theorem abs_round_sub_le_of_bound (x : ℚ) (hbound : 2 ^ (f.precision + f.lastExp x - 1) ≤ |x|) :
    |f.round x - x| ≤ |x| - 2 ^ (f.precision + f.lastExp x - 1) := by
  -- the bound is a multiple of the last digit
  obtain ⟨k, hk⟩ : ∃ k : ℤ, (2 : ℚ) ^ (f.precision + f.lastExp x - 1) = k * 2 ^ f.lastExp x := by
    obtain ⟨p, hp⟩ := Nat.exists_eq_add_of_lt f.precision_pos
    refine ⟨2 ^ p, ?_⟩
    rw [show (f.precision : ℤ) + f.lastExp x - 1 = p + f.lastExp x by omega,
      zpow_add₀ two_ne_zero, zpow_natCast]
    push_cast
    rfl
  rw [hk] at hbound ⊢
  obtain ⟨hx, -⟩ | ⟨hx, -⟩ := abs_cases x
  · have h := abs_round_sub_le_of_multiple (f := f) x k
    rw [hx] at hbound ⊢
    rwa [abs_sub_comm (k * _ : ℚ), abs_of_nonneg (sub_nonneg.mpr hbound)] at h
  · have h := abs_round_sub_le_of_multiple (f := f) x (-k)
    rw [hx] at hbound ⊢
    rwa [Int.cast_neg, neg_mul, neg_sub_comm, abs_of_nonneg (sub_nonneg.mpr hbound)] at h

/-- **The nearest number**: no number `r` of the format is nearer to `x` than `f.round x`, also none
with a smaller exponent. -/
theorem abs_round_sub_le_abs_sub (x : ℚ) {r : ℚ} (hr : f.Representable r) :
    |f.round x - x| ≤ |r - x| := by
  obtain ⟨m, e, hm, he, rfl⟩ := hr
  by_cases hlast : f.lastExp x ≤ e
  · -- the number is a multiple of the last digit
    obtain ⟨k, rfl⟩ := Int.le.dest hlast
    have h := abs_round_sub_le_of_multiple (f := f) x (m * 2 ^ k)
    rwa [show ((m * 2 ^ k : ℤ) : ℚ) * 2 ^ f.lastExp x = m * 2 ^ (f.lastExp x + k) by
      rw [zpow_add₀ two_ne_zero, zpow_natCast]; push_cast; ring] at h
  · -- the number has digits below the last one, and so is smaller than all results with that one
    by_cases hx : x = 0
    · rw [hx, round_zero, sub_self, abs_zero]
      exact abs_nonneg _
    · have hbound := le_abs_of_lastExp hx (he.trans_lt (not_le.mp hlast))
      have hr : |(m : ℚ) * 2 ^ e| ≤ 2 ^ (f.precision + f.lastExp x - 1) :=
        (abs_lt_of_digits hm).le.trans (zpow_le_zpow_right₀ one_le_two (by omega))
      have hdetour := abs_sub_abs_le_abs_sub x (m * 2 ^ e)
      rw [abs_sub_comm] at hdetour
      have hnearest := abs_round_sub_le_of_bound x hbound
      linarith

/-- **Numbers of the format stay**: `f.round x = x`, so that rounding twice is rounding once. -/
theorem round_of_representable {x : ℚ} (hx : f.Representable x) : f.round x = x := by
  have h := abs_round_sub_le_abs_sub x hx
  rw [sub_self, abs_zero] at h
  exact sub_eq_zero.mp (abs_eq_zero.mp (le_antisymm h (abs_nonneg _)))

/-- **Monotonicity** of the rounding: a larger exact result has no smaller rounded one, also where
the exponent changes. -/
theorem round_mono : Monotone f.round := by
  intro x y hxy
  by_contra hlt
  have hx := abs_round_sub_le_abs_sub x (representable_round (f := f) y)
  have hy := abs_round_sub_le_abs_sub y (representable_round (f := f) x)
  -- both results would be exactly between the two numbers
  have hxmid : f.round x + f.round y ≤ 2 * x := by
    by_contra h
    rw [abs_of_nonneg (by linarith)] at hx
    obtain hc | hc := abs_cases (f.round y - x)
    all_goals linarith
  have hymid : 2 * y ≤ f.round x + f.round y := by
    by_contra h
    rw [abs_of_nonpos (by linarith)] at hy
    obtain hc | hc := abs_cases (f.round x - y)
    all_goals linarith
  have heq : x = y := by linarith
  exact hlt (by rw [heq])

/-! ## Bounds -/

/-- A number of the format that bounds the exact result from below bounds the rounded one: `r ≤ x →
r ≤ f.round x`. -/
theorem le_round {r x : ℚ} (hr : f.Representable r) (hle : r ≤ x) : r ≤ f.round x := by
  rw [← round_of_representable hr]
  exact round_mono hle

/-- A number of the format that bounds the exact result from above bounds the rounded one: `x ≤ r →
f.round x ≤ r`. -/
theorem round_le {r x : ℚ} (hr : f.Representable r) (hle : x ≤ r) : f.round x ≤ r := by
  rw [← round_of_representable hr]
  exact round_mono hle

/-- A number of the format that bounds the exact result on both sides bounds the rounded one on both
sides. -/
theorem abs_round_le {r x : ℚ} (hr : f.Representable r) (hle : |x| ≤ r) : |f.round x| ≤ r := by
  obtain ⟨hlow, hhigh⟩ := abs_le.mp hle
  exact abs_le.mpr ⟨le_round hr.neg hlow, round_le hr hhigh⟩

/-- A rounded result is at most a half of its last digit away from the exact one. -/
theorem abs_round_sub_le (x : ℚ) : |f.round x - x| ≤ 2 ^ f.lastExp x / 2 := by
  have hpos := two_zpow_pos (f.lastExp x)
  have hscale : f.round x - x
      = (nearestEven (x / 2 ^ f.lastExp x) - x / 2 ^ f.lastExp x) * 2 ^ f.lastExp x := by
    rw [round, sub_mul, div_mul_cancel₀ _ hpos.ne']
  rw [hscale, abs_mul, abs_of_pos hpos]
  calc |(nearestEven (x / 2 ^ f.lastExp x) : ℚ) - x / 2 ^ f.lastExp x| * 2 ^ f.lastExp x
      ≤ 1 / 2 * 2 ^ f.lastExp x :=
        mul_le_mul_of_nonneg_right (abs_nearestEven_sub_le _) hpos.le
    _ = 2 ^ f.lastExp x / 2 := by ring

/-- **The relative error** of a result that is not below the normal numbers is at most `1 / 2 ^
precision`. -/
theorem abs_round_sub_le_mul {x : ℚ} (hx : 2 ^ (f.minExp + f.precision - 1) ≤ |x|) :
    |f.round x - x| ≤ |x| / 2 ^ f.precision := by
  have hne : 0 < |x| := (two_zpow_pos _).trans_le hx
  have hlog : f.minExp + f.precision - 1 ≤ Int.log 2 |x| :=
    (Int.zpow_le_iff_le_log one_lt_two hne).mp hx
  have hlast : f.lastExp x = Int.log 2 |x| + 1 - f.precision := by
    rw [lastExp, max_eq_right]
    omega
  have hself : (2 : ℚ) ^ Int.log 2 |x| ≤ |x| := Int.zpow_log_le_self one_lt_two hne
  calc |f.round x - x| ≤ 2 ^ f.lastExp x / 2 := abs_round_sub_le x
    _ = 2 ^ Int.log 2 |x| / 2 ^ f.precision := by
      rw [hlast, zpow_sub₀ two_ne_zero, zpow_add₀ two_ne_zero, zpow_one, zpow_natCast]
      ring
    _ ≤ |x| / 2 ^ f.precision := div_le_div_of_nonneg_right hself (pow_pos two_pos _).le

/-- Relative errors `p` and `q` that follow each other make a relative error of `p + q + p * q`. -/
theorem abs_sub_le_mul_trans {a b c p q : ℚ} (hq : 0 ≤ q) (hab : |b - a| ≤ |a| * p)
    (hbc : |c - b| ≤ |b| * q) : |c - a| ≤ |a| * (p + q + p * q) := by
  have hdetour := abs_sub_le c b a
  have hb : |b| ≤ |a| + |a| * p := by
    have := abs_add_le (b - a) a
    rw [sub_add_cancel] at this
    linarith
  have hbq := mul_le_mul_of_nonneg_right hb hq
  linarith

/-! ## Sums and differences -/

/-- The sum of two numbers of the format is a multiple of the least digit, so that small sums are
exact. -/
theorem Representable.exists_add_eq_mul {a b : ℚ} (ha : f.Representable a)
    (hb : f.Representable b) : ∃ n : ℤ, a + b = n * 2 ^ f.minExp := by
  obtain ⟨m, rfl⟩ := ha.exists_eq_mul
  obtain ⟨n, rfl⟩ := hb.exists_eq_mul
  exact ⟨m + n, by push_cast; ring⟩

/-- **The relative error of a sum** of numbers of the format: a sum below the normal numbers is
exact. -/
theorem abs_round_add_sub_le {a b : ℚ} (ha : f.Representable a) (hb : f.Representable b) :
    |f.round (a + b) - (a + b)| ≤ |a + b| / 2 ^ f.precision := by
  obtain ⟨n, hn⟩ := ha.exists_add_eq_mul hb
  rw [hn]
  by_cases hsmall : |n| ≤ 2 ^ f.precision
  · rw [round_of_representable (representable_of_abs_le hsmall le_rfl), sub_self, abs_zero]
    exact div_nonneg (abs_nonneg _) (pow_pos two_pos _).le
  · apply abs_round_sub_le_mul
    have hdigits : (2 : ℚ) ^ f.precision ≤ |(n : ℚ)| := by exact_mod_cast (not_le.mp hsmall).le
    rw [abs_mul, abs_of_pos (two_zpow_pos f.minExp)]
    calc (2 : ℚ) ^ (f.minExp + f.precision - 1) ≤ 2 ^ (f.precision + f.minExp) :=
          zpow_le_zpow_right₀ one_le_two (by omega)
      _ = 2 ^ f.precision * 2 ^ f.minExp := by rw [zpow_add₀ two_ne_zero, zpow_natCast]
      _ ≤ |(n : ℚ)| * 2 ^ f.minExp :=
          mul_le_mul_of_nonneg_right hdigits (two_zpow_pos f.minExp).le

/-- The relative error of a difference of numbers of the format is at most `1 / 2 ^ precision`,
however small the difference is. -/
theorem abs_round_sub_sub_le {a b : ℚ} (ha : f.Representable a) (hb : f.Representable b) :
    |f.round (a - b) - (a - b)| ≤ |a - b| / 2 ^ f.precision := by
  have h := abs_round_add_sub_le ha hb.neg
  rwa [← sub_eq_add_neg] at h

/-- The error of a half of a number of the format is at most a half of the least digit: halving
loses the last digit of a small number only. -/
theorem abs_round_half_sub_le {a : ℚ} (ha : f.Representable a) :
    |f.round (a / 2) - a / 2| ≤ 2 ^ f.minExp / 2 := by
  obtain ⟨m, e, hm, he, rfl⟩ := ha
  have hpos := two_zpow_pos f.minExp
  obtain hlt | rfl := he.lt_or_eq
  · have hexact : f.Representable (m * 2 ^ e / 2) := by
      refine ⟨m, e - 1, hm, by omega, ?_⟩
      rw [zpow_sub₀ two_ne_zero, zpow_one, mul_div_assoc]
    rw [round_of_representable hexact, sub_self, abs_zero]
    exact (half_pos hpos).le
  · -- the digits without the last one are near enough
    have hdigits : |m / 2| ≤ 2 ^ f.precision := by
      obtain ⟨hlow, hhigh⟩ := abs_lt.mp hm
      exact abs_le.mpr ⟨by omega, by omega⟩
    have hhalf : f.Representable ((m / 2 : ℤ) * 2 ^ f.minExp) :=
      representable_of_abs_le hdigits le_rfl
    refine (abs_round_sub_le_abs_sub _ hhalf).trans ?_
    have hparity : |((2 * (m / 2) - m : ℤ) : ℚ)| ≤ 1 := by
      have hint : |2 * (m / 2) - m| ≤ 1 := abs_le.mpr ⟨by omega, by omega⟩
      exact_mod_cast hint
    have hsplit : ((m / 2 : ℤ) : ℚ) * 2 ^ f.minExp - m * 2 ^ f.minExp / 2
        = (2 * (m / 2) - m : ℤ) * (2 ^ f.minExp / 2) := by
      push_cast
      ring
    rw [hsplit, abs_mul, abs_of_pos (half_pos hpos)]
    exact mul_le_of_le_one_left (half_pos hpos).le hparity

/-- A rounded difference of numbers of the format is positive when the exact one is: it is not
below the least digit. -/
theorem round_sub_pos {a b : ℚ} (ha : f.Representable a) (hb : f.Representable b) (hlt : b < a) :
    0 < f.round (a - b) := by
  obtain ⟨m, rfl⟩ := ha.exists_eq_mul
  obtain ⟨n, rfl⟩ := hb.exists_eq_mul
  have hpos := two_zpow_pos f.minExp
  have hmn : n < m := by exact_mod_cast lt_of_mul_lt_mul_right hlt hpos.le
  have hone : (1 : ℚ) ≤ m - n := by
    have : n + 1 ≤ m := hmn
    have hcast : ((n + 1 : ℤ) : ℚ) ≤ m := by exact_mod_cast this
    push_cast at hcast
    linarith
  refine hpos.trans_le (le_round (representable_zpow le_rfl) ?_)
  rw [← sub_mul]
  exact le_mul_of_one_le_left hpos.le hone

/-- **A rounded difference** of numbers of the format is negative exactly when the exact one is: it
is never rounded to zero. -/
theorem round_sub_neg_iff {a b : ℚ} (ha : f.Representable a) (hb : f.Representable b) :
    f.round (a - b) < 0 ↔ a < b := by
  constructor
  · intro hneg
    by_contra hle
    exact absurd (le_round representable_zero (sub_nonneg.mpr (not_lt.mp hle))) (not_le.mpr hneg)
  · intro hlt
    have hpos := round_sub_pos hb ha hlt
    rw [← neg_sub a b, round_neg] at hpos
    exact neg_pos.mp hpos

/-- A rounded difference of numbers of the format is positive exactly when the exact one is. -/
theorem round_sub_pos_iff {a b : ℚ} (ha : f.Representable a) (hb : f.Representable b) :
    0 < f.round (a - b) ↔ b < a := by
  rw [← round_sub_neg_iff hb ha, ← neg_sub a b, round_neg, neg_lt_zero]

end Format

end IecCore
