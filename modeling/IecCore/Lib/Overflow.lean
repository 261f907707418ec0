import IecCore.Lib.Rounding
import Mathlib.Order.WithBot

/-! # Results that overflow

The exponents of a machine format end: a result whose rounded value is beyond the largest number of
the format is an infinity. This file puts the infinities around the rounding of `Format`, whose
exponents do not end, and has the operations with one operand that may be infinite. No operation
here has two infinite operands or a factor zero, and so none of them is undefined.

* **`Extended`** — the rational numbers and the two infinities, in their order.
* **`Format.result`** — the rounded result, or an infinity when it is beyond `largest`.
* **`Format.sub`**, **`Format.mul`**, **`Format.div`** — the operations with an extended operand.
* **`Format.sub_neg_iff`** — `f.sub largest x y < 0 ↔ x < y`, the infinities included: neither
  rounding nor overflow changes the sign of a difference.
* **`Format.result_of_abs_le`** — without overflow, the result is the rounded one. -/

namespace IecCore

/-- The **extended numbers**: the rational numbers between `⊥` and `⊤`, the two infinities. -/
abbrev Extended := WithBot (WithTop ℚ)

namespace Extended

/-- `ofRat x` is the rational number `x` as an extended one: neither `⊥` nor `⊤`. -/
def ofRat (x : ℚ) : Extended := ((x : WithTop ℚ) : WithBot (WithTop ℚ))

/-- `ofRat x < ofRat y ↔ x < y`: the embedding keeps and reflects the order. -/
@[simp] theorem ofRat_lt_ofRat {x y : ℚ} : ofRat x < ofRat y ↔ x < y := by
  rw [ofRat, ofRat, WithBot.coe_lt_coe, WithTop.coe_lt_coe]

/-- `ofRat x < ⊤`: a rational number is below the positive infinity. -/
@[simp] theorem ofRat_lt_top (x : ℚ) : ofRat x < ⊤ :=
  WithBot.coe_lt_coe.mpr (WithTop.coe_lt_top x)

/-- `⊥ < ofRat x`: a rational number is above the negative infinity. -/
@[simp] theorem bot_lt_ofRat (x : ℚ) : ⊥ < ofRat x := WithBot.bot_lt_coe _

/-- **Injectivity** of the embedding: `ofRat x = ofRat y ↔ x = y`, as both layers of the type keep
it. -/
@[simp] theorem ofRat_inj {x y : ℚ} : ofRat x = ofRat y ↔ x = y := by
  rw [ofRat, ofRat, WithBot.coe_inj, WithTop.coe_inj]

/-- An extended number is one of the infinities or a rational number. -/
theorem eq_infinite_or_ofRat (y : Extended) : y = ⊥ ∨ y = ⊤ ∨ ∃ x, y = ofRat x :=
  match y with
  | ⊥ => .inl rfl
  | (⊤ : WithTop ℚ) => .inr (.inl rfl)
  | (x : ℚ) => .inr (.inr ⟨x, rfl⟩)

/-- `y.elim atBot atTop g` is `g x` when `y` is the rational number `x`; at the infinities it has the
two values given for them. -/
def elim {β : Type*} (y : Extended) (atBot atTop : β) (g : ℚ → β) : β :=
  match y with
  | ⊥ => atBot
  | (⊤ : WithTop ℚ) => atTop
  | (x : ℚ) => g x

@[simp] theorem elim_bot {β : Type*} (atBot atTop : β) (g : ℚ → β) :
    elim ⊥ atBot atTop g = atBot := rfl

@[simp] theorem elim_top {β : Type*} (atBot atTop : β) (g : ℚ → β) :
    elim ⊤ atBot atTop g = atTop := rfl

@[simp] theorem elim_ofRat {β : Type*} (x : ℚ) (atBot atTop : β) (g : ℚ → β) :
    elim (ofRat x) atBot atTop g = g x := rfl

end Extended

namespace Format

open Extended

variable (f : Format) (largest : ℚ)

/-! ## The operations -/

/-- The **result** of an operation whose exact value is `x`: the rounded value, or the infinity of
its sign when that is beyond the largest number of the format. -/
def result (x : ℚ) : Extended :=
  if largest < f.round x then ⊤
  else if f.round x < -largest then ⊥
  else ofRat (f.round x)

/-- The difference `x - y` of a number and an extended one: an infinite `y` gives the other
infinity. -/
def sub (x : ℚ) (y : Extended) : Extended := y.elim ⊤ ⊥ fun y => f.result largest (x - y)

/-- The product `x * c` of an extended number and one that is not zero. -/
def mul (x : Extended) (c : ℚ) : Extended :=
  x.elim (if 0 < c then ⊥ else ⊤) (if 0 < c then ⊤ else ⊥) fun x => f.result largest (x * c)

/-- The quotient `x / c` of an extended number and a positive one. -/
def div (x : Extended) (c : ℚ) : Extended := x.elim ⊥ ⊤ fun x => f.result largest (x / c)

variable {f largest}

/-! ## The sign of a result -/

/-- `f.result largest x < 0 ↔ f.round x < 0`: an infinity has the sign of the value that is rounded
to it. -/
theorem result_neg_iff (hlargest : 0 ≤ largest) {x : ℚ} :
    f.result largest x < ofRat 0 ↔ f.round x < 0 := by
  rw [result]
  split_ifs with habove hbelow
  · exact iff_of_false (not_lt_of_gt (ofRat_lt_top 0)) (by linarith)
  · exact iff_of_true (bot_lt_ofRat 0) (by linarith)
  · exact ofRat_lt_ofRat

/-- **Sign** of a result: `0 < f.result largest x ↔ 0 < f.round x`, also where the result
overflows. -/
theorem result_pos_iff (hlargest : 0 ≤ largest) {x : ℚ} :
    ofRat 0 < f.result largest x ↔ 0 < f.round x := by
  rw [result]
  split_ifs with habove hbelow
  · exact iff_of_true (ofRat_lt_top 0) (by linarith)
  · exact iff_of_false (not_lt_of_gt (bot_lt_ofRat 0)) (by linarith)
  · exact ofRat_lt_ofRat

/-- **The sign of a difference**: `f.sub largest x y < 0 ↔ x < y` for a number `x` of the format and
an extended number `y` that is such a number or an infinity. -/
theorem sub_neg_iff (hlargest : 0 ≤ largest) {x : ℚ} (hx : f.Representable x) {y : Extended}
    (hy : ∀ r, y = ofRat r → f.Representable r) :
    f.sub largest x y < ofRat 0 ↔ ofRat x < y := by
  obtain rfl | rfl | ⟨r, rfl⟩ := eq_infinite_or_ofRat y
  · exact iff_of_false (not_lt_of_gt (ofRat_lt_top 0)) (not_lt_of_gt (bot_lt_ofRat x))
  · exact iff_of_true (bot_lt_ofRat 0) (ofRat_lt_top x)
  · rw [sub, elim_ofRat, result_neg_iff hlargest, round_sub_neg_iff hx (hy r rfl), ofRat_lt_ofRat]

/-- **Sign** of a difference: `0 < f.sub largest x y ↔ y < x`, for numbers of the format and for the
infinities. A difference of two different numbers of the format never rounds to zero. -/
theorem sub_pos_iff (hlargest : 0 ≤ largest) {x : ℚ} (hx : f.Representable x) {y : Extended}
    (hy : ∀ r, y = ofRat r → f.Representable r) :
    ofRat 0 < f.sub largest x y ↔ y < ofRat x := by
  obtain rfl | rfl | ⟨r, rfl⟩ := eq_infinite_or_ofRat y
  · exact iff_of_true (ofRat_lt_top 0) (bot_lt_ofRat x)
  · exact iff_of_false (not_lt_of_gt (bot_lt_ofRat 0)) (not_lt_of_gt (ofRat_lt_top x))
  · rw [sub, elim_ofRat, result_pos_iff hlargest, round_sub_pos_iff hx (hy r rfl), ofRat_lt_ofRat]

/-- A result that is not infinite is a number of the format: it is `f.round x` for some `x`. -/
theorem representable_of_result_eq {x r : ℚ} (h : f.result largest x = ofRat r) :
    f.Representable r := by
  rw [result] at h
  split_ifs at h with habove hbelow
  · exact absurd h.symm (ofRat_lt_top r).ne
  · exact absurd h (bot_lt_ofRat r).ne
  · rw [← ofRat_inj.mp h]
    exact representable_round x

/-- A difference that is not infinite is a number of the format. -/
theorem representable_of_sub_eq {x r : ℚ} {y : Extended} (h : f.sub largest x y = ofRat r) :
    f.Representable r := by
  obtain rfl | rfl | ⟨y, rfl⟩ := eq_infinite_or_ofRat y
  · exact absurd h.symm (ofRat_lt_top r).ne
  · exact absurd h (bot_lt_ofRat r).ne
  · exact representable_of_result_eq h

/-- A quotient that is not infinite is a number of the format, being the result of a division. -/
theorem representable_of_div_eq {c r : ℚ} {x : Extended} (h : f.div largest x c = ofRat r) :
    f.Representable r := by
  obtain rfl | rfl | ⟨x, rfl⟩ := eq_infinite_or_ofRat x
  · exact absurd h (bot_lt_ofRat r).ne
  · exact absurd h.symm (ofRat_lt_top r).ne
  · exact representable_of_result_eq h

/-- Multiplying a result of the format by one does not change its sign. -/
theorem mul_one_neg_iff (hlargest : 0 ≤ largest) {x : Extended}
    (hx : ∀ r, x = ofRat r → f.Representable r) :
    f.mul largest x 1 < ofRat 0 ↔ x < ofRat 0 := by
  obtain rfl | rfl | ⟨r, rfl⟩ := eq_infinite_or_ofRat x
  · exact iff_of_true (bot_lt_ofRat 0) (bot_lt_ofRat 0)
  · exact iff_of_false (not_lt_of_gt (ofRat_lt_top 0)) (not_lt_of_gt (ofRat_lt_top 0))
  · rw [mul, elim_ofRat, result_neg_iff hlargest, mul_one, round_of_representable (hx r rfl),
      ofRat_lt_ofRat]

/-- Multiplying a result of the format by minus one turns its sign around. -/
theorem mul_neg_one_neg_iff (hlargest : 0 ≤ largest) {x : Extended}
    (hx : ∀ r, x = ofRat r → f.Representable r) :
    f.mul largest x (-1) < ofRat 0 ↔ ofRat 0 < x := by
  have hnot : ¬(0 : ℚ) < -1 := by norm_num
  obtain rfl | rfl | ⟨r, rfl⟩ := eq_infinite_or_ofRat x
  · rw [mul, elim_bot, if_neg hnot]
    exact iff_of_false (not_lt_of_gt (ofRat_lt_top 0)) (not_lt_of_gt (bot_lt_ofRat 0))
  · rw [mul, elim_top, if_neg hnot]
    exact iff_of_true (bot_lt_ofRat 0) (ofRat_lt_top 0)
  · rw [mul, elim_ofRat, result_neg_iff hlargest, mul_neg_one, round_neg,
      round_of_representable (hx r rfl), neg_lt_zero, ofRat_lt_ofRat]

/-! ## Without overflow -/

/-- **Without overflow** the result is the rounded one: `f.result largest x = ofRat (f.round x)`
when `|f.round x| ≤ largest`. -/
theorem result_of_abs_le {x : ℚ} (h : |f.round x| ≤ largest) :
    f.result largest x = ofRat (f.round x) := by
  obtain ⟨hlow, hhigh⟩ := abs_le.mp h
  rw [result, if_neg hhigh.not_gt, if_neg hlow.not_gt]

end Format

end IecCore
