import Mathlib.Data.Nat.Find
import Mathlib.Logic.Function.Basic

/-! # Tables of descriptors

A process names its open resources by small numbers. A new one gets the lowest number that is free,
and closing a number frees it. The table is a function that is defined for finitely many numbers, so
that there always is a lowest free one; the limit that a system has for them is left to its calls.

* **`Descriptors`** — a table, with finitely many numbers in use.
* **`lowest`** — the number that is given next.
* **`put`**, **`erase`** — the table with a resource under a number, and without it.
* **`erase_put`** — opening and closing leaves the table as it was: `(t.put n x).erase n = t` for a
  number that was free. -/

namespace IecCore

/-- A **table of descriptors**: what is open under each number, with a bound above which every
number is free. -/
structure Descriptors (α : Type) where
  /-- What is open under a number, none when the number is free. -/
  entry : Nat → Option α
  /-- Only finitely many numbers are in use. -/
  bounded : ∃ bound, ∀ n, bound ≤ n → entry n = none

namespace Descriptors

variable {α : Type} {t : Descriptors α} {n m : Nat} {x y : α}

@[ext] theorem ext {t u : Descriptors α} (h : ∀ n, t.entry n = u.entry n) : t = u := by
  cases t
  cases u
  congr
  funext n
  exact h n

/-- **Some number is free**: `∃ n, t.entry n = none`, since only finitely many numbers are in
use. -/
theorem exists_free (t : Descriptors α) : ∃ n, t.entry n = none := by
  obtain ⟨bound, hbound⟩ := t.bounded
  exact ⟨bound, hbound bound (le_refl bound)⟩

/-- The **lowest free number**, which a system gives to the next resource that is opened. -/
def lowest (t : Descriptors α) : Nat := Nat.find t.exists_free

/-- The lowest free number is free: `t.entry t.lowest = none`, as the search for it ends there. -/
theorem entry_lowest (t : Descriptors α) : t.entry t.lowest = none := Nat.find_spec t.exists_free

/-- The table with `value` under one number, `none` for nothing; the other numbers are as before. -/
def set (t : Descriptors α) (n : Nat) (value : Option α) : Descriptors α where
  entry := Function.update t.entry n value
  bounded := by
    obtain ⟨bound, hbound⟩ := t.bounded
    refine ⟨max bound (n + 1), fun m hm => ?_⟩
    rw [Function.update_of_ne (by omega), hbound m (by omega)]

/-- The table with a **resource** under a number. What was under that number before is lost. -/
def put (t : Descriptors α) (n : Nat) (x : α) : Descriptors α := t.set n (some x)

/-- The table **without** what is under a number, which is free afterwards. -/
def erase (t : Descriptors α) (n : Nat) : Descriptors α := t.set n none

@[simp] theorem entry_put_self : (t.put n x).entry n = some x := Function.update_self ..

@[simp] theorem entry_put_of_ne (h : m ≠ n) : (t.put n x).entry m = t.entry m :=
  Function.update_of_ne h ..

@[simp] theorem entry_erase_self : (t.erase n).entry n = none := Function.update_self ..

@[simp] theorem entry_erase_of_ne (h : m ≠ n) : (t.erase n).entry m = t.entry m :=
  Function.update_of_ne h ..

/-- `(t.put n x).put n y = t.put n y`: what was under the number first is lost. -/
@[simp] theorem put_put : (t.put n x).put n y = t.put n y :=
  ext fun _ => congrFun (Function.update_idem ..) _

/-- **Opening and closing** leaves the table as it was: `(t.put n x).erase n = t` when `n` was free
in `t`. -/
theorem erase_put (hfree : t.entry n = none) : (t.put n x).erase n = t := by
  refine ext fun m => ?_
  by_cases h : m = n
  · rw [h, entry_erase_self, hfree]
  · rw [entry_erase_of_ne h, entry_put_of_ne h]

/-- Closing a number and opening another one do not interfere, in whichever order they happen. -/
theorem erase_put_of_ne (h : n ≠ m) : (t.put m x).erase n = (t.erase n).put m x :=
  ext fun _ => congrFun (Function.update_comm h.symm ..) _

end Descriptors

end IecCore
