import IecCore.Lib.Hoare
import Mathlib.Algebra.Group.Basic

/-! # Quantities that a program moves

A quantity is read off the state, in any additive group. A step of a program may move it by an
amount; when each step that moves it is followed by one that moves it back, it is conserved.

* **`Moves`** — a program moves a quantity by an amount whenever it returns.
* **`Keeps`** — it is the same after the program.
* **`Keeps.balanced`** — a step and its counterpart, in front of a program that keeps the
  quantity. -/

namespace IecCore

variable {ε σ α β M : Type}

section Moves

variable [AddMonoid M] {f : σ → M} {d e : M}

/-- A program **moves** a quantity by `d`: whenever it returns, `f t = f s + d`. Nothing is said of
the state after an exception. -/
def Moves (f : σ → M) (d : M) (m : EStateM ε σ α) : Prop :=
  ∀ s, wp m (fun _ t => f t = f s + d) (fun _ _ => True) s

/-- A program **keeps** a quantity: it moves it by `0`, whatever it does to the rest of the
state. -/
def Keeps (f : σ → M) (m : EStateM ε σ α) : Prop := Moves f 0 m

/-- A postcondition that follows from `f t = f s` holds after a program that keeps `f`. -/
theorem Keeps.wp_imp {m : EStateM ε σ α} (h : Keeps f m) {Q : α → σ → Prop} {s : σ}
    (hQ : ∀ a t, f t = f s → Q a t) : wp m Q (fun _ _ => True) s := by
  refine (h s).imp fun a t ht => hQ a t ?_
  rw [ht, add_zero]

/-- One program behind another moves the quantity by the sum of the two amounts, `d + e`. -/
theorem Moves.bind {m : EStateM ε σ α} {g : α → EStateM ε σ β} (hm : Moves f d m)
    (hg : ∀ a, Moves f e (g a)) : Moves f (d + e) (m >>= g) := by
  intro s
  rw [wp_bind]
  refine (hm s).imp fun a t ht => (hg a t).imp fun b u hu => ?_
  rw [hu, ht, add_assoc]

/-- A write `g` moves the quantity by `d` when `f (g s) = f s + d` in every state. -/
theorem moves_modify {g : σ → σ} (hg : ∀ s, f (g s) = f s + d) :
    Moves f d (modify g : EStateM ε σ PUnit) := hg

/-- **Returning a value** keeps every quantity, since `pure a` leaves the state as it is. -/
theorem keeps_pure (a : α) : Keeps f (pure a : EStateM ε σ α) := fun s => (add_zero (f s)).symm

/-- One program behind another keeps the quantity when both do, for any value that the first one
returns. -/
theorem Keeps.bind {m : EStateM ε σ α} {g : α → EStateM ε σ β} (hm : Keeps f m)
    (hg : ∀ a, Keeps f (g a)) : Keeps f (m >>= g) := by
  have h := Moves.bind hm hg
  rwa [add_zero] at h

/-- A choice keeps the quantity when both of its branches do; the condition may be anything. -/
theorem Keeps.ite {c : Prop} [Decidable c] {m m' : EStateM ε σ α} (h : Keeps f m)
    (h' : Keeps f m') : Keeps f (if c then m else m') := by
  by_cases hc : c
  · rwa [if_pos hc]
  · rwa [if_neg hc]

end Moves

/-- **A step and its counterpart** keep the quantity between them: `m` moves it by `d`, `u` moves it
back by `-d`, and the program behind them keeps it. -/
theorem Keeps.balanced [AddGroup M] {f : σ → M} {d : M} {m : EStateM ε σ α}
    {u : EStateM ε σ PUnit} {g : α → PUnit → EStateM ε σ β} (hm : Moves f d m)
    (hu : Moves f (-d) u) (hg : ∀ a b, Keeps f (g a b)) : Keeps f (m >>= fun a => u >>= g a) := by
  -- the two amounts cancel before the program behind them starts
  have h := hm.bind fun a => hu.bind (hg a)
  rwa [add_zero, add_neg_cancel] at h

end IecCore
