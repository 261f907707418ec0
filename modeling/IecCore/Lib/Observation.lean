import Mathlib.Init

/-! # What calls on an object show

An object hides its state; its clients see what each call shows. This file has the vocabulary of
histories of calls and the rule that two states no call can tell apart need not be equal.

* **`Object`** — the state and the observation after each call.
* **`Object.observe`** — what a list of calls shows.
* **`Object.Bisimulation`** — a relation of states that every call keeps and no call shows.
* **`Object.Bisimulation.observe_eq`** — related states cannot be told apart. -/

namespace IecCore

/-- An **object** with hidden states `σ`, calls `κ` and observations `ω`: what a client learns of
the state is what its calls show. -/
structure Object (κ σ ω : Type*) where
  /-- The observation a call makes, and the state it leaves. -/
  call : κ → σ → ω × σ

namespace Object

variable {κ σ ω : Type*} (O : Object κ σ ω)

/-- The state after a history of calls, whose observations are not kept. -/
def after : List κ → σ → σ
  | [], s => s
  | k :: ks, s => after ks (O.call k s).2

/-- The observations of a list of calls, one for each of them, in order. -/
def observe : List κ → σ → List ω
  | [], _ => []
  | k :: ks, s => (O.call k s).1 :: observe ks (O.call k s).2

theorem observe_cons (k : κ) (ks : List κ) (s : σ) :
    O.observe (k :: ks) s = (O.call k s).1 :: O.observe ks (O.call k s).2 := rfl

/-- A **bisimulation**: related states show the same under every call and stay related. They need
not be equal. -/
structure Bisimulation (R : σ → σ → Prop) : Prop where
  /-- A call shows the same in related states. -/
  shows : ∀ k s t, R s t → (O.call k s).1 = (O.call k t).1
  /-- A call leaves related states related. -/
  keeps : ∀ k s t, R s t → R (O.call k s).2 (O.call k t).2

/-- **Related states cannot be told apart**: `O.observe ks s = O.observe ks t` for every list of
calls. -/
theorem Bisimulation.observe_eq {O : Object κ σ ω} {R : σ → σ → Prop} (h : O.Bisimulation R)
    (ks : List κ) {s t : σ} (related : R s t) : O.observe ks s = O.observe ks t := by
  induction ks generalizing s t with
  | nil => rfl
  | cons k ks ih =>
      rw [observe_cons, observe_cons, h.shows k s t related, ih (h.keeps k s t related)]

end Object

end IecCore
