import Mathlib.Init

/-! # Programs with state and exceptions

Sequential code is modelled by programs `EStateM ε σ α`: they read and write a state, may end with
an exception, and an exception keeps the writes made before it. This file has the equations that run
such a program and its rules of pre- and postconditions. A proof follows the text of a program: each
statement has a rule, and the rule for a sequence makes the rest of the program the postcondition of
its first part.

* **`wp`** — the weakest precondition, with one postcondition for results and one for exceptions.
* **`wp_bind`** — the rule that follows the text of a program.
* **`wp.mono`** — postconditions may be weakened.
* **`exists_ok_of_wp`** — a program whose postcondition for exceptions is false returns.
* **`zoom`** — a program on a part of the state, run on the whole.
* **`wp_zoom`** — the rest of the state is as it was. -/

namespace IecCore

variable {ε σ τ α β : Type}

/-! ## Equations -/

/-- A sequence whose first part returns `a` goes on with the second, at the state `t` that the first
one leaves. -/
theorem bind_of_ok {m : EStateM ε σ α} {f : α → EStateM ε σ β} {s t : σ} {a : α}
    (h : m s = .ok a t) : (m >>= f) s = f a t := by
  show EStateM.bind m f s = _
  rw [EStateM.bind, h]

/-- A sequence whose first part ends with an exception ends with it; the second part does not
run. -/
theorem bind_of_error {m : EStateM ε σ α} {f : α → EStateM ε σ β} {s t : σ} {e : ε}
    (h : m s = .error e t) : (m >>= f) s = .error e t := by
  show EStateM.bind m f s = _
  rw [EStateM.bind, h]

/-- `m >>= f` returns exactly when `m` returns some `a` and `f a` returns from the state behind
it. -/
theorem bind_eq_ok {m : EStateM ε σ α} {f : α → EStateM ε σ β} {s u : σ} {b : β} :
    (m >>= f) s = .ok b u ↔ ∃ a t, m s = .ok a t ∧ f a t = .ok b u := by
  constructor
  · intro h
    cases hm : m s with
    | ok a t =>
        rw [bind_of_ok hm] at h
        exact ⟨a, t, rfl, h⟩
    | error e t =>
        rw [bind_of_error hm] at h
        cases h
  · rintro ⟨a, t, hm, hf⟩
    rw [bind_of_ok hm, hf]

/-- A loop over a list and one more element is the loop over the list and then the body for that
element. -/
theorem forM_concat (xs : List α) (x : α) (f : α → EStateM ε σ Unit) :
    forM (xs ++ [x]) f = forM xs f >>= fun _ => f x := by
  rw [List.forM_append]
  refine congrArg _ (funext fun _ => ?_)
  rw [List.forM_cons]
  exact bind_pure _

/-- A program whose exceptions are translated by `f` returns what it returned, with the same
state. -/
theorem adaptExcept_of_ok {ε' : Type} (f : ε → ε') {m : EStateM ε σ α} {s t : σ} {a : α}
    (h : m s = .ok a t) : EStateM.adaptExcept f m s = .ok a t := by
  rw [EStateM.adaptExcept, h]

/-- A program whose exceptions are translated ends with `f e` where it ended with `e`, with the same
state. -/
theorem adaptExcept_of_error {ε' : Type} (f : ε → ε') {m : EStateM ε σ α} {s t : σ} {e : ε}
    (h : m s = .error e t) : EStateM.adaptExcept f m s = .error (f e) t := by
  rw [EStateM.adaptExcept, h]

theorem run_pure (a : α) (s : σ) : (pure a : EStateM ε σ α) s = .ok a s := rfl

theorem run_modify (g : σ → σ) (s : σ) : (modify g : EStateM ε σ PUnit) s = .ok ⟨⟩ (g s) := rfl

theorem bind_get (f : σ → EStateM ε σ β) (s : σ) : (get >>= f) s = f s s := rfl

theorem bind_modify (g : σ → σ) (f : PUnit → EStateM ε σ β) (s : σ) :
    (modify g >>= f) s = f ⟨⟩ (g s) := rfl

/-! ## Weakest preconditions -/

/-- The **weakest precondition**: the states from which `m` ends in a result and a state that meet
`Q` or in an exception and a state that meet `E`. -/
def wp (m : EStateM ε σ α) (Q : α → σ → Prop) (E : ε → σ → Prop) (s : σ) : Prop :=
  match m s with
  | .ok a t => Q a t
  | .error e t => E e t

section Rules

variable {Q Q' : α → σ → Prop} {R : β → σ → Prop} {E E' : ε → σ → Prop} {s t : σ}

/-- The precondition of a program that returns from `s` is its postcondition there: `wp m Q E s ↔ Q
a t`. -/
theorem wp_of_ok {m : EStateM ε σ α} {a : α} (h : m s = .ok a t) : wp m Q E s ↔ Q a t := by
  rw [wp, h]

/-- The precondition of a program that ends with an exception is its other postcondition: `wp m Q E
s ↔ E e t`. -/
theorem wp_of_error {m : EStateM ε σ α} {e : ε} (h : m s = .error e t) :
    wp m Q E s ↔ E e t := by
  rw [wp, h]

/-- **Consequence.** Both postconditions may be weakened: `Q` to `Q'` for results and `E` to `E'`
for exceptions. -/
theorem wp.mono {m : EStateM ε σ α} (h : wp m Q E s) (hQ : ∀ a t, Q a t → Q' a t)
    (hE : ∀ e t, E e t → E' e t) : wp m Q' E' s := by
  cases hm : m s with
  | ok a t => exact (wp_of_ok hm).mpr (hQ a t ((wp_of_ok hm).mp h))
  | error e t => exact (wp_of_error hm).mpr (hE e t ((wp_of_error hm).mp h))

/-- Consequence with the same postcondition for exceptions, which is the usual case. -/
theorem wp.imp {m : EStateM ε σ α} (h : wp m Q E s) (hQ : ∀ a t, Q a t → Q' a t) :
    wp m Q' E s :=
  h.mono hQ fun _ _ he => he

@[simp] theorem wp_pure (a : α) : wp (pure a) Q E s ↔ Q a s := Iff.rfl

@[simp] theorem wp_get {Q : σ → σ → Prop} : wp get Q E s ↔ Q s s := Iff.rfl

@[simp] theorem wp_modify (g : σ → σ) {Q : PUnit → σ → Prop} :
    wp (modify g) Q E s ↔ Q ⟨⟩ (g s) := Iff.rfl

/-- **Sequence.** The postcondition of the first part is the precondition of the second, for the
value that it returns. -/
theorem wp_bind (m : EStateM ε σ α) (f : α → EStateM ε σ β) :
    wp (m >>= f) R E s ↔ wp m (fun a t => wp (f a) R E t) E s := by
  cases hm : m s with
  | ok a t => rw [wp_of_ok hm, wp, bind_of_ok hm, wp]
  | error e t => rw [wp_of_error hm, wp_of_error (bind_of_error hm)]

/-- A program that meets `Q` and whose postcondition for exceptions is false returns, with a value
and a state that meet `Q`. -/
theorem exists_ok_of_wp {m : EStateM ε σ α} (h : wp m Q (fun _ _ => False) s) :
    ∃ a t, m s = .ok a t ∧ Q a t := by
  cases hm : m s with
  | ok a t => exact ⟨a, t, rfl, (wp_of_ok hm).mp h⟩
  | error e t => exact ((wp_of_error hm).mp h).elim

/-- A program meets postconditions that hold of every value and every state, whatever it does. -/
theorem wp_of_forall {m : EStateM ε σ α} (hQ : ∀ a t, Q a t) (hE : ∀ e t, E e t) : wp m Q E s := by
  cases hm : m s with
  | ok a t => exact (wp_of_ok hm).mpr (hQ a t)
  | error e t => exact (wp_of_error hm).mpr (hE e t)

/-- Translated exceptions: the postcondition for them is asked of the translation `f e`. -/
theorem wp_adaptExcept {ε' : Type} (f : ε → ε') (m : EStateM ε σ α) {E : ε' → σ → Prop} :
    wp (EStateM.adaptExcept f m) Q E s ↔ wp m Q (fun e t => E (f e) t) s := by
  cases hm : m s with
  | ok a t => rw [wp_of_ok hm, wp_of_ok (adaptExcept_of_ok f hm)]
  | error e t => rw [wp_of_error hm, wp_of_error (adaptExcept_of_error f hm)]

/-- The state at the end of a program, also when it ends with an exception. -/
def endState (r : EStateM.Result ε σ α) : σ :=
  match r with
  | .ok _ t => t
  | .error _ t => t

/-- A property of the state that is both postconditions holds at the end, and only then. -/
theorem wp_endState {m : EStateM ε σ α} {P : σ → Prop} :
    wp m (fun _ => P) (fun _ => P) s ↔ P (endState (m s)) := by
  cases hm : m s with
  | ok a t => rw [wp_of_ok hm, endState]
  | error e t => rw [wp_of_error hm, endState]

end Rules

/-! ## A part of the state -/

/-- Run a program on a part of the state; `replace` puts the part back, also after an exception. -/
def zoom (part : σ → τ) (replace : τ → σ → σ) (m : EStateM ε τ α) : EStateM ε σ α := fun s =>
  match m (part s) with
  | .ok a p => .ok a (replace p s)
  | .error e p => .error e (replace p s)

/-- A program on a part of the state returns when it does on the part, and the part behind it is put
back. -/
theorem zoom_of_ok {part : σ → τ} {replace : τ → σ → σ} {m : EStateM ε τ α} {s : σ} {a : α} {p : τ}
    (h : m (part s) = .ok a p) : zoom part replace m s = .ok a (replace p s) := by
  rw [zoom, h]

/-- A program on a part of the state ends with the exception that it ends with on the part. -/
theorem zoom_of_error {part : σ → τ} {replace : τ → σ → σ} {m : EStateM ε τ α} {s : σ} {e : ε}
    {p : τ} (h : m (part s) = .error e p) : zoom part replace m s = .error e (replace p s) := by
  rw [zoom, h]

/-- A program on a part of the state changes that part only: the postconditions are asked of the
state with the new part. -/
theorem wp_zoom {part : σ → τ} {replace : τ → σ → σ} (m : EStateM ε τ α)
    {Q : α → σ → Prop} {E : ε → σ → Prop} {s : σ} :
    wp (zoom part replace m) Q E s ↔
      wp m (fun a p => Q a (replace p s)) (fun e p => E e (replace p s)) (part s) := by
  cases hm : m (part s) with
  | ok a p => rw [wp_of_ok hm, wp_of_ok (zoom_of_ok hm)]
  | error e p =>
      rw [wp_of_error hm, wp_of_error (show zoom part replace m s = _ by rw [zoom, hm])]

end IecCore
