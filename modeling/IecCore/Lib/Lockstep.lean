import IecCore.Lib.Hoare

/-! # Two runs of one program

A program does not depend on a part of its state when two runs from states that differ in that part
give the same result. The states of the two runs are related step by step. The relation says what the
program may not look at: it holds between states that are the same but for that part.

* **`Agree`** — two outcomes with the same value or exception and related states.
* **`Lockstep`** — related states lead to outcomes that agree.
* **`Lockstep.bind`** and the other rules — the programs that are built from such steps.
* **`lockstep_overwrite`** — behind a write that makes related states equal, any program is one. -/

namespace IecCore

variable {ε σ τ α β : Type}

/-- The outcomes **agree**: the same value or the same exception, and related states. -/
def Agree (R : σ → σ → Prop) : EStateM.Result ε σ α → EStateM.Result ε σ α → Prop
  | .ok a s, .ok b t => a = b ∧ R s t
  | .error e s, .error e' t => e = e' ∧ R s t
  | _, _ => False

/-- Equal outcomes agree when the relation on the states is reflexive: `Agree R r r` for every
`r`. -/
theorem Agree.refl {R : σ → σ → Prop} (hR : ∀ s, R s s) (r : EStateM.Result ε σ α) :
    Agree R r r := by
  cases r with
  | ok a s => exact ⟨rfl, hR s⟩
  | error e s => exact ⟨rfl, hR s⟩

/-- Two outcomes that agree are two results with one value or two exceptions of one kind, and their
states are related. -/
theorem Agree.ok_or_error {R : σ → σ → Prop} {r r' : EStateM.Result ε σ α} (h : Agree R r r') :
    (∃ a s t, r = .ok a s ∧ r' = .ok a t ∧ R s t) ∨
      ∃ e s t, r = .error e s ∧ r' = .error e t ∧ R s t := by
  cases r with
  | ok a s =>
      cases r' with
      | ok b t =>
          obtain ⟨rfl, hR⟩ := h
          exact .inl ⟨a, s, t, rfl, rfl, hR⟩
      | error e t => exact h.elim
  | error e s =>
      cases r' with
      | ok b t => exact h.elim
      | error e' t =>
          obtain ⟨rfl, hR⟩ := h
          exact .inr ⟨e, s, t, rfl, rfl, hR⟩

/-- A program runs in **lockstep**: from related states it comes to outcomes that agree. -/
def Lockstep (R : σ → σ → Prop) (m : EStateM ε σ α) : Prop :=
  ∀ s t, R s t → Agree R (m s) (m t)

variable {R : σ → σ → Prop}

/-- Returning a value runs in lockstep: it does not look at the state. -/
theorem lockstep_pure (a : α) : Lockstep R (pure a : EStateM ε σ α) :=
  fun _ _ hR => ⟨rfl, hR⟩

/-- An exception runs in lockstep: it does not look at the state either. -/
theorem lockstep_throw (e : ε) : Lockstep R (throw e : EStateM ε σ α) :=
  fun _ _ hR => ⟨rfl, hR⟩

/-- A write runs in lockstep when it keeps states related: `R s t → R (g s) (g t)`. -/
theorem lockstep_modify {g : σ → σ} (hg : ∀ s t, R s t → R (g s) (g t)) :
    Lockstep R (modify g : EStateM ε σ PUnit) :=
  fun s t hR => ⟨rfl, hg s t hR⟩

/-- **Sequence.** The two runs return the same value from the first part, so that they go on with
the same program. -/
theorem Lockstep.bind {m : EStateM ε σ α} {f : α → EStateM ε σ β} (hm : Lockstep R m)
    (hf : ∀ a, Lockstep R (f a)) : Lockstep R (m >>= f) := by
  intro s t hR
  obtain ⟨a, s', t', hs, ht, hR'⟩ | ⟨e, s', t', hs, ht, hR'⟩ := (hm s t hR).ok_or_error
  · rw [bind_of_ok hs, bind_of_ok ht]
    exact hf a s' t' hR'
  · rw [bind_of_error hs, bind_of_error ht]
    exact ⟨rfl, hR'⟩

/-- A choice runs in lockstep when both branches do: the condition does not depend on the state. -/
theorem Lockstep.ite {c : Prop} [Decidable c] {m m' : EStateM ε σ α} (h : Lockstep R m)
    (h' : Lockstep R m') : Lockstep R (if c then m else m') := by
  by_cases hc : c
  · rwa [if_pos hc]
  · rwa [if_neg hc]

/-- A look at the state runs in lockstep when what is done with related states leads to outcomes
that agree. -/
theorem lockstep_get {f : σ → EStateM ε σ β} (hf : ∀ s t, R s t → Agree R (f s s) (f t t)) :
    Lockstep R (get >>= f) := hf

/-- **A write that makes related states equal**: what follows does not depend on the difference. -/
theorem lockstep_overwrite {g : σ → σ} (hR : ∀ s, R s s) (hg : ∀ s t, R s t → g s = g t)
    (f : PUnit → EStateM ε σ β) : Lockstep R (modify g >>= f) := by
  intro s t hst
  rw [bind_modify, bind_modify, hg s t hst]
  exact Agree.refl hR _

/-- A program on a part that is the same in related states runs in lockstep, whatever it does to
that part. -/
theorem lockstep_zoom {part : σ → τ} {replace : τ → σ → σ} (hpart : ∀ s t, R s t → part s = part t)
    (hreplace : ∀ p s t, R s t → R (replace p s) (replace p t)) (m : EStateM ε τ α) :
    Lockstep R (zoom part replace m) := by
  intro s t hR
  rw [zoom, zoom, hpart s t hR]
  cases m (part t) with
  | ok a p => exact ⟨rfl, hreplace p s t hR⟩
  | error e p => exact ⟨rfl, hreplace p s t hR⟩

end IecCore
