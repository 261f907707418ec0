import Mathlib.Data.List.Basic

/-! # Runs of a labelled transition system

Interleaved programs are modelled by a state, a set of actions and a partial step function: an
action that cannot be taken in a state has no successor. This file has the vocabulary of runs over
such a system and the rules every proof about all interleavings uses.

* **`System.run`** — the state a list of actions leads to, if every action can be taken.
* **`System.Along`** — every action of a run meets a condition in the state it is taken from.
* **`System.run_invariant`** — a property kept by the steps that meet the condition holds at the
  end of every run along which the condition holds.
* **`System.run_iff_along`** — a property that a step keeps exactly when it meets the condition
  holds at the end of a run exactly when the condition holds along it.
* **`System.length_le_of_potential`**, **`System.exists_run_of_potential`** — a potential that every
  step lowers bounds the runs, and leads to a state without a step.
* **`System.run_map`** — a map that sends each step to a run of another system sends runs to runs. -/

namespace IecCore

/-- A **transition system**: an initial state and a partial step for every action. An action with
`none` cannot be taken in that state. -/
structure System (σ α : Type*) where
  /-- The state before any action. -/
  init : σ
  /-- The successor of a state under an action, when the action can be taken. -/
  step : σ → α → Option σ

namespace System

variable {σ α τ β : Type*} (S : System σ α)

/-- The state a list of actions leads to, if every one of them can be taken where it comes. -/
def run : σ → List α → Option σ
  | s, [] => some s
  | s, a :: as => (S.step s a).bind fun t => run t as

@[simp] theorem run_nil (s : σ) : S.run s [] = some s := rfl

theorem run_cons (s : σ) (a : α) (as : List α) :
    S.run s (a :: as) = (S.step s a).bind fun t => S.run t as := rfl

/-- A run of `a :: as` is a step and a run of `as`, with the state between them named. -/
theorem run_cons_eq_some {s t : σ} {a : α} {as : List α} :
    S.run s (a :: as) = some t ↔ ∃ u, S.step s a = some u ∧ S.run u as = some t := by
  rw [run_cons, Option.bind_eq_some_iff]

/-- Runs compose: a run of `as ++ bs` is a run of `as` and a run of `bs` from where it ends. -/
theorem run_append (s : σ) (as bs : List α) :
    S.run s (as ++ bs) = (S.run s as).bind fun t => S.run t bs := by
  induction as generalizing s with
  | nil => rfl
  | cons a as ih =>
      rw [List.cons_append, run_cons, run_cons, Option.bind_assoc]
      exact congrArg _ (funext fun t => ih t)

/-- A run of `as ++ bs` passes through the state `as` leads to, which is where a proof about an
action in the middle of a run starts. -/
theorem run_append_eq_some {s u : σ} {as bs : List α} :
    S.run s (as ++ bs) = some u ↔ ∃ t, S.run s as = some t ∧ S.run t bs = some u := by
  rw [run_append, Option.bind_eq_some_iff]

/-- `S.Reachable s`: some run from the initial state ends in `s`. -/
def Reachable (s : σ) : Prop := ∃ as, S.run S.init as = some s

/-- Every action of the run from `s` meets `ok` in the state it is taken from. Behind an action that
cannot be taken nothing is asked. -/
def Along (ok : σ → α → Prop) : σ → List α → Prop
  | _, [] => True
  | s, a :: as => ok s a ∧ ∀ t, S.step s a = some t → Along ok t as

/-- A decidable condition can be checked along a run, so that the condition of a run on fixed
actions is decided. -/
instance decidableAlong {ok : σ → α → Prop} [∀ s a, Decidable (ok s a)] :
    (s : σ) → (as : List α) → Decidable (S.Along ok s as)
  | _, [] => .isTrue trivial
  | s, a :: as =>
      match hstep : S.step s a with
      | none =>
          decidable_of_iff (ok s a) ⟨fun h => ⟨h, fun t ht => by rw [hstep] at ht; cases ht⟩,
            And.left⟩
      | some t =>
          have : Decidable (S.Along ok t as) := decidableAlong t as
          decidable_of_iff (ok s a ∧ S.Along ok t as)
            ⟨fun h => ⟨h.1, fun u hu => by rw [hstep] at hu; cases hu; exact h.2⟩,
              fun h => ⟨h.1, h.2 t hstep⟩⟩

/-- **Invariant rule.** A property that holds at the start and is kept by every step that meets
`ok` holds at the end of every run along which `ok` holds. -/
theorem run_invariant {ok : σ → α → Prop} {P : σ → Prop}
    (keeps : ∀ s a t, P s → ok s a → S.step s a = some t → P t)
    {s t : σ} {as : List α} (start : P s) (along : S.Along ok s as) (hrun : S.run s as = some t) :
    P t := by
  induction as generalizing s with
  | nil => exact Option.some.inj hrun ▸ start
  | cons a as ih =>
      obtain ⟨u, hstep, hrest⟩ := S.run_cons_eq_some.mp hrun
      exact ih (keeps s a u start along.1 hstep) (along.2 u hstep) hrest

/-- The condition that asks nothing holds along every run; with it the rules for conditional runs
hold of all runs. -/
theorem along_true (s : σ) (as : List α) : S.Along (fun _ _ => True) s as := by
  induction as generalizing s with
  | nil => trivial
  | cons a as ih => exact ⟨trivial, fun t _ => ih t⟩

/-- A condition that asks something of the action alone holds along the runs of such actions, from
every state. -/
theorem along_of_forall {ok : α → Prop} (s : σ) {as : List α} (h : ∀ a ∈ as, ok a) :
    S.Along (fun _ a => ok a) s as := by
  induction as generalizing s with
  | nil => trivial
  | cons a as ih =>
      exact ⟨h a List.mem_cons_self, fun t _ => ih t fun b hb => h b (List.mem_cons_of_mem a hb)⟩

/-- The invariant rule for a property kept by every step: if it holds at the start, it holds in
every state that can be reached. -/
theorem reachable_invariant {P : σ → Prop} (start : P S.init)
    (keeps : ∀ s a t, P s → S.step s a = some t → P t) {s : σ} (reach : S.Reachable s) : P s := by
  obtain ⟨as, hrun⟩ := reach
  exact S.run_invariant (fun s a t hs _ => keeps s a t hs) start (S.along_true _ as) hrun

/-- **Exact-condition rule.** If, under an invariant, a step ends in `Q` exactly when it starts in
`Q` and meets `ok`, then a run ends in `Q` exactly when it starts in `Q` and meets `ok` all
along. -/
theorem run_iff_along {ok : σ → α → Prop} {P Q : σ → Prop}
    (keeps : ∀ s a t, P s → S.step s a = some t → P t)
    (exact_step : ∀ s a t, P s → S.step s a = some t → (Q t ↔ Q s ∧ ok s a))
    {s t : σ} {as : List α} (start : P s) (hrun : S.run s as = some t) :
    Q t ↔ Q s ∧ S.Along ok s as := by
  induction as generalizing s with
  | nil =>
      cases Option.some.inj hrun
      exact ⟨fun hs => ⟨hs, trivial⟩, And.left⟩
  | cons a as ih =>
      obtain ⟨u, hstep, hrest⟩ := S.run_cons_eq_some.mp hrun
      have hnext : (∀ v, S.step s a = some v → S.Along ok v as) ↔ S.Along ok u as := by
        constructor
        · intro h; exact h u hstep
        · intro h v hv
          rw [hstep] at hv
          exact Option.some.inj hv ▸ h
      rw [ih (keeps s a u start hstep) hrest, exact_step s a u start hstep, and_assoc]
      exact and_congr_right fun _ => and_congr_right fun _ => hnext.symm

/-- **Potential rule.** If, under an invariant, every step lowers a potential by at least one, but for
the steps of a kind that `raises` it by less than `gain`, then no run is longer than the potential at
its start and the steps of that kind allow. -/
theorem length_le_of_potential {P : σ → Prop} (potential : σ → Nat) (raises : α → Bool) (gain : Nat)
    (keeps : ∀ s a t, P s → S.step s a = some t → P t)
    (lowers : ∀ s a t, P s → S.step s a = some t →
      potential t + 1 ≤ potential s + if raises a then gain else 0)
    {s t : σ} {as : List α} (start : P s) (hrun : S.run s as = some t) :
    as.length + potential t ≤ potential s + gain * as.countP raises := by
  induction as generalizing s with
  | nil =>
      cases Option.some.inj hrun
      rw [List.length_nil, List.countP_nil]
      omega
  | cons a as ih =>
      obtain ⟨u, hstep, hrest⟩ := S.run_cons_eq_some.mp hrun
      have hfirst := lowers s a u start hstep
      have hlater := ih (keeps s a u start hstep) hrest
      rw [List.length_cons, List.countP_cons, Nat.mul_add]
      by_cases hraises : raises a
      · rw [if_pos hraises] at hfirst ⊢
        omega
      · rw [if_neg hraises] at hfirst ⊢
        omega

/-- Under such a potential, the steps of the other kinds lead to a state in which none of them can be
taken. -/
theorem exists_run_of_potential {P : σ → Prop} (potential : σ → Nat) (raises : α → Bool)
    (keeps : ∀ s a t, P s → S.step s a = some t → P t)
    (lowers : ∀ s a t, P s → raises a = false → S.step s a = some t → potential t < potential s)
    {s : σ} (start : P s) :
    ∃ as t, (∀ a ∈ as, raises a = false) ∧ S.run s as = some t ∧
      ∀ a, raises a = false → S.step t a = none := by
  induction hpotential : potential s using Nat.strongRecOn generalizing s with
  | _ n ih =>
      subst hpotential
      -- a state in which no such step is possible is the end; every other one has a lower successor
      by_cases hstuck : ∀ a, raises a = false → S.step s a = none
      · exact ⟨[], s, fun a ha => absurd ha List.not_mem_nil, rfl, hstuck⟩
      · push Not at hstuck
        obtain ⟨a, ha, hstep⟩ := hstuck
        obtain ⟨u, hu⟩ := Option.ne_none_iff_exists'.mp hstep
        obtain ⟨as, t, has, hrun, hend⟩ :=
          ih (potential u) (lowers s a u start ha hu) (keeps s a u start hu) rfl
        refine ⟨a :: as, t, List.forall_mem_cons.mpr ⟨ha, has⟩, ?_, hend⟩
        exact S.run_cons_eq_some.mpr ⟨u, hu, hrun⟩

/-- Reachability is closed under runs: what is reached from a reachable state is reachable. -/
theorem Reachable.run {S : System σ α} {s t : σ} {as : List α} (reach : S.Reachable s)
    (hrun : S.run s as = some t) : S.Reachable t := by
  obtain ⟨bs, hbs⟩ := reach
  exact ⟨bs ++ as, S.run_append_eq_some.mpr ⟨s, hbs, hrun⟩⟩

/-- **Simulation rule.** If `f` sends every step from a state with the invariant `P` to a run of
`T` from the image, it sends every run that starts in `P` to a run of `T`. -/
theorem run_map (T : System τ β) (f : σ → τ) {ok : σ → α → Prop} {P : σ → Prop}
    (keeps : ∀ s a t, P s → ok s a → S.step s a = some t → P t)
    (simulates : ∀ s a t, P s → ok s a → S.step s a = some t → ∃ bs, T.run (f s) bs = some (f t))
    {s t : σ} {as : List α} (start : P s) (along : S.Along ok s as) (hrun : S.run s as = some t) :
    ∃ bs, T.run (f s) bs = some (f t) := by
  induction as generalizing s with
  | nil => exact ⟨[], by rw [Option.some.inj hrun, run_nil]⟩
  | cons a as ih =>
      obtain ⟨u, hstep, hrest⟩ := S.run_cons_eq_some.mp hrun
      obtain ⟨bs, hbs⟩ := simulates s a u start along.1 hstep
      obtain ⟨cs, hcs⟩ := ih (keeps s a u start along.1 hstep) (along.2 u hstep) hrest
      exact ⟨bs ++ cs, T.run_append_eq_some.mpr ⟨f u, hbs, hcs⟩⟩

end System

end IecCore
