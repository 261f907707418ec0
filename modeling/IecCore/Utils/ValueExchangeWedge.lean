import IecCore.Utils.ValueExchange

/-! # When the lock-free exchange wedges

`set` never empties the producer's own slot: it relies on the exchange to bring an empty one back.
An exchange onto a middle slot that still has a value brings that value back instead, and from then
on every `set` fails, whatever the consumer does. This file shows that this is the only way in:

* **`CanSet s`** — further steps of the two threads lead to a `set` that returns true.
* **`OntoEmpty`** — the step is no exchange of `set` onto an occupied middle slot.
* **`can_set_iff`** — after a run, `CanSet` holds exactly when every step of the run was
  `OntoEmpty`. -/

namespace IecCore

universe u

namespace ValueExchange

variable {T : Type u}

/-- Further steps of the two threads lead to a `set` that returns true: `puts` of the log gets
longer. -/
def CanSet (s : Threads T) : Prop :=
  ∃ as t, (lockFree T).run s as = some t ∧
    (CellEvent.puts s.log).length < (CellEvent.puts t.log).length

/-- When the step is the exchange of `set`, the consumer has emptied the middle slot; any other step
meets the condition. -/
def OntoEmpty (s : Threads T) (a : Action T) : Prop :=
  a = .producer → ∀ value, s.setPc = .exchanging value →
    s.exchange.storage s.exchange.buffer = none

/-! ## The wedged states -/

/-- The producer is between calls and its slot has a value, which nothing but a further exchange of
`set` would take away. -/
structure Wedged (s : Threads T) : Prop where
  inv : Inv s
  idle : s.setPc = .idle
  full : (s.exchange.storage s.exchange.setBuffer).isSome

/-- **No move leaves the wedged states**, and none of them completes a `set`: every later `set` is
refused at its test. -/
theorem Wedged.moves {s t : Threads T} {a : Action T} (h : Wedged s) (hmove : Moves s a t) :
    Wedged t ∧ CellEvent.puts t.log = CellEvent.puts s.log := by
  have hinv := h.inv.moves hmove
  obtain ⟨inv, idle, full⟩ := h
  cases hmove with
  | refuse hpc _ => exact ⟨⟨hinv, idle, full⟩, by simp⟩
  | accept hpc free => simp [free] at full
  | emplace hpc => simp [idle] at hpc
  | put hpc => simp [idle] at hpc
  | take hpc => exact ⟨⟨hinv, idle, full⟩, by simp⟩
  | empty hpc free => exact ⟨⟨hinv, idle, full⟩, by simp⟩
  | move hpc value => exact ⟨⟨hinv, idle, full⟩, rfl⟩
  | reset hpc =>
      -- the consumer resets its own slot, which is not the producer's
      have hkept : s.exchange.resetGet.storage s.exchange.setBuffer
          = s.exchange.storage s.exchange.setBuffer :=
        Function.update_of_ne inv.set_ne_get _ _
      refine ⟨⟨hinv, idle, ?_⟩, by simp⟩
      rw [← hkept] at full
      exact full

/-- From a wedged state no `set` ever returns true, whatever both threads do. -/
theorem Wedged.not_canSet {s : Threads T} (h : Wedged s) : ¬ CanSet s := by
  rintro ⟨as, t, hrun, hlt⟩
  have hend : Wedged t ∧ CellEvent.puts t.log = CellEvent.puts s.log := by
    refine (lockFree T).run_invariant
      (P := fun t => Wedged t ∧ CellEvent.puts t.log = CellEvent.puts s.log)
      ?_ ⟨h, rfl⟩ ((lockFree T).along_true s as) hrun
    rintro u a v ⟨hu, hputs⟩ - hstep
    obtain ⟨hv, hsame⟩ := hu.moves (moves_of_step hstep)
    exact ⟨hv, hsame.trans hputs⟩
  rw [hend.2] at hlt
  exact lt_irrefl _ hlt

/-- The exchange of `set` onto an occupied middle slot wedges: it brings the value back that was not
taken. -/
theorem wedged_of_not_ontoEmpty {s t : Threads T} {a : Action T} (h : Inv s)
    (hbad : ¬ OntoEmpty s a) (hmove : Moves s a t) : Wedged t := by
  have hinv := h.moves hmove
  unfold OntoEmpty at hbad
  push Not at hbad
  obtain ⟨rfl, value, hpc, hfull⟩ := hbad
  cases hmove with
  | emplace hpc' => simp [hpc] at hpc'
  | put _ => exact ⟨hinv, rfl, Option.isSome_iff_ne_none.mpr hfull⟩

/-! ## The free states -/

/-- A step that is no exchange onto an occupied slot does not lead into the wedged states. -/
theorem not_wedged_of_ontoEmpty {s t : Threads T} {a : Action T} (h : Inv s) (hfree : ¬ Wedged s)
    (hok : OntoEmpty s a) (hmove : Moves s a t) : ¬ Wedged t := by
  rintro ⟨-, idle, full⟩
  cases hmove with
  | refuse hpc hslot => exact hfree ⟨h, hpc, hslot⟩
  | accept hpc free => cases idle
  | emplace hpc => cases idle
  | @put value hpc =>
      -- the slot that comes back is the middle one
      have hempty : s.exchange.storage s.exchange.buffer = none := hok rfl value hpc
      simp [swapSet, hempty] at full
  | take hpc => exact hfree ⟨h, idle, full⟩
  | empty hpc free => exact hfree ⟨h, idle, full⟩
  | move hpc value => exact hfree ⟨h, idle, full⟩
  | reset hpc =>
      have hkept : s.exchange.resetGet.storage s.exchange.setBuffer
          = s.exchange.storage s.exchange.setBuffer :=
        Function.update_of_ne h.set_ne_get _ _
      exact hfree ⟨h, idle, hkept ▸ full⟩

/-- In a state that is not wedged the producer alone can complete a `set`, with any value. -/
theorem canSet_of_not_wedged {s : Threads T} (h : Inv s) (hfree : ¬ Wedged s) (value : T) :
    CanSet s := by
  obtain ⟨exchange, setPc, getPc, log⟩ := s
  -- the steps that are left of the call, by the point of the producer
  cases setPc with
  | idle =>
      have hslot : exchange.storage exchange.setBuffer = none := by
        by_contra hfull
        exact hfree ⟨h, rfl, Option.isSome_iff_ne_none.mpr hfull⟩
      refine ⟨[.set value, .producer, .producer],
        ⟨(exchange.emplace value).swapSet, .idle, getPc, log ++ [.put value]⟩, ?_, by simp⟩
      simp only [System.run_cons, System.run_nil, lockFree, step, hslot, Option.isSome_none,
        Bool.false_eq_true, if_false, Option.bind_some]
  | emplacing v =>
      refine ⟨[.producer, .producer], _, rfl, ?_⟩
      simp
  | exchanging v =>
      refine ⟨[.producer], _, rfl, ?_⟩
      simp

/-- **One step.** A step ends outside the wedged states exactly when it starts there and is no
exchange onto an occupied middle slot. -/
theorem not_wedged_step {s t : Threads T} {a : Action T} (h : Inv s)
    (hstep : step s a = some t) : ¬ Wedged t ↔ ¬ Wedged s ∧ OntoEmpty s a := by
  have hmove := moves_of_step hstep
  constructor
  · intro hfree
    refine ⟨fun hw => hfree (hw.moves hmove).1, ?_⟩
    by_contra hbad
    exact hfree (wedged_of_not_ontoEmpty h hbad hmove)
  · rintro ⟨hfree, hok⟩
    exact not_wedged_of_ontoEmpty h hfree hok hmove

/-- **When the exchange wedges.** After any run of the two threads, a further `set` can return true
exactly when every exchange of `set` in the run found the middle slot empty. -/
theorem can_set_iff [Inhabited T] (as : List (Action T)) (s : Threads T)
    (hrun : (lockFree T).run (lockFree T).init as = some s) :
    CanSet s ↔ (lockFree T).Along OntoEmpty (lockFree T).init as := by
  have hinv : Inv s := inv_of_reachable ⟨as, hrun⟩
  have hinit : ¬ Wedged (lockFree T).init := by
    intro h
    have := h.full
    simp [lockFree, initial] at this
  -- a run stays clear of wedged states exactly when each of its steps does
  have hiff : ¬ Wedged s ↔
      ¬ Wedged (lockFree T).init ∧ (lockFree T).Along OntoEmpty (lockFree T).init as :=
    (lockFree T).run_iff_along (fun _ _ _ hs hstep => Inv.moves hs (moves_of_step hstep))
      (fun _ _ _ hs hstep => not_wedged_step hs hstep) inv_init hrun
  constructor
  · intro hcan
    exact (hiff.mp fun hwedged => hwedged.not_canSet hcan).2
  · intro hgood
    exact canSet_of_not_wedged hinv (hiff.mpr ⟨hinit, hgood⟩) default

/-- One value set and taken: the next `set` can succeed, since the exchange of `get` has put an
empty slot into the middle. -/
theorem can_set_iff_taken :
    ∃ s, (lockFree Nat).run (lockFree Nat).init [.set 7, .producer, .producer, .get] = some s ∧
      CanSet s := by
  refine ⟨_, rfl, (can_set_iff [.set 7, .producer, .producer, .get] _ rfl).mpr ?_⟩
  simp [System.Along, OntoEmpty, lockFree, step, initial, emplace, swapSet]

/-- Two values set with no `get` in between: a reachable state from which no `set` can succeed. -/
theorem two_sets_wedge : ¬ ∀ s : Threads Nat, (lockFree Nat).Reachable s → CanSet s := by
  intro hall
  have reach : (lockFree Nat).Reachable _ :=
    ⟨[.set 7, .producer, .producer, .set 8, .producer, .producer], rfl⟩
  have hwedged : Wedged _ := ⟨inv_of_reachable reach, rfl, rfl⟩
  exact hwedged.not_canSet (hall _ reach)

end ValueExchange

end IecCore
