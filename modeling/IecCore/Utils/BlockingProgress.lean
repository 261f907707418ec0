import IecCore.Utils.BlockingFifo

/-! # Progress through the blocking exchange

What a caller of the exchange sees of a step, and how far the calls are from their ends. A caller has
two states of a thread to tell apart, outside of a call and inside of one; what happens in between
is quiet, but for the return of a `get`.

* **`Quiet`**, **`callMoves_calls`** — a step returns from a `get` or changes nothing that the
  consumer sees.
* **`Pc.rank`**, **`rank_callMoves`** — every step of a thread inside its call lowers the rank, also
  the notification that wakes the other thread.
* **`advance_isSome`** — when a thread can go on with its call.
* **`returned_eq_given`** — when the consumer sleeps and the producer is outside, everything was
  returned. -/

namespace IecCore

universe u

namespace ValueExchangeBlocking

variable {T : Type u} {s t : State T} {side : Side}

/-! ## What the callers see -/

/-- Nothing changes that the consumer sees: it has no new value, and is where it was. -/
structure Quiet (s t : State T) : Prop where
  /-- Nothing is returned: the values returned stay as they were. -/
  returned : t.returned = s.returned
  /-- The consumer stays inside its call or outside. -/
  idle : t.pc .consumer = .idle ↔ s.pc .consumer = .idle
  /-- Outside of a call the value of the consumer stays. -/
  result : s.pc .consumer = .idle → t.result = s.result

/-- A step to another point of the same call is quiet, whichever thread takes it. -/
theorem Quiet.goto (s : State T) (q : Pc) {p : Pc} (hpc : s.pc side = p) (hp : p ≠ .idle)
    (hq : q ≠ .idle) : Quiet s (s.goto side q) := by
  refine ⟨rfl, ?_, fun _ => rfl⟩
  cases side with
  | producer => rw [State.goto_producer_pc_consumer]
  | consumer =>
      rw [State.goto_pc_self, hpc]
      exact iff_of_false hq hp

/-- **A step inside a call** gives nothing to the exchange, and is quiet or returns `t.result` from
a `get`. -/
theorem callMoves_calls (hmove : CallMoves side s t) :
    t.given = s.given ∧ (Quiet s t ∨ s.pc .consumer ≠ .idle ∧ t.pc .consumer = .idle ∧
      t.returned = s.returned ++ [t.result]) := by
  -- only the end of a `get` is not quiet
  cases hmove with
  | testEnter hpc hflag =>
      have h := Quiet.goto (s.enter side) .bodyLock hpc (by decide) (by decide)
      exact ⟨rfl, .inl ⟨h.1, h.2, h.3⟩⟩
  | testWait hpc hflag => exact ⟨rfl, .inl (Quiet.goto s .waitLock hpc (by decide) (by decide))⟩
  | @lock p q hpc hlock free =>
      have h := Quiet.goto s q hpc (by cases hlock <;> decide) (by cases hlock <;> decide)
      exact ⟨rfl, .inl ⟨h.1, h.2, h.3⟩⟩
  | predicateEnter hpc hflag =>
      have h := Quiet.goto (s.enter side) .waitUnlock hpc (by decide) (by decide)
      exact ⟨rfl, .inl ⟨h.1, h.2, h.3⟩⟩
  | predicateBlock hpc hflag => exact ⟨rfl, .inl (Quiet.goto s .block hpc (by decide) (by decide))⟩
  | block hpc =>
      have h := Quiet.goto s .asleep hpc (by decide) (by decide)
      exact ⟨rfl, .inl ⟨h.1, h.2, h.3⟩⟩
  | waitUnlock hpc =>
      have h := Quiet.goto s .bodyLock hpc (by decide) (by decide)
      exact ⟨rfl, .inl ⟨h.1, h.2, h.3⟩⟩
  | move hpc =>
      cases side with
      | producer =>
          have h := Quiet.goto (s.transfer .producer) .flag hpc (by decide) (by decide)
          exact ⟨rfl, .inl ⟨h.1, h.2, h.3⟩⟩
      | consumer =>
          refine ⟨rfl, .inl ⟨rfl, ?_, fun hidle => ?_⟩⟩
          · rw [State.goto_pc_self, hpc]
            exact iff_of_false (by decide) (by decide)
          · rw [hpc] at hidle
            cases hidle
  | flag hpc =>
      have h := Quiet.goto s .notify hpc (by decide) (by decide)
      exact ⟨rfl, .inl ⟨h.1, h.2, h.3⟩⟩
  | notify hpc =>
      rw [State.notifyOne_other hpc]
      split
      · next hasleep =>
          have hpc' : (s.goto side.other .woken).pc side = .notify := by
            rw [State.goto_other_pc, hpc]
          have hwoken := Quiet.goto s .woken hasleep (by decide) (by decide)
          have hunlock := Quiet.goto (s.goto side.other .woken) .unlock hpc' (by decide) (by decide)
          exact ⟨rfl, .inl ⟨rfl, hunlock.idle.trans hwoken.idle, fun _ => rfl⟩⟩
      · exact ⟨rfl, .inl (Quiet.goto s .unlock hpc (by decide) (by decide))⟩
  | unlock hpc =>
      cases side with
      | producer =>
          refine ⟨rfl, .inl ⟨rfl, ?_, fun _ => rfl⟩⟩
          show ((s.finish .producer).goto .producer .idle).pc .consumer = .idle ↔ _
          rw [State.goto_producer_pc_consumer, State.finish_pc]
      | consumer =>
          have hbusy : s.pc .consumer ≠ .idle := by rw [hpc]; decide
          have hidle := (s.finish .consumer).goto_pc_self .consumer .idle
          exact ⟨rfl, .inr ⟨hbusy, hidle, rfl⟩⟩

/-- A step inside a call, or a spurious wake-up, gives nothing, and is quiet or returns from a
`get`. -/
theorem step_calls {a : Action T} (ha : a = .advance side ∨ a = .spurious side)
    (hstep : step s a = some t) :
    t.given = s.given ∧ (Quiet s t ∨ s.pc .consumer ≠ .idle ∧ t.pc .consumer = .idle ∧
      t.returned = s.returned ++ [t.result]) := by
  obtain rfl | rfl := ha
  · exact callMoves_calls (callMoves_of_callStep hstep)
  · simp only [step, Option.ite_none_right_eq_some] at hstep
    obtain ⟨hpc, hstep⟩ := hstep
    cases hstep
    exact ⟨rfl, .inl (Quiet.goto s .woken hpc (by decide) (by decide))⟩

/-- A call of `set` gives its value, and the consumer does not see it yet. -/
theorem set_calls {value : T} (hstep : step s (.set value) = some t) :
    t.given = s.given ++ [value] ∧ Quiet s t := by
  simp only [step, Option.ite_none_right_eq_some] at hstep
  obtain ⟨hpc, hstep⟩ := hstep
  cases hstep
  exact ⟨rfl, rfl, by rw [State.goto_producer_pc_consumer], fun _ => rfl⟩

/-- A call of `get` is made outside of one, and gives and returns nothing yet. -/
theorem get_calls (hstep : step s .get = some t) :
    t.given = s.given ∧ t.returned = s.returned ∧ s.pc .consumer = .idle ∧
      t.pc .consumer ≠ .idle := by
  simp only [step, Option.ite_none_right_eq_some] at hstep
  obtain ⟨hpc, hstep⟩ := hstep
  cases hstep
  exact ⟨rfl, rfl, hpc, by rw [State.goto_pc_self]; decide⟩

/-! ## Runs without `reset` -/

/-- The exchange was reached **without `reset`**: by some run in which nobody calls it. -/
def Unreset (constructed : T) (s : State T) : Prop :=
  ∃ as, (∀ a ∈ as, ∀ first, a ≠ .reset first) ∧
    (blocking constructed).run (blocking constructed).init as = some s

/-- A constructed exchange was reached without `reset`, by the run without actions. -/
theorem unreset_initial (constructed : T) : Unreset constructed (initial constructed) :=
  ⟨[], fun _ ha => absurd ha List.not_mem_nil, rfl⟩

/-- Another step that is none of `reset` makes a longer run without it. -/
theorem Unreset.step {constructed : T} (h : Unreset constructed s) {a : Action T}
    (ha : ∀ first, a ≠ .reset first) (hstep : step s a = some t) : Unreset constructed t := by
  obtain ⟨as, has, hrun⟩ := h
  refine ⟨as ++ [a], ?_, ?_⟩
  · exact List.forall_mem_append.mpr ⟨has, List.forall_mem_singleton.mpr ha⟩
  · refine (blocking constructed).run_append_eq_some.mpr ⟨s, hrun, ?_⟩
    exact (blocking constructed).run_cons_eq_some.mpr ⟨t, hstep, rfl⟩

/-- The run without `reset` in the form that the invariants of the exchange ask for, `Along
NoReset`. -/
theorem Unreset.exists_along {constructed : T} (h : Unreset constructed s) :
    ∃ as, (blocking constructed).Along NoReset (blocking constructed).init as ∧
      (blocking constructed).run (blocking constructed).init as = some s := by
  obtain ⟨as, has, hrun⟩ := h
  exact ⟨as, (blocking constructed).along_of_forall _ has, hrun⟩

/-! ## The rank -/

/-- The **rank** of a program point: how many steps a call is from its end at most, but for the
steps after a wake-up, which the thread that notifies has in its own rank. -/
def Pc.rank : Pc → Nat
  | .idle => 0
  | .unlock => 1
  | .notify => 5
  | .flag => 6
  | .move => 7
  | .bodyLock => 8
  | .asleep => 8
  | .waitUnlock => 9
  | .block => 9
  | .predicate => 10
  | .waitLock => 11
  | .woken => 11
  | .test => 12

/-- The rank of both threads: how many steps their calls have before them at most. -/
def State.rank (s : State T) : Nat := (s.pc .producer).rank + (s.pc .consumer).rank

/-- Going on to another point changes the rank by the ranks of the two points. -/
theorem rank_goto (s : State T) (side : Side) (q : Pc) :
    (s.goto side q).rank + (s.pc side).rank = s.rank + q.rank := by
  cases side with
  | producer =>
      rw [State.rank, State.rank, State.goto_pc_self, State.goto_producer_pc_consumer]
      omega
  | consumer =>
      rw [State.rank, State.rank, State.goto_pc_self, State.goto_consumer_pc_producer]
      omega

/-- Going on to a point of a lower rank lowers the rank of the state. -/
theorem rank_goto_lt (s : State T) {p q : Pc} (hpc : s.pc side = p) (hrank : q.rank < p.rank) :
    (s.goto side q).rank + 1 ≤ s.rank := by
  have h := rank_goto s side q
  rw [hpc] at h
  omega

/-- **Every step inside a call** lowers the rank. The notification takes one thread back, by less
than the point `notify` counts for the other one. -/
theorem rank_callMoves (hmove : CallMoves side s t) : t.rank + 1 ≤ s.rank := by
  cases hmove with
  | testEnter hpc hflag => exact rank_goto_lt (s.enter side) hpc (by decide)
  | testWait hpc hflag => exact rank_goto_lt s hpc (by decide)
  | lock hpc hlock free => exact rank_goto_lt s hpc (by cases hlock <;> decide)
  | predicateEnter hpc hflag => exact rank_goto_lt (s.enter side) hpc (by decide)
  | predicateBlock hpc hflag => exact rank_goto_lt s hpc (by decide)
  | block hpc => exact rank_goto_lt s hpc (q := .asleep) (by decide)
  | waitUnlock hpc => exact rank_goto_lt s hpc (q := .bodyLock) (by decide)
  | move hpc =>
      have hpc' : (s.transfer side).pc side = .move := by rw [State.transfer_pc, hpc]
      have hrank : (s.transfer side).rank = s.rank := by
        rw [State.rank, State.transfer_pc, State.rank]
      rw [← hrank]
      exact rank_goto_lt (s.transfer side) hpc' (by decide)
  | flag hpc => exact rank_goto_lt s hpc (q := .notify) (by decide)
  | notify hpc =>
      have hnotify : Pc.notify.rank = 5 := rfl
      have hunlock : Pc.unlock.rank = 1 := rfl
      rw [State.notifyOne_other hpc]
      split
      · next hasleep =>
          -- the thread that is woken has steps again, fewer than the rank falls by
          have hpc' : (s.goto side.other .woken).pc side = .notify := by
            rw [State.goto_other_pc, hpc]
          have hwoken := rank_goto s side.other .woken
          have hgoto := rank_goto (s.goto side.other .woken) side .unlock
          have hup : Pc.woken.rank = Pc.asleep.rank + 3 := rfl
          rw [hasleep] at hwoken
          rw [hpc'] at hgoto
          omega
      · exact rank_goto_lt s hpc (by decide)
  | unlock hpc =>
      have hpc' : (s.finish side).pc side = .unlock := by rw [State.finish_pc, hpc]
      have hrank : (s.finish side).rank = s.rank := by rw [State.rank, State.finish_pc, State.rank]
      rw [← hrank]
      exact rank_goto_lt (s.finish side) hpc' (q := .idle) (by decide)

/-- A call of `set` has all its twelve steps before it: its start raises `State.rank` by twelve. -/
theorem rank_set {value : T} (hstep : step s (.set value) = some t) : t.rank = s.rank + 12 := by
  simp only [step, Option.ite_none_right_eq_some] at hstep
  obtain ⟨hpc, hstep⟩ := hstep
  cases hstep
  have h := rank_goto s .producer .test
  rw [hpc] at h
  exact h

/-- A call of `get` has all its twelve steps before it: its start raises `State.rank` by twelve. -/
theorem rank_get (hstep : step s .get = some t) : t.rank = s.rank + 12 := by
  simp only [step, Option.ite_none_right_eq_some] at hstep
  obtain ⟨hpc, hstep⟩ := hstep
  cases hstep
  have h := rank_goto s .consumer .test
  rw [hpc] at h
  exact h

/-- A spurious wake-up takes a thread back, from its sleep to the lock before the predicate. -/
theorem rank_spurious (hstep : step s (.spurious side) = some t) : t.rank = s.rank + 3 := by
  simp only [step, Option.ite_none_right_eq_some] at hstep
  obtain ⟨hpc, hstep⟩ := hstep
  cases hstep
  have h := rank_goto s side .woken
  rw [hpc] at h
  exact Nat.add_right_cancel h

/-! ## Progress -/

/-- **A thread inside its call** goes on with it, when it is awake and the mutex is free or its
own. -/
theorem advance_isSome (h : s.ControlOf .producer) (hbusy : s.pc side ≠ .idle)
    (hawake : s.pc side ≠ .asleep) (hfree : s.accessor ≠ some side.other) :
    (step s (.advance side)).isSome := by
  have howner := (controlOf_both h side).owner
  have hlocked : (s.pc side).holds = false → s.accessor = none := by
    intro hholds
    cases hacc : s.accessor with
    | none => rfl
    | some owner =>
        rcases Side.eq_or_eq_other side owner with rfl | rfl
        · rw [howner.mp hacc] at hholds
          cases hholds
        · exact absurd hacc hfree
  -- three points need the lock, and it is free
  cases hpc : s.pc side with
  | idle => exact absurd hpc hbusy
  | asleep => exact absurd hpc hawake
  | test => simp only [step, callStep, hpc]; split <;> rfl
  | predicate => simp only [step, callStep, hpc]; split <;> rfl
  | waitLock => simp [step, callStep, hpc, hlocked (by rw [hpc]; rfl)]
  | woken => simp [step, callStep, hpc, hlocked (by rw [hpc]; rfl)]
  | bodyLock => simp [step, callStep, hpc, hlocked (by rw [hpc]; rfl)]
  | block => simp [step, callStep, hpc]
  | waitUnlock => simp [step, callStep, hpc]
  | move => simp [step, callStep, hpc]
  | flag => simp [step, callStep, hpc]
  | notify => simp [step, callStep, hpc]
  | unlock => simp [step, callStep, hpc]

/-- The threads do not sleep both: each sleeps with the value of the flag that the other one waits
for. -/
theorem not_both_asleep (h : s.ControlOf .producer) (hproducer : s.pc .producer = .asleep) :
    s.pc .consumer ≠ .asleep := by
  intro hconsumer
  have hother : s.ControlOf .consumer := h.swap
  cases hfilled : s.isFilled with
  | false =>
      have hnotify := h.asleep hproducer (by rw [hfilled]; rfl)
      cases hconsumer.symm.trans hnotify
  | true =>
      have hnotify := hother.asleep hconsumer (by rw [hfilled]; rfl)
      cases hproducer.symm.trans hnotify

/-- **Everything was returned** when the consumer sleeps and the producer is outside of its calls:
the flag is false then, and no value is in between. -/
theorem returned_eq_given {constructed : T} (h : Unreset constructed s)
    (hproducer : s.pc .producer = .idle) (hconsumer : s.pc .consumer = .asleep) :
    s.returned = s.given := by
  obtain ⟨as, hno, hrun⟩ := h.exists_along
  obtain ⟨hfifo, hhistory⟩ := fifo_run hno hrun
  have hcontrol := controlOf_run hno hrun
  -- the flag is not set, or the consumer was about to be notified
  have hempty : ¬s.Full := by
    rintro (⟨hfilled, -⟩ | hflag)
    · have hnotify := hcontrol.swap.asleep hconsumer hfilled
      cases hproducer.symm.trans hnotify
    · cases hproducer.symm.trans hflag
  have hgiven := hhistory.given_eq
  have htaken := hhistory.taken_eq
  rw [hproducer] at hgiven
  rw [hconsumer] at htaken
  rw [toPlace, if_neg hempty, Option.toList_none, List.append_nil] at hfifo
  rw [hgiven, ← hfifo, htaken]
  simp [Pc.phase]

end ValueExchangeBlocking

end IecCore
