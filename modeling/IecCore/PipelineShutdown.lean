import IecCore.PipelineBuilder

/-! # Shutting the pipeline down

`reset` is meant to release the threads that wait in the exchange, but the flag it raises is down
again before a woken reader has looked at it, and nothing keeps a thread from falling asleep after
`reset` has returned. So `stop` can hang, and it depends on the interleaving whether it does. This
file gives a condition on the steps of a run under which it does not.

* **`pending pc`**, **`Answering s side`** — a thread that is on its way to its `notify_one`.
* **`Attended s a`** — after `reset` has returned, a thread falls asleep only while the other one is
  answering, and the engine does not skip its hand-over while the handler sleeps.
* **`Next`** — the control flow of a call, which `callMoves_next` reads off the exchange.
* **`Inv`** — a sleeping thread is answered; `Inv.call`, `Inv.main`, `Inv.loop`, `Inv.enterCall` and
  `Inv.spurious` are the kinds of steps, put together in **`inv_step`**.
* **`shutdown_of_attended`** — in a run whose steps are all attended `stop` does not hang.
* **`stop_hangs`** — without the condition it does, in the run of `stopWithoutHandOver`. -/

namespace IecCore

universe u

namespace PipelineBuilder

open ValueExchangeBlocking (Side Pc CallMoves)

variable {T : Type u}

/-- The program points of a call from which it goes on to its `notify_one`, the sleep excepted. -/
def pending : Pc → Bool
  | .test | .waitLock | .predicate | .block | .woken | .waitUnlock | .bodyLock | .move | .flag
  | .notify => true
  | .idle | .asleep | .unlock => false

/-- The thread is on its way to its `notify_one`: in a call that has not come to it, or in the body
of its loop, before the call. -/
def Answering (s : State T) (side : Side) : Prop :=
  s.loop side = .body ∨ pending (s.exchange.pc side)

instance (s : State T) (side : Side) : Decidable (Answering s side) :=
  inferInstanceAs (Decidable (_ ∨ _))

/-- After `reset` has returned, a thread falls asleep only while the other one is answering, and the
engine does not end an iteration without a hand-over while the handler sleeps. -/
def Attended (s : State T) : Action T → Prop
  | .call side => s.exchange.resetPc = .done → s.exchange.pc side = .block → Answering s side.other
  | .skip => s.exchange.resetPc = .done → s.exchange.pc .consumer ≠ .asleep
  | .loop _ | .set _ | .get | .main _ | .spurious _ => True

instance (s : State T) : (a : Action T) → Decidable (Attended s a)
  | .call _ | .skip => inferInstanceAs (Decidable (_ → _))
  | .loop _ | .set _ | .get | .main _ | .spurious _ => inferInstanceAs (Decidable True)

/-! ## The exchange -/

/-- A step of a call does not touch `reset`, which is another thread's. -/
theorem callMoves_resetPc {s t : ValueExchangeBlocking.State T} {side : Side}
    (hmove : CallMoves side s t) : t.resetPc = s.resetPc := by
  cases hmove with
  | notify hpc =>
      show (s.notifyOne side.other).resetPc = s.resetPc
      unfold ValueExchangeBlocking.State.notifyOne
      split_ifs <;> rfl
  | move hpc => cases side <;> rfl
  | unlock hpc => cases side <;> rfl
  | _ => rfl

/-- A notification leaves a thread where it is, or wakes it: `.asleep` becomes `.woken`, and no
other point changes. -/
theorem notifyOne_pc (s : ValueExchangeBlocking.State T) (first side : Side) :
    (s.notifyOne first).pc side = s.pc side ∨
      s.pc side = .asleep ∧ (s.notifyOne first).pc side = .woken := by
  have hgoto (x : Side) (hsleep : s.pc x = .asleep) : (s.goto x .woken).pc side = s.pc side ∨
      s.pc side = .asleep ∧ (s.goto x .woken).pc side = .woken := by
    rcases x.eq_or_eq_other side with rfl | rfl
    · exact .inr ⟨hsleep, ValueExchangeBlocking.State.goto_pc_self ..⟩
    · exact .inl (ValueExchangeBlocking.State.goto_pc_other ..)
  unfold ValueExchangeBlocking.State.notifyOne
  split_ifs with hfirst hother
  · exact hgoto first hfirst
  · exact hgoto first.other hother
  · exact .inl rfl

/-- A notification leaves at most one thread asleep, and the other one awake. -/
theorem notifyOne_asleep (s : ValueExchangeBlocking.State T) (first side : Side)
    (hsleep : (s.notifyOne first).pc side = .asleep) :
    (s.notifyOne first).pc side.other = .woken := by
  have hself (x : Side) : (s.goto x .woken).pc x = .woken :=
    ValueExchangeBlocking.State.goto_pc_self s x .woken
  unfold ValueExchangeBlocking.State.notifyOne at hsleep ⊢
  -- `first` is the thread that is woken when both sleep; the other one stays asleep then
  rcases side.eq_or_eq_other first with rfl | rfl
  · split_ifs at hsleep ⊢ with hfirst hother
    · rw [hself] at hsleep
      cases hsleep
    · exact hself first.other
    · exact absurd hsleep hfirst
  · rw [Side.other_other] at hsleep ⊢
    split_ifs at hsleep ⊢ with hfirst hother
    · exact hself side.other
    · rw [hself] at hsleep
      cases hsleep
    · exact absurd hsleep hother

/-- A step of a call leaves the other thread where it is, or wakes it. -/
theorem callMoves_other {s t : ValueExchangeBlocking.State T} {side : Side}
    (hmove : CallMoves side s t) :
    t.pc side.other = s.pc side.other ∨ s.pc side.other = .asleep ∧ t.pc side.other = .woken := by
  cases hmove with
  | notify hpc =>
      rw [ValueExchangeBlocking.State.goto_pc_other]
      exact notifyOne_pc s side.other side.other
  | move hpc =>
      rw [ValueExchangeBlocking.State.goto_pc_other, ValueExchangeBlocking.State.transfer_pc]
      exact .inl rfl
  | unlock hpc =>
      refine .inl ?_
      show ((s.finish side).goto side .idle).pc side.other = _
      rw [ValueExchangeBlocking.State.goto_pc_other, ValueExchangeBlocking.State.finish_pc]
  | _ => exact .inl (ValueExchangeBlocking.State.goto_pc_other ..)

/-- The control flow of a call, from its test to its return, with one constructor for each step. -/
inductive Next : Pc → Pc → Prop
  | testEnter : Next .test .bodyLock
  | testWait : Next .test .waitLock
  | waitLock : Next .waitLock .predicate
  | woken : Next .woken .predicate
  | predicateEnter : Next .predicate .waitUnlock
  | predicateBlock : Next .predicate .block
  | block : Next .block .asleep
  | waitUnlock : Next .waitUnlock .bodyLock
  | bodyLock : Next .bodyLock .move
  | move : Next .move .flag
  | flag : Next .flag .notify
  | notify : Next .notify .unlock
  | unlock : Next .unlock .idle

/-- A step of a call follows its control flow: `Next (s.pc side) (t.pc side)`. -/
theorem callMoves_next {s t : ValueExchangeBlocking.State T} {side : Side}
    (hmove : CallMoves side s t) : Next (s.pc side) (t.pc side) := by
  have hgoto (u : ValueExchangeBlocking.State T) (pc : Pc) : (u.goto side pc).pc side = pc :=
    ValueExchangeBlocking.State.goto_pc_self u side pc
  cases hmove with
  | testEnter hpc hflag => rw [hpc, hgoto]; exact .testEnter
  | testWait hpc hflag => rw [hpc, hgoto]; exact .testWait
  | lock hpc hlock free =>
      -- taking the lock is a step from three points
      show Next _ ((s.goto side _).pc side)
      rw [hpc, hgoto]
      cases hlock with
      | waitLock => exact .waitLock
      | woken => exact .woken
      | bodyLock => exact .bodyLock
  | predicateEnter hpc hflag => rw [hpc, hgoto]; exact .predicateEnter
  | predicateBlock hpc hflag => rw [hpc, hgoto]; exact .predicateBlock
  | block hpc =>
      show Next _ ((s.goto side .asleep).pc side)
      rw [hpc, hgoto]
      exact .block
  | waitUnlock hpc =>
      show Next _ ((s.goto side .bodyLock).pc side)
      rw [hpc, hgoto]
      exact .waitUnlock
  | move hpc => rw [hpc, hgoto]; exact .move
  | flag hpc =>
      show Next _ ((s.goto side .notify).pc side)
      rw [hpc, hgoto]
      exact .flag
  | notify hpc => rw [hpc, hgoto]; exact .notify
  | unlock hpc =>
      show Next _ (((s.finish side).goto side .idle).pc side)
      rw [hpc, hgoto]
      exact .unlock

/-- A thread at its `notify_one` leaves the other one awake, whether or not it was asleep before. -/
theorem callMoves_notify {s t : ValueExchangeBlocking.State T} {side : Side}
    (hmove : CallMoves side s t) (hpc : s.pc side = .notify) : t.pc side.other ≠ .asleep := by
  cases hmove with
  | notify _ =>
      rw [ValueExchangeBlocking.State.goto_pc_other]
      intro hsleep
      -- the notifying thread would have to be the one that the notification woke
      have hwoken := notifyOne_asleep s side.other side.other hsleep
      rw [Side.other_other] at hwoken
      rcases notifyOne_pc s side.other side with hsame | ⟨hasleep, -⟩
      · rw [hsame, hpc] at hwoken
        cases hwoken
      · rw [hpc] at hasleep
        cases hasleep
  | lock h hlock free =>
      rw [hpc] at h
      subst h
      cases hlock
  | testEnter h _ | testWait h _ | predicateEnter h _ | predicateBlock h _ | block h
  | waitUnlock h | move h | flag h | unlock h => rw [hpc] at h; cases h

/-! ## The invariant -/

/-- The invariant of the runs: a thread inside a call of the exchange is at that point of its loop,
the joins come after `reset`, and after `reset` every sleeping thread is answered. -/
structure Inv (s : State T) : Prop where
  calling : ∀ side, s.exchange.pc side ≠ .idle → s.loop side = .calling
  joins : joined s.main ≠ none → s.exchange.resetPc = .done
  answered : s.exchange.resetPc = .done → ∀ side, Asleep s side → Answering s side.other

/-- No thread is inside a call at the start, so that none is asleep. -/
theorem inv_initial (constructed : T) : Inv (initial constructed) where
  calling := fun _ hne => absurd rfl hne
  joins := fun hne => absurd rfl hne
  answered := fun hdone => by cases hdone

/-- A thread inside a call is answering when its program point is pending. -/
theorem Inv.answering_iff {s : State T} (h : Inv s) {side : Side}
    (hne : s.exchange.pc side ≠ .idle) : Answering s side ↔ pending (s.exchange.pc side) := by
  have hloop := h.calling side hne
  constructor
  · rintro (hbody | hpending)
    · rw [hloop] at hbody
      cases hbody
    · exact hpending
  · exact .inr

/-- A thread that does not answer and is not in the body of its loop has no notification to give;
after `reset` the other thread does not wait for one. -/
theorem Inv.awake {s : State T} (h : Inv s) (hdone : s.exchange.resetPc = .done) {side : Side}
    (hbody : s.loop side ≠ .body) (hpending : ¬ pending (s.exchange.pc side)) :
    ¬ Asleep s side.other := by
  intro hsleep
  have hanswer := h.answered hdone side.other hsleep
  rw [Side.other_other] at hanswer
  exact hanswer.elim hbody hpending

/-- **A step of a call** keeps the invariant: who falls asleep is answered by the condition, and who
notifies wakes the other one. -/
theorem Inv.call {s : State T} (h : Inv s) {side : Side} {e : ValueExchangeBlocking.State T}
    (hmove : CallMoves side s.exchange e) (attended : Attended s (.call side)) :
    Inv { s with exchange := e } := by
  have hnext := callMoves_next hmove
  have hother := callMoves_other hmove
  have hreset := callMoves_resetPc hmove
  have hin : s.exchange.pc side ≠ .idle := by
    intro hidle
    rw [hidle] at hnext
    cases hnext
  have hbody : s.loop side ≠ .body := by
    rw [h.calling side hin]
    decide
  refine ⟨fun x hx => ?_, fun hne => ?_, fun hdone x hx => ?_⟩
  · rcases side.eq_or_eq_other x with rfl | rfl
    · exact h.calling x hin
    · refine h.calling side.other fun hidle => ?_
      rcases hother with hsame | ⟨hsleep, -⟩
      · exact hx (hsame.trans hidle)
      · rw [hidle] at hsleep
        cases hsleep
  · rw [← h.joins hne]
    exact hreset
  · have hdone' : s.exchange.resetPc = .done := hreset.symm.trans hdone
    have hsleep : e.pc x = .asleep := hx
    rcases side.eq_or_eq_other x with rfl | rfl
    · -- the thread has just fallen asleep
      rw [hsleep] at hnext
      have hblock : s.exchange.pc x = .block := by
        generalize hpc : s.exchange.pc x = pc at hnext
        cases hnext
        rfl
      rcases attended hdone' hblock with hloop | hpending
      · exact .inl hloop
      · rcases hother with hsame | ⟨hasleep, -⟩
        · exact .inr (hsame ▸ hpending)
        · rw [hasleep] at hpending
          cases hpending
    · -- the other thread sleeps on
      have hsleep' : s.exchange.pc side.other = .asleep := by
        rcases hother with hsame | ⟨-, hwoken⟩
        · exact hsame.symm.trans hsleep
        · rw [hwoken] at hsleep
          cases hsleep
      have hpending : pending (s.exchange.pc side) := by
        by_contra hnot
        exact h.awake hdone' hbody hnot hsleep'
      rw [Side.other_other]
      refine .inr ?_
      show pending (e.pc side) = true
      generalize hpc : s.exchange.pc side = pc at hnext hpending
      generalize e.pc side = pc' at hnext
      cases hnext with
      | block =>
          have hanswer := attended hdone' hpc
          have hne : s.exchange.pc side.other ≠ .idle := by rw [hsleep']; decide
          rw [h.answering_iff hne, hsleep'] at hanswer
          cases hanswer
      | notify => exact absurd hsleep (callMoves_notify hmove hpc)
      | unlock => cases hpending
      | _ => rfl

/-- A step outside the exchange and the loops keeps the invariant. -/
theorem Inv.frame {s t : State T} (h : Inv s) (hexchange : t.exchange = s.exchange)
    (hloop : t.loop = s.loop) (hjoins : joined t.main ≠ none → s.exchange.resetPc = .done) :
    Inv t := by
  obtain ⟨exchange, running, loop, main⟩ := t
  dsimp only at hexchange hloop hjoins
  subst hexchange hloop
  exact ⟨h.calling, hjoins, h.answered⟩

/-- A statement of `reset` keeps the invariant; its last one establishes that every sleeping thread
is answered, whatever the threads did before. -/
theorem Inv.reset {s : State T} (h : Inv s) {first : Side} {e : ValueExchangeBlocking.State T}
    (hstep : ValueExchangeBlocking.resetStep first s.exchange = some e) :
    Inv { s with exchange := e, main := if e.resetPc = .done then .joinEngine else .reset } := by
  have hjoins : joined (if e.resetPc = .done then .joinEngine else .reset) ≠ none →
      e.resetPc = .done := by
    intro hne
    by_contra hnot
    rw [if_neg hnot] at hne
    exact hne rfl
  have hcalling (x : Side) (hx : (s.exchange.notifyOne first).pc x ≠ .idle) :
      s.loop x = .calling := by
    refine h.calling x fun hidle => ?_
    rcases notifyOne_pc s.exchange first x with hsame | ⟨hsleep, -⟩
    · exact hx (hsame.trans hidle)
    · rw [hidle] at hsleep
      cases hsleep
  unfold ValueExchangeBlocking.resetStep at hstep
  cases hpc : s.exchange.resetPc with
  | fill =>
      rw [hpc] at hstep
      cases hstep
      exact ⟨h.calling, hjoins, fun hdone => by cases hdone⟩
  | notifyReader =>
      rw [hpc] at hstep
      cases hstep
      exact ⟨hcalling, hjoins, fun hdone => by cases hdone⟩
  | clear =>
      rw [hpc] at hstep
      cases hstep
      exact ⟨h.calling, hjoins, fun hdone => by cases hdone⟩
  -- the last notification of `reset`: who still sleeps behind it sleeps while the other one was
  -- woken
  | notifyWriter =>
      rw [hpc] at hstep
      cases hstep
      refine ⟨hcalling, hjoins, fun _ x hx => .inr ?_⟩
      show pending ((s.exchange.notifyOne first).pc x.other) = true
      rw [notifyOne_asleep s.exchange first x hx]
      rfl
  | done =>
      rw [hpc] at hstep
      cases hstep

/-- **A step of `stop`** keeps the invariant, before `reset` has returned as well as behind it. -/
theorem Inv.main {s t : State T} (h : Inv s) {first : Side} (hstep : mainStep first s = some t) :
    Inv t := by
  unfold mainStep at hstep
  cases hmain : s.main with
  | stopEngine =>
      rw [hmain] at hstep
      cases hstep
      exact h.frame rfl rfl fun hne => absurd rfl hne
  | stopHandler =>
      rw [hmain] at hstep
      cases hstep
      exact h.frame rfl rfl fun hne => absurd rfl hne
  | reset =>
      rw [hmain] at hstep
      obtain ⟨e, he, rfl⟩ := Option.map_eq_some_iff.mp hstep
      exact h.reset he
  -- both joins are behind `reset`, so that what holds of the sleeping threads does not change
  | joinEngine =>
      simp only [hmain, Option.ite_none_right_eq_some] at hstep
      cases hstep.2
      exact h.frame rfl rfl fun _ => h.joins (by rw [hmain]; decide)
  | joinHandler =>
      simp only [hmain, Option.ite_none_right_eq_some] at hstep
      cases hstep.2
      exact h.frame rfl rfl fun hne => absurd rfl hne
  | done =>
      rw [hmain] at hstep
      cases hstep

/-- A thread outside the body of its loop and outside a call may go on in its loop; nobody waits for
it after `reset`. -/
theorem Inv.goto {s : State T} (h : Inv s) {side : Side} (pc : LoopPc)
    (hidle : s.exchange.pc side = .idle)
    (hwaits : s.exchange.resetPc = .done → ¬ Asleep s side.other) : Inv (s.goto side pc) := by
  refine ⟨fun x hx => ?_, h.joins, fun hdone x hx => ?_⟩
  · rcases side.eq_or_eq_other x with rfl | rfl
    · exact absurd hidle hx
    · rw [← h.calling side.other hx]
      exact Function.update_of_ne side.other_ne _ _
  · rcases side.eq_or_eq_other x with rfl | rfl
    · have hloop : (s.goto x pc).loop x.other = s.loop x.other :=
        Function.update_of_ne x.other_ne _ _
      exact (h.answered hdone x hx).imp_left hloop.trans
    · exact absurd hx (hwaits hdone)

/-- A thread in the body of its loop is not inside a call: `s.exchange.pc side = .idle` unless its
loop is `.calling`. -/
theorem Inv.idle {s : State T} (h : Inv s) (side : Side) (hloop : s.loop side ≠ .calling) :
    s.exchange.pc side = .idle := by
  by_contra hne
  exact hloop (h.calling side hne)

/-- **A step of a loop** keeps the invariant: a thread that is not inside a call answers nobody. -/
theorem Inv.loop {s t : State T} (h : Inv s) {side : Side} (hstep : loopStep side s = some t) :
    Inv t := by
  unfold loopStep at hstep
  cases hloop : s.loop side with
  | top =>
      have hidle := h.idle side (by rw [hloop]; decide)
      rw [hloop] at hstep
      cases hstep
      exact h.goto _ hidle fun hdone => h.awake hdone (by rw [hloop]; decide)
        (by rw [hidle]; decide)
  | body =>
      rw [hloop] at hstep
      cases hstep
  -- the call has returned, so that the thread is not asleep
  | calling =>
      simp only [hloop, Option.ite_none_right_eq_some] at hstep
      obtain ⟨hidle, hstep⟩ := hstep
      cases hstep
      exact h.goto _ hidle fun hdone => h.awake hdone (by rw [hloop]; decide)
        (by rw [hidle]; decide)
  | exited =>
      rw [hloop] at hstep
      cases hstep

/-- **A call of the exchange** keeps the invariant: the thread that calls answers. -/
theorem Inv.enterCall {s : State T} (h : Inv s) {side : Side} {e : ValueExchangeBlocking.State T}
    (htest : e.pc side = .test) (hother : e.pc side.other = s.exchange.pc side.other)
    (hreset : e.resetPc = s.exchange.resetPc) :
    Inv { s.goto side .calling with exchange := e } := by
  have hself : (s.goto side .calling).loop side = .calling := Function.update_self ..
  have hloop : (s.goto side .calling).loop side.other = s.loop side.other :=
    Function.update_of_ne side.other_ne _ _
  refine ⟨fun x hx => ?_, fun hne => hreset.trans (h.joins hne), fun hdone x hx => ?_⟩
  · rcases side.eq_or_eq_other x with rfl | rfl
    · exact hself
    · exact hloop.trans (h.calling side.other fun hidle => hx (hother.trans hidle))
  · -- the thread that calls is at its test, and answers whoever sleeps
    have hsleep : e.pc x = .asleep := hx
    rcases side.eq_or_eq_other x with rfl | rfl
    · rw [htest] at hsleep
      cases hsleep
    · rw [Side.other_other]
      exact .inr (congrArg pending htest)

/-- A thread that wakes up without a notification answers: it keeps the invariant, as it tests its
predicate again. -/
theorem Inv.spurious {s : State T} (h : Inv s) {side : Side} (hsleep : Asleep s side) :
    Inv { s with exchange := s.exchange.goto side .woken } := by
  have hself : (s.exchange.goto side .woken).pc side = .woken :=
    ValueExchangeBlocking.State.goto_pc_self ..
  have hother : (s.exchange.goto side .woken).pc side.other = s.exchange.pc side.other :=
    ValueExchangeBlocking.State.goto_pc_other ..
  -- the woken thread is not asleep any more, and the other one has not moved
  refine ⟨fun x hx => ?_, h.joins, fun hdone x hx => ?_⟩
  · rcases side.eq_or_eq_other x with rfl | rfl
    · refine h.calling x fun hidle => ?_
      rw [Asleep, hidle] at hsleep
      cases hsleep
    · exact h.calling side.other fun hidle => hx (hother.trans hidle)
  · rcases side.eq_or_eq_other x with rfl | rfl
    · rw [Asleep, hself] at hx
      cases hx
    · rw [Side.other_other]
      exact .inr (congrArg pending hself)

/-- **One step.** An attended step keeps the invariant, whichever thread makes it. -/
theorem inv_step {s t : State T} {a : Action T} (h : Inv s) (attended : Attended s a)
    (hstep : step s a = some t) : Inv t := by
  cases a with
  | loop side => exact h.loop hstep
  -- the engine hands nothing over: this is attended only while the handler does not sleep
  | skip =>
      simp only [step, Option.ite_none_right_eq_some] at hstep
      obtain ⟨hbody, hstep⟩ := hstep
      cases hstep
      exact h.goto _ (h.idle .producer (by rw [hbody]; decide)) attended
  | set value =>
      simp only [step, PipelineBuilder.enterCall, Option.ite_none_right_eq_some] at hstep
      obtain ⟨e, he, rfl⟩ := Option.map_eq_some_iff.mp hstep.2
      simp only [ValueExchangeBlocking.step, Option.ite_none_right_eq_some] at he
      cases he.2
      exact h.enterCall (ValueExchangeBlocking.State.goto_pc_self s.exchange .producer .test)
        (ValueExchangeBlocking.State.goto_pc_other s.exchange .producer .test) rfl
  | get =>
      simp only [step, PipelineBuilder.enterCall, Option.ite_none_right_eq_some] at hstep
      obtain ⟨e, he, rfl⟩ := Option.map_eq_some_iff.mp hstep.2
      simp only [ValueExchangeBlocking.step, Option.ite_none_right_eq_some] at he
      cases he.2
      exact h.enterCall (ValueExchangeBlocking.State.goto_pc_self s.exchange .consumer .test)
        (ValueExchangeBlocking.State.goto_pc_other s.exchange .consumer .test) rfl
  | call side =>
      obtain ⟨e, he, rfl⟩ := Option.map_eq_some_iff.mp hstep
      exact h.call (ValueExchangeBlocking.callMoves_of_callStep he) attended
  | main first => exact h.main hstep
  | spurious side =>
      obtain ⟨e, he, rfl⟩ := Option.map_eq_some_iff.mp hstep
      simp only [ValueExchangeBlocking.step, Option.ite_none_right_eq_some] at he
      cases he.2
      exact h.spurious he.1

/-! ## Shutdown -/

/-- Under the invariant `stop` does not hang: a sleeping thread has another one that will wake
it. -/
theorem Inv.not_hung {s : State T} (h : Inv s) : ¬ Hung s := by
  rintro ⟨⟨side, hjoined, hsleep⟩, hall⟩
  have hdone : s.exchange.resetPc = .done := h.joins (by rw [hjoined]; exact Option.some_ne_none _)
  -- the thread that is joined sleeps, so that the other one answers; but it has returned, or sleeps
  have hanswer := h.answered hdone side hsleep
  rcases hall side.other with hexited | hsleep'
  · have hidle := h.idle side.other (by rw [hexited]; decide)
    rcases hanswer with hbody | hpending
    · rw [hexited] at hbody
      cases hbody
    · rw [hidle] at hpending
      cases hpending
  · have hne : s.exchange.pc side.other ≠ .idle := by
      intro hidle
      rw [Asleep, hidle] at hsleep'
      cases hsleep'
    rw [h.answering_iff hne, hsleep'] at hanswer
    cases hanswer

/-- **Shutdown.** In every run whose steps are all attended, `stop` hangs in no state the run
reaches. -/
theorem shutdown_of_attended (constructed : T) (as : List (Action T)) (s : State T)
    (attended : (pipeline constructed).Along Attended (pipeline constructed).init as)
    (hrun : (pipeline constructed).run (pipeline constructed).init as = some s) : ¬ Hung s := by
  have hinv : Inv s :=
    (pipeline constructed).run_invariant (fun _ _ _ hs ok hstep => inv_step hs ok hstep)
      (inv_initial constructed) attended hrun
  exact hinv.not_hung

/-- A run in which `stop` is called while the handler sleeps and the engine is about to hand a
buffer over: the handler is woken, looks at the flag that is down again and goes back to sleep, and
the engine hands over. -/
def stopAtHandOver : List (Action Nat) :=
  List.flatten [[.loop .consumer, .get], List.replicate 4 (.call .consumer), [.loop .producer],
    List.replicate 6 (.main .consumer), List.replicate 3 (.call .consumer), [.set 7],
    List.replicate 6 (.call .producer)]

/-- Every step of `stopAtHandOver` is attended, and the engine wakes the handler for good. -/
theorem shutdown_of_attended_handover :
    (pipeline 0).Along Attended (pipeline 0).init stopAtHandOver ∧
      ∃ s, (pipeline 0).run (pipeline 0).init stopAtHandOver = some s ∧ s.main = .joinEngine ∧
        ¬ Hung s := by
  have attended : (pipeline 0).Along Attended (pipeline 0).init stopAtHandOver := by decide
  obtain ⟨s, hrun⟩ : ∃ s, (pipeline 0).run (pipeline 0).init stopAtHandOver = some s := ⟨_, rfl⟩
  have hmain : ((pipeline 0).run (pipeline 0).init stopAtHandOver).map State.main
      = some .joinEngine := by decide
  rw [hrun] at hmain
  exact ⟨attended, s, hrun, Option.some.inj hmain,
    shutdown_of_attended 0 stopAtHandOver s attended hrun⟩

/-- A run in which `stop` is called while the handler sleeps and the engine has nothing to hand
over: the handler is woken, looks at the flag that is down again and goes back to sleep, and the
engine exits. -/
def stopWithoutHandOver : List (Action Nat) :=
  List.flatten [[.loop .consumer, .get], List.replicate 4 (.call .consumer),
    List.replicate 6 (.main .consumer), List.replicate 3 (.call .consumer),
    [.loop .producer, .main .consumer]]

/-- **Hanging**: nobody wakes the handler again, and `stop` waits for it. A run that hangs
exists. -/
theorem stop_hangs : ¬ ∀ as s, (pipeline 0).run (pipeline 0).init as = some s → ¬ Hung s := by
  intro hall
  obtain ⟨s, hrun⟩ : ∃ s,
      (pipeline 0).run (pipeline 0).init stopWithoutHandOver = some s := ⟨_, rfl⟩
  have hstate : ((pipeline 0).run (pipeline 0).init stopWithoutHandOver).map (fun s =>
      (s.main, s.exchange.pc .consumer, s.loop .producer))
      = some (.joinHandler, .asleep, .exited) := by decide
  rw [hrun] at hstate
  obtain ⟨hmain, hsleep, hexited⟩ : s.main = .joinHandler ∧ s.exchange.pc .consumer = .asleep ∧
      s.loop .producer = .exited := by
    simpa using hstate
  refine hall stopWithoutHandOver s hrun ⟨⟨.consumer, by rw [hmain]; rfl, hsleep⟩, fun side => ?_⟩
  cases side with
  | producer => exact .inl hexited
  | consumer => exact .inr hsleep

end PipelineBuilder

end IecCore
