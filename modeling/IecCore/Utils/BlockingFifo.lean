import IecCore.Lib.OnePlace
import IecCore.Utils.ValueExchangeBlocking

/-! # The blocking exchange is a one-place channel

Without `reset`, the flag is written only under the mutex, by the thread that saw the other value,
so a passed test of the flag stays true until the body although the test is made outside the lock
and the lock is dropped between the wait and the body.

* **`Control`** — the invariant of the flag, the mutex and the program points.
* **`History`** — how the recorded values depend on the program points.
* **`blocking_channel`** — every run without `reset` is a run of the one-place channel.
* **`blocking_fifo`** — prefix order, at most one value in flight, and no deadlock. -/

namespace IecCore

universe u

namespace ValueExchangeBlocking

variable {T : Type u}

/-- The step is none of `reset`. The results of this file are about the runs in which nobody calls
it. -/
def NoReset (_ : State T) (a : Action T) : Prop := ∀ first, a ≠ .reset first

/-! ## Control -/

/-- The mutex, the flag and the program points of a thread and of the other one, without `reset`:
the mutex is owned by the thread at a point that holds it; a passed test stays true until the thread
itself writes the flag; a thread about to sleep has seen a flag that nobody could change since; and
a sleeping thread whose flag has come is about to be notified. -/
structure Control (accessor : Option Side) (isFilled : Bool) (side : Side) (own other : Pc) :
    Prop where
  owner : accessor = some side ↔ own.holds
  owner_other : accessor = some side.other ↔ other.holds
  entered : own.entered → isFilled = awaits side
  entered_other : other.entered → isFilled = !awaits side
  block : own = .block → isFilled = !awaits side
  block_other : other = .block → isFilled = awaits side
  asleep : own = .asleep → isFilled = awaits side → other = .notify
  asleep_other : other = .asleep → isFilled = !awaits side → own = .notify

/-- The control invariant of a state, seen from one side: `Control` of the mutex, the flag and both
program points. -/
def State.ControlOf (s : State T) (side : Side) : Prop :=
  Control s.accessor s.isFilled side (s.pc side) (s.pc side.other)

/-- Control looks the same from both sides, since each of its clauses is symmetric. -/
theorem State.ControlOf.swap {s : State T} {side : Side} (h : s.ControlOf side) :
    s.ControlOf side.other := by
  obtain ⟨owner, owner', entered, entered', block, block', asleep, asleep'⟩ := h
  constructor
  all_goals simpa

/-- A notification by a thread at its `notify` reaches the other thread if that one sleeps, and
nobody else. -/
theorem State.notifyOne_other {s : State T} {side : Side} (hpc : s.pc side = .notify) :
    s.notifyOne side.other
      = if s.pc side.other = .asleep then s.goto side.other .woken else s := by
  simp [State.notifyOne, hpc]

/-- The control invariant, seen from one side, holds seen from both. -/
theorem controlOf_both {s : State T} {side : Side} (h : s.ControlOf side) (side' : Side) :
    s.ControlOf side' := by
  rcases Side.eq_or_eq_other side side' with rfl | rfl
  · exact h
  · exact h.swap

/-- Two threads never hold the mutex together: each of them would be its owner. -/
theorem State.ControlOf.exclusive {s : State T} {side : Side} (h : s.ControlOf side)
    (hholds : (s.pc side).holds) : (s.pc side.other).holds = false := by
  have howner := h.owner.mpr hholds
  by_contra hother
  have := h.owner_other.mpr (by simpa using hother)
  rw [howner] at this
  exact side.ne_other (Option.some.inj this)

/-- Going on to another point, with another owner of the mutex, when the flag stays. The other
thread is not left asleep by a thread that was about to notify it. -/
theorem State.ControlOf.goto {s : State T} {side : Side} {p q : Pc} (h : s.ControlOf side)
    (hpc : s.pc side = p) {accessor : Option Side} (howner : accessor = some side ↔ q.holds)
    (hother : accessor = some side.other ↔ s.accessor = some side.other)
    (hentered : q.entered → s.isFilled = awaits side)
    (hblock : q = .block ∨ q = .asleep → s.isFilled = !awaits side)
    (hnotify : p = .notify → s.pc side.other ≠ .asleep) :
    ({ s.goto side q with accessor } : State T).ControlOf side := by
  show Control accessor s.isFilled side ((s.goto side q).pc side) ((s.goto side q).pc side.other)
  rw [State.goto_pc_self, State.goto_pc_other]
  refine ⟨howner, hother.trans h.owner_other, hentered, h.entered_other,
    fun hq => hblock (.inl hq), h.block_other, ?_, ?_⟩
  · intro hq hfilled
    rw [hblock (.inr hq)] at hfilled
    exact ((Bool.not_eq_self _).mp hfilled).elim
  · intro hasleep hfilled
    exact absurd hasleep (hnotify (hpc.symm.trans (h.asleep_other hasleep hfilled)))

/-- Going on to another point that holds the mutex precisely when the point before did; the flag has
to be what the new point goes by. -/
theorem State.ControlOf.goto_same {s : State T} {side : Side} {p q : Pc} (h : s.ControlOf side)
    (hpc : s.pc side = p) (hholds : p.holds = q.holds)
    (hentered : q.entered → s.isFilled = awaits side)
    (hblock : q = .block ∨ q = .asleep → s.isFilled = !awaits side)
    (hnotify : p = .notify → s.pc side.other ≠ .asleep) : (s.goto side q).ControlOf side := by
  have howner := h.owner
  rw [hpc, hholds] at howner
  exact h.goto hpc howner Iff.rfl hentered hblock hnotify

/-- Going on with the mutex, which was free, at a lock statement. -/
theorem State.ControlOf.acquire {s : State T} {side : Side} {p q : Pc} (h : s.ControlOf side)
    (hpc : s.pc side = p) (hlock : Locks p q) (free : s.accessor = none) :
    ({ s.goto side q with accessor := some side } : State T).ControlOf side := by
  have hentered := h.entered
  rw [hpc] at hentered
  have hother : some side = some side.other ↔ s.accessor = some side.other := by
    rw [free]
    exact iff_of_false (fun heq => side.ne_other (Option.some.inj heq)) (by simp)
  cases hlock with
  | waitLock =>
      exact h.goto hpc (iff_of_true rfl rfl) hother (by simp [Pc.entered]) (by simp) (by simp)
  | woken =>
      exact h.goto hpc (iff_of_true rfl rfl) hother (by simp [Pc.entered]) (by simp) (by simp)
  | bodyLock =>
      exact h.goto hpc (iff_of_true rfl rfl) hother (fun _ => hentered rfl) (by simp) (by simp)

/-- Going on without the mutex, which the thread held before; a thread that goes to sleep has seen
the flag under it. -/
theorem State.ControlOf.release {s : State T} {side : Side} {p q : Pc} (h : s.ControlOf side)
    (hpc : s.pc side = p) (hheld : p.holds) (hholds : q.holds = false)
    (hentered : q.entered → s.isFilled = awaits side)
    (hblock : q = .block ∨ q = .asleep → s.isFilled = !awaits side) (hnotify : p ≠ .notify) :
    ({ s.goto side q with accessor := none } : State T).ControlOf side := by
  have howner : s.accessor = some side := h.owner.mpr (by rwa [hpc])
  refine h.goto hpc ?_ ?_ hentered hblock fun heq => absurd heq hnotify
  · rw [hholds]
    exact iff_of_false (by simp) (by simp)
  · rw [howner]
    exact iff_of_false (by simp) fun heq => side.ne_other (Option.some.inj heq)

/-- Writing the flag. The other thread is not between its predicate and its sleep: that needs the
mutex. -/
theorem State.ControlOf.flag {s : State T} {side : Side} (h : s.ControlOf side)
    (hpc : s.pc side = .flag) :
    ({ s.goto side .notify with isFilled := leaves side, forged := false } :
      State T).ControlOf side := by
  have hholds : (s.pc side).holds := by rw [hpc]; rfl
  have hblock : s.pc side.other ≠ .block := by
    intro heq
    have hother := h.exclusive hholds
    rw [heq] at hother
    cases hother
  show Control s.accessor (leaves side) side ((s.goto side .notify).pc side)
    ((s.goto side .notify).pc side.other)
  rw [State.goto_pc_self, State.goto_pc_other, leaves_eq]
  exact ⟨iff_of_true (h.owner.mpr hholds) rfl, h.owner_other, by simp [Pc.entered], fun _ => rfl,
    by simp, fun heq => absurd heq hblock, by simp, fun _ _ => rfl⟩

/-- **Every step inside a call** keeps the control invariant: the flag is written under the mutex,
by the thread that saw the other value. -/
theorem controlOf_callMoves {s t : State T} {side : Side} (h : s.ControlOf side)
    (hmove : CallMoves side s t) : t.ControlOf side := by
  cases hmove with
  -- the flag was tested without the lock, which nobody can change before the thread has it
  | testEnter hpc hflag =>
      have henter : (s.enter side).ControlOf side := h
      exact henter.goto_same hpc rfl (fun _ => hflag) (by simp) (by simp)
  | testWait hpc hflag => exact h.goto_same hpc rfl (by simp [Pc.entered]) (by simp) (by simp)
  | lock hpc hlock free => exact h.acquire hpc hlock free
  | predicateEnter hpc hflag =>
      have henter : (s.enter side).ControlOf side := h
      exact henter.goto_same hpc rfl (fun _ => hflag) (by simp) (by simp)
  | predicateBlock hpc hflag =>
      exact h.goto_same hpc rfl (by simp [Pc.entered]) (fun _ => Bool.eq_not.mpr hflag) (by simp)
  -- the wait gives the lock away
  | block hpc =>
      exact h.release hpc rfl rfl (by simp [Pc.entered]) (fun _ => h.block hpc) (by simp)
  | waitUnlock hpc =>
      exact h.release hpc rfl rfl (fun _ => h.entered (by rw [hpc]; rfl)) (by simp) (by simp)
  | move hpc =>
      have htransfer : (s.transfer side).ControlOf side := by cases side <;> exact h
      have hfilled : (s.transfer side).isFilled = awaits side := by
        rw [State.transfer_isFilled]
        exact h.entered (by rw [hpc]; rfl)
      have hpc' : (s.transfer side).pc side = .move := by rw [State.transfer_pc, hpc]
      exact htransfer.goto_same hpc' rfl (fun _ => hfilled) (by simp) (by simp)
  | flag hpc => exact h.flag hpc
  | notify hpc =>
      rw [State.notifyOne_other hpc]
      split
      · -- the notification wakes the other thread, which has to take the lock first
        next hasleep =>
          have hwoken : (s.goto side.other .woken).ControlOf side.other :=
            h.swap.goto_same hasleep rfl (by simp [Pc.entered]) (by simp) (by simp)
          have hpc' : (s.goto side.other .woken).pc side = .notify := by
            rw [State.goto_other_pc, hpc]
          exact (controlOf_both hwoken side).goto_same hpc' rfl (by simp [Pc.entered]) (by simp)
            (by simp)
      · next hawake =>
          exact h.goto_same hpc rfl (by simp [Pc.entered]) (by simp) fun _ => hawake
  | unlock hpc =>
      have hfinish : (s.finish side).ControlOf side := by cases side <;> exact h
      have hpc' : (s.finish side).pc side = .unlock := by rw [State.finish_pc, hpc]
      exact hfinish.release hpc' rfl rfl (by simp [Pc.entered]) (by simp) (by simp)

/-- Every step but those of `reset`, which writes the flag without the mutex, keeps the control
invariant. -/
theorem controlOf_step {s t : State T} {a : Action T} (h : s.ControlOf .producer)
    (hok : NoReset s a) (hstep : step s a = some t) : t.ControlOf .producer := by
  cases a with
  | set value =>
      simp only [step, Option.ite_none_right_eq_some] at hstep
      obtain ⟨hpc, hstep⟩ := hstep
      cases hstep
      have htest : (s.goto .producer .test).ControlOf .producer :=
        h.goto_same hpc rfl (by simp [Pc.entered]) (by simp) (by simp)
      exact htest
  | get =>
      simp only [step, Option.ite_none_right_eq_some] at hstep
      obtain ⟨hpc, hstep⟩ := hstep
      cases hstep
      have htest : (s.goto .consumer .test).ControlOf .consumer :=
        (controlOf_both h _).goto_same hpc rfl (by simp [Pc.entered]) (by simp) (by simp)
      -- a step of either side is seen from that side
      exact controlOf_both htest _
  | advance side =>
      exact controlOf_both
        (controlOf_callMoves (controlOf_both h side) (callMoves_of_callStep hstep)) _
  | reset first => exact absurd rfl (hok first)
  | spurious side =>
      simp only [step, Option.ite_none_right_eq_some] at hstep
      obtain ⟨hpc, hstep⟩ := hstep
      cases hstep
      have hwoken : (s.goto side .woken).ControlOf side :=
        (controlOf_both h _).goto_same hpc rfl (by simp [Pc.entered]) (by simp) (by simp)
      exact controlOf_both hwoken _

/-- Both threads of a constructed exchange are outside their calls, and nobody owns the mutex. -/
theorem controlOf_initial (constructed : T) : (initial constructed).ControlOf .producer := by
  constructor <;> simp [initial, Pc.holds, Pc.entered]

/-! ## History -/

/-- How the history depends on the program points: the parameter of a `set` is given but not stored
before the move, a `set` is stored but not completed after it, and the value of a `get` is taken but
not returned after it. -/
structure History (s : State T) : Prop where
  given_eq : s.given
    = s.stored ++ if (s.pc .producer).phase = .before then [s.argument] else []
  completed_eq : s.stored.length
    = s.completed + if (s.pc .producer).phase = .after then 1 else 0
  taken_eq : s.taken.map Prod.snd
    = s.returned ++ if (s.pc .consumer).phase = .after then [s.result] else []

/-- Going on to another point of the same part of the call keeps the history. -/
theorem History.goto {s : State T} (h : History s) (side : Side) (pc : Pc)
    (hphase : pc.phase = (s.pc side).phase) : History (s.goto side pc) := by
  obtain ⟨hgiven, hcompleted, htaken⟩ := h
  have hsame : ∀ side', ((s.goto side pc).pc side').phase = (s.pc side').phase := by
    intro side'
    rcases Side.eq_or_eq_other side side' with rfl | rfl
    · rw [State.goto_pc_self, hphase]
    · rw [State.goto_pc_other]
  constructor
  · rw [hsame]; exact hgiven
  · rw [hsame]; exact hcompleted
  · rw [hsame]; exact htaken

/-- **Every step inside a call** keeps the history: a move appends to `stored` or `taken` what the
return will count. -/
theorem history_callMoves {s t : State T} {side : Side} (h : History s)
    (hmove : CallMoves side s t) : History t := by
  -- only the move and the return lead to another part of the call
  cases hmove with
  | testEnter hpc hflag =>
      have henter : History (s.enter side) := ⟨h.1, h.2, h.3⟩
      exact henter.goto side _ (by simp [hpc, Pc.phase])
  | testWait hpc hflag => exact h.goto side _ (by simp [hpc, Pc.phase])
  | lock hpc hlock free =>
      cases hlock with
      | waitLock =>
          have hgoto := h.goto side .predicate (by simp [hpc, Pc.phase])
          exact ⟨hgoto.1, hgoto.2, hgoto.3⟩
      | woken =>
          have hgoto := h.goto side .predicate (by simp [hpc, Pc.phase])
          exact ⟨hgoto.1, hgoto.2, hgoto.3⟩
      | bodyLock =>
          have hgoto := h.goto side .move (by simp [hpc, Pc.phase])
          exact ⟨hgoto.1, hgoto.2, hgoto.3⟩
  | predicateEnter hpc hflag =>
      have henter : History (s.enter side) := ⟨h.1, h.2, h.3⟩
      exact henter.goto side _ (by simp [hpc, Pc.phase])
  | predicateBlock hpc hflag => exact h.goto side _ (by simp [hpc, Pc.phase])
  | block hpc =>
      have hgoto := h.goto side .asleep (by simp [hpc, Pc.phase])
      exact ⟨hgoto.1, hgoto.2, hgoto.3⟩
  | waitUnlock hpc =>
      have hgoto := h.goto side .bodyLock (by simp [hpc, Pc.phase])
      exact ⟨hgoto.1, hgoto.2, hgoto.3⟩
  | move hpc =>
      obtain ⟨hgiven, hcompleted, htaken⟩ := h
      cases side with
      | producer =>
          constructor
          · simpa [State.goto_pc_self, Pc.phase, hpc, State.transfer, State.goto] using hgiven
          · simpa [State.goto_pc_self, Pc.phase, hpc, State.transfer, State.goto] using hcompleted
          · rw [State.goto_producer_pc_consumer]; exact htaken
      | consumer =>
          constructor
          · rw [State.goto_consumer_pc_producer]; exact hgiven
          · rw [State.goto_consumer_pc_producer]; exact hcompleted
          · simpa [State.goto_pc_self, Pc.phase, hpc, State.transfer, State.goto] using htaken
  | flag hpc =>
      have hgoto := h.goto side .notify (by simp [hpc, Pc.phase])
      exact ⟨hgoto.1, hgoto.2, hgoto.3⟩
  | notify hpc =>
      rw [State.notifyOne_other hpc]
      split
      · next hsleep =>
          refine (h.goto side.other .woken (by simp [hsleep, Pc.phase])).goto side .unlock ?_
          simp [hpc, Pc.phase]
      · exact h.goto side .unlock (by simp [hpc, Pc.phase])
  | unlock hpc =>
      obtain ⟨hgiven, hcompleted, htaken⟩ := h
      cases side with
      | producer =>
          have hother := (s.finish .producer).goto_producer_pc_consumer .idle
          constructor
          · simpa [State.goto_pc_self, Pc.phase, hpc, State.finish, State.goto] using hgiven
          · simpa [State.goto_pc_self, Pc.phase, hpc, State.finish, State.goto] using hcompleted
          · exact (hother ▸ htaken :)
      | consumer =>
          have hother := (s.finish .consumer).goto_consumer_pc_producer .idle
          constructor
          · exact (hother ▸ hgiven :)
          · exact (hother ▸ hcompleted :)
          · simpa [State.goto_pc_self, Pc.phase, hpc, State.finish, State.goto] using htaken

/-- Every step but those of `reset` keeps the history; a new call is given a value and has moved
none. -/
theorem history_step {s t : State T} {a : Action T} (h : History s) (hok : NoReset s a)
    (hstep : step s a = some t) : History t := by
  cases a with
  | set value =>
      simp only [step, Option.ite_none_right_eq_some] at hstep
      obtain ⟨hpc, hstep⟩ := hstep
      cases hstep
      obtain ⟨hgiven, hcompleted, htaken⟩ := h
      have hother := s.goto_producer_pc_consumer .test
      constructor
      · simpa [State.goto_pc_self, Pc.phase, hpc, State.goto] using hgiven
      · simpa [State.goto_pc_self, Pc.phase, hpc, State.goto] using hcompleted
      · exact (hother ▸ htaken :)
  | get =>
      simp only [step, Option.ite_none_right_eq_some] at hstep
      obtain ⟨hpc, hstep⟩ := hstep
      cases hstep
      obtain ⟨hgiven, hcompleted, htaken⟩ := h
      have hother := s.goto_consumer_pc_producer .test
      constructor
      · exact (hother ▸ hgiven :)
      · exact (hother ▸ hcompleted :)
      · simpa [State.goto_pc_self, Pc.phase, hpc, State.goto] using htaken
  | advance side => exact history_callMoves h (callMoves_of_callStep hstep)
  | reset first => exact absurd rfl (hok first)
  | spurious side =>
      simp only [step, Option.ite_none_right_eq_some] at hstep
      obtain ⟨hpc, hstep⟩ := hstep
      cases hstep
      exact h.goto side .woken (by simp [hpc, Pc.phase])

/-- Nothing has happened to a constructed exchange, and its history is empty. -/
theorem history_initial (constructed : T) : History (initial constructed) := by
  constructor <;> simp [initial, Pc.phase]

/-! ## The exchange is a one-place channel -/

/-- The place is full: the flag says so, but for a thread that has moved and not yet written it. -/
def State.Full (s : State T) : Prop :=
  (s.isFilled ∧ s.pc .consumer ≠ .flag) ∨ s.pc .producer = .flag

instance (s : State T) : Decidable s.Full := inferInstanceAs (Decidable (_ ∨ _))

/-- The channel an exchange implements: its place, the values stored and the values taken, in
order. -/
def toPlace (s : State T) : OnePlace T :=
  ⟨if s.Full then some s.storage else none, s.stored, s.taken.map Prod.snd⟩

/-- Going on between points other than the write of the flag does not show in the channel. -/
theorem toPlace_goto (s : State T) (side : Side) (pc : Pc) (hpc : s.pc side ≠ .flag)
    (hne : pc ≠ .flag) : toPlace (s.goto side pc) = toPlace s := by
  have hfull : (s.goto side pc).Full ↔ s.Full := by
    cases side with
    | producer => simp [State.Full, hpc, hne]
    | consumer => simp [State.Full, hpc, hne]
  simp only [toPlace, hfull]
  rfl

/-- **Every step inside a call** is a step of the channel, at the move, or leaves the channel as it
is. -/
theorem toPlace_callMoves {s t : State T} {side : Side} (h : s.ControlOf side)
    (hmove : CallMoves side s t) : ∃ as, onePlace.run (toPlace s) as = some (toPlace t) := by
  have hstay : ∀ {u : State T}, toPlace u = toPlace s →
      ∃ as, onePlace.run (toPlace s) as = some (toPlace u) :=
    fun heq => ⟨[], by rw [heq, System.run_nil]⟩
  -- the move of a `set` is a send and the move of a `get` a receive; no other step shows
  cases hmove with
  | testEnter hpc hflag =>
      exact hstay (toPlace_goto (s.enter side) side _ (by simp [hpc]) (by decide))
  | testWait hpc hflag => exact hstay (toPlace_goto s side _ (by simp [hpc]) (by decide))
  | lock hpc hlock free =>
      cases hlock with
      | waitLock => exact hstay (toPlace_goto s side .predicate (by simp [hpc]) (by decide))
      | woken => exact hstay (toPlace_goto s side .predicate (by simp [hpc]) (by decide))
      | bodyLock => exact hstay (toPlace_goto s side .move (by simp [hpc]) (by decide))
  | predicateEnter hpc hflag =>
      exact hstay (toPlace_goto (s.enter side) side _ (by simp [hpc]) (by decide))
  | predicateBlock hpc hflag => exact hstay (toPlace_goto s side _ (by simp [hpc]) (by decide))
  | block hpc => exact hstay (toPlace_goto s side .asleep (by simp [hpc]) (by decide))
  | waitUnlock hpc => exact hstay (toPlace_goto s side .bodyLock (by simp [hpc]) (by decide))
  | move hpc =>
      have hentered := h.entered (by simp [hpc, Pc.entered])
      have hexclusive := h.exclusive (by simp [hpc, Pc.holds])
      cases side with
      | producer =>
          -- the place was empty, and is full as soon as the storage is assigned
          refine ⟨[.send s.argument], ?_⟩
          have hempty : ¬ s.Full := by simp [State.Full, hpc, hentered, awaits]
          have hfull : ((s.transfer .producer).goto .producer .flag).Full :=
            .inr (State.goto_pc_self ..)
          simp only [System.run_cons, onePlace, toPlace, hempty, hfull, if_true, if_false,
            Option.bind_some, System.run_nil]
          rfl
      | consumer =>
          -- the place was full, and is empty as soon as the value is moved out
          refine ⟨[.receive], ?_⟩
          have hproducer : s.pc .producer ≠ .flag := by
            intro hflag
            simp [Side.other, hflag, Pc.holds] at hexclusive
          have hfull : s.Full := .inl ⟨hentered, by simp [hpc]⟩
          have hempty : ¬ ((s.transfer .consumer).goto .consumer .flag).Full := by
            simp [State.Full, hproducer]
          simp only [System.run_cons, onePlace, toPlace, hempty, hfull, if_true, if_false,
            Option.bind_some, System.run_nil]
          simp [State.goto, State.transfer]
  | flag hpc =>
      have hexclusive := h.exclusive (by simp [hpc, Pc.holds])
      have hother_ne : s.pc side.other ≠ .flag := by
        intro hflag
        simp [hflag, Pc.holds] at hexclusive
      apply hstay
      cases side with
      | producer =>
          have hother := s.goto_producer_pc_consumer .notify
          have hbefore : s.Full := .inr hpc
          have hafter : State.Full
              { s.goto .producer .notify with isFilled := leaves .producer, forged := false } :=
            .inl ⟨rfl, by rw [hother]; exact hother_ne⟩
          simp only [toPlace, hbefore, hafter, if_true]
          rfl
      | consumer =>
          have hproducer : s.pc .producer ≠ .flag := hother_ne
          have hbefore : ¬ s.Full := by simp [State.Full, hpc, hproducer]
          have hafter : ¬ State.Full
              { s.goto .consumer .notify with isFilled := leaves .consumer, forged := false } := by
            simp [State.Full, hproducer, awaits]
          simp only [toPlace, hbefore, hafter, if_false]
          rfl
  | notify hpc =>
      rw [State.notifyOne_other hpc]
      apply hstay
      split
      · next hsleep =>
          -- two threads go on, the one that notifies and the one that is woken
          rw [toPlace_goto _ _ _ (by simp [hpc]) (by decide),
            toPlace_goto _ _ _ (by simp [hsleep]) (by decide)]
      · exact toPlace_goto _ _ _ (by simp [hpc]) (by decide)
  | unlock hpc =>
      apply hstay
      cases side with
      | producer =>
          exact toPlace_goto (s.finish .producer) .producer .idle (by simp [hpc]) (by decide)
      | consumer =>
          exact toPlace_goto (s.finish .consumer) .consumer .idle (by simp [hpc]) (by decide)

/-- Every step but those of `reset` is a step of the channel or leaves the channel as it is. -/
theorem toPlace_step {s t : State T} {a : Action T} (h : s.ControlOf .producer)
    (hok : NoReset s a) (hstep : step s a = some t) :
    ∃ as, onePlace.run (toPlace s) as = some (toPlace t) := by
  cases a with
  | set value =>
      simp only [step, Option.ite_none_right_eq_some] at hstep
      obtain ⟨hpc, hstep⟩ := hstep
      cases hstep
      have hsame : toPlace (s.goto .producer .test) = toPlace s :=
        toPlace_goto _ _ _ (by simp [hpc]) (by decide)
      exact ⟨[], by rw [System.run_nil, ← hsame]; rfl⟩
  | get =>
      simp only [step, Option.ite_none_right_eq_some] at hstep
      obtain ⟨hpc, hstep⟩ := hstep
      cases hstep
      exact ⟨[], by rw [System.run_nil, toPlace_goto _ _ _ (by simp [hpc]) (by decide)]⟩
  | advance side =>
      exact toPlace_callMoves (controlOf_both h side) (callMoves_of_callStep hstep)
  | reset first => exact absurd rfl (hok first)
  | spurious side =>
      simp only [step, Option.ite_none_right_eq_some] at hstep
      obtain ⟨hpc, hstep⟩ := hstep
      cases hstep
      exact ⟨[], by rw [System.run_nil, toPlace_goto _ _ _ (by simp [hpc]) (by decide)]⟩

/-- The control invariant holds after every run without `reset`. -/
theorem controlOf_run {constructed : T} {as : List (Action T)} {s : State T}
    (hno : (blocking constructed).Along NoReset (blocking constructed).init as)
    (hrun : (blocking constructed).run (blocking constructed).init as = some s) :
    s.ControlOf .producer :=
  (blocking constructed).run_invariant (P := fun s => s.ControlOf .producer)
    (fun _ _ _ hs hok hstep => controlOf_step hs hok hstep) (controlOf_initial constructed) hno hrun

/-- **Refinement.** Every run without `reset` maps to a run of the one-place channel, so that what
is received is what was sent. -/
theorem blocking_channel {constructed : T} {as : List (Action T)} {s : State T}
    (hno : (blocking constructed).Along NoReset (blocking constructed).init as)
    (hrun : (blocking constructed).run (blocking constructed).init as = some s) :
    onePlace.Reachable (toPlace s) := by
  have hinit : toPlace (blocking constructed).init
      = (onePlace : System (OnePlace T) (PlaceAction T)).init := rfl
  obtain ⟨bs, hbs⟩ := (blocking constructed).run_map onePlace toPlace
    (P := fun s => s.ControlOf .producer)
    (fun _ _ _ hs hok hstep => controlOf_step hs hok hstep)
    (fun _ _ _ hs hok hstep => toPlace_step hs hok hstep) (controlOf_initial constructed) hno hrun
  exact ⟨bs, hinit ▸ hbs⟩

/-! ## Progress -/

/-- The step is taken by the producer or the consumer itself, not by a spurious wake-up or by
`reset`. -/
def OwnStep (a : Action T) : Prop :=
  (∃ value, a = .set value) ∨ a = .get ∨ ∃ side, a = .advance side

/-- A thread that is awake can take a step when the other one does not hold the mutex: a lock is
free, or its own. -/
theorem exists_ownStep {s : State T} (side : Side) (value : T) (hawake : s.pc side ≠ .asleep)
    (hfree : s.accessor ≠ some side.other) (howner : s.accessor = some side → (s.pc side).holds) :
    ∃ a, OwnStep a ∧ (step s a).isSome := by
  have hlocked : (s.pc side).holds = false → s.accessor = none := by
    intro hholds
    cases hacc : s.accessor with
    | none => rfl
    | some owner =>
        rcases Side.eq_or_eq_other side owner with rfl | rfl
        · simp [howner hacc] at hholds
        · exact absurd hacc hfree
  by_cases hidle : s.pc side = .idle
  · cases side with
    | producer => exact ⟨.set value, .inl ⟨_, rfl⟩, by simp [step, hidle]⟩
    | consumer => exact ⟨.get, .inr (.inl rfl), by simp [step, hidle]⟩
  · refine ⟨.advance side, .inr (.inr ⟨side, rfl⟩), ?_⟩
    -- a thread that is neither outside nor asleep has a step at every point, if it gets the lock
    cases hpc : s.pc side with
    | idle => exact absurd hpc hidle
    | asleep => exact absurd hpc hawake
    | test => simp only [step, callStep, hpc]; split <;> rfl
    | predicate => simp only [step, callStep, hpc]; split <;> rfl
    | waitLock => simp [step, callStep, hpc, hlocked (by simp [hpc, Pc.holds])]
    | woken => simp [step, callStep, hpc, hlocked (by simp [hpc, Pc.holds])]
    | bodyLock => simp [step, callStep, hpc, hlocked (by simp [hpc, Pc.holds])]
    | block => simp [step, callStep, hpc]
    | waitUnlock => simp [step, callStep, hpc]
    | move => simp [step, callStep, hpc]
    | flag => simp [step, callStep, hpc]
    | notify => simp [step, callStep, hpc]
    | unlock => simp [step, callStep, hpc]

/-- In a state with the control invariant one of the two threads can take a step of its own: never
do both sleep, or wait for a mutex. -/
theorem State.ControlOf.progress {s : State T} (h : s.ControlOf .producer) (value : T) :
    ∃ a, OwnStep a ∧ (step s a).isSome := by
  have hc : s.ControlOf .consumer := h.swap
  -- the thread to run: the owner of the mutex, else one that is awake
  cases hacc : s.accessor with
  | some owner =>
      have howner : (s.pc owner).holds := (controlOf_both h owner).owner.mp hacc
      refine exists_ownStep owner value (fun hsleep => ?_) ?_ (fun _ => howner)
      · simp [hsleep, Pc.holds] at howner
      · rw [hacc]
        simp
  | none =>
      by_cases hproducer : s.pc .producer = .asleep
      · have hconsumer : s.pc .consumer ≠ .asleep := by
          intro hsleep
          -- whatever the flag is, one of the two would have been notified
          cases hfilled : s.isFilled with
          | false =>
              have hnotify : s.pc .consumer = .notify :=
                h.asleep hproducer (by simp [hfilled, awaits])
              simp [hnotify] at hsleep
          | true =>
              have hnotify : s.pc .producer = .notify :=
                hc.asleep hsleep (by simp [hfilled, awaits])
              simp [hnotify] at hproducer
        exact exists_ownStep .consumer value hconsumer (by simp [hacc]) (by simp [hacc])
      · exact exists_ownStep .producer value hproducer (by simp [hacc]) (by simp [hacc])

/-- The values taken, followed by the one in the place, are the values stored, and the history is
consistent. -/
theorem fifo_run {constructed : T} {as : List (Action T)} {s : State T}
    (hno : (blocking constructed).Along NoReset (blocking constructed).init as)
    (hrun : (blocking constructed).run (blocking constructed).init as = some s) :
    s.taken.map Prod.snd ++ (toPlace s).content.toList = s.stored ∧ History s :=
  ⟨onePlace_fifo (blocking_channel hno hrun), (blocking constructed).run_invariant
    (fun _ _ _ hs hok hstep => history_step hs hok hstep) (history_initial constructed) hno hrun⟩

/-- The values returned by `get` are a prefix of those given to `set`: what is in between is stored,
or in a call that has not moved yet. -/
theorem fifo_returned {constructed : T} {as : List (Action T)} {s : State T}
    (hno : (blocking constructed).Along NoReset (blocking constructed).init as)
    (hrun : (blocking constructed).run (blocking constructed).init as = some s) :
    s.returned <+: s.given := by
  obtain ⟨hfifo, hhistory⟩ := fifo_run hno hrun
  have hreturned : s.returned <+: s.taken.map Prod.snd := ⟨_, hhistory.taken_eq.symm⟩
  have hstored : s.stored <+: s.given := ⟨_, hhistory.given_eq.symm⟩
  exact (hreturned.trans ⟨_, hfifo⟩).trans hstored

/-- **A one-place FIFO channel.** After every run of one producer and one consumer without `reset`,
the values returned by `get` are a prefix of those given to `set`, at most one value whose `set` has
completed is not yet taken, and one of the two threads can take a step of its own. -/
theorem blocking_fifo (constructed : T) (as : List (Action T)) (s : State T)
    (hno : (blocking constructed).Along NoReset (blocking constructed).init as)
    (hrun : (blocking constructed).run (blocking constructed).init as = some s) :
    s.returned <+: s.given ∧ s.completed ≤ s.taken.length + 1 ∧
      ∃ a, OwnStep a ∧ (step s a).isSome := by
  obtain ⟨hfifo, hhistory⟩ := fifo_run hno hrun
  refine ⟨fifo_returned hno hrun, ?_, (controlOf_run hno hrun).progress constructed⟩
  have hlength := congrArg List.length hfifo
  have hcontent : (toPlace s).content.toList.length ≤ 1 := by
    cases (toPlace s).content <;> simp
  have hcompleted := hhistory.completed_eq
  simp only [List.length_append, List.length_map] at hlength
  omega

/-- A run in which the consumer waits first, is notified by the producer, takes the value and
returns it. -/
def consumerFirst : List (Action Nat) :=
  List.flatten [[.get], List.replicate 4 (.advance .consumer), [.set 7],
    List.replicate 6 (.advance .producer), List.replicate 8 (.advance .consumer)]

/-- A run in which the producer sets 7 and the consumer takes and returns it: `taken` has this value
only, and `returned = [7]` is a beginning of what was given. -/
theorem blocking_fifo_seven :
    ∃ as s, (blocking 0).run (blocking 0).init as = some s ∧ s.taken = [(some 0, 7)] ∧
      s.returned = [7] ∧ s.returned <+: s.given ∧ s.completed ≤ s.taken.length + 1 := by
  have hno : (blocking 0).Along NoReset (blocking 0).init consumerFirst :=
    (blocking 0).along_of_forall _ fun a ha first heq => by simp [consumerFirst, heq] at ha
  obtain ⟨s, hrun⟩ : ∃ s, (blocking 0).run (blocking 0).init consumerFirst = some s := ⟨_, rfl⟩
  have hdata : ((blocking 0).run (blocking 0).init consumerFirst).map
      (fun s => (s.taken, s.returned)) = some ([(some 0, 7)], [7]) := by decide
  rw [hrun] at hdata
  obtain ⟨htaken, hreturned⟩ := Prod.mk.inj (Option.some.inj hdata)
  have hfifo := blocking_fifo 0 consumerFirst s hno hrun
  exact ⟨consumerFirst, s, hrun, htaken, hreturned, hfifo.1, hfifo.2.1⟩

end ValueExchangeBlocking

end IecCore
