import Mathlib.Data.List.Induction
import IecCore.PipelineShutdown

/-! # The life of a pipeline

The owner of a `pipeline::PipelineBuilder` calls `run`, `wait` and `stop` one after the other, in any
order. The running flags are up from the construction on and `stop` takes them down; nothing puts
them up again. A thread object that stands for a thread must not be assigned to. An exception of the
handler, which ends the process at any moment, is left out here.

* **`State`**, **`Action`**, **`step`** — the owner's calls and the steps of the threads between
  them, as the transition system **`lifecycle`**.
* **`Steps`**, **`Moves`**, **`MainMoves`** — the steps as relations, with one constructor for each.
* **`Inv`** — the invariant: who is inside a call, and which threads can be joined.
* **`Stopping`** — what a call of `stop` has brought about by the point it has come to.
* **`Quiet`** — the threads do nothing but leave their loops, and stay so (`Quiet.steps`).
* **`quiet_of_stop`** — a pipeline that was stopped is quiet for good, and its calls return.
* **`owing as`**, **`terminated_iff`** — which call of `run` ends the process: one for threads that
  nobody has waited for. -/

namespace IecCore

universe u

namespace PipelineLifecycle

open PipelineBuilder (LoopPc MainPc joined loopStep mainStep enterCall)
open ValueExchangeBlocking (Side)

/-- A pipeline and its owner. The exceptions that end the process from a thread are left out; they
cut a run off. -/
structure State (T : Type u) where
  /-- The exchange, the two threads, and where the owner is in `stop` or `wait`: at `done` when it is
  in no call. A thread that was not started counts as one that has returned. -/
  threads : PipelineBuilder.State T
  /-- `joinable` of the thread objects: they stand for a thread, which may have exited. -/
  joinable : Side → Bool
  /-- `std::terminate` was called, and nothing happens any more. -/
  terminated : Bool

variable {T : Type u}

/-- What happens: the calls of the owner, and the steps between them. -/
inductive Action (T : Type u)
  /-- The owner calls `run`; `ok` is what `engine.setup` returns. -/
  | run (ok : Bool)
  /-- The owner calls `wait`. -/
  | wait
  /-- The owner calls `stop`. -/
  | stop
  /-- A step of a thread, or of the call that the owner is in. -/
  | go (a : PipelineBuilder.Action T)

namespace State

/-- Both threads are started, at the test of their flags, and can be joined. -/
def start (s : State T) : State T :=
  { s with threads := { s.threads with loop := fun _ => .top }, joinable := fun _ => true }

/-- The owner goes to a statement of `stop` or `wait`: only `main` of the threads changes. -/
def enter (s : State T) (pc : MainPc) : State T :=
  { s with threads := { s.threads with main := pc } }

/-- The exchange before a call of `reset`, which begins with its first statement. -/
def rearm (s : State T) : State T :=
  { s with threads :=
      { s.threads with exchange := { s.threads.exchange with resetPc := .fill } } }

/-- The state with other threads; a thread that was joined is not joinable any more. -/
def goOn (s : State T) (threads : PipelineBuilder.State T) : State T :=
  { s with
    threads := threads
    joinable := fun side => s.joinable side &&
      !decide (joined s.threads.main = some side ∧ threads.main ≠ s.threads.main) }

end State

/-- One call of the owner, or one step of a call or a thread; none in a process that has ended. -/
def step (s : State T) (a : Action T) : Option (State T) :=
  if s.terminated then none
  else
    match a with
    | .run ok =>
        if s.threads.main = .done then
          if ok then
            -- `engineThread = std::thread(...)`, then the same for the handler
            if s.joinable .producer ∨ s.joinable .consumer then some { s with terminated := true }
            else some s.start
          else some s
        else none
    | .wait => if s.threads.main = .done then some (s.enter .joinEngine) else none
    | .stop => if s.threads.main = .done then some (s.rearm.enter .stopEngine) else none
    | .go a => (PipelineBuilder.step s.threads a).map s.goOn

/-- A new pipeline: no thread has been started, no call is made, and both flags are up. -/
def initial (constructed : T) : State T where
  threads := { PipelineBuilder.initial constructed with loop := fun _ => .exited, main := .done }
  joinable := fun _ => false
  terminated := false

/-- The life of a pipeline as a transition system, which starts in `initial constructed`. -/
def lifecycle (constructed : T) : System (State T) (Action T) where
  init := initial constructed
  step := step

/-! ## What a step can do -/

/-- The steps, one constructor for each of them: `Steps s a t` says that `a` leads from `s` to
`t`. -/
inductive Steps (s : State T) : Action T → State T → Prop
  | unset (hmain : s.threads.main = .done) : Steps s (.run false) s
  | terminate (hmain : s.threads.main = .done)
      (hjoinable : s.joinable .producer = true ∨ s.joinable .consumer = true) :
      Steps s (.run true) { s with terminated := true }
  | start (hmain : s.threads.main = .done) (hengine : s.joinable .producer = false)
      (hhandler : s.joinable .consumer = false) : Steps s (.run true) s.start
  | wait (hmain : s.threads.main = .done) : Steps s .wait (s.enter .joinEngine)
  | stop (hmain : s.threads.main = .done) : Steps s .stop (s.rearm.enter .stopEngine)
  | go {a : PipelineBuilder.Action T} {t : PipelineBuilder.State T}
      (hstep : PipelineBuilder.step s.threads a = some t) : Steps s (.go a) (s.goOn t)

/-- Every step is one of these, of a process that has not been terminated. -/
theorem steps_of_step {s t : State T} {a : Action T} (hstep : step s a = some t) :
    s.terminated = false ∧ Steps s a t := by
  simp only [step, Option.ite_none_left_eq_some, Bool.not_eq_true] at hstep
  obtain ⟨halive, hstep⟩ := hstep
  refine ⟨halive, ?_⟩
  cases a with
  | run ok =>
      simp only [Option.ite_none_right_eq_some] at hstep
      obtain ⟨hmain, hstep⟩ := hstep
      cases ok with
      | false => exact Option.some.inj hstep ▸ .unset hmain
      | true =>
          rw [if_pos rfl] at hstep
          -- an assignment to a thread that can be joined ends the process
          split_ifs at hstep with hjoinable
          · exact Option.some.inj hstep ▸ .terminate hmain hjoinable
          · obtain ⟨hengine, hhandler⟩ := not_or.mp hjoinable
            exact Option.some.inj hstep ▸
              .start hmain (by simpa using hengine) (by simpa using hhandler)
  | wait =>
      simp only [Option.ite_none_right_eq_some] at hstep
      exact Option.some.inj hstep.2 ▸ .wait hstep.1
  | stop =>
      simp only [Option.ite_none_right_eq_some] at hstep
      exact Option.some.inj hstep.2 ▸ .stop hstep.1
  | go a =>
      obtain ⟨threads, hthreads, rfl⟩ := Option.map_eq_some_iff.mp hstep
      exact .go hthreads

/-- The steps of the threads and of the call the owner is in, as a relation on the threads. -/
inductive Moves (s : PipelineBuilder.State T) :
    PipelineBuilder.Action T → PipelineBuilder.State T → Prop
  | test {side : Side} (htop : s.loop side = .top) :
      Moves s (.loop side) (s.goto side (if s.running side then .body else .exited))
  | again {side : Side} (hcalling : s.loop side = .calling) (hidle : s.exchange.pc side = .idle) :
      Moves s (.loop side) (s.goto side .top)
  | skip (hbody : s.loop .producer = .body) : Moves s .skip (s.goto .producer .top)
  | set {value : T} (hbody : s.loop .producer = .body) :
      Moves s (.set value) { s.goto .producer .calling with
        exchange := { s.exchange.goto .producer .test with
          argument := value, given := s.exchange.given ++ [value] } }
  | get (hbody : s.loop .consumer = .body) :
      Moves s .get { s.goto .consumer .calling with exchange := s.exchange.goto .consumer .test }
  | call {side : Side} {e : ValueExchangeBlocking.State T}
      (hmove : ValueExchangeBlocking.CallMoves side s.exchange e) :
      Moves s (.call side) { s with exchange := e }
  | spurious {side : Side} (hasleep : s.exchange.pc side = .asleep) :
      Moves s (.spurious side) { s with exchange := s.exchange.goto side .woken }
  | main {first : Side} {t : PipelineBuilder.State T} (hmain : mainStep first s = some t) :
      Moves s (.main first) t

/-- Every step of the threads is one of these: `Moves s a t` from `PipelineBuilder.step s a = some
t`. -/
theorem moves_of_step {s t : PipelineBuilder.State T} {a : PipelineBuilder.Action T}
    (hstep : PipelineBuilder.step s a = some t) : Moves s a t := by
  cases a with
  | loop side =>
      simp only [PipelineBuilder.step, loopStep] at hstep
      cases hloop : s.loop side with
      | top => exact Option.some.inj (hloop ▸ hstep) ▸ .test hloop
      | body => simp [hloop] at hstep
      | calling =>
          simp only [hloop, Option.ite_none_right_eq_some] at hstep
          exact Option.some.inj hstep.2 ▸ .again hloop hstep.1
      | exited => simp [hloop] at hstep
  | skip =>
      simp only [PipelineBuilder.step, Option.ite_none_right_eq_some] at hstep
      exact Option.some.inj hstep.2 ▸ .skip hstep.1
  | set value =>
      simp only [PipelineBuilder.step, enterCall, ValueExchangeBlocking.step,
        Option.ite_none_right_eq_some, Option.map_eq_some_iff] at hstep
      obtain ⟨hbody, e, ⟨-, he⟩, rfl⟩ := hstep
      exact Option.some.inj he ▸ .set hbody
  | get =>
      simp only [PipelineBuilder.step, enterCall, ValueExchangeBlocking.step,
        Option.ite_none_right_eq_some, Option.map_eq_some_iff] at hstep
      obtain ⟨hbody, e, ⟨-, he⟩, rfl⟩ := hstep
      exact Option.some.inj he ▸ .get hbody
  | call side =>
      obtain ⟨e, he, rfl⟩ := Option.map_eq_some_iff.mp hstep
      exact .call (ValueExchangeBlocking.callMoves_of_callStep he)
  | main first => exact .main hstep
  | spurious side =>
      simp only [PipelineBuilder.step, ValueExchangeBlocking.step,
        Option.ite_none_right_eq_some, Option.map_eq_some_iff] at hstep
      obtain ⟨e, ⟨hasleep, he⟩, rfl⟩ := hstep
      exact Option.some.inj he ▸ .spurious hasleep

/-- The steps of `stop` and `wait`, statement by statement, with the two joins at their end. -/
inductive MainMoves (s : PipelineBuilder.State T) : PipelineBuilder.State T → Prop
  | stopEngine (hmain : s.main = .stopEngine) :
      MainMoves s { s.stop .producer with main := .stopHandler }
  | stopHandler (hmain : s.main = .stopHandler) :
      MainMoves s { s.stop .consumer with main := .reset }
  | reset {first : Side} {e : ValueExchangeBlocking.State T} (hmain : s.main = .reset)
      (hreset : ValueExchangeBlocking.resetStep first s.exchange = some e)
      (hpc : e.resetPc ≠ .done) : MainMoves s { s with exchange := e, main := .reset }
  | resetEnd {first : Side} {e : ValueExchangeBlocking.State T} (hmain : s.main = .reset)
      (hreset : ValueExchangeBlocking.resetStep first s.exchange = some e) :
      MainMoves s { s with exchange := e, main := .joinEngine }
  | joinEngine (hmain : s.main = .joinEngine) (hexited : s.loop .producer = .exited) :
      MainMoves s { s with main := .joinHandler }
  | joinHandler (hmain : s.main = .joinHandler) (hexited : s.loop .consumer = .exited) :
      MainMoves s { s with main := .done }

theorem mainMoves_of_mainStep {s t : PipelineBuilder.State T} {first : Side}
    (hstep : mainStep first s = some t) : MainMoves s t := by
  unfold mainStep at hstep
  cases hmain : s.main with
  | stopEngine => exact Option.some.inj (hmain ▸ hstep) ▸ .stopEngine hmain
  | stopHandler => exact Option.some.inj (hmain ▸ hstep) ▸ .stopHandler hmain
  | reset =>
      simp only [hmain, Option.map_eq_some_iff] at hstep
      obtain ⟨e, he, rfl⟩ := hstep
      split_ifs with hpc
      · exact .resetEnd hmain he
      · exact .reset hmain he hpc
  | joinEngine =>
      simp only [hmain, Option.ite_none_right_eq_some] at hstep
      exact Option.some.inj hstep.2 ▸ .joinEngine hmain hstep.1
  | joinHandler =>
      simp only [hmain, Option.ite_none_right_eq_some] at hstep
      exact Option.some.inj hstep.2 ▸ .joinHandler hmain hstep.1
  | done => simp [hmain] at hstep

@[simp] theorem goto_loop_self (s : PipelineBuilder.State T) (side : Side) (pc : LoopPc) :
    (s.goto side pc).loop side = pc := Function.update_self ..

@[simp] theorem goto_loop_other (s : PipelineBuilder.State T) (side : Side) (pc : LoopPc) :
    (s.goto side pc).loop side.other = s.loop side.other :=
  Function.update_of_ne side.other_ne _ _

@[simp] theorem stop_running_self (s : PipelineBuilder.State T) (side : Side) :
    (s.stop side).running side = false := Function.update_self ..

/-! ## The invariant -/

/-- The owner is in `stop` and has not come to the end of `reset`. -/
def beforeJoins : MainPc → Bool
  | .stopEngine | .stopHandler | .reset => true
  | .joinEngine | .joinHandler | .done => false

/-- A thread inside a call of the exchange is at that point of its loop. -/
def Calling (s : PipelineBuilder.State T) : Prop :=
  ∀ side, s.exchange.pc side ≠ .idle → s.loop side = .calling

/-- The **invariant** of the life of a pipeline, in every state that it reaches. -/
structure Inv (s : State T) : Prop where
  /-- The threads in the exchange: each of them is at that point of its loop. -/
  calling : Calling s.threads
  /-- A thread that cannot be joined is not there. -/
  absent : ∀ side, s.joinable side = false → s.threads.loop side = .exited
  /-- `reset` goes on: before the joins it is not over. -/
  rearmed : beforeJoins s.threads.main = true → s.threads.exchange.resetPc ≠ .done
  /-- The engine is joined first, so that it is not joinable at the second join. -/
  engineFirst : s.threads.main = .joinHandler → s.joinable .producer = false
  /-- Outside a call both threads can be joined or none. -/
  alike : s.threads.main = .done → s.joinable .producer = s.joinable .consumer

/-- A thread is at another point of its loop, and outside the exchange. -/
theorem Calling.goto {s : PipelineBuilder.State T} (h : Calling s) {side : Side}
    (hidle : s.exchange.pc side = .idle) (pc : LoopPc) : Calling (s.goto side pc) := by
  intro x hx
  obtain rfl | rfl := side.eq_or_eq_other x
  · exact absurd hidle hx
  · exact (goto_loop_other s side pc).trans (h side.other hx)

/-- A thread that is not in a call of the exchange is idle there. -/
theorem Calling.idle {s : PipelineBuilder.State T} (h : Calling s) {side : Side}
    (hloop : s.loop side ≠ .calling) : s.exchange.pc side = .idle := by
  by_contra hne
  exact hloop (h side hne)

/-- A thread enters a call, and is at that point of its loop: the other thread has not moved. -/
theorem Calling.enter {s : PipelineBuilder.State T} (h : Calling s) {side : Side}
    {e : ValueExchangeBlocking.State T} (hother : e.pc side.other = s.exchange.pc side.other) :
    Calling { s.goto side .calling with exchange := e } := by
  intro x hx
  obtain rfl | rfl := side.eq_or_eq_other x
  · exact goto_loop_self s x .calling
  · refine (goto_loop_other s side .calling).trans (h side.other fun hidle => hx ?_)
    exact hother.trans hidle

/-- A step in the exchange in which no thread enters a call: who is idle stays idle. -/
theorem Calling.exchange {s : PipelineBuilder.State T} (h : Calling s)
    {e : ValueExchangeBlocking.State T}
    (hidle : ∀ side, s.exchange.pc side = .idle → e.pc side = .idle) (main : MainPc) :
    Calling { s with exchange := e, main := main } :=
  fun side hside => h side fun hpc => hside (hidle side hpc)

/-- A notification leaves the threads outside calls where they are. -/
theorem notifyOne_idle {s : ValueExchangeBlocking.State T} {first side : Side}
    (hidle : s.pc side = .idle) : (s.notifyOne first).pc side = .idle := by
  obtain hsame | ⟨hasleep, -⟩ := PipelineBuilder.notifyOne_pc s first side
  · exact hsame.trans hidle
  · rw [hidle] at hasleep
    cases hasleep

/-- A step of `reset` leaves the threads outside calls where they are. -/
theorem resetStep_idle {s e : ValueExchangeBlocking.State T} {first : Side}
    (hreset : ValueExchangeBlocking.resetStep first s = some e) {side : Side}
    (hidle : s.pc side = .idle) : e.pc side = .idle := by
  unfold ValueExchangeBlocking.resetStep at hreset
  split at hreset
  · exact Option.some.inj hreset ▸ hidle
  · exact Option.some.inj hreset ▸ notifyOne_idle hidle
  · exact Option.some.inj hreset ▸ hidle
  · exact Option.some.inj hreset ▸ notifyOne_idle hidle
  · cases hreset

/-- A step of a call leaves the threads outside calls where they are. -/
theorem callMoves_idle {s e : ValueExchangeBlocking.State T} {side x : Side}
    (hmove : ValueExchangeBlocking.CallMoves side s e) (hidle : s.pc x = .idle) :
    e.pc x = .idle := by
  obtain rfl | rfl := side.eq_or_eq_other x
  · have hnext := PipelineBuilder.callMoves_next hmove
    rw [hidle] at hnext
    cases hnext
  · obtain hsame | ⟨hasleep, -⟩ := PipelineBuilder.callMoves_other hmove
    · exact hsame.trans hidle
    · rw [hidle] at hasleep
      cases hasleep

/-- **A step of a thread** keeps the threads in the exchange where their loops say. -/
theorem Calling.step {s t : PipelineBuilder.State T} {a : PipelineBuilder.Action T}
    (h : Calling s) (hmoves : Moves s a t) : Calling t := by
  cases hmoves with
  | test htop => exact h.goto (h.idle (by simp [htop])) _
  | again hcalling hidle => exact h.goto hidle _
  | skip hbody => exact h.goto (h.idle (by simp [hbody])) _
  | set hbody =>
      exact h.enter (ValueExchangeBlocking.State.goto_pc_other s.exchange .producer .test)
  | get hbody =>
      exact h.enter (ValueExchangeBlocking.State.goto_pc_other s.exchange .consumer .test)
  | call hmove => exact h.exchange (fun x => callMoves_idle hmove) s.main
  -- the thread that wakes up was inside its call
  | @spurious side hasleep =>
      refine h.exchange (fun x hidle => ?_) s.main
      obtain rfl | rfl := side.eq_or_eq_other x
      · rw [hidle] at hasleep
        cases hasleep
      · exact (ValueExchangeBlocking.State.goto_pc_other s.exchange side .woken).trans hidle
  | main hmain =>
      cases mainMoves_of_mainStep hmain with
      | stopEngine => exact h
      | stopHandler => exact h
      | reset _ hreset => exact h.exchange (fun x => resetStep_idle hreset) _
      | resetEnd _ hreset => exact h.exchange (fun x => resetStep_idle hreset) _
      | joinEngine => exact h
      | joinHandler => exact h

/-- A thread that has returned takes no step, and does not come back. -/
theorem loop_exited {s t : PipelineBuilder.State T} {a : PipelineBuilder.Action T}
    (hmoves : Moves s a t) {x : Side} (hexited : s.loop x = .exited) : t.loop x = .exited := by
  have hgoto {side : Side} (hloop : s.loop side ≠ .exited) (pc : LoopPc) :
      (s.goto side pc).loop x = .exited := by
    have hne : x ≠ side := fun h => hloop (h ▸ hexited)
    exact (Function.update_of_ne hne _ _).trans hexited
  cases hmoves with
  | test htop => exact hgoto (by simp [htop]) _
  | again hcalling => exact hgoto (by simp [hcalling]) _
  | skip hbody => exact hgoto (by simp [hbody]) _
  | set hbody => exact hgoto (by simp [hbody]) _
  | get hbody => exact hgoto (by simp [hbody]) _
  | call => exact hexited
  | spurious => exact hexited
  | main hmain => cases mainMoves_of_mainStep hmain <;> exact hexited

/-- Where the owner goes: nowhere, or to the next statement of its call. -/
theorem main_moves {s t : PipelineBuilder.State T} {a : PipelineBuilder.Action T}
    (hmoves : Moves s a t) : t.main = s.main ∨ MainMoves s t := by
  cases hmoves with
  | main hmain => exact .inr (mainMoves_of_mainStep hmain)
  | _ => exact .inl rfl

theorem inv_initial (constructed : T) : Inv (initial constructed) where
  calling _ h := absurd rfl h
  absent _ _ := rfl
  rearmed h := by cases h
  engineFirst h := by cases h
  alike _ := rfl

/-- A thread that is joined has returned, since the join had to wait for it. -/
theorem loop_joined {s t : PipelineBuilder.State T} {a : PipelineBuilder.Action T}
    (hmoves : Moves s a t) {side : Side} (hjoined : joined s.main = some side)
    (hmain : t.main ≠ s.main) : t.loop side = .exited := by
  obtain hsame | hmoves := main_moves hmoves
  · exact absurd hsame hmain
  · cases hmoves with
    | stopEngine h => simp [h, joined] at hjoined
    | stopHandler h => simp [h, joined] at hjoined
    | reset h => simp [h, joined] at hjoined
    | resetEnd h => simp [h, joined] at hjoined
    | joinEngine h hexited =>
        simp only [h, joined, Option.some_inj] at hjoined
        exact hjoined ▸ hexited
    | joinHandler h hexited =>
        simp only [h, joined, Option.some_inj] at hjoined
        exact hjoined ▸ hexited

/-- `reset` is not over while the owner is before the joins, since `rearm` has put it at its
start. -/
theorem rearmed_moves {s t : PipelineBuilder.State T} {a : PipelineBuilder.Action T}
    (hmoves : Moves s a t) (h : beforeJoins s.main = true → s.exchange.resetPc ≠ .done)
    (hbefore : beforeJoins t.main = true) : t.exchange.resetPc ≠ .done := by
  cases hmoves with
  | call hmove => exact PipelineBuilder.callMoves_resetPc hmove ▸ h hbefore
  | main hmain =>
      cases mainMoves_of_mainStep hmain with
      | stopEngine hpc => exact h (by rw [hpc]; rfl)
      | stopHandler hpc => exact h (by rw [hpc]; rfl)
      | reset _ _ hpc => exact hpc
      | _ => cases hbefore
  | _ => exact h hbefore

/-- **Every step** keeps the invariant, one case for each constructor of `Steps`. -/
theorem Inv.step {s t : State T} {a : Action T} (h : Inv s) (hsteps : Steps s a t) : Inv t := by
  cases hsteps with
  | unset => exact h
  | terminate => exact ⟨h.calling, h.absent, h.rearmed, h.engineFirst, h.alike⟩
  | start hmain hengine hhandler =>
      have hmain' : s.start.threads.main = .done := hmain
      -- there was no thread before
      have hidle (side : Side) : s.threads.exchange.pc side = .idle := by
        have habsent : s.joinable side = false := by
          cases side with
          | producer => exact hengine
          | consumer => exact hhandler
        exact h.calling.idle (by simp [h.absent side habsent])
      refine ⟨fun side hside => absurd (hidle side) hside, fun side hside => ?_, ?_, ?_, fun _ => rfl⟩
      · cases hside
      · simp [hmain', beforeJoins]
      · simp [hmain']
  | wait => exact ⟨h.calling, h.absent, by simp [State.enter, beforeJoins], by simp [State.enter],
      by simp [State.enter]⟩
  | stop => exact ⟨h.calling, h.absent, by simp [State.enter, State.rearm], by simp [State.enter],
      by simp [State.enter]⟩
  | @go a t hstep =>
      have hmoves := moves_of_step hstep
      refine ⟨h.calling.step hmoves, fun side hside => ?_, rearmed_moves hmoves h.rearmed, ?_, ?_⟩
      · simp only [State.goOn, Bool.and_eq_false_iff, Bool.not_eq_eq_eq_not, Bool.not_false,
          decide_eq_true_eq] at hside
        obtain habsent | ⟨hjoined, hmain⟩ := hside
        · exact loop_exited hmoves (h.absent side habsent)
        · exact loop_joined hmoves hjoined hmain
      · intro hmain
        have hmain' : t.main = .joinHandler := hmain
        obtain hsame | hmove := main_moves hmoves
        · simp [State.goOn, h.engineFirst (hsame ▸ hmain')]
        · cases hmove with
          | joinEngine hpc => simp [State.goOn, hpc, joined]
          | _ => cases hmain'
      · intro hmain
        have hmain' : t.main = .done := hmain
        obtain hsame | hmove := main_moves hmoves
        · simp [State.goOn, hsame, h.alike (hsame ▸ hmain')]
        · cases hmove with
          | joinHandler hpc => simp [State.goOn, hpc, joined, h.engineFirst hpc]
          | _ => cases hmain'

/-! ## After a stop -/

/-- A thread is not in the body of its loop: at the test of its flag, or gone. -/
def Outside (pc : LoopPc) : Prop := pc = .top ∨ pc = .exited

/-- What a call of `stop` has brought about **by the point it has come to**. -/
structure Stopping (s : PipelineBuilder.State T) : Prop where
  /-- The flag of the engine is down behind the first statement. -/
  engine : s.main ≠ .stopEngine → s.running .producer = false
  /-- The flag of the handler is down behind the second statement. -/
  handler : s.main ≠ .stopEngine → s.main ≠ .stopHandler → s.running .consumer = false
  /-- The engine was joined: it is outside the body of its loop. -/
  engineOutside : s.main = .joinHandler ∨ s.main = .done → Outside (s.loop .producer)
  /-- The handler was joined: it is outside the body of its loop. -/
  handlerOutside : s.main = .done → Outside (s.loop .consumer)

/-- The threads are **quiet**: they can do nothing but leave their loops. -/
structure Quiet (s : PipelineBuilder.State T) : Prop where
  /-- The flags are down. -/
  running : ∀ side, s.running side = false
  /-- No thread is in the body of its loop. -/
  outside : ∀ side, Outside (s.loop side)

/-- A flag that is down stays down: no step puts it up, and only `stop` takes it down. -/
theorem running_moves {s t : PipelineBuilder.State T} {a : PipelineBuilder.Action T}
    (hmoves : Moves s a t) {x : Side} (h : s.running x = false) : t.running x = false := by
  have hstop (side : Side) : (s.stop side).running x = false := by
    by_cases hx : x = side
    · rw [hx, stop_running_self]
    · exact (Function.update_of_ne hx _ _).trans h
  cases hmoves with
  | main hmain =>
      cases mainMoves_of_mainStep hmain with
      | stopEngine => exact hstop .producer
      | stopHandler => exact hstop .consumer
      | _ => exact h
  | _ => exact h

/-- A thread whose flag is down does not come back into the body of its loop. -/
theorem outside_moves {s t : PipelineBuilder.State T} {a : PipelineBuilder.Action T}
    (hmoves : Moves s a t) {x : Side} (hrunning : s.running x = false) (h : Outside (s.loop x)) :
    Outside (t.loop x) := by
  have hgoto {side : Side} {pc : LoopPc} (hpc : side = x → Outside pc) :
      Outside ((s.goto side pc).loop x) := by
    obtain rfl | rfl := side.eq_or_eq_other x
    · rw [goto_loop_self]
      exact hpc rfl
    · rwa [goto_loop_other]
  -- a thread in the body of its loop is not the one that is outside
  have hbody {side : Side} {p : LoopPc} (hloop : s.loop side = p) (hp : ¬Outside p)
      (pc : LoopPc) : Outside ((s.goto side pc).loop x) := by
    refine hgoto fun hside => absurd ?_ hp
    rwa [← hloop, hside]
  cases hmoves with
  | @test side htop =>
      refine hgoto fun hside => ?_
      rw [hside, hrunning]
      exact .inr rfl
  | again hcalling => exact hbody hcalling (by simp [Outside]) _
  | skip hloop => exact hbody hloop (by simp [Outside]) _
  | set hloop => exact hbody hloop (by simp [Outside]) _
  | get hloop => exact hbody hloop (by simp [Outside]) _
  | call => exact h
  | spurious => exact h
  | main hmain => cases mainMoves_of_mainStep hmain <;> exact h

/-- **A step of a thread** keeps what a call of `stop` has brought about. -/
theorem Stopping.step {s t : PipelineBuilder.State T} {a : PipelineBuilder.Action T}
    (h : Stopping s) (hmoves : Moves s a t) : Stopping t := by
  have hrunning (x : Side) := @running_moves T s t a hmoves x
  have houtside (x : Side) := @outside_moves T s t a hmoves x
  obtain hsame | hmove := main_moves hmoves
  · -- the owner waits: what it has brought about stays
    refine ⟨fun hengine => hrunning _ (h.engine (hsame ▸ hengine)),
      fun hengine hhandler => hrunning _ (h.handler (hsame ▸ hengine) (hsame ▸ hhandler)),
      fun hmain => ?_, fun hmain => ?_⟩
    · rw [hsame] at hmain
      refine houtside _ (h.engine ?_) (h.engineOutside hmain)
      obtain hmain | hmain := hmain <;> simp [hmain]
    · rw [hsame] at hmain
      exact houtside _ (h.handler (by simp [hmain]) (by simp [hmain])) (h.handlerOutside hmain)
  · cases hmove with
    | stopEngine hmain =>
        exact ⟨fun _ => stop_running_self s .producer, fun _ hne => absurd rfl hne, by simp, by simp⟩
    | stopHandler hmain =>
        have hengine := h.engine (by simp [hmain])
        exact ⟨fun _ => hrunning _ hengine, fun _ _ => stop_running_self s .consumer, by simp,
          by simp⟩
    | reset hmain =>
        have hengine := h.engine (by simp [hmain])
        have hhandler := h.handler (by simp [hmain]) (by simp [hmain])
        exact ⟨fun _ => hengine, fun _ _ => hhandler, by simp, by simp⟩
    | resetEnd hmain =>
        have hengine := h.engine (by simp [hmain])
        have hhandler := h.handler (by simp [hmain]) (by simp [hmain])
        exact ⟨fun _ => hengine, fun _ _ => hhandler, by simp, by simp⟩
    -- the engine has returned, and its flag is down
    | joinEngine hmain hexited =>
        have hengine := h.engine (by simp [hmain])
        have hhandler := h.handler (by simp [hmain]) (by simp [hmain])
        exact ⟨fun _ => hengine, fun _ _ => hhandler, fun _ => .inr hexited, by simp⟩
    | joinHandler hmain hexited =>
        have hengine := h.engine (by simp [hmain])
        have hhandler := h.handler (by simp [hmain]) (by simp [hmain])
        exact ⟨fun _ => hengine, fun _ _ => hhandler,
          fun _ => h.engineOutside (.inl hmain), fun _ => .inr hexited⟩

/-- At the start of the call nothing is asked for: `Stopping` holds of every state that has entered
it. -/
theorem stopping_enter (s : State T) : Stopping (s.enter .stopEngine).threads :=
  ⟨by simp [State.enter], by simp [State.enter], by simp [State.enter], by simp [State.enter]⟩

/-- Every step keeps it, also the calls of the owner: `Stopping t.threads` from `Stopping
s.threads`. -/
theorem Stopping.steps {s t : State T} {a : Action T} (h : Stopping s.threads)
    (hsteps : Steps s a t) : Stopping t.threads := by
  cases hsteps with
  | unset => exact h
  | terminate => exact h
  | start hmain =>
      have hengine := h.engine (by simp [hmain])
      have hhandler := h.handler (by simp [hmain]) (by simp [hmain])
      exact ⟨fun _ => hengine, fun _ _ => hhandler, fun _ => .inl rfl, fun _ => .inl rfl⟩
  | wait hmain =>
      have hengine := h.engine (by simp [hmain])
      have hhandler := h.handler (by simp [hmain]) (by simp [hmain])
      exact ⟨fun _ => hengine, fun _ _ => hhandler, by simp [State.enter], by simp [State.enter]⟩
  | stop => exact stopping_enter _
  | go hstep => exact h.step (moves_of_step hstep)

/-- When the call has returned, the threads are quiet: at `.done` the invariant `Stopping` gives
`Quiet`. -/
theorem Stopping.quiet {s : PipelineBuilder.State T} (h : Stopping s) (hmain : s.main = .done) :
    Quiet s where
  running side := by
    cases side with
    | producer => exact h.engine (by simp [hmain])
    | consumer => exact h.handler (by simp [hmain]) (by simp [hmain])
  outside side := by
    cases side with
    | producer => exact h.engineOutside (.inr hmain)
    | consumer => exact h.handlerOutside hmain

/-- **Quiet threads stay quiet**, whatever the owner calls, `run` included: the flags stay down. -/
theorem Quiet.steps {s t : State T} {a : Action T} (h : Quiet s.threads) (hsteps : Steps s a t) :
    Quiet t.threads := by
  cases hsteps with
  | unset => exact h
  | terminate => exact h
  | start => exact ⟨h.running, fun _ => .inl rfl⟩
  | wait => exact ⟨h.running, h.outside⟩
  | stop => exact ⟨h.running, h.outside⟩
  | go hstep =>
      have hmoves := moves_of_step hstep
      exact ⟨fun side => running_moves hmoves (h.running side),
        fun side => outside_moves hmoves (h.running side) (h.outside side)⟩

/-- **What quiet threads can do**: leave a loop; and the owner's call goes on. -/
theorem Quiet.moves {s t : PipelineBuilder.State T} {a : PipelineBuilder.Action T} (h : Quiet s)
    (hcalling : Calling s) (hmoves : Moves s a t) :
    (∃ side, a = .loop side ∧ s.loop side = .top ∧ t = s.goto side .exited) ∨
      ∃ first, a = .main first ∧ MainMoves s t := by
  have hloop (side : Side) : s.loop side ≠ .body ∧ s.loop side ≠ .calling := by
    obtain h | h := h.outside side <;> simp [h]
  -- a quiet thread is not inside the exchange either
  have hidle (side : Side) : s.exchange.pc side = .idle := hcalling.idle (hloop side).2
  cases hmoves with
  | @test side htop =>
      rw [h.running side]
      exact .inl ⟨side, rfl, htop, rfl⟩
  | @again side hpc => exact absurd hpc (hloop side).2
  | skip hbody => exact absurd hbody (hloop .producer).1
  | set hbody => exact absurd hbody (hloop .producer).1
  | get hbody => exact absurd hbody (hloop .consumer).1
  | @call side e hmove =>
      have hnext := PipelineBuilder.callMoves_next hmove
      rw [hidle] at hnext
      cases hnext
  | @spurious side hasleep =>
      rw [hidle] at hasleep
      cases hasleep
  | @main first _ hmain => exact .inr ⟨first, rfl, mainMoves_of_mainStep hmain⟩

/-- The exchange is the same, but for what `reset` writes: `isFilled`, with its history `forged`, and
the program point of `reset` itself. -/
def Untouched (e e' : ValueExchangeBlocking.State T) : Prop :=
  ∃ filled forged pc, e' = { e with isFilled := filled, forged := forged, resetPc := pc }

theorem Untouched.refl (e : ValueExchangeBlocking.State T) : Untouched e e :=
  ⟨e.isFilled, e.forged, e.resetPc, rfl⟩

theorem Untouched.trans {e e' e'' : ValueExchangeBlocking.State T} (h : Untouched e e')
    (h' : Untouched e' e'') : Untouched e e'' := by
  obtain ⟨filled, forged, pc, rfl⟩ := h
  obtain ⟨filled', forged', pc', rfl⟩ := h'
  exact ⟨filled', forged', pc', rfl⟩

/-- `reset` finds nobody to wake, and touches nothing that the threads left in the exchange. -/
theorem untouched_resetStep {s e : ValueExchangeBlocking.State T} {first : Side}
    (hidle : ∀ side, s.pc side = .idle)
    (hreset : ValueExchangeBlocking.resetStep first s = some e) : Untouched s e := by
  have hnotify : s.notifyOne first = s := by
    simp [ValueExchangeBlocking.State.notifyOne, hidle]
  unfold ValueExchangeBlocking.resetStep at hreset
  split at hreset
  · exact Option.some.inj hreset ▸ ⟨true, _, .notifyReader, rfl⟩
  · exact Option.some.inj hreset ▸ ⟨s.isFilled, s.forged, .clear, by rw [hnotify]⟩
  · exact Option.some.inj hreset ▸ ⟨false, false, .notifyWriter, rfl⟩
  · exact Option.some.inj hreset ▸ ⟨s.isFilled, s.forged, .done, by rw [hnotify]⟩
  · cases hreset

/-- Quiet threads leave the exchange alone, and so do the calls of the owner. -/
theorem Quiet.untouched {s t : State T} {a : Action T} (h : Quiet s.threads) (hinv : Inv s)
    (hsteps : Steps s a t) : Untouched s.threads.exchange t.threads.exchange := by
  cases hsteps with
  | stop => exact ⟨s.threads.exchange.isFilled, s.threads.exchange.forged, .fill, rfl⟩
  | go hstep =>
      obtain ⟨side, -, -, rfl⟩ | ⟨first, -, hmove⟩ :=
        h.moves hinv.calling (moves_of_step hstep)
      · exact .refl _
      · have hidle (side : Side) : s.threads.exchange.pc side = .idle := by
          refine hinv.calling.idle ?_
          obtain h | h := h.outside side <;> simp [h]
        cases hmove with
        | reset _ hreset => exact untouched_resetStep hidle hreset
        | resetEnd _ hreset => exact untouched_resetStep hidle hreset
        | _ => exact .refl _
  | _ => exact .refl _

/-- A step of the body of a loop, or inside of the exchange: what quiet threads do not do any
more. -/
def Works : Action T → Prop
  | .go (.loop _) | .go (.main _) | .run _ | .wait | .stop => False
  | .go _ => True

/-- Quiet threads do not work: none of their steps is one of these. -/
theorem Quiet.not_works {s t : State T} {a : Action T} (h : Quiet s.threads) (hinv : Inv s)
    (hsteps : Steps s a t) : ¬Works a := by
  cases hsteps with
  | go hstep =>
      obtain ⟨side, rfl, -⟩ | ⟨first, rfl, -⟩ := h.moves hinv.calling (moves_of_step hstep)
      · exact id
      · exact id
  | _ => exact id

/-- **A run of quiet threads** keeps them quiet, does no work, and leaves the exchange alone. -/
theorem Quiet.run {constructed : T} {s t : State T} {later : List (Action T)}
    (h : Quiet s.threads) (hinv : Inv s) (hlater : (lifecycle constructed).run s later = some t) :
    (Quiet t.threads ∧ Inv t) ∧ (∀ a ∈ later, ¬Works a) ∧
      Untouched s.threads.exchange t.threads.exchange := by
  induction later generalizing s with
  | nil =>
      cases Option.some.inj hlater
      exact ⟨⟨h, hinv⟩, fun a ha => absurd ha List.not_mem_nil, .refl _⟩
  | cons a later ih =>
      obtain ⟨r, hstep, hrest⟩ := (lifecycle constructed).run_cons_eq_some.mp hlater
      obtain ⟨-, hsteps⟩ := steps_of_step hstep
      obtain ⟨hend, hworks, hsame⟩ := ih (h.steps hsteps) (hinv.step hsteps) hrest
      exact ⟨hend, List.forall_mem_cons.mpr ⟨h.not_works hinv hsteps, hworks⟩,
        (h.untouched hinv hsteps).trans hsame⟩

/-! ## The calls return -/

/-- The statements of `reset` that are left, four at its start and none when it is over. -/
def resetLeft : ValueExchangeBlocking.ResetPc → Nat
  | .fill => 4
  | .notifyReader => 3
  | .clear => 2
  | .notifyWriter => 1
  | .done => 0

/-- The steps that are left of the owner's call, until it returns. -/
def mainLeft (s : PipelineBuilder.State T) : Nat :=
  match s.main with
  | .stopEngine => 9
  | .stopHandler => 8
  | .reset => 3 + resetLeft s.exchange.resetPc
  | .joinEngine => 2
  | .joinHandler => 1
  | .done => 0

/-- The steps that are left of a loop whose flag is down: the test of the flag, when it is at the
top. -/
def loopLeft (pc : LoopPc) : Nat := if pc = .top then 1 else 0

/-- The steps that quiet threads and the owner's call can take: the measure that each of them
lowers. -/
def left (s : PipelineBuilder.State T) : Nat :=
  mainLeft s + loopLeft (s.loop .producer) + loopLeft (s.loop .consumer)

/-- A statement of `reset` is done: `resetLeft e.resetPc < resetLeft s.resetPc`. -/
theorem resetLeft_lt {s e : ValueExchangeBlocking.State T} {first : Side}
    (hreset : ValueExchangeBlocking.resetStep first s = some e) :
    resetLeft e.resetPc < resetLeft s.resetPc := by
  unfold ValueExchangeBlocking.resetStep at hreset
  cases hpc : s.resetPc with
  | done => simp [hpc] at hreset
  | _ =>
      simp only [hpc, Option.some_inj] at hreset
      simp [← hreset, resetLeft]

/-- The owner's call goes on: `mainLeft t < mainLeft s` for every `MainMoves s t`. -/
theorem mainLeft_lt {s t : PipelineBuilder.State T} (hmove : MainMoves s t) :
    mainLeft t < mainLeft s := by
  cases hmove with
  | stopEngine hmain => simp [mainLeft, hmain]
  | stopHandler hmain =>
      have hreset : resetLeft s.exchange.resetPc ≤ 4 := by cases s.exchange.resetPc <;> decide
      simp only [mainLeft, hmain]
      change 3 + resetLeft s.exchange.resetPc < 8
      omega
  | reset hmain hreset =>
      have hlt := resetLeft_lt hreset
      simp only [mainLeft, hmain]
      omega
  | resetEnd hmain => simp only [mainLeft, hmain]; omega
  | joinEngine hmain => simp [mainLeft, hmain]
  | joinHandler hmain => simp [mainLeft, hmain]

/-- The owner's call leaves the loops alone: `t.loop = s.loop` for every `MainMoves s t`. -/
theorem mainMoves_loop {s t : PipelineBuilder.State T} (hmove : MainMoves s t) :
    t.loop = s.loop := by
  cases hmove <;> rfl

/-- **Every step** of quiet threads is one of those that are left. -/
theorem Quiet.left_lt {s t : PipelineBuilder.State T} {a : PipelineBuilder.Action T}
    (h : Quiet s) (hcalling : Calling s) (hmoves : Moves s a t) : left t < left s := by
  obtain ⟨side, -, htop, rfl⟩ | ⟨first, -, hmove⟩ := h.moves hcalling hmoves
  · have hmain : mainLeft (s.goto side .exited) = mainLeft s := rfl
    cases side with
    | producer =>
        have hother : (s.goto .producer .exited).loop .consumer = s.loop .consumer :=
          goto_loop_other s .producer .exited
        simp [left, hmain, hother, htop, loopLeft]
    | consumer =>
        have hother : (s.goto .consumer .exited).loop .producer = s.loop .producer :=
          goto_loop_other s .consumer .exited
        simp [left, hmain, hother, htop, loopLeft]
  · have hlt := mainLeft_lt hmove
    rw [left, left, mainMoves_loop hmove]
    omega

/-- A call of the owner, not a step of a thread or of a call the owner is in. -/
def starts : Action T → Bool
  | .go _ => false
  | .run _ | .wait | .stop => true

/-- A call that the owner is in has a step when the threads have returned. -/
theorem exists_mainStep {s : PipelineBuilder.State T} (hmain : s.main ≠ .done)
    (hexited : ∀ side, s.loop side = .exited)
    (hrearmed : beforeJoins s.main = true → s.exchange.resetPc ≠ .done) :
    mainStep .producer s ≠ none := by
  unfold mainStep
  cases hpc : s.main with
  | reset =>
      have hreset := hrearmed (by rw [hpc]; rfl)
      cases hresetPc : s.exchange.resetPc with
      | done => exact absurd hresetPc hreset
      | _ => simp [ValueExchangeBlocking.step, ValueExchangeBlocking.resetStep, hresetPc]
  | done => exact absurd hpc hmain
  | _ => simp [hexited]

/-- Steps of the threads and of the owner's call do not end the process. -/
theorem terminated_of_go {constructed : T} {s t : State T} {as : List (Action T)}
    (has : ∀ a ∈ as, starts a = false) (hrun : (lifecycle constructed).run s as = some t)
    (halive : s.terminated = false) : t.terminated = false := by
  refine (lifecycle constructed).run_invariant (P := fun r => r.terminated = false)
    (fun r a u hr ha hstep => ?_) halive ((lifecycle constructed).along_of_forall s has) hrun
  obtain ⟨-, hsteps⟩ := steps_of_step hstep
  cases hsteps with
  | go => exact hr
  | _ => cases ha

/-- **A call of the owner returns** when the threads are quiet: there are steps to its end. -/
theorem Quiet.exists_return {constructed : T} {s : State T} (h : Quiet s.threads) (hinv : Inv s)
    (halive : s.terminated = false) :
    ∃ as t, (∀ a ∈ as, starts a = false) ∧ (lifecycle constructed).run s as = some t ∧
      t.threads.main = .done := by
  obtain ⟨as, t, has, hrun, hstuck⟩ := (lifecycle constructed).exists_run_of_potential
    (fun s => left s.threads) starts
    (P := fun s => Quiet s.threads ∧ Inv s)
    (fun s a t hs hstep => by
      obtain ⟨-, hsteps⟩ := steps_of_step hstep
      exact ⟨hs.1.steps hsteps, hs.2.step hsteps⟩)
    (fun s a t hs ha hstep => by
      obtain ⟨-, hsteps⟩ := steps_of_step hstep
      cases hsteps with
      | go hgo => exact hs.1.left_lt hs.2.calling (moves_of_step hgo)
      | _ => cases ha)
    ⟨h, hinv⟩
  obtain ⟨⟨hquiet, hinv'⟩, -⟩ := h.run hinv hrun
  have halive' := terminated_of_go has hrun halive
  have hnone (a : PipelineBuilder.Action T) : PipelineBuilder.step t.threads a = none := by
    have hgo : step t (.go a) = none := hstuck (.go a) rfl
    simpa [step, halive'] using hgo
  -- no loop is left to leave, so the call has nothing to wait for
  have hexited (side : Side) : t.threads.loop side = .exited := by
    refine (hquiet.outside side).resolve_left fun htop => ?_
    have hloop := hnone (.loop side)
    simp [PipelineBuilder.step, loopStep, htop] at hloop
  refine ⟨as, t, has, hrun, ?_⟩
  by_contra hmain
  exact exists_mainStep hmain hexited hinv'.rearmed (hnone (.main .producer))

/-- A run keeps the invariant, and what a call of `stop` has brought about. -/
theorem Stopping.run {constructed : T} {s t : State T} {as : List (Action T)}
    (h : Stopping s.threads) (hinv : Inv s) (hrun : (lifecycle constructed).run s as = some t) :
    Stopping t.threads ∧ Inv t := by
  refine (lifecycle constructed).run_invariant (P := fun r => Stopping r.threads ∧ Inv r)
    (fun r a u hr _ hstep => ?_) ⟨h, hinv⟩ ((lifecycle constructed).along_true s as) hrun
  obtain ⟨-, hsteps⟩ := steps_of_step hstep
  exact ⟨hr.1.steps hsteps, hr.2.step hsteps⟩

theorem inv_of_reachable {constructed : T} {s : State T}
    (hreach : (lifecycle constructed).Reachable s) : Inv s :=
  (lifecycle constructed).reachable_invariant (inv_initial constructed)
    (fun _ _ _ h hstep => h.step (steps_of_step hstep).2) hreach

/-- **A pipeline that was stopped is quiet for good.** Once a call of `stop` has returned, whatever
the owner calls: no thread is in the body of its loop at any later moment, nothing is put into the
exchange or taken from it, and every call returns, unless the process was ended. -/
theorem quiet_of_stop (constructed : T) {before after later : List (Action T)} {s t : State T}
    (hrun : (lifecycle constructed).run (lifecycle constructed).init (before ++ .stop :: after)
      = some s)
    (hreturned : s.threads.main = .done) (hlater : (lifecycle constructed).run s later = some t) :
    (∀ side, Outside (t.threads.loop side)) ∧ (∀ a ∈ later, ¬Works a) ∧
      Untouched s.threads.exchange t.threads.exchange ∧
      (t.terminated = false → ∃ as u, (∀ a ∈ as, starts a = false) ∧
        (lifecycle constructed).run t as = some u ∧ u.threads.main = .done) := by
  -- the run is split at the call of `stop`
  obtain ⟨r, hbefore, hrest⟩ := (lifecycle constructed).run_append_eq_some.mp hrun
  obtain ⟨r', hstop, hafter⟩ := (lifecycle constructed).run_cons_eq_some.mp hrest
  obtain ⟨-, hsteps⟩ := @steps_of_step T r r' .stop hstop
  have hinv : Inv r' := (inv_of_reachable ⟨before, hbefore⟩).step hsteps
  have hstopping : Stopping r'.threads := by
    cases hsteps with
    | stop => exact stopping_enter _
  -- what the call brings about holds when it returns, and from then on
  obtain ⟨hend, hinv'⟩ := hstopping.run hinv hafter
  obtain ⟨⟨hquiet, hinv''⟩, hworks, hsame⟩ := (hend.quiet hreturned).run hinv' hlater
  exact ⟨hquiet.outside, hworks, hsame, hquiet.exists_return hinv''⟩

/-- A pipeline is run, and stopped before its threads have come far. -/
def runAndStop : List (Action Nat) :=
  [.run true, .stop] ++ List.replicate 6 (.go (.main .producer)) ++
    [.go (.loop .producer), .go (.loop .consumer)] ++ List.replicate 2 (.go (.main .producer))

/-- It is run and stopped again: the second run does nothing, and `stop` returns. -/
theorem quiet_of_stop_again :
    ∃ s t, (lifecycle 0).run (lifecycle 0).init runAndStop = some s ∧
      (lifecycle 0).run s runAndStop = some t ∧
      (∀ side, Outside (t.threads.loop side)) ∧ (∀ a ∈ runAndStop, ¬Works a) ∧
      Untouched s.threads.exchange t.threads.exchange ∧
      (t.terminated = false → ∃ as u, (∀ a ∈ as, starts a = false) ∧
        (lifecycle 0).run t as = some u ∧ u.threads.main = .done) := by
  obtain ⟨s, hrun⟩ : ∃ s, (lifecycle 0).run (lifecycle 0).init runAndStop = some s := ⟨_, rfl⟩
  obtain ⟨t, hboth⟩ : ∃ t,
      (lifecycle 0).run (lifecycle 0).init (runAndStop ++ runAndStop) = some t := ⟨_, rfl⟩
  obtain ⟨s', hrun', hlater⟩ := (lifecycle 0).run_append_eq_some.mp hboth
  obtain rfl : s = s' := Option.some.inj (hrun.symm.trans hrun')
  have hmain : ((lifecycle 0).run (lifecycle 0).init runAndStop).map (·.threads.main)
      = some .done := by decide
  rw [hrun] at hmain
  exact ⟨s, t, hrun, hlater,
    @quiet_of_stop Nat 0 [.run true] (runAndStop.drop 2) runAndStop s t hrun (Option.some.inj hmain)
      hlater⟩

/-! ## The end of the process -/

/-- The owner still has to call `wait` or `stop` for the threads of a call of `run`. -/
def owes (owing : Bool) : Action T → Bool
  | .run true => true
  | .wait | .stop => false
  | .run false | .go _ => owing

/-- What the owner owes after some actions, from the construction on. -/
def owing (as : List (Action T)) : Bool := as.foldl owes false

/-- The thread objects stand for threads when the owner owes a call. -/
structure Owes (s : State T) (owing : Bool) : Prop where
  /-- Outside a call both threads can be joined exactly when a run is owed one. -/
  joinable : s.threads.main = .done → ∀ side, s.joinable side = owing
  /-- Inside a call of `wait` or `stop` nothing is owed, since it joins the threads. -/
  called : s.threads.main ≠ .done → owing = false

/-- **A step** keeps track of what is owed, unless it ends the process: `Owes t (owes b a)`. -/
theorem Owes.step {s t : State T} {a : Action T} {b : Bool} (h : Owes s b) (hinv : Inv s)
    (hsteps : Steps s a t) (halive : t.terminated = false) : Owes t (owes b a) := by
  cases hsteps with
  | unset => exact h
  | terminate => cases halive
  | start hmain => exact ⟨fun _ _ => rfl, fun hne => absurd hmain hne⟩
  | wait => exact ⟨by simp [State.enter], fun _ => rfl⟩
  | stop => exact ⟨by simp [State.enter], fun _ => rfl⟩
  | @go a t hstep =>
      -- only a step of the owner can end the call it is in
      obtain hsame | hmove := main_moves (moves_of_step hstep)
      · refine ⟨fun hmain side => ?_, fun hne => h.called (hsame ▸ hne)⟩
        have hmain' : s.threads.main = .done := hsame.symm.trans hmain
        simp [State.goOn, hsame, h.joinable hmain', owes]
      · have hne : s.threads.main ≠ .done := by cases hmove <;> simp [*]
        refine ⟨fun hmain side => ?_, fun _ => h.called hne⟩
        have hmain' : t.main = .done := hmain
        have hb := h.called hne
        cases hmove with
        -- the call ends with the second join, behind which no thread can be joined
        | joinHandler hpc =>
            cases side with
            | producer => simp [State.goOn, hpc, joined, hinv.engineFirst hpc, owes, hb]
            | consumer => simp [State.goOn, hpc, joined, owes, hb]
        | _ => cases hmain'

/-- **A run** keeps track of what is owed, by induction on its actions: `Owes s (owing as)`. -/
theorem owes_of_run {constructed : T} {as : List (Action T)} {s : State T}
    (hrun : (lifecycle constructed).run (lifecycle constructed).init as = some s)
    (halive : s.terminated = false) : Owes s (owing as) := by
  induction as using List.reverseRecOn generalizing s with
  | nil =>
      cases Option.some.inj hrun
      exact ⟨fun _ _ => rfl, fun hne => absurd rfl hne⟩
  | append_singleton as a ih =>
      obtain ⟨r, hrun, hlast⟩ := (lifecycle constructed).run_append_eq_some.mp hrun
      obtain ⟨t, hstep, hend⟩ := (lifecycle constructed).run_cons_eq_some.mp hlast
      cases Option.some.inj hend
      obtain ⟨halive', hsteps⟩ := steps_of_step hstep
      have howes := (ih hrun halive').step (inv_of_reachable ⟨as, hrun⟩) hsteps halive
      rwa [owing, List.foldl_append]

/-- **What ends the process**: a call of `run` whose setup succeeds when there has been another such
call, with neither `wait` nor `stop` after it; and nothing else does. -/
theorem terminated_iff (constructed : T) {as : List (Action T)} {s : State T}
    (hrun : (lifecycle constructed).run (lifecycle constructed).init as = some s) :
    s.terminated = true ↔ ∃ before, as = before ++ [.run true] ∧ owing before = true := by
  cases as using List.reverseRecOn with
  | nil =>
      cases Option.some.inj hrun
      refine iff_of_false Bool.false_ne_true ?_
      rintro ⟨before, h, -⟩
      simp at h
  | append_singleton as a =>
      obtain ⟨r, hrun, hlast⟩ := (lifecycle constructed).run_append_eq_some.mp hrun
      obtain ⟨t, hstep, hend⟩ := (lifecycle constructed).run_cons_eq_some.mp hlast
      cases Option.some.inj hend
      obtain ⟨halive, hsteps⟩ := steps_of_step hstep
      have howes := owes_of_run hrun halive
      -- only the last action can have ended the process, since nothing follows
      have hsplit : (∃ before, as ++ [a] = before ++ [.run true] ∧ owing before = true) ↔
          a = .run true ∧ owing as = true := by
        constructor
        · rintro ⟨before, h, howing⟩
          obtain ⟨rfl, ha⟩ := List.append_inj' h rfl
          exact ⟨List.singleton_inj.mp ha, howing⟩
        · rintro ⟨rfl, howing⟩
          exact ⟨as, rfl, howing⟩
      rw [hsplit]
      cases hsteps with
      | terminate hmain hjoinable =>
          rw [howes.joinable hmain, howes.joinable hmain, or_self] at hjoinable
          exact iff_of_true rfl ⟨rfl, hjoinable⟩
      | start hmain hengine =>
          rw [howes.joinable hmain] at hengine
          exact iff_of_false (by simp [State.start, halive]) (by simp [hengine])
      | unset => exact iff_of_false (by simp [halive]) (by simp)
      | wait => exact iff_of_false (by simp [State.enter, halive]) (by simp)
      | stop => exact iff_of_false (by simp [State.enter, State.rearm, halive]) (by simp)
      | go => exact iff_of_false (by simp [State.goOn, halive]) (by simp)

/-- A setup that fails does not count: the second call of `run` that succeeds ends the process. -/
theorem terminated_iff_twice :
    ∃ s, (lifecycle 0).run (lifecycle 0).init [.run true, .run false, .run true] = some s ∧
      (s.terminated = true ↔ ∃ before, ([.run true, .run false, .run true] : List (Action Nat))
        = before ++ [.run true] ∧ owing before = true) := by
  obtain ⟨s, hrun⟩ : ∃ s, (lifecycle 0).run (lifecycle 0).init
      [.run true, .run false, .run true] = some s := ⟨_, rfl⟩
  exact ⟨s, hrun, terminated_iff 0 hrun⟩

end PipelineLifecycle

end IecCore
