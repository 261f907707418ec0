import IecCore.Handlers.Batches
import IecCore.Utils.BlockingProgress

/-! # What the pipeline prints

The program runs the engine and the handler in two threads and waits for them; nobody stops them.
This file has both loops with what they compute: the engine receives frames and hands its buffer
over, the handler gets buffers and processes them, and the steps inside `set` and `get` are those of
the blocking exchange. An exception of the handler ends the program. The schedule is of no matter to
what is printed: it is the output of the sequential program, or a beginning of it.

* **`State`**, **`Action`**, **`step`**, **`pipeline`** — the two threads and what they share, as a
  transition system. The engine goes through an iteration in one step, and so does the handler
  behind `get`; the steps inside the exchange are its own.
* **`Moves`**, **`moves_of_step`** — the steps, one constructor for each branch.
* **`Invariant`** — the handler is where the sequential program is after the buffers it has
  processed, and these are a beginning of what the engine hands over (`invariant_moves`).
* **`printed_beginning`** — what was printed is a beginning of the output of the sequential program.
* **`outcome_of_stuck`** — when no thread can go on, it is all of it.
* **`potential`**, **`length_le`**, **`exists_stuck`** — every run ends, but for spurious wake-ups. -/

namespace IecCore

namespace PipelineRun

open BPFEngine NumberCrusher
open Iec.MergingUnit (squareUnit squareUnit_fits squareUnit_alternates report_of_unit)
open ValueExchangeBlocking (Side Pc Unreset blocking)

/-! ## The program -/

/-- The two threads and what they share, with what will still be received. -/
structure State where
  /-- What will wait at the socket, in the iterations of the engine that are left. -/
  waiting : List (Option (List UInt8))
  /-- The buffer of the engine, with what was received since the last hand-over. -/
  engineBuffer : Buffer
  /-- The exchange between the engine and the handler. -/
  exchange : ValueExchangeBlocking.State Buffer
  /-- The handler is inside `get`, or has not processed what it got. -/
  inGet : Bool
  /-- The handler, or the exception that has ended the program. -/
  handler : EStateM.Result Stop NumberCrusher Unit
  /-- History: the buffers that the handler has processed. -/
  handled : List Buffer

/-- The steps of the threads, one for every choice of the schedule. -/
inductive Action
  /-- The engine goes through its loop, up to a call of `set` if there is one. -/
  | engine
  /-- The handler calls `get`. -/
  | get
  /-- The handler processes the buffer that it got. -/
  | process
  /-- A thread goes on with its call. -/
  | advance (side : Side)
  /-- A waiting thread wakes up without a notification. -/
  | spurious (side : Side)

/-- A step that a thread does not take itself: the condition variable wakes it for no reason. -/
def Action.isSpurious : Action → Bool
  | .spurious _ => true
  | _ => false

/-- A step of the exchange, which changes nothing else: the engine and the handler keep their
states. -/
def exchangeStep (s : State) (a : ValueExchangeBlocking.Action Buffer) : Option State :=
  (ValueExchangeBlocking.step s.exchange a).map fun e => { s with exchange := e }

theorem exchangeStep_eq_some {s t : State} {a : ValueExchangeBlocking.Action Buffer} :
    exchangeStep s a = some t ↔
      ∃ e, ValueExchangeBlocking.step s.exchange a = some e ∧ { s with exchange := e } = t := by
  rw [exchangeStep, Option.map_eq_some_iff]

/-- An iteration of the engine. It resets its buffer when `set` has returned, but nobody else looks
at that buffer: `set` has the value as its argument. -/
def engineStep (s : State) : Option State :=
  match s.waiting with
  | [] => none
  | head :: later =>
      if s.exchange.pc .producer = .idle then
        match BPFEngine.iteration s.engineBuffer head with
        | (engineBuffer, none) =>
            some { s with waiting := later, engineBuffer := engineBuffer }
        | (engineBuffer, some value) =>
            exchangeStep { s with waiting := later, engineBuffer := engineBuffer } (.set value)
      else none

section Step

variable [Bytes.Host]

/-- One step of one thread. After an exception there is none: the program has ended. -/
def step (s : State) (a : Action) : Option State :=
  match s.handler with
  | .error _ _ => none
  | .ok _ handler =>
      match a with
      | .engine => engineStep s
      | .get => if s.inGet then none else exchangeStep { s with inGet := true } .get
      | .process =>
          if s.inGet ∧ s.exchange.pc .consumer = .idle then
            some { s with
              inGet := false, handler := NumberCrusher.iteration s.exchange.result handler
              handled := s.handled ++ [s.exchange.result] }
          else none
      | .advance side => exchangeStep s (.advance side)
      | .spurious side => exchangeStep s (.spurious side)

/-- The program after `run`: the exchange, the handler and the engine are constructed, their buffers
with any contents. -/
def initial (storage buffer : Buffer) (data : Vector UInt8 bufferSize)
    (waiting : List (Option (List UInt8))) : State where
  waiting := waiting
  engineBuffer := constructed data
  exchange := ValueExchangeBlocking.initial storage
  inGet := false
  handler := .ok () (.new buffer)
  handled := []

/-- The program, with what will wait at the socket, as a transition system that starts in
`initial`. -/
def pipeline (storage buffer : Buffer) (data : Vector UInt8 bufferSize)
    (waiting : List (Option (List UInt8))) : System State Action where
  init := initial storage buffer data waiting
  step := step

/-! ## What a step can do -/

/-- The steps, one constructor for each branch, with what the state is behind it. -/
inductive Moves (s : State) : Action → State → Prop
  | receive {head : Option (List UInt8)} {later : List (Option (List UInt8))}
      {engineBuffer : Buffer} (hwaiting : s.waiting = head :: later)
      (hkeeps : BPFEngine.iteration s.engineBuffer head = (engineBuffer, none)) :
      Moves s .engine { s with waiting := later, engineBuffer := engineBuffer }
  | handOver {head : Option (List UInt8)} {later : List (Option (List UInt8))}
      {engineBuffer value : Buffer} {e : ValueExchangeBlocking.State Buffer}
      (hwaiting : s.waiting = head :: later)
      (hhands : BPFEngine.iteration s.engineBuffer head = (engineBuffer, some value))
      (hset : ValueExchangeBlocking.step s.exchange (.set value) = some e) :
      Moves s .engine { s with waiting := later, engineBuffer := engineBuffer, exchange := e }
  | get {e : ValueExchangeBlocking.State Buffer} (hinGet : s.inGet = false)
      (hget : ValueExchangeBlocking.step s.exchange .get = some e) :
      Moves s .get { s with inGet := true, exchange := e }
  | process {handler : NumberCrusher} (hhandler : s.handler = .ok () handler)
      (hinGet : s.inGet = true) (hidle : s.exchange.pc .consumer = .idle) :
      Moves s .process { s with
        inGet := false, handler := NumberCrusher.iteration s.exchange.result handler
        handled := s.handled ++ [s.exchange.result] }
  | advance {side : Side} {e : ValueExchangeBlocking.State Buffer}
      (hadvance : ValueExchangeBlocking.step s.exchange (.advance side) = some e) :
      Moves s (.advance side) { s with exchange := e }
  | spurious {side : Side} {e : ValueExchangeBlocking.State Buffer}
      (hspurious : ValueExchangeBlocking.step s.exchange (.spurious side) = some e) :
      Moves s (.spurious side) { s with exchange := e }

/-- **Every step** is one of the moves: `Moves s a t` from `step s a = some t`. -/
theorem moves_of_step {s t : State} {a : Action} (hstep : step s a = some t) : Moves s a t := by
  unfold step at hstep
  -- after an exception of the handler there is no step
  split at hstep
  · cases hstep
  · next handler hhandler =>
      cases a with
      | engine =>
          dsimp only [engineStep] at hstep
          split at hstep
          · cases hstep
          · next head later hwaiting =>
              obtain ⟨-, hstep⟩ := Option.ite_none_right_eq_some.mp hstep
              split at hstep
              · -- the engine goes on receiving while there is room for another frame
                next hkeeps => exact Option.some.inj hstep ▸ .receive hwaiting hkeeps
              · next hhands =>
                  obtain ⟨e, hset, rfl⟩ := exchangeStep_eq_some.mp hstep
                  exact .handOver hwaiting hhands hset
      | get =>
          obtain ⟨hinGet, hstep⟩ := Option.ite_none_left_eq_some.mp hstep
          obtain ⟨e, hget, rfl⟩ := exchangeStep_eq_some.mp hstep
          exact .get (Bool.eq_false_iff.mpr hinGet) hget
      | process =>
          obtain ⟨⟨hinGet, hidle⟩, hstep⟩ := Option.ite_none_right_eq_some.mp hstep
          exact Option.some.inj hstep ▸ .process hhandler hinGet hidle
      | advance side =>
          obtain ⟨e, hadvance, rfl⟩ := exchangeStep_eq_some.mp hstep
          exact .advance hadvance
      | spurious side =>
          obtain ⟨e, hspurious, rfl⟩ := exchangeStep_eq_some.mp hstep
          exact .spurious hspurious

/-! ## The invariant -/

/-- What `get` has returned and the handler has not processed, one buffer at most. -/
def got (s : State) : List Buffer :=
  if s.inGet = true ∧ s.exchange.pc .consumer = .idle then [s.exchange.result] else []

/-- The **invariant**: the engine has given a beginning of the buffers that it hands over, and the
handler has processed what `get` returned. -/
structure Invariant (storage buffer : Buffer) (handed : List Buffer) (s : State) : Prop where
  /-- Nobody calls `reset`, so that the rules of the exchange hold. -/
  exchange : Unreset storage s.exchange
  /-- What was given, and what will be: together all that the engine hands over. -/
  given : s.exchange.given ++ BPFEngine.run s.engineBuffer s.waiting = handed
  /-- The handler has run on the buffers that it has processed. -/
  handler : s.handler = NumberCrusher.run s.handled (.new buffer)
  /-- The handler calls `get` when it is outside. -/
  outside : s.inGet = false → s.exchange.pc .consumer = .idle
  /-- What was returned: the processed buffers, and the one that the handler has got. -/
  returned : s.exchange.returned = s.handled ++ got s

variable {storage buffer : Buffer} {handed : List Buffer}

/-- At the start nothing was given, and the handler is new: `Invariant` holds of `initial`. -/
theorem invariant_initial (data : Vector UInt8 bufferSize) (waiting : List (Option (List UInt8))) :
    Invariant storage buffer (BPFEngine.run (constructed data) waiting)
      (initial storage buffer data waiting) :=
  ⟨ValueExchangeBlocking.unreset_initial storage, rfl, rfl, fun _ => rfl, rfl⟩

/-- A step that the handler does not see keeps the invariant: nothing of what it has got is
changed. -/
theorem Invariant.quiet {s t : State} (h : Invariant storage buffer handed s)
    (hexchange : Unreset storage t.exchange)
    (hgiven : t.exchange.given ++ BPFEngine.run t.engineBuffer t.waiting = handed)
    (hhandler : t.handler = s.handler) (hhandled : t.handled = s.handled)
    (hinGet : t.inGet = s.inGet) (hquiet : ValueExchangeBlocking.Quiet s.exchange t.exchange) :
    Invariant storage buffer handed t := by
  refine ⟨hexchange, hgiven, ?_, ?_, ?_⟩
  · rw [hhandler, hhandled, h.handler]
  · intro houtside
    exact hquiet.idle.mpr (h.outside (hinGet ▸ houtside))
  · have hgot : got t = got s := by
      unfold got
      simp only [hinGet, hquiet.idle]
      split_ifs with hidle
      · rw [hquiet.result hidle.2]
      · rfl
    rw [hquiet.returned, hhandled, hgot, h.returned]

/-- A step inside a call, or a wake-up, keeps the invariant: the loops do not move. -/
theorem Invariant.calls {s : State} (h : Invariant storage buffer handed s)
    {a : ValueExchangeBlocking.Action Buffer} {side : Side} {e : ValueExchangeBlocking.State Buffer}
    (ha : a = .advance side ∨ a = .spurious side)
    (hstep : ValueExchangeBlocking.step s.exchange a = some e) :
    Invariant storage buffer handed { s with exchange := e } := by
  have hreset : ∀ first, a ≠ .reset first := by
    rintro first rfl
    rcases ha with ha | ha <;> cases ha
  have hnext := h.exchange.step hreset hstep
  obtain ⟨hsame, hquiet | ⟨hbusy, hidle, hreturned⟩⟩ := ValueExchangeBlocking.step_calls ha hstep
  · exact h.quiet hnext (by rw [← h.given, hsame]) rfl rfl rfl hquiet
  · -- the end of a `get`
    have hinGet : s.inGet = true := by
      by_contra houtside
      exact hbusy (h.outside (Bool.eq_false_iff.mpr houtside))
    have hbefore := h.returned
    rw [got, if_neg fun hidle => hbusy hidle.2, List.append_nil] at hbefore
    refine ⟨hnext, by rw [← h.given, hsame], h.handler, fun _ => hidle, ?_⟩
    rw [got, if_pos ⟨hinGet, hidle⟩, hreturned, hbefore]

/-- **Every step keeps the invariant**, one case for each constructor of `Moves`. -/
theorem invariant_moves {s t : State} {a : Action} (h : Invariant storage buffer handed s)
    (hmove : Moves s a t) : Invariant storage buffer handed t := by
  have hgiven := h.given
  cases hmove with
  | receive hwaiting hkeeps =>
      rw [hwaiting, BPFEngine.run, hkeeps] at hgiven
      exact h.quiet h.exchange hgiven rfl rfl rfl ⟨rfl, Iff.rfl, fun _ => rfl⟩
  | handOver hwaiting hhands hset =>
      obtain ⟨hvalue, hquiet⟩ := ValueExchangeBlocking.set_calls hset
      rw [hwaiting, BPFEngine.run, hhands] at hgiven
      have hnext := h.exchange.step (a := .set _) (fun _ h => by cases h) hset
      refine h.quiet hnext ?_ rfl rfl rfl hquiet
      rw [hvalue, List.append_assoc]
      exact hgiven
  -- the handler waits in `get` and has nothing to process
  | @get e hinGet hget =>
      obtain ⟨hsame, hreturned, -, hbusy⟩ := ValueExchangeBlocking.get_calls hget
      have hbefore := h.returned
      rw [got, if_neg fun hidle => Bool.false_ne_true (hinGet.symm.trans hidle.1)] at hbefore
      have hnext := h.exchange.step (a := .get) (fun _ h => by cases h) hget
      have hinside : (true : Bool) = false → e.pc .consumer = .idle := fun h =>
        absurd h.symm Bool.false_ne_true
      refine ⟨hnext, by rw [← hgiven, hsame], h.handler, hinside, ?_⟩
      rw [got, if_neg fun hidle => hbusy hidle.2, hreturned, hbefore]
  -- what `get` has returned is one more buffer of the sequential program
  | process hhandler hinGet hidle =>
      have hbefore := h.returned
      rw [got, if_pos ⟨hinGet, hidle⟩] at hbefore
      refine ⟨h.exchange, hgiven, ?_, fun _ => hidle, ?_⟩
      · rw [run_concat (h.handler.symm.trans hhandler)]
      · rw [got, if_neg fun hidle => Bool.false_ne_true hidle.1, List.append_nil, hbefore]
  | @advance side e hadvance =>
      exact h.calls (.inl rfl) hadvance
  | @spurious side e hspurious =>
      exact h.calls (.inr rfl) hspurious

/-- The handler has processed a beginning of what the engine hands over. -/
theorem Invariant.handled_beginning {s : State} (h : Invariant storage buffer handed s) :
    s.handled ++ got s <+: handed := by
  obtain ⟨as, hno, hrun⟩ := h.exchange.exists_along
  rw [← h.returned, ← h.given]
  exact (ValueExchangeBlocking.fifo_returned hno hrun).trans (List.prefix_append ..)

variable {data : Vector UInt8 bufferSize} {waiting : List (Option (List UInt8))} {s : State}

/-- The invariant holds at every moment of every run, by `invariant_initial` and
`invariant_moves`. -/
theorem invariant_reachable (hreach : (pipeline storage buffer data waiting).Reachable s) :
    Invariant storage buffer (BPFEngine.run (constructed data) waiting) s :=
  (pipeline storage buffer data waiting).reachable_invariant (invariant_initial data waiting)
    (fun _ _ _ h hstep => invariant_moves h (moves_of_step hstep)) hreach

/-! ## The states without a step -/

/-- **No thread can go on.** A spurious wake-up is not a step of a thread. -/
def Stuck (s : State) : Prop := ∀ a : Action, a.isSpurious = false → step s a = none

/-- A thread of the exchange that has a step has one of the program. -/
theorem advance_ne_none {handler : NumberCrusher} (hhandler : s.handler = .ok () handler)
    {side : Side} (h : (ValueExchangeBlocking.step s.exchange (.advance side)).isSome) :
    step s (.advance side) ≠ none := by
  obtain ⟨e, he⟩ := Option.isSome_iff_exists.mp h
  rw [step, hhandler]
  simp only [exchangeStep, he]
  exact Option.some_ne_none _

/-- **No thread is inside its call and awake** when no thread can go on. -/
theorem Invariant.rest_of_stuck (h : Invariant storage buffer handed s) {handler : NumberCrusher}
    (hhandler : s.handler = .ok () handler) (hstuck : Stuck s) (side : Side) :
    s.exchange.pc side = .idle ∨ s.exchange.pc side = .asleep := by
  obtain ⟨as, hno, hrun⟩ := h.exchange.exists_along
  have hcontrol := ValueExchangeBlocking.controlOf_run hno hrun
  -- a thread that is kept in its call waits for the mutex of the other one
  have hblocked : ∀ side : Side, s.exchange.pc side ≠ .idle → s.exchange.pc side ≠ .asleep →
      s.exchange.accessor = some side.other := by
    intro side hbusy hawake
    by_contra hfree
    exact advance_ne_none hhandler
      (ValueExchangeBlocking.advance_isSome hcontrol hbusy hawake hfree) (hstuck _ rfl)
  by_contra hrest
  obtain ⟨hbusy, hawake⟩ := not_or.mp hrest
  -- and that one, which holds it, is not kept
  have hother := hblocked side hbusy hawake
  have hholds := (ValueExchangeBlocking.controlOf_both hcontrol side.other).owner.mp hother
  have howner := hblocked side.other (fun hpc => by rw [hpc] at hholds; cases hholds)
    (fun hpc => by rw [hpc] at hholds; cases hholds)
  rw [hother, Side.other_other] at howner
  exact side.other_ne (Option.some.inj howner)

/-- **Everything is processed** when no thread can go on and there was no exception. -/
theorem Invariant.handled_of_stuck (h : Invariant storage buffer handed s)
    {handler : NumberCrusher} (hhandler : s.handler = .ok () handler)
    (hstuck : Stuck s) : s.handled = handed := by
  obtain ⟨as, hno, hrun⟩ := h.exchange.exists_along
  have hcontrol := ValueExchangeBlocking.controlOf_run hno hrun
  rcases h.rest_of_stuck hhandler hstuck .consumer with hidle | hconsumer
  · -- the handler has a step of its own
    exfalso
    by_cases hinGet : s.inGet = true
    · have hprocess := hstuck .process rfl
      rw [step, hhandler] at hprocess
      dsimp only at hprocess
      rw [if_pos ⟨hinGet, hidle⟩] at hprocess
      cases hprocess
    · have hget := hstuck .get rfl
      rw [step, hhandler] at hget
      dsimp only at hget
      rw [if_neg hinGet, exchangeStep, ValueExchangeBlocking.step, if_pos hidle] at hget
      cases hget
  · rcases h.rest_of_stuck hhandler hstuck .producer with hproducer | hasleep
    · have hbusy : s.exchange.pc .consumer ≠ .idle := by rw [hconsumer]; decide
      have hreturned := h.returned
      rw [ValueExchangeBlocking.returned_eq_given h.exchange hproducer hconsumer, got,
        if_neg fun hidle => hbusy hidle.2, List.append_nil] at hreturned
      have hgiven := h.given
      rw [← hreturned, ← hgiven]
      cases hwaiting : s.waiting with
      | nil => rw [BPFEngine.run, List.append_nil]
      | cons head later =>
          -- the engine has a step
          exfalso
          have hengine := hstuck .engine rfl
          rw [step, hhandler] at hengine
          simp only [engineStep, hwaiting, if_pos hproducer] at hengine
          split at hengine
          · cases hengine
          · rw [exchangeStep, ValueExchangeBlocking.step, if_pos (by exact hproducer)] at hengine
            cases hengine
    · exact absurd hconsumer (ValueExchangeBlocking.not_both_asleep hcontrol hasleep)

/-- The handler is where the sequential program leaves it when no thread can go on. -/
theorem Invariant.handler_of_stuck (h : Invariant storage buffer handed s) (hstuck : Stuck s) :
    s.handler = NumberCrusher.run handed (.new buffer) := by
  cases hhandler : s.handler with
  | ok _ handler => rw [← h.handled_of_stuck hhandler hstuck, ← h.handler, hhandler]
  | error stop handler =>
      obtain ⟨later, hlater⟩ := (List.prefix_append s.handled (got s)).trans h.handled_beginning
      have hrun := h.handler
      rw [hhandler] at hrun
      rw [← hlater, run_append_of_error hrun.symm]

/-! ## The length of a run -/

/-- The **potential**: how many steps are left at most, without spurious wake-ups. -/
def potential (handed : List Buffer) (s : State) : Nat :=
  13 * s.waiting.length + s.exchange.rank + 14 * (handed.length - s.handled.length)
    + if s.inGet then 0 else 13

/-- **Every step** lowers the potential, but for the spurious wake-ups, which raise it by three at
most. -/
theorem potential_moves {t : State} {a : Action} (h : Invariant storage buffer handed s)
    (hmove : Moves s a t) :
    potential handed t + 1 ≤ potential handed s + if a.isSpurious then 4 else 0 := by
  cases hmove with
  | receive hwaiting hkeeps =>
      simp only [potential, hwaiting, List.length_cons]
      omega
  | handOver hwaiting hhands hset =>
      -- the engine is at the beginning of `set`
      have hrank := ValueExchangeBlocking.rank_set hset
      simp only [potential, hwaiting, List.length_cons]
      omega
  | @get e hinGet hget =>
      have hrank := ValueExchangeBlocking.rank_get hget
      simp only [potential, hinGet, if_true, Bool.false_eq_true, if_false]
      omega
  | process hhandler hinGet hidle =>
      -- the buffer that was processed is one more of those that are handed over
      have hlength := h.handled_beginning.length_le
      rw [got, if_pos ⟨hinGet, hidle⟩, List.length_append, List.length_singleton] at hlength
      simp only [potential, hinGet, if_true, Bool.false_eq_true, if_false, List.length_append,
        List.length_singleton]
      omega
  | @advance side e hadvance =>
      have hrank := ValueExchangeBlocking.rank_callMoves
        (ValueExchangeBlocking.callMoves_of_callStep hadvance)
      simp only [potential]
      omega
  | @spurious side e hspurious =>
      have hrank := ValueExchangeBlocking.rank_spurious hspurious
      simp only [potential, Action.isSpurious, if_true]
      omega

/-- **From every state** the threads come to one in which none of them can go on. -/
theorem exists_stuck (hreach : (pipeline storage buffer data waiting).Reachable s) :
    ∃ t, (pipeline storage buffer data waiting).Reachable t ∧ Stuck t := by
  obtain ⟨as, t, -, hrun, hstuck⟩ := (pipeline storage buffer data waiting).exists_run_of_potential
    (potential (BPFEngine.run (constructed data) waiting)) Action.isSpurious
    (fun _ _ _ h hstep => invariant_moves h (moves_of_step hstep))
    (fun s a t h ha hstep => by
      have hlowers := potential_moves h (moves_of_step hstep)
      rwa [ha, if_neg Bool.false_ne_true] at hlowers)
    (invariant_reachable hreach)
  exact ⟨t, hreach.run hrun, hstuck⟩

end Step

/-! ## The output -/

variable {storage buffer : Buffer} {data : Vector UInt8 bufferSize}
  {waiting : List (Option (List UInt8))} {s : State}

/-- A buffer of zeros, as the storage of the exchange and the buffers of the threads. -/
def zeros : Buffer := constructed (Vector.replicate bufferSize 0)

/-- The first forty frames of `squareUnit`, with 600 samples, wait at the socket. -/
def squareWaiting : List (Option (List UInt8)) := (squareUnit.frames 40).map some

theorem squareWaiting_reduceOption : squareWaiting.reduceOption = squareUnit.frames 40 :=
  reduceOption_map_some _

/-- The program comes to an end on them, and has printed a report: it ends as the sequential program
does, which prints one by `report_of_unit`. -/
theorem exists_stuck_squareUnit :
    ∃ s, (@pipeline ⟨.littleEndian⟩ zeros zeros zeros.data squareWaiting).Reachable s ∧
      @Stuck ⟨.littleEndian⟩ s ∧ output s.handler ≠ [] := by
  obtain ⟨s, hreach, hstuck⟩ :=
    @exists_stuck ⟨.littleEndian⟩ zeros zeros zeros.data squareWaiting _ ⟨[], rfl⟩
  have hhandler := @Invariant.handler_of_stuck ⟨.littleEndian⟩ zeros zeros _ s
    (@invariant_reachable ⟨.littleEndian⟩ zeros zeros zeros.data squareWaiting s hreach) hstuck
  obtain ⟨t, hrun, hprinted⟩ := @report_of_unit zeros.data squareWaiting squareUnit ⟨.littleEndian⟩ 40
    squareUnit_fits squareUnit_alternates (by decide) squareWaiting_reduceOption zeros
  refine ⟨s, hreach, hstuck, ?_⟩
  rw [hhandler, hrun]
  exact hprinted

/-- **At every moment**, whatever the order of the steps, the output is a beginning of the output of
the sequential program. -/
theorem printed_beginning [Bytes.Host]
    (hreach : (pipeline storage buffer data waiting).Reachable s) :
    output s.handler
      <+: output (NumberCrusher.run (BPFEngine.run (constructed data) waiting) (.new buffer)) := by
  have h := invariant_reachable hreach
  obtain ⟨later, hlater⟩ := (List.prefix_append s.handled (got s)).trans h.handled_beginning
  rw [h.handler, ← hlater]
  exact output_run_append _ later

theorem printed_beginning_squareUnit :
    ∃ s, (@pipeline ⟨.littleEndian⟩ zeros zeros zeros.data squareWaiting).Reachable s ∧
      output s.handler ≠ [] ∧ output s.handler <+: output
        (@NumberCrusher.run ⟨.littleEndian⟩ (BPFEngine.run zeros squareWaiting) (.new zeros)) := by
  obtain ⟨s, hreach, -, hprinted⟩ := exists_stuck_squareUnit
  exact ⟨s, hreach, hprinted,
    @printed_beginning zeros zeros zeros.data squareWaiting s ⟨.littleEndian⟩ hreach⟩

/-- **When no thread can go on**, the handler is where the sequential program leaves it. -/
theorem outcome_of_stuck [Bytes.Host]
    (hreach : (pipeline storage buffer data waiting).Reachable s) (hstuck : Stuck s) :
    s.handler = NumberCrusher.run (BPFEngine.run (constructed data) waiting) (.new buffer) :=
  (invariant_reachable hreach).handler_of_stuck hstuck

theorem outcome_of_stuck_squareUnit :
    ∃ s, (@pipeline ⟨.littleEndian⟩ zeros zeros zeros.data squareWaiting).Reachable s ∧
      @Stuck ⟨.littleEndian⟩ s ∧ output s.handler ≠ [] ∧ s.handler
        = @NumberCrusher.run ⟨.littleEndian⟩ (BPFEngine.run zeros squareWaiting) (.new zeros) := by
  obtain ⟨s, hreach, hstuck, hprinted⟩ := exists_stuck_squareUnit
  exact ⟨s, hreach, hstuck, hprinted,
    @outcome_of_stuck zeros zeros zeros.data squareWaiting s ⟨.littleEndian⟩ hreach hstuck⟩

/-- **The threads come to an end**: a run is not longer than what waits at the socket allows, but for
the spurious wake-ups. -/
theorem length_le [Bytes.Host] {as : List Action}
    (hrun : (pipeline storage buffer data waiting).run (initial storage buffer data waiting) as
      = some s) :
    as.length ≤ 27 * waiting.length + 13 + 4 * as.countP Action.isSpurious := by
  have hpotential := (pipeline storage buffer data waiting).length_le_of_potential
    (potential (BPFEngine.run (constructed data) waiting)) Action.isSpurious 4
    (fun _ _ _ h hstep => invariant_moves h (moves_of_step hstep))
    (fun _ _ _ h hstep => potential_moves h (moves_of_step hstep))
    (invariant_initial data waiting) hrun
  have hhanded := BPFEngine.length_run_le (constructed data) waiting
  have hstart : potential (BPFEngine.run (constructed data) waiting)
      (initial storage buffer data waiting)
        = 13 * waiting.length + 0 + 14 * ((BPFEngine.run (constructed data) waiting).length - 0)
          + 13 := rfl
  rw [hstart] at hpotential
  omega

theorem length_le_squareUnit :
    ∃ as s, (@pipeline ⟨.littleEndian⟩ zeros zeros zeros.data squareWaiting).run
        (initial zeros zeros zeros.data squareWaiting) as = some s ∧ output s.handler ≠ [] ∧
      as.length ≤ 27 * squareWaiting.length + 13 + 4 * as.countP Action.isSpurious := by
  obtain ⟨s, ⟨as, hrun⟩, -, hprinted⟩ := exists_stuck_squareUnit
  exact ⟨as, s, hrun, hprinted,
    @length_le zeros zeros zeros.data squareWaiting s ⟨.littleEndian⟩ as hrun⟩

end PipelineRun

end IecCore
