import IecCore.Utils.ValueExchangeBlocking

/-! # The pipeline

`pipeline::PipelineBuilder` runs an engine and a handler, each in a thread of its own, that share
one blocking exchange. This file models the loops of the two threads and a third thread that calls
`stop`; the steps inside `get`, `set` and `reset` are those of the exchange. What the threads do with
the values is left out here, and is put in where the pipeline is run.

* **`LoopPc`**, **`MainPc`** — where a loop and the third thread are.
* **`State T`** — the exchange, the running flags and the three threads.
* **`Action`**, **`step`**, **`pipeline`** — the steps of the threads as a transition system: each
  action is one step of one thread, so that a run is an interleaving.
* **`Asleep`**, **`Hung`** — `stop` waits for a thread that sleeps, and nobody is left to wake it. -/

namespace IecCore

universe u

namespace PipelineBuilder

open ValueExchangeBlocking (Side Pc)

/-- Where a thread is in the loop of its `run`: a test, an iteration, and a call at its end. -/
inductive LoopPc
  /-- The test of `running`, at which an iteration starts. -/
  | top
  /-- The rest of the iteration, before a call of the exchange. -/
  | body
  /-- Inside a call of the exchange. -/
  | calling
  /-- `run` has returned. -/
  | exited
  deriving DecidableEq, Repr

/-- Where the third thread is in `stop`; the names are those of the next statement. -/
inductive MainPc
  /-- `engine.stop()`. -/
  | stopEngine
  /-- `handler.stop()`. -/
  | stopHandler
  /-- `exchange.reset()`, under way; its statements are steps of the exchange. -/
  | reset
  /-- `engineThread.join()`, which waits until the engine has exited. -/
  | joinEngine
  /-- `handlerThread.join()`, which waits until the handler has exited. -/
  | joinHandler
  /-- `stop` has returned. -/
  | done
  deriving DecidableEq, Repr

/-- The pipeline; the engine is the producer of the exchange and the handler its consumer. -/
structure State (T : Type u) where
  /-- The exchange, with the two threads inside its calls. -/
  exchange : ValueExchangeBlocking.State T
  /-- The running flags, tested at the top of the loops. -/
  running : Side → Bool
  /-- Where the two threads are in their loops; inside of a call, the exchange has their points. -/
  loop : Side → LoopPc
  /-- Where the third thread is, the one that calls `stop`. -/
  main : MainPc

namespace State

variable {T : Type u}

/-- A thread goes on at another point of its loop; nothing else of the state changes. -/
def goto (s : State T) (side : Side) (pc : LoopPc) : State T :=
  { s with loop := Function.update s.loop side pc }

/-- `stop` of a runnable: its flag is lowered, and it sees that at its next test. -/
def stop (s : State T) (side : Side) : State T :=
  { s with running := Function.update s.running side false }

end State

variable {T : Type u}

/-- The steps of the threads, one for every choice that a schedule has. -/
inductive Action (T : Type u)
  /-- A thread tests `running`, or its call has returned and it goes back to the test. -/
  | loop (side : Side)
  /-- The engine ends an iteration without handing its buffer over. -/
  | skip
  /-- The engine calls `exchange->set(value)`. -/
  | set (value : T)
  /-- The handler calls `exchange->get`. -/
  | get
  /-- A thread goes on with its call. -/
  | call (side : Side)
  /-- The third thread takes its next step; `first` is the choice of a `notify_one`. -/
  | main (first : Side)
  /-- A waiting thread wakes up without a notification. -/
  | spurious (side : Side)

/-- The next step of the loop of a thread outside the body. After its call the engine resets its
buffer and the handler parses, checks and converts the one it got; none of this is shared. -/
def loopStep (side : Side) (s : State T) : Option (State T) :=
  match s.loop side with
  | .top => some (s.goto side (if s.running side then .body else .exited))
  | .body => none
  | .calling => if s.exchange.pc side = .idle then some (s.goto side .top) else none
  | .exited => none

/-- A thread calls the exchange from the body of its loop, which is at `.calling` until the call
returns. -/
def enterCall (side : Side) (a : ValueExchangeBlocking.Action T) (s : State T) :
    Option (State T) :=
  if s.loop side = .body then
    (ValueExchangeBlocking.step s.exchange a).map fun e =>
      { s.goto side .calling with exchange := e }
  else none

/-- The next step of `stop`. A join has a step when the thread has returned. -/
def mainStep (first : Side) (s : State T) : Option (State T) :=
  match s.main with
  | .stopEngine => some { s.stop .producer with main := .stopHandler }
  | .stopHandler => some { s.stop .consumer with main := .reset }
  | .reset =>
      (ValueExchangeBlocking.step s.exchange (.reset first)).map fun e =>
        { s with exchange := e, main := if e.resetPc = .done then .joinEngine else .reset }
  | .joinEngine =>
      if s.loop .producer = .exited then some { s with main := .joinHandler } else none
  | .joinHandler => if s.loop .consumer = .exited then some { s with main := .done } else none
  | .done => none

/-- One step of one thread; none is a step that the thread cannot make in this state. -/
def step (s : State T) : Action T → Option (State T)
  | .loop side => loopStep side s
  | .skip => if s.loop .producer = .body then some (s.goto .producer .top) else none
  | .set value => enterCall .producer (.set value) s
  | .get => enterCall .consumer .get s
  | .call side =>
      (ValueExchangeBlocking.step s.exchange (.advance side)).map fun e =>
        { s with exchange := e }
  | .main first => mainStep first s
  | .spurious side =>
      (ValueExchangeBlocking.step s.exchange (.spurious side)).map fun e =>
        { s with exchange := e }

/-- The pipeline after `run`: both threads are started and nobody has called the exchange. -/
def initial (constructed : T) : State T where
  exchange := ValueExchangeBlocking.initial constructed
  running := fun _ => true
  loop := fun _ => .top
  main := .stopEngine

/-- The engine, the handler and a thread that calls `stop` at any moment. -/
def pipeline (constructed : T) : System (State T) (Action T) where
  init := initial constructed
  step := step

/-! ## Hanging -/

/-- The thread waits on the condition variable and no notification is pending. -/
def Asleep (s : State T) (side : Side) : Prop := s.exchange.pc side = .asleep

/-- The thread that the third thread joins, if it is at a join: the engine first, then the
handler. -/
def joined : MainPc → Option Side
  | .joinEngine => some .producer
  | .joinHandler => some .consumer
  | .stopEngine | .stopHandler | .reset | .done => none

/-- `stop` has finished `reset`, it joins a thread that is asleep, and every thread that has not
exited is asleep. -/
def Hung (s : State T) : Prop :=
  (∃ side, joined s.main = some side ∧ Asleep s side) ∧
    ∀ side, s.loop side = .exited ∨ Asleep s side

end PipelineBuilder

end IecCore
