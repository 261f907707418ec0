import IecCore.Lib.Transition
import Mathlib.Logic.Function.Basic

/-! # The blocking value exchange

`utils::ValueExchangeBlocking<T>` passes values from one producer to one consumer through a single
slot, a flag `isFilled`, a mutex and one condition variable. This file models its calls as thread
steps: the unlocked test of the flag, the lock, the predicate of the wait, the release-and-sleep,
the wake-up, the second lock and the statements of the body are separate steps, so that the other
threads may run between any two of them.

* **`State`** — the shared data, where each thread is, and the history of the run.
* **`callStep`** — the next step of a thread inside its call; `get` and `set` have the same shape
  and differ in the flag value they wait for, the direction of the move and the value they leave.
* **`resetStep`** — the next statement of `reset`, which does not lock.
* **`blocking`** — one producer, one consumer and one call of `reset` as a transition system.
* **`CallMoves`** — what a step inside a call can do. -/

namespace IecCore

universe u

namespace ValueExchangeBlocking

/-- The two threads that use the exchange; the third one, which calls `reset`, has a state of its
own. -/
inductive Side
  /-- The thread that calls `set`. -/
  | producer
  /-- The thread that calls `get`. -/
  | consumer
  deriving DecidableEq, Repr

/-- The other one of the two threads: the consumer for the producer, and the producer for the
consumer. -/
def Side.other : Side → Side
  | .producer => .consumer
  | .consumer => .producer

@[simp] theorem Side.other_ne (side : Side) : side.other ≠ side := by cases side <;> decide

@[simp] theorem Side.ne_other (side : Side) : side ≠ side.other := by cases side <;> decide

@[simp] theorem Side.other_other (side : Side) : side.other.other = side := by cases side <;> rfl

/-- There are two sides: for every `side`, any side is `side` itself or `side.other`. -/
theorem Side.eq_or_eq_other (side side' : Side) : side' = side ∨ side' = side.other := by
  cases side <;> cases side' <;> decide

/-- Where a thread is in its call; the names are those of the next step. `set` and `get` have the
same steps. -/
inductive Pc
  /-- Outside a call. -/
  | idle
  /-- The unlocked test of `isFilled`. -/
  | test
  /-- `std::unique_lock` before the wait. -/
  | waitLock
  /-- The predicate of `waiter.wait`, under the lock. -/
  | predicate
  /-- The predicate was false: release the lock and go to sleep, in one step. -/
  | block
  /-- Waiting on the condition variable, no notification pending. -/
  | asleep
  /-- Notified or woken spuriously: take the lock again. -/
  | woken
  /-- The predicate was true: leave the scope of the first lock. -/
  | waitUnlock
  /-- `std::lock_guard` of the body. -/
  | bodyLock
  /-- The move between the storage and the caller's value. -/
  | move
  /-- The write of `isFilled`. -/
  | flag
  /-- `waiter.notify_one()`. -/
  | notify
  /-- The end of the body: release the lock and return. -/
  | unlock
  deriving DecidableEq, Repr

/-- The program points at which a thread holds the mutex `accessor`. -/
def Pc.holds : Pc → Bool
  | .predicate | .block | .waitUnlock | .move | .flag | .notify | .unlock => true
  | .idle | .test | .waitLock | .asleep | .woken | .bodyLock => false

/-- The program points between a passed test of `isFilled` and the write of `isFilled`: the thread
goes by what it has seen. -/
def Pc.entered : Pc → Bool
  | .waitUnlock | .bodyLock | .move | .flag => true
  | .idle | .test | .waitLock | .predicate | .block | .asleep | .woken | .notify | .unlock => false

/-- The part of a call relative to its move, which is where its value changes hands. -/
inductive Phase
  | outside
  | before
  | after
  deriving DecidableEq

/-- Where a program point stands relative to the move of its call; the wait and its wake-ups come
before it. -/
def Pc.phase : Pc → Phase
  | .idle => .outside
  | .test | .waitLock | .predicate | .block | .asleep | .woken | .waitUnlock | .bodyLock
  | .move => .before
  | .flag | .notify | .unlock => .after

/-- Where the third thread is in `reset`; the names are those of the next statement. None of them
takes the mutex. -/
inductive ResetPc
  /-- Before the call: `isFilled = true` comes next. -/
  | fill
  /-- The first `notify_one`, meant for the reader's thread. -/
  | notifyReader
  /-- `isFilled = false`. -/
  | clear
  /-- The second `notify_one`, meant for the writer's thread. -/
  | notifyWriter
  /-- `reset` has returned. -/
  | done
  deriving DecidableEq, Repr

/-- The exchange, its threads, and the history of the run. No step reads the history; it is there
for the statements. -/
structure State (T : Type u) where
  /-- `storage`, the value that is handed over. -/
  storage : T
  /-- The owner of `accessor`, the mutex, if a thread has locked it. -/
  accessor : Option Side
  /-- `isFilled`, the flag that both predicates test. -/
  isFilled : Bool
  /-- Where the two threads are in their calls. -/
  pc : Side → Pc
  /-- The parameter of the producer's call, its value. -/
  argument : T
  /-- The consumer's value, assigned by `get`. -/
  result : T
  /-- Where the third thread is. -/
  resetPc : ResetPc
  /-- History: the values given to `set`. -/
  given : List T
  /-- History: the values `set` has stored. -/
  stored : List T
  /-- History: the number of calls of `set` that returned. -/
  completed : Nat
  /-- History: which stored value the storage holds, if it is one. -/
  origin : Option Nat
  /-- History: the values `get` has taken, each with its origin. -/
  taken : List (Option Nat × T)
  /-- History: the values returned by `get`. -/
  returned : List T
  /-- History: `isFilled` is `true` because `reset` wrote it: the flag was down, no `set` was between
  its move and its own write of the flag, and since then no `set` has moved and nobody has written the
  flag. -/
  forged : Bool
  /-- History: the `get` under way passed its test or its predicate on a flag that was `forged`, and
  no `set` has moved since. -/
  lured : Bool

namespace State

variable {T : Type u}

/-- The thread goes on at another point of its call; nothing else of the state changes. -/
def goto (s : State T) (side : Side) (pc : Pc) : State T :=
  { s with pc := Function.update s.pc side pc }

/-- The storage holds a value that a `set` stored and no `get` took. -/
def Fresh (s : State T) : Prop := s.origin.isSome ∧ s.origin ∉ s.taken.map Prod.fst

instance (s : State T) : Decidable s.Fresh := inferInstanceAs (Decidable (_ ∧ _))

/-- History of a passed test: a `get` notes in `lured` whether it was let in by a flag that `reset`
wrote. -/
def enter (s : State T) (side : Side) : State T :=
  { s with lured := match side with
      | .producer => s.lured
      | .consumer => s.forged }

/-- The move of the body. `get` assigns the storage to the caller's value and leaves it in place, as
the move of a `StaticBuffer` is a copy; `set` assigns its parameter to the storage. -/
def transfer (s : State T) : Side → State T
  | .producer =>
      { s with
        storage := s.argument, origin := some s.stored.length, stored := s.stored ++ [s.argument],
        forged := false, lured := false }
  | .consumer => { s with result := s.storage, taken := s.taken ++ [(s.origin, s.storage)] }

/-- History of a return: `set` counts its calls, and `get` keeps the value that it returns. -/
def finish (s : State T) : Side → State T
  | .producer => { s with completed := s.completed + 1 }
  | .consumer => { s with returned := s.returned ++ [s.result] }

/-- `waiter.notify_one()`: one waiting thread is woken, if there is one; `first` is the thread
chosen when both wait. -/
def notifyOne (s : State T) (first : Side) : State T :=
  if s.pc first = .asleep then s.goto first .woken
  else if s.pc first.other = .asleep then s.goto first.other .woken
  else s

end State

variable {T : Type u}

/-- The value of `isFilled` a call waits for: `get` waits until it is filled, `set` until it is
not. -/
def awaits : Side → Bool
  | .producer => false
  | .consumer => true

/-- The value that the body of a call gives `isFilled`, which is the one that the other thread waits
for. -/
def leaves : Side → Bool
  | .producer => true
  | .consumer => false

@[simp] theorem leaves_eq (side : Side) : leaves side = !awaits side := by cases side <;> rfl

@[simp] theorem awaits_other (side : Side) : awaits side.other = !awaits side := by
  cases side <;> rfl

/-- The next step of a thread inside its call: `get` for the consumer, `set` for the producer.
A lock that is held and a sleep without notification have no step. -/
def callStep (side : Side) (s : State T) : Option (State T) :=
  match s.pc side with
  | .idle => none
  | .test =>
      -- the test is made without the lock; when it passes there is no wait
      if s.isFilled = awaits side then some ((s.enter side).goto side .bodyLock)
      else some (s.goto side .waitLock)
  | .waitLock =>
      if s.accessor = none then some { s.goto side .predicate with accessor := some side }
      else none
  | .predicate =>
      if s.isFilled = awaits side then some ((s.enter side).goto side .waitUnlock)
      else some (s.goto side .block)
  -- a thread falls asleep and releases the lock in one step, so that no notification is lost here
  | .block => some { s.goto side .asleep with accessor := none }
  | .asleep => none
  | .woken =>
      if s.accessor = none then some { s.goto side .predicate with accessor := some side }
      else none
  -- the lock of the wait ends before the body, which takes a lock of its own
  | .waitUnlock => some { s.goto side .bodyLock with accessor := none }
  | .bodyLock =>
      if s.accessor = none then some { s.goto side .move with accessor := some side } else none
  | .move => some ((s.transfer side).goto side .flag)
  | .flag => some { s.goto side .notify with isFilled := leaves side, forged := false }
  | .notify => some ((s.notifyOne side.other).goto side .unlock)
  | .unlock => some { (s.finish side).goto side .idle with accessor := none }

/-- The next statement of `reset`. It writes the flag twice, and each time wakes one thread that
sleeps at that moment. -/
def resetStep (first : Side) (s : State T) : Option (State T) :=
  match s.resetPc with
  -- the flag is written without the mutex, and without a value in the storage
  | .fill =>
      some { s with
        isFilled := true, forged := !s.isFilled && s.pc .producer ≠ .flag,
        resetPc := .notifyReader }
  | .notifyReader => some { s.notifyOne first with resetPc := .clear }
  | .clear => some { s with isFilled := false, forged := false, resetPc := .notifyWriter }
  | .notifyWriter => some { s.notifyOne first with resetPc := .done }
  | .done => none

/-- The steps of the threads, of which each call is begun by one action and gone through by
`advance`. -/
inductive Action (T : Type u)
  /-- The producer calls `set(value)`. -/
  | set (value : T)
  /-- The consumer calls `get`. -/
  | get
  /-- A thread goes on with its call. -/
  | advance (side : Side)
  /-- The third thread goes on with `reset`; `first` is the choice of a `notify_one`. -/
  | reset (first : Side)
  /-- A waiting thread wakes up without a notification. -/
  | spurious (side : Side)

/-- One step of one thread; none when the thread cannot go on, because it sleeps or waits for the
mutex. -/
def step (s : State T) : Action T → Option (State T)
  | .set value =>
      if s.pc .producer = .idle then
        some { s.goto .producer .test with argument := value, given := s.given ++ [value] }
      else none
  | .get => if s.pc .consumer = .idle then some (s.goto .consumer .test) else none
  | .advance side => callStep side s
  | .reset first => resetStep first s
  | .spurious side => if s.pc side = .asleep then some (s.goto side .woken) else none

/-- A constructed exchange whose storage is the value `constructed`, before any call. The flag is
false. -/
def initial (constructed : T) : State T where
  storage := constructed
  accessor := none
  isFilled := false
  pc := fun _ => .idle
  argument := constructed
  result := constructed
  resetPc := .fill
  given := []
  stored := []
  completed := 0
  origin := none
  taken := []
  returned := []
  forged := false
  lured := false

/-- One producer, one consumer and one call of `reset` on a constructed exchange, in any
interleaving. -/
def blocking (constructed : T) : System (State T) (Action T) where
  init := initial constructed
  step := step

/-! ## What the operations change -/

namespace State

@[simp] theorem goto_pc_self (s : State T) (side : Side) (pc : Pc) :
    (s.goto side pc).pc side = pc :=
  Function.update_self ..

@[simp] theorem goto_pc_other (s : State T) (side : Side) (pc : Pc) :
    (s.goto side pc).pc side.other = s.pc side.other :=
  Function.update_of_ne side.other_ne _ _

@[simp] theorem goto_other_pc (s : State T) (side : Side) (pc : Pc) :
    (s.goto side.other pc).pc side = s.pc side :=
  Function.update_of_ne side.ne_other _ _

@[simp] theorem goto_producer_pc_consumer (s : State T) (pc : Pc) :
    (s.goto .producer pc).pc .consumer = s.pc .consumer :=
  goto_pc_other s .producer pc

@[simp] theorem goto_consumer_pc_producer (s : State T) (pc : Pc) :
    (s.goto .consumer pc).pc .producer = s.pc .producer :=
  goto_pc_other s .consumer pc

@[simp] theorem goto_accessor (s : State T) (side : Side) (pc : Pc) :
    (s.goto side pc).accessor = s.accessor := rfl

@[simp] theorem goto_isFilled (s : State T) (side : Side) (pc : Pc) :
    (s.goto side pc).isFilled = s.isFilled := rfl

@[simp] theorem enter_pc (s : State T) (side : Side) : (s.enter side).pc = s.pc := rfl

@[simp] theorem enter_accessor (s : State T) (side : Side) :
    (s.enter side).accessor = s.accessor := rfl

@[simp] theorem enter_isFilled (s : State T) (side : Side) :
    (s.enter side).isFilled = s.isFilled := rfl

@[simp] theorem transfer_pc (s : State T) (side : Side) : (s.transfer side).pc = s.pc := by
  cases side <;> rfl

@[simp] theorem transfer_accessor (s : State T) (side : Side) :
    (s.transfer side).accessor = s.accessor := by
  cases side <;> rfl

@[simp] theorem transfer_isFilled (s : State T) (side : Side) :
    (s.transfer side).isFilled = s.isFilled := by
  cases side <;> rfl

@[simp] theorem finish_pc (s : State T) (side : Side) : (s.finish side).pc = s.pc := by
  cases side <;> rfl

@[simp] theorem finish_isFilled (s : State T) (side : Side) :
    (s.finish side).isFilled = s.isFilled := by
  cases side <;> rfl

@[simp] theorem notifyOne_taken (s : State T) (first : Side) :
    (s.notifyOne first).taken = s.taken := by
  unfold notifyOne
  split
  · rfl
  · split <;> rfl

@[simp] theorem notifyOne_stored (s : State T) (first : Side) :
    (s.notifyOne first).stored = s.stored := by
  unfold notifyOne
  split
  · rfl
  · split <;> rfl

end State

/-! ## What a step can do -/

/-- The lock statements of a call, with the point after them: before the wait, after a wake-up, and
before the body. -/
inductive Locks : Pc → Pc → Prop
  | waitLock : Locks .waitLock .predicate
  | woken : Locks .woken .predicate
  | bodyLock : Locks .bodyLock .move

/-- The moves of a thread inside its call, one constructor for each branch, with the conditions of
the branch. -/
inductive CallMoves (side : Side) (s : State T) : State T → Prop
  | testEnter (hpc : s.pc side = .test) (hflag : s.isFilled = awaits side) :
      CallMoves side s ((s.enter side).goto side .bodyLock)
  | testWait (hpc : s.pc side = .test) (hflag : s.isFilled ≠ awaits side) :
      CallMoves side s (s.goto side .waitLock)
  | lock {p q : Pc} (hpc : s.pc side = p) (hlock : Locks p q) (free : s.accessor = none) :
      CallMoves side s { s.goto side q with accessor := some side }
  | predicateEnter (hpc : s.pc side = .predicate) (hflag : s.isFilled = awaits side) :
      CallMoves side s ((s.enter side).goto side .waitUnlock)
  | predicateBlock (hpc : s.pc side = .predicate) (hflag : s.isFilled ≠ awaits side) :
      CallMoves side s (s.goto side .block)
  | block (hpc : s.pc side = .block) :
      CallMoves side s { s.goto side .asleep with accessor := none }
  | waitUnlock (hpc : s.pc side = .waitUnlock) :
      CallMoves side s { s.goto side .bodyLock with accessor := none }
  | move (hpc : s.pc side = .move) : CallMoves side s ((s.transfer side).goto side .flag)
  | flag (hpc : s.pc side = .flag) :
      CallMoves side s { s.goto side .notify with isFilled := leaves side, forged := false }
  | notify (hpc : s.pc side = .notify) :
      CallMoves side s ((s.notifyOne side.other).goto side .unlock)
  | unlock (hpc : s.pc side = .unlock) :
      CallMoves side s { (s.finish side).goto side .idle with accessor := none }

/-- **Every step inside a call** is one of the moves, so that a proof about calls has one case for
each branch. -/
theorem callMoves_of_callStep {side : Side} {s t : State T} (hstep : callStep side s = some t) :
    CallMoves side s t := by
  cases hpc : s.pc side with
  -- outside a call there is nothing to go on with
  | idle => simp [callStep, hpc] at hstep
  | test =>
      simp only [callStep, hpc] at hstep
      split at hstep
      · next hflag => exact Option.some.inj hstep ▸ .testEnter hpc hflag
      · next hflag => exact Option.some.inj hstep ▸ .testWait hpc hflag
  | waitLock =>
      simp only [callStep, hpc, Option.ite_none_right_eq_some] at hstep
      exact Option.some.inj hstep.2 ▸ .lock hpc .waitLock hstep.1
  | predicate =>
      simp only [callStep, hpc] at hstep
      split at hstep
      · next hflag => exact Option.some.inj hstep ▸ .predicateEnter hpc hflag
      · next hflag => exact Option.some.inj hstep ▸ .predicateBlock hpc hflag
  | block =>
      simp only [callStep, hpc] at hstep
      exact Option.some.inj hstep ▸ .block hpc
  -- a sleeping thread is moved by the other one only
  | asleep => simp [callStep, hpc] at hstep
  | woken =>
      simp only [callStep, hpc, Option.ite_none_right_eq_some] at hstep
      exact Option.some.inj hstep.2 ▸ .lock hpc .woken hstep.1
  | waitUnlock =>
      simp only [callStep, hpc] at hstep
      exact Option.some.inj hstep ▸ .waitUnlock hpc
  | bodyLock =>
      simp only [callStep, hpc, Option.ite_none_right_eq_some] at hstep
      exact Option.some.inj hstep.2 ▸ .lock hpc .bodyLock hstep.1
  | move =>
      simp only [callStep, hpc] at hstep
      exact Option.some.inj hstep ▸ .move hpc
  | flag =>
      simp only [callStep, hpc] at hstep
      exact Option.some.inj hstep ▸ .flag hpc
  | notify =>
      simp only [callStep, hpc] at hstep
      exact Option.some.inj hstep ▸ .notify hpc
  | unlock =>
      simp only [callStep, hpc] at hstep
      exact Option.some.inj hstep ▸ .unlock hpc

end ValueExchangeBlocking

end IecCore
