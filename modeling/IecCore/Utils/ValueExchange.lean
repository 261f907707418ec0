import IecCore.Lib.NewestCell
import Mathlib.Logic.Function.Basic

/-! # The lock-free value exchange

`utils::ValueExchange<T>` passes values from one producer to one consumer through three slots and
three pointers to them; only the middle pointer is shared, and it is only ever exchanged. This file
models the interleavings of one producer calling `set` and one consumer calling `get`, and relates
them to the take-once, newest-value cell.

* **`ValueExchange`** — the slots and pointers, with the memory operations of `set` and `get`.
* **`lockFree`** — the two threads as a transition system; a step is one access that the other
  thread can tell apart, and the log records what happened.
* **`Inv`** — the pointers designate three different slots, and which slots are occupied in the
  middle of a call.
* **`lockFree_cell`** — every run of the exchange is a run of the cell. -/

namespace IecCore

universe u

/-- The data of `utils::ValueExchange<T>`: three optional values and three pointers to them. The
pointers are indexes here. -/
structure ValueExchange (T : Type u) where
  /-- The three slots, each with a value or without one. -/
  storage : Fin 3 → Option T
  /-- The producer's slot, which only `set` writes. -/
  setBuffer : Fin 3
  /-- The shared slot, reached through the atomic pointer. -/
  buffer : Fin 3
  /-- The consumer's slot, which only `get` reads and empties. -/
  getBuffer : Fin 3

namespace ValueExchange

variable {T : Type u}

/-- A constructed exchange: no slot has a value, and each pointer designates a slot of its own. -/
def initial : ValueExchange T := ⟨fun _ => none, 0, 1, 2⟩

/-- `set_buffer->emplace(std::move(value))`: the producer's slot gets the value. -/
def emplace (exchange : ValueExchange T) (value : T) : ValueExchange T :=
  { exchange with
    storage := Function.update exchange.storage exchange.setBuffer (some value) }

/-- `set_buffer = buffer.exchange(set_buffer)`: the producer's slot and the shared one change
places, in one atomic step. -/
def swapSet (exchange : ValueExchange T) : ValueExchange T :=
  { exchange with setBuffer := exchange.buffer, buffer := exchange.setBuffer }

/-- `get_buffer = buffer.exchange(get_buffer)`: the consumer's slot and the shared one change
places. -/
def swapGet (exchange : ValueExchange T) : ValueExchange T :=
  { exchange with getBuffer := exchange.buffer, buffer := exchange.getBuffer }

/-- `get_buffer->reset()`: the consumer's slot is empty again, before it is given back. -/
def resetGet (exchange : ValueExchange T) : ValueExchange T :=
  { exchange with storage := Function.update exchange.storage exchange.getBuffer none }

/-- Where the producer is in `set`: between two accesses that the consumer can tell apart. -/
inductive SetPc (T : Type u)
  /-- Outside `set`. -/
  | idle
  /-- The test found its slot empty; before `emplace`. -/
  | emplacing (value : T)
  /-- Before the atomic exchange. -/
  | exchanging (value : T)

/-- Where the consumer is in `get`: between two accesses that the producer can tell apart. -/
inductive GetPc (T : Type u)
  /-- Outside `get`. -/
  | idle
  /-- After the atomic exchange; before the test. -/
  | testing
  /-- The value was moved out; before `reset`. -/
  | resetting (value : T)

/-- The exchange, its two threads and the log, which is a history that no step reads. -/
structure Threads (T : Type u) where
  /-- The shared data. -/
  exchange : ValueExchange T
  /-- The producer. -/
  setPc : SetPc T
  /-- The consumer. -/
  getPc : GetPc T
  /-- What took effect so far: an exchange of `set` is a put, an exchange of `get` is a take. -/
  log : List (CellEvent T)

/-- The steps of the two threads; each of them is one access to shared data, with what the thread
does on its own before it. -/
inductive Action (T : Type u)
  /-- The producer calls `set(value)` and tests its slot. -/
  | set (value : T)
  /-- The producer goes on with its call. -/
  | producer
  /-- The consumer calls `get` and exchanges its slot. -/
  | get
  /-- The consumer goes on with its call. -/
  | consumer

/-- One step of a thread. A `set` whose slot has a value returns false at once, and changes
nothing. -/
def step (s : Threads T) : Action T → Option (Threads T)
  | .set value => match s.setPc with
    | .idle =>
        -- the exchange gave back a slot that the consumer did not empty
        if (s.exchange.storage s.exchange.setBuffer).isSome then
          some { s with log := s.log ++ [.refuse value] }
        else some { s with setPc := .emplacing value }
    | .emplacing _ => none
    | .exchanging _ => none
  | .producer => match s.setPc with
    | .idle => none
    | .emplacing value =>
        some { s with exchange := s.exchange.emplace value, setPc := .exchanging value }
    | .exchanging value =>
        some { s with
          exchange := s.exchange.swapSet, setPc := .idle, log := s.log ++ [.put value] }
  | .get => match s.getPc with
    -- the slots are exchanged before the test, also when there is nothing to get
    | .idle =>
        some { s with exchange := s.exchange.swapGet, getPc := .testing, log := s.log ++ [.take] }
    | .testing => none
    | .resetting _ => none
  | .consumer => match s.getPc with
    | .idle => none
    | .testing => match s.exchange.storage s.exchange.getBuffer with
      | none => some { s with getPc := .idle, log := s.log ++ [.answer none] }
      | some value => some { s with getPc := .resetting value }
    | .resetting value =>
        some { s with
          exchange := s.exchange.resetGet, getPc := .idle, log := s.log ++ [.answer (some value)] }

/-- One producer and one consumer on a constructed exchange, in any interleaving of their steps. -/
def lockFree (T : Type u) : System (Threads T) (Action T) where
  init := ⟨initial, .idle, .idle, []⟩
  step := step

/-! ## What a step can do -/

/-- The moves of the two threads, one constructor for each branch of the source, with the conditions
of the branch. -/
inductive Moves (s : Threads T) : Action T → Threads T → Prop
  | refuse {value : T} (hpc : s.setPc = .idle)
      (full : (s.exchange.storage s.exchange.setBuffer).isSome) :
      Moves s (.set value) { s with log := s.log ++ [.refuse value] }
  | accept {value : T} (hpc : s.setPc = .idle)
      (free : s.exchange.storage s.exchange.setBuffer = none) :
      Moves s (.set value) { s with setPc := .emplacing value }
  | emplace {value : T} (hpc : s.setPc = .emplacing value) :
      Moves s .producer
        { s with exchange := s.exchange.emplace value, setPc := .exchanging value }
  | put {value : T} (hpc : s.setPc = .exchanging value) :
      Moves s .producer
        { s with exchange := s.exchange.swapSet, setPc := .idle, log := s.log ++ [.put value] }
  | take (hpc : s.getPc = .idle) :
      Moves s .get
        { s with exchange := s.exchange.swapGet, getPc := .testing, log := s.log ++ [.take] }
  | empty (hpc : s.getPc = .testing)
      (free : s.exchange.storage s.exchange.getBuffer = none) :
      Moves s .consumer { s with getPc := .idle, log := s.log ++ [.answer none] }
  | move {value : T} (hpc : s.getPc = .testing)
      (full : s.exchange.storage s.exchange.getBuffer = some value) :
      Moves s .consumer { s with getPc := .resetting value }
  | reset {value : T} (hpc : s.getPc = .resetting value) :
      Moves s .consumer
        { s with
          exchange := s.exchange.resetGet, getPc := .idle, log := s.log ++ [.answer (some value)] }

/-- **Every step** is one of the moves, so that a proof about steps has one case for each branch of
the source. -/
theorem moves_of_step {s t : Threads T} {a : Action T} (hstep : step s a = some t) :
    Moves s a t := by
  obtain ⟨exchange, setPc, getPc, log⟩ := s
  cases a with
  | set value =>
      cases setPc with
      | idle =>
          simp only [step] at hstep
          split at hstep
          · next full => cases hstep; exact .refuse rfl full
          · next free => cases hstep; exact .accept rfl (by simpa using free)
      | emplacing v => cases hstep
      | exchanging v => cases hstep
  | producer =>
      cases setPc with
      | idle => cases hstep
      | emplacing v => cases hstep; exact .emplace rfl
      | exchanging v => cases hstep; exact .put rfl
  | get =>
      cases getPc with
      | idle => cases hstep; exact .take rfl
      | testing => cases hstep
      | resetting v => cases hstep
  | consumer =>
      cases getPc with
      | idle => cases hstep
      | testing =>
          cases hslot : exchange.storage exchange.getBuffer with
          | none => simp only [step, hslot] at hstep; cases hstep; exact .empty rfl hslot
          | some v => simp only [step, hslot] at hstep; cases hstep; exact .move rfl hslot
      | resetting v => cases hstep; exact .reset rfl

/-! ## The invariant -/

/-- **The invariant of the exchange.** The three pointers are pairwise different; the producer's
slot is empty before `emplace` and holds its value before the exchange; the consumer's slot is
empty between calls and still holds the value moved out before `reset`. -/
structure Inv (s : Threads T) : Prop where
  set_ne_buffer : s.exchange.setBuffer ≠ s.exchange.buffer
  set_ne_get : s.exchange.setBuffer ≠ s.exchange.getBuffer
  buffer_ne_get : s.exchange.buffer ≠ s.exchange.getBuffer
  emplacing : ∀ value, s.setPc = .emplacing value →
    s.exchange.storage s.exchange.setBuffer = none
  exchanging : ∀ value, s.setPc = .exchanging value →
    s.exchange.storage s.exchange.setBuffer = some value
  idle : s.getPc = .idle → s.exchange.storage s.exchange.getBuffer = none
  resetting : ∀ value, s.getPc = .resetting value →
    s.exchange.storage s.exchange.getBuffer = some value

/-- The invariant holds of a constructed exchange: both threads are outside, and all slots are
empty. -/
theorem inv_init : Inv (lockFree T).init := by
  constructor <;> simp [lockFree, initial]

/-- **Every move** keeps the invariant: the exchanges permute the pointers, and only their owners
write the other two slots. -/
theorem Inv.moves {s t : Threads T} {a : Action T} (h : Inv s) (hmove : Moves s a t) : Inv t := by
  obtain ⟨hsb, hsg, hbg, hemp, hexc, hidle, hres⟩ := h
  cases hmove with
  | refuse hpc full => exact ⟨hsb, hsg, hbg, hemp, hexc, hidle, hres⟩
  | accept hpc free => exact ⟨hsb, hsg, hbg, fun _ _ => free, by simp, hidle, hres⟩
  -- the producer writes its own slot, and the others are untouched
  | emplace hpc =>
      refine ⟨hsb, hsg, hbg, by simp, ?_, fun hget => ?_, fun v hget => ?_⟩
      · intro v hv
        cases hv
        exact Function.update_self ..
      · exact (Function.update_of_ne hsg.symm _ _).trans (hidle hget)
      · exact (Function.update_of_ne hsg.symm _ _).trans (hres v hget)
  -- an exchange permutes the slots, so that they stay distinct
  | put hpc => exact ⟨hsb.symm, hbg, hsg, by simp, by simp, hidle, hres⟩
  | take hpc => exact ⟨hsg, hsb, hbg.symm, hemp, hexc, by simp, by simp⟩
  | empty hpc free => exact ⟨hsb, hsg, hbg, hemp, hexc, fun _ => free, by simp⟩
  | move hpc full =>
      refine ⟨hsb, hsg, hbg, hemp, hexc, by simp, fun v hv => ?_⟩
      cases hv
      exact full
  | reset hpc =>
      refine ⟨hsb, hsg, hbg, fun v hv => ?_, fun v hv => ?_, fun _ => ?_, by simp⟩
      · exact (Function.update_of_ne hsg _ _).trans (hemp v hv)
      · exact (Function.update_of_ne hsg _ _).trans (hexc v hv)
      · exact Function.update_self ..

/-- The invariant holds in every reachable state, by the invariant rule. -/
theorem inv_of_reachable {s : Threads T} (reach : (lockFree T).Reachable s) : Inv s :=
  (lockFree T).reachable_invariant inv_init
    (fun _ _ _ h hstep => h.moves (moves_of_step hstep)) reach

/-! ## The exchange is a newest-value cell -/

/-- The outcome that a `get` in progress will return: what its slot holds after the exchange, or the
value it has moved out. -/
def due (s : Threads T) : Option (Option T) :=
  match s.getPc with
  | .idle => none
  | .testing => some (s.exchange.storage s.exchange.getBuffer)
  | .resetting value => some (some value)

/-- The cell an exchange implements: its content is the middle slot, and a `get` behind its exchange
is a take that is not answered yet. -/
def toCell (s : Threads T) : NewestCell T :=
  ⟨s.exchange.storage s.exchange.buffer, due s, s.log⟩

/-- Every move of the exchange is a step of the cell, or leaves the cell as it is; the exchanges are
where a put and a take happen. -/
theorem toCell_moves {s t : Threads T} {a : Action T} (h : Inv s) (hmove : Moves s a t) :
    ∃ as, newestCell.run (toCell s) as = some (toCell t) := by
  cases hmove with
  | @refuse v hpc full => exact ⟨[.refuse v], rfl⟩
  | accept hpc free => exact ⟨[], rfl⟩
  -- writing to the producer's own slot is invisible: the three slots are distinct
  | @emplace v hpc =>
      refine ⟨[], ?_⟩
      have hcontent : (s.exchange.emplace v).storage (s.exchange.emplace v).buffer
          = s.exchange.storage s.exchange.buffer :=
        Function.update_of_ne h.set_ne_buffer.symm _ _
      have hget : (s.exchange.emplace v).storage (s.exchange.emplace v).getBuffer
          = s.exchange.storage s.exchange.getBuffer :=
        Function.update_of_ne h.set_ne_get.symm _ _
      simp only [System.run_nil, toCell, due, hcontent, hget]
  -- the atomic exchange is the moment of the put
  | @put v hpc =>
      refine ⟨[.put v], ?_⟩
      simp only [System.run_cons, newestCell, Option.bind_some, System.run_nil, toCell, due,
        swapSet, h.exchanging v hpc]
  -- the atomic exchange is the moment of the take
  | take hpc =>
      refine ⟨[.take], ?_⟩
      simp only [System.run_cons, newestCell, Option.bind_some, System.run_nil, toCell, due, hpc,
        swapGet, h.idle hpc]
  | empty hpc free =>
      refine ⟨[.answer], ?_⟩
      simp only [System.run_cons, newestCell, Option.bind_some, System.run_nil, toCell, due, hpc,
        free]
  | move hpc full =>
      refine ⟨[], ?_⟩
      simp only [System.run_nil, toCell, due, hpc, full]
  -- the take is answered when the call returns
  | @reset v hpc =>
      refine ⟨[.answer], ?_⟩
      have hcontent : s.exchange.resetGet.storage s.exchange.resetGet.buffer
          = s.exchange.storage s.exchange.buffer :=
        Function.update_of_ne h.buffer_ne_get _ _
      simp only [System.run_cons, newestCell, Option.bind_some, System.run_nil, toCell, due, hpc,
        hcontent]

/-- **Refinement.** Every reachable state of the exchange maps to a reachable state of the cell, so
that what holds of the cell holds of the exchange. -/
theorem lockFree_cell {s : Threads T} (reach : (lockFree T).Reachable s) :
    newestCell.Reachable (toCell s) := by
  obtain ⟨as, hrun⟩ := reach
  have hinit : toCell (lockFree T).init = newestCell.init := rfl
  obtain ⟨bs, hbs⟩ := (lockFree T).run_map newestCell toCell
    (fun _ _ _ h _ hstep => Inv.moves h (moves_of_step hstep))
    (fun _ _ _ h _ hstep => toCell_moves h (moves_of_step hstep)) inv_init
    ((lockFree T).along_true _ as) hrun
  exact ⟨bs, hinit ▸ hbs⟩

/-- **A take-once, newest-value cell.** In every reachable state of one producer and one consumer
the three pointers designate three different slots; every answer of `get` is the value of the
latest `set` that performed its exchange since the exchange of the `get` before, and is
empty-handed when there was none; the values delivered are values set, in the order they were set
and each at most once; and a `set` that returns false leaves the exchange and both threads as they
were. -/
theorem newest_value_cell {s : Threads T} (reach : (lockFree T).Reachable s) :
    (s.exchange.setBuffer ≠ s.exchange.buffer ∧ s.exchange.setBuffer ≠ s.exchange.getBuffer ∧
      s.exchange.buffer ≠ s.exchange.getBuffer) ∧
    TakesNewest s.log ∧
    (CellEvent.answers s.log).Sublist (CellEvent.puts s.log) ∧
    ∀ value t, step s (.set value) = some t → t.log = s.log ++ [.refuse value] →
      t.exchange = s.exchange ∧ t.setPc = s.setPc ∧ t.getPc = s.getPc := by
  have hinv := inv_of_reachable reach
  have hcell := lockFree_cell reach
  refine ⟨⟨hinv.set_ne_buffer, hinv.set_ne_get, hinv.buffer_ne_get⟩,
    newestCell_takesNewest hcell, newestCell_answers_sublist hcell, ?_⟩
  intro value t hstep hlog
  cases moves_of_step hstep with
  | refuse hpc full => exact ⟨rfl, rfl, rfl⟩
  | accept hpc free => simp at hlog

/-- A run in which two values are set, the second one after the first was taken, and both are
taken. -/
def twoRounds : List (Action Nat) :=
  [.set 7, .producer, .producer, .get, .consumer, .consumer,
    .set 8, .producer, .producer, .get, .consumer, .consumer]

/-- Both values of `twoRounds` come out, in order, and the log of the run says so. -/
theorem newest_value_cell_two :
    ∃ s, (lockFree Nat).run (lockFree Nat).init twoRounds = some s ∧
      s.log = [.put 7, .take, .answer (some 7), .put 8, .take, .answer (some 8)] ∧
      TakesNewest s.log := by
  obtain ⟨s, hrun⟩ : ∃ s, (lockFree Nat).run (lockFree Nat).init twoRounds = some s := ⟨_, rfl⟩
  have hlog : ((lockFree Nat).run (lockFree Nat).init twoRounds).map Threads.log
      = some [.put 7, .take, .answer (some 7), .put 8, .take, .answer (some 8)] := rfl
  rw [hrun] at hlog
  exact ⟨s, hrun, Option.some.inj hlog, (newest_value_cell ⟨twoRounds, hrun⟩).2.1⟩

end ValueExchange

end IecCore
