import IecCore.Utils.ValueExchangeBlocking
import Mathlib.Data.List.Nodup

/-! # What `reset` does to the data

`reset` writes `isFilled = true` with no value behind it and without the mutex. A `get` whose test
or wait predicate runs before the flag is cleared again is let in with nothing to take: its body
then assigns what the storage still holds, the constructed value or a value taken before. This file
shows that this is the only way a `get` returns something that was not stored for it. The condition
speaks of who wrote the flag, and not of what is in the storage:

* **`Genuine`** — every value taken was stored by a `set`, and each stored value is taken at most
  once.
* **`NotLured`** — the step is no move of a `get` that passed its test or its predicate on the `true`
  that `reset` wrote (`State.forged`), unless a `set` has moved since.
* **`Flag`** — what the flag, its writer and the program points say about the storage: a flag that
  `reset` did not raise stands for a value that is stored and not taken, and one that it did raise
  stands for none.
* **`genuine_iff`** — after a run, `Genuine` holds exactly when every step was `NotLured`.
* **`genuine_of_sheltered`** — it holds in particular when no `get` passes its test or its predicate
  between the first and the third statement of `reset`. -/

namespace IecCore

universe u

namespace ValueExchangeBlocking

variable {T : Type u}

/-- `Genuine s`: every value taken by `get` is the value of a `set` that stored it, and each stored
value is taken at most once. -/
def Genuine (s : State T) : Prop :=
  (∀ p ∈ s.taken, ∃ i, p.1 = some i ∧ s.stored[i]? = some p.2) ∧ (s.taken.map Prod.fst).Nodup

/-- `NotLured s a`: the step is no move of a `get` that passed its test or its predicate on the `true`
of `reset`, unless a `set` has moved since. -/
def NotLured (s : State T) (a : Action T) : Prop :=
  a = .advance .consumer → s.pc .consumer = .move → s.lured = false

/-- The program points between a passed test and the move: the thread is going to store or take, and
does not look at the flag again. -/
def Pc.admitted : Pc → Bool
  | .waitUnlock | .bodyLock | .move => true
  | .idle | .test | .waitLock | .predicate | .block | .asleep | .woken | .flag | .notify
  | .unlock => false

/-! ## The invariant -/

/-- The storage and the values taken are what the history says: `storage` holds the value number
`origin` of `stored`, and every value in `taken` is the one of its number. -/
structure Ledger (s : State T) : Prop where
  storage_eq : ∀ i, s.origin = some i → s.stored[i]? = some s.storage
  taken_eq : ∀ p ∈ s.taken, ∀ i, p.1 = some i → s.stored[i]? = some p.2

/-- A thread owns the mutex exactly at the program points that hold it, also while `reset` runs: it
does not touch `accessor`. -/
def Mutex (s : State T) : Prop := ∀ side, s.accessor = some side ↔ (s.pc side).holds

/-- **What the flag says about the storage.** `fresh` is that the storage holds a value that was
stored and not taken; `producer` and `consumer` are the program points of the two threads. -/
structure Flag (isFilled forged lured : Bool) (resetPc : ResetPc) (producer consumer : Pc)
    (fresh : Prop) : Prop where
  /-- A flag that `reset` did not raise is up for a value to take, until the `get` that takes it has
  moved. -/
  fresh_of_full : forged = false → isFilled = true → consumer ≠ .flag → fresh
  /-- A `set` that has moved has stored a value to take. -/
  fresh_of_flag : producer = .flag → fresh
  /-- A `get` that has moved has taken the value. -/
  not_fresh_of_flag : consumer = .flag → ¬fresh
  /-- A flag that `reset` raised is up for nothing. -/
  not_fresh_of_forged : forged = true → ¬fresh
  /-- `reset` raises the flag between its first and its third statement. -/
  reset_of_forged : forged = true → resetPc = .notifyReader ∨ resetPc = .clear
  /-- Before `reset` writes the flag, every value to take has the flag up or a `set` on its way to
  raise it. -/
  full_of_fresh : resetPc = .fill → fresh → isFilled = true ∨ producer = .flag
  /-- A `get` that was let in was lured exactly when there is nothing to take. -/
  lured_iff : consumer.admitted → (lured = false ↔ fresh)

/-- `Flag` of the components of a state: the flag, its writer, the two threads that go by it, and
whether the storage is `Fresh`. -/
def State.FlagOf (s : State T) : Prop :=
  Flag s.isFilled s.forged s.lured s.resetPc (s.pc .producer) (s.pc .consumer) s.Fresh

/-- The **invariant** of every run, those with `reset` included: the values, the owner of the mutex,
and what the flag stands for. -/
structure Inv (s : State T) : Prop where
  ledger : Ledger s
  mutex : Mutex s
  flag : s.FlagOf

/-- A constructed exchange has stored and taken nothing, nobody owns its mutex, and its flag is
false. -/
theorem inv_initial (constructed : T) : Inv (initial constructed) where
  ledger := by constructor <;> simp [initial]
  mutex side := by simp [initial, Pc.holds]
  flag := by constructor <;> simp [initial, Pc.admitted, State.Fresh]

/-! ## The mutex -/

/-- Going on to a point that holds the mutex precisely when the point before did keeps `Mutex`. -/
theorem Mutex.goto {s : State T} (h : Mutex s) (side : Side) {pc : Pc}
    (hholds : pc.holds = (s.pc side).holds) : Mutex (s.goto side pc) := by
  intro x
  obtain rfl | rfl := side.eq_or_eq_other x
  · rw [State.goto_pc_self, hholds]
    exact h x
  · rw [State.goto_pc_other]
    exact h side.other

/-- The mutex is taken when it is free, by a thread that goes to a point that holds it. -/
theorem Mutex.acquire {s : State T} (h : Mutex s) (side : Side) {pc : Pc} (hholds : pc.holds)
    (free : s.accessor = none) : Mutex { s.goto side pc with accessor := some side } := by
  intro x
  show some side = some x ↔ ((s.goto side pc).pc x).holds
  obtain rfl | rfl := side.eq_or_eq_other x
  · simpa using hholds
  · have hother := h side.other
    rw [free] at hother
    rw [State.goto_pc_other, ← hother]
    simp

/-- The mutex is released by the thread that has it, on its way to a point that does not hold it. -/
theorem Mutex.release {s : State T} (h : Mutex s) (side : Side) {pc : Pc}
    (hheld : (s.pc side).holds) (hholds : pc.holds = false) :
    Mutex { s.goto side pc with accessor := none } := by
  have howner := (h side).mpr hheld
  intro x
  show none = some x ↔ ((s.goto side pc).pc x).holds
  obtain rfl | rfl := side.eq_or_eq_other x
  · simp [hholds]
  · have hother := h side.other
    rw [howner] at hother
    rw [State.goto_pc_other, ← hother]
    simp

/-- Two threads are never both at points that hold the mutex, since it has one owner at most. -/
theorem Mutex.exclusive {s : State T} (h : Mutex s) {side : Side} (hholds : (s.pc side).holds) :
    (s.pc side.other).holds = false := by
  by_contra hother
  have howner := (h side.other).mpr (by simpa using hother)
  rw [(h side).mpr hholds] at howner
  exact side.ne_other (Option.some.inj howner)

/-- A notification takes no thread to a point that holds the mutex: the one that wakes has to take
it again. -/
theorem Mutex.notifyOne {s : State T} (h : Mutex s) (first : Side) : Mutex (s.notifyOne first) := by
  unfold State.notifyOne
  split_ifs with hfirst hother
  · exact h.goto first (by rw [hfirst]; rfl)
  · exact h.goto first.other (by rw [hother]; rfl)
  · exact h

/-- A notification changes no thread that is at a point which holds the mutex, because that one does
not sleep. -/
theorem State.notifyOne_holds (s : State T) (first side : Side) :
    ((s.notifyOne first).pc side).holds = (s.pc side).holds := by
  unfold State.notifyOne
  obtain rfl | rfl := first.eq_or_eq_other side <;> split_ifs with hfirst hother <;>
    simp_all [Pc.holds]

/-- A step of a call keeps the owner of the mutex right, one case for each branch of the call. -/
theorem Mutex.callMoves {s t : State T} {side : Side} (h : Mutex s) (hmove : CallMoves side s t) :
    Mutex t := by
  cases hmove with
  | testEnter hpc => exact @Mutex.goto _ (s.enter side) h side .bodyLock (by simp [hpc, Pc.holds])
  | testWait hpc => exact h.goto side (by rw [hpc]; rfl)
  | lock hpc hlock free => cases hlock <;> exact h.acquire side rfl free
  | predicateEnter hpc =>
      exact @Mutex.goto _ (s.enter side) h side .waitUnlock (by simp [hpc, Pc.holds])
  | predicateBlock hpc => exact h.goto side (by rw [hpc]; rfl)
  | block hpc | waitUnlock hpc => exact h.release side (by rw [hpc]; rfl) rfl
  -- the move happens under the lock and does not release it
  | move hpc =>
      have htransfer : Mutex (s.transfer side) := by
        intro x
        rw [State.transfer_accessor, State.transfer_pc]
        exact h x
      exact htransfer.goto side (by rw [State.transfer_pc, hpc]; rfl)
  | flag hpc =>
      have hgoto : Mutex (s.goto side .notify) := h.goto side (by rw [hpc]; rfl)
      exact hgoto
  | notify hpc =>
      refine (h.notifyOne side.other).goto side ?_
      rw [State.notifyOne_holds, hpc]
      rfl
  | unlock hpc =>
      have hrelease : Mutex { s.goto side .idle with accessor := none } :=
        h.release side (by rw [hpc]; rfl) rfl
      cases side <;> exact hrelease

/-- **Every step** keeps the owner of the mutex right, also those of `reset`, which does not take
it. -/
theorem Mutex.step {s t : State T} {a : Action T} (h : Mutex s)
    (hstep : ValueExchangeBlocking.step s a = some t) : Mutex t := by
  cases a with
  | set value =>
      simp only [ValueExchangeBlocking.step, Option.ite_none_right_eq_some] at hstep
      obtain ⟨hidle, hstep⟩ := hstep
      cases hstep
      have hgoto : Mutex (s.goto .producer .test) := h.goto .producer (by rw [hidle]; rfl)
      exact hgoto
  | get =>
      simp only [ValueExchangeBlocking.step, Option.ite_none_right_eq_some] at hstep
      obtain ⟨hidle, hstep⟩ := hstep
      cases hstep
      exact h.goto .consumer (by rw [hidle]; rfl)
  | advance side => exact h.callMoves (callMoves_of_callStep hstep)
  | reset first =>
      have hnotified := h.notifyOne first
      cases hpc : s.resetPc with
      | fill | clear =>
          simp only [ValueExchangeBlocking.step, resetStep, hpc] at hstep
          cases hstep
          exact h
      | notifyReader | notifyWriter =>
          simp only [ValueExchangeBlocking.step, resetStep, hpc] at hstep
          cases hstep
          exact hnotified
      | done => simp [ValueExchangeBlocking.step, resetStep, hpc] at hstep
  | spurious side =>
      simp only [ValueExchangeBlocking.step, Option.ite_none_right_eq_some] at hstep
      obtain ⟨hasleep, hstep⟩ := hstep
      cases hstep
      exact h.goto side (by rw [hasleep]; rfl)

/-! ## The history -/

/-- `SameHistory s t`: nothing was stored or taken on the way from `s` to `t`, and the storage has
the same value. -/
structure SameHistory (s t : State T) : Prop where
  origin : t.origin = s.origin
  stored : t.stored = s.stored
  storage : t.storage = s.storage
  taken : t.taken = s.taken

/-- A notification leaves the history alone: it moves a thread, and no value. -/
theorem sameHistory_notifyOne (s : State T) (first : Side) : SameHistory s (s.notifyOne first) := by
  unfold State.notifyOne
  split_ifs <;> exact ⟨rfl, rfl, rfl, rfl⟩

/-- A statement of `reset` leaves the history alone: it writes the flag, and nothing else that the
threads share. -/
theorem sameHistory_resetStep {s t : State T} {first : Side} (hstep : resetStep first s = some t) :
    SameHistory s t := by
  obtain ⟨horigin, hstored, hstorage, htaken⟩ := sameHistory_notifyOne s first
  cases hpc : s.resetPc with
  | fill => simp only [resetStep, hpc] at hstep; cases hstep; exact ⟨rfl, rfl, rfl, rfl⟩
  | notifyReader =>
      simp only [resetStep, hpc] at hstep
      cases hstep
      exact ⟨horigin, hstored, hstorage, htaken⟩
  | clear => simp only [resetStep, hpc] at hstep; cases hstep; exact ⟨rfl, rfl, rfl, rfl⟩
  | notifyWriter =>
      simp only [resetStep, hpc] at hstep
      cases hstep
      exact ⟨horigin, hstored, hstorage, htaken⟩
  | done => simp [resetStep, hpc] at hstep

/-- **What a step does to the data**: it is the move of a call, whose effect is `transfer`, or it
leaves the history alone. -/
theorem sameHistory_or_move {s t : State T} {a : Action T} (hstep : step s a = some t) :
    (SameHistory s t ∧ ∀ side, a = .advance side → s.pc side ≠ .move) ∨
      ∃ side, a = .advance side ∧ s.pc side = .move ∧ t = (s.transfer side).goto side .flag := by
  cases a with
  | set value =>
      simp only [step, Option.ite_none_right_eq_some] at hstep
      cases hstep.2
      exact .inl ⟨⟨rfl, rfl, rfl, rfl⟩, by simp⟩
  | get =>
      simp only [step, Option.ite_none_right_eq_some] at hstep
      cases hstep.2
      exact .inl ⟨⟨rfl, rfl, rfl, rfl⟩, by simp⟩
  | reset first => exact .inl ⟨sameHistory_resetStep hstep, by simp⟩
  | spurious side =>
      simp only [step, Option.ite_none_right_eq_some] at hstep
      cases hstep.2
      exact .inl ⟨⟨rfl, rfl, rfl, rfl⟩, by simp⟩
  | advance side =>
      -- every other point of a call leaves the history alone
      have hother (hsame : SameHistory s t) (hne : s.pc side ≠ .move) :
          SameHistory s t ∧ ∀ x, Action.advance (T := T) side = .advance x → s.pc x ≠ .move :=
        ⟨hsame, fun x hx => by cases hx; exact hne⟩
      cases callMoves_of_callStep hstep with
      | move hpc => exact .inr ⟨side, rfl, hpc, rfl⟩
      | lock hpc hlock free =>
          refine .inl (hother ⟨rfl, rfl, rfl, rfl⟩ ?_)
          cases hlock <;> simp [hpc]
      | notify hpc =>
          obtain ⟨horigin, hstored, hstorage, htaken⟩ := sameHistory_notifyOne s side.other
          exact .inl (hother ⟨horigin, hstored, hstorage, htaken⟩ (by simp [hpc]))
      | unlock hpc =>
          refine .inl (hother ?_ (by simp [hpc]))
          cases side <;> exact ⟨rfl, rfl, rfl, rfl⟩
      | testEnter hpc | testWait hpc | predicateEnter hpc | predicateBlock hpc | block hpc
      | waitUnlock hpc | flag hpc =>
          exact .inl (hother ⟨rfl, rfl, rfl, rfl⟩ (by simp [hpc]))

/-- Values stored stay at their place when another one is stored: the place of a value in `stored`
is its name. -/
theorem stored_append {l : List T} {i : Nat} {value : T} (h : l[i]? = some value) (last : T) :
    (l ++ [last])[i]? = some value := by
  rw [List.getElem?_append_left (List.getElem?_eq_some_iff.mp h).1]
  exact h

/-- The move of the body keeps the ledger: a `set` stores at a new place, and a `get` takes what the
last `set` has stored. -/
theorem Ledger.transfer {s : State T} (h : Ledger s) (side : Side) :
    Ledger ((s.transfer side).goto side .flag) := by
  obtain ⟨hstorage, htaken⟩ := h
  cases side with
  | producer =>
      refine ⟨fun i hi => ?_, fun p hp i hi => stored_append (htaken p hp i hi) _⟩
      cases hi
      simp [State.goto, State.transfer]
  | consumer =>
      refine ⟨hstorage, fun p hp i hi => ?_⟩
      rcases List.mem_append.mp hp with hold | hnew
      · exact htaken p hold i hi
      · cases List.mem_singleton.mp hnew
        exact hstorage i hi

/-- **Every step** keeps the ledger, since only a move changes it. -/
theorem Ledger.step {s t : State T} {a : Action T} (h : Ledger s)
    (hstep : ValueExchangeBlocking.step s a = some t) : Ledger t := by
  obtain ⟨⟨horigin, hstored, hstorage, htaken⟩, -⟩ | ⟨side, -, -, rfl⟩ := sameHistory_or_move hstep
  · refine ⟨?_, ?_⟩
    · rw [horigin, hstored, hstorage]
      exact h.storage_eq
    · rw [htaken, hstored]
      exact h.taken_eq
  · exact h.transfer side

/-- The place just stored to is later than every place taken from, so that what a `set` has stored
is `Fresh`. -/
theorem Ledger.fresh_transfer {s : State T} (h : Ledger s) (pc : Pc) :
    ((s.transfer .producer).goto .producer pc).Fresh := by
  refine ⟨rfl, fun hmem => ?_⟩
  obtain ⟨p, hp, hfst⟩ := List.mem_map.mp hmem
  have hlt := (List.getElem?_eq_some_iff.mp (h.taken_eq p hp _ hfst)).1
  exact absurd hlt (Nat.lt_irrefl _)

/-- What was just taken is not there to be taken again: the storage is not `Fresh` behind the move
of a `get`. -/
theorem not_fresh_transfer (s : State T) (pc : Pc) :
    ¬((s.transfer .consumer).goto .consumer pc).Fresh := by
  rintro ⟨-, hnew⟩
  refine hnew (List.mem_map.mpr ⟨(s.origin, s.storage), ?_, rfl⟩)
  exact List.mem_append_right _ (List.mem_singleton.mpr rfl)

/-! ## The flag -/

/-- A thread goes on at a point that has to do with the flag no more than the one before: it is not
at `flag`, and it is not `admitted` for the first time. -/
theorem State.FlagOf.goto {s : State T} (h : s.FlagOf) (side : Side) {pc : Pc}
    (hbefore : s.pc side ≠ .flag) (hafter : pc ≠ .flag)
    (hadmitted : pc.admitted → (s.pc side).admitted) : (s.goto side pc).FlagOf := by
  obtain ⟨hfull, hset, hget, hforged, hreset, hfill, hlured⟩ := h
  show Flag s.isFilled s.forged s.lured s.resetPc ((s.goto side pc).pc .producer)
    ((s.goto side pc).pc .consumer) s.Fresh
  cases side with
  | producer =>
      rw [State.goto_pc_self, State.goto_producer_pc_consumer]
      refine ⟨hfull, fun h => absurd h hafter, hget, hforged, hreset, ?_, hlured⟩
      exact fun hpc hfresh => .inl ((hfill hpc hfresh).resolve_right hbefore)
  | consumer =>
      rw [State.goto_pc_self, State.goto_consumer_pc_producer]
      exact ⟨fun hraised hfilled _ => hfull hraised hfilled hbefore, hset,
        fun h => absurd h hafter, hforged, hreset, hfill, fun h => hlured (hadmitted h)⟩

/-- A call passes its test or its predicate. A `get` notes in `lured` who has raised the flag that
lets it in. -/
theorem State.FlagOf.enter {s : State T} (h : s.FlagOf) {side : Side} {pc : Pc}
    (hbefore : s.pc side ≠ .flag) (hafter : pc ≠ .flag) (hfilled : s.isFilled = awaits side) :
    ((s.enter side).goto side pc).FlagOf := by
  obtain ⟨hfull, hset, hget, hforged, hreset, hfill, hlured⟩ := h
  cases side with
  | producer =>
      show Flag s.isFilled s.forged s.lured s.resetPc ((s.goto .producer pc).pc .producer)
        ((s.goto .producer pc).pc .consumer) s.Fresh
      rw [State.goto_pc_self, State.goto_producer_pc_consumer]
      refine ⟨hfull, fun h => absurd h hafter, hget, hforged, hreset, ?_, hlured⟩
      exact fun hpc hfresh => .inl ((hfill hpc hfresh).resolve_right hbefore)
  | consumer =>
      show Flag s.isFilled s.forged s.forged s.resetPc ((s.goto .consumer pc).pc .producer)
        ((s.goto .consumer pc).pc .consumer) s.Fresh
      rw [State.goto_pc_self, State.goto_consumer_pc_producer]
      refine ⟨fun hraised hfilled _ => hfull hraised hfilled hbefore, hset,
        fun h => absurd h hafter, hforged, hreset, hfill, fun _ => ?_⟩
      -- the flag that lets the `get` in was raised by `reset`, or it stands for a value
      constructor
      · exact fun hraised => hfull hraised hfilled hbefore
      · intro hfresh
        by_contra hraised
        exact hforged (by simpa using hraised) hfresh

/-- A notification wakes a thread, which then has nothing to do with the flag until it looks at it
again. -/
theorem State.FlagOf.notifyOne {s : State T} (h : s.FlagOf) (first : Side) :
    (s.notifyOne first).FlagOf := by
  unfold State.notifyOne
  split_ifs with hfirst hother
  · exact h.goto first (by simp [hfirst]) (by decide) (by simp [Pc.admitted])
  · exact h.goto first.other (by simp [hother]) (by decide) (by simp [Pc.admitted])
  · exact h

/-- A notification takes no thread to the write of the flag, nor away from it. -/
theorem State.notifyOne_pc_eq_flag (s : State T) (first side : Side) :
    (s.notifyOne first).pc side = .flag ↔ s.pc side = .flag := by
  unfold State.notifyOne
  obtain rfl | rfl := first.eq_or_eq_other side <;> split_ifs <;> simp_all

/-- **The move** of a call: behind that of a `set` the storage is fresh, and behind that of a `get` it
is not, whoever has written the flag. -/
theorem Inv.flag_move {s : State T} {side : Side} (h : Inv s) (hpc : s.pc side = .move) :
    ((s.transfer side).goto side .flag).FlagOf := by
  -- the other thread is outside the lock, so that it is not about to write the flag
  have hexclusive := h.mutex.exclusive (show (s.pc side).holds by simp [hpc, Pc.holds])
  obtain ⟨hfull, hset, hget, hforged, hreset, hfill, hlured⟩ := h.flag
  cases side with
  | producer =>
      have hfresh := h.ledger.fresh_transfer .flag
      have hconsumer : s.pc .consumer ≠ .flag := by
        intro hpc'
        simp [Side.other, hpc', Pc.holds] at hexclusive
      show Flag s.isFilled false false s.resetPc ((s.goto .producer .flag).pc .producer)
        ((s.goto .producer .flag).pc .consumer) _
      rw [State.goto_pc_self, State.goto_producer_pc_consumer]
      exact ⟨fun _ _ _ => hfresh, fun _ => hfresh, fun h => absurd h hconsumer,
        fun h => absurd h (by decide), fun h => absurd h (by decide), fun _ _ => .inr rfl,
        fun _ => by simpa using hfresh⟩
  | consumer =>
      have hfresh := not_fresh_transfer s .flag
      have hproducer : s.pc .producer ≠ .flag := by
        intro hpc'
        simp [Side.other, hpc', Pc.holds] at hexclusive
      show Flag s.isFilled s.forged s.lured s.resetPc ((s.goto .consumer .flag).pc .producer)
        ((s.goto .consumer .flag).pc .consumer) _
      rw [State.goto_pc_self, State.goto_consumer_pc_producer]
      exact ⟨fun _ _ h => absurd rfl h, fun h => absurd h hproducer, fun _ => hfresh,
        fun _ => hfresh, hreset, fun _ h => absurd h hfresh, fun h => by simp [Pc.admitted] at h⟩

/-- **The write of the flag** behind the move: a `set` raises it for the value that it has stored, and a
`get` lowers it when it has taken one. -/
theorem State.FlagOf.write {s : State T} (h : s.FlagOf) {side : Side} (hpc : s.pc side = .flag) :
    ({ s.goto side .notify with isFilled := leaves side, forged := false } : State T).FlagOf := by
  obtain ⟨hfull, hset, hget, hforged, hreset, hfill, hlured⟩ := h
  cases side with
  | producer =>
      -- the flag is raised for the value that the move has stored
      have hfresh := hset hpc
      show Flag true false s.lured s.resetPc ((s.goto .producer .notify).pc .producer)
        ((s.goto .producer .notify).pc .consumer) s.Fresh
      rw [State.goto_pc_self, State.goto_producer_pc_consumer]
      exact ⟨fun _ _ _ => hfresh, fun _ => hfresh, hget, fun h => absurd h (by decide),
        fun h => absurd h (by decide), fun _ _ => .inl rfl, hlured⟩
  | consumer =>
      -- the flag is lowered after the value was taken
      have hfresh := hget hpc
      show Flag false false s.lured s.resetPc ((s.goto .consumer .notify).pc .producer)
        ((s.goto .consumer .notify).pc .consumer) s.Fresh
      rw [State.goto_pc_self, State.goto_consumer_pc_producer]
      exact ⟨fun _ h => absurd h (by decide), hset, fun _ => hfresh, fun _ => hfresh,
        fun h => absurd h (by decide), fun _ h => absurd h hfresh,
        fun h => by simp [Pc.admitted] at h⟩

/-- **A step of a call** keeps the invariant of the flag. The move and the write of the flag are the
cases that matter (`Inv.flag_move`, `State.FlagOf.write`). -/
theorem Inv.flag_callMoves {s t : State T} {side : Side} (h : Inv s) (hmove : CallMoves side s t) :
    t.FlagOf := by
  cases hmove with
  -- storage and flag are written by two of the steps, the others only move a point
  | testEnter hpc hflag => exact h.flag.enter (by simp [hpc]) (by decide) hflag
  | testWait hpc hflag =>
      exact h.flag.goto side (by simp [hpc]) (by decide) (by simp [Pc.admitted])
  | @lock p q hpc hlock free =>
      have hgoto : (s.goto side q).FlagOf := by
        refine h.flag.goto side ?_ ?_ ?_
        all_goals cases hlock <;> simp [hpc, Pc.admitted]
      exact hgoto
  | predicateEnter hpc hflag => exact h.flag.enter (by simp [hpc]) (by decide) hflag
  | predicateBlock hpc hflag =>
      exact h.flag.goto side (by simp [hpc]) (by decide) (by simp [Pc.admitted])
  | block hpc =>
      have hgoto : (s.goto side .asleep).FlagOf :=
        h.flag.goto side (by simp [hpc]) (by decide) (by simp [Pc.admitted])
      exact hgoto
  | waitUnlock hpc =>
      have hgoto : (s.goto side .bodyLock).FlagOf :=
        h.flag.goto side (by simp [hpc]) (by decide) (by simp [hpc, Pc.admitted])
      exact hgoto
  | notify hpc =>
      refine (h.flag.notifyOne side.other).goto side ?_ (by decide) (by simp [Pc.admitted])
      rw [ne_eq, State.notifyOne_pc_eq_flag, hpc]
      decide
  | unlock hpc =>
      have hgoto : (s.goto side .idle).FlagOf :=
        h.flag.goto side (by simp [hpc]) (by decide) (by simp [Pc.admitted])
      cases side <;> exact hgoto
  | move hpc => exact h.flag_move hpc
  | flag hpc => exact h.flag.write hpc

/-- A statement of `reset` keeps the invariant of the flag: it raises the flag as its own
(`forged`), unless a value is there, and takes it down again. -/
theorem State.FlagOf.resetStep {s t : State T} {first : Side} (h : s.FlagOf)
    (hstep : ValueExchangeBlocking.resetStep first s = some t) : t.FlagOf := by
  have hnotified := h.notifyOne first
  obtain ⟨hfull, hset, hget, hforged, hreset, hfill, hlured⟩ := h
  cases hpc : s.resetPc with
  | fill =>
      simp only [ValueExchangeBlocking.resetStep, hpc] at hstep
      cases hstep
      -- a flag that was down, with no `set` about to raise it, stands for nothing
      have hempty : s.isFilled = false → s.pc .producer ≠ .flag → ¬s.Fresh := by
        intro hdown hproducer hfresh
        obtain hup | hset' := hfill hpc hfresh
        · rw [hdown] at hup
          exact absurd hup (by decide)
        · exact hproducer hset'
      have hold : s.forged = false := by
        by_contra hraised
        obtain hr | hr := hreset (by simpa using hraised) <;> simp [hpc] at hr
      refine ⟨?_, hset, hget, ?_, fun _ => .inl rfl, fun h => absurd h (by simp), hlured⟩
      · intro hraised _ hconsumer
        simp only [Bool.and_eq_false_imp, Bool.not_eq_true', decide_eq_false_iff_not,
          not_not] at hraised
        cases hdown : s.isFilled with
        | true => exact hfull hold hdown hconsumer
        | false => exact hset (hraised hdown)
      · intro hraised
        simp only [Bool.and_eq_true, Bool.not_eq_true', decide_eq_true_eq] at hraised
        exact hempty hraised.1 hraised.2
  | notifyReader =>
      simp only [ValueExchangeBlocking.resetStep, hpc] at hstep
      cases hstep
      obtain ⟨hfull, hset, hget, hforged, -, -, hlured⟩ := hnotified
      exact ⟨hfull, hset, hget, hforged, fun _ => .inr rfl, fun h => absurd h (by simp), hlured⟩
  | clear =>
      simp only [ValueExchangeBlocking.resetStep, hpc] at hstep
      cases hstep
      exact ⟨fun _ h => absurd h (by simp), hset, hget, fun h => absurd h (by simp),
        fun h => absurd h (by simp), fun h => absurd h (by simp), hlured⟩
  | notifyWriter =>
      simp only [ValueExchangeBlocking.resetStep, hpc] at hstep
      cases hstep
      obtain ⟨hfull, hset, hget, hforged, hreset, -, hlured⟩ := hnotified
      refine ⟨hfull, hset, hget, hforged, fun hraised => ?_, fun h => absurd h (by simp), hlured⟩
      obtain hr | hr := hreset hraised
      all_goals
        have hsame : (s.notifyOne first).resetPc = s.resetPc := by
          unfold State.notifyOne
          split_ifs <;> rfl
        simp [hsame, hpc] at hr
  | done => simp [ValueExchangeBlocking.resetStep, hpc] at hstep

/-- **Every step** keeps the invariant of the flag: from `Inv s`, every `t` with `step s a = some t`
has `t.FlagOf`. -/
theorem Inv.flag_step {s t : State T} {a : Action T} (h : Inv s) (hstep : step s a = some t) :
    t.FlagOf := by
  cases a with
  | set value =>
      simp only [step, Option.ite_none_right_eq_some] at hstep
      obtain ⟨hidle, hstep⟩ := hstep
      cases hstep
      have hgoto : (s.goto .producer .test).FlagOf :=
        h.flag.goto .producer (by simp [hidle]) (by decide) (by simp [Pc.admitted])
      exact hgoto
  | get =>
      simp only [step, Option.ite_none_right_eq_some] at hstep
      obtain ⟨hidle, hstep⟩ := hstep
      cases hstep
      exact h.flag.goto .consumer (by simp [hidle]) (by decide) (by simp [Pc.admitted])
  | advance side => exact h.flag_callMoves (callMoves_of_callStep hstep)
  -- the statements of `reset` are the only ones outside the lock
  | reset first => exact h.flag.resetStep hstep
  | spurious side =>
      simp only [step, Option.ite_none_right_eq_some] at hstep
      obtain ⟨hasleep, hstep⟩ := hstep
      cases hstep
      exact h.flag.goto side (by simp [hasleep]) (by decide) (by simp [Pc.admitted])

/-- **Every step** keeps the invariant, each of its parts by a lemma of its own. -/
theorem Inv.step {s t : State T} {a : Action T} (h : Inv s)
    (hstep : ValueExchangeBlocking.step s a = some t) : Inv t where
  ledger := h.ledger.step hstep
  mutex := h.mutex.step hstep
  flag := h.flag_step hstep

/-! ## Only a lured move takes what is not its own -/

/-- Taking keeps the data genuine exactly when there is something to take: `Genuine` behind the move
is `Genuine` before it and `Fresh`. -/
theorem genuine_take {s : State T} (h : Ledger s) :
    Genuine ((s.transfer .consumer).goto .consumer .flag) ↔ Genuine s ∧ s.Fresh := by
  have htaken : ((s.transfer .consumer).goto .consumer .flag).taken
      = s.taken ++ [(s.origin, s.storage)] := rfl
  have hstored : ((s.transfer .consumer).goto .consumer .flag).stored = s.stored := rfl
  simp only [Genuine, htaken, hstored, List.map_append, List.map_cons, List.map_nil,
    List.forall_mem_append, List.forall_mem_singleton, State.Fresh]
  constructor
  · rintro ⟨⟨hold, i, hi, -⟩, hnodup⟩
    rw [← List.concat_eq_append, List.nodup_concat] at hnodup
    exact ⟨⟨hold, hnodup.2⟩, by simp [hi], hnodup.1⟩
  · rintro ⟨⟨hold, hnodup⟩, hsome, hnew⟩
    obtain ⟨i, hi⟩ := Option.isSome_iff_exists.mp hsome
    refine ⟨⟨hold, i, hi, h.storage_eq i hi⟩, ?_⟩
    rw [← List.concat_eq_append, List.nodup_concat]
    exact ⟨hnew, hnodup⟩

/-- Storing does not change which values were taken, nor where they were stored. -/
theorem genuine_store {s : State T} (h : Ledger s) :
    Genuine ((s.transfer .producer).goto .producer .flag) ↔ Genuine s := by
  have htaken : ((s.transfer .producer).goto .producer .flag).taken = s.taken := rfl
  have hstored : ((s.transfer .producer).goto .producer .flag).stored
      = s.stored ++ [s.argument] := rfl
  simp only [Genuine, htaken, hstored]
  refine and_congr_left fun _ => forall₂_congr fun p hp => ?_
  constructor
  · rintro ⟨i, hi, -⟩
    exact ⟨i, hi, h.taken_eq p hp i hi⟩
  · rintro ⟨i, hi, hvalue⟩
    exact ⟨i, hi, stored_append hvalue _⟩

/-- **One step.** A step ends with genuine data exactly when it starts so and is no lured move: here
the invariant turns what `get` noted of the flag into what it finds in the storage. -/
theorem genuine_step {s t : State T} {a : Action T} (h : Inv s) (hstep : step s a = some t) :
    Genuine t ↔ Genuine s ∧ NotLured s a := by
  obtain ⟨⟨-, hstored, -, htaken⟩, hne⟩ | ⟨side, rfl, hpc, rfl⟩ := sameHistory_or_move hstep
  · -- nothing is stored or taken, and the step is no move
    have hnot : NotLured s a := fun ha hmove => absurd hmove (hne .consumer ha)
    simp only [Genuine, htaken, hstored, and_iff_left hnot]
  · cases side with
    | producer =>
        have hnot : NotLured s (.advance .producer) := fun ha => by cases ha
        rw [genuine_store h.ledger]
        exact (and_iff_left hnot).symm
    | consumer =>
        have hadmitted : (s.pc .consumer).admitted := by rw [hpc]; rfl
        rw [genuine_take h.ledger, ← h.flag.lured_iff hadmitted]
        exact and_congr_right fun _ => ⟨fun hl _ _ => hl, fun hnot => hnot rfl hpc⟩

/-- **When the data are genuine.** After any run of one producer, one consumer and one `reset`,
every value taken was stored by a `set` and no stored value was taken twice exactly when no `get`
that passed its test or its predicate on the `true` of `reset` came to its move before a `set`
did. -/
theorem genuine_iff (constructed : T) (as : List (Action T)) (s : State T)
    (hrun : (blocking constructed).run (blocking constructed).init as = some s) :
    Genuine s ↔ (blocking constructed).Along NotLured (blocking constructed).init as := by
  have hinit : Genuine (blocking constructed).init := by
    constructor <;> simp [blocking, initial]
  have hiff : Genuine s ↔ Genuine (blocking constructed).init ∧
      (blocking constructed).Along NotLured (blocking constructed).init as :=
    (blocking constructed).run_iff_along (fun _ _ _ hs hstep => hs.step hstep)
      (fun _ _ _ hs hstep => genuine_step hs hstep) (inv_initial constructed) hrun
  rw [hiff]
  exact and_iff_right hinit

/-- A run in which `reset` raises the flag over a `set` that has passed its test: the `set` stores
its value, and the `get` that goes on after it takes it. -/
def resetOverSet : List (Action Nat) :=
  [.set 7, .advance .producer, .reset .consumer, .get, .advance .consumer] ++
    List.replicate 5 (.advance .producer) ++ List.replicate 2 (.advance .consumer)

/-- The `get` of `resetOverSet` passes its test on the `true` of `reset`, but the `set` moves before
it does, so that no move is lured. -/
theorem genuine_iff_seven :
    ∃ as s, (blocking 0).run (blocking 0).init as = some s ∧ s.taken = [(some 0, 7)] ∧
      (blocking 0).Along NotLured (blocking 0).init as := by
  obtain ⟨s, hrun⟩ : ∃ s, (blocking 0).run (blocking 0).init resetOverSet = some s := ⟨_, rfl⟩
  have hdata : ((blocking 0).run (blocking 0).init resetOverSet).map
      (fun s => (s.taken, s.stored)) = some ([(some 0, 7)], [7]) := by decide
  rw [hrun] at hdata
  have htaken : s.taken = [(some 0, 7)] := congrArg Prod.fst (Option.some.inj hdata)
  have hstored : s.stored = [7] := congrArg Prod.snd (Option.some.inj hdata)
  have hgenuine : Genuine s := by
    constructor <;> simp [htaken, hstored]
  exact ⟨resetOverSet, s, hrun, htaken, (genuine_iff 0 resetOverSet s hrun).mp hgenuine⟩

/-- A run in which `reset` writes `isFilled = true`, and a `get` passes its test and moves before
the next statement. -/
def insideReset : List (Action Nat) :=
  [.reset .consumer, .get] ++ List.replicate 3 (.advance .consumer)

/-- It returns the constructed value, which no `set` stored: not every run ends with genuine
data. -/
theorem reset_fabricates :
    ¬ ∀ as s, (blocking 0).run (blocking 0).init as = some s → Genuine s := by
  intro hall
  obtain ⟨s, hrun⟩ : ∃ s, (blocking 0).run (blocking 0).init insideReset = some s := ⟨_, rfl⟩
  have htaken : ((blocking 0).run (blocking 0).init insideReset).map State.taken
      = some [(none, 0)] := by decide
  rw [hrun] at htaken
  have htaken' : s.taken = [(none, 0)] := Option.some.inj htaken
  obtain ⟨i, hi, -⟩ := (hall insideReset s hrun).1 (none, 0) (by simp [htaken'])
  cases hi

/-! ## Sheltered runs -/

/-- `Sheltered s a`: the step is no test and no predicate of a `get` that sees `isFilled` up while
`reset` is between its first and its third statement. -/
def Sheltered (s : State T) (a : Action T) : Prop :=
  a = .advance .consumer → s.pc .consumer = .test ∨ s.pc .consumer = .predicate →
    s.isFilled = true → s.resetPc ≠ .notifyReader ∧ s.resetPc ≠ .clear

/-- A sheltered step lures no `get`: while the flag is one that `reset` raised, no `get` passes its
test or its predicate. -/
theorem lured_of_sheltered {s t : State T} {a : Action T} (h : Inv s) (hlured : s.lured = false)
    (hsheltered : Sheltered s a) (hstep : step s a = some t) : t.lured = false := by
  have hnotify (first : Side) : (s.notifyOne first).lured = s.lured := by
    unfold State.notifyOne
    split_ifs <;> rfl
  cases a with
  | set value | get | spurious side =>
      simp only [step, Option.ite_none_right_eq_some] at hstep
      cases hstep.2
      exact hlured
  | reset first =>
      cases hpc : s.resetPc with
      | fill | clear => simp only [step, resetStep, hpc] at hstep; cases hstep; exact hlured
      | notifyReader | notifyWriter =>
          simp only [step, resetStep, hpc] at hstep
          cases hstep
          exact (hnotify first).trans hlured
      | done => simp [step, resetStep, hpc] at hstep
  | advance side =>
      have henter (hpc : s.pc side = .test ∨ s.pc side = .predicate)
          (hfilled : s.isFilled = awaits side) : (s.enter side).lured = false := by
        cases side with
        | producer => exact hlured
        | consumer =>
            -- the flag was not raised by `reset`, which is not between its statements
            obtain ⟨hreader, hclear⟩ := hsheltered rfl hpc hfilled
            show s.forged = false
            by_contra hraised
            exact (h.flag.reset_of_forged (by simpa using hraised)).elim hreader hclear
      cases callMoves_of_callStep hstep with
      | testEnter hpc hfilled => exact henter (.inl hpc) hfilled
      | predicateEnter hpc hfilled => exact henter (.inr hpc) hfilled
      | notify hpc => exact (hnotify side.other).trans hlured
      | move hpc => cases side with
        | producer => rfl
        | consumer => exact hlured
      | unlock hpc => cases side <;> exact hlured
      | testWait hpc | lock hpc | predicateBlock hpc | block hpc | waitUnlock hpc | flag hpc =>
          exact hlured

/-- **Sheltered runs are genuine.** When no `get` passes its test or its predicate between the first
and the third statement of `reset`, every value taken was stored by a `set` and no stored value was
taken twice. -/
theorem genuine_of_sheltered {constructed : T} {as : List (Action T)} {s : State T}
    (hsheltered : (blocking constructed).Along Sheltered (blocking constructed).init as)
    (hrun : (blocking constructed).run (blocking constructed).init as = some s) : Genuine s := by
  have hstart : Inv (blocking constructed).init ∧ (blocking constructed).init.lured = false ∧
      Genuine (blocking constructed).init :=
    ⟨inv_initial constructed, rfl, by constructor <;> simp [blocking, initial]⟩
  refine ((blocking constructed).run_invariant (P := fun s => Inv s ∧ s.lured = false ∧ Genuine s)
    ?_ hstart hsheltered hrun).2.2
  rintro u a v ⟨hinv, hlured, hgenuine⟩ hok hstep
  exact ⟨hinv.step hstep, lured_of_sheltered hinv hlured hok hstep,
    (genuine_step hinv hstep).mpr ⟨hgenuine, fun _ _ => hlured⟩⟩

end ValueExchangeBlocking

end IecCore
