import IecCore.Iec.Asdu
import IecCore.Lib.Hoare
import Mathlib.Data.List.Basic

/-! # The validator of sample counts

`iec::Validator` compares the sample count of every ASDU with the one before it. A count that does
not follow is an exception or is counted as lost samples, by the chosen strategy. The lines that it
prints on such a count, with the stored count and the received one, are left out of this model.

* **`Validator`** — the stored count, the state, the strategy and the two counters.
* **`Validator.validate`** — the check of one count. What it does in each of its cases is said by
  `validate_initial`, `validate_follows`, `validate_missed`, in terms of **`captured`**, the validator
  after a check that raised no exception.
* **`Validator.update`** — the check of a sequence of ASDUs, count by count (`update_eq`).
* **`Validator.forM_update`** — a feed cut into non-empty sequences is checked count by count, so
  that the cuts do not matter. -/

namespace IecCore

namespace Iec

/-- The states of a validator: nothing checked yet, or the outcome of the last check. -/
inductive State
  | initial
  | correct
  | incorrect
  deriving DecidableEq, Repr

/-- The strategies of a validator: to end with an exception, or to count. -/
inductive Strategy
  | throwException
  | statistics
  deriving DecidableEq, Repr

/-- A **validator** `iec::Validator`, with all of its fields: the last count, the state, the
statistics and the strategy. -/
structure Validator where
  /-- The last sample count, which the next one is compared with. -/
  capturedSmpSync : UInt16
  /-- The outcome of the last check, or `.initial` before the first one. -/
  state : State
  /-- What a sample count that does not follow leads to: an exception, or an entry of the
  statistics. -/
  strategy : Strategy
  /-- The number of lost samples, a `u32`. -/
  missedCount : UInt32
  /-- The number of received samples, a `u64`. -/
  capturedCount : UInt64
  deriving DecidableEq, Repr

namespace Validator

/-- The first value of the sample count, which is zero for both rates. -/
protected def min : UInt16 := 0

/-- The last value of the sample count for 80 points per period. -/
def max80p : UInt16 := 3999

/-- The last value of the sample count for 256 points per period. -/
def max256p : UInt16 := 12799

/-- The constructor: no count was seen yet, and the strategy is that of exceptions. -/
def new : Validator where
  capturedSmpSync := 0
  state := .initial
  strategy := .throwException
  missedCount := 0
  capturedCount := 0

/-- The setter of the strategy, which changes nothing else: the count and the state stay. -/
def setStrategy (v : Validator) (newStrategy : Strategy) : Validator :=
  { v with strategy := newStrategy }

/-- `reset` starts the counters again, and keeps the stored count and the strategy. -/
def reset (v : Validator) : Validator :=
  { v with state := .initial, missedCount := 0, capturedCount := 0 }

/-- The check of one sample count. The differences are taken in `int`, to which the source promotes
the two counts; the sum with `missedCount` is taken in `u32`. An exception leaves the writes made
before it. The two lines that the source prints on a count that does not follow are left out. -/
def validate (smpSync : UInt16) : EStateM String Validator Unit := do
  let v ← get
  if v.state = .initial then
    modify fun v => { v with state := .correct }
  else if smpSync = Validator.min ∧
      (v.capturedSmpSync = max80p ∨ v.capturedSmpSync = max256p) then
    modify fun v => { v with state := .correct }
  else if (smpSync.toNat : Int) - 1 = v.capturedSmpSync.toNat then
    modify fun v => { v with state := .correct }
  -- missed one packet or more
  else
    modify fun v => { v with state := .incorrect }
    if v.strategy = .throwException then
      throw "Packet missed"
    else if v.strategy = .statistics then
      -- negative when the counter has gone back to 0 in the gap
      let missed : Int := smpSync.toNat - (v.capturedSmpSync.toNat + 1)
      modify fun v => { v with missedCount := v.missedCount + UInt32.ofInt missed }
  if v.strategy = .statistics then
    modify fun v => { v with capturedCount := v.capturedCount + 1 }
  modify fun v => { v with capturedSmpSync := smpSync }

/-- The check of a sequence of ASDUs; an empty sequence is an exception. -/
def update (sequence : List ASDU) : EStateM String Validator Unit := do
  if !sequence.isEmpty then
    forM sequence fun asdu => validate asdu.smpCnt
  else
    throw "Incorrect sequence of ASDU received"

/-! ## What a check does -/

/-- The sample count follows the stored one: it is the next integer, or it returns to 0 from one of
the two last values. -/
def Follows (captured smpSync : UInt16) : Prop :=
  smpSync = Validator.min ∧ (captured = max80p ∨ captured = max256p) ∨
    (smpSync.toNat : Int) - 1 = captured.toNat

instance (captured smpSync : UInt16) : Decidable (Follows captured smpSync) :=
  inferInstanceAs (Decidable (_ ∨ _))

/-- The validator after a check that raised no exception: the count is stored, and counted under the
strategy of statistics. -/
def captured (v : Validator) (smpSync : UInt16) (state : State) (missed : UInt32) : Validator where
  capturedSmpSync := smpSync
  state := state
  strategy := v.strategy
  missedCount := v.missedCount + missed
  capturedCount := if v.strategy = .statistics then v.capturedCount + 1 else v.capturedCount

@[simp] theorem captured_missedCount (v : Validator) (smpSync : UInt16) (state : State)
    (missed : UInt32) :
    (v.captured smpSync state missed).missedCount = v.missedCount + missed := rfl

/-- Under the strategy of statistics every check that raised no exception is counted. -/
theorem captured_capturedCount {v : Validator} (hstrategy : v.strategy = .statistics)
    (smpSync : UInt16) (state : State) (missed : UInt32) :
    (v.captured smpSync state missed).capturedCount = v.capturedCount + 1 :=
  if_pos hstrategy

/-- The first count is accepted, whatever was stored: the stored one is not compared with it. -/
theorem validate_initial {v : Validator} (smpSync : UInt16) (hstate : v.state = .initial) :
    validate smpSync v = .ok () (v.captured smpSync .correct 0) := by
  unfold validate captured
  rw [bind_get, if_pos hstate, bind_modify, UInt32.add_zero]
  by_cases hstrategy : v.strategy = .statistics
  · rw [if_pos hstrategy, if_pos hstrategy]
    rfl
  · rw [if_neg hstrategy, if_neg hstrategy]
    rfl

/-- A count that follows the stored one is accepted, and nothing is counted as lost. -/
theorem validate_follows {v : Validator} {smpSync : UInt16} (hstate : v.state ≠ .initial)
    (follows : Follows v.capturedSmpSync smpSync) :
    validate smpSync v = .ok () (v.captured smpSync .correct 0) := by
  unfold validate captured
  rw [bind_get, if_neg hstate, UInt32.add_zero]
  -- the end of a round is asked for first, then the next count
  by_cases hmin : smpSync = Validator.min ∧
      (v.capturedSmpSync = max80p ∨ v.capturedSmpSync = max256p)
  · rw [if_pos hmin]
    by_cases hstrategy : v.strategy = .statistics
    · simp only [if_pos hstrategy]
      rfl
    · simp only [if_neg hstrategy]
      rfl
  · rw [if_neg hmin, if_pos (follows.resolve_left hmin)]
    by_cases hstrategy : v.strategy = .statistics
    · simp only [if_pos hstrategy]
      rfl
    · simp only [if_neg hstrategy]
      rfl

/-- A count that does not follow is counted under the strategy of statistics: the difference is
added to `missedCount` as an `int`, negative ones included. -/
theorem validate_missed {v : Validator} {smpSync : UInt16} (hstate : v.state ≠ .initial)
    (hstrategy : v.strategy = .statistics) (follows : ¬ Follows v.capturedSmpSync smpSync) :
    validate smpSync v = .ok () (v.captured smpSync .incorrect
      (UInt32.ofInt (smpSync.toNat - (v.capturedSmpSync.toNat + 1)))) := by
  obtain ⟨hmin, hnext⟩ := not_or.mp follows
  have hthrow : v.strategy ≠ .throwException := by rw [hstrategy]; decide
  unfold validate captured
  rw [bind_get, if_neg hstate, if_neg hmin, if_neg hnext, if_neg hthrow, if_pos hstrategy,
    if_pos hstrategy, if_pos hstrategy]
  rfl

/-! ## Feeding sequences -/

/-- A non-empty sequence is checked count by count: its length is all that `update` asks for. -/
theorem update_eq {sequence : List ASDU} (nonempty : sequence ≠ []) :
    update sequence = forM (sequence.map ASDU.smpCnt) validate := by
  unfold update
  rw [if_pos (by rw [List.isEmpty_eq_false_iff.mpr nonempty]; rfl)]
  exact (List.forM_map ..).symm

/-- **Cutting does not matter.** Non-empty sequences fed one after the other are checked count by
count. -/
theorem forM_update {parts : List (List ASDU)} (nonempty : ∀ part ∈ parts, part ≠ []) :
    forM parts update = forM (parts.flatten.map ASDU.smpCnt) validate := by
  induction parts with
  | nil => rfl
  | cons part parts ih =>
      have hpart : part ≠ [] := nonempty part List.mem_cons_self
      rw [List.flatten_cons, List.map_append, List.forM_cons, update_eq hpart,
        ih fun p hp => nonempty p (List.mem_cons_of_mem part hp)]
      exact List.forM_append.symm

end Validator

end Iec

end IecCore
