import IecCore.Iec.Validator
import IecCore.Lib.Observation

/-! # Resetting a validator

`reset` keeps the stored sample count. The clients of a validator cannot see that: the count is not
read before the next one is stored, since the state is the initial one.

* **`Call`**, **`object`** — the calls on a validator and what they show: the exception, if there is
  one, and the two counters.
* **`Alike`** — the validators that differ in a count that is not read.
* **`call_alike`**, **`alike_bisimulation`** — every call shows the same of them, and keeps them
  alike.
* **`reset_indistinguishable`** — a validator that was reset behaves as a new one with its strategy,
  in every sequence of calls. -/

namespace IecCore

namespace Iec

namespace Validator

/-! ## A validator as its clients see it -/

/-- The calls on a validator, those that write to it: the setter of the strategy, `update` and
`reset`. -/
inductive Call
  | setStrategy (newStrategy : Strategy)
  | update (sequence : List ASDU)
  | reset

/-- What a call shows: the exception it ended with, if any, and the two counters after it. -/
structure Shown where
  /-- The text of the exception, if the call ended with one. -/
  exception : Option String
  /-- The number of lost samples. -/
  missedCount : UInt32
  /-- The number of received samples. -/
  capturedCount : UInt64
  deriving DecidableEq, Repr

/-- What is shown of a validator after an exception or none, and the validator. -/
def shown (exception : Option String) (v : Validator) : Shown × Validator :=
  (⟨exception, v.missedCount, v.capturedCount⟩, v)

/-- One call. An update that ends with an exception leaves the writes made before it. -/
def call : Call → Validator → Shown × Validator
  | .setStrategy newStrategy, v => shown none (v.setStrategy newStrategy)
  | .update sequence, v =>
      match update sequence v with
      | .ok _ w => shown none w
      | .error message w => shown (some message) w
  | .reset, v => shown none v.reset

/-- A validator, of which only the exceptions and the counters are seen. -/
def object : Object Call Validator Shown := ⟨call⟩

/-! ## The count that is not read -/

/-- The validators are equal, or both wait for the first count and differ in the stored one at
most. -/
def Alike (v w : Validator) : Prop :=
  v = w ∨ v.state = .initial ∧ w = { v with capturedSmpSync := w.capturedSmpSync }

/-- The first count of a sequence overwrites the stored one, which was not read before. -/
theorem update_of_initial {v : Validator} (hstate : v.state = .initial) (captured : UInt16)
    {sequence : List ASDU} (nonempty : sequence ≠ []) :
    update sequence { v with capturedSmpSync := captured } = update sequence v := by
  obtain ⟨asdu, rest, rfl⟩ := List.exists_cons_of_ne_nil nonempty
  have hstored : validate asdu.smpCnt { v with capturedSmpSync := captured } =
      validate asdu.smpCnt v := by
    rw [validate_initial asdu.smpCnt hstate,
      validate_initial (v := { v with capturedSmpSync := captured }) asdu.smpCnt hstate]
    rfl
  rw [update_eq nonempty, List.map_cons, List.forM_cons, bind_of_ok (validate_initial _ hstate),
    bind_of_ok (hstored.trans (validate_initial _ hstate))]

/-- An empty sequence is an exception and leaves the validator as it was. -/
theorem update_nil (v : Validator) :
    update [] v = .error "Incorrect sequence of ASDU received" v := rfl

/-- A call on validators that are alike shows the same and leaves them alike, case by case. -/
theorem call_alike (c : Call) {v w : Validator} (alike : Alike v w) :
    (call c v).1 = (call c w).1 ∧ Alike (call c v).2 (call c w).2 := by
  rcases alike with rfl | ⟨hstate, hw⟩
  · exact ⟨rfl, .inl rfl⟩
  · rw [hw]
    cases c with
    | setStrategy newStrategy => exact ⟨rfl, .inr ⟨hstate, rfl⟩⟩
    | reset => exact ⟨rfl, .inr ⟨rfl, rfl⟩⟩
    | update sequence =>
        by_cases nonempty : sequence = []
        · -- the exception of an empty sequence comes before any count is stored
          rw [nonempty, call, call, update_nil, update_nil]
          exact ⟨rfl, .inr ⟨hstate, rfl⟩⟩
        · rw [call, call, update_of_initial hstate w.capturedSmpSync nonempty]
          exact ⟨rfl, .inl rfl⟩

/-- **Validators that are alike** stay so under every call: `Alike` is a bisimulation of
`object`. -/
theorem alike_bisimulation : object.Bisimulation Alike where
  shows c _ _ alike := (call_alike c alike).1
  keeps c _ _ alike := (call_alike c alike).2

/-- A validator that was reset is alike to a new one with its strategy. -/
theorem alike_reset (v : Validator) : Alike v.reset (new.setStrategy v.strategy) :=
  .inr ⟨rfl, rfl⟩

/-- **A reset makes a used validator as a new one**, although it keeps the stored count: after any
history of calls and a reset, all further calls show what they show on a new validator with the
same strategy. -/
theorem reset_indistinguishable (history calls : List Call) :
    (object.after history new).reset.capturedSmpSync =
      (object.after history new).capturedSmpSync ∧
    object.observe calls (object.after history new).reset =
      object.observe calls (new.setStrategy (object.after history new).strategy) :=
  ⟨rfl, alike_bisimulation.observe_eq calls (alike_reset _)⟩

end Validator

end Iec

end IecCore
