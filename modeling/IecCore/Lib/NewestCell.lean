import IecCore.Lib.Transition
import Mathlib.Data.List.Sublists

/-! # The take-once, newest-value cell

One writer puts values into a cell, one reader takes them out. A put replaces what was not taken; a
take empties the cell, and its answer, which may be delivered later, is what the cell held. The
events of a run are kept in a log, and the specification is a property of the log alone.

* **`CellEvent.pending log`** — the value of the latest put after the last take of `log`, if any.
* **`TakesNewest log`** — every answer in `log` is what was pending when its take happened.
* **`newestCell`** — the cell as a transition system that writes the log; `newestCell_takesNewest`
  and `newestCell_answers_sublist` hold in each of its reachable states. -/

namespace IecCore

universe u

variable {T : Type u}

/-- What can be observed of the cell: the puts, those that took effect and those that were refused,
the takes, and the answers to them. -/
inductive CellEvent (T : Type u)
  /-- A put took effect. -/
  | put (value : T)
  /-- A put was refused. -/
  | refuse (value : T)
  /-- A take took effect. -/
  | take
  /-- The latest take was answered, with a value or empty-handed. -/
  | answer (outcome : Option T)
  deriving DecidableEq

namespace CellEvent

/-- The value waiting in the cell after `log`: the latest one put since the last take, if any.
Refusals and answers do not change it. -/
def pending : List (CellEvent T) → Option T :=
  List.foldl (fun held event => match event with
    | put value => some value
    | take => none
    | refuse _ => held
    | answer _ => held) none

/-- The values put, in order: those of the `put` events, without the values that were refused. -/
def puts : List (CellEvent T) → List T :=
  List.filterMap fun event => match event with
    | put value => some value
    | _ => none

/-- The values delivered, in order. A take that was answered empty-handed delivers none. -/
def answers : List (CellEvent T) → List T :=
  List.filterMap fun event => match event with
    | answer outcome => outcome
    | _ => none

@[simp] theorem pending_nil : pending ([] : List (CellEvent T)) = none := rfl

@[simp] theorem pending_put (log : List (CellEvent T)) (value : T) :
    pending (log ++ [put value]) = some value := by
  simp [pending]

@[simp] theorem pending_take (log : List (CellEvent T)) : pending (log ++ [take]) = none := by
  simp [pending]

@[simp] theorem pending_refuse (log : List (CellEvent T)) (value : T) :
    pending (log ++ [refuse value]) = pending log := by
  simp [pending]

@[simp] theorem pending_answer (log : List (CellEvent T)) (outcome : Option T) :
    pending (log ++ [answer outcome]) = pending log := by
  simp [pending]

@[simp] theorem puts_nil : puts ([] : List (CellEvent T)) = [] := rfl

@[simp] theorem puts_put (log : List (CellEvent T)) (value : T) :
    puts (log ++ [put value]) = puts log ++ [value] := by
  simp [puts]

@[simp] theorem puts_take (log : List (CellEvent T)) : puts (log ++ [take]) = puts log := by
  simp [puts]

@[simp] theorem puts_refuse (log : List (CellEvent T)) (value : T) :
    puts (log ++ [refuse value]) = puts log := by
  simp [puts]

@[simp] theorem puts_answer (log : List (CellEvent T)) (outcome : Option T) :
    puts (log ++ [answer outcome]) = puts log := by
  simp [puts]

@[simp] theorem answers_nil : answers ([] : List (CellEvent T)) = [] := rfl

@[simp] theorem answers_put (log : List (CellEvent T)) (value : T) :
    answers (log ++ [put value]) = answers log := by
  simp [answers]

@[simp] theorem answers_take (log : List (CellEvent T)) :
    answers (log ++ [take]) = answers log := by
  simp [answers]

@[simp] theorem answers_refuse (log : List (CellEvent T)) (value : T) :
    answers (log ++ [refuse value]) = answers log := by
  simp [answers]

@[simp] theorem answers_answer (log : List (CellEvent T)) (outcome : Option T) :
    answers (log ++ [answer outcome]) = answers log ++ outcome.toList := by
  cases outcome <;> simp [answers]

end CellEvent

open CellEvent

/-- **Every answer is the newest value.** Each answer in the log belongs to a take before it, with
no other take in between, and is what was pending when that take happened: the latest value put
since the take before, or nothing when there was none. -/
def TakesNewest (log : List (CellEvent T)) : Prop :=
  ∀ before outcome after, log = before ++ answer outcome :: after →
    ∃ earlier since, before = earlier ++ take :: since ∧ take ∉ since ∧ outcome = pending earlier

theorem takesNewest_nil : TakesNewest ([] : List (CellEvent T)) := by
  intro before outcome after h
  simp at h

/-- An event that is no answer keeps `TakesNewest`: what earlier answers owe is decided by the log
before them. -/
theorem TakesNewest.snoc {log : List (CellEvent T)} {event : CellEvent T} (h : TakesNewest log)
    (notAnswer : ∀ outcome, event ≠ answer outcome) : TakesNewest (log ++ [event]) := by
  intro before outcome after hlog
  rcases List.eq_nil_or_concat after with rfl | ⟨front, last, rfl⟩
  · exact absurd (List.append_inj' hlog rfl).2 (by simpa using notAnswer outcome)
  · have hlast : log ++ [event] = (before ++ answer outcome :: front) ++ [last] := by
      simpa using hlog
    exact h before outcome front (List.append_inj' hlast rfl).1

/-- Answering the take in progress with `pending earlier`, what was pending when it happened, keeps
`TakesNewest`. The last take is the one in progress, by `hsince`. -/
theorem TakesNewest.snoc_answer {log earlier since : List (CellEvent T)} (h : TakesNewest log)
    (hlog : log = earlier ++ take :: since) (hsince : take ∉ since) :
    TakesNewest (log ++ [answer (pending earlier)]) := by
  intro before outcome after hsplit
  rcases List.eq_nil_or_concat after with rfl | ⟨front, last, rfl⟩
  · obtain ⟨hbefore, hout⟩ := List.append_inj' hsplit rfl
    refine ⟨earlier, since, hbefore ▸ hlog, hsince, ?_⟩
    simpa using hout.symm
  · have hlast : log ++ [answer (pending earlier)]
        = (before ++ answer outcome :: front) ++ [last] := by
      simpa using hsplit
    exact h before outcome front (List.append_inj' hlast rfl).1

/-! ## The cell as a transition system -/

/-- The cell: what it holds, the answer a take in progress will give, and the log so far, which is a
history that no step reads. -/
structure NewestCell (T : Type u) where
  /-- The value waiting to be taken. -/
  content : Option T
  /-- The outcome of the take in progress, which is answered later. -/
  due : Option (Option T)
  /-- The events so far, the oldest one first. -/
  log : List (CellEvent T)

/-- The actions of the cell, named after the events they log; an answer is for the take in
progress. -/
inductive CellAction (T : Type u)
  | put (value : T)
  | refuse (value : T)
  | take
  | answer

/-- The cell's steps: a take needs that no take is in progress, an answer that one is; puts and
refusals are possible at any time. -/
def newestCell : System (NewestCell T) (CellAction T) where
  init := ⟨none, none, []⟩
  step cell action := match action, cell.due with
    | .put value, _ => some { cell with content := some value, log := cell.log ++ [put value] }
    | .refuse value, _ => some { cell with log := cell.log ++ [refuse value] }
    | .take, none => some ⟨none, some cell.content, cell.log ++ [take]⟩
    | .take, some _ => none
    | .answer, none => none
    | .answer, some outcome =>
        some { cell with due := none, log := cell.log ++ [answer outcome] }

/-- What holds in every reachable state of the cell: its content is what its log says is pending,
and no value is out of order. -/
structure NewestCell.Inv (cell : NewestCell T) : Prop where
  /-- The cell holds what is pending: the latest value put since the last take. -/
  content_eq : cell.content = pending cell.log
  /-- The take in progress is the last one, and will answer what was pending then. -/
  due_eq : ∀ outcome, cell.due = some outcome →
    ∃ earlier since, cell.log = earlier ++ take :: since ∧ take ∉ since ∧ outcome = pending earlier
  /-- The answers given are the newest values. -/
  newest : TakesNewest cell.log
  /-- The values delivered, due and waiting were put in this order. -/
  ordered : (answers cell.log ++ (cell.due.getD none).toList ++ cell.content.toList).Sublist
    (puts cell.log)

/-- **Each step** of the cell keeps its invariant, one case for each action. -/
theorem NewestCell.Inv.step {cell cell' : NewestCell T} {action : CellAction T} (h : cell.Inv)
    (hstep : newestCell.step cell action = some cell') : cell'.Inv := by
  obtain ⟨content, due, log⟩ := cell
  obtain ⟨hcontent, hdue, hnewest, hordered⟩ := h
  dsimp only at hcontent hdue hnewest hordered
  subst hcontent
  cases action with
  | put value =>
      cases hstep
      refine ⟨by simp, fun outcome heq => ?_, hnewest.snoc (by simp), ?_⟩
      · obtain ⟨earlier, since, rfl, hsince, rfl⟩ := hdue outcome heq
        exact ⟨earlier, since ++ [.put value], by simp, by simpa using hsince, rfl⟩
      · have hkept : (answers log ++ (due.getD none).toList).Sublist (puts log) :=
          (List.sublist_append_left _ _).trans hordered
        simpa using hkept.append (List.Sublist.refl [value])
  | refuse value =>
      cases hstep
      refine ⟨by simp, fun outcome heq => ?_, hnewest.snoc (by simp), by simpa using hordered⟩
      obtain ⟨earlier, since, rfl, hsince, rfl⟩ := hdue outcome heq
      exact ⟨earlier, since ++ [.refuse value], by simp, by simpa using hsince, rfl⟩
  | take =>
      cases due with
      | some outcome => cases hstep
      | none =>
          cases hstep
          refine ⟨by simp, fun outcome heq => ?_, hnewest.snoc (by simp), by simpa using hordered⟩
          exact ⟨log, [], rfl, by simp, (Option.some.inj heq).symm⟩
  | answer =>
      cases due with
      | none => cases hstep
      | some outcome =>
          cases hstep
          obtain ⟨earlier, since, hlog, hsince, rfl⟩ := hdue outcome rfl
          exact ⟨by simp, by simp, hnewest.snoc_answer hlog hsince, by simpa using hordered⟩

/-- The invariant holds in every reachable state of the cell, by the invariant rule. -/
theorem newestCell_inv {cell : NewestCell T} (reach : newestCell.Reachable cell) : cell.Inv :=
  newestCell.reachable_invariant (P := NewestCell.Inv)
    ⟨rfl, by simp [newestCell], takesNewest_nil, by simp [newestCell]⟩
    (fun _ _ _ h hstep => h.step hstep) reach

/-- In every reachable state the answers are the newest values: each is what was pending when its
take happened. -/
theorem newestCell_takesNewest {cell : NewestCell T} (reach : newestCell.Reachable cell) :
    TakesNewest cell.log :=
  (newestCell_inv reach).newest

/-- In every reachable state the values delivered are values put, in the same order, and each put is
delivered at most once. -/
theorem newestCell_answers_sublist {cell : NewestCell T} (reach : newestCell.Reachable cell) :
    (answers cell.log).Sublist (puts cell.log) := by
  refine List.Sublist.trans ?_ (newestCell_inv reach).ordered
  rw [List.append_assoc]
  exact List.sublist_append_left _ _

end IecCore
