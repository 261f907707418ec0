import Mathlib.Data.List.FinRange
import Mathlib.Order.Bounds.Basic
import Mathlib.Order.Fin.Basic
import Mathlib.Order.MinMax

/-! # Extremes by running through a list

The least and the greatest of a list, and the first index with the largest weight, are found by a
loop that starts with a given value. The start has to give way to the list: a loop for the greatest
value that starts with a positive number does not find a greatest value that is negative.

* **`isLeast_foldl_min_iff`**, **`isGreatest_foldl_max_iff`** — when the loop finds the extreme.
* **`keepLarger`** — the step of a loop that looks for the largest weight.
* **`foldl_keepLarger`** — it finds the first index with the largest weight, if any exceeds the
  start.
* **`IsFirstLargest`** — the index that it finds, which is unique. -/

namespace IecCore

variable {ι α : Type*} [LinearOrder α]

/-! ## The least and the greatest -/

variable {l : List α} {start : α}

/-- `l.min hne` is the least of the values of a list that is not empty. -/
theorem isLeast_min (hne : l ≠ []) : IsLeast {x | x ∈ l} (l.min hne) :=
  ⟨List.min_mem hne, fun _ hx => List.min_le_of_mem hx⟩

/-- `l.max hne` is the greatest of the values of a list that is not empty. -/
theorem isGreatest_max (hne : l ≠ []) : IsGreatest {x | x ∈ l} (l.max hne) :=
  ⟨List.max_mem hne, fun _ hx => List.le_max_of_mem hx⟩

/-- **The least is found** by `l.foldl min start` exactly when the loop does not start below the
list: some value is at most `start`. -/
theorem isLeast_foldl_min_iff (hne : l ≠ []) :
    IsLeast {x | x ∈ l} (l.foldl min start) ↔ ∃ x ∈ l, x ≤ start := by
  rw [List.foldl_min_eq_min hne]
  constructor
  · intro h
    exact ⟨_, h.1, min_le_left _ _⟩
  · rintro ⟨x, hx, hle⟩
    rw [min_eq_right ((List.min_le_of_mem hx).trans hle)]
    exact isLeast_min hne

/-- **The greatest is found** by `l.foldl max start` exactly when the loop does not start above the
list: some value is at least `start`. -/
theorem isGreatest_foldl_max_iff (hne : l ≠ []) :
    IsGreatest {x | x ∈ l} (l.foldl max start) ↔ ∃ x ∈ l, start ≤ x := by
  rw [List.foldl_max_eq_max hne]
  constructor
  · intro h
    exact ⟨_, h.1, le_max_left _ _⟩
  · rintro ⟨x, hx, hle⟩
    rw [max_eq_right (hle.trans (List.le_max_of_mem hx))]
    exact isGreatest_max hne

/-! ## The first index with the largest weight -/

/-- Keep an index and its weight, or take another one whose weight is larger. Equal weights leave
the index as it is. -/
def keepLarger (weight : ι → α) (best : ι × α) (i : ι) : ι × α :=
  if best.2 < weight i then (i, weight i) else best

/-- The **first index with the largest weight**: no weight is larger, and every weight before it is
smaller. -/
structure IsFirstLargest [LT ι] (weight : ι → α) (k : ι) : Prop where
  /-- No weight is larger: `weight i ≤ weight k` for all `i`. -/
  largest : ∀ i, weight i ≤ weight k
  /-- Every weight before is smaller, so that `k` is the first one. -/
  first : ∀ i < k, weight i < weight k

/-- **The loop** keeps its start when no weight exceeds it; else it ends with an index whose weight
exceeds the start, those before, and is not exceeded. -/
theorem foldl_keepLarger [Preorder ι] (weight : ι → α) {l : List ι} (hsorted : l.Pairwise (· < ·))
    (best : ι × α) :
    (l.foldl (keepLarger weight) best = best ∧ ∀ i ∈ l, weight i ≤ best.2) ∨
      ∃ k ∈ l, l.foldl (keepLarger weight) best = (k, weight k) ∧ best.2 < weight k ∧
        (∀ i ∈ l, weight i ≤ weight k) ∧ ∀ i ∈ l, i < k → weight i < weight k := by
  induction l generalizing best with
  | nil => exact .inl ⟨rfl, fun i hi => by cases hi⟩
  | cons j l ih =>
      obtain ⟨hj, hl⟩ := List.pairwise_cons.mp hsorted
      rw [List.foldl_cons, keepLarger]
      -- either `j` is the best one from now on, or it is not larger than the best
      by_cases hlarger : best.2 < weight j
      · rw [if_pos hlarger]
        right
        obtain ⟨hstays, hle⟩ | ⟨k, hk, hends, hlt, hle, hfirst⟩ := ih hl (j, weight j)
        · refine ⟨j, List.mem_cons_self, hstays, hlarger, ?_, ?_⟩
          · exact List.forall_mem_cons.mpr ⟨le_refl _, hle⟩
          · refine List.forall_mem_cons.mpr ⟨fun h => absurd h (lt_irrefl j), ?_⟩
            -- nothing of the rest comes before `j`, since the list is sorted
            intro i hi hlt
            exact absurd (hlt.trans (hj i hi)) (lt_irrefl i)
        · exact ⟨k, List.mem_cons_of_mem j hk, hends, hlarger.trans hlt,
            List.forall_mem_cons.mpr ⟨hlt.le, hle⟩,
            List.forall_mem_cons.mpr ⟨fun _ => hlt, hfirst⟩⟩
      · rw [if_neg hlarger]
        have hj' := not_lt.mp hlarger
        obtain ⟨hstays, hle⟩ | ⟨k, hk, hends, hlt, hle, hfirst⟩ := ih hl best
        · exact .inl ⟨hstays, List.forall_mem_cons.mpr ⟨hj', hle⟩⟩
        · exact .inr ⟨k, List.mem_cons_of_mem j hk, hends, hlt,
            List.forall_mem_cons.mpr ⟨hj'.trans hlt.le, hle⟩,
            List.forall_mem_cons.mpr ⟨fun _ => hj'.trans_lt hlt, hfirst⟩⟩

/-- **The loop over all indices** ends with the first one of the largest weight, when some weight
exceeds the start. -/
theorem foldl_keepLarger_finRange {n : Nat} (weight : Fin n → α) (best : Fin n × α)
    (hexceeds : ∃ i, best.2 < weight i) :
    ∃ k, (List.finRange n).foldl (keepLarger weight) best = (k, weight k) ∧
      IsFirstLargest weight k := by
  obtain ⟨-, hle⟩ | ⟨k, -, hends, -, hle, hfirst⟩ :=
    foldl_keepLarger weight (List.pairwise_lt_finRange n) best
  · obtain ⟨i, hi⟩ := hexceeds
    exact absurd hi (not_lt.mpr (hle i (List.mem_finRange i)))
  · exact ⟨k, hends, fun i => hle i (List.mem_finRange i),
      fun i => hfirst i (List.mem_finRange i)⟩

/-- **The loop over all indices** ends with an index whose weight exceeds the start and every other
weight. -/
theorem foldl_keepLarger_of_ahead {n : Nat} {weight : Fin n → α} {best : Fin n × α} {k : Fin n}
    (hexceeds : best.2 < weight k) (hahead : ∀ j, j ≠ k → weight j < weight k) :
    (List.finRange n).foldl (keepLarger weight) best = (k, weight k) := by
  obtain ⟨j, hends, hfirst⟩ := foldl_keepLarger_finRange weight best ⟨k, hexceeds⟩
  have hj : j = k := by
    by_contra hne
    exact absurd (hfirst.largest k) (not_le.mpr (hahead j hne))
  rw [hends, hj]

end IecCore
