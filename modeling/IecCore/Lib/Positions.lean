import Mathlib.Data.List.Induction
import Mathlib.Data.List.Perm.Subperm
import Mathlib.Order.Nat

/-! # Positions

Where the elements of a list have a property, and where a property of numbers holds next. A loop that
collects the indexes of the elements it is looking for, until it has a number of them, finds the first
of these positions.

* **`positions`** — the positions of the elements with a property.
* **`mem_positions`**, **`pairwise_positions`** — they are the right ones, in increasing order.
* **`loop_eq_take_positions`** — what a loop collects that stops when it has three of them.
* **`three_le_length_iff`** — three positions are three numbers that increase.
* **`exists_first_loss`** — where a property of the beginnings of a list is lost first.
* **`FirstAfter`** — the first number after another one with a property. -/

namespace IecCore

variable {α : Type*} (p : α → Bool)

/-! ## The positions of elements -/

/-- The **positions** of the elements of `l` with a property, when the first element has the
position `start`. -/
def positions (l : List α) (start : Nat) : List Nat :=
  ((l.zipIdx start).filter fun x => p x.1).map Prod.snd

variable {p}

@[simp] theorem positions_nil (start : Nat) : positions p [] start = [] := rfl

/-- An element with the property is counted: its position is `start`, and the others are counted
from `start + 1`. -/
theorem positions_cons_of_pos {a : α} (ha : p a = true) (l : List α) (start : Nat) :
    positions p (a :: l) start = start :: positions p l (start + 1) := by
  rw [positions, List.zipIdx_cons, List.filter_cons, if_pos ha, List.map_cons, positions]

/-- An element without the property is not counted, but it takes a position. -/
theorem positions_cons_of_neg {a : α} (ha : ¬p a = true) (l : List α) (start : Nat) :
    positions p (a :: l) start = positions p l (start + 1) := by
  rw [positions, List.zipIdx_cons, List.filter_cons, if_neg ha, positions]

/-- `j ∈ positions p l start` when the element that stands `j - start` places behind the first one
has the property. -/
theorem mem_positions {l : List α} {start j : Nat} :
    j ∈ positions p l start ↔ start ≤ j ∧ ∃ a, l[j - start]? = some a ∧ p a = true := by
  rw [positions, List.mem_map]
  constructor
  · rintro ⟨⟨a, i⟩, hmem, rfl⟩
    obtain ⟨hzip, ha⟩ := List.mem_filter.mp hmem
    obtain ⟨hstart, hget⟩ := List.mk_mem_zipIdx_iff_le_and_getElem?_sub.mp hzip
    exact ⟨hstart, a, hget, ha⟩
  · rintro ⟨hstart, a, hget, ha⟩
    have hzip := List.mk_mem_zipIdx_iff_le_and_getElem?_sub.mpr ⟨hstart, hget⟩
    exact ⟨(a, j), List.mem_filter.mpr ⟨hzip, ha⟩, rfl⟩

/-- The positions increase, so that no position is counted twice. -/
theorem pairwise_positions (l : List α) (start : Nat) :
    (positions p l start).Pairwise (· < ·) := by
  have hrange : ((l.zipIdx start).map Prod.snd).Pairwise (· < ·) := by
    rw [List.zipIdx_map_snd]
    exact List.pairwise_lt_range'
  exact hrange.sublist (List.filter_sublist.map Prod.snd)

/-- **A loop that counts positions** and ends when it has `k` of them: it adds the positions of the
elements with the property to those found before, up to the number `k`. The two hypotheses are the
equations of the loop. -/
theorem loop_eq_take_positions {loop : List α → Nat → List Nat → List Nat} {k : Nat}
    (hnil : ∀ index found, loop [] index found = found)
    (hcons : ∀ a l index found, loop (a :: l) index found =
      if p a = true then
        if (found ++ [index]).length = k then found ++ [index]
        else loop l (index + 1) (found ++ [index])
      else loop l (index + 1) found)
    (l : List α) (index : Nat) (found : List Nat) (hfound : found.length < k) :
    loop l index found = (found ++ positions p l index).take k := by
  induction l generalizing index found with
  | nil => rw [hnil, positions_nil, List.append_nil, List.take_of_length_le hfound.le]
  | cons a l ih =>
      rw [hcons]
      by_cases ha : p a = true
      · rw [if_pos ha, positions_cons_of_pos ha, List.append_cons found index (positions p l _)]
        by_cases hlast : (found ++ [index]).length = k
        · -- the loop ends here
          rw [if_pos hlast, List.take_left' hlast]
        · rw [if_neg hlast]
          apply ih
          rw [List.length_append, List.length_singleton] at hlast ⊢
          omega
      · rw [if_neg ha, positions_cons_of_neg ha]
        exact ih (index + 1) found hfound

/-- A list with three different numbers `a < b < c` in it has at least three elements. -/
theorem three_le_length {l : List Nat} {a b c : Nat} (hab : a < b) (hbc : b < c) (ha : a ∈ l)
    (hb : b ∈ l) (hc : c ∈ l) : 3 ≤ l.length := by
  have hnodup : [a, b, c].Nodup := by
    simp only [List.nodup_cons, List.mem_cons, List.not_mem_nil, List.nodup_nil]
    grind
  have hsubset : [a, b, c] ⊆ l := by
    intro x hx
    simp only [List.mem_cons, List.not_mem_nil, or_false] at hx
    obtain rfl | rfl | rfl := hx
    · exact ha
    · exact hb
    · exact hc
  exact (List.subperm_of_subset hnodup hsubset).length_le

/-- A list that increases has at least three elements exactly when there are three numbers `a < b <
c` in it. -/
theorem three_le_length_iff {l : List Nat} (hl : l.Pairwise (· < ·)) :
    3 ≤ l.length ↔ ∃ a b c, a < b ∧ b < c ∧ a ∈ l ∧ b ∈ l ∧ c ∈ l := by
  constructor
  · intro hthree
    match l, hthree with
    | a :: b :: c :: rest, _ =>
        obtain ⟨hfirst, htail⟩ := List.pairwise_cons.mp hl
        have hbc : b < c := List.rel_of_pairwise_cons htail List.mem_cons_self
        refine ⟨a, b, c, hfirst b List.mem_cons_self, hbc, List.mem_cons_self, ?_, ?_⟩
        · exact List.mem_cons_of_mem a List.mem_cons_self
        · exact List.mem_cons_of_mem a (List.mem_cons_of_mem b List.mem_cons_self)
  · rintro ⟨a, b, c, hab, hbc, ha, hb, hc⟩
    exact three_le_length hab hbc ha hb hc

/-- A list that does not have a property of its beginnings has a **first element** at which it is
lost: the beginning before it still has the property. -/
theorem exists_first_loss {P : List α → Prop} (hnil : P []) {l : List α} (hl : ¬P l) :
    ∃ before a after, l = before ++ a :: after ∧ P before ∧ ¬P (before ++ [a]) := by
  induction l using List.reverseRecOn with
  | nil => exact absurd hnil hl
  | append_singleton init last ih =>
      by_cases hinit : P init
      · exact ⟨init, last, [], rfl, hinit, hl⟩
      · obtain ⟨before, a, after, rfl, hbefore, hlost⟩ := ih hinit
        exact ⟨before, a, after ++ [last], List.append_assoc .., hbefore, hlost⟩

/-! ## The next number -/

/-- The **first** number **after** `start` with a property, which is at most one number. -/
structure FirstAfter (P : Nat → Prop) (start first : Nat) : Prop where
  /-- It is after the start. -/
  after : start < first
  /-- It has the property. -/
  holds : P first
  /-- No number between them has it. -/
  first : ∀ k, start < k → k < first → ¬P k

/-- If a later number `j` has the property, there is a first one, and it is at most `j`. -/
theorem FirstAfter.exists_le {P : Nat → Prop} {start j : Nat} (hafter : start < j) (hj : P j) :
    ∃ first, FirstAfter P start first ∧ first ≤ j := by
  classical
  have hexists : ∃ k, start < k ∧ P k := ⟨j, hafter, hj⟩
  refine ⟨Nat.find hexists, ⟨(Nat.find_spec hexists).1, (Nat.find_spec hexists).2, ?_⟩,
    Nat.find_min' hexists ⟨hafter, hj⟩⟩
  intro k hstart hk hP
  exact Nat.find_min hexists hk ⟨hstart, hP⟩

end IecCore
