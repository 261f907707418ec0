import Mathlib.Data.List.Basic

/-! # Windows over chunks

Values that arrive in chunks are appended to a window; a window that is longer than a limit is given
away, and the next one starts empty. The chunks are not cut, so that a window may be longer than the
limit by the length of the chunk that filled it.

* **`windows`**, **`remainder`** — the windows given away, and the one that is open.
* **`flatten_windows`** — no value is lost, repeated or moved.
* **`windows_append`** — more chunks go on with the open window.
* **`length_of_mem_windows`** — the lengths of the windows, between the limit and its sum with the
  longest chunk. -/

namespace IecCore

variable {α : Type*} (limit : Nat)

/-- The **windows** that are given away, from an open window on: a window is given away when a chunk
makes it longer than `limit`. -/
def windows : (window : List α) → (chunks : List (List α)) → List (List α)
  | _, [] => []
  | window, chunk :: chunks =>
      if limit < (window ++ chunk).length then (window ++ chunk) :: windows [] chunks
      else windows (window ++ chunk) chunks

/-- The window that stays open when all chunks have arrived; the next chunk is appended to it. -/
def remainder : (window : List α) → (chunks : List (List α)) → List α
  | window, [] => window
  | window, chunk :: chunks =>
      if limit < (window ++ chunk).length then remainder [] chunks
      else remainder (window ++ chunk) chunks

variable {limit}

/-- A chunk that fills the window: it is given away with the chunk, and the next window starts
empty. -/
theorem windows_cons_of_lt {window chunk : List α} (h : limit < (window ++ chunk).length)
    (chunks : List (List α)) :
    windows limit window (chunk :: chunks) = (window ++ chunk) :: windows limit [] chunks ∧
      remainder limit window (chunk :: chunks) = remainder limit [] chunks := by
  rw [windows, remainder, if_pos h, if_pos h]
  exact ⟨rfl, rfl⟩

/-- A chunk that does not fill the window: it stays open, with the chunk at its end. -/
theorem windows_cons_of_le {window chunk : List α} (h : ¬limit < (window ++ chunk).length)
    (chunks : List (List α)) :
    windows limit window (chunk :: chunks) = windows limit (window ++ chunk) chunks ∧
      remainder limit window (chunk :: chunks) = remainder limit (window ++ chunk) chunks := by
  rw [windows, remainder, if_neg h, if_neg h]
  exact ⟨rfl, rfl⟩

/-- **The ledger**: the windows given away and the one that stays open are, in order, the values of
the first window and of all chunks. -/
theorem flatten_windows (window : List α) (chunks : List (List α)) :
    (windows limit window chunks).flatten ++ remainder limit window chunks
      = window ++ chunks.flatten := by
  induction chunks generalizing window with
  | nil => rw [windows, remainder, List.flatten_nil, List.nil_append, List.append_nil]
  | cons chunk chunks ih =>
      rw [List.flatten_cons, ← List.append_assoc]
      by_cases hfull : limit < (window ++ chunk).length
      · obtain ⟨hwindows, hremainder⟩ := windows_cons_of_lt hfull chunks
        rw [hwindows, hremainder, List.flatten_cons, List.append_assoc, ih, List.nil_append]
      · obtain ⟨hwindows, hremainder⟩ := windows_cons_of_le hfull chunks
        rw [hwindows, hremainder, ih]

/-- **More chunks** go on with the open window: the windows of `chunks` are given away, and `later`
starts from `remainder`. -/
theorem windows_append (window : List α) (chunks later : List (List α)) :
    windows limit window (chunks ++ later)
        = windows limit window chunks ++ windows limit (remainder limit window chunks) later ∧
      remainder limit window (chunks ++ later)
        = remainder limit (remainder limit window chunks) later := by
  induction chunks generalizing window with
  | nil => exact ⟨rfl, rfl⟩
  | cons chunk chunks ih =>
      rw [List.cons_append]
      by_cases hfull : limit < (window ++ chunk).length
      · obtain ⟨hwindows, hremainder⟩ := windows_cons_of_lt hfull chunks
        obtain ⟨hall, hopen⟩ := windows_cons_of_lt hfull (chunks ++ later)
        rw [hwindows, hremainder, hall, hopen, (ih []).1, (ih []).2]
        exact ⟨rfl, rfl⟩
      · obtain ⟨hwindows, hremainder⟩ := windows_cons_of_le hfull chunks
        obtain ⟨hall, hopen⟩ := windows_cons_of_le hfull (chunks ++ later)
        rw [hwindows, hremainder, hall, hopen]
        exact ih (window ++ chunk)

/-- The open window does not exceed the limit, when the one that the chunks started with did not. -/
theorem length_remainder_le {window : List α} (hwindow : window.length ≤ limit)
    (chunks : List (List α)) : (remainder limit window chunks).length ≤ limit := by
  induction chunks generalizing window with
  | nil => exact hwindow
  | cons chunk chunks ih =>
      by_cases hfull : limit < (window ++ chunk).length
      · rw [(windows_cons_of_lt hfull chunks).2]
        exact ih (Nat.zero_le limit)
      · rw [(windows_cons_of_le hfull chunks).2]
        exact ih (Nat.not_lt.mp hfull)

/-- **The lengths of the windows**: each exceeds the limit, by no more than the length of the
longest chunk. -/
theorem length_of_mem_windows {longest : Nat} {window : List α} (hwindow : window.length ≤ limit)
    {chunks : List (List α)} (hchunks : ∀ chunk ∈ chunks, chunk.length ≤ longest) :
    ∀ w ∈ windows limit window chunks, limit < w.length ∧ w.length ≤ limit + longest := by
  induction chunks generalizing window with
  | nil => exact fun w hw => absurd hw List.not_mem_nil
  | cons chunk chunks ih =>
      obtain ⟨hchunk, hlater⟩ := List.forall_mem_cons.mp hchunks
      by_cases hfull : limit < (window ++ chunk).length
      · rw [(windows_cons_of_lt hfull chunks).1, List.forall_mem_cons]
        refine ⟨⟨hfull, ?_⟩, ih (Nat.zero_le limit) hlater⟩
        rw [List.length_append]
        omega
      · rw [(windows_cons_of_le hfull chunks).1]
        exact ih (Nat.not_lt.mp hfull) hlater

end IecCore
