import Mathlib.Data.List.Basic
import Mathlib.Data.List.Infix

/-! # Replacing parts of a list

A part of a list is replaced where it occurs. This file says what the occurrences are, how a list is
cut at those of one part, and what it is to replace the occurrences of several parts in one pass.

* **`Splits`** — the pieces of a list between the leftmost occurrences that do not overlap.
* **`firstOccurrence`** — the first position of a part; with it every list has its pieces.
* **`substitute`** — one pass from left to right that replaces each of several keys by its value.
* **`Splits.substitute_eq`** — with one key, this joins the pieces with the value.
* **`substitute_append_singleton`** — when keys start with a mark and values hold none, one key may
  be replaced after the others.
* **`append_separator_inj`** — when a separator splits a list in one way only. -/

namespace IecCore

variable {α : Type*}

/-! ## Pieces -/

variable {what xs : List α}

/-- `Splits what xs pieces`: the **pieces** of the list between the leftmost occurrences of a part
that do not overlap. -/
inductive Splits (what : List α) : List α → List (List α) → Prop
  /-- Without an occurrence the list is one piece. -/
  | whole {xs : List α} (hnone : ∀ position, ¬what <+: xs.drop position) : Splits what xs [xs]
  /-- The first piece ends at the first occurrence; the others are those of the list behind it. -/
  | cut {piece rest : List α} {pieces : List (List α)}
      (hfirst : ∀ position < piece.length, ¬what <+: (piece ++ what ++ rest).drop position)
      (hrest : Splits what rest pieces) : Splits what (piece ++ what ++ rest) (piece :: pieces)

/-- There is a piece: a list without an occurrence is a piece of its own, also the empty one. -/
theorem Splits.ne_nil {pieces : List (List α)} (h : Splits what xs pieces) : pieces ≠ [] := by
  cases h with
  | whole hnone => exact List.cons_ne_nil xs []
  | cut hfirst hrest => exact List.cons_ne_nil _ _

/-- The part that ends a piece stands behind it: `what` starts at the position `piece.length`. -/
theorem prefix_drop_piece (piece rest : List α) :
    what <+: (piece ++ what ++ rest).drop piece.length := by
  rw [List.append_assoc, List.drop_left]
  exact List.prefix_append what rest

/-- A first piece and the rest are told apart by the first occurrence: two lists with the same
pieces in front of it are cut at the same place. -/
theorem append_cut_inj {piece piece' rest rest' : List α}
    (hfirst : ∀ position < piece.length, ¬what <+: (piece ++ what ++ rest).drop position)
    (hfirst' : ∀ position < piece'.length, ¬what <+: (piece' ++ what ++ rest').drop position)
    (heq : piece ++ what ++ rest = piece' ++ what ++ rest') : piece = piece' ∧ rest = rest' := by
  have hlength : piece.length = piece'.length := by
    refine le_antisymm ?_ ?_
    · by_contra hlt
      exact hfirst piece'.length (by omega) (heq ▸ prefix_drop_piece piece' rest')
    · by_contra hlt
      exact hfirst' piece.length (by omega) (heq ▸ prefix_drop_piece piece rest)
  rw [List.append_assoc, List.append_assoc] at heq
  obtain ⟨hpiece, hback⟩ := List.append_inj heq hlength
  exact ⟨hpiece, List.append_cancel_left hback⟩

/-- **A list has one list of pieces.** The first occurrence decides where the first piece ends, and
the rest of the list what the other pieces are. -/
theorem Splits.unique {pieces pieces' : List (List α)} (h : Splits what xs pieces)
    (h' : Splits what xs pieces') : pieces = pieces' := by
  induction h generalizing pieces' with
  | whole hnone =>
      cases h' with
      | whole hnone' => rfl
      | @cut piece rest _ hfirst hrest =>
          exact absurd (prefix_drop_piece piece rest) (hnone piece.length)
  | @cut piece rest pieces hfirst hrest ih =>
      generalize hlist : piece ++ what ++ rest = xs at h'
      cases h' with
      | whole hnone' =>
          exact absurd (hlist ▸ prefix_drop_piece piece rest) (hnone' piece.length)
      | cut hfirst' hrest' =>
          obtain ⟨rfl, rfl⟩ := append_cut_inj hfirst hfirst' hlist
          rw [ih hrest']

/-- **The number of pieces** is bounded by the length of the list: every occurrence between two
pieces takes `what.length` elements. -/
theorem Splits.length_mul_le {pieces : List (List α)} (h : Splits what xs pieces) :
    (pieces.length - 1) * what.length ≤ xs.length := by
  induction h with
  | whole hnone => simp
  | @cut piece rest pieces hfirst hrest ih =>
      have hpos := List.length_pos_iff.mpr hrest.ne_nil
      have hone : (piece :: pieces).length - 1 = (pieces.length - 1) + 1 := by
        rw [List.length_cons]
        omega
      rw [hone, Nat.succ_mul, List.length_append, List.length_append]
      omega

/-! ## Occurrences -/

variable [DecidableEq α]

/-- The first position of a part. The part may be the empty one, which stands at every position. -/
def firstOccurrence (what : List α) : (xs : List α) → Option Nat
  | [] => if what <+: [] then some 0 else none
  | x :: xs => if what <+: x :: xs then some 0 else (firstOccurrence what xs).map (· + 1)

/-- A part that stands at the start is found there, whatever follows. -/
theorem firstOccurrence_of_start (hstart : what <+: xs) : firstOccurrence what xs = some 0 := by
  cases xs with
  | nil => exact if_pos hstart
  | cons x xs => exact if_pos hstart

/-- A part that does not stand at the start is looked for behind the first element, and found one
place later. -/
theorem firstOccurrence_cons {x : α} (hstart : ¬what <+: x :: xs) :
    firstOccurrence what (x :: xs) = (firstOccurrence what xs).map (· + 1) :=
  if_neg hstart

/-- **A part that occurs nowhere** is not found, and only such a part: `what` is a prefix of no
`xs.drop position`. -/
theorem firstOccurrence_eq_none_iff :
    firstOccurrence what xs = none ↔ ∀ position, ¬what <+: xs.drop position := by
  induction xs with
  | nil =>
      rw [firstOccurrence]
      by_cases hstart : what <+: []
      · rw [if_pos hstart]
        exact iff_of_false (fun h => by cases h) fun h => h 0 hstart
      · rw [if_neg hstart]
        refine iff_of_true rfl ?_
        intro position
        rwa [List.drop_nil]
  | cons x xs ih =>
      by_cases hstart : what <+: x :: xs
      · rw [firstOccurrence_of_start hstart]
        exact iff_of_false (fun h => by cases h) fun h => h 0 hstart
      · rw [firstOccurrence_cons hstart, Option.map_eq_none_iff, ih]
        constructor
        · -- a position is the start, or one of the rest
          intro hnone position
          cases position with
          | zero => exact hstart
          | succ position => exact hnone position
        · intro hnone position
          exact hnone (position + 1)

/-- **The first position of a part** is where it stands and does not stand before. -/
theorem firstOccurrence_eq_some_iff {position : Nat} :
    firstOccurrence what xs = some position ↔
      what <+: xs.drop position ∧ ∀ before < position, ¬what <+: xs.drop before := by
  -- the search looks at the start of the list first, and then at the rest
  induction xs generalizing position with
  | nil =>
      rw [firstOccurrence]
      by_cases hstart : what <+: []
      · rw [if_pos hstart, Option.some_inj]
        constructor
        · rintro rfl
          exact ⟨hstart, fun before hbefore => absurd hbefore (Nat.not_lt_zero before)⟩
        · rintro ⟨-, hnone⟩
          by_contra hne
          exact hnone 0 (Nat.pos_of_ne_zero fun h => hne h.symm) hstart
      · rw [if_neg hstart, List.drop_nil]
        exact iff_of_false (fun h => by cases h) fun h => hstart h.1
  | cons x xs ih =>
      by_cases hstart : what <+: x :: xs
      · rw [firstOccurrence_of_start hstart, Option.some_inj]
        constructor
        · rintro rfl
          exact ⟨hstart, fun before hbefore => absurd hbefore (Nat.not_lt_zero before)⟩
        · rintro ⟨-, hnone⟩
          by_contra hne
          exact hnone 0 (Nat.pos_of_ne_zero fun h => hne h.symm) hstart
      · rw [firstOccurrence_cons hstart, Option.map_eq_some_iff]
        constructor
        · rintro ⟨position', hposition', rfl⟩
          obtain ⟨hstands, hnone⟩ := ih.mp hposition'
          refine ⟨hstands, ?_⟩
          intro before hbefore
          -- a position before is the start, or one of the rest
          cases before with
          | zero => exact hstart
          | succ before => exact hnone before (Nat.lt_of_succ_lt_succ hbefore)
        · rintro ⟨hstands, hnone⟩
          cases position with
          | zero => exact absurd hstands hstart
          | succ position =>
              refine ⟨position, ih.mpr ⟨hstands, ?_⟩, rfl⟩
              intro before hbefore
              exact hnone (before + 1) (Nat.succ_lt_succ hbefore)

/-- **A part that occurs in neither of two lists** occurs nowhere in both together when no end of the
first starts it. -/
theorem firstOccurrence_append {front back : List α} (hfront : firstOccurrence what front = none)
    (hborder : ∀ s, s <:+ front → s ≠ [] → ¬s <+: what) (hback : firstOccurrence what back = none) :
    firstOccurrence what (front ++ back) = none := by
  induction front with
  | nil => exact hback
  | cons x front ih =>
      have hinside : ¬what <+: x :: front := firstOccurrence_eq_none_iff.mp hfront 0
      have hrest : firstOccurrence what front = none := by
        rwa [firstOccurrence_cons hinside, Option.map_eq_none_iff] at hfront
      have hstart : ¬what <+: x :: (front ++ back) := by
        intro hstart
        -- it would end in the first list, or go over its end
        obtain h | h := List.prefix_or_prefix_of_prefix hstart (List.prefix_append (x :: front) back)
        · exact hinside h
        · exact hborder (x :: front) List.suffix_rfl (List.cons_ne_nil x front) h
      rw [List.cons_append, firstOccurrence_cons hstart, Option.map_eq_none_iff]
      exact ih hrest fun s hs => hborder s (hs.trans (List.suffix_cons x front))

/-- A part whose first element `x` the first list does not have, and that does not occur in the
second one, does not occur across the border of the two lists either. -/
theorem firstOccurrence_append_of_not_mem {x : α} {name front back : List α} (hx : x ∉ front)
    (hback : firstOccurrence (x :: name) back = none) :
    firstOccurrence (x :: name) (front ++ back) = none := by
  induction front with
  | nil => exact hback
  | cons y front ih =>
      obtain ⟨hy, hrest⟩ := List.ne_and_not_mem_of_not_mem_cons hx
      have hstart : ¬x :: name <+: y :: (front ++ back) := fun h =>
        hy (List.cons_prefix_cons.mp h).1
      rw [List.cons_append, firstOccurrence_cons hstart, ih hrest, Option.map_none]

/-- A part of which a piece does not occur does not occur itself. -/
theorem firstOccurrence_of_piece {front piece back : List α}
    (hpiece : firstOccurrence piece xs = none) :
    firstOccurrence (front ++ (piece ++ back)) xs = none := by
  refine firstOccurrence_eq_none_iff.mpr fun position hstart => ?_
  obtain ⟨rest, hrest⟩ := hstart
  refine firstOccurrence_eq_none_iff.mp hpiece (position + front.length) ⟨back ++ rest, ?_⟩
  rw [← List.drop_drop, ← hrest]
  simp

/-- A list with an occurrence is cut at the first one: `xs = piece ++ what ++ rest`, with the
position as the length of `piece`. -/
theorem eq_append_of_firstOccurrence {position : Nat}
    (hfirst : firstOccurrence what xs = some position) :
    ∃ piece rest, piece.length = position ∧ xs = piece ++ what ++ rest := by
  obtain ⟨⟨rest, hrest⟩, hnone⟩ := firstOccurrence_eq_some_iff.mp hfirst
  refine ⟨xs.take position, rest, ?_, ?_⟩
  · rw [List.length_take]
    by_contra hlong
    have hshort : xs.length < position := by omega
    -- past the end the list is empty, as it is at its end
    have hend : xs.drop position = xs.drop xs.length := by
      rw [List.drop_of_length_le hshort.le, List.drop_length]
    exact hnone xs.length hshort (hend ▸ ⟨rest, hrest⟩)
  · rw [List.append_assoc, hrest, List.take_append_drop]

/-- **Every list has its pieces** for a part that is not empty, by cutting it at the first
occurrence again and again. -/
theorem exists_splits (hwhat : what ≠ []) (xs : List α) : ∃ pieces, Splits what xs pieces := by
  induction hlength : xs.length using Nat.strong_induction_on generalizing xs with
  | _ length ih =>
      cases hfirst : firstOccurrence what xs with
      | none => exact ⟨[xs], .whole (firstOccurrence_eq_none_iff.mp hfirst)⟩
      | some position =>
          obtain ⟨piece, rest, rfl, rfl⟩ := eq_append_of_firstOccurrence hfirst
          have hshorter : rest.length < length := by
            have hpos := List.length_pos_iff.mpr hwhat
            rw [List.length_append, List.length_append] at hlength
            omega
          obtain ⟨pieces, hpieces⟩ := ih rest.length hshorter rest rfl
          exact ⟨piece :: pieces, .cut (firstOccurrence_eq_some_iff.mp hfirst).2 hpieces⟩

/-! ## One pass -/

/-- A **replacement** of a key by a value. An empty key would be found everywhere, and is excluded
here. -/
structure Replacement (α : Type*) where
  /-- What is replaced. -/
  key : List α
  /-- What stands in its place. -/
  value : List α
  /-- Something is replaced. -/
  key_ne : key ≠ []

/-- The first replacement of the table whose key stands at the start; the order of the table decides
between keys of which one starts with another. -/
def matchAt (table : List (Replacement α)) (xs : List α) : Option (Replacement α) :=
  table.find? fun r => r.key <+: xs

/-- The pass behind a key: `left` of its elements are still to be skipped, since the key was
replaced when its first element was reached. -/
def substituteFrom (table : List (Replacement α)) : (left : Nat) → (xs : List α) → List α
  | _, [] => []
  | left + 1, _ :: xs => substituteFrom table left xs
  | 0, x :: xs =>
      match matchAt table (x :: xs) with
      | some r => r.value ++ substituteFrom table (r.key.length - 1) xs
      | none => x :: substituteFrom table 0 xs

/-- **One pass**: where a key stands its value is put, and the pass goes on behind the key; an
element that belongs to no key stays. -/
def substitute (table : List (Replacement α)) (xs : List α) : List α := substituteFrom table 0 xs

variable {table : List (Replacement α)} {r : Replacement α}

@[simp] theorem substitute_nil : substitute table [] = [] := rfl

/-- The pass goes on behind a key as it does on the list without these elements. -/
theorem substituteFrom_eq (left : Nat) (xs : List α) :
    substituteFrom table left xs = substitute table (xs.drop left) := by
  induction xs generalizing left with
  | nil => rw [List.drop_nil, substitute_nil, substituteFrom]
  | cons x xs ih =>
      cases left with
      | zero => rfl
      | succ left => exact ih left

/-- A key that is found stands at the start, and its replacement is in the table. -/
theorem mem_of_matchAt (hmatch : matchAt table xs = some r) : r ∈ table ∧ r.key <+: xs := by
  have hstart : decide (r.key <+: xs) = true :=
    List.find?_some (p := fun r : Replacement α => decide (r.key <+: xs)) hmatch
  exact ⟨List.mem_of_find?_eq_some hmatch, of_decide_eq_true hstart⟩

/-- No key is found exactly when none of the table stands at the start. -/
theorem matchAt_eq_none_iff : matchAt table xs = none ↔ ∀ s ∈ table, ¬s.key <+: xs := by
  rw [matchAt, List.find?_eq_none]
  exact forall₂_congr fun s _ => by rw [decide_eq_true_eq]

/-- **A key** is replaced by its value, and the pass goes on behind it, not within the value. -/
theorem substitute_of_match {rest : List α} (hmatch : matchAt table (r.key ++ rest) = some r) :
    substitute table (r.key ++ rest) = r.value ++ substitute table rest := by
  obtain ⟨x, name, hkey⟩ := List.exists_cons_of_ne_nil r.key_ne
  rw [hkey, List.cons_append] at hmatch ⊢
  rw [substitute, substituteFrom, hmatch]
  dsimp only
  rw [substituteFrom_eq, hkey, List.length_cons, Nat.add_sub_cancel, List.drop_left]

/-- **An element that starts no key** stays, and the pass goes on with the next one. -/
theorem substitute_cons {x : α} (hnone : matchAt table (x :: xs) = none) :
    substitute table (x :: xs) = x :: substitute table xs := by
  rw [substitute, substituteFrom, hnone]
  rfl

/-- A part where no key starts stays: `substitute table (front ++ back) = front ++ substitute table
back`. -/
theorem substitute_append {front back : List α}
    (hnone : ∀ position < front.length, matchAt table ((front ++ back).drop position) = none) :
    substitute table (front ++ back) = front ++ substitute table back := by
  induction front with
  | nil => rfl
  | cons x front ih =>
      have hrest : substitute table (front ++ back) = front ++ substitute table back := by
        apply ih
        intro position hposition
        exact hnone (position + 1) (Nat.succ_lt_succ hposition)
      have hfirst : matchAt table (x :: (front ++ back)) = none := hnone 0 (Nat.succ_pos _)
      rw [List.cons_append, substitute_cons hfirst, hrest, List.cons_append]

/-- The only key does not stand where the list does not start with it. -/
theorem matchAt_singleton_eq_none (hnone : ¬r.key <+: xs) : matchAt [r] xs = none := by
  rw [matchAt_eq_none_iff]
  intro s hs
  rwa [List.mem_singleton.mp hs]

/-- In a table of one replacement `r` its key is the one that stands at the start of `r.key ++
rest`. -/
theorem matchAt_singleton_append (rest : List α) : matchAt [r] (r.key ++ rest) = some r :=
  List.find?_cons_of_pos (decide_eq_true (List.prefix_append r.key rest))

/-- **One key**: the pieces between its leftmost occurrences are joined with its value, which is
what replacing the occurrences one by one has to come to. -/
theorem Splits.substitute_eq {pieces : List (List α)} (h : Splits r.key xs pieces) :
    substitute [r] xs = r.value.intercalate pieces := by
  induction h with
  | @whole xs hnone =>
      have hstays : substitute [r] (xs ++ []) = xs ++ substitute [r] [] := by
        apply substitute_append
        intro position hposition
        rw [List.append_nil]
        exact matchAt_singleton_eq_none (hnone position)
      rw [List.append_nil, substitute_nil, List.append_nil] at hstays
      rw [hstays, List.intercalate_singleton]
  | @cut piece rest pieces hfirst hrest ih =>
      have hpiece : substitute [r] (piece ++ (r.key ++ rest))
          = piece ++ substitute [r] (r.key ++ rest) := by
        apply substitute_append
        intro position hposition
        rw [← List.append_assoc]
        exact matchAt_singleton_eq_none (hfirst position hposition)
      rw [List.append_assoc, hpiece, substitute_of_match (matchAt_singleton_append rest), ih,
        List.intercalate_cons_of_ne_nil hrest.ne_nil, List.append_assoc]

/-- A list in which the key does not occur stays as it is: `substitute [r] xs = xs`. -/
theorem substitute_of_firstOccurrence (hnone : firstOccurrence r.key xs = none) :
    substitute [r] xs = xs := by
  have hwhole : Splits r.key xs [xs] := .whole (firstOccurrence_eq_none_iff.mp hnone)
  rw [hwhole.substitute_eq, List.intercalate_singleton]

/-! ## Keys that start with a mark -/

/-- A key that starts with a **mark** and holds no other. Keys of this kind do not overlap, and none
is found in a value without the mark. -/
def Marked (mark : α) (key : List α) : Prop := ∃ name, key = mark :: name ∧ mark ∉ name

variable {mark : α}

/-- An element that is not the mark starts no key of the table: all keys of a marked table begin
with the mark, so that `matchAt table (x :: xs) = none`. -/
theorem matchAt_of_ne_mark (hkeys : ∀ s ∈ table, Marked mark s.key) {x : α} (hx : x ≠ mark) :
    matchAt table (x :: xs) = none := by
  rw [matchAt_eq_none_iff]
  intro s hs hstart
  obtain ⟨name, hkey, -⟩ := hkeys s hs
  rw [hkey, List.cons_prefix_cons] at hstart
  exact hx hstart.1.symm

/-- **A part without the mark** stays, whatever is behind it: no key starts in it. -/
theorem substitute_append_of_not_mem (hkeys : ∀ s ∈ table, Marked mark s.key) {front : List α}
    (hfront : mark ∉ front) (back : List α) :
    substitute table (front ++ back) = front ++ substitute table back := by
  induction front with
  | nil => rfl
  | cons x front ih =>
      obtain ⟨hx, hrest⟩ := List.ne_and_not_mem_of_not_mem_cons hfront
      rw [List.cons_append, substitute_cons (matchAt_of_ne_mark hkeys hx.symm), ih hrest,
        List.cons_append]

/-- **No part of a key appears**: a word without the mark starts the result of a pass when it starts
the list, because every value starts with an element the word does not have. -/
theorem prefix_substitute_iff (hkeys : ∀ s ∈ table, Marked mark s.key) {word : List α}
    (hvalues : ∀ s ∈ table, ∃ c value, s.value = c :: value ∧ c ∉ word) (hword : mark ∉ word)
    (xs : List α) : word <+: substitute table xs ↔ word <+: xs := by
  induction word generalizing xs with
  | nil => exact iff_of_true List.nil_prefix List.nil_prefix
  | cons w word ih =>
      obtain ⟨hw, hrest⟩ := List.ne_and_not_mem_of_not_mem_cons hword
      cases xs with
      | nil => rfl
      | cons x xs =>
          cases hmatch : matchAt table (x :: xs) with
          | none =>
              have hvalues' : ∀ s ∈ table, ∃ c value, s.value = c :: value ∧ c ∉ word := by
                intro s hs
                obtain ⟨c, value, hvalue, hc⟩ := hvalues s hs
                exact ⟨c, value, hvalue, fun hmem => hc (List.mem_cons_of_mem w hmem)⟩
              rw [substitute_cons hmatch, List.cons_prefix_cons, List.cons_prefix_cons,
                ih hvalues' hrest]
          | some s =>
              obtain ⟨hs, rest, hlist⟩ := mem_of_matchAt hmatch
              obtain ⟨name, hkey, -⟩ := hkeys s hs
              obtain ⟨c, value, hvalue, hc⟩ := hvalues s hs
              -- neither the key nor its value starts with the first letter of the word
              refine iff_of_false ?_ ?_
              · rw [← hlist] at hmatch ⊢
                rw [substitute_of_match hmatch, hvalue, List.cons_append, List.cons_prefix_cons]
                exact fun h => hc (h.1 ▸ List.mem_cons_self)
              · rw [← hlist, hkey, List.cons_append, List.cons_prefix_cons]
                exact fun h => hw h.1.symm

/-- **One more key** may be replaced in a pass of its own: the values of the others hold no mark, so
that nothing that was put is replaced, and start with an element that is not in the key, so that
they complete none. -/
theorem substitute_append_singleton (hkeys : ∀ s ∈ table, Marked mark s.key)
    (hkey : Marked mark r.key) (hplain : ∀ s ∈ table, mark ∉ s.value)
    (hvalues : ∀ s ∈ table, ∃ c value, s.value = c :: value ∧ c ∉ r.key) (xs : List α) :
    substitute [r] (substitute table xs) = substitute (table ++ [r]) xs := by
  have hone : ∀ s ∈ [r], Marked mark s.key := fun s hs => List.mem_singleton.mp hs ▸ hkey
  obtain ⟨name, hname, hmark⟩ := hkey
  have hmatchAt : ∀ ys, matchAt (table ++ [r]) ys = (matchAt table ys).or (matchAt [r] ys) :=
    fun ys => List.find?_append
  induction hlength : xs.length using Nat.strong_induction_on generalizing xs with
  | _ length ih =>
      subst hlength
      cases xs with
      | nil => rfl
      | cons x xs =>
          cases hmatch : matchAt table (x :: xs) with
          | some s =>
              obtain ⟨hs, rest, hlist⟩ := mem_of_matchAt hmatch
              have hboth : matchAt (table ++ [r]) (x :: xs) = some s := by
                rw [hmatchAt, hmatch, Option.some_or]
              have hshorter : rest.length < (x :: xs).length := by
                have hpos := List.length_pos_iff.mpr s.key_ne
                rw [← hlist, List.length_append]
                omega
              have hrest := ih rest.length hshorter rest rfl
              rw [← hlist] at hmatch hboth ⊢
              rw [substitute_of_match hmatch, substitute_of_match hboth,
                substitute_append_of_not_mem hone (hplain s hs), hrest]
          | none =>
              rw [substitute_cons hmatch]
              by_cases hstart : r.key <+: x :: xs
              · obtain ⟨rest, hlist⟩ := hstart
                have hboth : matchAt (table ++ [r]) (r.key ++ rest) = some r := by
                  rw [hmatchAt, hlist, hmatch, Option.none_or, ← hlist]
                  exact matchAt_singleton_append rest
                have hshorter : rest.length < (x :: xs).length := by
                  have hpos := List.length_pos_iff.mpr r.key_ne
                  rw [← hlist, List.length_append]
                  omega
                have hrest := ih rest.length hshorter rest rfl
                -- the first pass has left the key as it was
                have hkept : x :: substitute table xs = r.key ++ substitute table rest := by
                  rw [hname, List.cons_append, List.cons.injEq] at hlist
                  obtain ⟨rfl, rfl⟩ := hlist
                  rw [hname, substitute_append_of_not_mem hkeys hmark, List.cons_append]
                rw [hkept, ← hlist, substitute_of_match hboth,
                  substitute_of_match (matchAt_singleton_append _), hrest]
              · have hvalues' : ∀ s ∈ table, ∃ c value, s.value = c :: value ∧ c ∉ name := by
                  intro s hs
                  obtain ⟨c, value, hvalue, hc⟩ := hvalues s hs
                  exact ⟨c, value, hvalue, fun hmem => hc (hname ▸ List.mem_cons_of_mem mark hmem)⟩
                have hstart' : ¬r.key <+: x :: substitute table xs := by
                  rw [hname, List.cons_prefix_cons] at hstart ⊢
                  rwa [prefix_substitute_iff hkeys hvalues' hmark]
                have hboth : matchAt (table ++ [r]) (x :: xs) = none := by
                  rw [hmatchAt, hmatch, Option.none_or, matchAt_singleton_eq_none hstart]
                rw [substitute_cons hboth, substitute_cons (matchAt_singleton_eq_none hstart'),
                  ih xs.length (Nat.lt_succ_self _) xs rfl]

/-! ## A separator -/

/-- **A separator** whose first element is not in the front and whose last one is not in the back of
one list splits no other list differently. -/
theorem append_separator_inj {separator front front' back back' : List α} {first last : α}
    (hfirst : separator.head? = some first) (hlast : separator.getLast? = some last)
    (hfront : first ∉ front) (hback : last ∉ back)
    (heq : front' ++ (separator ++ back') = front ++ (separator ++ back)) :
    front' = front ∧ back' = back := by
  obtain ⟨more, hmore, hrest⟩ | ⟨more, hmore, hrest⟩ := List.append_eq_append_iff.mp heq
  · cases more with
    | nil =>
        rw [List.append_nil] at hmore
        rw [List.nil_append] at hrest
        exact ⟨hmore.symm, List.append_cancel_left hrest⟩
    | cons x more =>
        -- the separator starts within the front
        have hhead := congrArg List.head? hrest
        rw [List.head?_append, hfirst, Option.some_or, List.cons_append, List.head?_cons] at hhead
        cases hhead
        refine absurd ?_ hfront
        rw [hmore]
        exact List.mem_append_right _ List.mem_cons_self
  · cases more with
    | nil =>
        rw [List.append_nil] at hmore
        rw [List.nil_append] at hrest
        exact ⟨hmore, (List.append_cancel_left hrest).symm⟩
    | cons x more =>
        -- the separator ends within the back
        rw [← List.append_assoc] at hrest
        obtain ⟨beyond, hbeyond, hends⟩ | ⟨beyond, hbeyond, hends⟩ := List.append_eq_append_iff.mp hrest
        · have hlength := congrArg List.length hbeyond
          have hend := congrArg List.getLast? hbeyond
          rw [List.length_append, List.length_append, List.length_cons] at hlength
          rw [List.getLast?_append, hlast, Option.some_or, List.getLast?_append] at hend
          cases hbeyond' : beyond.getLast? with
          | none =>
              rw [List.getLast?_eq_none_iff.mp hbeyond', List.length_nil] at hlength
              omega
          | some y =>
              rw [hbeyond', Option.some_or] at hend
              cases hend
              refine absurd ?_ hback
              rw [hends]
              exact List.mem_append_left _ (List.mem_of_getLast? hbeyond')
        · have hlength := congrArg List.length hbeyond
          rw [List.length_append, List.length_append, List.length_cons] at hlength
          omega

end IecCore
