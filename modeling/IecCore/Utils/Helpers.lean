import IecCore.Lib.Replace

/-! # Helpers on strings

`utils::replace_all` searches the string that it edits: behind every replacement it goes on at the
end of what it has put there. The other helpers are built on it. A string is the list of its bytes,
and the loop has a number of replacements that it may make, so that a loop which does not end shows
as one that no number is enough for.

* **`find`**, **`replace`** — the operations of `std::string` that it uses.
* **`replaceAllLoop`**, **`replaceAll`** — the loop and the function.
* **`replaceAllLoop_of_splits`** — the loop joins the pieces of the string.
* **`replaceAll_eq_substitute`** — it replaces the string in one pass.
* **`exists_macByIfaceName`** — the address of a device is found, whatever its file holds. -/

namespace IecCore

namespace Utils

/-! ## Strings -/

/-- `std::string`, as the list of its bytes: C++ strings may hold any of them, zero included. -/
abbrev Text := List UInt8

/-- The bytes of a literal of the source, without the zero that C++ puts behind it. -/
def text (s : String) : Text := s.toByteArray.data.toList

/-- `find`: the first position from `pos` on where a string stands; none is `npos`. An empty string
stands at `pos` itself, up to the end. -/
def find (out what : Text) (pos : Nat) : Option Nat :=
  if pos ≤ out.length then (firstOccurrence what (out.drop pos)).map (pos + ·) else none

/-- `replace`: put a string in the place of `length` bytes from `pos` on; the rest of the text
moves. -/
def replace (out : Text) (pos length : Nat) (str : Text) : Text :=
  out.take pos ++ str ++ out.drop (pos + length)

/-! ## Replacing -/

/-- The loop of `replace_all`, for a number of replacements; none means that it goes on when it has
made them. -/
def replaceAllLoop (what with' : Text) : (replacements : Nat) → (out : Text) → (pos : Nat) →
    Option Text
  | 0, out, pos =>
      match find out what pos with
      | none => some out
      | some _ => none
  | replacements + 1, out, pos =>
      match find out what pos with
      | none => some out
      | some pos =>
          -- the search goes on behind what was put there
          replaceAllLoop what with' replacements (replace out pos what.length with')
            (pos + with'.length)

/-- Replace all substrings `what` with `with`. Unless `what` is empty, there are no more of them
than the string has bytes. -/
def replaceAll (input what with' : Text) : Option Text :=
  replaceAllLoop what with' input.length input 0

/-- Remove all substrings `what`, by replacing them with the empty string. -/
def removeAll (input what : Text) : Option Text := replaceAll input what []

/-- Get the MAC address of a device by the name of its interface: the text of its file without
colons and line breaks, behind `0x`. -/
def getMacByIfaceName (readFile : Text → Text) (ifaceName : Text) : Option Text := do
  if ifaceName ≠ [] then
    let deviceAddressFilepath := text "/sys/class/net/" ++ ifaceName ++ text "/address"
    let addressText := readFile deviceAddressFilepath
    let addressText ← removeAll addressText (text ":")
    let addressText ← removeAll addressText (text "\n")
    return text "0x" ++ addressText
  else
    return text "0xFFFFFFFFFFFF"

/-! ## The loop -/

variable {what with' : Text}

/-- The loop ends when it finds nothing, however many replacements are left. -/
theorem replaceAllLoop_of_none {out : Text} {pos : Nat} (hfind : find out what pos = none)
    (replacements : Nat) : replaceAllLoop what with' replacements out pos = some out := by
  cases replacements with
  | zero => rw [replaceAllLoop, hfind]
  | succ replacements => rw [replaceAllLoop, hfind]

/-- What is found behind a part that is done is found at the length of that part and its position
behind it. -/
theorem find_append (done rest : Text) :
    find (done ++ rest) what done.length = (firstOccurrence what rest).map (done.length + ·) := by
  have hinside : done.length ≤ (done ++ rest).length := by
    rw [List.length_append]
    exact Nat.le_add_right _ _
  rw [find, if_pos hinside, List.drop_left]

/-- The edit of one replacement: `what` behind the part that is done gives way to `with'`. -/
theorem replace_append (done rest : Text) :
    replace (done ++ (what ++ rest)) done.length what.length with' = done ++ with' ++ rest := by
  rw [replace, List.take_left, ← List.append_assoc done, ← List.length_append, List.drop_left]

/-- **The loop joins the pieces.** When it has passed a part that is done, it puts `with` between
the pieces of the rest, one replacement for each, and never looks at the part again. -/
theorem replaceAllLoop_of_splits {rest : Text} {pieces : List Text} (h : Splits what rest pieces)
    (done : Text) (replacements : Nat) :
    replaceAllLoop what with' replacements (done ++ rest) done.length
      = if pieces.length ≤ replacements + 1 then some (done ++ with'.intercalate pieces)
        else none := by
  induction h generalizing done replacements with
  | @whole rest hnone =>
      have hfind : find (done ++ rest) what done.length = none := by
        rw [find_append, firstOccurrence_eq_none_iff.mpr hnone, Option.map_none]
      have hone : [rest].length ≤ replacements + 1 := Nat.le_add_left 1 replacements
      rw [replaceAllLoop_of_none hfind, if_pos hone, List.intercalate_singleton]
  | @cut piece rest pieces hfirst hrest ih =>
      have hstands : firstOccurrence what (piece ++ what ++ rest) = some piece.length :=
        firstOccurrence_eq_some_iff.mpr ⟨prefix_drop_piece piece rest, hfirst⟩
      have hfind : find (done ++ (piece ++ what ++ rest)) what done.length
          = some (done ++ piece).length := by
        rw [find_append, hstands, Option.map_some, List.length_append]
      have hpos := List.length_pos_iff.mpr hrest.ne_nil
      cases replacements with
      | zero =>
          -- an occurrence is left, and no replacement
          rw [replaceAllLoop, hfind, if_neg]
          rw [List.length_cons]
          omega
      | succ replacements =>
          have hedit : replace (done ++ (piece ++ what ++ rest)) (done ++ piece).length what.length
              with' = done ++ piece ++ with' ++ rest := by
            have hassoc : done ++ (piece ++ what ++ rest) = done ++ piece ++ (what ++ rest) := by
              simp only [List.append_assoc]
            rw [hassoc, replace_append]
          -- the piece and what was put behind it join the part that is done
          have hgoes := ih (done ++ piece ++ with') replacements
          rw [List.length_append] at hgoes
          have hcount : pieces.length ≤ replacements + 1
              ↔ (piece :: pieces).length ≤ replacements + 1 + 1 := by
            rw [List.length_cons, Nat.add_le_add_iff_right]
          rw [replaceAllLoop, hfind]
          dsimp only
          rw [hedit, hgoes, List.intercalate_cons_of_ne_nil hrest.ne_nil]
          simp only [hcount, List.append_assoc]

/-- The loop from the start of the string ends when it may make as many replacements as there are
occurrences, and joins the pieces then. -/
theorem replaceAllLoop_start {input : Text} {pieces : List Text} (h : Splits what input pieces)
    (replacements : Nat) :
    replaceAllLoop what with' replacements input 0
      = if pieces.length ≤ replacements + 1 then some (with'.intercalate pieces) else none :=
  replaceAllLoop_of_splits h [] replacements

/-- As many replacements as the string has bytes are enough, since every occurrence takes a byte at
least. -/
theorem replaceAll_of_splits {input : Text} {pieces : List Text} (hwhat : what ≠ [])
    (h : Splits what input pieces) :
    replaceAll input what with' = some (with'.intercalate pieces) := by
  have hcount := h.length_mul_le
  have hmul := Nat.le_mul_of_pos_right (pieces.length - 1) (List.length_pos_iff.mpr hwhat)
  rw [replaceAll, replaceAllLoop_start h, if_pos (by omega)]

/-- **Replacement from left to right.** The loop makes one replacement for each of the leftmost
occurrences that do not overlap, of which there are at most `input.length / what.length`, and then
ends with the pieces between them joined with `with`. -/
theorem replaceAll_joins_pieces (input with' : Text) {what : Text} (hwhat : what ≠ []) :
    ∃ pieces, Splits what input pieces ∧
      (∀ pieces', Splits what input pieces' → pieces' = pieces) ∧
      pieces.length - 1 ≤ input.length / what.length ∧
      (∀ replacements, replaceAllLoop what with' replacements input 0
        = if pieces.length - 1 ≤ replacements then some (with'.intercalate pieces) else none) ∧
      replaceAll input what with' = some (with'.intercalate pieces) := by
  obtain ⟨pieces, hpieces⟩ := exists_splits hwhat input
  have hpos := List.length_pos_iff.mpr hwhat
  refine ⟨pieces, hpieces, fun pieces' hpieces' => hpieces'.unique hpieces,
    (Nat.le_div_iff_mul_le hpos).mpr hpieces.length_mul_le, ?_, replaceAll_of_splits hwhat hpieces⟩
  intro replacements
  simp only [replaceAllLoop_start hpieces, Nat.sub_le_iff_le_add]

/-- Two letters in a row, replaced by a text that holds them: the occurrences that overlap are not
both replaced, and the new ones are not looked at. -/
theorem replaceAll_joins_pieces_overlapping :
    ∃ pieces, Splits (text "aa") (text "baaaaab") pieces ∧
      (∀ pieces', Splits (text "aa") (text "baaaaab") pieces' → pieces' = pieces) ∧
      pieces.length - 1 ≤ (text "baaaaab").length / (text "aa").length ∧
      (∀ replacements,
        replaceAllLoop (text "aa") (text "aaa") replacements (text "baaaaab") 0
          = if pieces.length - 1 ≤ replacements then some ((text "aaa").intercalate pieces)
            else none) ∧
      replaceAll (text "baaaaab") (text "aa") (text "aaa")
        = some ((text "aaa").intercalate pieces) :=
  replaceAll_joins_pieces (text "baaaaab") (text "aaa") (by decide)

/-- **One pass**: what is not empty is replaced by one pass over the string, `substitute [r]
input`. -/
theorem replaceAll_eq_substitute (input : Text) (r : Replacement UInt8) :
    replaceAll input r.key r.value = some (substitute [r] input) := by
  obtain ⟨pieces, hpieces⟩ := exists_splits r.key_ne input
  rw [replaceAll_of_splits r.key_ne hpieces, hpieces.substitute_eq]

/-- An empty string is found everywhere, and the loop does not end: no number of replacements is
enough. -/
theorem replaceAllLoop_nil (replacements : Nat) {out : Text} {pos : Nat} (hpos : pos ≤ out.length) :
    replaceAllLoop [] with' replacements out pos = none := by
  have hfind : ∀ {out : Text} {pos : Nat}, pos ≤ out.length → find out [] pos = some pos := by
    intro out pos hpos
    rw [find, if_pos hpos, firstOccurrence_of_start List.nil_prefix, Option.map_some, Nat.add_zero]
  induction replacements generalizing out pos with
  | zero => rw [replaceAllLoop, hfind hpos]
  | succ replacements ih =>
      rw [replaceAllLoop, hfind hpos]
      refine ih ?_
      rw [replace, List.length_append, List.length_append, List.length_take, Nat.min_eq_left hpos]
      exact Nat.le_add_right _ _

/-! ## The address of a device -/

/-- **Termination** of `removeAll`: removing a string that is not empty ends, with some text. -/
theorem exists_removeAll (input : Text) {what : Text} (hwhat : what ≠ []) :
    ∃ output, removeAll input what = some output := by
  obtain ⟨pieces, hpieces⟩ := exists_splits hwhat input
  exact ⟨_, replaceAll_of_splits hwhat hpieces⟩

/-- **The address of a device** is found, and starts with `0x`, whatever the file holds and whether
there is one. -/
theorem exists_macByIfaceName (readFile : Text → Text) (ifaceName : Text) :
    ∃ address, getMacByIfaceName readFile ifaceName = some address ∧ text "0x" <+: address := by
  rw [getMacByIfaceName]
  by_cases hname : ifaceName = []
  · rw [if_neg (not_not.mpr hname)]
    exact ⟨_, rfl, by decide⟩
  · rw [if_pos hname]
    dsimp only
    obtain ⟨noColons, hcolons⟩ := exists_removeAll
      (readFile (text "/sys/class/net/" ++ ifaceName ++ text "/address"))
      (show text ":" ≠ [] by decide)
    obtain ⟨noBreaks, hbreaks⟩ := exists_removeAll noColons (show text "\n" ≠ [] by decide)
    refine ⟨text "0x" ++ noBreaks, ?_, List.prefix_append _ _⟩
    rw [hcolons, Option.bind_eq_bind, Option.bind_some, hbreaks]
    rfl

end Utils

end IecCore
