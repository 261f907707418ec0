import Mathlib.Data.List.Infix
import Mathlib.Data.List.TakeWhile

/-! # String literals of C

What the text between two quotes means: characters stand for themselves, escape sequences for bytes,
and literals that follow each other are one. A text with a quote or a backslash that is put between
the quotes is not read as it stands. The sequences are those of `gcc` and `clang`, with the extension
`\e` and with an unknown sequence taken for its character.

* **`escape`** — the sequence behind a backslash.
* **`stringBody`** — a literal, from the character behind its opening quote on.
* **`stringLiterals`** — a literal with those that follow it.
* **`stringLiterals_plain`** — a text without a quote and a backslash means itself.
* **`stringLiterals_spliced`** — any other text is read as something shorter, or its literal ends
  within it. -/

namespace IecCore

namespace CLiteral

/-! ## Characters -/

/-- The quote that opens and closes a literal, `"`. -/
def quote : UInt8 := 0x22

/-- The backslash that starts an escape sequence. -/
def backslash : UInt8 := 0x5c

/-- The end of a line. -/
def newline : UInt8 := 0x0a

/-- White space, which may stand between literals that are read as one. -/
def isSpace (c : UInt8) : Bool := c = 0x20 ∨ 0x09 ≤ c ∧ c ≤ 0x0d

/-- The value of a digit in any base up to 16; no digit has the value 16, which stands for every
other character. -/
def digitValue (c : UInt8) : Nat :=
  if 0x30 ≤ c ∧ c ≤ 0x39 then c.toNat - 0x30
  else if 0x61 ≤ c ∧ c ≤ 0x66 then c.toNat - 0x61 + 10
  else if 0x41 ≤ c ∧ c ≤ 0x46 then c.toNat - 0x41 + 10
  else 16

/-! ## Escape sequences -/

/-- The digits of a base at the start of a text, up to a number of them: an octal sequence has at
most three. -/
def readDigits (base limit : Nat) (text : List UInt8) : List UInt8 :=
  (text.take limit).takeWhile fun c => digitValue c < base

/-- The number that digits make, the first one counting most; without a digit it is zero. -/
def number (base : Nat) (digits : List UInt8) : Nat :=
  digits.foldl (fun n c => n * base + digitValue c) 0

/-- An octal or hexadecimal sequence: its digits, which are one at least, and its value, which has
to fit into a byte. -/
def numeric (base limit : Nat) (text : List UInt8) : Option (List UInt8 × List UInt8) :=
  let digits := readDigits base limit text
  if digits ≠ [] ∧ number base digits < 256 then
    some ([UInt8.ofNat (number base digits)], text.drop digits.length)
  else
    none

/-- The code points that a universal character name may have: no surrogate, and none of the basic
character set but `$`, `@` and the backquote. -/
def isUniversal (code : Nat) : Bool :=
  code < 0x110000 ∧ ¬(0xd800 ≤ code ∧ code < 0xe000) ∧ (0xa0 ≤ code ∨ code ∈ [0x24, 0x40, 0x60])

/-- A universal character name with `count` digits: the bytes of its character in UTF-8. -/
def universal (count : Nat) (text : List UInt8) : Option (List UInt8 × List UInt8) :=
  let digits := readDigits 16 count text
  if digits.length = count ∧ isUniversal (number 16 digits) then
    some (String.utf8EncodeChar (Char.ofNat (number 16 digits)), text.drop digits.length)
  else
    none

/-- The other sequences have one character. A compiler takes a character that it does not know for
itself. -/
def simpleEscape (c : UInt8) : UInt8 :=
  if c = 0x61 then 0x07 -- \a
  else if c = 0x62 then 0x08 -- \b
  else if c = 0x65 ∨ c = 0x45 then 0x1b -- \e and \E, extensions
  else if c = 0x66 then 0x0c -- \f
  else if c = 0x6e then 0x0a -- \n
  else if c = 0x72 then 0x0d -- \r
  else if c = 0x74 then 0x09 -- \t
  else if c = 0x76 then 0x0b -- \v
  else c

/-- **The escape sequence** behind a backslash: the bytes it stands for, and the text behind it. -/
def escape : (text : List UInt8) → Option (List UInt8 × List UInt8)
  | [] => none
  | c :: rest =>
      if c = newline then some ([], rest)
      else if c = 0x78 then numeric 16 rest.length rest
      else if c = 0x75 then universal 4 rest
      else if c = 0x55 then universal 8 rest
      else if digitValue c < 8 then numeric 8 3 (c :: rest)
      else some ([simpleEscape c], rest)

/-- Digits are the start of the text, and none of them is a quote, for every base up to 16. -/
theorem readDigits_spec {base : Nat} (hbase : base ≤ 16) (limit : Nat) (text : List UInt8) :
    readDigits base limit text ++ text.drop (readDigits base limit text).length = text ∧
      quote ∉ readDigits base limit text := by
  constructor
  · rw [← List.prefix_iff_eq_append]
    exact (List.takeWhile_prefix _).trans (List.take_prefix limit text)
  · intro hmem
    have hdigit : decide (digitValue quote < base) = true :=
      List.mem_takeWhile_imp (p := fun c => decide (digitValue c < base)) hmem
    have hlt := of_decide_eq_true hdigit
    have hquote : digitValue quote = 16 := rfl
    omega

/-- `Reads text bytes rest`: the text up to `rest` stands for some bytes; it has no fewer characters
than bytes, and no quote. -/
def Reads (text bytes rest : List UInt8) : Prop :=
  ∃ taken, text = taken ++ rest ∧ bytes.length ≤ taken.length ∧ quote ∉ taken

variable {text bytes rest : List UInt8}

/-- A numeric sequence takes at least one digit for its byte, and no quote. -/
theorem reads_of_numeric {base limit : Nat} (hbase : base ≤ 16)
    (hnumeric : numeric base limit text = some (bytes, rest)) : Reads text bytes rest := by
  obtain ⟨happend, hquote⟩ := readDigits_spec hbase limit text
  rw [numeric] at hnumeric
  split at hnumeric
  · rename_i hdigits
    cases hnumeric
    exact ⟨_, happend.symm, List.length_pos_iff.mpr hdigits.1, hquote⟩
  · cases hnumeric

/-- A universal character name takes four digits or more, and a character has four bytes or less. -/
theorem reads_of_universal {count : Nat} (hcount : 4 ≤ count)
    (huniversal : universal count text = some (bytes, rest)) : Reads text bytes rest := by
  obtain ⟨happend, hquote⟩ := readDigits_spec (le_refl 16) count text
  rw [universal] at huniversal
  split at huniversal
  · rename_i hdigits
    cases huniversal
    refine ⟨_, happend.symm, ?_, hquote⟩
    rw [String.length_utf8EncodeChar, hdigits.1]
    exact (Char.utf8Size_le_four _).trans hcount
  · cases huniversal

/-- The character in front of digits, when it is not a quote, is read as well. -/
theorem Reads.cons {c : UInt8} (h : Reads text bytes rest) (hc : c ≠ quote) :
    Reads (c :: text) bytes rest := by
  obtain ⟨taken, htext, hlength, hquote⟩ := h
  refine ⟨c :: taken, by rw [htext, List.cons_append], hlength.trans (Nat.le_succ _), ?_⟩
  exact List.not_mem_cons_of_ne_of_not_mem hc.symm hquote

/-- A character that is not a quote may be read for a byte or for nothing. -/
theorem reads_cons {c : UInt8} (hc : c ≠ quote) (hbytes : bytes.length ≤ 1) :
    Reads (c :: rest) bytes rest :=
  ⟨[c], rfl, hbytes, List.not_mem_cons_of_ne_of_not_mem hc.symm List.not_mem_nil⟩

/-- **What an escape sequence takes**: no fewer characters than it stands for, and no quote unless
it is the sequence of the quote. -/
theorem escape_spec (hescape : escape text = some (bytes, rest)) :
    Reads text bytes rest ∨ text = quote :: rest ∧ bytes = [quote] := by
  cases text with
  | nil => cases hescape
  | cons c text =>
      by_cases hquote : c = quote
      · subst hquote
        cases hescape
        exact .inr ⟨rfl, rfl⟩
      -- the escapes in the order of the reader: simple, hexadecimal, universal of four and of eight
      -- digits, octal, and any other character
      refine .inl ?_
      rw [escape] at hescape
      split at hescape
      · cases hescape
        exact reads_cons hquote (Nat.zero_le 1)
      split at hescape
      · exact (reads_of_numeric (le_refl 16) hescape).cons hquote
      split at hescape
      · exact (reads_of_universal (le_refl 4) hescape).cons hquote
      split at hescape
      · exact (reads_of_universal (show 4 ≤ 8 by decide) hescape).cons hquote
      split at hescape
      · exact reads_of_numeric (show 8 ≤ 16 by decide) hescape
      · cases hescape
        exact reads_cons hquote (le_refl 1)

/-- An escape sequence leaves no more text than there was; a sequence with no character behind the
backslash is none. -/
theorem length_le_of_escape (hescape : escape text = some (bytes, rest)) :
    rest.length ≤ text.length := by
  obtain ⟨taken, rfl, -, -⟩ | ⟨rfl, -⟩ := escape_spec hescape
  · rw [List.length_append]
    exact Nat.le_add_left _ _
  · exact Nat.le_succ _

/-! ## Literals -/

/-- A **literal**, from the character behind its opening quote on: the bytes, and the text behind
the closing quote. A literal ends on its line. -/
def stringBody : (text : List UInt8) → Option (List UInt8 × List UInt8)
  | [] => none
  | c :: text =>
      if c = quote then some ([], text)
      else if c = newline then none
      else if c = backslash then
        match _hescape : escape text with
        | none => none
        | some (bytes, rest) => (stringBody rest).map fun r => (bytes ++ r.1, r.2)
      else (stringBody text).map fun r => (c :: r.1, r.2)
termination_by text => text.length
decreasing_by
  · exact Nat.lt_succ_of_le (length_le_of_escape _hescape)
  · exact Nat.lt_succ_self _

/-- A quote closes the literal, which ends there without a byte. -/
theorem stringBody_quote : stringBody (quote :: text) = some ([], text) := by
  rw [stringBody, if_pos rfl]

/-- The end of the line ends the text without a literal: it is an error of the program. -/
theorem stringBody_newline : stringBody (newline :: text) = none := by
  rw [stringBody, if_neg (by decide), if_pos rfl]

/-- A backslash starts an escape sequence; the literal goes on behind the sequence. -/
theorem stringBody_backslash :
    stringBody (backslash :: text)
      = (escape text).bind fun e => (stringBody e.2).map fun r => (e.1 ++ r.1, r.2) := by
  rw [stringBody, if_neg (by decide), if_neg (by decide), if_pos rfl]
  split
  · rename_i hescape
    rw [hescape, Option.bind_none]
  · rename_i hescape
    rw [hescape, Option.bind_some]

/-- Another character stands for itself, and the literal goes on behind it. -/
theorem stringBody_cons {c : UInt8} (hquote : c ≠ quote) (hnewline : c ≠ newline)
    (hbackslash : c ≠ backslash) :
    stringBody (c :: text) = (stringBody text).map fun r => (c :: r.1, r.2) := by
  rw [stringBody, if_neg hquote, if_neg hnewline, if_neg hbackslash]

/-- A literal takes its closing quote at least, so that the text behind it is shorter. -/
theorem length_lt_of_stringBody (hbody : stringBody text = some (bytes, rest)) :
    rest.length < text.length := by
  induction hlength : text.length using Nat.strong_induction_on generalizing text bytes with
  | _ length ih =>
      subst hlength
      cases text with
      | nil =>
          rw [stringBody] at hbody
          cases hbody
      | cons c text =>
          rw [List.length_cons]
          -- the cases of the reader: the closing quote, the end of a line, an escape, a character
          by_cases hquote : c = quote
          · rw [hquote, stringBody_quote] at hbody
            cases hbody
            exact Nat.lt_succ_self _
          by_cases hnewline : c = newline
          · rw [hnewline, stringBody_newline] at hbody
            cases hbody
          by_cases hbackslash : c = backslash
          · rw [hbackslash, stringBody_backslash] at hbody
            obtain ⟨⟨taken, left⟩, hescape, hleft⟩ := Option.bind_eq_some_iff.mp hbody
            obtain ⟨⟨more, rest'⟩, hmore, hrest⟩ := Option.map_eq_some_iff.mp hleft
            cases hrest
            have hle := length_le_of_escape hescape
            have hlt := ih left.length (Nat.lt_succ_of_le hle) hmore rfl
            exact hlt.trans (Nat.lt_succ_of_le hle)
          · rw [stringBody_cons hquote hnewline hbackslash] at hbody
            obtain ⟨⟨more, rest'⟩, hmore, hrest⟩ := Option.map_eq_some_iff.mp hbody
            cases hrest
            exact (ih text.length (Nat.lt_succ_self _) hmore rfl).trans (Nat.lt_succ_self _)

/-- The text behind the white space at its start: blanks, tabs and ends of lines are passed over
(`isSpace`). -/
def skipSpace (text : List UInt8) : List UInt8 := text.dropWhile isSpace

/-- **A literal with those that follow it**, from the character behind the first opening quote on:
the bytes of all, and the text behind the last closing quote. -/
def stringLiterals (text : List UInt8) : Option (List UInt8 × List UInt8) :=
  match _hbody : stringBody text with
  | none => none
  | some (bytes, rest) =>
      match _hnext : skipSpace rest with
      | [] => some (bytes, rest)
      | c :: next =>
          if c = quote then (stringLiterals next).map fun r => (bytes ++ r.1, r.2)
          else some (bytes, rest)
termination_by text.length
decreasing_by
  have hskip : (skipSpace rest).length ≤ rest.length := List.length_dropWhile_le _ _
  rw [_hnext, List.length_cons] at hskip
  have hlt := length_lt_of_stringBody _hbody
  omega

/-- Where the first text is no literal, there are none: `stringLiterals text = none`. -/
theorem stringLiterals_of_none (hbody : stringBody text = none) : stringLiterals text = none := by
  rw [stringLiterals]
  split
  · rfl
  · rename_i hsome
    rw [hbody] at hsome
    cases hsome

/-- A literal that another one follows, with white space between them, is one literal with it: their
bytes are joined. -/
theorem stringLiterals_of_next {next : List UInt8} (hbody : stringBody text = some (bytes, rest))
    (hnext : skipSpace rest = quote :: next) :
    stringLiterals text = (stringLiterals next).map fun r => (bytes ++ r.1, r.2) := by
  rw [stringLiterals]
  split
  · rename_i hnone
    rw [hbody] at hnone
    cases hnone
  · rename_i bytes' rest' hsome
    rw [hbody] at hsome
    cases hsome
    split
    · rename_i hnil
      rw [hnext] at hnil
      cases hnil
    · rename_i c next' hcons
      rw [hnext] at hcons
      cases hcons
      rw [if_pos rfl]

/-- The last literal, behind whose white space no quote stands, ends the sequence. -/
theorem stringLiterals_of_last (hbody : stringBody text = some (bytes, rest))
    (hlast : ∀ next, skipSpace rest ≠ quote :: next) :
    stringLiterals text = some (bytes, rest) := by
  rw [stringLiterals]
  split
  · rename_i hnone
    rw [hbody] at hnone
    cases hnone
  · rename_i bytes' rest' hsome
    rw [hbody] at hsome
    cases hsome
    split
    · rfl
    · rename_i c next hcons
      rw [if_neg]
      rintro rfl
      exact hlast next hcons

/-! ## Text between two quotes -/

variable {w back : List UInt8}

/-- **Plain text**, without a quote, a backslash and the end of a line, is the body of a literal as
it stands. -/
theorem stringBody_plain (hquote : quote ∉ w) (hbackslash : backslash ∉ w) (hline : newline ∉ w) :
    stringBody (w ++ quote :: back) = some (w, back) := by
  induction w with
  | nil => exact stringBody_quote
  | cons c w ih =>
      obtain ⟨hc, hw⟩ := List.ne_and_not_mem_of_not_mem_cons hquote
      obtain ⟨hc', hw'⟩ := List.ne_and_not_mem_of_not_mem_cons hbackslash
      obtain ⟨hc'', hw''⟩ := List.ne_and_not_mem_of_not_mem_cons hline
      rw [List.cons_append, stringBody_cons hc.symm hc''.symm hc'.symm, ih hw hw' hw'',
        Option.map_some]

/-- **A text without a quote and a backslash means itself**, when no other literal follows the one
that it is put into. -/
theorem stringLiterals_plain (hquote : quote ∉ w) (hbackslash : backslash ∉ w)
    (hline : newline ∉ w) (hlast : ∀ next, skipSpace back ≠ quote :: next) :
    stringLiterals (w ++ quote :: back) = some (w, back) :=
  stringLiterals_of_last (stringBody_plain hquote hbackslash hline) hlast

/-- A quote or a backslash stands in the text, so that a literal is not what was put between its
quotes. -/
def Special (w : List UInt8) : Prop := quote ∈ w ∨ backslash ∈ w

/-- What ends before the first quote behind a text ends within the text: `w = taken ++ w'` for the
part that is left. -/
theorem exists_of_append_quote {taken : List UInt8} (happend : w ++ quote :: back = taken ++ rest)
    (hnone : quote ∉ taken) : ∃ w', w = taken ++ w' ∧ rest = w' ++ quote :: back := by
  obtain ⟨beyond, htaken, hback⟩ | ⟨w', hw, hrest⟩ := List.append_eq_append_iff.mp happend
  · cases beyond with
    | nil => exact ⟨[], by rw [htaken, List.append_nil, List.append_nil], hback.symm⟩
    | cons c beyond =>
        cases hback
        refine absurd ?_ hnone
        rw [htaken]
        exact List.mem_append_right w List.mem_cons_self
  · exact ⟨w', hw, hrest⟩

/-- An escape sequence in a text ends within the text, or it is the backslash at the end, which
takes the quote behind the text. -/
theorem escape_spliced (hescape : escape (w ++ quote :: back) = some (bytes, rest)) :
    (∃ w', rest = w' ++ quote :: back ∧ w' <:+ w ∧ bytes.length + w'.length ≤ w.length) ∨
      rest = back := by
  obtain ⟨taken, htext, hle, hnone⟩ | ⟨htext, rfl⟩ := escape_spec hescape
  · obtain ⟨w', rfl, hrest⟩ := exists_of_append_quote htext hnone
    refine .inl ⟨w', hrest, List.suffix_append taken w', ?_⟩
    rw [List.length_append]
    exact Nat.add_le_add_right hle _
  · cases w with
    | nil =>
        cases htext
        exact .inr rfl
    | cons c w' =>
        cases htext
        refine .inl ⟨w', rfl, List.suffix_cons _ _, ?_⟩
        rw [List.length_singleton, List.length_cons, Nat.add_comm]

/-- A literal that starts with a text and a quote ends at that quote, and is then shorter than the
text unless the text is plain; or it ends within the text. -/
theorem stringBody_spliced (hline : newline ∉ w) (hopen : stringBody back = none)
    (hbody : stringBody (w ++ quote :: back) = some (bytes, rest)) :
    (rest = back ∧ bytes.length ≤ w.length ∧ (Special w → bytes.length < w.length)) ∨
      ∃ w', rest = w' ++ quote :: back ∧ w' <:+ w ∧ bytes.length + w'.length < w.length := by
  induction hlength : w.length using Nat.strong_induction_on generalizing w bytes with
  | _ length ih =>
      subst hlength
      cases w with
      | nil =>
          rw [List.nil_append, stringBody_quote] at hbody
          cases hbody
          refine .inl ⟨rfl, le_refl 0, ?_⟩
          rintro (hmem | hmem)
          · cases hmem
          · cases hmem
      | cons c w =>
          obtain ⟨hc, hw⟩ := List.ne_and_not_mem_of_not_mem_cons hline
          rw [List.cons_append] at hbody
          by_cases hquote : c = quote
          · rw [hquote, stringBody_quote] at hbody
            cases hbody
            refine .inr ⟨w, rfl, List.suffix_cons c w, ?_⟩
            rw [List.length_nil, Nat.zero_add]
            exact Nat.lt_succ_self _
          by_cases hbackslash : c = backslash
          · rw [hbackslash, stringBody_backslash] at hbody
            obtain ⟨⟨first, left⟩, hescape, hleft⟩ := Option.bind_eq_some_iff.mp hbody
            obtain ⟨⟨more, rest'⟩, hmore, hrest⟩ := Option.map_eq_some_iff.mp hleft
            cases hrest
            obtain ⟨w', rfl, hsuffix, hle⟩ | rfl := escape_spliced hescape
            · have hline' : newline ∉ w' := fun hmem => hw (hsuffix.mem hmem)
              have hshorter : w'.length < (c :: w).length := Nat.lt_succ_of_le hsuffix.length_le
              obtain ⟨hback, hle', -⟩ | ⟨w'', hrest, hsuffix', hlt⟩ :=
                ih w'.length hshorter hline' hmore rfl
              · refine .inl ⟨hback, ?_, ?_⟩ <;> simp only [List.length_append, List.length_cons]
                · omega
                · omega
              · refine .inr ⟨w'', hrest, (hsuffix'.trans hsuffix).trans (List.suffix_cons c w), ?_⟩
                simp only [List.length_append, List.length_cons]
                omega
            · -- the literal goes on behind the quote, and does not end there
              rw [hopen] at hmore
              cases hmore
          · rw [stringBody_cons hquote hc.symm hbackslash] at hbody
            obtain ⟨⟨more, rest'⟩, hmore, hrest⟩ := Option.map_eq_some_iff.mp hbody
            cases hrest
            obtain ⟨hback, hle, hlt⟩ | ⟨w', hrest, hsuffix, hlt⟩ :=
              ih w.length (Nat.lt_succ_self _) hw hmore rfl
            · refine .inl ⟨hback, Nat.succ_le_succ hle, ?_⟩
              rintro (hmem | hmem)
              · exact Nat.succ_lt_succ (hlt (.inl (List.mem_of_ne_of_mem (Ne.symm hquote) hmem)))
              · exact Nat.succ_lt_succ
                  (hlt (.inr (List.mem_of_ne_of_mem (Ne.symm hbackslash) hmem)))
            · refine .inr ⟨w', hrest, hsuffix.trans (List.suffix_cons c w), ?_⟩
              simp only [List.length_cons]
              omega

/-- White space in a text that a quote follows ends within the text, before that quote at the
latest. -/
theorem skipSpace_append_quote (w back : List UInt8) :
    ∃ w', skipSpace (w ++ quote :: back) = w' ++ quote :: back ∧ w' <:+ w := by
  induction w with
  | nil => exact ⟨[], rfl, List.suffix_refl []⟩
  | cons c w ih =>
      obtain ⟨w', hskip, hsuffix⟩ := ih
      by_cases hspace : isSpace c = true
      · refine ⟨w', ?_, hsuffix.trans (List.suffix_cons c w)⟩
        rw [skipSpace, List.cons_append, List.dropWhile_cons_of_pos hspace]
        exact hskip
      · refine ⟨c :: w, ?_, List.suffix_refl _⟩
        rw [skipSpace, List.cons_append, List.dropWhile_cons_of_neg hspace]

/-- **A text that is not plain** is read as something shorter, or the literals end within it. The
induction is on the length of the text, since a closing quote in it may be followed by another
literal. -/
theorem stringLiterals_spliced (hline : newline ∉ w) (hopen : stringBody back = none)
    (hlast : ∀ next, skipSpace back ≠ quote :: next)
    (hliterals : stringLiterals (w ++ quote :: back) = some (bytes, rest)) :
    (rest = back ∧ bytes.length ≤ w.length ∧ (Special w → bytes.length < w.length)) ∨
      ∃ w', w' ≠ [] ∧ rest = w' ++ quote :: back ∧ w' <:+ w := by
  induction hlength : w.length using Nat.strong_induction_on generalizing w bytes with
  | _ length ih =>
      subst hlength
      cases hbody : stringBody (w ++ quote :: back) with
      | none =>
          rw [stringLiterals_of_none hbody] at hliterals
          cases hliterals
      | some r =>
          obtain ⟨first, left⟩ := r
          obtain ⟨rfl, hle, hlt⟩ | ⟨w', rfl, hsuffix, hlt⟩ := stringBody_spliced hline hopen hbody
          · rw [stringLiterals_of_last hbody hlast] at hliterals
            cases hliterals
            exact .inl ⟨rfl, hle, hlt⟩
          obtain ⟨w'', hskip, hsuffix'⟩ := skipSpace_append_quote w' back
          by_cases hnext : ∃ next, skipSpace (w' ++ quote :: back) = quote :: next
          · obtain ⟨next, hnext⟩ := hnext
            rw [stringLiterals_of_next hbody hnext] at hliterals
            obtain ⟨⟨more, rest'⟩, hmore, hrest⟩ := Option.map_eq_some_iff.mp hliterals
            cases hrest
            rw [hskip] at hnext
            cases w'' with
            | nil =>
                -- the quote behind the text opens a literal, which does not end
                cases hnext
                rw [stringLiterals_of_none hopen] at hmore
                cases hmore
            | cons c next =>
                cases hnext
                have htail : next <:+ w :=
                  ((List.suffix_cons quote next).trans hsuffix').trans hsuffix
                have hline' : newline ∉ next := fun hmem => hline (htail.mem hmem)
                have hle' := hsuffix'.length_le
                rw [List.length_cons] at hle'
                obtain ⟨hback, hle, -⟩ | ⟨w₃, hne, hrest, hsuffix₃⟩ :=
                  ih next.length (by omega) hline' hmore rfl
                · refine .inl ⟨hback, ?_, ?_⟩ <;> simp only [List.length_append]
                  · omega
                  · omega
                · exact .inr ⟨w₃, hne, hrest, hsuffix₃.trans htail⟩
          · rw [stringLiterals_of_last hbody fun next h => hnext ⟨next, h⟩] at hliterals
            cases hliterals
            refine .inr ⟨w', ?_, rfl, hsuffix⟩
            rintro rfl
            exact hnext ⟨back, rfl⟩

end CLiteral

end IecCore
