import IecCore.Bpf.EthernetParse
import IecCore.Bpf.Template

/-! # The comparison in the generated program

Filtering puts the svID between the quotes of a string literal as it is given, and the compiler
reads the literal by the rules of C. A program whose `SvIdCmp` is no longer the shipped text around
one array is taken for no comparison: it does not compile, or does something else.

* **`svIdCmpOf source`** — the comparison of a program, with the array that its literal makes.
* **`ComparesWith svID source`** — a program whose comparison is the one with an svID.
* **`comparesWith_of_plain`** — a plain svID is compared with, character by character.
* **`svIdCmpBody_not_start`** — what a quote leaves of the svID is not the rest of `SvIdCmp`.
* **`comparesWith_generated_iff`** — the generated program compares with the svID when that has
  neither a quote nor a backslash, and only then; **`backslash_svId_missed`** is one that has. -/

namespace IecCore

namespace Bpf

open Utils CLiteral BPFExecutor

/-! ## What a program compares with -/

/-- The **comparison of a program**: the text up to the literal and from behind it on is as shipped,
and the array has the characters of the literal. -/
def svIdCmpOf (source : Text) :
    Option ((skb : List UInt8) → (offset length : Nat) → Option Bool) := do
  if svIdCmpHead <+: source then
    let (cmpStr, rest) ← stringLiterals (source.drop svIdCmpHead.length)
    if svIdCmpBody <+: rest then
      return svIdCmp cmpStr
    else
      none
  else
    none

/-- The program **compares with** the svID: the result is true when the length is right and the
bytes from the offset on are its characters. -/
def ComparesWith (svID source : Text) : Prop :=
  ∃ cmp, svIdCmpOf source = some cmp ∧ ∀ skb offset length,
    cmp skb offset length = some true ↔ length = svID.length ∧ svID <+: skb.drop offset

variable {svID rest : Text}

/-- The comparison of a program with a text between the quotes, by what is read of the literal. -/
theorem svIdCmpOf_program (literal rest : Text) :
    svIdCmpOf (program literal rest)
      = (stringLiterals (literal ++ quote :: (svIdCmpBody ++ rest))).bind fun r =>
          if svIdCmpBody <+: r.2 then some (svIdCmp r.1) else none := by
  have hstart : svIdCmpHead <+: program literal rest := List.prefix_append _ _
  rw [svIdCmpOf, if_pos hstart, program, List.drop_left]
  rfl

/-- `SvIdCmp` goes on with a semicolon at the end of the line, right behind the literal. -/
theorem svIdCmpBody_eq : svIdCmpBody = 0x3b :: newline :: lines bodyLines.tail := rfl

/-- The text behind the literal is the body of no other, since it has a line break before the next
quote. -/
theorem stringBody_svIdCmpBody (rest : Text) : stringBody (svIdCmpBody ++ rest) = none := by
  rw [svIdCmpBody_eq, List.cons_append, stringBody_cons (by decide) (by decide) (by decide),
    List.cons_append, stringBody_newline, Option.map_none]

/-- No other literal follows, which would be joined with the first. -/
theorem skipSpace_svIdCmpBody (rest next : Text) :
    skipSpace (svIdCmpBody ++ rest) ≠ quote :: next := by
  have hspace : ¬isSpace 0x3b = true := by decide
  rw [svIdCmpBody_eq, List.cons_append, skipSpace, List.dropWhile_cons_of_neg hspace]
  intro h
  exact absurd (List.cons.inj h).1 (by decide)

/-- The comparison is false for another length, before any character is looked at. -/
theorem length_eq_of_svIdCmp {cmpStr skb : List UInt8} {offset length : Nat}
    (hcmp : svIdCmp cmpStr skb offset length = some true) : cmpStr.length = length := by
  by_contra hne
  rw [svIdCmp, if_pos hne] at hcmp
  cases hcmp

/-! ## The generated program -/

/-- A text of **visible** ASCII characters: no control character, no line break, nothing above
`~`. -/
def Visible (svID : Text) : Prop := ∀ c ∈ svID, 0x20 ≤ c.toNat ∧ c.toNat ≤ 0x7e

instance (svID : Text) : Decidable (Visible svID) :=
  inferInstanceAs (Decidable (∀ c ∈ svID, 0x20 ≤ c.toNat ∧ c.toNat ≤ 0x7e))

/-- Visible characters are on one line, so that the literal ends on it. -/
theorem Visible.newline_not_mem (hvisible : Visible svID) : newline ∉ svID := by
  intro hmem
  have hline : newline.toNat = 0x0a := rfl
  have hle := (hvisible newline hmem).1
  omega

/-- **A plain svID** is compared with: the literal makes the array of its characters. -/
theorem comparesWith_of_plain (hvisible : Visible svID) (hplain : ¬Special svID) :
    ComparesWith svID (program svID rest) := by
  obtain ⟨hquote, hbackslash⟩ := not_or.mp hplain
  have hliterals : stringLiterals (svID ++ quote :: (svIdCmpBody ++ rest))
      = some (svID, svIdCmpBody ++ rest) :=
    stringLiterals_plain hquote hbackslash hvisible.newline_not_mem (skipSpace_svIdCmpBody rest)
  have hascii : ∀ c ∈ svID, c.toNat < 128 := by
    intro c hc
    have hle := (hvisible c hc).2
    omega
  refine ⟨svIdCmp svID, ?_, ?_⟩
  · rw [svIdCmpOf_program, hliterals, Option.bind_some, if_pos (List.prefix_append _ _)]
  · intro skb offset length
    rw [svIdCmp_iff hascii, eq_comm]

/-- What is left of an svID in front of the quote is not the rest of `SvIdCmp`. -/
theorem svIdCmpBody_not_start {w' : Text} (hne : w' ≠ []) (hline : newline ∉ w') :
    ¬svIdCmpBody <+: w' ++ quote :: (svIdCmpBody ++ rest) := by
  intro hstart
  rw [svIdCmpBody_eq] at hstart
  cases w' with
  | nil => exact hne rfl
  | cons c w' =>
      have hsecond := (List.cons_prefix_cons.mp hstart).2
      cases w' with
      | nil => exact absurd (List.cons_prefix_cons.mp hsecond).1 (by decide)
      | cons c' w' =>
          obtain rfl : newline = c' := (List.cons_prefix_cons.mp hsecond).1
          exact hline (List.mem_cons_of_mem c List.mem_cons_self)

/-- **An svID with a quote or a backslash** is not compared with: the array is shorter, or the
program is not the shipped one. -/
theorem not_comparesWith_of_special (hvisible : Visible svID) (hspecial : Special svID) :
    ¬ComparesWith svID (program svID rest) := by
  rintro ⟨cmp, hcmp, hspec⟩
  rw [svIdCmpOf_program] at hcmp
  obtain ⟨⟨cmpStr, left⟩, hliterals, hreturn⟩ := Option.bind_eq_some_iff.mp hcmp
  have hline := hvisible.newline_not_mem
  obtain ⟨-, -, hshorter⟩ | ⟨w', hne, rfl, hsuffix⟩ :=
    stringLiterals_spliced hline (stringBody_svIdCmpBody rest) (skipSpace_svIdCmpBody rest)
      hliterals
  · -- a frame that is the svID shows the difference
    have htrue := (hspec svID 0 svID.length).mpr ⟨rfl, List.prefix_refl svID⟩
    split at hreturn
    · cases hreturn
      exact absurd (length_eq_of_svIdCmp htrue) (hshorter hspecial).ne
    · cases hreturn
  · rw [if_neg (svIdCmpBody_not_start hne fun hmem => hline (hsuffix.mem hmem))] at hreturn
    cases hreturn

/-- **The generated comparison**: the program that filtering makes of the shipped template compares
with the svID, whatever the addresses are, exactly when the svID has neither a quote nor a
backslash. -/
theorem comparesWith_generated_iff (readFile : Text → Text) (ifaceName srcMac : Text) {svID : Text}
    (hvisible : Visible svID) (hlength : 10 ≤ svID.length ∧ svID.length ≤ 34) :
    ∃ executor, filterSourceCode readFile shipped ifaceName srcMac svID = some executor ∧
      (ComparesWith svID executor.bpfProg.getSourceCode ↔ quote ∉ svID ∧ backslash ∉ svID) := by
  have hsvID : svID ≠ [] := List.length_pos_iff.mp (by omega)
  obtain ⟨rest, hgenerated⟩ := filterSourceCode_shipped readFile ifaceName srcMac hsvID
  refine ⟨⟨⟨program svID rest⟩⟩, hgenerated, ?_⟩
  rw [← not_or]
  constructor
  · intro hcompares hspecial
    exact not_comparesWith_of_special hvisible hspecial hcompares
  · intro hplain
    exact comparesWith_of_plain hvisible hplain

/-- An svID of a merging unit: letters and digits, neither a quote nor a backslash. -/
theorem comparesWith_generated_iff_pointMU :
    ∃ executor, filterSourceCode addressFile shipped (text "eth0") (text "0x0cefaf3042cc")
        (text "ENS80pointMU01") = some executor ∧
      (ComparesWith (text "ENS80pointMU01") executor.bpfProg.getSourceCode ↔
        quote ∉ text "ENS80pointMU01" ∧ backslash ∉ text "ENS80pointMU01") :=
  comparesWith_generated_iff addressFile (text "eth0") (text "0x0cefaf3042cc") (by decide +kernel)
    (by decide)

/-- **A backslash in the svID**: ten visible characters, which the program does not compare with. -/
theorem backslash_svId_missed :
    Visible (text "MU\\test_01") ∧ (text "MU\\test_01").length = 10 ∧
      ∃ executor, filterSourceCode addressFile shipped (text "eth0") (text "0x0cefaf3042cc")
          (text "MU\\test_01") = some executor ∧
        ¬ComparesWith (text "MU\\test_01") executor.bpfProg.getSourceCode := by
  have hvisible : Visible (text "MU\\test_01") := by decide +kernel
  obtain ⟨rest, hgenerated⟩ := filterSourceCode_shipped addressFile (text "eth0")
    (text "0x0cefaf3042cc") (show text "MU\\test_01" ≠ [] by decide)
  refine ⟨hvisible, by decide, _, hgenerated, ?_⟩
  exact not_comparesWith_of_special hvisible (.inr (by decide))

/-- The compiler reads a tab, and nine characters. -/
example : stringLiterals (text "MU\\test_01\";") = some (text "MU\test_01", text ";") := by
  decide +kernel

end Bpf

end IecCore
