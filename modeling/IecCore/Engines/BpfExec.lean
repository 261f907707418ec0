import IecCore.Utils.Helpers

/-! # Filtering the source code of the BPF program

`BPFExecutor::filterSourceCode` puts the addresses and the svID in place of the placeholders of a
template. It goes over the whole text once for each placeholder, always over what the last pass has
left. A pass may find a key that an earlier one has made; the addresses are such that none does.

* **`SourceCodeFormater`**, **`BPFExecutor`** — the source code and its edits.
* **`filterSourceCode`** — the passes, and the two edits that are made without an svID.
* **`placeholders ifaceMac srcMac svID`** — what each placeholder stands for.
* **`filterSourceCode_passes`** — three passes, one on the result of the other.
* **`IsMacLiteral`** — what is asked of an address: it starts as a hexadecimal number, and has no
  percent sign.
* **`filterSourceCode_eq_substitute`** — the passes are one substitution of all placeholders. -/

namespace IecCore

open Utils

/-- A formater of source code, `bpf::SourceCodeFormater`, which holds the text that it edits. -/
structure SourceCodeFormater where
  /-- The source code, with the edits made so far. -/
  sourceCode : Text
  deriving DecidableEq, Repr

namespace SourceCodeFormater

/-- Get the current source code, with the edits made so far, which is what the program is built
from. -/
def getSourceCode (formater : SourceCodeFormater) : Text := formater.sourceCode

/-- Replace all occurrences of a string in the source code; none when this does not end. -/
def replace (formater : SourceCodeFormater) (match' replace' : Text) :
    Option SourceCodeFormater := do
  return { sourceCode := ← replaceAll formater.sourceCode match' replace' }

/-- Remove all occurrences of a string in the source code; none when that does not end. -/
def remove (formater : SourceCodeFormater) (match' : Text) : Option SourceCodeFormater := do
  return { sourceCode := ← removeAll formater.sourceCode match' }

end SourceCodeFormater

/-- The executor of a BPF program, without what is outside of the source code. -/
structure BPFExecutor where
  /-- The program, read from its file by the constructor. -/
  bpfProg : SourceCodeFormater
  deriving DecidableEq, Repr

namespace BPFExecutor

/-- The declaration that is replaced when there is no svID to compare with. -/
def svReplacement1 : Text := text "char cmp_str[] = \"%SV_ID\";"

/-- The check that is removed when there is no svID, with the lines around it. -/
def svReplacement2 : Text :=
  text "\n        if (sizeof(cmp_str) != length)\n            return false;\n    "

/-- **Filter the source code** of the program: the two addresses, and the svID or what is made
without one. Each edit is made on the result of the one before. -/
def filterSourceCode (readFile : Text → Text) (executor : BPFExecutor)
    (ifaceName srcMac svID : Text) : Option BPFExecutor := do
  let ifaceMac ← getMacByIfaceName readFile ifaceName
  let bpfProg ← executor.bpfProg.replace (text "%IFACE_MAC") ifaceMac
  let bpfProg ← bpfProg.replace (text "%SRC_MAC") srcMac
  if svID ≠ [] then
    let bpfProg ← bpfProg.replace (text "%SV_ID") svID
    return { bpfProg }
  else
    -- without an svID, the declaration is edited and the check of its size removed
    let bpfProg ← bpfProg.replace svReplacement1 (text "char const *cmp_str = str;")
    let bpfProg ← bpfProg.remove svReplacement2
    return { bpfProg }

/-! ## The placeholders -/

theorem ifaceMacKey_ne : text "%IFACE_MAC" ≠ [] := by decide

theorem srcMacKey_ne : text "%SRC_MAC" ≠ [] := by decide

theorem svIdKey_ne : text "%SV_ID" ≠ [] := by decide

/-- `%IFACE_MAC` and what it stands for, the address of the interface. -/
def ifaceMacPlaceholder (ifaceMac : Text) : Replacement UInt8 where
  key := text "%IFACE_MAC"
  value := ifaceMac
  key_ne := ifaceMacKey_ne

/-- `%SRC_MAC` and what it stands for, the address of the sender. -/
def srcMacPlaceholder (srcMac : Text) : Replacement UInt8 where
  key := text "%SRC_MAC"
  value := srcMac
  key_ne := srcMacKey_ne

/-- `%SV_ID` and what it stands for, the svID as the user has given it. -/
def svIdPlaceholder (svID : Text) : Replacement UInt8 where
  key := text "%SV_ID"
  value := svID
  key_ne := svIdKey_ne

/-- **The placeholders** and what they stand for, in the order of the passes. -/
def placeholders (ifaceMac srcMac svID : Text) : List (Replacement UInt8) :=
  [ifaceMacPlaceholder ifaceMac, srcMacPlaceholder srcMac, svIdPlaceholder svID]

/-- The mark that placeholders start with, a percent sign: `%IFACE_MAC`, `%SRC_MAC` and `%SV_ID`. -/
def percent : UInt8 := 0x25

/-- `%IFACE_MAC` has the mark only at its start: `Marked percent` of its key. -/
theorem marked_ifaceMacPlaceholder (ifaceMac : Text) :
    Marked percent (ifaceMacPlaceholder ifaceMac).key := ⟨text "IFACE_MAC", rfl, by decide⟩

/-- `%SRC_MAC` has the mark only at its start: `Marked percent` of its key. -/
theorem marked_srcMacPlaceholder (srcMac : Text) :
    Marked percent (srcMacPlaceholder srcMac).key := ⟨text "SRC_MAC", rfl, by decide⟩

/-- `%SV_ID` has the mark only at its start: `Marked percent` of its key. -/
theorem marked_svIdPlaceholder (svID : Text) :
    Marked percent (svIdPlaceholder svID).key := ⟨text "SV_ID", rfl, by decide⟩

/-! ## The passes -/

/-- A pass is a substitution of one placeholder: it ends, and does not look at what it has put
in. -/
theorem replace_eq_substitute (formater : SourceCodeFormater) (r : Replacement UInt8) :
    formater.replace r.key r.value = some { sourceCode := substitute [r] formater.sourceCode } := by
  rw [SourceCodeFormater.replace, replaceAll_eq_substitute]
  rfl

/-- The three passes, one on the result of the other, when there is an svID. -/
theorem filterSourceCode_passes {readFile : Text → Text} (executor : BPFExecutor)
    {ifaceName ifaceMac : Text} (hiface : getMacByIfaceName readFile ifaceName = some ifaceMac)
    (srcMac : Text) {svID : Text} (hsvID : svID ≠ []) :
    filterSourceCode readFile executor ifaceName srcMac svID
      = some ⟨⟨substitute [svIdPlaceholder svID] (substitute [srcMacPlaceholder srcMac]
          (substitute [ifaceMacPlaceholder ifaceMac] executor.bpfProg.sourceCode))⟩⟩ := by
  have hfirst (f : SourceCodeFormater) : f.replace (text "%IFACE_MAC") ifaceMac = _ :=
    replace_eq_substitute f (ifaceMacPlaceholder ifaceMac)
  have hsecond (f : SourceCodeFormater) : f.replace (text "%SRC_MAC") srcMac = _ :=
    replace_eq_substitute f (srcMacPlaceholder srcMac)
  have hthird (f : SourceCodeFormater) : f.replace (text "%SV_ID") svID = _ :=
    replace_eq_substitute f (svIdPlaceholder svID)
  rw [filterSourceCode, hiface]
  simp only [Option.bind_eq_bind, Option.bind_some, hfirst, hsecond, if_pos hsvID, hthird]
  rfl

/-- A **literal of an address**: hexadecimal notation, and no mark of a placeholder. -/
structure IsMacLiteral (literal : Text) : Prop where
  /-- It starts as a hexadecimal number. -/
  hexadecimal : text "0x" <+: literal
  /-- It holds no percent sign. -/
  unmarked : percent ∉ literal

/-- An address starts with a digit, which completes no key without it. -/
theorem IsMacLiteral.exists_cons {literal key : Text} (h : IsMacLiteral literal)
    (hkey : 0x30 ∉ key) : ∃ c value, literal = c :: value ∧ c ∉ key := by
  obtain ⟨value, hvalue⟩ := h.hexadecimal
  exact ⟨0x30, 0x78 :: value, hvalue.symm, hkey⟩

/-- **Filtering is one substitution**: with literals for the addresses and any svID, the passes
leave what one pass from left to right makes of the template when it puts each value in the place of
its placeholder. -/
theorem filterSourceCode_eq_substitute (readFile : Text → Text) (executor : BPFExecutor)
    {ifaceName ifaceMac srcMac svID : Text}
    (hiface : getMacByIfaceName readFile ifaceName = some ifaceMac)
    (hifaceMac : IsMacLiteral ifaceMac) (hsrcMac : IsMacLiteral srcMac) (hsvID : svID ≠ []) :
    (filterSourceCode readFile executor ifaceName srcMac svID).map (·.bpfProg.getSourceCode)
      = some (substitute (placeholders ifaceMac srcMac svID)
          executor.bpfProg.getSourceCode) := by
  have hiface' := marked_ifaceMacPlaceholder ifaceMac
  have hsrc' := marked_srcMacPlaceholder srcMac
  have hsv' := marked_svIdPlaceholder svID
  have hsrcKey : 0x30 ∉ text "%SRC_MAC" := by decide
  have hsvKey : 0x30 ∉ text "%SV_ID" := by decide
  -- what a pass puts in holds no mark, and ends no key that the text before it begins
  have htwo : ∀ source, substitute [srcMacPlaceholder srcMac]
      (substitute [ifaceMacPlaceholder ifaceMac] source)
        = substitute [ifaceMacPlaceholder ifaceMac, srcMacPlaceholder srcMac] source := by
    refine substitute_append_singleton ?_ hsrc' ?_ ?_
    · exact List.forall_mem_singleton.mpr hiface'
    · exact List.forall_mem_singleton.mpr hifaceMac.unmarked
    · exact List.forall_mem_singleton.mpr (hifaceMac.exists_cons hsrcKey)
  -- the svID may hold marks, but no pass follows it
  have hthree : ∀ source, substitute [svIdPlaceholder svID]
      (substitute [ifaceMacPlaceholder ifaceMac, srcMacPlaceholder srcMac] source)
        = substitute (placeholders ifaceMac srcMac svID) source := by
    refine substitute_append_singleton ?_ hsv' ?_ ?_
    · exact List.forall_mem_cons.mpr ⟨hiface', List.forall_mem_singleton.mpr hsrc'⟩
    · exact List.forall_mem_cons.mpr
        ⟨hifaceMac.unmarked, List.forall_mem_singleton.mpr hsrcMac.unmarked⟩
    · exact List.forall_mem_cons.mpr ⟨hifaceMac.exists_cons hsvKey,
        List.forall_mem_singleton.mpr (hsrcMac.exists_cons hsvKey)⟩
  rw [filterSourceCode_passes executor hiface srcMac hsvID, htwo, hthree]
  rfl

/-- The file with the address of an interface, the same for each of them. -/
def addressFile (_ : Text) : Text := text "52:54:00:12:34:56\n"

/-- A template with every placeholder, and a percent sign in front of one. -/
def shortTemplate : BPFExecutor where
  bpfProg := { sourceCode := text "%SRC_MAC != %IFACE_MAC, %%SV_ID%" }

theorem ifaceMac_isMacLiteral : IsMacLiteral (text "0x525400123456") where
  hexadecimal := by decide
  unmarked := by decide

theorem srcMac_isMacLiteral : IsMacLiteral (text "0x0cefaf3042cc") where
  hexadecimal := by decide
  unmarked := by decide

/-- An svID that is made of placeholders is put in as it is: the pass for it is the last one. -/
theorem filterSourceCode_eq_substitute_nested :
    (filterSourceCode addressFile shortTemplate (text "eth0") (text "0x0cefaf3042cc")
        (text "%SRC_MAC%SV_ID")).map (·.bpfProg.getSourceCode)
      = some (substitute (placeholders (text "0x525400123456") (text "0x0cefaf3042cc")
          (text "%SRC_MAC%SV_ID")) shortTemplate.bpfProg.getSourceCode) :=
  filterSourceCode_eq_substitute addressFile shortTemplate
    (show getMacByIfaceName addressFile (text "eth0") = some (text "0x525400123456") by
      decide +kernel)
    ifaceMac_isMacLiteral srcMac_isMacLiteral (by decide)

/-- The result of that one pass. -/
example : substitute (placeholders (text "0x525400123456") (text "0x0cefaf3042cc")
    (text "%SRC_MAC%SV_ID")) shortTemplate.bpfProg.getSourceCode
      = text "0x0cefaf3042cc != 0x525400123456, %%SRC_MAC%SV_ID%" := by decide +kernel

end BPFExecutor

end IecCore
