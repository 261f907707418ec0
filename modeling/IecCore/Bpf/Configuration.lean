import IecCore.Bpf.GeneratedComparison
import IecCore.Utils.MacAddress

/-! # From the configuration to the kept frames

The user gives the name of an interface, the address of the sender and an svID; the program reads the
template and the address of the interface from files, generates the source code of the filter and
hands it over to the compiler. A generated program is taken for the filter when it is the shipped text
around a literal and two constants.

* **`filterWith ifaceMac srcMac`**, **`generated`** — the filter with two texts in the places of the
  addresses, and the program for them and an svID.
* **`placeholdersOf`** — the values of a program with hexadecimal constants for the addresses; other
  spellings of the addresses are not read.
* **`filterSourceCode_generated`** — filtering makes this program of the template, pass by pass:
  `substitute_ifaceMac`, `substitute_srcMac`, `substitute_svId`.
* **`placeholdersOf_generated`** — the values of this program.
* **`filterSourceCode_filter_iff`** — for addresses of `0x` and digits, it is the filter exactly when
  both have a digit and fit an integer type.
* **`configured_keep_iff`** — the frames that the configured filter keeps. -/

namespace IecCore

namespace BPFExecutor

open Utils

/-- The executor of the program in a file, before it is filtered. -/
def ofFile (files : Files) (programPath : Text) : BPFExecutor where
  bpfProg := { sourceCode := readFile files programPath }

end BPFExecutor

namespace Bpf

open Utils CLiteral BPFExecutor

/-! ## The program -/

/-- The filter up to the address of the interface, `u64 ifaceMac = `. -/
def filterHead : Text := lines (filterLines.take 21) ++ text "    u64 ifaceMac = "

/-- The filter from there up to the address of the sender, `u64 specMac = `. -/
def filterMiddle : Text :=
  text ";\n" ++ lines ((filterLines.drop 22).take 8) ++ text "    u64 specMac = "

/-- The rest of the filter, behind the address of the sender, in which no placeholder is left. -/
def filterTail : Text := text ";\n" ++ lines (filterLines.drop 31)

/-- The filter with two texts in the places of the addresses: `filterSource` is one such text, with
the placeholders themselves. -/
def filterWith (ifaceMac srcMac : Text) : Text :=
  filterHead ++ (ifaceMac ++ (filterMiddle ++ (srcMac ++ filterTail)))

/-- **The program** for two texts of addresses and an svID: the template with all three of them put
in. -/
def generated (ifaceMac srcMac svID : Text) : Text := program svID (filterWith ifaceMac srcMac)

/-- The places of the addresses are two lines of the filter, and the placeholders stand in them. -/
theorem filterSource_eq :
    filterSource = filterWith (text "%IFACE_MAC") (text "%SRC_MAC") := by
  have hsplit : filterLines = filterLines.take 21 ++ (["    u64 ifaceMac = %IFACE_MAC;"] ++
      ((filterLines.drop 22).take 8 ++
        (["    u64 specMac = %SRC_MAC;"] ++ filterLines.drop 31))) := rfl
  have hiface : lines ["    u64 ifaceMac = %IFACE_MAC;"]
      = text "    u64 ifaceMac = " ++ (text "%IFACE_MAC" ++ text ";\n") := rfl
  have hsrc : lines ["    u64 specMac = %SRC_MAC;"]
      = text "    u64 specMac = " ++ (text "%SRC_MAC" ++ text ";\n") := rfl
  have hlines (ls ls' : List String) : lines (ls ++ ls') = lines ls ++ lines ls' :=
    List.flatMap_append
  rw [filterSource, hsplit, hlines, hlines, hlines, hlines, hiface, hsrc, filterWith, filterHead,
    filterMiddle, filterTail]
  simp only [List.append_assoc]

/-- The text behind a front, when it begins with that; none when it begins with something else. -/
def behind (front source : Text) : Option Text :=
  if front <+: source then some (source.drop front.length) else none

/-- The two addresses, from the first of them on; none when something else follows, or when one of
them is no hexadecimal constant as `hexConstant` reads it. -/
def addressesOf (source : Text) : Option (Nat × Nat) := do
  let (ifaceMac, rest) ← hexConstant source
  let (srcMac, rest) ← hexConstant (← behind filterMiddle rest)
  if rest = filterTail then
    return (ifaceMac, srcMac)
  else
    none

/-- **The values of a program**: `placeholdersOf source = some values` says that `source` is the
shipped text around a literal and two hexadecimal constants, and that a compiler reads `values` from
these. It is none for every other program, also for one that a compiler would translate to the same
filter, such as one with an address in decimal or with a suffix. -/
def placeholdersOf (source : Text) : Option Placeholders := do
  let (svId, rest) ← stringLiterals (← behind svIdCmpHead source)
  let (ifaceMac, srcMac) ← addressesOf (← behind (svIdCmpBody ++ filterHead) rest)
  return { ifaceMac := UInt64.ofNat ifaceMac, srcMac := UInt64.ofNat srcMac, svId }

/-! ## Filtering the template -/

theorem percent_not_mem_filterHead : percent ∉ filterHead := by decide +kernel

theorem percent_not_mem_filterMiddle : percent ∉ filterMiddle := by decide +kernel

/-- No key occurs in the rest of the filter, which has marks of its own. -/
theorem firstOccurrence_filterTail :
    ∀ key ∈ [text "%IFACE_MAC", text "%SRC_MAC", text "%SV_ID"],
      firstOccurrence key filterTail = none := by decide +kernel

/-- The pass of the interface puts its address into the filter, and leaves `%SRC_MAC` where it
is. -/
theorem substitute_ifaceMac (ifaceMac : Text) :
    substitute [ifaceMacPlaceholder ifaceMac] filterSource
      = filterWith ifaceMac (text "%SRC_MAC") := by
  have hkeys : ∀ s ∈ [ifaceMacPlaceholder ifaceMac], Marked percent s.key :=
    List.forall_mem_singleton.mpr (marked_ifaceMacPlaceholder ifaceMac)
  have hstands : substitute [ifaceMacPlaceholder ifaceMac]
      (text "%IFACE_MAC" ++ (filterMiddle ++ (text "%SRC_MAC" ++ filterTail))) = _ :=
    substitute_of_match (matchAt_singleton_append _)
  -- the key of the sender begins with another letter
  have hother : matchAt [ifaceMacPlaceholder ifaceMac] (text "%SRC_MAC" ++ filterTail) = none :=
    matchAt_singleton_eq_none fun h => absurd
      (List.cons_prefix_cons.mp (List.cons_prefix_cons.mp h).2).1 (by decide)
  have hname : percent ∉ text "SRC_MAC" := by decide
  have hrest : substitute [ifaceMacPlaceholder ifaceMac] filterTail = filterTail :=
    substitute_of_firstOccurrence (firstOccurrence_filterTail _ List.mem_cons_self)
  have hsplit : text "%SRC_MAC" ++ filterTail = percent :: (text "SRC_MAC" ++ filterTail) := rfl
  rw [hsplit] at hother
  rw [filterSource_eq, filterWith, substitute_append_of_not_mem hkeys percent_not_mem_filterHead,
    hstands, substitute_append_of_not_mem hkeys percent_not_mem_filterMiddle, hsplit,
    substitute_cons hother, substitute_append_of_not_mem hkeys hname, hrest]
  rfl

/-- The filter up to the address of the sender has no mark, so that a pass goes over it. -/
theorem substitute_filterWith {r : Replacement UInt8} (hkey : Marked percent r.key)
    {ifaceMac : Text} (hifaceMac : percent ∉ ifaceMac) (srcMac : Text) :
    substitute [r] (filterWith ifaceMac srcMac)
      = filterHead ++ (ifaceMac ++ (filterMiddle ++ substitute [r] (srcMac ++ filterTail))) := by
  have hkeys : ∀ s ∈ [r], Marked percent s.key := List.forall_mem_singleton.mpr hkey
  rw [filterWith, substitute_append_of_not_mem hkeys percent_not_mem_filterHead,
    substitute_append_of_not_mem hkeys hifaceMac,
    substitute_append_of_not_mem hkeys percent_not_mem_filterMiddle]

/-- The pass of the sender puts its address into the filter, when the address of the interface has
no percent sign. -/
theorem substitute_srcMac {ifaceMac : Text} (hifaceMac : percent ∉ ifaceMac) (srcMac : Text) :
    substitute [srcMacPlaceholder srcMac] (filterWith ifaceMac (text "%SRC_MAC"))
      = filterWith ifaceMac srcMac := by
  have hstands : substitute [srcMacPlaceholder srcMac] (text "%SRC_MAC" ++ filterTail) = _ :=
    substitute_of_match (matchAt_singleton_append filterTail)
  have hrest : substitute [srcMacPlaceholder srcMac] filterTail = filterTail :=
    substitute_of_firstOccurrence
      (firstOccurrence_filterTail _ (List.mem_cons_of_mem _ List.mem_cons_self))
  rw [substitute_filterWith (marked_srcMacPlaceholder srcMac) hifaceMac, hstands, hrest]
  rfl

/-- The pass of the svID leaves the filter as it is: no key of it is there. -/
theorem substitute_svId {ifaceMac srcMac : Text} (hifaceMac : percent ∉ ifaceMac)
    (hsrcMac : percent ∉ srcMac) (svID : Text) :
    substitute [svIdPlaceholder svID] (filterWith ifaceMac srcMac) = filterWith ifaceMac srcMac := by
  have hkey := marked_svIdPlaceholder svID
  have hrest : substitute [svIdPlaceholder svID] filterTail = filterTail :=
    substitute_of_firstOccurrence
      (firstOccurrence_filterTail _
        (List.mem_cons_of_mem _ (List.mem_cons_of_mem _ List.mem_cons_self)))
  rw [substitute_filterWith hkey hifaceMac,
    substitute_append_of_not_mem (List.forall_mem_singleton.mpr hkey) hsrcMac, hrest]
  rfl

/-- The placeholders of the addresses are not that of the svID, wherever this stands. -/
theorem not_svIdKey {key : Text} (hkey : key = text "%IFACE_MAC" ∨ key = text "%SRC_MAC")
    (rest : Text) : ¬key <+: text "%SV_ID" ++ rest := by
  intro hstart
  -- one of the two would start with the other
  have hstarts := List.prefix_or_prefix_of_prefix hstart (List.prefix_append (text "%SV_ID") rest)
  obtain rfl | rfl := hkey
  · exact absurd hstarts (by decide)
  · exact absurd hstarts (by decide)

/-- **Filtering the template** makes the program, when the addresses have no percent sign. -/
theorem filterSourceCode_generated {readFile : Text → Text} {ifaceName ifaceMac srcMac svID : Text}
    (hiface : getMacByIfaceName readFile ifaceName = some ifaceMac) (hifaceMac : percent ∉ ifaceMac)
    (hsrcMac : percent ∉ srcMac) (hsvID : svID ≠ []) :
    filterSourceCode readFile shipped ifaceName srcMac svID
      = some ⟨⟨generated ifaceMac srcMac svID⟩⟩ := by
  have hsource : shipped.bpfProg.sourceCode = program (text "%SV_ID") filterSource := rfl
  rw [filterSourceCode_passes shipped hiface srcMac hsvID, hsource,
    substitute_program_of_ne (marked_ifaceMacPlaceholder ifaceMac) (not_svIdKey (.inl rfl)),
    substitute_ifaceMac,
    substitute_program_of_ne (marked_srcMacPlaceholder srcMac) (not_svIdKey (.inr rfl)),
    substitute_srcMac hifaceMac, substitute_program_svId, substitute_svId hifaceMac hsrcMac,
    generated]

/-! ## The values of the program -/

@[simp] theorem behind_append (front back : Text) : behind front (front ++ back) = some back := by
  rw [behind, if_pos (List.prefix_append front back), List.drop_left]

/-- A text behind a front: both together are the source, `source = front ++ back`. -/
theorem eq_append_of_behind {front source back : Text} (h : behind front source = some back) :
    source = front ++ back := by
  obtain ⟨⟨back', rfl⟩, hdrop⟩ := Option.ite_none_right_eq_some.mp h
  rw [List.drop_left] at hdrop
  rw [Option.some.inj hdrop]

/-- A constant is made of digits and an `x`, so that no other character is in it. -/
theorem not_mem_of_hexConstant {c x : UInt8} {digits : Text} (hc : isWord c = false)
    (hx : x = 0x78 ∨ x = 0x58) (hdigits : IsDigits digits) : c ∉ 0x30 :: x :: digits := by
  intro hmem
  have hword : ∀ d ∈ 0x30 :: x :: digits, isWord d = true := by
    refine List.forall_mem_cons.mpr ⟨by decide, List.forall_mem_cons.mpr ⟨?_, ?_⟩⟩
    · obtain rfl | rfl := hx
      · decide
      · decide
    · exact fun d hd => isWord_of_digit (hdigits d hd)
  rw [hword c hmem] at hc
  cases hc

/-- **The addresses** are read when each of the two texts is a constant, with nothing behind it. -/
theorem addressesOf_iff {ifaceMac srcMac : Text} {i s : Nat} :
    addressesOf (ifaceMac ++ (filterMiddle ++ (srcMac ++ filterTail))) = some (i, s) ↔
      hexConstant ifaceMac = some (i, []) ∧ hexConstant srcMac = some (s, []) := by
  have htail : goesOn filterTail = false := rfl
  have hmiddle (rest : Text) : goesOn (filterMiddle ++ rest) = false := rfl
  constructor
  · intro h
    obtain ⟨⟨i', rest⟩, hiface, h⟩ := Option.bind_eq_some_iff.mp h
    obtain ⟨back, hbehind, h⟩ := Option.bind_eq_some_iff.mp h
    obtain ⟨⟨s', rest'⟩, hsrc, h⟩ := Option.bind_eq_some_iff.mp h
    obtain ⟨hrest', hpair⟩ := Option.ite_none_right_eq_some.mp h
    cases hpair
    subst hrest'
    have hsplit := eq_append_of_behind hbehind
    subst hsplit
    obtain ⟨x, digits, hx, htext, hne, hdigits, -, hi⟩ := hexConstant_eq_some_iff.mp hiface
    obtain ⟨x', digits', hx', htext', hne', hdigits', -, hs⟩ := hexConstant_eq_some_iff.mp hsrc
    -- the same texts, with the constants that were read around the middle
    have hsame : ifaceMac ++ (filterMiddle ++ srcMac)
        = 0x30 :: x :: digits ++ (filterMiddle ++ (0x30 :: x' :: digits')) := by
      refine (List.append_left_inj filterTail).mp ?_
      rw [htext'] at htext
      simpa only [List.append_assoc, List.cons_append] using htext
    have hfirst : filterMiddle.head? = some 0x3b := rfl
    have hlast : filterMiddle.getLast? = some 0x20 := by
      have hspace : (text "    u64 specMac = ").getLast? = some 0x20 := rfl
      rw [filterMiddle, List.getLast?_append, hspace, Option.some_or]
    obtain ⟨rfl, rfl⟩ := append_separator_inj hfirst hlast
      (not_mem_of_hexConstant (by decide) hx hdigits)
      (not_mem_of_hexConstant (by decide) hx' hdigits') hsame
    exact ⟨hexConstant_eq_some_iff.mpr
        ⟨x, digits, hx, by rw [List.append_nil], hne, hdigits, rfl, hi⟩,
      hexConstant_eq_some_iff.mpr
        ⟨x', digits', hx', by rw [List.append_nil], hne', hdigits', rfl, hs⟩⟩
  · rintro ⟨hiface, hsrc⟩
    exact Option.bind_eq_some_iff.mpr ⟨_, (hexConstant_append_iff (hmiddle _)).mpr hiface,
      Option.bind_eq_some_iff.mpr ⟨_, behind_append filterMiddle _,
        Option.bind_eq_some_iff.mpr ⟨_, (hexConstant_append_iff htail).mpr hsrc, if_pos rfl⟩⟩⟩

/-- A program is read in three parts: its front, the literal, and the filter behind it. -/
theorem placeholdersOf_eq {source literal rest svID addresses : Text}
    (hhead : behind svIdCmpHead source = some literal)
    (hliterals : stringLiterals literal = some (svID, rest))
    (hbody : behind (svIdCmpBody ++ filterHead) rest = some addresses) :
    placeholdersOf source = (addressesOf addresses).map fun a =>
      { ifaceMac := UInt64.ofNat a.1, srcMac := UInt64.ofNat a.2, svId := svID } := by
  rw [placeholdersOf, hhead]
  simp only [Option.bind_eq_bind, Option.bind_some, hliterals, hbody]
  cases addressesOf addresses with
  | none => rfl
  | some a => rfl

/-- **The generated program is the filter** with the svID and the values of the addresses, when both
of these are constants; otherwise it is none. -/
theorem placeholdersOf_generated {ifaceMac srcMac svID : Text} (hvisible : Visible svID)
    (hplain : ¬Special svID) {values : Placeholders} :
    placeholdersOf (generated ifaceMac srcMac svID) = some values ↔
      ∃ i s, hexConstant ifaceMac = some (i, []) ∧ hexConstant srcMac = some (s, []) ∧
        values = { ifaceMac := UInt64.ofNat i, srcMac := UInt64.ofNat s, svId := svID } := by
  obtain ⟨hquote, hbackslash⟩ := not_or.mp hplain
  -- a plain svID is one literal, and the filter stands behind it
  have hliterals : stringLiterals (svID ++ quote :: (svIdCmpBody ++ filterWith ifaceMac srcMac))
      = some (svID, svIdCmpBody ++ filterWith ifaceMac srcMac) :=
    stringLiterals_plain hquote hbackslash hvisible.newline_not_mem (skipSpace_svIdCmpBody _)
  have hbehind : behind (svIdCmpBody ++ filterHead) (svIdCmpBody ++ filterWith ifaceMac srcMac)
      = some (ifaceMac ++ (filterMiddle ++ (srcMac ++ filterTail))) := by
    rw [filterWith, ← List.append_assoc, behind_append]
  have hreads := placeholdersOf_eq (behind_append svIdCmpHead _) hliterals hbehind
  rw [generated, program, hreads, Option.map_eq_some_iff]
  constructor
  · rintro ⟨⟨i, s⟩, haddresses, rfl⟩
    obtain ⟨hiface, hsrc⟩ := addressesOf_iff.mp haddresses
    exact ⟨i, s, hiface, hsrc, rfl⟩
  · rintro ⟨i, s, hiface, hsrc, rfl⟩
    exact ⟨(i, s), addressesOf_iff.mpr ⟨hiface, hsrc⟩, rfl⟩

/-! ## From the files to the filter -/

/-- The file with the template, as the constructor of the engine names it. -/
def programPath : Text := text "bpf/ethernet-parse.c"

/-- The executor of the shipped file is `shipped`: the file holds the template, and is read
whole. -/
theorem ofFile_shipped {files : Files} (hprogram : files (cString programPath) = some template) :
    ofFile files programPath = shipped := by
  rw [ofFile, readFile_of_some hprogram]
  rfl

/-- `0x` and digits have no mark of a placeholder: `percent ∉ hexStart ++ digits`. -/
theorem percent_not_mem_digits {digits : Text} (hdigits : IsDigits digits) :
    percent ∉ hexStart ++ digits :=
  List.not_mem_append (by decide) fun hmem => absurd (hdigits percent hmem) (by decide)

/-- The program that is made of the shipped file, and the values that `placeholdersOf` reads from
it. -/
theorem filterSourceCode_values {files : Files}
    (hprogram : files (cString programPath) = some template) {ifaceName ifaceMac srcMac svID : Text}
    (hiface : getMacByIfaceName (readFile files) ifaceName = some ifaceMac)
    (hifaceMac : percent ∉ ifaceMac) (hsrcMac : percent ∉ srcMac) (hne : svID ≠ [])
    (hvisible : Visible svID) (hplain : ¬Special svID) :
    ∃ executor, filterSourceCode (readFile files) (ofFile files programPath) ifaceName srcMac svID
        = some executor ∧
      ∀ values, placeholdersOf executor.bpfProg.getSourceCode = some values ↔
        ∃ i s, hexConstant ifaceMac = some (i, []) ∧ hexConstant srcMac = some (s, []) ∧
          values = { ifaceMac := UInt64.ofNat i, srcMac := UInt64.ofNat s, svId := svID } := by
  rw [ofFile_shipped hprogram]
  exact ⟨_, filterSourceCode_generated hiface hifaceMac hsrcMac hne,
    fun values => placeholdersOf_generated hvisible hplain⟩

/-- **Filtering the shipped file** for an interface and a sender whose addresses are given as `0x` and
hexadecimal digits, possibly none: the generated program is the filter with the svID and the two
addresses exactly when both have a digit and fit an integer type, and then their numbers are the
values. -/
theorem filterSourceCode_filter_iff {files : Files}
    (hprogram : files (cString programPath) = some template) {ifaceName : Text}
    {ifaceDigits srcDigits svID : Text} (hifaceDigits : IsDigits ifaceDigits)
    (hiface : getMacByIfaceName (readFile files) ifaceName = some (hexStart ++ ifaceDigits))
    (hsrcDigits : IsDigits srcDigits) (hne : svID ≠ []) (hvisible : Visible svID)
    (hplain : ¬Special svID) :
    ∃ executor, filterSourceCode (readFile files) (ofFile files programPath) ifaceName
        (hexStart ++ srcDigits) svID = some executor ∧
      ∀ values, placeholdersOf executor.bpfProg.getSourceCode = some values ↔
        (ifaceDigits ≠ [] ∧ number 16 ifaceDigits < integerLimit) ∧
        (srcDigits ≠ [] ∧ number 16 srcDigits < integerLimit) ∧
        values = { ifaceMac := UInt64.ofNat (number 16 ifaceDigits)
                   srcMac := UInt64.ofNat (number 16 srcDigits)
                   svId := svID } := by
  obtain ⟨executor, hfilter, hvalues⟩ := filterSourceCode_values hprogram hiface
    (percent_not_mem_digits hifaceDigits) (percent_not_mem_digits hsrcDigits) hne hvisible hplain
  refine ⟨executor, hfilter, fun values => (hvalues values).trans ?_⟩
  -- a text of `0x` and digits is a constant when it has digits and its value fits
  simp only [hexConstant_digits_iff hifaceDigits, hexConstant_digits_iff hsrcDigits]
  constructor
  · rintro ⟨i, s, ⟨hiface, hismall, rfl⟩, ⟨hsrc, hssmall, rfl⟩, rfl⟩
    exact ⟨⟨hiface, hismall⟩, ⟨hsrc, hssmall⟩, rfl⟩
  · rintro ⟨⟨hiface, hismall⟩, ⟨hsrc, hssmall⟩, rfl⟩
    exact ⟨_, _, ⟨hiface, hismall, rfl⟩, ⟨hsrc, hssmall, rfl⟩, rfl⟩

/-- The files of a host with the template and one interface, `eth0`, whose address can be read. -/
def hostFiles : Files := fun path =>
  if path = programPath then some template
  else if path = addressFilepath (text "eth0") then some (text "52:54:00:12:34:56\n")
  else none

theorem hostFiles_program : hostFiles (cString programPath) = some template := by
  have hpath : cString programPath = programPath := rfl
  rw [hpath, hostFiles, if_pos rfl]

theorem hostFiles_address :
    hostFiles (cString (addressFilepath (text "eth0")))
      = some (addressText [0x52, 0x54, 0x00, 0x12, 0x34, 0x56]) := by
  have hpath : cString (addressFilepath (text "eth0")) = addressFilepath (text "eth0") := rfl
  have hother : addressFilepath (text "eth0") ≠ programPath := by decide
  rw [hpath, hostFiles, if_neg hother, if_pos rfl]
  rfl

/-- The interface `eth1` has no file, and its address is `0x` without a digit. -/
theorem getMacByIfaceName_eth1 :
    getMacByIfaceName (readFile hostFiles) (text "eth1") = some hexStart := by
  have hpath : cString (addressFilepath (text "eth1")) = addressFilepath (text "eth1") := rfl
  have hread : readFile hostFiles (addressFilepath (text "eth1")) = [] := by
    rw [readFile, hpath, hostFiles, if_neg (by decide), if_neg (by decide)]
  rw [getMacByIfaceName, if_pos (by decide)]
  dsimp only
  rw [← addressFilepath, hread]
  rfl

/-- An interface without a file: its address is `0x` without a digit, and the program is no
filter. -/
theorem filterSourceCode_filter_iff_eth1 :
    ∃ executor, filterSourceCode (readFile hostFiles) (ofFile hostFiles programPath) (text "eth1")
        (hexStart ++ text "0cefaf3042cc") (text "ENS80pointMU01") = some executor ∧
      ∀ values, placeholdersOf executor.bpfProg.getSourceCode = some values ↔
        (([] : Text) ≠ [] ∧ number 16 [] < integerLimit) ∧
        (text "0cefaf3042cc" ≠ [] ∧ number 16 (text "0cefaf3042cc") < integerLimit) ∧
        values = { ifaceMac := UInt64.ofNat (number 16 [])
                   srcMac := UInt64.ofNat (number 16 (text "0cefaf3042cc"))
                   svId := text "ENS80pointMU01" } := by
  have hiface : getMacByIfaceName (readFile hostFiles) (text "eth1") = some (hexStart ++ []) :=
    getMacByIfaceName_eth1
  have hnone : IsDigits [] := fun c hc => absurd hc List.not_mem_nil
  have hdigits : IsDigits (text "0cefaf3042cc") := by decide +kernel
  exact filterSourceCode_filter_iff hostFiles_program hnone hiface hdigits (by decide)
    (by decide +kernel) (not_or.mpr ⟨by decide, by decide⟩)

/-- The source of a frame is an address when its six bytes are those of the number. -/
theorem source_eq_iff {skb : List UInt8} (hlong : 12 ≤ skb.length) {n : Nat} (hn : n < 256 ^ 6) :
    UInt64.ofNat n = UInt64.ofNat (fieldAt skb 6 6) ↔ (skb.drop 6).take 6 = beBytes 6 n := by
  have hfield := fieldAt_lt skb 6 6
  have hsize : UInt64.size = 256 ^ 8 := rfl
  have hinside : 6 + 6 ≤ skb.length := hlong
  have hbytes : (skb.drop 6).take 6 = beBytes 6 (fieldAt skb 6 6) := by
    rw [drop_eq_beBytes_fieldAt hinside, List.take_left' (length_beBytes 6 _)]
  have hround (m : Nat) (hm : m < 256 ^ 6) : beNat (beBytes 6 m) = m := by
    rw [beNat_beBytes, Nat.mod_eq_of_lt hm]
  rw [hbytes, ← UInt64.toNat_inj, UInt64.toNat_ofNat_of_lt' (by omega),
    UInt64.toNat_ofNat_of_lt' (by omega)]
  constructor
  · intro h
    rw [h]
  · intro h
    rw [← hround n hn, ← h, hround _ hfield]

/-- A frame with an svID is long enough for a source: its first twelve bytes are there. -/
theorem length_of_stands {skb svID : List UInt8} {offset : Nat}
    (hoffset : svIdLengthOffset skb = some offset)
    (hstands : UInt8.ofNat svID.length :: svID <+: skb.drop offset) : 12 ≤ skb.length := by
  have hle := le_svIdLengthOffset hoffset
  have hlength := hstands.length_le
  rw [List.length_cons, List.length_drop] at hlength
  omega

/-- The address that digits write, six bytes of it: the first two digits are its first byte. -/
def macOf (digits : Text) : List UInt8 := beBytes 6 (number 16 digits)

/-- The values of the program for an interface, a sender and an svID. -/
def configured (ifaceAddress : List UInt8) (digits svID : Text) : Placeholders where
  ifaceMac := UInt64.ofNat (beNat ifaceAddress)
  srcMac := UInt64.ofNat (number 16 digits)
  svId := svID

/-- The number that twelve digits write is an address: `number 16 digits < 256 ^ 6`. -/
theorem number_lt_address {digits : Text} (hdigits : IsDigits digits) (htwelve : digits.length = 12) :
    number 16 digits < 256 ^ 6 := by
  have hlt := number_lt hdigits
  rwa [htwelve] at hlt

/-- **The generated program** when the file of the interface has its address and the sender's address
has twelve digits. -/
theorem filterSourceCode_configured {files : Files}
    (hprogram : files (cString programPath) = some template) {ifaceName : Text}
    (hname : ifaceName ≠ []) {ifaceAddress : List UInt8} (haddress : ifaceAddress.length = 6)
    (hfile : files (cString (addressFilepath ifaceName)) = some (addressText ifaceAddress))
    {digits : Text} (hdigits : IsDigits digits) (htwelve : digits.length = 12) {svID : Text}
    (hvisible : Visible svID) (hplain : ¬Special svID) (hne : svID ≠ []) :
    ∃ executor, filterSourceCode (readFile files) (ofFile files programPath) ifaceName
        (hexStart ++ digits) svID = some executor ∧
      placeholdersOf executor.bpfProg.getSourceCode = some (configured ifaceAddress digits svID) := by
  have hifaceDigits := isDigits_hexBytes false ifaceAddress
  obtain ⟨executor, hfilter, hvalues⟩ := filterSourceCode_values hprogram
    (getMacByIfaceName_addressText hname hfile) (percent_not_mem_digits hifaceDigits)
    (percent_not_mem_digits hdigits) hne hvisible hplain
  -- the two constants
  have hown : beNat ifaceAddress < 256 ^ 6 := haddress ▸ beNat_lt ifaceAddress
  have hifaceConstant : hexConstant (hexStart ++ hexBytes false ifaceAddress)
      = some (beNat ifaceAddress, []) := by
    rw [← number_hexBytes false ifaceAddress] at hown ⊢
    refine (hexConstant_digits_iff hifaceDigits).mpr ⟨?_, hown.trans (by decide), rfl⟩
    refine List.ne_nil_of_length_pos ?_
    rw [length_hexBytes]
    omega
  have hsrcConstant : hexConstant (hexStart ++ digits) = some (number 16 digits, []) :=
    (hexConstant_digits_iff hdigits).mpr ⟨List.ne_nil_of_length_pos (by omega),
      (number_lt_address hdigits htwelve).trans (by decide), rfl⟩
  exact ⟨executor, hfilter, (hvalues _).mpr ⟨_, _, hifaceConstant, hsrcConstant, rfl⟩⟩

/-- What the configured filter looks for: the type, the source and the svID at its place. -/
theorem keep_configured_iff {ifaceAddress : List UInt8} (haddress : ifaceAddress.length = 6)
    {digits : Text} (hdigits : IsDigits digits) (htwelve : digits.length = 12) {svID : Text}
    (hvisible : Visible svID) (hsmall : svID.length < 256) {skb : List UInt8} :
    iec61850Filter (configured ifaceAddress digits svID) skb = keep ↔
      (u16At skb 12 = iecProto ∨ u16At skb 12 = svEthertype) ∧
      (skb.drop 6).take 6 = macOf digits ∧ macOf digits ≠ ifaceAddress ∧
      ∃ offset, svIdLengthOffset skb = some offset ∧
        UInt8.ofNat svID.length :: svID <+: skb.drop offset := by
  have hnumber := number_lt_address hdigits htwelve
  have hown : beNat ifaceAddress < 256 ^ 6 := haddress ▸ beNat_lt ifaceAddress
  -- numbers of six bytes and addresses are the same
  have hownBytes : beBytes 6 (beNat ifaceAddress) = ifaceAddress :=
    haddress ▸ beBytes_beNat ifaceAddress
  have hascii : ∀ c ∈ svID, c.toNat < 128 := by
    intro c hc
    have hle := (hvisible c hc).2
    omega
  rw [iec61850Filter_iff hascii hsmall]
  dsimp only [configured]
  constructor
  · rintro ⟨htype, hnotOwn, hsource, offset, hoffset, hstands⟩
    have hlong : 12 ≤ skb.length := length_of_stands hoffset hstands
    rw [Ne, source_eq_iff hlong hown, hownBytes] at hnotOwn
    rw [source_eq_iff hlong hnumber] at hsource
    exact ⟨htype, hsource, fun h => hnotOwn (hsource.trans h), offset, hoffset, hstands⟩
  · rintro ⟨htype, hsource, hnotOwn, offset, hoffset, hstands⟩
    have hlong : 12 ≤ skb.length := length_of_stands hoffset hstands
    refine ⟨htype, ?_, (source_eq_iff hlong hnumber).mpr hsource, offset, hoffset, hstands⟩
    rw [Ne, source_eq_iff hlong hown, hownBytes, hsource]
    exact hnotOwn

/-- **The configured filter**: when the file of the interface has its address, and the user gives the
sender's address with twelve digits and an svID of visible characters without a quote and a
backslash, then the generated program is a filter that keeps a frame exactly when its type is one of
two, its source is the sender and not the interface, and its svID is the given one. -/
theorem configured_keep_iff {files : Files}
    (hprogram : files (cString programPath) = some template) {ifaceName : Text}
    (hname : ifaceName ≠ []) {ifaceAddress : List UInt8} (haddress : ifaceAddress.length = 6)
    (hfile : files (cString (addressFilepath ifaceName)) = some (addressText ifaceAddress))
    {digits : Text} (hdigits : IsDigits digits) (htwelve : digits.length = 12) {svID : Text}
    (hvisible : Visible svID) (hplain : ¬Special svID)
    (hlength : 1 ≤ svID.length ∧ svID.length < 256) :
    ∃ executor values, filterSourceCode (readFile files) (ofFile files programPath) ifaceName
        (hexStart ++ digits) svID = some executor ∧
      placeholdersOf executor.bpfProg.getSourceCode = some values ∧
      ∀ skb, iec61850Filter values skb = keep ↔
        (u16At skb 12 = iecProto ∨ u16At skb 12 = svEthertype) ∧
        (skb.drop 6).take 6 = macOf digits ∧ macOf digits ≠ ifaceAddress ∧
        ∃ offset, svIdLengthOffset skb = some offset ∧
          UInt8.ofNat svID.length :: svID <+: skb.drop offset := by
  obtain ⟨executor, hfilter, hvalues⟩ := filterSourceCode_configured hprogram hname haddress hfile
    hdigits htwelve hvisible hplain (List.ne_nil_of_length_pos hlength.1)
  exact ⟨executor, _, hfilter, hvalues,
    fun skb => keep_configured_iff haddress hdigits htwelve hvisible hlength.2⟩

/-- The settings of the program, on a host with that interface: an interface `eth0`, an address and
the svID `ENS80pointMU01`. -/
theorem configured_keep_iff_pointMU :
    ∃ executor values, filterSourceCode (readFile hostFiles) (ofFile hostFiles programPath)
        (text "eth0") (hexStart ++ text "0cefaf3042cc") (text "ENS80pointMU01") = some executor ∧
      placeholdersOf executor.bpfProg.getSourceCode = some values ∧
      ∀ skb, iec61850Filter values skb = keep ↔
        (u16At skb 12 = iecProto ∨ u16At skb 12 = svEthertype) ∧
        (skb.drop 6).take 6 = macOf (text "0cefaf3042cc") ∧
        macOf (text "0cefaf3042cc") ≠ [0x52, 0x54, 0x00, 0x12, 0x34, 0x56] ∧
        ∃ offset, svIdLengthOffset skb = some offset ∧
          UInt8.ofNat (text "ENS80pointMU01").length :: text "ENS80pointMU01" <+: skb.drop offset :=
  configured_keep_iff hostFiles_program (by decide) rfl hostFiles_address (by decide +kernel)
    (by decide) (by decide +kernel) (not_or.mpr ⟨by decide, by decide⟩) (by decide)

/-- The sender's address. -/
example : macOf (text "0cefaf3042cc") = [0x0c, 0xef, 0xaf, 0x30, 0x42, 0xcc] := by decide

end Bpf

end IecCore
