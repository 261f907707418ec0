import IecCore.Utils.Buffer

/-! # The kernel filter

`ethernet-parse.c` is a socket filter: a program that runs in the kernel for every frame and says
whether the frame reaches user space. The user program puts two addresses and an svID in place of
its placeholders before it is loaded. Its loads are big-endian, and a load past the end of the frame
ends the program, which drops the frame.

* **`load skb width offset`**, **`field`** — a number in a frame, and a field of a packed header;
  the headers are lists of widths, under the names that they have in the source.
* **`charValue`**, **`svIdCmp`** — the comparison with the svID, whose characters are signed.
* **`iec61850Run`**, **`iec61850Filter`** — the program up to its end or to a load past the end of
  the frame, and its result.
* **`svIdLengthOffset`** — where it looks for the length of the svID, by the first two bytes of the
  PDU.
* **`svIdCmp_iff`**, **`iec61850Filter_iff`** — what the comparison and the program look for in a
  frame; **`iec61850Filter_eq_drop`** — what is not kept is dropped. -/

namespace IecCore

namespace Bpf

/-! ## Loads -/

/-- The number of a width at an offset of a frame; none ends the program. -/
def load (skb : List UInt8) (width offset : Nat) : Option Nat :=
  if offset + width ≤ skb.length then some (fieldAt skb width offset) else none

/-- The layout of a packed header: the widths of its fields, in bytes. -/
abbrev Header := List Nat

/-- The size of a header, `sizeof` in the source: the fields are packed, so their sizes add up. -/
def Header.size (header : Header) : Nat := header.sum

/-- The field of a number in a header that starts at a cursor, as `cursor_advance` leaves it. -/
def field (skb : List UInt8) (header : Header) (cursor number : Nat) : Option Nat :=
  load skb (header.getD number 0) (cursor + (header.take number).sum)

/-! ## Headers -/

/-- `ethernet_t`: the destination, the source and the type, six, six and two bytes. -/
def ethernetT : Header := [6, 6, 2]

/-- `sv_start_t`: the identifier, the length and two reserved words. -/
def svStartT : Header := [2, 2, 2, 2]

/-- `sv_seqASDU_80p`: the tag and the length of the sequence, one byte each. -/
def svSeqASDU80p : Header := [1, 1]

/-- `sv_noASDU_80p`: the tag, the length and the number, followed by the next header. -/
def svNoASDU80p : Header := [1, 1, 1] ++ svSeqASDU80p

/-- `sv_savPDU_80p`: the tag and the length, followed by the next header. -/
def svSavPDU80p : Header := [1, 1] ++ svNoASDU80p

/-- `sv_seqASDU_256p`: the tag, with the first byte of the length, and the rest of the length. -/
def svSeqASDU256p : Header := [2, 2]

/-- `sv_noASDU_256p`: the tag, the length and the number, followed by the next header. -/
def svNoASDU256p : Header := [1, 1, 1] ++ svSeqASDU256p

/-- `sv_savPDU_256p`: the tag, with the first byte of the length, and the rest of the length,
followed by the next header. -/
def svSavPDU256p : Header := [2, 2] ++ svNoASDU256p

/-- `ASDU_start_t`: the tag and the length of an ASDU, and the tag and the length of its svID. -/
def asduStartT : Header := [1, 1, 1, 1]

/-! ## The program -/

/-- `IEC_PROTO`, the type of frames of the protocol, one of the two that the program lets pass. -/
def iecProto : UInt16 := 0x8100

/-- The type of frames with sampled values, the one that `iec61850_filter` looks for. -/
def svEthertype : UInt16 := 0x88BA

/-- The first byte of a PDU with 80 points, its tag. -/
def svPduId80p : UInt16 := 0x60

/-- The first two bytes of a PDU with 256 points: the tag, and a length of two bytes. -/
def svPduId256p : UInt16 := 0x6082

/-- The result that keeps the frame, all of it: minus one. -/
def keep : Int := -1

/-- The result that drops the frame, none of it reaches the socket. -/
def drop : Int := 0

/-- What the user program puts in place of the **placeholders**, as the compiler reads it. -/
structure Placeholders where
  /-- `%IFACE_MAC`, the address of the interface as a number. -/
  ifaceMac : UInt64
  /-- `%SRC_MAC`, the address of the sender as a number. -/
  srcMac : UInt64
  /-- The characters of `%SV_ID`. -/
  svId : List UInt8
  deriving DecidableEq, Repr

/-- A character of a string, as it is compared with a number that was loaded: `char` is signed, and
one above 127 is a large number. -/
def charValue (c : UInt8) : UInt64 := c.toInt8.toInt64.toUInt64

/-- The loop over the characters of the string that are left, from an offset on. -/
def svIdCmpLoop (skb : List UInt8) : (cmpStr : List UInt8) → (offset : Nat) → Option Bool
  | [], _ => return true
  | c :: cmpStr, offset => do
      if UInt64.ofNat (← load skb 1 offset) ≠ charValue c then
        return false
      svIdCmpLoop skb cmpStr (offset + 1)

/-- Compare the bytes of a frame with the svID: the length first, then every character. -/
def svIdCmp (cmpStr skb : List UInt8) (offset length : Nat) : Option Bool := do
  if cmpStr.length ≠ length then
    return false
  svIdCmpLoop skb cmpStr offset

/-- The end of the program, with the first header of an ASDU at a cursor: only the svID is looked
at. -/
def filterSvId (svId skb : List UInt8) (asduHead : Nat) : Option Int := do
  -- Calculating offset and getting length of sample values ID.
  let svIdOffset := asduHead + asduStartT.size
  let svIdLength := UInt8.ofNat (← field skb asduStartT asduHead 3)
  -- Comparing sample values ID.
  let cmp ← svIdCmp svId skb svIdOffset svIdLength.toNat
  if !cmp then
    return drop
  return keep

/-- The program up to its end, or to a load past the end of the frame. -/
def iec61850Run (values : Placeholders) (skb : List UInt8) : Option Int := do
  let ethernet := 0
  let sourceMac := UInt64.ofNat (← field skb ethernetT ethernet 1)
  -- Filter frames with protocol type
  let type := UInt16.ofNat (← field skb ethernetT ethernet 2)
  if type ≠ iecProto ∧ type ≠ svEthertype then
    return drop
  -- Filter frames that socket send
  if values.ifaceMac = sourceMac then
    return drop
  -- Filter frames with specified source MAC address
  if values.srcMac ≠ sourceMac then
    return drop
  let pduIdOffset := ethernetT.size + svStartT.size
  -- Read PDU ID from skb
  let pduId256 := UInt16.ofNat (← load skb 2 pduIdOffset)
  let pduId80 := (pduId256 >>> 8) &&& 0x00FF
  let mut pduSize := 0
  if pduId256 = svPduId256p then
    pduSize := svSavPDU256p.size
  else if pduId80 = svPduId80p then
    pduSize := svSavPDU80p.size
  else
    return drop
  filterSvId values.svId skb (pduIdOffset + pduSize)

/-- **The filter**: a program that is ended by a load drops the frame. -/
def iec61850Filter (values : Placeholders) (skb : List UInt8) : Int :=
  (iec61850Run values skb).getD drop

/-! ## What the program looks for -/

variable {skb : List UInt8}

/-- A load inside the frame is the field of its width: `some (fieldAt skb width offset)` when
`offset + width ≤ skb.length`. -/
theorem load_of_le {width offset : Nat} (hinside : offset + width ≤ skb.length) :
    load skb width offset = some (fieldAt skb width offset) := if_pos hinside

/-- A load past the end of the frame, also one whose first byte is inside. -/
theorem load_of_lt {width offset : Nat} (houtside : skb.length < offset + width) :
    load skb width offset = none := if_neg (Nat.not_le.mpr houtside)

/-- The sign of a character does not matter in ASCII: `charValue c = UInt64.ofNat c.toNat` below
128. -/
theorem charValue_eq {c : UInt8} (hascii : c.toNat < 128) :
    charValue c = UInt64.ofNat c.toNat := by
  have hall : ∀ n < 128, charValue (UInt8.ofNat n) = UInt64.ofNat n := by decide +kernel
  have hvalue := hall c.toNat hascii
  rwa [UInt8.ofNat_toNat] at hvalue

/-- **The loop** ends with true when the characters stand at the offset, all of them inside the
frame. -/
theorem svIdCmpLoop_iff {cmpStr : List UInt8} {offset : Nat}
    (hascii : ∀ c ∈ cmpStr, c.toNat < 128) :
    svIdCmpLoop skb cmpStr offset = some true ↔ cmpStr <+: skb.drop offset := by
  induction cmpStr generalizing offset with
  | nil => exact iff_of_true rfl List.nil_prefix
  | cons c cmpStr ih =>
      obtain ⟨hc, hcs⟩ := List.forall_mem_cons.mp hascii
      rw [svIdCmpLoop]
      by_cases hinside : offset < skb.length
      · have hbyte : fieldAt skb 1 offset < 256 := fieldAt_lt skb 1 offset
        have hequal : UInt64.ofNat (fieldAt skb 1 offset) = charValue c ↔
            c = u8At skb offset := by
          rw [charValue_eq hc, u8At, ← UInt64.toNat_inj, ← UInt8.toNat_inj, UInt64.toNat_ofNat',
            UInt64.toNat_ofNat', UInt8.toNat_ofNat']
          omega
        rw [load_of_le hinside, drop_eq_u8At hinside, List.cons_prefix_cons, ← hequal,
          Option.bind_eq_bind, Option.bind_some]
        by_cases heq : UInt64.ofNat (fieldAt skb 1 offset) = charValue c
        · rw [if_neg (not_not.mpr heq), and_iff_right heq]
          exact ih hcs
        · rw [if_pos heq]
          exact iff_of_false (fun h => by cases h) fun h => heq h.1
      · -- a load past the end leaves the loop, and nothing stands there
        rw [load_of_lt (by omega), List.drop_of_length_le (by omega)]
        exact iff_of_false (fun h => by cases h) fun h => by cases List.prefix_nil.mp h

/-- **The comparison** holds when the length is right and the characters stand at the offset. -/
theorem svIdCmp_iff {cmpStr : List UInt8} {offset length : Nat}
    (hascii : ∀ c ∈ cmpStr, c.toNat < 128) :
    svIdCmp cmpStr skb offset length = some true ↔
      cmpStr.length = length ∧ cmpStr <+: skb.drop offset := by
  rw [svIdCmp]
  by_cases hlength : cmpStr.length = length
  · rw [if_neg (not_not.mpr hlength), and_iff_right hlength]
    exact svIdCmpLoop_iff hascii
  · rw [if_pos hlength]
    exact iff_of_false (fun h => by cases h) fun h => hlength h.1

/-- A check that drops the frame, and the rest of the program behind it. -/
theorem check_iff {bad : Prop} [Decidable bad] {rest : Option Int} :
    (if bad then pure drop else rest) = some keep ↔ ¬bad ∧ rest = some keep := by
  by_cases hbad : bad
  · rw [if_pos hbad]
    exact iff_of_false (fun h => by cases h) fun h => h.1 hbad
  · rw [if_neg hbad, and_iff_right hbad]

/-- **The end of the program** keeps the frame when the length of the svID stands in the header, and
the svID behind it. -/
theorem filterSvId_iff {svId : List UInt8} (hascii : ∀ c ∈ svId, c.toNat < 128)
    (hsmall : svId.length < 256) (asduHead : Nat) :
    filterSvId svId skb asduHead = some keep ↔
      UInt8.ofNat svId.length :: svId <+: skb.drop (asduHead + 3) := by
  have hfield : field skb asduStartT asduHead 3 = load skb 1 (asduHead + 3) := rfl
  rw [filterSvId, hfield]
  dsimp only
  -- the byte with the length is inside the frame, or its load ends the program
  by_cases hinside : asduHead + 3 < skb.length
  · have hbyte : UInt8.ofNat (fieldAt skb 1 (asduHead + 3)) = u8At skb (asduHead + 3) := rfl
    have hlength : svId.length = (u8At skb (asduHead + 3)).toNat ↔
        UInt8.ofNat svId.length = u8At skb (asduHead + 3) := by
      rw [← UInt8.toNat_inj, UInt8.toNat_ofNat_of_lt' hsmall]
    have hcmp : svIdCmp svId skb (asduHead + asduStartT.size) (u8At skb (asduHead + 3)).toNat
        = some true ↔ _ := svIdCmp_iff hascii
    rw [load_of_le hinside, Option.bind_eq_bind, Option.bind_some, hbyte, drop_eq_u8At hinside,
      List.cons_prefix_cons, ← hlength]
    refine Iff.trans ?_ hcmp
    cases svIdCmp svId skb (asduHead + asduStartT.size) (u8At skb (asduHead + 3)).toNat with
    | none => exact iff_of_false (fun h => by cases h) fun h => by cases h
    | some cmp => cases cmp <;> decide
  · rw [load_of_lt (by omega), List.drop_of_length_le (by omega)]
    exact iff_of_false (fun h => by cases h) fun h => by cases List.prefix_nil.mp h

/-- Where the program looks for the length of the svID: the first two bytes of the PDU choose one of
two layouts. -/
def svIdLengthOffset (skb : List UInt8) : Option Nat :=
  if u8At skb 22 = 0x60 then some (if u8At skb 23 = 0x82 then 36 else 32) else none

/-- The identifiers of the two layouts, as bytes: the program loads a word and shifts it. -/
theorem pduId_iff (hinside : 24 ≤ skb.length) :
    (u16At skb 22 = svPduId256p ↔ u8At skb 22 = 0x60 ∧ u8At skb 23 = 0x82) ∧
      ((u16At skb 22 >>> 8) &&& 0x00FF = svPduId80p ↔ u8At skb 22 = 0x60) := by
  have hword : (u16At skb 22).toNat = (u8At skb 22).toNat * 256 + (u8At skb 23).toNat :=
    toNat_u16At hinside
  have hlt := (u8At skb 23).toNat_lt
  have hfirst : (u16At skb 22 >>> 8 &&& 0x00FF).toNat = (u8At skb 22).toNat := by
    have hbyte := (u8At skb 22).toNat_lt
    have height : (8 : UInt16).toNat % 16 = 8 := rfl
    have hmask : (0x00FF : UInt16).toNat = 2 ^ 8 - 1 := rfl
    rw [UInt16.toNat_and, UInt16.toNat_shiftRight, height, hmask, Nat.and_two_pow_sub_one_eq_mod,
      Nat.shiftRight_eq_div_pow, hword]
    omega
  have h256 : svPduId256p.toNat = 0x60 * 256 + 0x82 := rfl
  have h80 : svPduId80p.toNat = 0x60 := rfl
  have hfirstTag : (0x60 : UInt8).toNat = 0x60 := rfl
  have hsecondTag : (0x82 : UInt8).toNat = 0x82 := rfl
  rw [← UInt16.toNat_inj, ← UInt16.toNat_inj, ← UInt8.toNat_inj, ← UInt8.toNat_inj, hfirst, hword,
    h256, h80, hfirstTag, hsecondTag]
  omega

/-- The program looks behind the first two bytes of the PDU, whichever of the layouts it takes. -/
theorem le_svIdLengthOffset {offset : Nat} (hoffset : svIdLengthOffset skb = some offset) :
    32 ≤ offset := by
  rw [svIdLengthOffset] at hoffset
  split at hoffset
  · cases hoffset
    split <;> omega
  · cases hoffset

/-- The filter keeps a frame when its program ends so, since a load past the end drops it. -/
theorem iec61850Filter_eq_keep {values : Placeholders} :
    iec61850Filter values skb = keep ↔ iec61850Run values skb = some keep := by
  rw [iec61850Filter]
  cases iec61850Run values skb with
  | none => decide
  | some result => rw [Option.getD_some, Option.some_inj]

/-- A part of the program that ends with one of the two results, or at a load past the end. -/
def Decides (run : Option Int) : Prop := ∀ result ∈ run, result = keep ∨ result = drop

/-- A part that drops the frame decides: `Decides (pure drop)`. -/
theorem decides_drop : Decides (pure drop) := by
  intro result hresult
  exact .inr (Option.some.inj hresult).symm

/-- A part that keeps the frame decides: `Decides (pure keep)`. -/
theorem decides_keep : Decides (pure keep) := by
  intro result hresult
  exact .inl (Option.some.inj hresult).symm

/-- A part behind a load or a comparison, which may end the program. -/
theorem Decides.bind {α : Type} {x : Option α} {f : α → Option Int} (h : ∀ a, Decides (f a)) :
    Decides (x >>= f) := by
  intro result hresult
  obtain ⟨a, -, ha⟩ := Option.bind_eq_some_iff.mp hresult
  exact h a result ha

/-- A choice between two parts that decide is one that decides, whatever its condition says. -/
theorem Decides.ite {c : Prop} [Decidable c] {run run' : Option Int} (h : Decides run)
    (h' : Decides run') : Decides (if c then run else run') := by
  by_cases hc : c
  · rwa [if_pos hc]
  · rwa [if_neg hc]

/-- **The program decides**: no frame leads to another result than `keep` or `drop`, or to a load
that fails. -/
theorem decides_iec61850Run (values : Placeholders) (skb : List UInt8) :
    Decides (iec61850Run values skb) := by
  have hsvId : ∀ asduHead, Decides (filterSvId values.svId skb asduHead) := by
    intro asduHead
    -- the loads and the checks of the program, in their order
    apply Decides.bind
    intro svIdLength
    apply Decides.bind
    intro cmp
    exact .ite decides_drop decides_keep
  apply Decides.bind
  intro source
  apply Decides.bind
  intro type
  apply Decides.ite decides_drop
  apply Decides.ite decides_drop
  apply Decides.ite decides_drop
  apply Decides.bind
  intro pduId
  exact .ite (hsvId _) (.ite (hsvId _) decides_drop)

/-- A frame that is not kept is dropped: there is no third result. -/
theorem iec61850Filter_eq_drop {values : Placeholders} (hne : iec61850Filter values skb ≠ keep) :
    iec61850Filter values skb = drop := by
  have hdecides := decides_iec61850Run values skb
  rw [iec61850Filter] at hne ⊢
  cases hrun : iec61850Run values skb with
  | none => rfl
  | some result =>
      rw [hrun, Option.getD_some] at hne
      exact (hdecides result hrun).resolve_left hne

/-- **The filter keeps a frame** when its type and its source are right and the length of the svID
and the svID stand where the first two bytes of the PDU say. -/
theorem iec61850Filter_iff {values : Placeholders} (hascii : ∀ c ∈ values.svId, c.toNat < 128)
    (hsmall : values.svId.length < 256) :
    iec61850Filter values skb = keep ↔
      (u16At skb 12 = iecProto ∨ u16At skb 12 = svEthertype) ∧
      values.ifaceMac ≠ UInt64.ofNat (fieldAt skb 6 6) ∧
      values.srcMac = UInt64.ofNat (fieldAt skb 6 6) ∧
      ∃ offset, svIdLengthOffset skb = some offset ∧
        UInt8.ofNat values.svId.length :: values.svId <+: skb.drop offset := by
  have hsource : field skb ethernetT 0 1 = load skb 6 6 := rfl
  have htype : field skb ethernetT 0 2 = load skb 2 12 := rfl
  have hstart : ethernetT.size + svStartT.size = 22 := rfl
  rw [iec61850Filter_eq_keep, iec61850Run, hsource, htype]
  dsimp only
  rw [hstart]
  by_cases hlong : 24 ≤ skb.length
  · obtain ⟨h256, h80⟩ := pduId_iff hlong
    have htype' : ¬(u16At skb 12 ≠ iecProto ∧ u16At skb 12 ≠ svEthertype) ↔
        u16At skb 12 = iecProto ∨ u16At skb 12 = svEthertype := by
      rw [not_and_or, not_not, not_not]
    rw [load_of_le (by omega), load_of_le (by omega), load_of_le hlong, Option.bind_eq_bind,
      Option.bind_some, Option.bind_some, check_iff, check_iff, check_iff, not_not,
      Option.bind_some]
    refine and_congr htype' (and_congr_right fun _ => and_congr_right fun _ => ?_)
    show (if u16At skb 22 = svPduId256p then _ else if u16At skb 22 >>> 8 &&& 0x00FF = svPduId80p
      then _ else _) = _ ↔ _
    rw [svIdLengthOffset]
    by_cases hfirst : u8At skb 22 = 0x60
    · rw [if_pos hfirst]
      by_cases hsecond : u8At skb 23 = 0x82
      · -- the layout with 256 points
        rw [if_pos hsecond, if_pos (h256.mpr ⟨hfirst, hsecond⟩)]
        refine (filterSvId_iff hascii hsmall 33).trans ?_
        simp
      · -- the layout with 80 points, for every other second byte
        rw [if_neg hsecond, if_neg (fun h => hsecond (h256.mp h).2), if_pos (h80.mpr hfirst)]
        refine (filterSvId_iff hascii hsmall 29).trans ?_
        simp
    · -- neither
      rw [if_neg hfirst, if_neg (fun h => hfirst (h256.mp h).1),
        if_neg (fun h => hfirst (h80.mp h))]
      refine iff_of_false (fun h => by cases h) ?_
      rintro ⟨offset, hoffset, -⟩
      cases hoffset
  · -- the identifier of the PDU is past the end, and so is the svID
    have hpduId : load skb 2 22 = none := load_of_lt (by omega)
    rw [hpduId]
    refine iff_of_false ?_ ?_
    · cases load skb 6 6 with
      | none => exact fun h => by cases h
      | some source =>
          cases load skb 2 12 with
          | none => exact fun h => by cases h
          | some type =>
              rw [Option.bind_eq_bind, Option.bind_some, Option.bind_some, check_iff, check_iff,
                check_iff]
              rintro ⟨-, -, -, h⟩
              cases h
    · rintro ⟨-, -, -, offset, hoffset, hstands⟩
      have hle := le_svIdLengthOffset hoffset
      rw [List.drop_of_length_le (by omega)] at hstands
      cases List.prefix_nil.mp hstands

end Bpf

end IecCore
