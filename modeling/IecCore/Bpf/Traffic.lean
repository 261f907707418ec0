import IecCore.Bpf.Agreement
import IecCore.Bpf.Configuration
import IecCore.Iec.MergingUnit

/-! # Published frames and the filter

A publisher writes every length in its shortest form. Then the number of ASDUs alone decides the
layout of a frame, and so whether the filter finds the svID: one ASDU gives lengths of one byte, two
give lengths of two, which the filter does not know, and from three on they have three.

* **`AsnLength.Shortest`** — a length without leading zeros; **`length_encode_of_shortest`** gives
  its size.
* **`Published`** — the frames that a publisher sends, such as those of a merging unit
  (**`Published.ofUnit`**).
* **`Published.lengthCounts_eq`** — the layout of a published frame, by `noAsdu` alone.
* **`Published.keep_iff`**, **`Published.keep_configured_iff`** — the filter keeps the frames of the
  sender with the svID, but for those with two ASDUs. -/

namespace IecCore

namespace Iec

/-! ## Shortest lengths -/

/-- A length in its **shortest form**: in the long form it is above 127, and its first byte is not
zero. -/
def AsnLength.Shortest : AsnLength → Prop
  | short _ _ => True
  | long bytes _ => 128 ≤ beNat bytes ∧ 256 ^ (bytes.length - 1) ≤ beNat bytes

instance : (l : AsnLength) → Decidable l.Shortest
  | .short _ _ => .isTrue trivial
  | .long _ _ => inferInstanceAs (Decidable (_ ∧ _))

/-- The size of a length in its shortest form is known from its value. -/
theorem AsnLength.length_encode_of_shortest {l : AsnLength} (h : l.Shortest) :
    (l.value < 128 → l.encode.length = 1) ∧
      (128 ≤ l.value → l.value < 256 → l.encode.length = 2) ∧
      (256 ≤ l.value → l.value < 256 ^ 2 → l.encode.length = 3) := by
  cases l with
  | short value small =>
      rw [AsnLength.value, encode, List.length_singleton]
      omega
  | long bytes count =>
      obtain ⟨hlong, hshortest⟩ := h
      have hlt := beNat_lt bytes
      rw [AsnLength.value, encode, List.length_cons]
      obtain ⟨hone, hfour⟩ := count
      -- the four sizes that the long form allows
      obtain hlength | hlength | hlength | hlength : bytes.length = 1 ∨ bytes.length = 2 ∨
        bytes.length = 3 ∨ bytes.length = 4 := by omega
      all_goals
        rw [hlength] at hlt hshortest ⊢
        norm_num at hlt hshortest ⊢
        omega

/-! ## The first ASDU of a frame -/

namespace SvPdu

variable (pdu : SvPdu)

theorem asdus_ne_nil : pdu.asdus ≠ [] := List.ne_nil_of_length_pos pdu.count.1

/-- The first ASDU of a PDU, which always has one: `asdus` has 1 to 16 elements. -/
def first : SvAsdu := pdu.asdus.head pdu.asdus_ne_nil

/-- The svID of the first ASDU, the one that the filter looks for. -/
def svId : List UInt8 := pdu.first.svId

/-- The bytes of the ASDUs start with those of the first: `pdu.first.encode` stands in front of the
others. -/
theorem asduBytes_eq : pdu.asduBytes
    = pdu.first.encode ++ pdu.asdus.tail.flatMap SvAsdu.encode := by
  rw [asduBytes, first, ← List.flatMap_cons, List.cons_head_tail]

end SvPdu

/-! ## The frames of a merging unit -/

/-- A length with two bytes is in its shortest form from 256 on. -/
theorem AsnLength.shortest_twoBytes {n : Nat} (hn : 256 ≤ n ∧ n < 256 ^ 2) :
    (twoBytes n).Shortest := by
  have hvalue : beNat (beBytes 2 n) = n := value_twoBytes hn.2
  rw [twoBytes, Shortest, hvalue, length_beBytes]
  omega

namespace MergingUnit

variable (unit : MergingUnit)

/-- The lengths in the frames of a unit are in their shortest form: there are at least three ASDUs in
a frame, which take 279 bytes. -/
theorem shortest_lengths (k : Nat) :
    (unit.pdu k).savLength.Shortest ∧ (unit.pdu k).seqLength.Shortest := by
  have hsize := unit.asduSize_bounds
  have hbounds := unit.perFrame_bounds
  exact ⟨AsnLength.shortest_twoBytes (by omega), AsnLength.shortest_twoBytes (by omega)⟩

/-- Every ASDU of a frame has the svID of the unit, also the first one. -/
theorem svId_pdu (k : Nat) : (unit.pdu k).svId = unit.svId := by
  obtain ⟨n, -, hfirst⟩ := List.mem_map.mp (List.head_mem (unit.pdu k).asdus_ne_nil)
  rw [SvPdu.svId, SvPdu.first, ← hfirst]
  rfl

end MergingUnit

end Iec

namespace Bpf

open Iec IecParser Utils CLiteral

/-- The numbers of bytes that the lengths of a frame take behind their first bytes. -/
theorem lengthCounts_encode (frame : SvFrame) :
    (lengthCounts frame.encode).1 + 1 = frame.pdu.savLength.encode.length ∧
      (lengthCounts frame.encode).2 + 1 = frame.pdu.seqLength.encode.length := by
  have hpdu := frame.drop_encode
  rw [SvPdu.encode, SvPdu.body, SvPdu.savBytes] at hpdu
  simp only [List.append_assoc, List.cons_append, List.nil_append] at hpdu
  -- the header of the PDU
  have hlength := drop_add_of_append hpdu
  have hres1 := drop_add_of_append hlength
  have hres2 := drop_add_of_append hres1
  have hpduId := drop_add_of_append hres2
  simp only [length_beBytes] at hpduId
  have hsavLength := drop_succ_of_cons hpduId
  -- the number of ASDUs
  have hnoAsduId := drop_add_of_append hsavLength
  have hone := drop_succ_of_cons hnoAsduId
  have hseq := drop_succ_of_cons hone
  have hseqId := drop_succ_of_cons hseq
  have hseqLength := drop_succ_of_cons hseqId
  have hsavEnd := asnEnd_encode hsavLength
  refine ⟨asnCountAt_of_drop hsavLength, ?_⟩
  rw [lengthCounts, show asnEnd frame.encode 23 = _ from hsavEnd]
  exact asnCountAt_of_drop hseqLength

/-- The first ASDU stands where the parser looks for it: at `firstAsdu frame.encode` its head
begins. -/
theorem drop_firstAsdu {frame : SvFrame} (hframe : frame.pdu.Congruent) :
    ∃ rest, frame.encode.drop (firstAsdu frame.encode) = frame.pdu.first.head ++ rest := by
  have hpdu := frame.drop_encode
  rw [frame.pdu.encode_eq, List.append_assoc] at hpdu
  have hstart : firstAsdu frame.encode = etherHeaderSize + frame.pdu.head.length :=
    (pduChecks_head hframe hpdu).2.2.2
  have hasdus := drop_add_of_append hpdu
  rw [frame.pdu.asduBytes_eq, SvAsdu.encode_eq, List.append_assoc, List.append_assoc, ← hstart]
    at hasdus
  exact ⟨_, hasdus⟩

/-- The parser skips the svID of the first ASDU: `firstSvId frame.encode = frame.pdu.svId`. -/
theorem firstSvId_encode {frame : SvFrame} (hframe : frame.pdu.Congruent) :
    firstSvId frame.encode = frame.pdu.svId := by
  obtain ⟨rest, hasdu⟩ := drop_firstAsdu hframe
  obtain ⟨-, -, hsvIdLength, -⟩ := asduHeader_encode frame.pdu.first hasdu
  simp only [SvAsdu.head, List.append_assoc] at hasdu
  have hsvId : frame.encode.drop (firstAsdu frame.encode + 4) = frame.pdu.svId ++ _ :=
    drop_add_of_append hasdu
  rw [firstSvId, hsvIdLength, hsvId]
  exact List.take_left

/-! ## Published frames -/

/-- A **published frame**: its lengths are right and in their shortest form, and its type is that of
sampled values. -/
structure Published where
  /-- The frame. -/
  frame : SvFrame
  /-- Both lengths are the numbers of bytes they cover: `SvPdu.Exact`. -/
  exact : frame.pdu.Exact
  /-- Both lengths are in their shortest form, as encoders write them. -/
  shortest : frame.pdu.savLength.Shortest ∧ frame.pdu.seqLength.Shortest
  /-- The type of the frame, behind its two addresses, is that of sampled values. -/
  svType : u16At frame.encode 12 = svEthertype

/-- The type of a unit's frames is that of its header: the bytes 12 and 13, as a big-endian word. -/
theorem svType_frame {unit : MergingUnit}
    (htype : unit.etherHeader.drop 12 = beBytes 2 svEthertype.toNat) (k : Nat) :
    u16At (unit.frame k).encode 12 = svEthertype := by
  have hheader : 12 ≤ unit.etherHeader.length := by
    rw [unit.length_etherHeader]
    decide
  have hdrop : (unit.frame k).encode.drop 12 = unit.etherHeader.drop 12 ++ (unit.pdu k).encode :=
    List.drop_append_of_le_length hheader
  rw [htype] at hdrop
  exact u16At_of_drop hdrop

namespace Published

/-- The frame `k` of a merging unit, whose header has the type, is one that is published. -/
def ofUnit (unit : MergingUnit) (htype : unit.etherHeader.drop 12 = beBytes 2 svEthertype.toNat)
    (k : Nat) : Published where
  frame := unit.frame k
  exact := unit.pdu_exact k
  shortest := unit.shortest_lengths k
  svType := svType_frame htype k

variable (p : Published)

/-- The bytes of the frame, as they arrive: `p.frame.encode`. -/
def bytes : List UInt8 := p.frame.encode

/-- The source of the frame, the second address of its header: the bytes 6 to 11. -/
def source : List UInt8 := (p.bytes.drop 6).take 6

/-- The svID of the frame, that of its first ASDU. -/
def svId : List UInt8 := p.frame.pdu.svId

/-- The ASDUs of the frame, as the parser keeps them, each without its svID. -/
def values : List ASDU := p.frame.pdu.values

/-- The number of ASDUs, one to sixteen: the length of the list in the PDU. -/
def noAsdu : Nat := p.frame.pdu.asdus.length

/-- The sizes of the two lengths, which are the same: one, two or three bytes. -/
def lengthSize : Nat := if p.noAsdu = 1 then 1 else if p.noAsdu = 2 then 2 else 3

theorem noAsdu_bounds : 1 ≤ p.noAsdu ∧ p.noAsdu ≤ 16 := p.frame.pdu.count

/-- The lengths have the size that the number of ASDUs says, whatever the svIDs are. -/
theorem length_lengths : p.frame.pdu.savLength.encode.length = p.lengthSize ∧
    p.frame.pdu.seqLength.encode.length = p.lengthSize := by
  have hcount := p.noAsdu_bounds
  have hasdus := length_flatMap_encode p.frame.pdu.asdus
  obtain ⟨hsav, hseq⟩ := p.exact
  obtain ⟨hsavShort, hsavOne, hsavTwo⟩ := AsnLength.length_encode_of_shortest p.shortest.1
  obtain ⟨hseqShort, hseqOne, hseqTwo⟩ := AsnLength.length_encode_of_shortest p.shortest.2
  have hsavBytes := p.frame.pdu.length_bounds.1
  rw [← SvPdu.asduBytes] at hasdus
  rw [noAsdu] at hcount
  rw [lengthSize, noAsdu]
  split_ifs
  all_goals omega

/-- **The layout** of a published frame: both lengths take `lengthSize - 1` bytes behind the
first. -/
theorem lengthCounts_eq : lengthCounts p.bytes = (p.lengthSize - 1, p.lengthSize - 1) := by
  obtain ⟨hsav, hseq⟩ := lengthCounts_encode p.frame
  obtain ⟨hsavSize, hseqSize⟩ := p.length_lengths
  exact Prod.ext (by rw [bytes]; omega) (by rw [bytes]; omega)

/-- The filter knows the layout, but for two ASDUs: `FixedLayout p.bytes ↔ p.noAsdu ≠ 2`. -/
theorem fixedLayout_iff : FixedLayout p.bytes ↔ p.noAsdu ≠ 2 := by
  have hcount := p.noAsdu_bounds
  rw [FixedLayout, p.lengthCounts_eq, lengthSize]
  split_ifs
  · simp_all
  · simp_all
  · simp_all

theorem not_mixedLayout : ¬MixedLayout p.bytes := by
  rw [MixedLayout, p.lengthCounts_eq]
  rintro (h | h)
  · have := congrArg Prod.fst h
    have := congrArg Prod.snd h
    omega
  · have := congrArg Prod.fst h
    have := congrArg Prod.snd h
    omega

theorem congruent : p.frame.pdu.Congruent := p.exact.congruent

/-- A published frame has a first ASDU, since the parser accepts it: `FirstAsdu p.bytes`. -/
theorem firstAsdu : FirstAsdu p.bytes := by
  refine FirstAsdu.of_accepted ?_
  rw [bytes, pduScan_encode p.congruent p.frame.drop_encode]

theorem length_bytes : 22 ≤ p.bytes.length := by
  have hpdu := p.frame.pdu.length_bounds
  rw [bytes, SvFrame.length_encode]
  omega

variable {p}

/-- **The filter keeps a published frame** when it is from the sender and has the svID, but for
frames with two ASDUs. -/
theorem keep_iff {values : Placeholders} (hother : values.srcMac ≠ values.ifaceMac)
    (hlength : 10 ≤ values.svId.length ∧ values.svId.length ≤ 34)
    (hchars : ∀ c ∈ values.svId, (Char.ofUInt8 c).isAlphanum = true) :
    iec61850Filter values p.bytes = keep ↔
      UInt64.ofNat (fieldAt p.bytes 6 6) = values.srcMac ∧ p.svId = values.svId ∧
        p.noAsdu ≠ 2 := by
  have hascii : ∀ c ∈ values.svId, c.toNat < 128 := fun c hc =>
    (toNat_of_isAlphanum (hchars c hc)).2.trans_lt (by decide)
  have hsmall : values.svId.length < 256 := hlength.2.trans_lt (by decide)
  have hsvId : firstSvId p.bytes = p.svId := firstSvId_encode p.congruent
  by_cases hsource : UInt64.ofNat (fieldAt p.bytes 6 6) = values.srcMac
  · rw [and_iff_right hsource]
    by_cases htwo : p.noAsdu = 2
    · -- the filter takes the length of the first ASDU for that of the svID
      have hlayout : ¬FixedLayout p.bytes := fun h => p.fixedLayout_iff.mp h htwo
      rw [keep_iff_stands (List.prefix_refl _) p.firstAsdu p.svType hsource hother hascii hsmall rfl]
      refine iff_of_false (fun h => ?_) fun h => h.2 htwo
      exact not_prefix_of_other p.firstAsdu hlength hchars hlayout (.inr p.not_mixedLayout) rfl h.1
    · rw [keep_iff_firstSvId (List.prefix_refl _) p.firstAsdu p.svType hsource hother hascii hsmall
        (p.fixedLayout_iff.mpr htwo), hsvId, and_iff_right p.firstAsdu.inside.le,
        and_iff_left htwo]
  · refine iff_of_false (fun h => ?_) fun h => hsource h.1
    exact hsource ((iec61850Filter_iff hascii hsmall).mp h).2.2.1.symm

/-- The configured filter keeps a published frame of the sender with the svID, unless it has two
ASDUs. -/
theorem keep_configured_iff {ifaceAddress : List UInt8} (haddress : ifaceAddress.length = 6)
    {digits : Text} (hdigits : IsDigits digits) (htwelve : digits.length = 12)
    (hother : macOf digits ≠ ifaceAddress) {svID : Text}
    (hlength : 10 ≤ svID.length ∧ svID.length ≤ 34)
    (hchars : ∀ c ∈ svID, (Char.ofUInt8 c).isAlphanum = true) :
    iec61850Filter (configured ifaceAddress digits svID) p.bytes = keep ↔
      p.source = macOf digits ∧ p.svId = svID ∧ p.noAsdu ≠ 2 := by
  have hnumber := number_lt_address hdigits htwelve
  have hown : beNat ifaceAddress < 256 ^ 6 := haddress ▸ beNat_lt ifaceAddress
  have hbytes := p.length_bytes
  -- another address is another number
  have hdifferent : (configured ifaceAddress digits svID).srcMac
      ≠ (configured ifaceAddress digits svID).ifaceMac := by
    intro h
    have hsame : number 16 digits = beNat ifaceAddress := by
      have hsize : UInt64.size = 256 ^ 8 := rfl
      rw [configured, ← UInt64.toNat_inj, UInt64.toNat_ofNat_of_lt' (by omega),
        UInt64.toNat_ofNat_of_lt' (by omega)] at h
      exact h
    exact hother (by rw [macOf, hsame, ← haddress, beBytes_beNat])
  rw [keep_iff hdifferent hlength hchars]
  refine and_congr_left fun _ => ?_
  rw [eq_comm]
  exact source_eq_iff (by omega) hnumber

end Published

end Bpf

end IecCore
