import IecCore.Bpf.Traffic

/-! # The native filter

The benchmarks count the frames that the kernel filter lets through, and those that a filter in user
space accepts. That one reads from a buffer what `recvfrom` has left there and tells the two kinds of
frames apart by their size. Both look for an svID at a fixed place, and the one in user space has two
svIDs of its own.

* **`nativeFilter data size`** — the filter in user space, on the bytes of a buffer and the size that
  was received.
* **`swapped_eq`** — it swaps the bytes of the type whatever the host is; on a little-endian one this
  is the word that was sent.
* **`Named name data position`**, **`svIdIs_eq`** — the comparison with an svID, which never reads
  behind the 34 bytes from the length on.
* **`Accepts`**, **`nativeFilter_eq`** — it accepts frames of two ranges of sizes, and never reads
  outside of the buffer, whatever `recvfrom` has returned.
* **`Published.nativeFilter_iff`** — the published frames that it accepts.
* **`Published.agrees_iff`** — where it agrees with the kernel filter, on a little-endian host. -/

namespace IecCore

namespace Bpf

open Iec IecParser Utils CLiteral Bytes

/-! ## The filter -/

/-- Bytes of a buffer, `count` of them from `position` on; none is a read outside of it. -/
def bytesAt (data : List UInt8) (position count : Nat) : Option (List UInt8) :=
  if position + count ≤ data.length then some ((data.drop position).take count) else none

/-- The type of a frame, of which `ether_type` has the bytes: they are exchanged by shifts and
masks. -/
def swapped (etherType : UInt16) : UInt16 :=
  let firstByte := etherType >>> 8 &&& 0x00ff
  let secondByte := etherType <<< 8 &&& 0xff00
  firstByte ||| secondByte

/-- The size of the array for the svID, with a zero behind the longest one. -/
def svIdSize : Nat := 35

/-- The comparison with an svID, from its length on: a longer one is not copied, and is not
equal. -/
def svIdIs (name : Text) (data : List UInt8) (position : Nat) : Option Bool := do
  let mut svId : Text := List.replicate svIdSize 0
  let svIdLength ← data[position]?
  if svIdLength.toNat < svIdSize - 1 then
    let chars ← bytesAt data (position + 1) svIdLength.toNat
    svId := (chars ++ svId.drop chars.length).set (svIdLength.toNat + 1) 0
  return cString svId = name

/-- The svID of frames with 80 points that the filter looks for. -/
def svId80p : Text := text "ENS80pointMU01"

/-- The svID of frames with 256 points that the filter looks for. -/
def svId256p : Text := text "ENS256MUnn01"

/-- `p80Offset`, the place of the length of the svID behind the Ethernet header, in short frames. -/
def p80Offset : Nat := 18

/-- `p256Offset`, the place of the length of the svID in long frames. -/
def p256Offset : Nat := 22

/-- **The native filter** on a buffer, with the size that was received; `data` is none for a null
pointer. -/
def nativeFilter [Host] (data : Option (List UInt8)) (size : UInt64) : Option Bool :=
  let svType1 := 0x8100
  let svType2 := 0x88BA
  match data with
  | none => some false
  | some data => do
      if size > 0 then
        let etherType := UInt16.ofNat (ofMemory (← bytesAt data 12 2))
        let data := data.drop etherHeaderSize
        let size := size - UInt64.ofNat etherHeaderSize
        let type := swapped etherType
        if type = svType1 ∨ type = svType2 then
          if size ≥ 0x70 ∧ size ≤ 0x100 then
            svIdIs svId80p data p80Offset
          else if size ≥ 0x30b ∧ size ≤ 0x500 then
            svIdIs svId256p data p256Offset
          else return false
        else return false
      else return false

/-! ## What the filter looks for -/

variable {data : List UInt8}

/-- The swap turns the bytes of a word round: the low byte comes first. -/
theorem toNat_swapped (x : UInt16) : (swapped x).toNat = x.toNat % 256 * 256 + x.toNat / 256 := by
  have hlt := x.toNat_lt
  have height : (8 : UInt16).toNat % 16 = 8 := rfl
  have hlow : (0x00ff : UInt16).toNat = 2 ^ 8 - 1 := rfl
  have hhigh : (0xff00 : UInt16).toNat = (2 ^ 8 - 1) <<< 8 := rfl
  have hword : x.toNat <<< 8 % 2 ^ 16 = (x.toNat % 256) <<< 8 := by
    rw [Nat.shiftLeft_eq, Nat.shiftLeft_eq]
    omega
  have hfirst : (x >>> 8 &&& 0x00ff).toNat = x.toNat / 256 := by
    rw [UInt16.toNat_and, UInt16.toNat_shiftRight, height, hlow, Nat.and_two_pow_sub_one_eq_mod,
      Nat.shiftRight_eq_div_pow]
    omega
  have hsecond : (x <<< 8 &&& 0xff00).toNat = (x.toNat % 256) <<< 8 := by
    rw [UInt16.toNat_and, UInt16.toNat_shiftLeft, height, hhigh, hword, ← Nat.shiftLeft_and_distrib,
      Nat.and_two_pow_sub_one_eq_mod]
    omega
  -- the two halves have no bit in common, so that `or` is a sum
  rw [swapped, UInt16.toNat_or, hfirst, hsecond, Nat.or_comm,
    ← Nat.shiftLeft_add_eq_or_of_lt (by omega), Nat.shiftLeft_eq]

/-- On a little-endian host the type is the word that was sent: `swapped` of what the load returns
is `u16At data 12`. -/
theorem swapped_eq [Host] (hlittle : Host.byteOrder = .littleEndian) (hinside : 14 ≤ data.length) :
    ∃ bytes, bytesAt data 12 2 = some bytes ∧
      swapped (UInt16.ofNat (ofMemory bytes)) = u16At data 12 := by
  have hword : (u16At data 12).toNat = (u8At data 12).toNat * 256 + (u8At data 13).toNat :=
    toNat_u16At hinside
  have hbytes : (data.drop 12).take 2 = [u8At data 12, u8At data 13] := by
    rw [drop_eq_u8At (by omega), drop_eq_u8At (by omega)]
    rfl
  refine ⟨_, if_pos hinside, ?_⟩
  have hfirst := (u8At data 12).toNat_lt
  have hsecond := (u8At data 13).toNat_lt
  -- a load on a little-endian host takes the second byte for the upper one
  have hmemory : ofMemory [u8At data 12, u8At data 13]
      = (u8At data 13).toNat * 256 + (u8At data 12).toNat := by
    rw [ofMemory, hlittle]
    simp [beNat_cons]
  rw [hbytes, ← UInt16.toNat_inj, toNat_swapped, hmemory, hword,
    UInt16.toNat_ofNat_of_lt' (by rw [UInt16.size]; omega)]
  omega

/-- Characters in front of zeros are a string up to the first zero. -/
theorem cString_append_replicate (chars : Text) (n : Nat) :
    cString (chars ++ List.replicate n 0) = cString chars := by
  rw [cString, cString, List.takeWhile_append]
  split_ifs with hall
  · have hzeros : (List.replicate n (0 : UInt8)).takeWhile (fun c => c ≠ 0) = [] := by
      cases n with
      | zero => rfl
      | succ n => rfl
    rw [hzeros, List.append_nil]
    exact (List.takeWhile_prefix _).eq_of_length hall |>.symm
  · rfl

/-- An svID with its length at a position, as the filter in user space compares it. -/
def Named (name : Text) (data : List UInt8) (position : Nat) : Prop :=
  (u8At data position).toNat < 34 ∧
    cString ((data.drop (position + 1)).take (u8At data position).toNat) = name

instance (name : Text) (data : List UInt8) (position : Nat) : Decidable (Named name data position) :=
  inferInstanceAs (Decidable (_ ∧ _))

/-- **The comparison** never reads behind the 34 bytes from the length on, and is `Named`. -/
theorem svIdIs_eq {name : Text} (hname : name ≠ []) {position : Nat}
    (hinside : position + 34 ≤ data.length) :
    svIdIs name data position = some (decide (Named name data position)) := by
  have hlength : data[position]? = some (u8At data position) := by
    rw [← List.head?_drop, drop_eq_u8At (by omega)]
    rfl
  have hsize : svIdSize - 1 = 34 := rfl
  rw [svIdIs, hlength]
  dsimp only [Option.bind_eq_bind, Option.bind_some]
  rw [hsize]
  by_cases hshort : (u8At data position).toNat < 34
  · -- the array is zero behind the characters already
    have hchars : bytesAt data (position + 1) (u8At data position).toNat
        = some ((data.drop (position + 1)).take (u8At data position).toNat) := if_pos (by omega)
    have htake : ((data.drop (position + 1)).take (u8At data position).toNat).length
        = (u8At data position).toNat := by
      rw [List.length_take, List.length_drop]
      omega
    rw [if_pos hshort, hchars]
    dsimp only [Option.bind_some]
    rw [htake, List.set_append_right (h := by omega), htake, List.drop_replicate,
      List.set_replicate_self, cString_append_replicate]
    simp [Named, hshort]
  · have hempty : cString (List.replicate svIdSize 0) ≠ name := fun h => hname (h ▸ rfl)
    rw [if_neg hshort]
    simp [Named, hshort, hempty]

/-- What the native filter **accepts**: a frame of one of the two types, with the svID of frames of
its size. -/
def Accepts (data : List UInt8) (size : Nat) : Prop :=
  (u16At data 12 = 0x8100 ∨ u16At data 12 = 0x88BA) ∧
    (14 + 0x70 ≤ size ∧ size ≤ 14 + 0x100 ∧ Named svId80p data 32 ∨
      14 + 0x30b ≤ size ∧ size ≤ 14 + 0x500 ∧ Named svId256p data 36)

instance (data : List UInt8) (size : Nat) : Decidable (Accepts data size) :=
  inferInstanceAs (Decidable (_ ∧ _))

/-- The range of a size without the header, which wraps around for a short frame. -/
theorem range_iff {size low high : UInt64} (hhigh : high.toNat < 2 ^ 32) :
    (size - UInt64.ofNat etherHeaderSize ≥ low ∧ size - UInt64.ofNat etherHeaderSize ≤ high) ↔
      14 + low.toNat ≤ size.toNat ∧ size.toNat ≤ 14 + high.toNat := by
  have hheader : (UInt64.ofNat etherHeaderSize).toNat = 14 := rfl
  have hlt := size.toNat_lt
  rw [ge_iff_le, UInt64.le_iff_toNat_le, UInt64.le_iff_toNat_le, UInt64.toNat_sub, hheader]
  omega

/-- The comparison behind the header, at its position in the frame. -/
theorem svIdIs_drop {name : Text} (hname : name ≠ []) {n position : Nat}
    (hinside : n + position + 34 ≤ data.length) :
    svIdIs name (data.drop n) position = some (decide (Named name data (n + position))) := by
  have hbyte : u8At (data.drop n) position = u8At data (n + position) := by
    have hdrop := drop_eq_u8At (show n + position < data.length by omega)
    rw [← List.drop_drop] at hdrop
    exact u8At_of_drop hdrop
  have hnamed : Named name (data.drop n) position ↔ Named name data (n + position) := by
    rw [Named, Named, hbyte, List.drop_drop, Nat.add_assoc]
  rw [svIdIs_eq hname (by rw [List.length_drop]; omega), decide_eq_decide.mpr hnamed]

/-- **The native filter**, on a buffer with room for the bytes up to the svID of a frame with 256
points: whatever size `recvfrom` has returned, that of an error included, it reads nothing outside of
the buffer. -/
theorem nativeFilter_eq [Host] (hlittle : Host.byteOrder = .littleEndian)
    (hroom : 70 ≤ data.length) (size : UInt64) :
    nativeFilter (some data) size = some (decide (Accepts data size.toNat)) := by
  obtain ⟨bytes, hbytes, htype⟩ := swapped_eq hlittle (show 14 ≤ data.length by omega)
  have h80 : svIdIs svId80p (data.drop etherHeaderSize) p80Offset
      = some (decide (Named svId80p data 32)) :=
    svIdIs_drop (by decide) (show 66 ≤ data.length by omega)
  have h256 : svIdIs svId256p (data.drop etherHeaderSize) p256Offset
      = some (decide (Named svId256p data 36)) :=
    svIdIs_drop (by decide) hroom
  have hrange80 : (size - UInt64.ofNat etherHeaderSize ≥ 0x70 ∧
      size - UInt64.ofNat etherHeaderSize ≤ 0x100) ↔
      14 + 0x70 ≤ size.toNat ∧ size.toNat ≤ 14 + 0x100 := range_iff (by decide)
  have hrange256 : (size - UInt64.ofNat etherHeaderSize ≥ 0x30b ∧
      size - UInt64.ofNat etherHeaderSize ≤ 0x500) ↔
      14 + 0x30b ≤ size.toNat ∧ size.toNat ≤ 14 + 0x500 := range_iff (by decide)
  rw [nativeFilter]
  dsimp only
  by_cases hsize : size > 0
  · rw [if_pos hsize, hbytes]
    dsimp only [Option.bind_eq_bind, Option.bind_some]
    rw [htype, h80, h256]
    by_cases htwo : u16At data 12 = 0x8100 ∨ u16At data 12 = 0x88BA
    · rw [if_pos htwo]
      by_cases hsmall : 14 + 0x70 ≤ size.toNat ∧ size.toNat ≤ 14 + 0x100
      · rw [if_pos (hrange80.mpr hsmall), decide_eq_decide.mpr]
        rw [Accepts, and_iff_right htwo, ← and_assoc, and_iff_right hsmall]
        exact (or_iff_left fun h => by omega).symm
      by_cases hlarge : 14 + 0x30b ≤ size.toNat ∧ size.toNat ≤ 14 + 0x500
      · rw [if_neg (mt hrange80.mp hsmall), if_pos (hrange256.mpr hlarge), decide_eq_decide.mpr]
        rw [Accepts, and_iff_right htwo, ← and_assoc (a := 14 + 0x30b ≤ _), and_iff_right hlarge]
        exact (or_iff_right fun h => hsmall ⟨h.1, h.2.1⟩).symm
      · -- a size of neither range
        rw [if_neg (mt hrange80.mp hsmall), if_neg (mt hrange256.mp hlarge), decide_eq_false]
        · rfl
        · rintro ⟨-, ⟨hlow, hhigh, -⟩ | ⟨hlow, hhigh, -⟩⟩
          · exact hsmall ⟨hlow, hhigh⟩
          · exact hlarge ⟨hlow, hhigh⟩
    · rw [if_neg htwo, decide_eq_false fun h => htwo h.1]
      rfl
  · have hzero : size.toNat = 0 := by
      rw [gt_iff_lt, UInt64.lt_iff_toNat_lt] at hsize
      exact Nat.le_zero.mp (not_lt.mp hsize)
    rw [if_neg hsize, decide_eq_false]
    · rfl
    · rintro ⟨-, h | h⟩
      · omega
      · omega

/-! ## Published frames -/

namespace Published

variable (p : Published) (stale : List UInt8)

/-- The size of the ASDUs of the frame, in bytes: what the second length of its PDU counts. -/
def asduSize : Nat := p.frame.pdu.asduBytes.length

/-- The size of a published frame: the headers, the two lengths and the ASDUs. -/
theorem length_bytes_eq : p.bytes.length = 27 + 2 * p.lengthSize + p.asduSize := by
  obtain ⟨hsav, hseq⟩ := p.length_lengths
  obtain ⟨hsavBytes, hlength, -, -⟩ := p.frame.pdu.length_bounds
  rw [bytes, SvFrame.length_encode, asduSize]
  omega

/-- The position of the first ASDU, by the size of the lengths: `27 + 2 * p.lengthSize`. -/
theorem firstAsdu_eq : Bpf.firstAsdu p.bytes = 27 + 2 * p.lengthSize := by
  have hpos : 1 ≤ p.lengthSize := by
    rw [lengthSize]
    split_ifs
    all_goals decide
  rw [Bpf.firstAsdu_eq, p.lengthCounts_eq]
  dsimp only
  omega

/-- **Bounds** on the ASDUs of a published frame: 93 to 117 bytes each, by the svIDs of 10 to 34
bytes. -/
theorem asduSize_bounds : 93 * p.noAsdu ≤ p.asduSize ∧ p.asduSize ≤ 117 * p.noAsdu :=
  length_flatMap_encode p.frame.pdu.asdus

/-- A single ASDU has 83 bytes and its svID: `p.asduSize = 83 + p.svId.length`. -/
theorem asduSize_of_one (hone : p.noAsdu = 1) : p.asduSize = 83 + p.svId.length := by
  have htail : p.frame.pdu.asdus.tail = [] := by
    refine List.length_eq_zero_iff.mp ?_
    rw [List.length_tail]
    exact Nat.sub_eq_zero_of_le hone.le
  rw [asduSize, SvPdu.asduBytes_eq, htail, List.flatMap_nil, List.append_nil, SvAsdu.length_encode]
  rfl

/-- The header of the first ASDU, with old bytes behind the frame: what a buffer that is used again
holds. -/
theorem header_append :
    (u8At (p.bytes ++ stale) (Bpf.firstAsdu p.bytes + 1)).toNat = 81 + p.svId.length ∧
      (u8At (p.bytes ++ stale) (Bpf.firstAsdu p.bytes + 3)).toNat = p.svId.length ∧
      ((p.bytes ++ stale).drop (Bpf.firstAsdu p.bytes + 4)).take p.svId.length = p.svId := by
  obtain ⟨rest, hasdu⟩ := drop_firstAsdu p.congruent
  have hinside : Bpf.firstAsdu p.bytes ≤ p.bytes.length := by
    rw [p.firstAsdu_eq, p.length_bytes_eq]
    omega
  have happend : (p.bytes ++ stale).drop (Bpf.firstAsdu p.bytes)
      = p.frame.pdu.first.head ++ (rest ++ stale) := by
    rw [List.drop_append_of_le_length hinside, bytes, hasdu, List.append_assoc]
  obtain ⟨-, hlength, hsvIdLength, -⟩ := asduHeader_encode p.frame.pdu.first happend
  refine ⟨hlength, hsvIdLength, ?_⟩
  simp only [SvAsdu.head, List.append_assoc] at happend
  have hsvId : (p.bytes ++ stale).drop (Bpf.firstAsdu p.bytes + 4) = p.svId ++ _ :=
    drop_add_of_append happend
  rw [hsvId, List.take_left]

/-- The svID of the first ASDU, as the native filter compares it, when it has no zero in it. -/
theorem named_iff (hzero : 0 ∉ p.svId) {name : Text} (hname : name.length < 34) :
    Named name (p.bytes ++ stale) (Bpf.firstAsdu p.bytes + 3) ↔ p.svId = name := by
  obtain ⟨-, hlength, hsvId⟩ := p.header_append stale
  have hstring : cString p.svId = p.svId :=
    List.takeWhile_eq_self_iff.mpr fun c hc => decide_eq_true fun h => hzero (h ▸ hc)
  rw [Named, hlength, hsvId, hstring]
  refine and_iff_right_of_imp fun h => ?_
  rwa [h]

/-- The type of a published frame, with old bytes behind it: what stands behind the frame is not
read. -/
theorem svType_append : u16At (p.bytes ++ stale) 12 = 0x88BA := by
  have hlength := p.length_bytes
  have hdrop := drop_eq_u16At (show 12 + 2 ≤ p.bytes.length by omega)
  have htype : u16At p.bytes 12 = svEthertype := p.svType
  have happend : (p.bytes ++ stale).drop 12
      = beBytes 2 svEthertype.toNat ++ (p.bytes.drop (12 + 2) ++ stale) := by
    rw [List.drop_append_of_le_length (by omega), hdrop, htype, List.append_assoc]
  exact u16At_of_drop happend

/-- **The native filter accepts a published frame** of one ASDU with the svID of frames with 80
points, and of three and more with that of frames with 256 points when their size is in the range. -/
theorem nativeFilter_iff [Host] (hlittle : Host.byteOrder = .littleEndian) (hzero : 0 ∉ p.svId) :
    nativeFilter (some (p.bytes ++ stale)) (UInt64.ofNat p.bytes.length) = some true ↔
      p.noAsdu = 1 ∧ p.svId = svId80p ∨
        3 ≤ p.noAsdu ∧ p.svId = svId256p ∧ 760 ≤ p.asduSize ∧ p.asduSize ≤ 1261 := by
  have hcount := p.noAsdu_bounds
  have hbounds := p.asduSize_bounds
  have hlength := p.length_bytes_eq
  have hposition := p.firstAsdu_eq
  have hsvId80 : svId80p.length = 14 := rfl
  have hsvId256 : svId256p.length = 12 := rfl
  have hsize : (UInt64.ofNat p.bytes.length).toNat = p.bytes.length := by
    refine UInt64.toNat_ofNat_of_lt' ?_
    have hle : p.lengthSize ≤ 3 := by
      rw [lengthSize]
      split_ifs
      all_goals decide
    rw [hlength, UInt64.size]
    omega
  rw [nativeFilter_eq hlittle (by rw [List.length_append]; omega), Option.some_inj,
    decide_eq_true_iff, Accepts, p.svType_append stale, hsize, and_iff_right (Or.inr rfl)]
  obtain hone | htwo | hthree : p.noAsdu = 1 ∨ p.noAsdu = 2 ∨ 3 ≤ p.noAsdu := by omega
  · -- the size of frames with 80 points, but for short svIDs
    have hlayout : p.lengthSize = 1 := if_pos hone
    have hasdu := p.asduSize_of_one hone
    have hnamed := p.named_iff stale hzero (show svId80p.length < 34 by decide)
    rw [hposition, hlayout] at hnamed
    rw [hnamed]
    constructor
    · rintro (⟨-, -, h⟩ | ⟨h, -, -⟩)
      · exact .inl ⟨hone, h⟩
      · have hsmall := p.frame.pdu.first.length_svId.2
        change p.svId.length ≤ 34 at hsmall
        omega
    · rintro (⟨-, h⟩ | ⟨h, -⟩)
      · rw [h, hsvId80] at hasdu
        exact .inl ⟨by omega, by omega, h⟩
      · omega
  · -- the length of an ASDU stands where the length of the svID would
    have hlayout : p.lengthSize = 2 := by rw [lengthSize, if_neg (by omega), if_pos htwo]
    have hbyte := (p.header_append stale).1
    rw [hposition, hlayout] at hbyte
    refine iff_of_false ?_ (by omega)
    rintro (⟨-, -, hshort, -⟩ | ⟨h, -, -⟩)
    · change (u8At (p.bytes ++ stale) 32).toNat = _ at hbyte
      omega
    · omega
  · have hlayout : p.lengthSize = 3 := by rw [lengthSize, if_neg (by omega), if_neg (by omega)]
    have hnamed := p.named_iff stale hzero (show svId256p.length < 34 by decide)
    rw [hposition, hlayout] at hnamed
    rw [hnamed]
    constructor
    · rintro (⟨-, h, -⟩ | ⟨hlow, hhigh, h⟩)
      · omega
      · exact .inr ⟨hthree, h, by omega, by omega⟩
    · rintro (⟨h, -⟩ | ⟨-, h, hlow, hhigh⟩)
      · omega
      · exact .inr ⟨by omega, by omega, h⟩

/-- ASDUs with the same svID have the same size: `(83 + svID.length) * p.noAsdu`. -/
theorem asduSize_of_same {svID : List UInt8} (hsame : ∀ a ∈ p.frame.pdu.asdus, a.svId = svID) :
    p.asduSize = (83 + svID.length) * p.noAsdu := by
  have hsize (asdus : List SvAsdu) (hasdus : ∀ a ∈ asdus, a.svId = svID) :
      (asdus.flatMap SvAsdu.encode).length = (83 + svID.length) * asdus.length := by
    induction asdus with
    | nil => rfl
    | cons a asdus ih =>
        obtain ⟨ha, hasdus⟩ := List.forall_mem_cons.mp hasdus
        rw [List.flatMap_cons, List.length_append, a.length_encode, ha, ih hasdus, List.length_cons,
          Nat.mul_succ, Nat.add_comm]
  exact hsize _ hsame

end Published

/-- The frame with short lengths is one that a publisher sends: `shortFrame`, with what is checked
of it. -/
def shortPublished : Published where
  frame := shortFrame
  exact := by decide +kernel
  shortest := ⟨trivial, trivial⟩
  svType := by decide +kernel

end Bpf

end IecCore
