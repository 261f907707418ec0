import IecCore.Iec.FrameScan
import IecCore.Iec.Grammar

/-! # The parser decodes what is encoded

Frames that stand in the buffer are accepted, and their ASDUs are returned field for field. A part
stands at a position when `bytes.drop position` is its encoding and some rest. From this the fields
are read one after the other, and the rest of the part stands behind them.

* **`asnValueAt_encode`**, **`asnEnd_encode`**, **`asnFits_encode`** — a length that stands at a
  position: its value, the position behind it, and the check that it runs to the end of the frame.
* **`dataAt_encode`**, **`asduScan_encode`**, **`asdusScan_encode`**, **`pduScan_encode`** — a part
  that stands at a position is found there, `asduScan bytes position = ⟨true, …, [a.asdu]⟩`.
* **`framesScan_encode`** — frames that stand one after the other are found in their order.
* **`parse_encode`** — `parse` undoes the encoding of frames, and leaves the buffer at its end. -/

namespace IecCore

namespace Iec

open IecParser (etherHeaderSize)

variable {bytes rest : List UInt8} {position : Nat}

/-! ## Lengths -/

/-- The bytes of a length are added up to its value, as long as this stays below `2 ^ 32`. The
induction is on the bytes, for any `length` that has been added up before. -/
theorem asnBytesAt_encode {part : List UInt8} {length : UInt32} (hpart : part ≠ [])
    (hdrop : bytes.drop position = part ++ rest)
    (hfits : length.toNat * 256 ^ (part.length - 1) + beNat part < 2 ^ 32) :
    (asnBytesAt bytes position part.length length).toNat
      = length.toNat * 256 ^ (part.length - 1) + beNat part := by
  induction part generalizing position length with
  | nil => exact absurd rfl hpart
  | cons byte part ih =>
      have hbyte := u8At_of_drop hdrop
      have hnext := drop_succ_of_cons hdrop
      rw [beNat_cons, List.length_cons, Nat.add_sub_cancel] at hfits ⊢
      have hsum : (length.toNat + byte.toNat) * 256 ^ part.length + beNat part
          = length.toNat * 256 ^ part.length + (byte.toNat * 256 ^ part.length + beNat part) := by
        ring
      have hpos : 0 < 256 ^ part.length := Nat.pow_pos (by decide)
      have hle := Nat.le_mul_of_pos_right (length.toNat + byte.toNat) hpos
      have hadd : (length + byte.toUInt32).toNat = length.toNat + byte.toNat := by
        rw [UInt32.toNat_add, UInt8.toNat_toUInt32]
        exact Nat.mod_eq_of_lt (by omega)
      rw [asnBytesAt, hbyte, ← hsum]
      by_cases hlast : part = []
      · -- the last byte is added and not moved
        subst hlast
        rw [List.length_nil, if_neg (by decide), asnBytesAt, hadd, pow_zero, mul_one, beNat_nil,
          add_zero]
      · -- a byte that is not the last one moves what is read so far up by a byte
        obtain ⟨k, hk⟩ : ∃ k, part.length = k + 1 :=
          Nat.exists_eq_succ_of_ne_zero (mt List.length_eq_zero_iff.mp hlast)
        have hshift : ((length + byte.toUInt32) <<< 8).toNat
            = (length.toNat + byte.toNat) * 256 := by
          have hmul := Nat.mul_le_mul_left (length.toNat + byte.toNat)
            (Nat.pow_le_pow_right (by decide : 0 < 256) (by omega : 1 ≤ part.length))
          have height : 2 ^ ((8 : UInt32).toNat % 32) = 256 := rfl
          rw [UInt32.toNat_shiftLeft, hadd, Nat.shiftLeft_eq, height]
          exact Nat.mod_eq_of_lt (by omega)
        have hpow : (length.toNat + byte.toNat) * 256 * 256 ^ (part.length - 1)
            = (length.toNat + byte.toNat) * 256 ^ part.length := by
          rw [hk, Nat.add_sub_cancel, pow_succ']
          ring
        rw [if_pos (List.length_pos_iff.mpr hlast), ih hlast hnext (by rw [hshift, hpow]; omega),
          hshift, hpow]

/-- The number of bytes of a length that stands at a position is read off its first byte, in both
forms. -/
theorem asnCountAt_of_drop {l : AsnLength} (hdrop : bytes.drop position = l.encode ++ rest) :
    asnCountAt bytes position + 1 = l.encode.length := by
  cases l with
  | short value small =>
      rw [asnCountAt, u8At_of_drop hdrop, if_neg (by omega)]
      rfl
  | long part count =>
      have hfirst : (UInt8.ofNat (128 + part.length)).toNat = 128 + part.length :=
        UInt8.toNat_ofNat_of_lt' (by rw [UInt8.size]; omega)
      rw [asnCountAt, u8At_of_drop hdrop, hfirst, if_pos (by omega), Nat.add_sub_cancel_left]
      rfl

/-- A length that stands at a position is followed by what comes after it: `asnEnd` is behind its
bytes. -/
theorem asnEnd_encode {l : AsnLength} (hdrop : bytes.drop position = l.encode ++ rest) :
    asnEnd bytes position = position + l.encode.length := by
  rw [asnEnd, ← asnCountAt_of_drop hdrop]
  omega

/-- The value of a length that stands at a position, `(asnValueAt bytes position).toNat =
l.value`. -/
theorem asnValueAt_encode {l : AsnLength} (hdrop : bytes.drop position = l.encode ++ rest) :
    (asnValueAt bytes position).toNat = l.value := by
  cases l with
  | short value small =>
      rw [asnValueAt, u8At_of_drop hdrop, if_pos small, UInt8.toNat_toUInt32]
      rfl
  | long part count =>
      have hfirst : (UInt8.ofNat (128 + part.length)).toNat = 128 + part.length :=
        UInt8.toNat_ofNat_of_lt' (by rw [UInt8.size]; omega)
      have hcount : asnCountAt bytes position = part.length :=
        Nat.succ.inj (asnCountAt_of_drop (l := .long part count) hdrop)
      have hpart : part ≠ [] := List.length_pos_iff.mp count.1
      -- four bytes at most, so that nothing of the value is shifted out of the `u32`
      have hsmall : beNat part < 2 ^ 32 :=
        lt_of_lt_of_le (beNat_lt part)
          (Nat.pow_le_pow_right (by decide : 0 < 256) count.2)
      rw [asnValueAt, u8At_of_drop hdrop, hfirst, if_neg (by omega), hcount,
        asnBytesAt_encode hpart (drop_succ_of_cons hdrop) (by simpa using hsmall)]
      simp [AsnLength.value]

/-- A length that counts its bytes up to a multiple of `2 ^ 16` runs to the end of the frame, since
both sides of `asnFits` are words. -/
theorem asnFits_encode {l : AsnLength} (hdrop : bytes.drop position = l.encode ++ rest)
    {covered : Nat} (hcovered : l.value ≡ covered [MOD 2 ^ 16]) :
    asnFits bytes (UInt16.ofNat (position + l.encode.length + covered)) position = true := by
  rw [asnFits, asnEnd_encode hdrop, asnValueAt_encode hdrop, decide_eq_true_eq, ← UInt16.toNat_inj,
    UInt16.toNat_ofNat', UInt16.toNat_ofNat']
  exact (hcovered.add_left _).symm

/-! ## ASDUs -/

/-- A data unit that stands at a position is read back, `dataUnitAt bytes position = unit`. -/
theorem dataUnitAt_encode (unit : DataUnit) (hdrop : bytes.drop position = unit.encode ++ rest) :
    dataUnitAt bytes position = unit := by
  rw [DataUnit.encode, List.append_assoc, List.append_assoc] at hdrop
  have hquality := drop_add_of_append hdrop
  rw [length_beBytes] at hquality
  have hbitset := drop_add_of_append hquality
  rw [length_beBytes] at hbitset
  rw [dataUnitAt, u32At_of_drop hdrop, u16At_of_drop hquality, u16At_of_drop hbitset]
  rfl

/-- The data units that are read, as a list: the unit at every eighth position. -/
theorem toList_dataAt (bytes : List UInt8) (position count : Nat) :
    (dataAt bytes position count).toList
      = (List.range count).map fun i => dataUnitAt bytes (position + 8 * i) := by
  induction count with
  | zero => rfl
  | succ count ih =>
      rw [dataAt, Vector.toList_push, ih, List.range_succ, List.map_append]
      rfl

/-- Data units that stand one after the other are read back, by induction on their list. -/
theorem map_dataUnitAt_encode (units : List DataUnit)
    (hdrop : bytes.drop position = units.flatMap DataUnit.encode ++ rest) :
    (List.range units.length).map (fun i => dataUnitAt bytes (position + 8 * i)) = units := by
  induction units generalizing position with
  | nil => rfl
  | cons unit units ih =>
      rw [List.flatMap_cons, List.append_assoc] at hdrop
      have hnext := drop_add_of_append hdrop
      rw [unit.length_encode] at hnext
      have htail := ih hnext
      -- the positions of the rest are shifted by the eight bytes of the first unit
      rw [List.length_cons, List.range_succ_eq_map, List.map_cons, List.map_map, Nat.mul_zero,
        Nat.add_zero, dataUnitAt_encode unit hdrop]
      congr 1
      rw [← htail, List.length_map, List.length_range]
      refine List.map_congr_left fun i _ => congrArg (dataUnitAt bytes) ?_
      rw [Nat.succ_eq_add_one]
      omega

/-- The data units of an ASDU that stand at a position are read back: `dataAt bytes position count =
data`. -/
theorem dataAt_encode {count : Nat} (data : Vector DataUnit count)
    (hdrop : bytes.drop position = encodeData data ++ rest) :
    dataAt bytes position count = data := by
  have hunits := map_dataUnitAt_encode data.toList hdrop
  rw [Vector.length_toList] at hunits
  rw [← Vector.toList_inj, toList_dataAt, hunits]

/-- The fields of an ASDU that stand at a position pass `fieldChecks` and are read back. -/
theorem asduFields_encode (asdu : ASDU) (hdrop : bytes.drop position = asdu.head ++ rest) :
    (∀ check ∈ fieldChecks bytes position, check.2 = true) ∧
      u16At bytes (position + 2) = asdu.smpCnt ∧ u32At bytes (position + 6) = asdu.confRev ∧
      u8At bytes (position + 12) = asdu.smpSynch := by
  -- what stands behind each of the fields, one after the other
  simp only [ASDU.head, List.append_assoc, List.cons_append, List.nil_append] at hdrop
  have hcntLength := drop_succ_of_cons hdrop
  have hcnt := drop_succ_of_cons hcntLength
  have hrevId := drop_add_of_append hcnt
  rw [length_beBytes] at hrevId
  have hrevLength := drop_succ_of_cons hrevId
  have hrev := drop_succ_of_cons hrevLength
  have hsyncId := drop_add_of_append hrev
  rw [length_beBytes] at hsyncId
  have hsyncLength := drop_succ_of_cons hsyncId
  have hsync := drop_succ_of_cons hsyncLength
  have hsetId := drop_succ_of_cons hsync
  have hsetLength := drop_succ_of_cons hsetId
  refine ⟨?_, u16At_of_drop hcnt, u32At_of_drop hrev, u8At_of_drop hsync⟩
  simp only [fieldChecks, List.forall_mem_cons, decide_eq_true_eq]
  exact ⟨u8At_of_drop hdrop, u8At_of_drop hcntLength, u8At_of_drop hrevId, u8At_of_drop hrevLength,
    u8At_of_drop hsyncId, u8At_of_drop hsyncLength, u8At_of_drop hsetId, u8At_of_drop hsetLength,
    by simp⟩

/-- The header of an ASDU that stands at a position passes `asduChecks`, its length is that of the
format, and the fields stand behind the svID. -/
theorem asduHeader_encode (a : SvAsdu) (hdrop : bytes.drop position = a.head ++ rest) :
    (∀ check ∈ asduChecks bytes position, check.2 = true) ∧
      (u8At bytes (position + 1)).toNat = 81 + a.svId.length ∧
      svIdLengthAt bytes position = a.svId.length ∧
      bytes.drop (svIdEnd bytes position) = a.asdu.head ++ rest := by
  have hlength := a.length_svId
  simp only [SvAsdu.head, List.append_assoc, List.cons_append, List.nil_append] at hdrop
  have hasduLength := drop_succ_of_cons hdrop
  have hsvId := drop_succ_of_cons hasduLength
  have hsvIdLength := drop_succ_of_cons hsvId
  have hfields := drop_add_of_append (drop_succ_of_cons hsvIdLength)
  -- an svID has 34 bytes at most, so that both lengths fit into their bytes
  have hsmall : (UInt8.ofNat a.svId.length).toNat = a.svId.length :=
    UInt8.toNat_ofNat_of_lt' (by rw [UInt8.size]; omega)
  have htruthful : (UInt8.ofNat (81 + a.svId.length)).toNat = 81 + a.svId.length :=
    UInt8.toNat_ofNat_of_lt' (by rw [UInt8.size]; omega)
  have hsvIdLengthAt : svIdLengthAt bytes position = a.svId.length := by
    rw [svIdLengthAt, ← hsmall]
    exact congrArg UInt8.toNat (u8At_of_drop hsvIdLength)
  refine ⟨?_, ?_, hsvIdLengthAt, ?_⟩
  · simp only [asduChecks, List.forall_mem_cons, decide_eq_true_eq]
    rw [u8At_of_drop hdrop, u8At_of_drop hasduLength, u8At_of_drop hsvId, u8At_of_drop hsvIdLength]
    refine ⟨rfl, ?_, rfl, ?_, by simp⟩
    · rw [UInt8.le_iff_toNat_le, UInt8.le_iff_toNat_le, htruthful]
      exact ⟨Nat.add_le_add_left hlength.1 81, Nat.add_le_add_left hlength.2 81⟩
    · rw [UInt8.le_iff_toNat_le, UInt8.le_iff_toNat_le, hsmall]
      exact hlength
  · rw [u8At_of_drop hasduLength, htruthful]
  · rw [svIdEnd, hsvIdLengthAt]
    exact hfields

/-- **An ASDU** whose bytes before its data units stand at a position is accepted and stored, with
the data units that are read behind them. -/
theorem asduScan_head (a : SvAsdu) (hdrop : bytes.drop position = a.head ++ rest) :
    asduScan bytes position = ⟨true, position + a.encode.length,
      [{ a.asdu with data := dataAt bytes (position + a.head.length) unitsPerASDU }]⟩ := by
  obtain ⟨hheader, htruthful, hsvId, hfields⟩ := asduHeader_encode a hdrop
  obtain ⟨hchecks, hcnt, hrev, hsync⟩ := asduFields_encode a.asdu hfields
  -- the data units are not looked at: what is stored of them is what is read there
  have hend : svIdEnd bytes position = position + 4 + a.svId.length := by rw [svIdEnd, hsvId]
  have hdata : position + a.head.length = svIdEnd bytes position + 15 := by
    rw [a.length_head, hend]
    omega
  have hstop : position + a.encode.length = svIdEnd bytes position + 79 := by
    rw [a.length_encode, hend]
    omega
  rw [asduScan, runChecks_of_forall hheader, runChecks_of_forall hchecks, asduPass, asduAt, hcnt,
    hrev, hsync, htruthful, hsvId, decide_eq_true rfl, hdata, hstop]

/-- **An ASDU** that stands at a position is accepted and stored, and the position is behind its
bytes. -/
theorem asduScan_encode (a : SvAsdu) (hdrop : bytes.drop position = a.encode ++ rest) :
    asduScan bytes position = ⟨true, position + a.encode.length, [a.asdu]⟩ := by
  rw [a.encode_eq, List.append_assoc] at hdrop
  rw [asduScan_head a hdrop, dataAt_encode a.asdu.data (drop_add_of_append hdrop)]

/-- **ASDUs** that stand one after the other are accepted and stored in their order. -/
theorem asdusScan_encode (asdus : List SvAsdu)
    (hdrop : bytes.drop position = asdus.flatMap SvAsdu.encode ++ rest) :
    asdusScan bytes asdus.length position
      = ⟨true, position + (asdus.flatMap SvAsdu.encode).length, asdus.map SvAsdu.asdu⟩ := by
  induction asdus generalizing position with
  | nil => rfl
  | cons a asdus ih =>
      rw [List.flatMap_cons, List.append_assoc] at hdrop
      rw [List.length_cons, asdusScan_succ, asduScan_encode a hdrop, if_pos rfl,
        ih (drop_add_of_append hdrop), List.flatMap_cons, List.length_append, ← Nat.add_assoc]
      rfl

/-! ## PDUs -/

/-- The checks of a PDU whose bytes before its ASDUs stand at a position all hold, and its ASDUs
start behind these bytes. The ASDUs themselves are not needed, which is used where they are
damaged. -/
theorem pduChecks_head {pdu : SvPdu} (hpdu : pdu.Congruent)
    (hdrop : bytes.drop position = pdu.head ++ rest) :
    frameEndAt bytes position = UInt16.ofNat (position + pdu.length) ∧
      (∀ check ∈ pduChecks bytes position, check.2 = true) ∧
      seqCountAt bytes position = pdu.asdus.length ∧
      asdusStart bytes position = position + pdu.head.length := by
  obtain ⟨hsavBytes, hlength, -, hsmall⟩ := pdu.length_bounds
  have hcount := pdu.count
  have hword : (UInt16.ofNat pdu.length).toNat = pdu.length :=
    UInt16.toNat_ofNat_of_lt' (by rw [UInt16.size]; omega)
  have hseqCount : (UInt8.ofNat pdu.asdus.length).toNat = pdu.asdus.length :=
    UInt8.toNat_ofNat_of_lt' (by rw [UInt8.size]; omega)
  have hhead := pdu.length_head.1
  rw [SvPdu.head, ← hword] at hdrop
  simp only [List.append_assoc, List.cons_append, List.nil_append] at hdrop
  -- the header
  have hheadLength := drop_add_of_append hdrop
  rw [length_beBytes] at hheadLength
  have hres1 := drop_add_of_append hheadLength
  rw [length_beBytes] at hres1
  have hres2 := drop_add_of_append hres1
  rw [length_beBytes] at hres2
  have hpduId := drop_add_of_append hres2
  rw [length_beBytes] at hpduId
  -- the number of ASDUs
  have hsavLength := drop_succ_of_cons hpduId
  have hnoAsduId := drop_add_of_append hsavLength
  have hone := drop_succ_of_cons hnoAsduId
  have hseq := drop_succ_of_cons hone
  have hseqId := drop_succ_of_cons hseq
  have hseqLength := drop_succ_of_cons hseqId
  have hsav : asnEnd bytes (position + 9) = position + 9 + pdu.savLength.encode.length :=
    asnEnd_encode hsavLength
  have hstart : asdusStart bytes position
      = position + 9 + pdu.savLength.encode.length + 4 + pdu.seqLength.encode.length := by
    rw [asdusStart, hsav]
    exact asnEnd_encode hseqLength
  have hend : frameEndAt bytes position = UInt16.ofNat (position + pdu.length) := by
    rw [frameEndAt, u16At_of_drop hheadLength, UInt16.ofNat_add]
  refine ⟨hend, ?_, ?_, by omega⟩
  · -- both lengths run to the end of the frame
    have hsavFits := asnFits_encode hsavLength hpdu.1
    have hseqFits := asnFits_encode hseqLength hpdu.2
    have hsavEnd : position + 8 + 1 + pdu.savLength.encode.length + pdu.savBytes.length
        = position + pdu.length := by omega
    have hseqEnd : position + 8 + 1 + pdu.savLength.encode.length + 1 + 1 + 1 + 1
        + pdu.seqLength.encode.length + pdu.asduBytes.length = position + pdu.length := by omega
    have hcounted : u8At bytes (position + 9 + pdu.savLength.encode.length + 2)
        = UInt8.ofNat pdu.asdus.length := u8At_of_drop hseq
    rw [hsavEnd] at hsavFits
    rw [hseqEnd] at hseqFits
    simp only [pduChecks, List.forall_mem_cons, decide_eq_true_eq]
    rw [hend, hsav, u16At_of_drop hheadLength, u8At_of_drop hpduId, hcounted,
      UInt8.le_iff_toNat_le, UInt8.le_iff_toNat_le, hseqCount]
    refine ⟨?_, rfl, hsavFits, u8At_of_drop hnoAsduId, u8At_of_drop hone, hcount,
      u8At_of_drop hseqId, hseqFits, by simp⟩
    intro hzero
    have hempty : (UInt16.ofNat pdu.length).toNat = 0 := congrArg UInt16.toNat hzero
    omega
  · rw [seqCountAt, hsav, ← hseqCount]
    exact congrArg UInt8.toNat (u8At_of_drop hseq)

/-- **A PDU** that stands at a position is accepted and its ASDUs are stored, also when its lengths
are right up to multiples of `2 ^ 16` only. -/
theorem pduScan_encode {pdu : SvPdu} (hpdu : pdu.Congruent)
    (hdrop : bytes.drop position = pdu.encode ++ rest) :
    pduScan bytes position = ⟨true, position + pdu.encode.length, pdu.values⟩ := by
  rw [pdu.encode_eq, List.append_assoc] at hdrop
  obtain ⟨hend, hchecks, hcount, hstart⟩ := pduChecks_head hpdu hdrop
  have hscan := asdusScan_encode pdu.asdus (drop_add_of_append hdrop)
  rw [← SvPdu.asduBytes, Nat.add_assoc, pdu.length_head.1] at hscan
  rw [pduScan, runChecks_of_forall hchecks, sequencePass, hcount, hstart, hscan, hend,
    pdu.length_encode, decide_eq_true rfl]
  rfl

/-! ## Frames -/

/-- **Frames** that stand one after the other are found in their order, and the loop goes on behind
them. -/
theorem framesScan_encode {frames : List SvFrame} (hframes : ∀ frame ∈ frames, frame.pdu.Congruent)
    (hdrop : bytes.drop position = frames.flatMap SvFrame.encode ++ rest) {written : Nat}
    (hwritten : position + (frames.flatMap SvFrame.encode).length ≤ written) {fuel stop : Nat}
    {asdus : List ASDU}
    (hrest : framesScan bytes written fuel (position + (frames.flatMap SvFrame.encode).length)
      = some (asdus, stop)) :
    framesScan bytes written (frames.length + fuel) position
      = some ((frames.flatMap fun frame => frame.pdu.values) ++ asdus, stop) := by
  induction frames generalizing position with
  | nil =>
      rw [List.length_nil, Nat.zero_add]
      exact hrest
  | cons frame frames ih =>
      rw [List.flatMap_cons, List.append_assoc, SvFrame.encode, List.append_assoc] at hdrop
      have hpdu := drop_add_of_append hdrop
      have hnext := drop_add_of_append hpdu
      rw [frame.length_etherHeader] at hpdu hnext
      have hframe := frame.length_encode
      have hend : position + ((frame :: frames).flatMap SvFrame.encode).length
          = position + 14 + frame.pdu.encode.length + (frames.flatMap SvFrame.encode).length := by
        rw [List.flatMap_cons, List.length_append, hframe, frame.pdu.length_encode]
        omega
      rw [hend] at hwritten hrest
      -- the first frame, then those behind it by induction
      have hscan : pduScan bytes (position + etherHeaderSize)
          = ⟨true, position + 14 + frame.pdu.encode.length, frame.pdu.values⟩ :=
        pduScan_encode (hframes frame List.mem_cons_self) hpdu
      have htail := ih (fun f hf => hframes f (List.mem_cons_of_mem _ hf)) hnext hwritten hrest
      have hloop := framesScan_of_lt (show position < written by omega)
        (by rw [hscan]; exact htail)
      rw [hscan] at hloop
      rw [List.length_cons, Nat.add_right_comm, hloop, List.flatMap_cons, List.append_assoc]

/-- Every frame takes a byte at least, so that the loop has enough iterations. -/
theorem length_le_length_flatMap (frames : List SvFrame) :
    frames.length ≤ (frames.flatMap SvFrame.encode).length := by
  induction frames with
  | nil => exact le_refl _
  | cons frame frames ih =>
      rw [List.flatMap_cons, List.length_append, frame.length_encode, List.length_cons]
      omega

/-- Frames whose lengths are congruent, laid one after the other from the start of a buffer, are
parsed to their ASDUs. -/
theorem parse_frames [Bytes.Host] {size : Nat} {frames : List SvFrame}
    (hframes : ∀ frame ∈ frames, frame.pdu.Congruent) {b : StaticBuffer size}
    (hdata : frames.flatMap SvFrame.encode <+: b.data.toList) (hoffset : b.offset = 0)
    (hwritten : b.written.toNat = (frames.flatMap SvFrame.encode).length)
    (hsize : (frames.flatMap SvFrame.encode).length < size) (internalFrameLength : UInt16) :
    ∃ left, IecParser.parse { parser := { sequence := [], internalFrameLength }, buffer := b }
      = .ok (frames.flatMap fun frame => frame.pdu.values)
        { parser := { sequence := [], internalFrameLength := left }
          buffer := { b with offset := b.written } } := by
  obtain ⟨rest, hrest⟩ := hdata
  have hsmall := b.size_lt
  -- the frames are at the start of what can be read; behind them is what the array held before
  have hreadable : b.readable.drop 0
      = frames.flatMap SvFrame.encode ++ rest.take
        (size - 1 - (frames.flatMap SvFrame.encode).length) := by
    rw [List.drop_zero, StaticBuffer.readable, ← hrest, List.take_append,
      List.take_of_length_le (by omega)]
  have hfuel := length_le_length_flatMap frames
  have hstop : framesScan b.readable b.written.toNat (b.written.toNat - frames.length + 1)
      (0 + (frames.flatMap SvFrame.encode).length) = some ([], b.written.toNat) := by
    rw [Nat.zero_add, ← hwritten]
    exact framesScan_of_le _ (le_refl _) _
  have hscan := framesScan_encode hframes hreadable (by omega) hstop
  rw [List.append_nil, ← Nat.add_assoc, Nat.add_sub_cancel' (by omega)] at hscan
  obtain ⟨left, hparse⟩ := IecParser.parse_start hoffset (by omega) [] internalFrameLength hscan
  rw [List.nil_append, StaticBuffer.seek, UInt64.ofNat_toNat] at hparse
  exact ⟨left, hparse⟩

/-- **Decoding undoes encoding.** For frames that are laid one after the other from the start of a
buffer, `parse` returns the ASDUs of all of them in order and leaves the offset behind the last. -/
theorem parse_encode [Bytes.Host] {size : Nat} (frames : List SvFrame)
    (hexact : ∀ frame ∈ frames, frame.pdu.Exact) (b : StaticBuffer size)
    (hdata : frames.flatMap SvFrame.encode <+: b.data.toList) (hoffset : b.offset = 0)
    (hwritten : b.written.toNat = (frames.flatMap SvFrame.encode).length)
    (hsize : (frames.flatMap SvFrame.encode).length < size) (internalFrameLength : UInt16) :
    ∃ left, IecParser.parse { parser := { sequence := [], internalFrameLength }, buffer := b }
      = .ok (frames.flatMap fun frame => frame.pdu.values)
        { parser := { sequence := [], internalFrameLength := left }
          buffer := { b with offset := b.written } } :=
  parse_frames (fun frame hmem => (hexact frame hmem).congruent) hdata hoffset hwritten hsize
    internalFrameLength

/-- An ASDU of a frame with an svID of ten zeros, the shortest one that is accepted. -/
def sampleAsdu : SvAsdu where
  svId := List.replicate 10 0
  asdu :=
    { smpCnt := 7, smpSynch := 1, confRev := 1
      data := Vector.replicate unitsPerASDU { instMagI := -5, quality := 0, bitset := 3 } }
  length_svId := by decide

/-- A frame with two ASDUs. The first length is in long form with a leading zero. -/
def sampleFrame : SvFrame where
  etherHeader := List.replicate 14 0
  pdu :=
    { appID := 0x4000, res1 := 0, res2 := 0
      savLength := .long [0, 192] (by decide)
      seqLength := .long [186] (by decide)
      asdus := [sampleAsdu, sampleAsdu]
      count := by decide }
  length_etherHeader := rfl

/-- A buffer that holds `sampleFrame`, and has room for one more byte. -/
def sampleBuffer : StaticBuffer 219 where
  data := ⟨(sampleFrame.encode ++ [0]).toArray, by decide +kernel⟩
  offset := 0
  written := 218
  size_lt := by decide

/-- One frame with two ASDUs in a buffer with room for one more byte: both are returned. -/
theorem parse_encode_frame :
    ∃ left, @IecParser.parse 219 ⟨.littleEndian⟩
        { parser := IecParser.new, buffer := sampleBuffer }
      = .ok [sampleAsdu.asdu, sampleAsdu.asdu]
        { parser := { sequence := [], internalFrameLength := left }
          buffer := { sampleBuffer with offset := 218 } } :=
  @parse_encode ⟨.littleEndian⟩ 219 [sampleFrame] (by decide +kernel) sampleBuffer
    ⟨[0], by decide +kernel⟩ rfl (by decide +kernel) (by decide +kernel) 0

end Iec

end IecCore
