import IecCore.Iec.Completeness

/-! # The parser accepts nothing but what is encoded

An accepted part of a frame whose bytes the buffer can read stands there as the grammar says,
however the counters of the parser wrap. The checks give the tags and the sizes; the rest of the
bytes is a value of the grammar whatever it is. The counters are words, so that the lengths are
known up to multiples of `2 ^ 16`, and the length in the header is known since a PDU is small.

* **`asnLength_sound`** — a length that runs to the end of the frame stands where it was read.
* **`asduScan_sound`**, **`asdusScan_sound`**, **`pduScan_sound`** — an accepted part is encoded
  there, `bytes.drop position = pdu.encode ++ bytes.drop stop`, and its values are stored.
* **`wp_readU16_past`**, **`wp_parsePDU_past`** — past the end a read returns zero and stays there,
  so that no PDU is accepted from there (`inside_of_accepted`).
* **`parsePDU_ok`** — the outcome of a call that returns.
* **`parsePDU_sound`** — the bytes of an accepted PDU, and the ASDUs that are stored for it. -/

namespace IecCore

namespace Iec

variable {bytes : List UInt8} {position : Nat}

/-- An accepted call has passed its checks, since a failed one is not accepted. -/
theorem runChecks_accepted {checks : List (Nat × Bool)} {pass : Scan}
    (h : (runChecks checks pass).accepted = true) :
    runChecks checks pass = pass ∧ ∀ check ∈ checks, check.2 = true := by
  rcases runChecks_cases checks pass with hpass | ⟨check, -, -, hrun⟩
  · exact hpass
  · rw [hrun] at h
    cases h

/-- The byte at a position, when it is known, stands there, if the position is inside the bytes. -/
theorem drop_of_u8At {byte : UInt8} (h : u8At bytes position = byte)
    (hinside : position < bytes.length) :
    bytes.drop position = byte :: bytes.drop (position + 1) := by
  rw [← h, ← drop_eq_u8At hinside]

/-- **Splitting** at a position: the next `length` bytes stand in front of those from `position +
length` on. -/
theorem drop_eq_take_append (bytes : List UInt8) (position length : Nat) :
    bytes.drop position = (bytes.drop position).take length ++ bytes.drop (position + length) := by
  rw [← List.drop_drop, List.take_append_drop]

/-! ## Lengths -/

/-- A length that runs to the end of the frame stands there. The forms without a value are excluded,
because a part of the frame follows. -/
theorem asnLength_sound {stop : Nat} (hlt : asnEnd bytes position < stop)
    (hsmall : stop - asnEnd bytes position < 2 ^ 16) (hinside : stop ≤ bytes.length)
    (hfits : asnFits bytes (UInt16.ofNat stop) position = true) :
    ∃ l : AsnLength, l.value ≡ stop - asnEnd bytes position [MOD 2 ^ 16] ∧
      bytes.drop position = l.encode ++ bytes.drop (asnEnd bytes position) := by
  have hcongruent : (asnValueAt bytes position).toNat
      ≡ stop - asnEnd bytes position [MOD 2 ^ 16] := by
    rw [asnFits, decide_eq_true_eq, ← UInt16.toNat_inj, UInt16.toNat_ofNat', UInt16.toNat_ofNat',
      ← Nat.add_sub_cancel' hlt.le] at hfits
    exact (Nat.ModEq.add_left_cancel' _ hfits).symm
  have hend : asnEnd bytes position = position + 1 + asnCountAt bytes position := rfl
  -- whichever length stands there, it has the value that was read
  suffices h : ∃ l : AsnLength,
      bytes.drop position = l.encode ++ bytes.drop (asnEnd bytes position) by
    obtain ⟨l, hdrop⟩ := h
    refine ⟨l, ?_, hdrop⟩
    rwa [← asnValueAt_encode hdrop]
  have hfirst := drop_eq_u8At (show position < bytes.length by omega)
  by_cases hshort : (u8At bytes position).toNat < 128
  · refine ⟨.short (u8At bytes position) hshort, ?_⟩
    rw [asnEnd, asnCountAt, if_neg (by omega)]
    exact hfirst
  by_cases hlong : 129 ≤ (u8At bytes position).toNat ∧ (u8At bytes position).toNat ≤ 132
  · have hcount : asnCountAt bytes position = (u8At bytes position).toNat - 128 := by
      rw [asnCountAt, if_pos (by omega)]
    have hlength : ((bytes.drop (position + 1)).take (asnCountAt bytes position)).length
        = asnCountAt bytes position := by
      rw [List.length_take, List.length_drop]
      omega
    refine ⟨.long ((bytes.drop (position + 1)).take (asnCountAt bytes position)) (by omega), ?_⟩
    have hbyte : UInt8.ofNat (128 + asnCountAt bytes position) = u8At bytes position := by
      rw [hcount, Nat.add_sub_cancel' (by omega), UInt8.ofNat_toNat]
    rw [AsnLength.encode, hlength, hbyte, hend, List.cons_append, ← drop_eq_take_append]
    exact hfirst
  · have hzero : asnValueAt bytes position = 0 := by
      have hcount : asnCountAt bytes position = 0 := by
        rw [asnCountAt]
        split <;> omega
      rw [asnValueAt, if_neg hshort, hcount, asnBytesAt]
    rw [hzero] at hcongruent
    have hmod : 0 % 2 ^ 16 = (stop - asnEnd bytes position) % 2 ^ 16 := hcongruent
    omega

/-! ## ASDUs -/

/-- A data unit inside the bytes stands there: any eight bytes are the encoding of one. -/
theorem dataUnit_sound (hinside : position + 8 ≤ bytes.length) :
    bytes.drop position = (dataUnitAt bytes position).encode ++ bytes.drop (position + 8) := by
  have hquality := drop_eq_u16At (show position + 4 + 2 ≤ bytes.length by omega)
  have hbitset := drop_eq_u16At (show position + 6 + 2 ≤ bytes.length by omega)
  rw [drop_eq_u32At (show position + 4 ≤ bytes.length by omega), hquality, hbitset,
    DataUnit.encode, List.append_assoc, List.append_assoc]
  rfl

/-- Data units inside the bytes stand there, by induction on their number. -/
theorem data_sound (count : Nat) (hinside : position + 8 * count ≤ bytes.length) :
    bytes.drop position
      = encodeData (dataAt bytes position count) ++ bytes.drop (position + 8 * count) := by
  induction count with
  | zero => rfl
  | succ count ih =>
      have hunit : bytes.drop (position + 8 * count)
          = (dataUnitAt bytes (position + 8 * count)).encode
            ++ bytes.drop (position + 8 * count + 8) := dataUnit_sound (by omega)
      rw [ih (by omega), hunit, dataAt, encodeData, encodeData, Vector.toList_push,
        List.flatMap_append, List.flatMap_singleton, List.append_assoc]
      rfl

/-- The fields of an ASDU whose checks hold stand there: the checks give the tags and the sizes, the
values may be anything. -/
theorem asduFields_sound (asdu : ASDU)
    (hchecks : ∀ check ∈ fieldChecks bytes position, check.2 = true)
    (hinside : position + 15 ≤ bytes.length) (hcnt : asdu.smpCnt = u16At bytes (position + 2))
    (hrev : asdu.confRev = u32At bytes (position + 6))
    (hsync : asdu.smpSynch = u8At bytes (position + 12)) :
    bytes.drop position = asdu.head ++ bytes.drop (position + 15) := by
  simp only [fieldChecks, List.forall_mem_cons, decide_eq_true_eq] at hchecks
  obtain ⟨hcntId, hcntLength, hrevId, hrevLength, hsyncId, hsyncLength, hsetId, hsetLength, -⟩ :=
    hchecks
  simp only [ASDU.head, hcnt, hrev, hsync, List.append_assoc, List.cons_append, List.nil_append]
  -- the fields in their order, each by its check or by what is read of it
  rw [drop_of_u8At hcntId (by omega), drop_of_u8At hcntLength (by omega),
    drop_eq_u16At (show position + 2 + 2 ≤ bytes.length by omega), drop_of_u8At hrevId (by omega),
    drop_of_u8At hrevLength (by omega),
    drop_eq_u32At (show position + 6 + 4 ≤ bytes.length by omega), drop_of_u8At hsyncId (by omega),
    drop_of_u8At hsyncLength (by omega), drop_eq_u8At (show position + 12 < bytes.length by omega),
    drop_of_u8At hsetId (by omega), drop_of_u8At hsetLength (by omega)]

/-- **An accepted ASDU** stands where it was read, and it is what was stored. -/
theorem asduScan_sound (haccepted : (asduScan bytes position).accepted = true)
    (hinside : (asduScan bytes position).stop ≤ bytes.length) :
    ∃ a : SvAsdu, (asduScan bytes position).asdus = [a.asdu] ∧
      bytes.drop position = a.encode ++ bytes.drop (asduScan bytes position).stop := by
  obtain ⟨hscan, hheader⟩ := runChecks_accepted haccepted
  rw [asduScan, hscan] at haccepted hinside ⊢
  obtain ⟨hpass, hfields⟩ := runChecks_accepted haccepted
  rw [hpass] at haccepted hinside ⊢
  have htruthful : (u8At bytes (position + 1)).toNat = 81 + svIdLengthAt bytes position :=
    of_decide_eq_true haccepted
  have hstop : svIdEnd bytes position + 79 ≤ bytes.length := hinside
  have hstart : svIdEnd bytes position = position + 4 + svIdLengthAt bytes position := rfl
  simp only [asduChecks, List.forall_mem_cons, decide_eq_true_eq, UInt8.le_iff_toNat_le] at hheader
  obtain ⟨hid, -, hsvId, hlength, -⟩ := hheader
  obtain ⟨svId, hsplit, hsvIdLength⟩ : ∃ svId,
      bytes.drop (position + 4) = svId ++ bytes.drop (svIdEnd bytes position) ∧
        svId.length = svIdLengthAt bytes position := by
    refine ⟨_, drop_eq_take_append bytes (position + 4) (svIdLengthAt bytes position), ?_⟩
    rw [List.length_take, List.length_drop]
    omega
  -- the last check makes the length byte the one of the grammar
  refine ⟨⟨svId, asduAt bytes position, by rw [hsvIdLength]; exact hlength⟩, rfl, ?_⟩
  have hlengthByte : u8At bytes (position + 1)
      = UInt8.ofNat (81 + svIdLengthAt bytes position) := by
    rw [← htruthful, UInt8.ofNat_toNat]
  have hsvIdLengthByte : u8At bytes (position + 3) = UInt8.ofNat (svIdLengthAt bytes position) := by
    rw [svIdLengthAt, UInt8.ofNat_toNat]
  have hdata : bytes.drop (svIdEnd bytes position + 15)
      = encodeData (asduAt bytes position).data ++ bytes.drop (svIdEnd bytes position + 79) :=
    data_sound unitsPerASDU (show svIdEnd bytes position + 15 + 64 ≤ bytes.length from hstop)
  simp only [SvAsdu.encode, SvAsdu.head, hsvIdLength, List.append_assoc, List.cons_append,
    List.nil_append]
  rw [drop_of_u8At hid (by omega), drop_of_u8At hlengthByte (by omega),
    drop_of_u8At hsvId (by omega), drop_of_u8At hsvIdLengthByte (by omega), hsplit,
    asduFields_sound (asduAt bytes position) hfields (by omega) rfl rfl rfl, hdata]
  rfl

/-- **Accepted ASDUs** stand where they were read, one after the other. -/
theorem asdusScan_sound {count : Nat} (haccepted : (asdusScan bytes count position).accepted = true)
    (hinside : (asdusScan bytes count position).stop ≤ bytes.length) :
    ∃ asdus : List SvAsdu, asdus.length = count ∧
      (asdusScan bytes count position).asdus = asdus.map SvAsdu.asdu ∧
      bytes.drop position = asdus.flatMap SvAsdu.encode
        ++ bytes.drop (asdusScan bytes count position).stop := by
  induction count generalizing position with
  | zero => exact ⟨[], rfl, rfl, rfl⟩
  | succ count ih =>
      rw [asdusScan_succ] at haccepted hinside ⊢
      by_cases hfirst : (asduScan bytes position).accepted = true
      · rw [if_pos hfirst] at haccepted hinside ⊢
        -- the rest starts where the first one stops, which is inside the bytes too
        have hle := (asdusScan_stop bytes count (asduScan bytes position).stop).1
        obtain ⟨a, ha, hdrop⟩ := asduScan_sound hfirst (hle.trans hinside)
        obtain ⟨asdus, hlength, hasdus, hrest⟩ := ih haccepted hinside
        refine ⟨a :: asdus, by rw [List.length_cons, hlength], ?_, ?_⟩
        · rw [ha, hasdus]
          rfl
        · rw [List.flatMap_cons, List.append_assoc, ← hrest]
          exact hdrop
      · rw [if_neg hfirst] at haccepted
        exact absurd haccepted hfirst

/-! ## PDUs -/

/-- The end of a frame that is known as a word is known as a number, when the frame is small: the
length in the header is then exact. -/
theorem length_of_frameEnd {stop : Nat} (hle : position ≤ stop) (hsmall : stop - position < 2 ^ 16)
    (hend : frameEndAt bytes position = UInt16.ofNat stop) :
    (u16At bytes (position + 2)).toNat = stop - position := by
  have hsplit : stop = position + (stop - position) := (Nat.add_sub_cancel' hle).symm
  rw [frameEndAt, hsplit, UInt16.ofNat_add, UInt16.add_right_inj] at hend
  rw [hend, UInt16.toNat_ofNat']
  exact Nat.mod_eq_of_lt hsmall

/-- **An accepted PDU** stands where it was read: its lengths are congruent to what they cover, that
of the header is exact, and its ASDUs were stored. -/
theorem pduScan_sound (haccepted : (pduScan bytes position).accepted = true)
    (hinside : (pduScan bytes position).stop ≤ bytes.length) :
    ∃ pdu : SvPdu, pdu.Congruent ∧ (pduScan bytes position).asdus = pdu.values ∧
      (pduScan bytes position).stop = position + pdu.length ∧
      bytes.drop position = pdu.encode ++ bytes.drop (pduScan bytes position).stop := by
  have hbounds := pduScan_stop bytes position
  obtain ⟨hscan, hchecks⟩ := runChecks_accepted haccepted
  rw [pduScan, hscan, sequencePass] at haccepted hinside hbounds ⊢
  obtain ⟨hasdus, hend⟩ := (Bool.and_eq_true _ _).mp haccepted
  have hstop := (asdusScan_stop bytes (seqCountAt bytes position) (asdusStart bytes position)).1
  obtain ⟨asdus, hcount, hvalues, hdrop⟩ := asdusScan_sound hasdus hinside
  dsimp only at hinside hbounds ⊢
  generalize (asdusScan bytes (seqCountAt bytes position) (asdusStart bytes position)).stop = stop
    at hend hstop hdrop hinside hbounds ⊢
  rw [decide_eq_true_eq] at hend
  simp only [pduChecks, List.forall_mem_cons, decide_eq_true_eq] at hchecks
  obtain ⟨-, hpduId, hsavFits, hnoAsduId, hone, hseq, hseqId, hseqFits, -⟩ := hchecks
  rw [hend] at hsavFits hseqFits
  have hcountBounds : 1 ≤ asdus.length ∧ asdus.length ≤ 16 := by
    rw [hcount]
    exact ⟨UInt8.le_iff_toNat_le.mp hseq.1, UInt8.le_iff_toNat_le.mp hseq.2⟩
  have hseqByte : u8At bytes (asnEnd bytes (position + 9) + 2) = UInt8.ofNat asdus.length := by
    rw [hcount, seqCountAt, UInt8.ofNat_toNat]
  have hstart : asdusStart bytes position = asnEnd bytes (asnEnd bytes (position + 9) + 4) := rfl
  have hsavEnd := asnEnd_bounds bytes (position + 9)
  have hseqEnd := asnEnd_bounds bytes (asnEnd bytes (position + 9) + 4)
  have hflatMap := length_flatMap_encode asdus
  -- the ASDUs are as long as the rest of the frame
  have hasduLength : (asdus.flatMap SvAsdu.encode).length = stop - asdusStart bytes position := by
    have hlength := congrArg List.length hdrop
    rw [List.length_append, List.length_drop, List.length_drop] at hlength
    omega
  -- both lengths run to the end of the frame, and something follows them
  obtain ⟨savLength, hsavValue, hsav⟩ := asnLength_sound (by omega) (by omega) hinside hsavFits
  obtain ⟨seqLength, hseqValue, hseqDrop⟩ := asnLength_sound (by omega) (by omega) hinside hseqFits
  have hsavLength := asnEnd_encode hsav
  have hseqLength := asnEnd_encode hseqDrop
  have hheadLength := length_of_frameEnd (by omega) (by omega) hend
  -- the PDU whose fields are what was read
  let pdu : SvPdu :=
    { appID := u16At bytes position, res1 := u16At bytes (position + 4),
      res2 := u16At bytes (position + 6), savLength, seqLength, asdus, count := hcountBounds }
  obtain ⟨hsavBytes, hlength, -, -⟩ := pdu.length_bounds
  have hasduBytes : pdu.asduBytes.length = stop - asdusStart bytes position := hasduLength
  have hsavParts : pdu.savLength.encode.length = savLength.encode.length := rfl
  have hseqParts : pdu.seqLength.encode.length = seqLength.encode.length := rfl
  have hpduLength : pdu.length = stop - position := by omega
  refine ⟨pdu, ⟨?_, ?_⟩, hvalues, by omega, ?_⟩
  · have hcovered : pdu.savBytes.length = stop - asnEnd bytes (position + 9) := by omega
    rw [hcovered]
    exact hsavValue
  · rw [hasduBytes, hstart]
    exact hseqValue
  · -- its bytes, from the header to the ASDUs
    rw [SvPdu.encode, hpduLength, ← hheadLength]
    simp only [SvPdu.body, SvPdu.savBytes, List.append_assoc, List.cons_append, List.nil_append]
    rw [drop_eq_u16At (show position + 2 ≤ bytes.length by omega),
      drop_eq_u16At (show position + 2 + 2 ≤ bytes.length by omega),
      drop_eq_u16At (show position + 4 + 2 ≤ bytes.length by omega),
      drop_eq_u16At (show position + 6 + 2 ≤ bytes.length by omega),
      drop_of_u8At hpduId (by omega), hsav, drop_of_u8At hnoAsduId (by omega),
      drop_of_u8At hone (by omega), drop_of_u8At hseqByte (by omega),
      drop_of_u8At hseqId (by omega), hseqDrop, ← hstart, hdrop]
    rfl

/-! ## Calls of the parser -/

namespace IecParser

variable {size : Nat}

/-- A word of the header that is read past the end is zero, and the offset stays past the end. -/
theorem wp_readU16_past [Bytes.Host] {s : ParseState size} (hpast : size ≤ s.buffer.offset.toNat) :
    wp (onBuffer StaticBuffer.readU16)
      (fun word t => word = 0 ∧ size ≤ t.buffer.offset.toNat ∧ t.parser = s.parser)
      (fun _ _ => True) s :=
  (wp_zoom _).mpr ((StaticBuffer.wp_readU16_past hpast).imp
    fun _ _ ⟨hzero, hpast'⟩ => ⟨hzero, hpast', rfl⟩)

/-- Past the end a PDU has the length zero and is rejected, and the parser stays as it is. -/
theorem wp_parsePDU_past [Bytes.Host] {s : ParseState size} (hpast : size ≤ s.buffer.offset.toNat) :
    wp parsePDU (fun accepted t => accepted = false ∧ t.parser = s.parser) (fun _ _ => True) s := by
  unfold parsePDU
  rw [wp_bind]
  refine (wp_readU16_past hpast).imp fun appID s₁ ⟨_, hpast, h₁⟩ => ?_
  rw [wp_bind]
  refine (wp_readU16_past hpast).imp fun headLength s₂ ⟨hzero, hpast, h₂⟩ => ?_
  rw [wp_bind]
  refine (wp_readU16_past hpast).imp fun res1 s₃ ⟨_, hpast, h₃⟩ => ?_
  rw [wp_bind]
  refine (wp_readU16_past hpast).imp fun res2 s₄ ⟨_, _, h₄⟩ => ?_
  rw [hzero, if_pos (by decide), wp_pure, h₄, h₃, h₂, h₁]
  exact ⟨rfl, rfl⟩

/-- A call that accepts starts inside the array, `s.buffer.offset.toNat < size`. -/
theorem inside_of_accepted [Bytes.Host] {s t : ParseState size} (hrun : parsePDU s = .ok true t) :
    s.buffer.offset.toNat < size := by
  by_contra hpast
  obtain ⟨hrejected, -⟩ := (wp_of_ok hrun).mp (wp_parsePDU_past (Nat.not_lt.mp hpast))
  cases hrejected

/-- A call that returns from inside the array has the outcome `pduScan` at its offset, in its
result, in the ASDUs and in the offset it leaves. -/
theorem parsePDU_ok [Bytes.Host] {s t : ParseState size} {accepted : Bool}
    (hrun : parsePDU s = .ok accepted t) (hinside : s.buffer.offset.toNat < size) :
    accepted = (pduScan s.buffer.readable s.buffer.offset.toNat).accepted ∧
    t.parser.sequence =
      s.parser.sequence ++ (pduScan s.buffer.readable s.buffer.offset.toNat).asdus ∧
    t.buffer.offset.toNat = (pduScan s.buffer.readable s.buffer.offset.toNat).stop := by
  have hsize := s.buffer.size_lt
  have hbounds := pduScan_stop s.buffer.readable s.buffer.offset.toNat
  -- inside the array a PDU does not reach `2 ^ 64`, so that the offset does not wrap
  obtain ⟨left, hscan⟩ := parsePDU_seek s.buffer s.parser.sequence s.parser.internalFrameLength
    s.buffer.offset.toNat (by omega)
  rw [s.buffer.seek_offset_toNat] at hscan
  injection hrun.symm.trans hscan with haccepted ht
  rw [ht]
  exact ⟨haccepted, rfl, s.buffer.toNat_seek_offset (by omega)⟩

/-- **The parser is sound.** From any state and any offset, a PDU that is accepted before the end of
the buffer stands in the bytes that were read, and its ASDUs are the ones that were stored. -/
theorem parsePDU_sound [Bytes.Host] {s t : ParseState size} (hrun : parsePDU s = .ok true t)
    (hend : t.buffer.offset.toNat < size) :
    ∃ pdu : SvPdu, pdu.Congruent ∧
      t.buffer.offset.toNat = s.buffer.offset.toNat + pdu.length ∧
      (s.buffer.data.toList.drop s.buffer.offset.toNat).take pdu.length = pdu.encode ∧
      t.parser.sequence = s.parser.sequence ++ pdu.values := by
  obtain ⟨haccepted, hsequence, hstop⟩ := parsePDU_ok hrun (inside_of_accepted hrun)
  obtain ⟨pdu, hpdu, hvalues, hlength, hdrop⟩ := pduScan_sound haccepted.symm
    (by rw [s.buffer.length_readable]; omega)
  refine ⟨pdu, hpdu, hstop.trans hlength, ?_, by rw [hsequence, hvalues]⟩
  have htake := congrArg (List.take pdu.length) hdrop
  rwa [List.take_left' pdu.length_encode, StaticBuffer.readable, List.drop_take, List.take_take,
    Nat.min_eq_left (by omega)] at htake

/-- The frame of a buffer is accepted and stands in its bytes, `parsePDU_sound` at
`sampleBuffer`. -/
theorem parsePDU_sound_frame :
    ∃ t, @parsePDU 219 ⟨.littleEndian⟩ { parser := new, buffer := sampleBuffer.seek 14 }
        = .ok true t ∧ t.buffer.offset = 218 ∧
      ∃ pdu : SvPdu, pdu.Congruent ∧ t.buffer.offset.toNat = 14 + pdu.length ∧
        (sampleBuffer.data.toList.drop 14).take pdu.length = pdu.encode ∧
        t.parser.sequence = pdu.values := by
  obtain ⟨left, hrun⟩ := @parsePDU_seek 219 ⟨.littleEndian⟩ sampleBuffer [] 0 14 (by decide)
  have hscan : pduScan sampleBuffer.readable 14
      = ⟨true, 218, [sampleAsdu.asdu, sampleAsdu.asdu]⟩ := by decide +kernel
  rw [hscan] at hrun
  obtain ⟨pdu, hpdu, hlength, hbytes, hvalues⟩ :=
    @parsePDU_sound 219 ⟨.littleEndian⟩ _ _ hrun (show (218 : UInt64).toNat < 219 by decide)
  exact ⟨_, hrun, rfl, pdu, hpdu, hlength, hbytes, hvalues⟩

end IecParser

end Iec

end IecCore
