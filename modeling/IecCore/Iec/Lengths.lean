import IecCore.Iec.Rejection

/-! # The lengths of accepted frames

`parseAsnLength` returns a double word, and `verify` takes a word: the length is narrowed on the way
and compared with the rest of the frame up to a multiple of `2 ^ 16`. The PDU of an accepted frame
has less than `2 ^ 16` bytes, so that a length that fits a word is right.

* **`returnedLength b position`** — what a call of `parseAsnLength` at a position returns, and where
  it ends.
* **`HighBytesZero bytes position`** — the bytes of a length that do not fit a word are zero.
* **`value_lt_iff`** — such lengths are those that fit a word, `l.value < 2 ^ 16`.
* **`eq_iff_lt_of_modEq`** — a length that is right modulo `2 ^ 16` is right when it fits a word.
* **`lengths_truthful_iff`** — the lengths of an accepted frame are the numbers of bytes to its end
  precisely when both fit a word.
* **`narrowed_accepted`** — a frame that is accepted with a length of 65728 before 192 bytes. -/

namespace IecCore

namespace Iec

open IecParser

variable {size : Nat} {bytes rest : List UInt8} {position : Nat}

/-- What a call of `parseAsnLength` at a position of a buffer returns, and the offset after it. -/
def returnedLength [Bytes.Host] (b : StaticBuffer size) (position : Nat) : Option (Nat × Nat) :=
  match parseAsnLength { parser := new, buffer := b.seek position } with
  | .ok length t => some (length.toNat, t.buffer.offset.toNat)
  | .error _ _ => none

/-- Of the bytes of the length at a position all but the last two are **zero**; the last two make a
word. -/
def HighBytesZero (bytes : List UInt8) (position : Nat) : Prop :=
  ∀ byte ∈ (bytes.drop (position + 1)).take (asnCountAt bytes position - 2), byte = 0

instance (bytes : List UInt8) (position : Nat) : Decidable (HighBytesZero bytes position) :=
  inferInstanceAs (Decidable (∀ byte ∈ _, byte = 0))

/-- What a call of `parseAsnLength` returns is the length in the bytes that can be read,
`asnValueAt`, and the offset is `asnEnd`. -/
theorem returnedLength_eq [Bytes.Host] (b : StaticBuffer size) (hwrap : position + 10 < 2 ^ 64) :
    returnedLength b position
      = some ((asnValueAt b.readable position).toNat, asnEnd b.readable position) := by
  have hbounds := asnEnd_bounds b.readable position
  -- the counter of the parser does not matter
  have hcounter : new.internalFrameLength
      = new.internalFrameLength + UInt16.ofNat position - UInt16.ofNat position :=
    (UInt16.add_sub_cancel ..).symm
  have hstate : ({ parser := new, buffer := b.seek position } : ParseState size)
      = stateAt b [] (new.internalFrameLength + UInt16.ofNat position) position := by
    rw [stateAt, ← hcounter]
    rfl
  have hend : (UInt64.ofNat (asnEnd b.readable position)).toNat = asnEnd b.readable position :=
    b.toNat_seek_offset (by omega)
  rw [returnedLength, hstate, parseAsnLength_stateAt hwrap]
  exact congrArg (fun stop => some ((asnValueAt b.readable position).toNat, stop)) hend

/-- **A length fits a word** precisely when its bytes that do not are zero. -/
theorem value_lt_iff {l : AsnLength} (hdrop : bytes.drop position = l.encode ++ rest) :
    l.value < 2 ^ 16 ↔ HighBytesZero bytes position := by
  have hcount := asnCountAt_of_drop hdrop
  cases l with
  | short value small =>
      have hnone : asnCountAt bytes position = 0 := Nat.succ.inj hcount
      rw [HighBytesZero, hnone]
      refine iff_of_true ?_ fun byte hbyte => ?_
      · show value.toNat < 2 ^ 16
        omega
      · exact absurd hbyte List.not_mem_nil
  | long part count =>
      have hpart : asnCountAt bytes position = part.length := Nat.succ.inj hcount
      have hbehind : bytes.drop (position + 1) = part ++ rest := drop_succ_of_cons hdrop
      rw [HighBytesZero, hpart, hbehind, List.take_append_of_le_length (Nat.sub_le ..),
        ← beNat_append_lt_iff _ (part.drop (part.length - 2)), List.take_append_drop,
        List.length_drop]
      show beNat part < 2 ^ 16 ↔ _
      -- the last two bytes are split off; a single byte has none before it
      by_cases hlong : 2 ≤ part.length
      · rw [Nat.sub_sub_self hlong]
        rfl
      · have hone : part.length = 1 := by omega
        have hlt := beNat_lt part
        rw [hone] at hlt ⊢
        exact iff_of_true (by omega) hlt

/-- Where the two lengths of a PDU stand: the first behind nine bytes, the second four bytes behind
it. -/
theorem lengths_of_drop {pdu : SvPdu} (hdrop : bytes.drop position = pdu.encode ++ rest) :
    bytes.drop (position + 9) = pdu.savLength.encode ++ (pdu.savBytes ++ rest) ∧
      bytes.drop (position + 9 + pdu.savLength.encode.length + 4)
        = pdu.seqLength.encode ++ (pdu.asduBytes ++ rest) := by
  simp only [SvPdu.encode, SvPdu.body, List.append_assoc, List.cons_append,
    List.nil_append] at hdrop
  have hheadLength := drop_add_of_append hdrop
  rw [length_beBytes] at hheadLength
  have hres1 := drop_add_of_append hheadLength
  rw [length_beBytes] at hres1
  have hres2 := drop_add_of_append hres1
  rw [length_beBytes] at hres2
  have hpduId := drop_add_of_append hres2
  rw [length_beBytes] at hpduId
  have hsav := drop_succ_of_cons hpduId
  have hsavBytes := drop_add_of_append hsav
  rw [SvPdu.savBytes, List.append_assoc, List.append_assoc] at hsavBytes
  refine ⟨hsav, ?_⟩
  exact drop_add_of_append hsavBytes

/-- A length that is right up to a multiple of `2 ^ 16` is right when it fits a word. -/
theorem eq_iff_lt_of_modEq {value covered : Nat} (hmod : value ≡ covered [MOD 2 ^ 16])
    (hsmall : covered < 2 ^ 16) : value = covered ↔ value < 2 ^ 16 := by
  constructor
  · intro h
    rwa [h]
  · intro h
    rwa [Nat.ModEq, Nat.mod_eq_of_lt h, Nat.mod_eq_of_lt hsmall] at hmod

/-- Both calls of `parseAsnLength` for a PDU that starts at a position and ends at another return
the number of bytes from where they end to the end of the PDU. -/
def LengthsTruthful [Bytes.Host] (b : StaticBuffer size) (position stop : Nat) : Prop :=
  ∃ sav savEnd seq seqEnd, returnedLength b (position + 9) = some (sav, savEnd) ∧
    savEnd + sav = stop ∧ returnedLength b (savEnd + 4) = some (seq, seqEnd) ∧ seqEnd + seq = stop

/-- **The lengths of an accepted frame** are the numbers of bytes to its end precisely when none of
them has a byte other than zero that does not fit a word. -/
theorem lengths_truthful_iff [Bytes.Host] {s t : ParseState size}
    (hrun : parsePDU s = .ok true t) (hend : t.buffer.offset.toNat < size) :
    LengthsTruthful s.buffer s.buffer.offset.toNat t.buffer.offset.toNat ↔
      HighBytesZero s.buffer.readable (s.buffer.offset.toNat + 9) ∧
      HighBytesZero s.buffer.readable
        (asnEnd s.buffer.readable (s.buffer.offset.toNat + 9) + 4) := by
  have hsize := s.buffer.size_lt
  have hreadable := s.buffer.length_readable
  have hinside := inside_of_accepted hrun
  obtain ⟨haccepted, -, hstop⟩ := parsePDU_ok hrun hinside
  -- an accepted frame is one of the grammar, with lengths that are congruent
  obtain ⟨pdu, hpdu, -, hlength, hdrop⟩ := pduScan_sound haccepted.symm (by omega)
  rw [← hstop] at hlength hdrop
  obtain ⟨hsavBytes, hparts, -, hsmall⟩ := pdu.length_bounds
  obtain ⟨hsavDrop, hseqDrop⟩ := lengths_of_drop hdrop
  have hsavEnd := asnEnd_encode hsavDrop
  rw [← hsavEnd] at hseqDrop
  have hseqEnd := asnEnd_encode hseqDrop
  have hsav : pdu.savLength.value = pdu.savBytes.length ↔ _ :=
    (eq_iff_lt_of_modEq hpdu.1 (by omega)).trans (value_lt_iff hsavDrop)
  have hseq : pdu.seqLength.value = pdu.asduBytes.length ↔ _ :=
    (eq_iff_lt_of_modEq hpdu.2 (by omega)).trans (value_lt_iff hseqDrop)
  rw [← hsav, ← hseq, LengthsTruthful, returnedLength_eq _ (by omega)]
  rw [asnValueAt_encode hsavDrop]
  constructor
  · rintro ⟨sav, savEnd, seq, seqEnd, hfirst, hsavStop, hsecond, hseqStop⟩
    cases hfirst
    rw [returnedLength_eq _ (by omega), asnValueAt_encode hseqDrop] at hsecond
    cases hsecond
    exact ⟨by omega, by omega⟩
  · rintro ⟨hsavValue, hseqValue⟩
    have hsecond : returnedLength s.buffer
        (asnEnd s.buffer.readable (s.buffer.offset.toNat + 9) + 4) = _ :=
      returnedLength_eq s.buffer (by omega)
    rw [asnValueAt_encode hseqDrop] at hsecond
    exact ⟨_, _, _, _, rfl, by omega, hsecond, by omega⟩

/-- The lengths of the sample frame are truthful, and have no byte beyond a word that is not
zero. -/
theorem lengths_truthful_iff_frame :
    ∃ t, @parsePDU 219 ⟨.littleEndian⟩ { parser := new, buffer := sampleBuffer.seek 14 }
        = .ok true t ∧ t.buffer.offset.toNat < 219 ∧
      (@LengthsTruthful 219 ⟨.littleEndian⟩ (sampleBuffer.seek 14) 14 t.buffer.offset.toNat ↔
        HighBytesZero sampleBuffer.readable 23 ∧
        HighBytesZero sampleBuffer.readable (asnEnd sampleBuffer.readable 23 + 4)) := by
  obtain ⟨left, hrun⟩ := @parsePDU_seek 219 ⟨.littleEndian⟩ sampleBuffer [] 0 14 (by decide)
  have hscan : pduScan sampleBuffer.readable 14
      = ⟨true, 218, [sampleAsdu.asdu, sampleAsdu.asdu]⟩ := by decide +kernel
  rw [hscan] at hrun
  have hend : (218 : UInt64).toNat < 219 := by decide
  exact ⟨_, hrun, hend, @lengths_truthful_iff 219 ⟨.littleEndian⟩ _ _ hrun hend⟩

/-- The size of an empty Ethernet header, as the field of a frame asks for it. -/
theorem length_replicate_header : (List.replicate 14 (0 : UInt8)).length = 14 :=
  List.length_replicate

/-- The sample frame with a first length of three bytes, the first of which is lost in a word. -/
def narrowedFrame : SvFrame where
  etherHeader := List.replicate 14 0
  pdu :=
    { sampleFrame.pdu with
      savLength := .long [1, 0, 192] ⟨Nat.le_add_right 1 2, Nat.le_add_right 3 1⟩ }
  length_etherHeader := length_replicate_header

/-- A buffer can hold `narrowedFrame`, the frame whose lengths are congruent and not exact. -/
theorem length_narrowedFrame : narrowedFrame.encode.length + 1 < 2 ^ 63 := by decide +kernel

/-- A buffer with `narrowedFrame`, all of it written and nothing read yet. -/
def narrowedBuffer : StaticBuffer (narrowedFrame.encode.length + 1) :=
  unread narrowedFrame.encode length_narrowedFrame 219

/-- **A length that is narrowed.** The frame is accepted with 192 bytes behind a length of 65728. -/
theorem narrowed_accepted :
    ∃ t, @parsePDU _ ⟨.littleEndian⟩ { parser := new, buffer := narrowedBuffer.seek 14 }
        = .ok true t ∧ t.buffer.offset.toNat < narrowedFrame.encode.length + 1 ∧
      @returnedLength _ ⟨.littleEndian⟩ narrowedBuffer (14 + 9) = some (65728, 27) ∧
      t.buffer.offset.toNat = 27 + 192 := by
  let _ : Bytes.Host := ⟨.littleEndian⟩
  have hreadable : narrowedBuffer.readable = narrowedFrame.encode :=
    readable_alone narrowedFrame.encode length_narrowedFrame
  have hsize : 27 + 192 < narrowedFrame.encode.length + 1 := by decide +kernel
  have hscan : pduScan narrowedFrame.encode 14
      = ⟨true, 219, [sampleAsdu.asdu, sampleAsdu.asdu]⟩ := by decide +kernel
  -- 65728 is `2 ^ 16 + 192`, of which the parser compares 192
  have hlength : (asnValueAt narrowedFrame.encode 23).toNat = 65728
      ∧ asnEnd narrowedFrame.encode 23 = 27 := by decide +kernel
  obtain ⟨left, hrun⟩ := parsePDU_seek narrowedBuffer [] 0 14 (by decide)
  rw [hreadable, hscan] at hrun
  refine ⟨_, hrun, hsize, ?_, rfl⟩
  rw [returnedLength_eq narrowedBuffer (by decide), hreadable, hlength.1, hlength.2]

end Iec

end IecCore
