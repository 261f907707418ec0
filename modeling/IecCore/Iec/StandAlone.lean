import IecCore.Iec.Soundness

/-! # Frames that stand alone

A frame as bytes, and what `parsePDU` does with it when it is the only one in a buffer that is large
enough for it. This is the meaning of "a frame that the parser accepts" from here on: it can be said
of the bytes alone, without a buffer, and it is decidable.

* **`alone frame hroom`** — the buffer, with the offset behind the Ethernet header.
* **`AcceptedAlone frame`** — the frame is accepted, and read to its end.
* **`asdusAlone frame`** — the ASDUs that are stored for it.
* **`acceptedAlone_iff_pduScan`** — both by the outcome of the frame.
* **`acceptedAlone_iff`** — the accepted frames are those of the grammar with congruent lengths. -/

namespace IecCore

namespace Iec

open IecParser

/-- A buffer with one frame, and the offset behind its Ethernet header. The byte behind the frame is
one that the buffer cannot read. -/
def alone (frame : List UInt8) (hroom : frame.length + 1 < 2 ^ 63) :
    StaticBuffer (frame.length + 1) where
  data := ⟨(frame ++ [0]).toArray, by simp⟩
  offset := UInt64.ofNat etherHeaderSize
  written := UInt64.ofNat frame.length
  size_lt := hroom

/-- The bytes that can be read when a frame stands alone are those of the frame. -/
theorem readable_alone (frame : List UInt8) (hroom : frame.length + 1 < 2 ^ 63) :
    (alone frame hroom).readable = frame := by
  show (frame ++ [0]).take (frame.length + 1 - 1) = frame
  rw [Nat.add_sub_cancel, List.take_left]

/-- A frame that stands alone is at the start of the array, which has one byte more. -/
theorem prefix_alone (frame : List UInt8) (hroom : frame.length + 1 < 2 ^ 63) :
    frame <+: (alone frame hroom).data.toList :=
  List.prefix_append frame [0]

/-- The offset is behind the Ethernet header, where `parse` calls `parsePDU`. -/
theorem offset_alone (frame : List UInt8) (hroom : frame.length + 1 < 2 ^ 63) :
    (alone frame hroom).offset.toNat = etherHeaderSize := rfl

/-- The PDU of a frame is behind its Ethernet header, and nothing is behind the PDU. -/
theorem SvFrame.drop_encode (f : SvFrame) : f.encode.drop etherHeaderSize = f.pdu.encode ++ [] :=
  (List.drop_left' f.length_etherHeader).trans (List.append_nil _).symm

variable [Bytes.Host]

/-- `parsePDU` **accepts** the frame when it stands alone, and reads it to its end. A frame with
bytes behind its PDU is not accepted in this sense, since the loop would read the next one there. -/
def AcceptedAlone (frame : List UInt8) : Prop :=
  ∃ hroom t, parsePDU { parser := new, buffer := alone frame hroom } = .ok true t ∧
    t.buffer.offset.toNat = frame.length

/-- The ASDUs that `parsePDU` stores for the frame when it stands alone, whether it is accepted or
not. -/
def asdusAlone (frame : List UInt8) : List ASDU :=
  if hroom : frame.length + 1 < 2 ^ 63 then
    match parsePDU { parser := new, buffer := alone frame hroom } with
    | .ok _ t => t.parser.sequence
    | .error _ t => t.parser.sequence
  else []

/-- The outcome of a frame that stands alone is `pduScan frame etherHeaderSize`. -/
theorem parsePDU_alone (frame : List UInt8) (hroom : frame.length + 1 < 2 ^ 63) :
    ∃ left, parsePDU { parser := new, buffer := alone frame hroom }
      = .ok (pduScan frame etherHeaderSize).accepted
        { parser :=
            { sequence := (pduScan frame etherHeaderSize).asdus, internalFrameLength := left }
          buffer := (alone frame hroom).seek (pduScan frame etherHeaderSize).stop } := by
  have hseek : (alone frame hroom).seek etherHeaderSize = alone frame hroom := rfl
  obtain ⟨left, hrun⟩ := parsePDU_seek (alone frame hroom) [] 0 etherHeaderSize (by decide)
  rw [hseek, List.nil_append, readable_alone] at hrun
  exact ⟨left, hrun⟩

/-- The ASDUs of a frame that stands alone are those of its outcome. -/
theorem asdusAlone_eq {frame : List UInt8} (hroom : frame.length + 1 < 2 ^ 63) :
    asdusAlone frame = (pduScan frame etherHeaderSize).asdus := by
  obtain ⟨left, hrun⟩ := parsePDU_alone frame hroom
  rw [asdusAlone, dif_pos hroom, hrun]

/-- A frame is accepted when its outcome is, at its end; this is decided by computing the
outcome. -/
theorem acceptedAlone_iff_pduScan {frame : List UInt8} :
    AcceptedAlone frame ↔ frame.length + 1 < 2 ^ 63 ∧
      (pduScan frame etherHeaderSize).accepted = true ∧
      (pduScan frame etherHeaderSize).stop = frame.length := by
  have hbounds := pduScan_stop frame etherHeaderSize
  have hheader : etherHeaderSize = 14 := rfl
  -- the offset as a number: a frame that has room in a buffer is below `2 ^ 63`
  have hword : (UInt64.ofNat (pduScan frame etherHeaderSize).stop).toNat
      = (pduScan frame etherHeaderSize).stop :=
    UInt64.toNat_ofNat_of_lt' (by rw [UInt64.size]; omega)
  constructor
  · rintro ⟨hroom, t, haccepted, hend⟩
    obtain ⟨left, hrun⟩ := parsePDU_alone frame hroom
    injection haccepted.symm.trans hrun with hok ht
    refine ⟨hroom, hok.symm, ?_⟩
    rw [← hend, ht]
    exact hword.symm
  · rintro ⟨hroom, hok, hstop⟩
    obtain ⟨left, hrun⟩ := parsePDU_alone frame hroom
    rw [hok] at hrun
    exact ⟨hroom, _, hrun, hword.trans hstop⟩

instance : DecidablePred AcceptedAlone := fun _ =>
  decidable_of_iff _ acceptedAlone_iff_pduScan.symm

/-- **The accepted frames** are those of the grammar, and their ASDUs are stored: `AcceptedAlone
frame` says that the frame is the encoding of some `f` with congruent lengths. -/
theorem acceptedAlone_iff {frame : List UInt8} :
    AcceptedAlone frame ↔ ∃ f : SvFrame, f.pdu.Congruent ∧ f.encode = frame := by
  have hbounds := pduScan_stop frame etherHeaderSize
  have hheader : etherHeaderSize = 14 := rfl
  rw [acceptedAlone_iff_pduScan]
  constructor
  · rintro ⟨hroom, hok, hstop⟩
    -- what is accepted is the encoding of a PDU, and nothing stands behind it
    obtain ⟨pdu, hpdu, -, -, hdrop⟩ := pduScan_sound hok hstop.le
    refine ⟨⟨frame.take etherHeaderSize, pdu, by rw [List.length_take]; omega⟩, hpdu, ?_⟩
    rw [hstop, List.drop_length, List.append_nil] at hdrop
    rw [SvFrame.encode, ← hdrop, List.take_append_drop]
  · rintro ⟨f, hf, rfl⟩
    have hlength : f.encode.length = etherHeaderSize + f.pdu.encode.length := by
      rw [SvFrame.encode, List.length_append, f.length_etherHeader, hheader]
    have hscan := pduScan_encode hf f.drop_encode
    rw [hscan] at hbounds ⊢
    dsimp only at hbounds
    exact ⟨by omega, rfl, hlength.symm⟩

/-- The ASDUs of a frame of the grammar are its values: `asdusAlone f.encode = f.pdu.values`. -/
theorem asdusAlone_encode {f : SvFrame} (hf : f.pdu.Congruent) :
    asdusAlone f.encode = f.pdu.values := by
  have hlength := f.length_encode
  have hbounds := f.pdu.length_bounds
  rw [asdusAlone_eq (by omega), pduScan_encode hf f.drop_encode]

end Iec

end IecCore
