import IecCore.Iec.Rejection
import IecCore.Iec.Truncation

/-! # A truncated last frame

The reads of the parser are bounded by the size of the array and not by what was written. When the
last frame of a buffer was not received to its end, the parser reads on in the bytes behind it,
which an earlier batch may have left there.

* **`EndsEarly b frames last cut`** — complete frames and the first bytes of one more in a buffer.
* **`stop_of_cut`**, **`framesScan_of_cut`** — the call for the last frame ends behind the written
  bytes, so that it is the last one.
* **`Unnoticed b frames cut`** — the bytes behind the written ones show nothing: a check up to the
  first ASDU fails there.
* **`truncated_iff`** — `parse` returns the ASDUs of the complete frames precisely when the bytes
  behind the written ones show nothing. Without a byte of a further frame this is about the last
  word of the array, which `parse` cannot read (`truncated_iff_of_zero`).
* **`stale_asdus_returned`** — stale bytes that complete the truncated frame. -/

namespace IecCore

namespace Iec

open IecParser

variable {size : Nat} {b : StaticBuffer size} {frames : List SvFrame} {last : SvFrame} {cut : Nat}

/-- Well-formed **frames and the first bytes of one more**, fewer than it has, stand at the start of
a buffer that was not read. All other bytes of the array are arbitrary. -/
structure EndsEarly (b : StaticBuffer size) (frames : List SvFrame) (last : SvFrame)
    (cut : Nat) : Prop where
  /-- The complete frames are well formed, their lengths being congruent. -/
  frames_congruent : ∀ frame ∈ frames, frame.pdu.Congruent
  /-- The last frame is well formed. -/
  last_congruent : last.pdu.Congruent
  /-- The last frame is cut: at least its last byte is missing. -/
  proper : cut < last.encode.length
  /-- The bytes of the frames, and of the last one as far as `cut`, are at the start of the
  array. -/
  contents : frames.flatMap SvFrame.encode ++ last.encode.take cut <+: b.data.toList
  /-- The offset for reading is at the start. -/
  offset : b.offset = 0
  /-- The offset for writing is behind the bytes. -/
  written : b.written.toNat = (frames.flatMap SvFrame.encode).length + cut

/-- The bytes behind the written ones show **nothing**. When no byte of a last frame was received,
the complete ones end before the last byte of the array, or the last word of the array is zero. When
some were, one of the checks up to the first ASDU fails in the bytes that can be read, the written
ones and those behind them. -/
def Unnoticed (b : StaticBuffer size) (frames : List SvFrame) (cut : Nat) : Prop :=
  if cut = 0 then
    (frames.flatMap SvFrame.encode).length < size ∨ ∀ byte ∈ b.data.toList.drop (size - 2), byte = 0
  else
    ∃ check ∈ checksToStore b.readable
      ((frames.flatMap SvFrame.encode).length + etherHeaderSize), check.2 = false

/-! ## Calls of the parser -/

/-- `parse` returns what the loop finds, and nothing else, whatever the counter was before. -/
theorem parse_returns_iff [Bytes.Host] (hoffset : b.offset = 0)
    (hwritten : b.written.toNat < 2 ^ 63) {asdus returned : List ASDU} {stop : Nat}
    (hscan : framesScan b.readable b.written.toNat (b.written.toNat + 1) 0 = some (asdus, stop)) :
    (∀ internalFrameLength, ∃ t,
      parse { parser := { sequence := [], internalFrameLength }, buffer := b } = .ok returned t) ↔
      asdus = returned := by
  constructor
  · intro h
    obtain ⟨t, hreturned⟩ := h 0
    obtain ⟨left, hparse⟩ := parse_start hoffset hwritten [] 0 hscan
    injection hparse.symm.trans hreturned
  · intro h internalFrameLength
    obtain ⟨left, hparse⟩ := parse_start hoffset hwritten [] internalFrameLength hscan
    rw [← h]
    exact ⟨_, hparse⟩

/-! ## Some bytes of a last frame -/

/-- The bytes of the complete frames and those of the last one but the last byte can be read. -/
theorem EndsEarly.readable (h : EndsEarly b frames last cut) (hcut : cut ≠ 0) :
    ∃ rest, b.readable.drop 0
      = frames.flatMap SvFrame.encode ++ (last.encode.take (cut - 1) ++ rest) := by
  have hproper := h.proper
  have hlength := h.contents.length_le
  rw [List.length_append, List.length_take, Vector.length_toList,
    Nat.min_eq_left hproper.le] at hlength
  have hshorter : frames.flatMap SvFrame.encode ++ last.encode.take (cut - 1)
      <+: frames.flatMap SvFrame.encode ++ last.encode.take cut :=
    (List.prefix_append_right_inj _).mpr (List.take_prefix_take_left (Nat.sub_le cut 1))
  -- the last byte of an array is not read, and the cut may be there
  have hprefix : frames.flatMap SvFrame.encode ++ last.encode.take (cut - 1) <+: b.readable := by
    refine List.prefix_take_iff.mpr ⟨hshorter.trans h.contents, ?_⟩
    rw [List.length_append, List.length_take]
    omega
  obtain ⟨rest, hrest⟩ := hprefix
  exact ⟨rest, by rw [List.drop_zero, ← hrest, List.append_assoc]⟩

/-- The call for the last frame **does not end before the written bytes do**: it would have ended
there in the whole frame. -/
theorem stop_of_cut (h : EndsEarly b frames last cut) (hcut : cut ≠ 0) :
    b.written.toNat
      ≤ (pduScan b.readable ((frames.flatMap SvFrame.encode).length + etherHeaderSize)).stop := by
  obtain ⟨rest, hdrop⟩ := h.readable hcut
  have hproper := h.proper
  have hwritten := h.written
  have hbehind := drop_add_of_append hdrop
  rw [Nat.zero_add] at hbehind
  have hwhole : last.encode.drop 0 = last.encode.take (cut - 1) ++ last.encode.drop (cut - 1) :=
    (List.take_append_drop ..).symm
  have hlength : (last.encode.take (cut - 1)).length = cut - 1 := List.length_take_of_le (by omega)
  by_contra hbefore
  -- a call that stops within the received part would stop there in the whole frame too
  obtain ⟨x, hstop, hmoved⟩ := pduScan_moved (x := etherHeaderSize)
    (SameBytes.of_drop hbehind hwhole) (by omega)
  have hscan := pduScan_encode h.last_congruent last.drop_encode
  have hencode := last.length_encode
  rw [Nat.zero_add, hscan, last.pdu.length_encode] at hmoved
  injection hmoved with _ hend
  have hheader : etherHeaderSize = 14 := rfl
  omega

/-- What the loop finds: the ASDUs of the complete frames, and whatever is stored in the call for
the last one. -/
theorem framesScan_of_cut (h : EndsEarly b frames last cut) (hcut : cut ≠ 0) :
    ∃ stop, framesScan b.readable b.written.toNat (b.written.toNat + 1) 0
      = some ((frames.flatMap fun frame => frame.pdu.values)
        ++ (pduScan b.readable
          ((frames.flatMap SvFrame.encode).length + etherHeaderSize)).asdus, stop) := by
  obtain ⟨rest, hdrop⟩ := h.readable hcut
  have hwritten := h.written
  have hcount := length_le_length_flatMap frames
  have hfuel : b.written.toNat + 1
      = frames.length + (b.written.toNat - 1 - frames.length + 1 + 1) := by omega
  -- behind the last frame the loop is past the written bytes
  have hends := framesScan_of_le b.readable (stop_of_cut h hcut)
    (b.written.toNat - 1 - frames.length)
  have hmore : (frames.flatMap SvFrame.encode).length < b.written.toNat := by omega
  have hlast := framesScan_of_lt hmore hends
  rw [List.append_nil] at hlast
  rw [← Nat.zero_add (List.flatMap SvFrame.encode frames).length] at hlast
  have hscan := framesScan_encode h.frames_congruent hdrop (by omega) hlast
  rw [Nat.zero_add] at hscan
  rw [hfuel]
  exact ⟨_, hscan⟩

/-! ## No byte of a last frame -/

/-- Of the data units of an ASDU the last word only ends with it. -/
theorem dataFields_end : ∀ field ∈ dataFields, field.1 + field.2 < 64 ∨ field = (62, 2) := by
  decide

/-- A cut before the last byte touches the last word only: it must be zero. -/
theorem cutFieldsZero_last (bytes : List UInt8) (hlength : 64 ≤ bytes.length) :
    CutFieldsZero bytes (bytes.length - 1) (bytes.length - 64) ↔
      ∀ byte ∈ bytes.drop (bytes.length - 2), byte = 0 := by
  have hlast : fieldAt bytes 2 (bytes.length - 64 + 62)
      = beNat (bytes.drop (bytes.length - 2)) := by
    have hstart : bytes.length - 64 + 62 = bytes.length - 2 := by omega
    rw [hstart, fieldAt, window, if_pos (by omega), List.take_of_length_le]
    rw [List.length_drop]
    omega
  rw [← beNat_eq_zero, ← hlast]
  constructor
  · intro h
    exact h (62, 2) (by decide) (by dsimp only; omega)
  · intro h field hfield hcut
    rcases dataFields_end field hfield with hbefore | rfl
    · omega
    · exact h

/-- Complete frames whose last byte is the last of the array lose the last word, unless it is
zero. -/
theorem framesScan_of_full {init : List SvFrame} (hinit : ∀ frame ∈ init, frame.pdu.Congruent)
    (hlast : last.pdu.Congruent)
    (hdata : b.data.toList = init.flatMap SvFrame.encode ++ last.encode)
    (hwritten : b.written.toNat = size) :
    ∃ asdus stop, framesScan b.readable b.written.toNat (b.written.toNat + 1) 0
        = some ((init.flatMap fun frame => frame.pdu.values) ++ asdus, stop) ∧
      (asdus = last.pdu.values ↔ ∀ byte ∈ b.data.toList.drop (size - 2), byte = 0) := by
  have hsize : b.data.toList.length = size := Vector.length_toList
  have hparts := congrArg List.length hdata
  rw [List.length_append, hsize, last.length_encode] at hparts
  obtain ⟨-, hlength, hasdus, -⟩ := last.pdu.length_bounds
  obtain ⟨hbytes, hhead⟩ := last.pdu.length_head
  have hcount := length_le_length_flatMap init
  obtain ⟨asdus, stop, hscan, -, hiff⟩ := @framesScan_cut b.data.toList (size - 1) init last hinit
    hlast hdata (by omega) (by omega) (size - 1 - init.length)
  -- the last byte of the array is the only one that cannot be read
  have hlimit : size - 1 + 1 = b.written.toNat := by omega
  have hfuel : init.length + (size - 1 - init.length + 1 + 1) = b.written.toNat + 1 := by omega
  rw [hlimit, hfuel] at hscan
  have hword := cutFieldsZero_last b.data.toList (by omega)
  rw [hsize] at hword hiff
  refine ⟨asdus, stop, hscan, hiff.trans ?_⟩
  rw [hword]
  exact and_iff_right (by omega)

/-! ## The condition -/

/-- Complete frames alone, with no byte of a further one: the last word must be zero if it is the
last of the array. -/
theorem truncated_iff_of_zero [Bytes.Host] (h : EndsEarly b frames last 0) :
    (∀ internalFrameLength, ∃ t,
      parse { parser := { sequence := [], internalFrameLength }, buffer := b }
        = .ok (frames.flatMap fun frame => frame.pdu.values) t) ↔
      (frames.flatMap SvFrame.encode).length < size ∨
        ∀ byte ∈ b.data.toList.drop (size - 2), byte = 0 := by
  have hsmall := b.size_lt
  have hsize : b.data.toList.length = size := Vector.length_toList
  have hcontents := h.contents
  have hwritten := h.written
  rw [List.take_zero, List.append_nil] at hcontents
  rw [Nat.add_zero] at hwritten
  have hroom := hcontents.length_le
  by_cases hfits : (frames.flatMap SvFrame.encode).length < size
  · refine iff_of_true (fun internalFrameLength => ?_) (.inl hfits)
    obtain ⟨left, hparse⟩ := parse_frames h.frames_congruent hcontents h.offset hwritten hfits
      internalFrameLength
    exact ⟨_, hparse⟩
  · rw [or_iff_right hfits]
    have hdata : b.data.toList = frames.flatMap SvFrame.encode :=
      (hcontents.eq_of_length (by omega)).symm
    rcases List.eq_nil_or_concat' frames with rfl | ⟨init, final, rfl⟩
    · -- an array without a byte
      have hnone : b.written.toNat = 0 := hwritten
      have hscan : framesScan b.readable b.written.toNat (b.written.toNat + 1) 0 = some ([], 0) :=
        framesScan_of_le _ (by omega) _
      rw [parse_returns_iff h.offset (by omega) hscan, hdata]
      exact iff_of_true rfl fun byte hbyte => by simp at hbyte
    · obtain ⟨hinit, hfinal⟩ := List.forall_mem_append.mp h.frames_congruent
      rw [List.flatMap_append, List.flatMap_singleton] at hdata
      obtain ⟨asdus, stop, hscan, hiff⟩ := framesScan_of_full hinit
        (hfinal final List.mem_cons_self) hdata (by omega)
      rw [parse_returns_iff h.offset (by omega) hscan, List.flatMap_append, List.flatMap_singleton,
        List.append_cancel_left_eq]
      exact hiff

/-- **A truncated last frame yields nothing** precisely when the bytes behind the written ones show
nothing. -/
theorem truncated_iff [Bytes.Host] (h : EndsEarly b frames last cut) :
    (∀ internalFrameLength, ∃ t,
      parse { parser := { sequence := [], internalFrameLength }, buffer := b }
        = .ok (frames.flatMap fun frame => frame.pdu.values) t) ↔ Unnoticed b frames cut := by
  unfold Unnoticed
  by_cases hcut : cut = 0
  · subst hcut
    rw [if_pos rfl]
    exact truncated_iff_of_zero h
  · have hsmall := b.size_lt
    have hwritten := h.written
    have hlength := h.contents.length_le
    have hproper := h.proper
    rw [List.length_append, List.length_take, Vector.length_toList,
      Nat.min_eq_left hproper.le] at hlength
    obtain ⟨stop, hscan⟩ := framesScan_of_cut h hcut
    -- the ASDUs of the complete frames are found, and nothing else is when the last call stores
    -- nothing
    rw [if_neg hcut, parse_returns_iff h.offset (by omega) hscan, List.append_right_eq_self,
      asdus_nil_iff]

/-- An array of 219 bytes is an object of the source: its size is below `2 ^ 63`. -/
theorem size_lt_219 : 219 < 2 ^ 63 := by decide

/-- The first 100 bytes of the sample frame, with zeros behind them. -/
def cleanBuffer : StaticBuffer 219 where
  data := ⟨(sampleFrame.encode.take 100 ++ List.replicate 119 0).toArray, by decide +kernel⟩
  offset := 0
  written := 100
  size_lt := size_lt_219

/-- A frame of which 100 bytes were received, and no bytes of earlier batches behind them:
`truncated_iff` at `cleanBuffer`. -/
theorem truncated_iff_clean :
    (∀ internalFrameLength, ∃ t, @parse 219 ⟨.littleEndian⟩
        { parser := { sequence := [], internalFrameLength }, buffer := cleanBuffer } =
      .ok [] t) ↔ Unnoticed cleanBuffer [] 100 := by
  have hcontents : sampleFrame.encode.take 100 <+: cleanBuffer.data.toList := by decide +kernel
  exact @truncated_iff _ _ [] sampleFrame 100 ⟨.littleEndian⟩
    ⟨by simp, by decide +kernel, by decide +kernel, hcontents, rfl, rfl⟩

/-- The first 100 bytes of the sample frame, with the rest of it behind them from an earlier
batch. -/
def staleBuffer : StaticBuffer 219 :=
  { sampleBuffer with written := 100, size_lt := size_lt_219 }

/-- **Stale bytes** complete the truncated frame: its two ASDUs are returned. -/
theorem stale_asdus_returned :
    EndsEarly staleBuffer [] sampleFrame 100 ∧
    ∃ t, @parse 219 ⟨.littleEndian⟩ { parser := new, buffer := staleBuffer } =
      .ok [sampleAsdu.asdu, sampleAsdu.asdu] t := by
  have hcontents : sampleFrame.encode.take 100 <+: staleBuffer.data.toList := by decide +kernel
  have hscan : framesScan staleBuffer.readable 100 101 0
      = some ([sampleAsdu.asdu, sampleAsdu.asdu], 218) := by decide +kernel
  obtain ⟨left, hparse⟩ := @parse_start 219 staleBuffer ⟨.littleEndian⟩ rfl (by decide) [] 0 _ _
    hscan
  exact ⟨⟨by simp, by decide +kernel, by decide +kernel, hcontents, rfl, rfl⟩, _, hparse⟩

end Iec

end IecCore
