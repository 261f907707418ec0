import IecCore.Iec.Neighbours

/-! # Rejected frames

`parsePDU` stores the ASDUs of a frame one by one while it checks the frame, and leaves them in the
parser when a later check fails. The source does not take them back, and does not look at the result
of the call.

* **`checksToStore bytes position`** — the checks that come before the first ASDU is stored.
* **`asdus_nil_iff`** — nothing is stored precisely when one of them fails.
* **`rejected_whole_iff`** — a rejected frame leaves the parser's sequence as it was precisely when
  one of the checks up to its first ASDU fails, wherever the offset is.
* **`rejected_stored`** — a frame that is rejected, and an ASDU of it in the result of `parse`. -/

namespace IecCore

namespace Iec

open IecParser

variable {size : Nat}

/-- Past the end the first check of a frame fails, since its length is read as zero. -/
theorem exists_failed_past {bytes : List UInt8} {position : Nat}
    (hpast : bytes.length ≤ position) :
    ∃ check ∈ checksToStore bytes position, check.2 = false := by
  have hzero : u16At bytes (position + 2) = 0 := by
    rw [u16At, fieldAt_of_lt (by omega)]
    rfl
  refine ⟨_, List.mem_append_left _ List.mem_cons_self, ?_⟩
  exact decide_eq_false (not_not.mpr hzero)

/-- The first failed check is one that fails, and there is one when any check fails. -/
theorem exists_failed_iff {checks : List (Nat × Bool)} :
    (∃ check ∈ checks, check.2 = false) ↔ firstFailed checks ≠ none := by
  rw [firstFailed, Ne, List.find?_eq_none]
  simp

/-- **Nothing is stored** precisely when one of the checks up to the first ASDU fails. -/
theorem asdus_nil_iff (bytes : List UInt8) (position : Nat) :
    (pduScan bytes position).asdus = [] ↔
      ∃ check ∈ checksToStore bytes position, check.2 = false := by
  rw [exists_failed_iff]
  rcases pduScan_cases bytes position with ⟨check, hfirst, hscan⟩ | ⟨hfirst, hscan⟩
  · rw [hfirst, hscan]
    exact iff_of_true rfl (Option.some_ne_none _)
  · rw [hfirst]
    exact iff_of_false hscan fun h => h rfl

/-- **A rejected frame is rejected as a whole** precisely when one of the checks up to its first
ASDU fails. -/
theorem rejected_whole_iff [Bytes.Host] {s t : ParseState size}
    (hrun : parsePDU s = .ok false t) :
    t.parser.sequence = s.parser.sequence ↔
      ∃ check ∈ checksToStore s.buffer.readable s.buffer.offset.toNat, check.2 = false := by
  by_cases hpast : size ≤ s.buffer.offset.toNat
  · have hlength := s.buffer.length_readable
    obtain ⟨-, hparser⟩ := (wp_of_ok hrun).mp (wp_parsePDU_past hpast)
    rw [hparser]
    exact iff_of_true rfl (exists_failed_past (by omega))
  · obtain ⟨-, hsequence, -⟩ := parsePDU_ok hrun (Nat.not_le.mp hpast)
    rw [hsequence, List.append_right_eq_self, asdus_nil_iff]

/-- The sample frame with another tag in the place of that of the configuration revision of its first
ASDU. -/
def mistagged : List UInt8 := sampleFrame.encode.set 50 0x84

/-- A buffer can hold `mistagged`, the frame with a wrong tag. -/
theorem length_mistagged : mistagged.length + 1 < 2 ^ 63 := by decide +kernel

/-- A buffer with `mistagged`, all of it written and nothing read yet. -/
def mistaggedBuffer : StaticBuffer (mistagged.length + 1) :=
  unread mistagged length_mistagged 218

/-- The mistagged frame is rejected behind the sample count of its first ASDU, by a parser that has an
ASDU of a frame before. -/
theorem rejected_whole_iff_mistagged :
    ∃ t, @parsePDU _ ⟨.littleEndian⟩
        { parser := { sequence := [sampleAsdu.asdu], internalFrameLength := 0 }
          buffer := mistaggedBuffer.seek 14 } = .ok false t ∧
      t.buffer.offset = 51 ∧ t.parser.sequence = [sampleAsdu.asdu] ∧
      (t.parser.sequence = [sampleAsdu.asdu] ↔
        ∃ check ∈ checksToStore mistaggedBuffer.readable 14, check.2 = false) := by
  have hreadable : mistaggedBuffer.readable = mistagged :=
    readable_alone mistagged length_mistagged
  obtain ⟨left, hrun⟩ :=
    @parsePDU_seek _ ⟨.littleEndian⟩ mistaggedBuffer [sampleAsdu.asdu] 0 14 (by decide)
  have hscan : pduScan mistagged 14 = ⟨false, 51, []⟩ := by decide +kernel
  rw [hreadable, hscan] at hrun
  exact ⟨_, hrun, rfl, rfl, @rejected_whole_iff _ ⟨.littleEndian⟩ _ _ hrun⟩

/-- The sample frame with a length of its first ASDU that is one too large: 92 before a svID of ten
bytes. -/
def mislabelled : List UInt8 := sampleFrame.encode.set 33 92

/-- A buffer can hold `mislabelled` too, the frame in which the length of an ASDU is wrong. -/
theorem length_mislabelled : mislabelled.length + 1 < 2 ^ 63 := by decide +kernel

/-- A buffer with `mislabelled`, all of it written and nothing read yet. -/
def mislabelledBuffer : StaticBuffer (mislabelled.length + 1) :=
  unread mislabelled length_mislabelled 218

/-- **An ASDU of a rejected frame** is stored before its own last check fails, and `parse` returns
it. -/
theorem rejected_stored :
    (∃ t, @parsePDU _ ⟨.littleEndian⟩ { parser := new, buffer := mislabelledBuffer.seek 14 } =
      .ok false t ∧ t.parser.sequence = [sampleAsdu.asdu]) ∧
    ∃ t, @parse _ ⟨.littleEndian⟩ { parser := new, buffer := mislabelledBuffer } =
      .ok [sampleAsdu.asdu] t := by
  let _ : Bytes.Host := ⟨.littleEndian⟩
  have hreadable : mislabelledBuffer.readable = mislabelled :=
    readable_alone mislabelled length_mislabelled
  constructor
  · obtain ⟨left, hrun⟩ := parsePDU_seek mislabelledBuffer [] 0 14 (by decide)
    have hscan : pduScan mislabelled 14 = ⟨false, 125, [sampleAsdu.asdu]⟩ := by decide +kernel
    rw [hreadable, hscan] at hrun
    exact ⟨_, hrun, rfl⟩
  · -- behind the rejected ASDU the loop finds no frame, and ends
    have hloop : framesScan mislabelledBuffer.readable mislabelledBuffer.written.toNat
        (mislabelledBuffer.written.toNat + 1) 0 = some ([sampleAsdu.asdu], 239) := by
      rw [hreadable]
      decide +kernel
    obtain ⟨left, hrun⟩ := parse_start rfl (by decide) [] 0 hloop
    exact ⟨_, hrun⟩

end Iec

end IecCore
