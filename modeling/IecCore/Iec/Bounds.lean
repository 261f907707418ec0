import IecCore.Iec.Neighbours

/-! # The parser stays within bounds

Whatever a buffer holds, `parse` ends, moves the offset on in steps that are neither too short nor
too long, reads inside the array and returns no more ASDUs than there is room for. An ASDU that was
stored has its tags in the array, since a read past the end gives zero and zero is no tag; its data
units may run over the end by up to 64 bytes.

* **`Spread bytes position stop count`** — stored ASDUs stand one behind the other, 93 bytes each at
  least, and the last one starts in the bytes.
* **`asduScan_spread`**, **`asdusScan_spread`**, **`pduScan_spread`**, **`framesScan_spread`** — so
  do those of every part of the loop, `Spread.add` and `Spread.mono` put them together.
* **`framesScan_stop`** — where the loop ends, less than 1909 bytes behind the written ones.
* **`iteration_bounds`** — an iteration returns, and moves the offset on by 22 to 1909 bytes.
* **`parse_bounds`** — the bounds of a call of `parse`. -/

namespace IecCore

namespace StaticBuffer

variable {size : Nat}

/-- **A read that copies** copies bytes of the array: neither the sum in its test nor the pointer is
past the end. -/
theorem read_inside {b : StaticBuffer size} {count src : Nat} (hcount : count < 2 ^ 63)
    (htest : size > (b.offset + UInt64.ofNat count).toNat) (hget : b.get = some src) :
    src + count < size := by
  have hsize := b.size_lt
  obtain ⟨hinside, hpointer⟩ := Option.ite_none_right_eq_some.mp hget
  have hsrc : b.offset.toNat = src := Option.some.inj hpointer
  rw [hsrc] at hinside
  rw [UInt64.toNat_add, UInt64.toNat_ofNat_of_lt' (by rw [UInt64.size]; omega), hsrc,
    Nat.mod_eq_of_lt (by omega)] at htest
  exact htest

end StaticBuffer

namespace Iec

open IecParser

variable {size : Nat} {bytes : List UInt8}

/-! ## Room for ASDUs -/

/-- ASDUs of a number are stored between two positions: there are 93 bytes for each of them, and the
last one starts in the bytes, with its first 29. -/
def Spread (bytes : List UInt8) (position stop count : Nat) : Prop :=
  position + 93 * count ≤ stop ∧ (count ≠ 0 → position + 93 * count ≤ bytes.length + 64)

/-- **No ASDU** needs no room: `Spread bytes position stop 0` for every `position ≤ stop`. -/
theorem Spread.zero {position stop : Nat} (hle : position ≤ stop) : Spread bytes position stop 0 :=
  ⟨hle, fun h => absurd rfl h⟩

/-- ASDUs behind others: both lists together are spread over both parts. -/
theorem Spread.add {position middle stop count count' : Nat}
    (h : Spread bytes position middle count) (h' : Spread bytes middle stop count') :
    Spread bytes position stop (count + count') := by
  obtain ⟨hle, hlast⟩ := h
  obtain ⟨hle', hlast'⟩ := h'
  refine ⟨by omega, fun hne => ?_⟩
  by_cases hcount' : count' = 0
  · have hbound := hlast (by omega)
    omega
  · have hbound := hlast' hcount'
    omega

/-- The ASDUs may start later than where the part starts: `Spread` of a later position is `Spread`
of every earlier one. -/
theorem Spread.mono {position position' stop count : Nat} (h : Spread bytes position' stop count)
    (hle : position ≤ position') : Spread bytes position stop count := by
  obtain ⟨hstop, hlast⟩ := h
  refine ⟨by omega, fun hne => ?_⟩
  have hbound := hlast hne
  omega

/-- A byte that is not zero is one of the bytes; past them zeros are read. -/
theorem lt_length_of_u8At_ne_zero {position : Nat} (h : u8At bytes position ≠ 0) :
    position < bytes.length := by
  by_contra hpast
  refine h ?_
  rw [u8At, fieldAt_of_lt (by omega)]
  rfl

/-- **An ASDU** that is stored has 93 bytes or more, and the tag of its data set is not read past
the end. -/
theorem asduScan_spread (bytes : List UInt8) (position : Nat) :
    Spread bytes position (asduScan bytes position).stop
      (asduScan bytes position).asdus.length := by
  have hstop := (asduScan_stop bytes position).1
  rw [asduScan, ← runChecks_append] at hstop ⊢
  rcases runChecks_cases (asduChecks bytes position ++ fieldChecks bytes (svIdEnd bytes position))
    (asduPass bytes position) with ⟨hrun, hall⟩ | ⟨check, -, -, hrun⟩
  · obtain ⟨hheader, hfields⟩ := List.forall_mem_append.mp hall
    simp only [asduChecks, List.forall_mem_cons, decide_eq_true_eq,
      UInt8.le_iff_toNat_le] at hheader
    simp only [fieldChecks, List.forall_mem_cons, decide_eq_true_eq] at hfields
    have hsvId : 10 ≤ svIdLengthAt bytes position := hheader.2.2.2.1.1
    have hset := hfields.2.2.2.2.2.2.2.1
    -- the size of the data set is not zero, so that it was read inside of the array
    have hinside : svIdEnd bytes position + 14 < bytes.length := by
      refine lt_length_of_u8At_ne_zero ?_
      rw [hset]
      decide
    have hend : svIdEnd bytes position = position + 4 + svIdLengthAt bytes position := rfl
    rw [hrun]
    refine ⟨?_, fun _ => ?_⟩
    · show position + 93 * 1 ≤ svIdEnd bytes position + 79
      omega
    · show position + 93 * 1 ≤ bytes.length + 64
      omega
  · rw [hrun] at hstop ⊢
    exact .zero hstop.le

/-- **ASDUs** one behind the other, by induction on their number. -/
theorem asdusScan_spread (bytes : List UInt8) (count position : Nat) :
    Spread bytes position (asdusScan bytes count position).stop
      (asdusScan bytes count position).asdus.length := by
  induction count generalizing position with
  | zero => exact .zero (le_refl position)
  | succ count ih =>
      rw [asdusScan_succ]
      by_cases haccepted : (asduScan bytes position).accepted = true
      · rw [if_pos haccepted]
        show Spread bytes position _ (List.length (_ ++ _))
        rw [List.length_append]
        exact (asduScan_spread bytes position).add (ih _)
      · rw [if_neg haccepted]
        exact asduScan_spread bytes position

/-- **The ASDUs of a PDU**, rejected or not: the header makes room before them. -/
theorem pduScan_spread (bytes : List UInt8) (position : Nat) :
    Spread bytes position (pduScan bytes position).stop (pduScan bytes position).asdus.length := by
  have hstop := (pduScan_stop bytes position).1
  have hsav := asnEnd_bounds bytes (position + 9)
  have hseq := asnEnd_bounds bytes (asnEnd bytes (position + 9) + 4)
  have hstart : asdusStart bytes position = asnEnd bytes (asnEnd bytes (position + 9) + 4) := rfl
  rcases runChecks_cases (pduChecks bytes position) (sequencePass bytes (frameEndAt bytes position)
    (seqCountAt bytes position) (asdusStart bytes position)) with ⟨hrun, -⟩ | ⟨check, -, -, hrun⟩
  · rw [pduScan, hrun]
    exact (asdusScan_spread bytes _ (asdusStart bytes position)).mono (by omega)
  · rw [pduScan, hrun] at hstop ⊢
    exact .zero (by omega)

/-- **The ASDUs of all frames** of the loop, by induction on its iterations. -/
theorem framesScan_spread {written fuel position stop : Nat} {asdus : List ASDU}
    (hscan : framesScan bytes written fuel position = some (asdus, stop)) :
    Spread bytes position stop asdus.length := by
  induction fuel generalizing position asdus with
  | zero => cases hscan
  | succ fuel ih =>
      rw [framesScan] at hscan
      by_cases hmore : position < written
      · rw [if_pos hmore] at hscan
        obtain ⟨⟨rest, stop'⟩, hrest, heq⟩ := Option.map_eq_some_iff.mp hscan
        cases heq
        rw [List.length_append]
        exact ((pduScan_spread bytes (position + etherHeaderSize)).add (ih hrest)).mono
          (Nat.le_add_right ..)
      · rw [if_neg hmore] at hscan
        cases hscan
        exact .zero (le_refl _)

/-- The loop ends less than a frame behind the written bytes, since its last frame starts before
them. -/
theorem framesScan_stop {written fuel position stop : Nat} {asdus : List ASDU}
    (hscan : framesScan bytes written fuel position = some (asdus, stop))
    (hstart : position < written + 1909) : stop < written + 1909 := by
  induction fuel generalizing position asdus with
  | zero => cases hscan
  | succ fuel ih =>
      rw [framesScan] at hscan
      by_cases hmore : position < written
      · rw [if_pos hmore] at hscan
        obtain ⟨⟨rest, stop'⟩, hrest, heq⟩ := Option.map_eq_some_iff.mp hscan
        cases heq
        have hheader : etherHeaderSize = 14 := rfl
        have hstop := (pduScan_stop bytes (position + etherHeaderSize)).2
        exact ih hrest (by omega)
      · rw [if_neg hmore] at hscan
        cases hscan
        exact hstart

/-! ## Calls of the parser -/

section Calls

variable [Bytes.Host]

/-- **An iteration** of the loop returns and moves the offset on by 22 to 1909 bytes. -/
theorem iteration_bounds {s : ParseState size} (hwritten : s.buffer.written.toNat ≤ size)
    (hmore : s.buffer.offset < s.buffer.written) :
    ∃ accepted t, parseFrame s = .ok accepted t ∧
      s.buffer.offset.toNat + 22 ≤ t.buffer.offset.toNat ∧
      t.buffer.offset.toNat ≤ s.buffer.offset.toNat + 1909 := by
  have hsize := s.buffer.size_lt
  have hlt := UInt64.lt_iff_toNat_lt.mp hmore
  have hheader : etherHeaderSize = 14 := rfl
  have hbounds := pduScan_stop s.buffer.readable (s.buffer.offset.toNat + etherHeaderSize)
  -- the frame starts in the array, so that the offset does not wrap on the way
  obtain ⟨left, hrun⟩ := parseFrame_seek s.buffer s.parser.sequence s.parser.internalFrameLength
    s.buffer.offset.toNat (by omega)
  rw [s.buffer.seek_offset_toNat] at hrun
  refine ⟨_, _, hrun, ?_⟩
  rw [s.buffer.toNat_seek_offset (by omega)]
  exact ⟨by omega, by omega⟩

/-- **Parsing terminates and stays in bounds.** From every offset up to the written one, `parse`
returns; the offset ends less than 1909 bytes behind the written one, and there are no more new
ASDUs than `size / 93 + 1`. Every iteration moves the offset on by 22 to 1909 bytes, and every read
that copies does so from inside the array. -/
theorem parse_bounds {s : ParseState size} (hwritten : s.buffer.written.toNat ≤ size)
    (hoffset : s.buffer.offset.toNat ≤ s.buffer.written.toNat) :
    (∃ asdus t, parse s = .ok (s.parser.sequence ++ asdus) t ∧
      t.buffer.offset.toNat < s.buffer.written.toNat + 1909 ∧
      asdus.length ≤ size / 93 + 1 ∧ (size = 8192 → asdus.length ≤ 89)) ∧
    (∀ u : ParseState size, u.buffer.written.toNat ≤ size → u.buffer.offset < u.buffer.written →
      ∃ accepted t, parseFrame u = .ok accepted t ∧
        u.buffer.offset.toNat + 22 ≤ t.buffer.offset.toNat ∧
        t.buffer.offset.toNat ≤ u.buffer.offset.toNat + 1909) ∧
    ∀ (b : StaticBuffer size) (count src : Nat), count < 2 ^ 63 →
      size > (b.offset + UInt64.ofNat count).toNat → b.get = some src → src + count < size := by
  have hsize := s.buffer.size_lt
  have hreadable := s.buffer.length_readable
  refine ⟨?_, fun u => iteration_bounds, fun b count src => StaticBuffer.read_inside⟩
  -- as many iterations as there are written bytes are enough
  have hends := framesScan_isSome s.buffer.readable s.buffer.written.toNat
    (Nat.le_add_left s.buffer.written.toNat s.buffer.offset.toNat)
  obtain ⟨⟨asdus, stop⟩, hscan⟩ := Option.isSome_iff_exists.mp hends
  obtain ⟨left, hparse⟩ := parse_seek (b := s.buffer) (by omega) s.parser.sequence
    s.parser.internalFrameLength (by omega) hscan
  rw [s.buffer.seek_offset_toNat] at hparse
  have hstop := framesScan_stop hscan (by omega)
  have hroom := (framesScan_spread hscan).2
  have hcount : 93 * asdus.length ≤ size + 63 := by omega
  refine ⟨asdus, _, hparse, ?_, by omega, by omega⟩
  rw [s.buffer.toNat_seek_offset (by omega)]
  exact hstop

end Calls

/-- The sample frame, from the start of its buffer, stays within the bounds. -/
theorem parse_bounds_frame :
    (∃ asdus t, @parse 219 ⟨.littleEndian⟩ { parser := new, buffer := sampleBuffer } =
        .ok ([] ++ asdus) t ∧ t.buffer.offset.toNat < 218 + 1909 ∧
      asdus.length ≤ 219 / 93 + 1 ∧ (219 = 8192 → asdus.length ≤ 89)) ∧
    (∀ u : ParseState 219, u.buffer.written.toNat ≤ 219 → u.buffer.offset < u.buffer.written →
      ∃ accepted t, @parseFrame 219 ⟨.littleEndian⟩ u = .ok accepted t ∧
        u.buffer.offset.toNat + 22 ≤ t.buffer.offset.toNat ∧
        t.buffer.offset.toNat ≤ u.buffer.offset.toNat + 1909) ∧
    ∀ (b : StaticBuffer 219) (count src : Nat), count < 2 ^ 63 →
      219 > (b.offset + UInt64.ofNat count).toNat → b.get = some src → src + count < 219 :=
  @parse_bounds 219 ⟨.littleEndian⟩ { parser := new, buffer := sampleBuffer } (by decide)
    (by decide)

end Iec

end IecCore
