import IecCore.Iec.IecParser
import Mathlib.Data.Nat.Bitwise

/-! # What the parser finds at a position

As long as the offset does not wrap, a call of the parser is a function of the bytes that the buffer
can read and of the position it starts at. This file states these functions on plain lists and
numbers, and proves that the calls compute them: from here on the claims about frames are about
lists, and the monad, the buffer and the counters are not seen again.

* **`Scan`** — the outcome of a call: the result, the position it stops at and the stored ASDUs.
* **`runChecks checks pass`** — a list of checks, each with the position at which a failure stops,
  and the outcome behind them.
* **`asduScan`**, **`pduScan`**, **`framesScan`** — the outcomes of an ASDU, of a PDU and of the loop
  over the frames. `asduScan_stop` and `pduScan_stop` bound how far they move the position.
* **`stateAt b sequence frameEnd position`** — the parser and its buffer at a position of a frame.
  The counter is `frameEnd - position` in words, which every read keeps (`sub_ofNat_add`).
* **`parseASDU_stateAt`**, **`parsePDU_seek`**, **`parseLoop_seek`**, **`parse_start`** — the calls
  compute the outcomes, one lemma for each function of the parser. -/

namespace IecCore

namespace Iec

open Bytes IecParser

/-- The **outcome** of a call of the parser that returns: nothing else of it can be seen from
outside, except for the counter that a PDU leaves. -/
structure Scan where
  /-- The result of the call, `true` when every check held. -/
  accepted : Bool
  /-- The position after the last byte that was read or skipped. -/
  stop : Nat
  /-- The ASDUs that were stored, also by a call that fails behind them. -/
  asdus : List ASDU
  deriving DecidableEq, Repr

/-- Checks in their order, each with the position after its last byte, and the outcome when all of
them hold. The first failed check ends the call. -/
def runChecks : List (Nat × Bool) → Scan → Scan
  | [], pass => pass
  | (stop, ok) :: checks, pass => if ok then runChecks checks pass else ⟨false, stop, []⟩

/-! ## The outcomes -/

section Outcomes

variable (bytes : List UInt8)

/-- The data unit at a position: four bytes of the value, two of the quality and two of the bit
set. -/
def dataUnitAt (position : Nat) : DataUnit where
  instMagI := (u32At bytes position).toInt32
  quality := u16At bytes (position + 4)
  bitset := u16At bytes (position + 6)

/-- The `count` data units from a position on, eight bytes each. -/
def dataAt (position : Nat) : (count : Nat) → Vector DataUnit count
  | 0 => .emptyWithCapacity 0
  | count + 1 => (dataAt position count).push (dataUnitAt bytes (position + 8 * count))

/-- The length of the svID of the ASDU at a position: its fourth byte, behind the tag and the length
of the ASDU and the tag of the svID. -/
def svIdLengthAt (position : Nat) : Nat := (u8At bytes (position + 3)).toNat

/-- The position after the svID of the ASDU at a position, where the fixed part of the ASDU
begins. -/
def svIdEnd (position : Nat) : Nat := position + 4 + svIdLengthAt bytes position

/-- The fields of the ASDU at a position. Behind the svID their positions are fixed. -/
def asduAt (position : Nat) : ASDU where
  smpCnt := u16At bytes (svIdEnd bytes position + 2)
  smpSynch := u8At bytes (svIdEnd bytes position + 12)
  confRev := u32At bytes (svIdEnd bytes position + 6)
  data := dataAt bytes (svIdEnd bytes position + 15) unitsPerASDU

/-- The checks of the ASDU at a position up to the length of its svID, in the order of
`parseASDU`. -/
def asduChecks (position : Nat) : List (Nat × Bool) :=
  [(position + 1, u8At bytes position = 0x30),
    (position + 2, 91 ≤ u8At bytes (position + 1) ∧ u8At bytes (position + 1) ≤ 115),
    (position + 3, u8At bytes (position + 2) = 0x80),
    (position + 4, 10 ≤ u8At bytes (position + 3) ∧ u8At bytes (position + 3) ≤ 34)]

/-- The checks of an ASDU between its svID and its data units: a tag and a size for each field. -/
def fieldChecks (fields : Nat) : List (Nat × Bool) :=
  [(fields + 1, u8At bytes fields = 0x82),
    (fields + 2, u8At bytes (fields + 1) = 2),
    (fields + 5, u8At bytes (fields + 4) = 0x83),
    (fields + 6, u8At bytes (fields + 5) = 4),
    (fields + 11, u8At bytes (fields + 10) = 0x85),
    (fields + 12, u8At bytes (fields + 11) = 1),
    (fields + 14, u8At bytes (fields + 13) = 0x87),
    (fields + 15, u8At bytes (fields + 14) = 64)]

/-- The outcome of the ASDU at a position whose checks all hold: its ASDU is stored in any case, and
it is accepted when the length is that of its fields, `81` and the svID. -/
def asduPass (position : Nat) : Scan where
  accepted := (u8At bytes (position + 1)).toNat = 81 + svIdLengthAt bytes position
  stop := svIdEnd bytes position + 79
  asdus := [asduAt bytes position]

/-- The **outcome of the ASDU** at a position: the checks, and what `asduPass` finds behind them. -/
def asduScan (position : Nat) : Scan :=
  runChecks (asduChecks bytes position)
    (runChecks (fieldChecks bytes (svIdEnd bytes position)) (asduPass bytes position))

/-- The outcome of `count` ASDUs one after the other; one that is rejected ends them where it
stops. -/
def asdusScan : (count : Nat) → (position : Nat) → Scan
  | 0, position => { accepted := true, stop := position, asdus := [] }
  | count + 1, position =>
      let first := asduScan bytes position
      if first.accepted then
        let rest := asdusScan count first.stop
        { rest with asdus := first.asdus ++ rest.asdus }
      else first

/-- The outcome of one more ASDU, field by field: that of the first when it is rejected. -/
theorem asdusScan_succ (count position : Nat) :
    asdusScan bytes (count + 1) position =
      if (asduScan bytes position).accepted then
        { accepted := (asdusScan bytes count (asduScan bytes position).stop).accepted
          stop := (asdusScan bytes count (asduScan bytes position).stop).stop
          asdus := (asduScan bytes position).asdus
            ++ (asdusScan bytes count (asduScan bytes position).stop).asdus }
      else asduScan bytes position := rfl

/-- The number of bytes after the first byte of the length at a position: up to four, when the first
byte has its highest bit set. -/
def asnCountAt (position : Nat) : Nat :=
  let first := (u8At bytes position).toNat
  if 128 ≤ first ∧ first ≤ 132 then first - 128 else 0

/-- The position after the length at a position: the first byte and those that it announces. -/
def asnEnd (position : Nat) : Nat := position + 1 + asnCountAt bytes position

/-- The value of the `count` bytes of a length, added up in `u32` and shifted as `parseAsnBytes`
does. -/
def asnBytesAt : (position count : Nat) → (length : UInt32) → UInt32
  | _, 0, length => length
  | position, count + 1, length =>
      let length := length + (u8At bytes position).toUInt32
      asnBytesAt (position + 1) count (if count > 0 then length <<< 8 else length)

/-- The value of the length at a position: the byte itself, or that of the bytes behind it. -/
def asnValueAt (position : Nat) : UInt32 :=
  if (u8At bytes position).toNat < 128 then (u8At bytes position).toUInt32
  else asnBytesAt bytes (position + 1) (asnCountAt bytes position) 0

/-- The length at a position runs to the end of the frame, as far as a word can tell: both sides are
taken modulo `2 ^ 16`. -/
def asnFits (frameEnd : UInt16) (position : Nat) : Bool :=
  frameEnd = UInt16.ofNat (asnEnd bytes position + (asnValueAt bytes position).toNat)

/-- The end of the frame at a position, by the length in its header, in a word. -/
def frameEndAt (position : Nat) : UInt16 := UInt16.ofNat position + u16At bytes (position + 2)

/-- The checks of the PDU at a position that come before its ASDUs, those of `parseSequence`
included. -/
def pduChecks (position : Nat) : List (Nat × Bool) :=
  let frameEnd := frameEndAt bytes position
  let sav := asnEnd bytes (position + 9)
  [(position + 8, u16At bytes (position + 2) ≠ 0),
    (position + 9, u8At bytes (position + 8) = 0x60),
    (sav, asnFits bytes frameEnd (position + 9)),
    (sav + 1, u8At bytes sav = 0x80),
    (sav + 2, u8At bytes (sav + 1) = 1),
    (sav + 3, 1 ≤ u8At bytes (sav + 2) ∧ u8At bytes (sav + 2) ≤ 16),
    (sav + 4, u8At bytes (sav + 3) = 0xa2),
    (asnEnd bytes (sav + 4), asnFits bytes frameEnd (sav + 4))]

/-- The number of ASDUs of the PDU at a position, the byte behind the length of the PDU and two
more. -/
def seqCountAt (position : Nat) : Nat := (u8At bytes (asnEnd bytes (position + 9) + 2)).toNat

/-- The position of the first ASDU of the PDU at a position, behind the second length. -/
def asdusStart (position : Nat) : Nat := asnEnd bytes (asnEnd bytes (position + 9) + 4)

/-- The outcome of the ASDUs of a frame, with the check that they end where the frame does. -/
def sequencePass (frameEnd : UInt16) (count position : Nat) : Scan where
  accepted := (asdusScan bytes count position).accepted &&
    frameEnd = UInt16.ofNat (asdusScan bytes count position).stop
  stop := (asdusScan bytes count position).stop
  asdus := (asdusScan bytes count position).asdus

/-- The **outcome of the PDU** at a position: `pduChecks`, then its ASDUs by `sequencePass`. -/
def pduScan (position : Nat) : Scan :=
  runChecks (pduChecks bytes position)
    (sequencePass bytes (frameEndAt bytes position) (seqCountAt bytes position)
      (asdusStart bytes position))

/-- The outcome of the loop over the frames, for a number of iterations: the stored ASDUs and the
position after the last frame. -/
def framesScan (written : Nat) : (fuel : Nat) → (position : Nat) → Option (List ASDU × Nat)
  | 0, _ => none
  | fuel + 1, position =>
      if position < written then
        let frame := pduScan bytes (position + etherHeaderSize)
        (framesScan written fuel frame.stop).map fun rest => (frame.asdus ++ rest.1, rest.2)
      else some ([], position)

variable {bytes} in
/-- One iteration of the loop, when the outcome of the rest is known: the ASDUs of the frame come
first. -/
theorem framesScan_of_lt {written fuel position stop : Nat} {asdus : List ASDU}
    (hmore : position < written)
    (hrest : framesScan bytes written fuel (pduScan bytes (position + etherHeaderSize)).stop
      = some (asdus, stop)) :
    framesScan bytes written (fuel + 1) position
      = some ((pduScan bytes (position + etherHeaderSize)).asdus ++ asdus, stop) := by
  rw [framesScan, if_pos hmore]
  exact congrArg (Option.map _) hrest

/-- The end of the loop: past the `written` bytes there is no frame, and the position stays. -/
theorem framesScan_of_le {written position : Nat} (hend : written ≤ position) (fuel : Nat) :
    framesScan bytes written (fuel + 1) position = some ([], position) := by
  rw [framesScan, if_neg (Nat.not_lt.mpr hend)]

end Outcomes

/-! ## Where a call stops -/

/-- Checks end with the outcome behind them when all hold, or at one of them that fails, with
nothing stored. -/
theorem runChecks_cases (checks : List (Nat × Bool)) (pass : Scan) :
    (runChecks checks pass = pass ∧ ∀ check ∈ checks, check.2 = true) ∨
      ∃ check ∈ checks, check.2 = false ∧ runChecks checks pass = ⟨false, check.1, []⟩ := by
  induction checks with
  | nil => exact .inl ⟨rfl, fun _ hmem => by cases hmem⟩
  | cons check checks ih =>
      obtain ⟨stop, ok⟩ := check
      rw [runChecks]
      cases ok with
      -- the first failed check is the one that ends them
      | false => exact .inr ⟨(stop, false), List.mem_cons_self, rfl, rfl⟩
      | true =>
          rcases ih with ⟨hpass, hall⟩ | ⟨failed, hmem, hfailed, hrun⟩
          · exact .inl ⟨hpass, List.forall_mem_cons.mpr ⟨rfl, hall⟩⟩
          · exact .inr ⟨failed, List.mem_cons_of_mem _ hmem, hfailed, hrun⟩

/-- Checks that all hold end with the outcome behind them: `runChecks checks pass = pass`. -/
theorem runChecks_of_forall {checks : List (Nat × Bool)} {pass : Scan}
    (hall : ∀ check ∈ checks, check.2 = true) : runChecks checks pass = pass := by
  rcases runChecks_cases checks pass with ⟨hpass, -⟩ | ⟨check, hmem, hfailed, -⟩
  · exact hpass
  · rw [hall check hmem] at hfailed
    cases hfailed

/-- The svID of an ASDU ends after 38 bytes at most, when its length passes the check. -/
theorem svIdEnd_le {bytes : List UInt8} {position : Nat}
    (hlength : u8At bytes (position + 3) ≤ 34) : svIdEnd bytes position ≤ position + 38 := by
  have hle := UInt8.le_iff_toNat_le.mp hlength
  have hnum : (34 : UInt8).toNat = 34 := rfl
  rw [svIdEnd, svIdLengthAt]
  omega

/-- Checks that stop within bounds, with an outcome behind them that does, stop within them. The
outcome may rely on the checks. -/
theorem runChecks_stop {checks : List (Nat × Bool)} {pass : Scan} {lower upper : Nat}
    (hchecks : ∀ check ∈ checks, lower < check.1 ∧ check.1 ≤ upper)
    (hpass : (∀ check ∈ checks, check.2 = true) → lower < pass.stop ∧ pass.stop ≤ upper) :
    lower < (runChecks checks pass).stop ∧ (runChecks checks pass).stop ≤ upper := by
  rcases runChecks_cases checks pass with ⟨hrun, hall⟩ | ⟨check, hmem, -, hrun⟩
  · rw [hrun]
    exact hpass hall
  · rw [hrun]
    exact hchecks check hmem

/-- The part of an ASDU behind its svID moves the position on, by 79 bytes at most. -/
theorem fieldsScan_stop (bytes : List UInt8) (position : Nat) :
    svIdEnd bytes position
        < (runChecks (fieldChecks bytes (svIdEnd bytes position)) (asduPass bytes position)).stop ∧
      (runChecks (fieldChecks bytes (svIdEnd bytes position)) (asduPass bytes position)).stop
        ≤ svIdEnd bytes position + 79 := by
  refine runChecks_stop ?_ fun _ => ?_
  · simp only [fieldChecks, List.forall_mem_cons]
    refine ⟨?_, ?_, ?_, ?_, ?_, ?_, ?_, ?_, by simp⟩ <;> omega
  · have hstop : (asduPass bytes position).stop = svIdEnd bytes position + 79 := rfl
    omega

/-- An ASDU moves the position on, by 117 bytes at most: the svID takes 38 of them, the fields
79. -/
theorem asduScan_stop (bytes : List UInt8) (position : Nat) :
    position < (asduScan bytes position).stop ∧
      (asduScan bytes position).stop ≤ position + 117 := by
  have hfields := fieldsScan_stop bytes position
  refine runChecks_stop ?_ fun hall => ?_
  · simp only [asduChecks, List.forall_mem_cons]
    exact ⟨by omega, by omega, by omega, by omega, by simp⟩
  · have hstart : position + 4 ≤ svIdEnd bytes position := Nat.le_add_right ..
    -- the length of the svID was checked before the rest is reached
    have hsvId : svIdEnd bytes position ≤ position + 38 := by
      simp only [asduChecks, List.forall_mem_cons, decide_eq_true_eq] at hall
      exact svIdEnd_le hall.2.2.2.1.2
    omega

/-- A length takes one to five bytes, whatever the first one is. -/
theorem asnEnd_bounds (bytes : List UInt8) (position : Nat) :
    position + 1 ≤ asnEnd bytes position ∧ asnEnd bytes position ≤ position + 5 := by
  rw [asnEnd, asnCountAt]
  split <;> omega

/-- ASDUs move the position on, by 117 bytes each at most, so that sixteen of them stay below
2000. -/
theorem asdusScan_stop (bytes : List UInt8) (count position : Nat) :
    position ≤ (asdusScan bytes count position).stop ∧
      (asdusScan bytes count position).stop ≤ position + 117 * count := by
  induction count generalizing position with
  | zero => exact ⟨le_refl _, le_refl _⟩
  | succ count ih =>
      have hfirst := asduScan_stop bytes position
      have hrest := ih (asduScan bytes position).stop
      rw [asdusScan_succ]
      split
      · constructor <;> dsimp only <;> omega
      · omega

/-- A PDU moves the position on, by 8 to 1895 bytes: the header is always read, and there are at
most 16 ASDUs. -/
theorem pduScan_stop (bytes : List UInt8) (position : Nat) :
    position + 7 < (pduScan bytes position).stop ∧
      (pduScan bytes position).stop ≤ position + 1895 := by
  have hsav := asnEnd_bounds bytes (position + 9)
  have hseq := asnEnd_bounds bytes (asnEnd bytes (position + 9) + 4)
  refine runChecks_stop ?_ fun hall => ?_
  · simp only [pduChecks, List.forall_mem_cons]
    refine ⟨?_, ?_, ?_, ?_, ?_, ?_, ?_, ?_, by simp⟩ <;> omega
  · -- the number of ASDUs was checked before they are read, so that there are sixteen at most
    have hcount : seqCountAt bytes position ≤ 16 := by
      simp only [pduChecks, List.forall_mem_cons, decide_eq_true_eq] at hall
      exact UInt8.le_iff_toNat_le.mp hall.2.2.2.2.2.1.2
    have hstop := asdusScan_stop bytes (seqCountAt bytes position) (asdusStart bytes position)
    rw [asdusStart] at hstop
    show position + 7 < (asdusScan bytes _ (asdusStart bytes position)).stop ∧
      (asdusScan bytes _ (asdusStart bytes position)).stop ≤ position + 1895
    rw [asdusStart]
    omega

/-- The loop has moved past the bytes after enough iterations, since each moves the position on. -/
theorem framesScan_isSome (bytes : List UInt8) (written : Nat) {fuel position : Nat}
    (hfuel : written ≤ position + fuel) :
    (framesScan bytes written (fuel + 1) position).isSome := by
  induction fuel generalizing position with
  | zero =>
      rw [framesScan, if_neg (by omega)]
      rfl
  | succ fuel ih =>
      rw [framesScan]
      split
      · -- every frame moves the position on
        have hstop := (pduScan_stop bytes (position + etherHeaderSize)).1
        rw [Option.isSome_map]
        exact ih (by omega)
      · rfl

namespace IecParser

variable {size : Nat}

/-- The parser and its buffer at a position of a frame. The frame ends, as its header says, at a
position that is known as a word. -/
def stateAt (b : StaticBuffer size) (sequence : List ASDU) (frameEnd : UInt16) (position : Nat) :
    ParseState size where
  parser := { sequence, internalFrameLength := frameEnd - UInt16.ofNat position }
  buffer := b.seek position

/-- The result of a call with an outcome: the buffer is at `scan.stop`, the ASDUs are behind those
of the `sequence`, and the counter is what is left up to `frameEnd`. -/
def result (b : StaticBuffer size) (sequence : List ASDU) (frameEnd : UInt16) (scan : Scan) :
    EStateM.Result Fault (ParseState size) Bool :=
  .ok scan.accepted (stateAt b (sequence ++ scan.asdus) frameEnd scan.stop)

/-- Lowering the rest of the frame by what was read is the rest at the position behind it, in
words. -/
theorem sub_ofNat_add (frameEnd : UInt16) (position length : Nat) :
    frameEnd - UInt16.ofNat position - UInt16.ofNat length
      = frameEnd - UInt16.ofNat (position + length) := by
  rw [UInt16.ofNat_add, UInt16.sub_eq_iff_eq_add, UInt16.sub_eq_iff_eq_add, UInt16.add_assoc,
    UInt16.add_comm (UInt16.ofNat length), UInt16.sub_add_cancel]

/-- Moving the offset and lowering the rest of the frame by the same length keeps `stateAt`: its
counter is the rest of the frame at the new position. -/
theorem subFrameLength_stateAt {β : Type} (b : StaticBuffer size) (sequence : List ASDU)
    (frameEnd : UInt16) (position length : Nat) (f : Unit → ParseM size β) :
    (subFrameLength (UInt16.ofNat length) >>= f)
        { parser := { sequence, internalFrameLength := frameEnd - UInt16.ofNat position }
          buffer := b.seek (position + length) }
      = f () (stateAt b sequence frameEnd (position + length)) := by
  rw [subFrameLength, bind_modify, stateAt, sub_ofNat_add]

variable {b : StaticBuffer size} {sequence : List ASDU} {frameEnd : UInt16}
  {position : Nat}

/-- A read of the buffer at a position, with the lowering of the rest of the frame behind it. This
is how every field of a frame is read. -/
theorem read_stateAt {α β : Type} {m : EStateM Fault (StaticBuffer size) α} {a : α} {length : Nat}
    (h : m (b.seek position) = .ok a (b.seek (position + length))) (f : α → ParseM size β) :
    (do let a ← onBuffer m; subFrameLength (UInt16.ofNat length); f a)
        (stateAt b sequence frameEnd position)
      = f a (stateAt b sequence frameEnd (position + length)) := by
  have hread : onBuffer m (stateAt b sequence frameEnd position)
      = .ok a
        { parser := { sequence, internalFrameLength := frameEnd - UInt16.ofNat position }
          buffer := b.seek (position + length) } :=
    zoom_of_ok h
  rw [bind_of_ok hread, subFrameLength_stateAt]

/-- Storing an ASDU moves neither the offset nor the counter: `pushBack asdu` leads from one
`stateAt` to another with `sequence ++ [asdu]`, at the same position. -/
theorem pushBack_stateAt (asdu : ASDU) :
    pushBack asdu (stateAt b sequence frameEnd position)
      = .ok () (stateAt b (sequence ++ [asdu]) frameEnd position) := rfl

/-- Skipping the svID moves the position on by its length, which is a byte. -/
theorem skip_stateAt {β : Type} (length : UInt8) (f : Unit → ParseM size β) :
    (do appendOffset length.toUInt64; let u ← subFrameLength length.toUInt16; f u)
        (stateAt b sequence frameEnd position)
      = f () (stateAt b sequence frameEnd (position + length.toNat)) := by
  have hoffset : length.toUInt64 = UInt64.ofNat length.toNat :=
    (UInt64.ofNat_uInt8ToNat length).symm
  have hlength : length.toUInt16 = UInt16.ofNat length.toNat :=
    (UInt16.ofNat_uInt8ToNat length).symm
  rw [appendOffset, bind_modify, hoffset, hlength, stateAt, StaticBuffer.appendOffset_seek,
    subFrameLength_stateAt]

/-- A call of the buffer at a position leaves the parser as it is. -/
theorem onBuffer_seek {α : Type} {m : EStateM Fault (StaticBuffer size) α} {a : α}
    {position position' : Nat} {parser : IecParser}
    (h : m (b.seek position) = .ok a (b.seek position')) :
    onBuffer m { parser, buffer := b.seek position }
      = .ok a { parser, buffer := b.seek position' } :=
  zoom_of_ok h

/-- The counter of the ASDU, in `u8`, ends at zero exactly when the length byte is right: the parts
are too short to wrap. -/
theorem asduLength_eq_zero (asduLength : UInt8) {svIdLength datasetLen : UInt8}
    (hsvId : 10 ≤ svIdLength ∧ svIdLength ≤ 34) (hdataset : datasetLen = 64) :
    asduLength - (1 + 1 + svIdLength) - (1 + 1 + 2) - (1 + 1 + 4) - (1 + 1 + 1) - (1 + 1)
        - datasetLen = 0 ↔ asduLength.toNat = 81 + svIdLength.toNat := by
  subst hdataset
  have hparts : asduLength - (1 + 1 + svIdLength) - (1 + 1 + 2) - (1 + 1 + 4) - (1 + 1 + 1)
      - (1 + 1) - 64 = asduLength - (81 + svIdLength) := by grind
  have hsmall : 81 + svIdLength.toNat < 2 ^ 8 := by
    have hle := UInt8.le_iff_toNat_le.mp hsvId.2
    have hmax : (34 : UInt8).toNat = 34 := rfl
    omega
  rw [hparts, UInt8.sub_eq_iff_eq_add, UInt8.zero_add, ← UInt8.toNat_inj, UInt8.toNat_add]
  exact iff_of_eq (congrArg _ (Nat.mod_eq_of_lt hsmall))

/-- Comparing a length with the rest of the frame is comparing the position behind it with the end
of the frame, in words. -/
theorem verify_stateAt (assumedLength : UInt32) :
    verify assumedLength.toUInt16 (stateAt b sequence frameEnd position)
      = .ok (frameEnd = UInt16.ofNat (position + assumedLength.toNat))
        (stateAt b sequence frameEnd position) := by
  have hiff : frameEnd - UInt16.ofNat position = assumedLength.toUInt16 ↔
      frameEnd = UInt16.ofNat (position + assumedLength.toNat) := by
    rw [UInt16.sub_eq_iff_eq_add, UInt16.ofNat_add, UInt16.add_comm, UInt16.ofNat_uInt32ToNat]
  rw [verify, bind_get, run_pure]
  show EStateM.Result.ok (decide (frameEnd - UInt16.ofNat position = assumedLength.toUInt16)) _ = _
  rw [decide_eq_decide.mpr hiff]

/-- The last check of a frame: it ends where its counter is zero, at `frameEnd`. -/
theorem verifyEnd_stateAt :
    (do
      if !(← verify 0) then return false
      return true : ParseM size Bool) (stateAt b sequence frameEnd position)
      = .ok (frameEnd = UInt16.ofNat position) (stateAt b sequence frameEnd position) := by
  have hverify : verify 0 (stateAt b sequence frameEnd position)
      = .ok (frameEnd = UInt16.ofNat position) (stateAt b sequence frameEnd position) :=
    verify_stateAt 0
  rw [bind_of_ok hverify]
  cases decide (frameEnd = UInt16.ofNat position) <;> rfl

/-- Setting the rest of the frame after the header gives a state `stateAt`, whose frame ends where
the header says: eight bytes of it are read at that point. -/
theorem setFrameLength_seek (parser : IecParser) :
    setFrameLength (u16At b.readable (position + 2) - UInt16.ofNat headSize)
        { parser, buffer := b.seek (position + 2 + 2 + 2 + 2) }
      = .ok ()
        (stateAt b parser.sequence (frameEndAt b.readable position) (position + 8)) := by
  have hsize : headSize = 8 := rfl
  rw [setFrameLength, run_modify, hsize, stateAt, ← sub_ofNat_add, frameEndAt,
    UInt16.add_comm (UInt16.ofNat position), UInt16.add_sub_cancel]

/-- A byte is outside of a range when the check of the range fails, as the check of the parser asks
for it by two comparisons. -/
theorem outside_iff (byte lower upper : UInt8) :
    byte < lower ∨ byte > upper ↔ decide (lower ≤ byte ∧ byte ≤ upper) = false := by
  rw [decide_eq_false_iff_not, not_and_or, UInt8.not_le, UInt8.not_le]

/-- Moving on over the Ethernet header is `seek` to the position behind it. -/
theorem appendOffset_seek (parser : IecParser) (length : Nat) :
    appendOffset (UInt64.ofNat length) { parser, buffer := b.seek position }
      = .ok () { parser, buffer := b.seek (position + length) } := by
  rw [appendOffset, run_modify, StaticBuffer.appendOffset_seek]

/-- The two masks of the first byte of a length: its upper bit, and the number below that. -/
theorem and_masks (byte : UInt8) :
    (byte &&& 0x80 ≠ 0 ↔ 128 ≤ byte.toNat) ∧ (byte &&& 0x7f).toNat = byte.toNat % 128 := by
  have hlt := byte.toNat_lt
  have hhigh : (0x80 : UInt8).toNat = 2 ^ 7 := rfl
  have hlow : (0x7f : UInt8).toNat = 2 ^ 7 - 1 := rfl
  have hzero : (0 : UInt8).toNat = 0 := rfl
  rw [ne_eq, ← UInt8.toNat_inj, UInt8.toNat_and, UInt8.toNat_and, hhigh, hlow, hzero,
    Nat.and_two_pow_sub_one_eq_mod, Nat.and_two_pow, Nat.testBit_eq_decide_div_mod_eq]
  refine ⟨?_, rfl⟩
  -- `byte &&& 0x80` is `2 ^ 7` or zero, as the upper bit is set or not
  by_cases hbit : byte.toNat / 2 ^ 7 % 2 = 1
  · rw [decide_eq_true hbit]
    exact ⟨fun _ => by omega, fun _ => by decide⟩
  · rw [decide_eq_false hbit]
    exact ⟨fun hne => absurd rfl hne, fun _ => by omega⟩

variable [Host]

/-- Reading a byte of a frame gives `u8At` and moves the position on by one. -/
theorem readU8_stateAt {β : Type} (hwrap : position + 1 < 2 ^ 64) (f : UInt8 → ParseM size β) :
    (do let byte ← onBuffer StaticBuffer.readU8; subFrameLength 1; f byte)
        (stateAt b sequence frameEnd position)
      = f (u8At b.readable position) (stateAt b sequence frameEnd (position + 1)) :=
  read_stateAt (b.readU8_seek hwrap) f

/-- Reading a word of a frame gives `u16At` and moves the position on by two. -/
theorem readU16_stateAt {β : Type} (hwrap : position + 2 < 2 ^ 64) (f : UInt16 → ParseM size β) :
    (do let word ← onBuffer StaticBuffer.readU16; subFrameLength 2; f word)
        (stateAt b sequence frameEnd position)
      = f (u16At b.readable position) (stateAt b sequence frameEnd (position + 2)) :=
  read_stateAt (b.readU16_seek hwrap) f

/-- Reading a double word of a frame gives `u32At` and moves the position on by four. -/
theorem readU32_stateAt {β : Type} (hwrap : position + 4 < 2 ^ 64) (f : UInt32 → ParseM size β) :
    (do let dword ← onBuffer StaticBuffer.readU32; subFrameLength 4; f dword)
        (stateAt b sequence frameEnd position)
      = f (u32At b.readable position) (stateAt b sequence frameEnd (position + 4)) :=
  read_stateAt (b.readU32_seek hwrap) f

/-- A check of a byte: a failed one ends the call behind it, and after one that holds the rest `f`
is run. This is one entry of a list that `runChecks` runs. -/
theorem check_stateAt {bad : UInt8 → Prop} [DecidablePred bad] {f : UInt8 → ParseM size Bool}
    {ok : Bool} {checks : List (Nat × Bool)} {pass : Scan} (hwrap : position + 1 < 2 ^ 64)
    (hok : bad (u8At b.readable position) ↔ ok = false)
    (hrest : ok = true → f (u8At b.readable position) (stateAt b sequence frameEnd (position + 1))
      = result b sequence frameEnd (runChecks checks pass)) :
    (do
      let byte ← onBuffer StaticBuffer.readU8
      subFrameLength 1
      if bad byte then return false else f byte) (stateAt b sequence frameEnd position)
      = result b sequence frameEnd (runChecks ((position + 1, ok) :: checks) pass) := by
  rw [readU8_stateAt hwrap]
  cases ok with
  | false =>
      -- the byte was read, and nothing was stored
      rw [if_pos (hok.mpr rfl), run_pure, runChecks, if_neg (by decide), result, List.append_nil]
  | true =>
      have hgood : ¬ bad (u8At b.readable position) := fun hbad => by cases hok.mp hbad
      rw [if_neg hgood, runChecks, if_pos rfl]
      exact hrest rfl

/-- A data unit of a frame is `dataUnitAt` its position, and the offset moves on by eight bytes. -/
theorem parseDataUnit_stateAt (hwrap : position + 8 < 2 ^ 64) :
    parseDataUnit (stateAt b sequence frameEnd position)
      = .ok (dataUnitAt b.readable position) (stateAt b sequence frameEnd (position + 8)) := by
  unfold parseDataUnit
  rw [readU32_stateAt (by omega), readU16_stateAt (by omega), readU16_stateAt (by omega), run_pure]
  rfl

/-- The data units of a frame are `dataAt` their position. The induction is on their number. -/
theorem parseDataUnits_stateAt (count : Nat) (hwrap : position + 8 * count < 2 ^ 64) :
    parseDataUnits count (stateAt b sequence frameEnd position)
      = .ok (dataAt b.readable position count)
        (stateAt b sequence frameEnd (position + 8 * count)) := by
  induction count with
  | zero => rfl
  | succ count ih =>
      unfold parseDataUnits
      rw [bind_of_ok (ih (by omega)), bind_of_ok (parseDataUnit_stateAt (by omega)), run_pure]
      rfl

/-- **The ASDU** at a position: `parseASDU` gives what `asduScan` finds there, one entry of the
lists `asduChecks` and `fieldChecks` for each check of the function. -/
theorem parseASDU_stateAt (hwrap : position + 120 < 2 ^ 64) :
    parseASDU (stateAt b sequence frameEnd position)
      = result b sequence frameEnd (asduScan b.readable position) := by
  have hfields : position + 1 + 1 + 1 + 1 + (u8At b.readable (position + 1 + 1 + 1)).toNat
      = svIdEnd b.readable position := rfl
  unfold parseASDU asduScan asduChecks
  refine check_stateAt (by omega) (by simp [stdAsduId]) fun _ => ?_
  refine check_stateAt (by omega) (outside_iff _ _ _) fun _ => ?_
  refine check_stateAt (by omega) (by simp [stdSvId]) fun _ => ?_
  refine check_stateAt (by omega) (outside_iff _ _ _) fun hsvId => ?_
  have hbound : svIdEnd b.readable position ≤ position + 38 :=
    svIdEnd_le (of_decide_eq_true hsvId).2
  rw [skip_stateAt, hfields, runChecks, fieldChecks]
  -- the sample count
  refine check_stateAt (by omega) (by simp [stdSmpCntId]) fun _ => ?_
  refine check_stateAt (by omega) (by simp) fun _ => ?_
  rw [readU16_stateAt (by omega)]
  -- the configuration revision
  refine check_stateAt (by omega) (by simp [stdConfRevId]) fun _ => ?_
  refine check_stateAt (by omega) (by simp) fun _ => ?_
  rw [readU32_stateAt (by omega)]
  -- the sample synchronisation
  refine check_stateAt (by omega) (by simp [stdSmpSyncId]) fun _ => ?_
  refine check_stateAt (by omega) (by simp) fun _ => ?_
  rw [readU8_stateAt (by omega)]
  -- the data
  refine check_stateAt (by omega) (by simp [stdDatasetId]) fun _ => ?_
  refine check_stateAt (by omega) (by simp [dataUnitSize, unitsPerASDU, ← UInt8.toNat_inj])
    fun hdataset => ?_
  rw [bind_of_ok (parseDataUnits_stateAt _ (by rw [unitsPerASDU]; omega))]
  rw [bind_of_ok (pushBack_stateAt _)]
  -- the ASDU is stored before the last check, which is of its length byte
  have hcheck := asduLength_eq_zero (u8At b.readable (position + 1))
    (of_decide_eq_true hsvId) (of_decide_eq_true hdataset)
  have haccepted : (asduPass b.readable position).accepted
      = decide ((u8At b.readable (position + 1)).toNat = 81 + svIdLengthAt b.readable position) :=
    rfl
  rw [runChecks, result, haccepted]
  by_cases htruthful :
      (u8At b.readable (position + 1)).toNat = 81 + svIdLengthAt b.readable position
  · rw [if_neg (not_not.mpr (hcheck.mpr htruthful)), run_pure, decide_eq_true htruthful]
    rfl
  · rw [if_pos (mt hcheck.mp htruthful), run_pure, decide_eq_false htruthful]
    rfl

/-- **The ASDUs** from a position on: `parseASDUs` gives what `asdusScan` finds. -/
theorem parseASDUs_stateAt (count : Nat) (hwrap : position + 120 * count < 2 ^ 64) :
    parseASDUs count (stateAt b sequence frameEnd position)
      = result b sequence frameEnd (asdusScan b.readable count position) := by
  -- the induction is on the number of ASDUs; the position of the next one is where the first stops
  induction count generalizing position sequence with
  | zero => rw [parseASDUs, run_pure, asdusScan, result, List.append_nil]
  | succ count ih =>
      have hwrap' : position + 120 < 2 ^ 64 := by omega
      have hone : parseASDU (stateAt b sequence frameEnd position)
          = result b sequence frameEnd (asduScan b.readable position) :=
        parseASDU_stateAt hwrap'
      have hstop := (asduScan_stop b.readable position).2
      rw [parseASDUs, bind_of_ok hone, asdusScan_succ]
      cases haccepted : (asduScan b.readable position).accepted with
      | true =>
          show parseASDUs count _ = _
          rw [ih (by omega), if_pos rfl, result, result, List.append_assoc]
      | false =>
          rw [if_neg Bool.false_ne_true]
          show EStateM.Result.ok false _ = _
          rw [result, haccepted]

/-! ### Lengths -/

/-- The loop over the bytes of a length gives `asnBytesAt`, by induction on their number. -/
theorem parseAsnBytes_stateAt (count : Nat) (length : UInt32) (hwrap : position + count < 2 ^ 64) :
    parseAsnBytes count length (stateAt b sequence frameEnd position)
      = .ok (asnBytesAt b.readable position count length)
        (stateAt b sequence frameEnd (position + count)) := by
  induction count generalizing position length with
  | zero => rfl
  | succ count ih =>
      rw [parseAsnBytes, readU8_stateAt (by omega), ih _ (by omega), asnBytesAt, Nat.add_assoc,
        Nat.add_comm 1]

/-- **The length** at a position: its value is `asnValueAt`, and the next position `asnEnd`. The two
agree on more than four bytes, of which none is read. -/
theorem parseAsnLength_stateAt (hwrap : position + 10 < 2 ^ 64) :
    parseAsnLength (stateAt b sequence frameEnd position)
      = .ok (asnValueAt b.readable position)
        (stateAt b sequence frameEnd (asnEnd b.readable position)) := by
  obtain ⟨hhigh, hlow⟩ := and_masks (u8At b.readable position)
  rw [parseAsnLength, readU8_stateAt (by omega)]
  have hlt := (u8At b.readable position).toNat_lt
  by_cases hform : 128 ≤ (u8At b.readable position).toNat
  · have hshort : ¬ (u8At b.readable position).toNat < 128 := by omega
    rw [if_pos (hhigh.mpr hform), hlow, asnValueAt, if_neg hshort, asnEnd, asnCountAt]
    by_cases hlong : (u8At b.readable position).toNat ≤ 132
    · -- one to four bytes follow, or none
      have hcount : (u8At b.readable position).toNat % 128
          = (u8At b.readable position).toNat - 128 := by omega
      rw [hcount, if_neg (by omega), if_pos ⟨hform, hlong⟩, parseAsnBytes_stateAt _ _ (by omega)]
    · -- with more than four, none of them is read
      rw [if_pos (by omega), if_neg fun h => hlong h.2]
      rfl
  · rw [if_neg (mt hhigh.mp hform), run_pure, asnValueAt, if_pos (by omega), asnEnd, asnCountAt,
      if_neg fun h => hform h.1]

/-- A check of a length: a failed one ends the call behind the length, as an entry of `runChecks`
does. -/
theorem asnCheck_stateAt {f : ParseM size Bool} {checks : List (Nat × Bool)} {pass : Scan}
    (hwrap : position + 10 < 2 ^ 64)
    (hrest : f (stateAt b sequence frameEnd (asnEnd b.readable position))
      = result b sequence frameEnd (runChecks checks pass)) :
    (do
      let length ← parseAsnLength
      if !(← verify length.toUInt16) then return false else f)
        (stateAt b sequence frameEnd position)
      = result b sequence frameEnd (runChecks
        ((asnEnd b.readable position, asnFits b.readable frameEnd position) :: checks) pass) := by
  rw [bind_of_ok (parseAsnLength_stateAt hwrap), bind_of_ok (verify_stateAt _), runChecks]
  show (if (!asnFits b.readable frameEnd position) = true then _ else f) _ = _
  cases asnFits b.readable frameEnd position with
  -- the call ends behind the length, with nothing stored
  | false =>
      rw [if_neg Bool.false_ne_true, result, List.append_nil]
      rfl
  | true =>
      rw [if_pos rfl]
      exact hrest

/-- **The sequence of ASDUs** at a position: the two checks before the ASDUs, and `sequencePass`. -/
theorem parseSequence_stateAt {seqCount : UInt8} (hwrap : position + 1990 < 2 ^ 64)
    (hcount : seqCount.toNat ≤ 16) :
    parseSequence seqCount (stateAt b sequence frameEnd position)
      = result b sequence frameEnd (runChecks
        [(position + 1, u8At b.readable position = 0xa2),
          (asnEnd b.readable (position + 1), asnFits b.readable frameEnd (position + 1))]
        (sequencePass b.readable frameEnd seqCount.toNat (asnEnd b.readable (position + 1)))) := by
  have hstart := asnEnd_bounds b.readable (position + 1)
  unfold parseSequence
  refine check_stateAt (by omega) (by simp [stdSeqAsduId]) fun _ => ?_
  refine asnCheck_stateAt (by omega) ?_
  rw [bind_of_ok (parseASDUs_stateAt _ (by omega)), runChecks, result, sequencePass]
  -- the end of the frame is looked at only when no ASDU was rejected
  cases haccepted :
      (asdusScan b.readable seqCount.toNat (asnEnd b.readable (position + 1))).accepted with
  | false => rfl
  | true => exact verifyEnd_stateAt

/-- Reading the header of a PDU gives its four words, the second of which is the length. -/
theorem header_seek {α : Type} (parser : IecParser)
    (f : UInt16 → UInt16 → UInt16 → UInt16 → ParseM size α) (hwrap : position + 8 < 2 ^ 64) :
    (do
      let appID ← onBuffer StaticBuffer.readU16
      let headLength ← onBuffer StaticBuffer.readU16
      let res1 ← onBuffer StaticBuffer.readU16
      let res2 ← onBuffer StaticBuffer.readU16
      f appID headLength res1 res2) { parser, buffer := b.seek position }
      = f (u16At b.readable position) (u16At b.readable (position + 2))
          (u16At b.readable (position + 2 + 2)) (u16At b.readable (position + 2 + 2 + 2))
          { parser, buffer := b.seek (position + 2 + 2 + 2 + 2) } := by
  rw [bind_of_ok (onBuffer_seek (b.readU16_seek (by omega))),
    bind_of_ok (onBuffer_seek (b.readU16_seek (by omega))),
    bind_of_ok (onBuffer_seek (b.readU16_seek (by omega))),
    bind_of_ok (onBuffer_seek (b.readU16_seek (by omega)))]

/-- **The PDU** at a position whose header gives a length: `parsePDU` gives what `pduScan` finds
there. -/
theorem parsePDU_stateAt (internalFrameLength : UInt16) (hwrap : position + 2100 < 2 ^ 64)
    (hlength : u16At b.readable (position + 2) ≠ 0) :
    parsePDU { parser := { sequence, internalFrameLength }, buffer := b.seek position }
      = result b sequence (frameEndAt b.readable position) (pduScan b.readable position) := by
  have hsav := asnEnd_bounds b.readable (position + 9)
  have hnine : position + 8 + 1 = position + 9 := rfl
  have hpositive : ¬ u16At b.readable (position + 2) ≤ 0 := fun hle =>
    hlength (UInt16.le_zero_iff.mp hle)
  unfold parsePDU pduScan pduChecks
  rw [header_seek _ _ (by omega), if_neg hpositive, bind_of_ok (setFrameLength_seek _), runChecks,
    if_pos (decide_eq_true hlength)]
  -- from here on the counter holds what is left of the frame
  refine check_stateAt (by omega) (by simp [stdPduId]) fun _ => ?_
  rw [hnine]
  refine asnCheck_stateAt (by omega) ?_
  refine check_stateAt (by omega) (by simp [stdNoAsduId]) fun _ => ?_
  refine check_stateAt (by omega) (by simp) fun _ => ?_
  refine check_stateAt (by omega) (Or.comm.trans (outside_iff _ _ _)) fun hcount => ?_
  exact parseSequence_stateAt (by omega) (UInt8.le_iff_toNat_le.mp (of_decide_eq_true hcount).2)

/-- A PDU whose header has the length zero is rejected behind the header, as `pduScan` has it; the
counter keeps what it had. -/
theorem parsePDU_zero (internalFrameLength : UInt16) (hwrap : position + 2100 < 2 ^ 64)
    (hlength : u16At b.readable (position + 2) = 0) :
    parsePDU { parser := { sequence, internalFrameLength }, buffer := b.seek position }
      = .ok false
        { parser := { sequence, internalFrameLength }, buffer := b.seek (position + 8) } := by
  unfold parsePDU
  rw [header_seek _ _ (by omega), hlength, if_pos (by decide), run_pure]

/-- **One PDU.** Up to the counter that it leaves, a call computes the outcome at its position,
`pduScan`, from any counter before. -/
theorem parsePDU_seek (b : StaticBuffer size) (sequence : List ASDU) (internalFrameLength : UInt16)
    (position : Nat) (hwrap : position + 2100 < 2 ^ 64) :
    ∃ left, parsePDU { parser := { sequence, internalFrameLength }, buffer := b.seek position }
      = .ok (pduScan b.readable position).accepted
        { parser :=
            { sequence := sequence ++ (pduScan b.readable position).asdus
              internalFrameLength := left }
          buffer := b.seek (pduScan b.readable position).stop } := by
  by_cases hlength : u16At b.readable (position + 2) = 0
  · refine ⟨internalFrameLength, ?_⟩
    -- the counter is set behind the check of the header only, so that it stays what it was
    have hscan : pduScan b.readable position = ⟨false, position + 8, []⟩ := by
      have hfailed : decide (u16At b.readable (position + 2) ≠ 0) = false :=
        decide_eq_false (not_not.mpr hlength)
      rw [pduScan, pduChecks, runChecks, hfailed, if_neg Bool.false_ne_true]
    rw [parsePDU_zero _ hwrap hlength, hscan, List.append_nil]
  · exact ⟨_, parsePDU_stateAt _ hwrap hlength⟩

/-! ### Frames -/

/-- **One frame.** The body of the loop computes the outcome behind the Ethernet header. -/
theorem parseFrame_seek (b : StaticBuffer size) (sequence : List ASDU) (internalFrameLength : UInt16)
    (position : Nat) (hwrap : position + etherHeaderSize + 2100 < 2 ^ 64) :
    ∃ left, parseFrame { parser := { sequence, internalFrameLength }, buffer := b.seek position }
      = .ok (pduScan b.readable (position + etherHeaderSize)).accepted
        { parser :=
            { sequence := sequence ++ (pduScan b.readable (position + etherHeaderSize)).asdus
              internalFrameLength := left }
          buffer := b.seek (pduScan b.readable (position + etherHeaderSize)).stop } := by
  obtain ⟨left, hpdu⟩ := parsePDU_seek b sequence internalFrameLength (position + etherHeaderSize)
    hwrap
  refine ⟨left, ?_⟩
  rw [parseFrame, bind_of_ok (appendOffset_seek _ _), hpdu]

/-- **The loop over the frames** from a position on computes `framesScan`, for as many iterations as
that has. The counter of one frame is no matter to the next, which sets its own. -/
theorem parseLoop_seek (hwritten : b.written.toNat < 2 ^ 63) {fuel : Nat}
    (sequence : List ASDU) (internalFrameLength : UInt16) (hwrap : position < 2 ^ 63 + 2000)
    {asdus : List ASDU} {stop : Nat}
    (hscan : framesScan b.readable b.written.toNat fuel position = some (asdus, stop)) :
    ∃ left, parseLoop fuel
        { parser := { sequence, internalFrameLength }, buffer := b.seek position }
      = .ok ()
        { parser := { sequence := sequence ++ asdus, internalFrameLength := left }
          buffer := b.seek stop } := by
  induction fuel generalizing position sequence internalFrameLength asdus with
  | zero => cases hscan
  | succ fuel ih =>
      have hlt : (b.seek position).offset < (b.seek position).written ↔
          position < b.written.toNat := by
        rw [UInt64.lt_iff_toNat_lt, b.toNat_seek_offset (by omega), StaticBuffer.seek_written]
      rw [framesScan] at hscan
      rw [parseLoop, bind_get]
      by_cases hmore : position < b.written.toNat
      · -- one frame, and the loop behind it
        rw [if_pos hmore] at hscan
        obtain ⟨⟨rest, stop'⟩, hrest, heq⟩ := Option.map_eq_some_iff.mp hscan
        cases heq
        have hstop := pduScan_stop b.readable (position + etherHeaderSize)
        have hsize : etherHeaderSize = 14 := rfl
        obtain ⟨left, hframe⟩ := parseFrame_seek b sequence internalFrameLength position
          (by omega)
        obtain ⟨left', hloop⟩ := ih
          (sequence ++ (pduScan b.readable (position + etherHeaderSize)).asdus) left (by omega)
          hrest
        refine ⟨left', ?_⟩
        rw [if_pos (hlt.mpr hmore), bind_of_ok hframe, hloop, List.append_assoc]
      · rw [if_neg hmore] at hscan
        cases hscan
        refine ⟨internalFrameLength, ?_⟩
        rw [if_neg (mt hlt.mp hmore), List.append_nil]
        rfl

/-- **A call of `parse`** at a position returns the ASDUs of the outcome of the loop, moves the
offset to its end and leaves no ASDU in the parser. -/
theorem parse_seek (hwritten : b.written.toNat < 2 ^ 63) (sequence : List ASDU)
    (internalFrameLength : UInt16) (hwrap : position < 2 ^ 63 + 2000) {asdus : List ASDU}
    {stop : Nat}
    (hscan : framesScan b.readable b.written.toNat (b.written.toNat + 1) position
      = some (asdus, stop)) :
    ∃ left, parse { parser := { sequence, internalFrameLength }, buffer := b.seek position }
      = .ok (sequence ++ asdus)
        { parser := { sequence := [], internalFrameLength := left }, buffer := b.seek stop } := by
  obtain ⟨left, hloop⟩ := parseLoop_seek hwritten sequence internalFrameLength hwrap hscan
  refine ⟨left, ?_⟩
  rw [parse, bind_get, parseWithin]
  show (parseLoop (b.written.toNat + 1) >>= _) _ = _
  rw [bind_of_ok hloop]
  rfl

/-- A call of `parse` on a buffer that was not read before gives the ASDUs of all frames from the
start of the buffer, behind those of the sequence. -/
theorem parse_start (hoffset : b.offset = 0) (hwritten : b.written.toNat < 2 ^ 63)
    (sequence : List ASDU) (internalFrameLength : UInt16) {asdus : List ASDU} {stop : Nat}
    (hscan : framesScan b.readable b.written.toNat (b.written.toNat + 1) 0 = some (asdus, stop)) :
    ∃ left, parse { parser := { sequence, internalFrameLength }, buffer := b }
      = .ok (sequence ++ asdus)
        { parser := { sequence := [], internalFrameLength := left }, buffer := b.seek stop } := by
  have hseek := b.seek_offset_toNat
  rw [hoffset] at hseek
  have hparse := parse_seek hwritten sequence internalFrameLength (by omega) hscan
  rwa [show b.seek 0 = b from hseek] at hparse

end IecParser

end Iec

end IecCore
