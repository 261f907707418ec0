import IecCore.Iec.FrameScan
import Mathlib.Data.List.Forall2

/-! # What is found does not depend on the rest

The outcome of a call that stops within a part of the bytes depends on this part only, and not on
where in the bytes it stands. So a frame is parsed in the buffer as it is when it stands alone,
whatever is before and behind it. What stops outside of the part may depend on the rest: a check is
compared only as far as its position is within it.

* **`SameBytes A B a b length`** — the same part stands at `a` in `A` and at `b` in `B`.
* **`Moved a b s t`** — the outcome `t` is the outcome `s`, moved from `a` to `b`.
* **`CheckMoved`**, **`runChecks_moved`** — the same for a check, and for a list of checks.
* **`asduScan_moved`**, **`asdusScan_moved`**, **`pduScan_moved`** — outcomes that stop within the
  part are moved with it.
* **`pduScan_of_part`** — the same, for a part that is given by its bytes. -/

namespace IecCore

namespace Iec

variable {A B : List UInt8} {a b length x : Nat}

/-- **The same part**, of a length, stands at `a` in `A` and at `b` in `B`: every field within it
reads the same. -/
def SameBytes (A B : List UInt8) (a b length : Nat) : Prop :=
  ∀ width x, x + width ≤ length → fieldAt A width (a + x) = fieldAt B width (b + x)

namespace SameBytes

theorem u8At_eq (h : SameBytes A B a b length) (hle : x + 1 ≤ length) :
    u8At A (a + x) = u8At B (b + x) :=
  congrArg UInt8.ofNat (h 1 x hle)

theorem u16At_eq (h : SameBytes A B a b length) (hle : x + 2 ≤ length) :
    u16At A (a + x) = u16At B (b + x) :=
  congrArg UInt16.ofNat (h 2 x hle)

theorem u32At_eq (h : SameBytes A B a b length) (hle : x + 4 ≤ length) :
    u32At A (a + x) = u32At B (b + x) :=
  congrArg UInt32.ofNat (h 4 x hle)

/-- A field of a part, wherever the part stands, is the field of the part on its own. -/
theorem fieldAt_of_part {part rest : List UInt8} {width : Nat} (hdrop : A.drop a = part ++ rest)
    (hle : x + width ≤ part.length) : fieldAt A width (a + x) = fieldAt part width x := by
  by_cases hwidth : width = 0
  · -- a field of no bytes is zero everywhere
    subst hwidth
    have hlt := fieldAt_lt A 0 (a + x)
    have hlt' := fieldAt_lt part 0 x
    rw [pow_zero] at hlt hlt'
    omega
  · have hlength := congrArg List.length hdrop
    rw [List.length_drop, List.length_append] at hlength
    rw [fieldAt, fieldAt, window, window, if_pos (by omega), if_pos hle, ← List.drop_drop, hdrop,
      List.drop_append_of_le_length (by omega), List.take_append_of_le_length]
    rw [List.length_drop]
    omega

/-- A part that stands in two lists, at `a` and at `b`, is the same in both: `SameBytes A B a b
part.length`. -/
theorem of_drop {part restA restB : List UInt8} (hA : A.drop a = part ++ restA)
    (hB : B.drop b = part ++ restB) : SameBytes A B a b part.length :=
  fun _ _ hle => (fieldAt_of_part hA hle).trans (fieldAt_of_part hB hle).symm

/-- Bytes stand behind others as they are, with what is read past their end, which is zero in
both. -/
theorem append (part bytes : List UInt8) (length : Nat) :
    SameBytes (part ++ bytes) bytes part.length 0 length := by
  intro width x _
  have hinside : part.length + x + width ≤ (part ++ bytes).length
      ↔ 0 + x + width ≤ bytes.length := by
    rw [List.length_append]
    omega
  have hdrop : (part ++ bytes).drop (part.length + x) = bytes.drop (0 + x) := by
    rw [← List.drop_drop, List.drop_left, Nat.zero_add]
  simp only [fieldAt, window, hinside, hdrop]

end SameBytes

/-! ## Checks -/

/-- The outcome `t` is the outcome `s`, **moved** from `a` to `b`: the result and the ASDUs are the
same, and the position is as far from `b` as it was from `a`. -/
def Moved (a b : Nat) (s t : Scan) : Prop :=
  ∃ x, s.stop = a + x ∧ t = ⟨s.accepted, b + x, s.asdus⟩

/-- The check `d` is the check `c`, moved from `a` to `b`, when `c` stops within the part. Beyond it
only the position of `c` is known. -/
def CheckMoved (a b length : Nat) (c d : Nat × Bool) : Prop :=
  ∃ x, c.1 = a + x ∧ (x ≤ length → d = (b + x, c.2))

/-- The check of a byte is moved with its part: what a predicate says of `A` at `a + x`, it says of
`B` at `b + x`. -/
theorem checkMoved_u8At (hsame : SameBytes A B a b length) (x : Nat) (P : UInt8 → Prop)
    [DecidablePred P] :
    CheckMoved a b length (a + x + 1, decide (P (u8At A (a + x))))
      (b + x + 1, decide (P (u8At B (b + x)))) :=
  ⟨x + 1, rfl, fun hle => by rw [hsame.u8At_eq hle]; rfl⟩

/-- Checks in the order of their stops are moved with their part, and so is the outcome behind
them. -/
theorem runChecks_moved {checks checks' : List (Nat × Bool)} {pass pass' : Scan}
    (hchecks : List.Forall₂ (CheckMoved a b length) checks checks')
    (hsorted : checks.Pairwise fun c d => c.1 ≤ d.1) (hle : ∀ check ∈ checks, check.1 ≤ pass.stop)
    (hpass : (∀ check ∈ checks, check.2 = true) → pass.stop ≤ a + length → Moved a b pass pass')
    (hstop : (runChecks checks pass).stop ≤ a + length) :
    Moved a b (runChecks checks pass) (runChecks checks' pass') := by
  induction hchecks with
  | nil => exact hpass (by simp) hstop
  | @cons check check' checks checks' hcheck _ ih =>
      obtain ⟨stop, ok⟩ := check
      obtain ⟨x, hx, hsame⟩ := hcheck
      rw [List.pairwise_cons] at hsorted
      rw [List.forall_mem_cons] at hle
      rw [runChecks] at hstop ⊢
      cases ok with
      | false =>
          -- the call ends at this check
          rw [if_neg Bool.false_ne_true] at hstop ⊢
          have hwithin : stop ≤ a + length := hstop
          rw [hsame (by dsimp only at hx; omega)]
          exact ⟨x, hx, rfl⟩
      | true =>
          rw [if_pos rfl] at hstop ⊢
          -- a check that holds ends before the call does, and so within the part
          have hbefore : stop ≤ (runChecks checks pass).stop := by
            rcases runChecks_cases checks pass with ⟨hrun, -⟩ | ⟨failed, hmem, -, hrun⟩
            · rw [hrun]
              exact hle.1
            · rw [hrun]
              exact hsorted.1 failed hmem
          rw [hsame (by dsimp only at hx; omega)]
          exact ih hsorted.2 hle.2
            (fun hall => hpass (List.forall_mem_cons.mpr ⟨rfl, hall⟩)) hstop

/-! ## ASDUs -/

/-- Data units within the part are the same, wherever it stands. -/
theorem dataAt_eq (hsame : SameBytes A B a b length) (count : Nat) (hle : x + 8 * count ≤ length) :
    dataAt A (a + x) count = dataAt B (b + x) count := by
  induction count with
  | zero => rfl
  | succ count ih =>
      have hunit : dataUnitAt A (a + (x + 8 * count)) = dataUnitAt B (b + (x + 8 * count)) := by
        have hquality : u16At A (a + (x + 8 * count) + 4) = u16At B (b + (x + 8 * count) + 4) :=
          hsame.u16At_eq (x := x + 8 * count + 4) (by omega)
        have hbitset : u16At A (a + (x + 8 * count) + 6) = u16At B (b + (x + 8 * count) + 6) :=
          hsame.u16At_eq (x := x + 8 * count + 6) (by omega)
        rw [dataUnitAt, dataUnitAt, hsame.u32At_eq (by omega), hquality, hbitset]
      rw [dataAt, dataAt, ih (by omega), Nat.add_assoc, hunit, Nat.add_assoc]

/-- The part of an ASDU behind its svID is moved with the part that it stops within. -/
theorem fieldsScan_moved (hsame : SameBytes A B a b length) {y : Nat} (hxy : x + 4 ≤ y)
    (hA : svIdEnd A (a + x) = a + y) (hB : svIdEnd B (b + x) = b + y)
    (hstop : (runChecks (fieldChecks A (svIdEnd A (a + x))) (asduPass A (a + x))).stop
      ≤ a + length) :
    Moved a b (runChecks (fieldChecks A (svIdEnd A (a + x))) (asduPass A (a + x)))
      (runChecks (fieldChecks B (svIdEnd B (b + x))) (asduPass B (b + x))) := by
  have hend : (asduPass A (a + x)).stop = a + y + 79 := by rw [asduPass, hA]
  refine runChecks_moved ?_ ?_ ?_ (fun _ hwithin => ?_) hstop
  · rw [hA, hB]
    exact .cons (checkMoved_u8At hsame y (· = 0x82))
      (.cons (checkMoved_u8At hsame (y + 1) (· = 2))
        (.cons (checkMoved_u8At hsame (y + 4) (· = 0x83))
          (.cons (checkMoved_u8At hsame (y + 5) (· = 4))
            (.cons (checkMoved_u8At hsame (y + 10) (· = 0x85))
              (.cons (checkMoved_u8At hsame (y + 11) (· = 1))
                (.cons (checkMoved_u8At hsame (y + 13) (· = 0x87))
                  (.cons (checkMoved_u8At hsame (y + 14) (· = 64)) .nil)))))))
  · simp [fieldChecks]
  · rw [hend, hA]
    simp only [fieldChecks, List.forall_mem_cons]
    refine ⟨?_, ?_, ?_, ?_, ?_, ?_, ?_, ?_, by simp⟩ <;> omega
  · -- all fields end within the part, as the data units behind them do
    have hinside : y + 79 ≤ length := by omega
    have hlength : u8At A (a + x + 1) = u8At B (b + x + 1) := hsame.u8At_eq (x := x + 1) (by omega)
    have hsvId : u8At A (a + x + 3) = u8At B (b + x + 3) := hsame.u8At_eq (x := x + 3) (by omega)
    have hcnt : u16At A (a + y + 2) = u16At B (b + y + 2) := hsame.u16At_eq (x := y + 2) (by omega)
    have hsync : u8At A (a + y + 12) = u8At B (b + y + 12) := hsame.u8At_eq (x := y + 12) (by omega)
    have hrev : u32At A (a + y + 6) = u32At B (b + y + 6) := hsame.u32At_eq (x := y + 6) (by omega)
    have hdata : dataAt A (a + y + 15) unitsPerASDU = dataAt B (b + y + 15) unitsPerASDU :=
      dataAt_eq hsame (x := y + 15) unitsPerASDU (by rw [unitsPerASDU]; omega)
    refine ⟨y + 79, hend, ?_⟩
    rw [asduPass, asduPass, asduAt, asduAt, svIdLengthAt, svIdLengthAt, hA, hB, hlength, hsvId,
      hcnt, hsync, hrev, hdata]
    rfl

/-- **An ASDU** that ends within the part is moved with it, accepted or not. -/
theorem asduScan_moved (hsame : SameBytes A B a b length)
    (hstop : (asduScan A (a + x)).stop ≤ a + length) :
    Moved a b (asduScan A (a + x)) (asduScan B (b + x)) := by
  have hfields := (fieldsScan_stop A (a + x)).1
  have hend : svIdEnd A (a + x) = a + (x + 4 + svIdLengthAt A (a + x)) := by
    rw [svIdEnd]
    omega
  refine runChecks_moved ?_ ?_ ?_ (fun _ hwithin => ?_) hstop
  · exact .cons (checkMoved_u8At hsame x (· = 0x30))
      (.cons (checkMoved_u8At hsame (x + 1) fun byte => 91 ≤ byte ∧ byte ≤ 115)
        (.cons (checkMoved_u8At hsame (x + 2) (· = 0x80))
          (.cons (checkMoved_u8At hsame (x + 3) fun byte => 10 ≤ byte ∧ byte ≤ 34) .nil)))
  · simp [asduChecks]
  · simp only [asduChecks, List.forall_mem_cons]
    refine ⟨?_, ?_, ?_, ?_, by simp⟩ <;> omega
  · -- the svID is as long in both, so that the fields are at the same place of the part
    have hlength : u8At A (a + x + 3) = u8At B (b + x + 3) := hsame.u8At_eq (x := x + 3) (by omega)
    refine fieldsScan_moved hsame (Nat.le_add_right ..) hend ?_ hwithin
    rw [svIdEnd, svIdLengthAt, svIdLengthAt, hlength]
    omega

/-- **ASDUs** that end within the part are moved with it, by induction on their number. -/
theorem asdusScan_moved (hsame : SameBytes A B a b length) (count : Nat)
    (hstop : (asdusScan A count (a + x)).stop ≤ a + length) :
    Moved a b (asdusScan A count (a + x)) (asdusScan B count (b + x)) := by
  induction count generalizing x with
  | zero => exact ⟨x, rfl, rfl⟩
  | succ count ih =>
      rw [asdusScan_succ] at hstop ⊢
      rw [asdusScan_succ]
      by_cases haccepted : (asduScan A (a + x)).accepted = true
      · rw [if_pos haccepted] at hstop ⊢
        have hnext := (asdusScan_stop A count (asduScan A (a + x)).stop).1
        obtain ⟨y, hy, hmoved⟩ := asduScan_moved hsame (hnext.trans hstop)
        rw [hy] at hstop ⊢
        obtain ⟨z, hz, hrest⟩ := ih hstop
        rw [hmoved, haccepted, if_pos rfl, hrest]
        exact ⟨z, hz, rfl⟩
      · -- a rejected ASDU is the last one that is read
        rw [if_neg haccepted] at hstop ⊢
        obtain ⟨y, hy, hmoved⟩ := asduScan_moved hsame hstop
        have hrejected : (asduScan A (a + x)).accepted = false := by simpa using haccepted
        rw [hmoved, hrejected, if_neg Bool.false_ne_true]
        exact ⟨y, hy, by rw [hrejected]⟩

/-! ## Lengths -/

/-- The bytes of a length within the part add up to the same value, at `a + x` in `A` and at `b + x`
in `B`. -/
theorem asnBytesAt_eq (hsame : SameBytes A B a b length) (count : Nat) (value : UInt32)
    (hle : x + count ≤ length) :
    asnBytesAt A (a + x) count value = asnBytesAt B (b + x) count value := by
  induction count generalizing x value with
  | zero => rfl
  | succ count ih =>
      rw [asnBytesAt, asnBytesAt, hsame.u8At_eq (by omega), Nat.add_assoc, ih _ (by omega),
        Nat.add_assoc]

/-- A length that ends within the part is moved with it; its end is known from `A` in any case. -/
theorem asn_moved (hsame : SameBytes A B a b length) (x : Nat) :
    ∃ y, x + 1 ≤ y ∧ asnEnd A (a + x) = a + y ∧
      (y ≤ length → asnEnd B (b + x) = b + y ∧ asnValueAt B (b + x) = asnValueAt A (a + x)) := by
  refine ⟨x + 1 + asnCountAt A (a + x), Nat.le_add_right .., by rw [asnEnd]; omega, fun hle => ?_⟩
  have hfirst : u8At B (b + x) = u8At A (a + x) := (hsame.u8At_eq (by omega)).symm
  have hcount : asnCountAt B (b + x) = asnCountAt A (a + x) := by
    rw [asnCountAt, asnCountAt, hfirst]
  refine ⟨by rw [asnEnd, hcount]; omega, ?_⟩
  rw [asnValueAt, asnValueAt, hfirst, hcount, Nat.add_assoc, Nat.add_assoc,
    asnBytesAt_eq hsame _ _ (by omega)]

/-- The check of a length is moved with its part, when the end of the frame is. -/
theorem checkMoved_asnFits (hsame : SameBytes A B a b length) (frameLength : UInt16) (x : Nat) :
    CheckMoved a b length
      (asnEnd A (a + x), asnFits A (UInt16.ofNat a + frameLength) (a + x))
      (asnEnd B (b + x), asnFits B (UInt16.ofNat b + frameLength) (b + x)) := by
  obtain ⟨y, -, hA, hB⟩ := asn_moved hsame x
  refine ⟨y, hA, fun hle => ?_⟩
  obtain ⟨hend, hvalue⟩ := hB hle
  have hfits : ∀ bytes position start, asnEnd bytes position = start + y →
      asnFits bytes (UInt16.ofNat start + frameLength) position
        = decide (frameLength = UInt16.ofNat (y + (asnValueAt bytes position).toNat)) := by
    intro bytes position start hstart
    rw [asnFits, hstart, Nat.add_assoc, UInt16.ofNat_add, decide_eq_decide, UInt16.add_right_inj]
  rw [hfits B _ b hend, hfits A _ a hA, hend, hvalue]

/-! ## PDUs -/

/-- The end of the frame, from the start of the part: the length in the header is added in words. -/
theorem frameEndAt_eq (A : List UInt8) (a x : Nat) :
    frameEndAt A (a + x) = UInt16.ofNat a + (UInt16.ofNat x + u16At A (a + x + 2)) := by
  rw [frameEndAt, UInt16.ofNat_add, UInt16.add_assoc]

/-- The checks of a PDU are moved with their part. The word of its length is asked for on its own,
since a PDU that is rejected behind the header reads no more than that. -/
theorem pduChecks_moved (hsame : SameBytes A B a b length)
    (hlength : u16At A (a + x + 2) = u16At B (b + x + 2)) :
    List.Forall₂ (CheckMoved a b length) (pduChecks A (a + x)) (pduChecks B (b + x)) := by
  obtain ⟨y, -, hA, hB⟩ := asn_moved hsame (x + 9)
  have hsavA : asnEnd A (a + x + 9) = a + y := hA
  -- the checks behind the length of the PDU, at a distance of `n` from it
  have htag : ∀ n P [DecidablePred P], CheckMoved a b length
      (asnEnd A (a + x + 9) + (n + 1), decide (P (u8At A (asnEnd A (a + x + 9) + n))))
      (asnEnd B (b + x + 9) + (n + 1), decide (P (u8At B (asnEnd B (b + x + 9) + n)))) := by
    intro n P _
    refine ⟨y + (n + 1), by rw [hsavA, Nat.add_assoc], fun hle => ?_⟩
    have hsavB : asnEnd B (b + x + 9) = b + y := (hB (by omega)).1
    have hbyte : u8At A (a + y + n) = u8At B (b + y + n) := by
      rw [Nat.add_assoc, Nat.add_assoc]
      exact hsame.u8At_eq (by omega)
    rw [hsavA, hsavB, hbyte, Nat.add_assoc b]
  -- the check of the second length, whose end depends on the first one
  have hseq : CheckMoved a b length
      (asnEnd A (asnEnd A (a + x + 9) + 4),
        asnFits A (frameEndAt A (a + x)) (asnEnd A (a + x + 9) + 4))
      (asnEnd B (asnEnd B (b + x + 9) + 4),
        asnFits B (frameEndAt B (b + x)) (asnEnd B (b + x + 9) + 4)) := by
    obtain ⟨z, hyz, hseqA, hseqB⟩ := asn_moved hsame (y + 4)
    refine ⟨z, by rw [hsavA]; exact hseqA, fun hle => ?_⟩
    have hsavB : asnEnd B (b + x + 9) = b + y := (hB (by omega)).1
    obtain ⟨z', hz', hmoved⟩ :=
      checkMoved_asnFits hsame (UInt16.ofNat x + u16At A (a + x + 2)) (y + 4)
    rw [frameEndAt_eq, frameEndAt_eq, hsavA, hsavB, ← hlength]
    have hzz' : z' = z := by
      have heq : a + z = a + z' := hseqA.symm.trans hz'
      omega
    rw [← hzz']
    exact hmoved (by omega)
  refine .cons ⟨x + 8, rfl, fun hle => ?_⟩ (.cons ?_ (.cons ?_ (.cons ?_ (.cons ?_ (.cons ?_
    (.cons ?_ (.cons hseq .nil)))))))
  · rw [hlength]
    rfl
  · exact checkMoved_u8At hsame (x + 8) (· = 0x60)
  · rw [frameEndAt_eq, frameEndAt_eq, ← hlength]
    exact checkMoved_asnFits hsame _ (x + 9)
  · exact htag 0 (· = 0x80)
  · exact htag 1 (· = 1)
  · exact htag 2 fun byte => 1 ≤ byte ∧ byte ≤ 16
  · exact htag 3 (· = 0xa2)

/-- **A PDU** that ends within the part is moved with it, accepted or not. -/
theorem pduScan_moved (hsame : SameBytes A B a b length)
    (hstop : (pduScan A (a + x)).stop ≤ a + length) :
    Moved a b (pduScan A (a + x)) (pduScan B (b + x)) := by
  have hbounds := pduScan_stop A (a + x)
  have hlength : u16At A (a + x + 2) = u16At B (b + x + 2) := hsame.u16At_eq (x := x + 2) (by omega)
  have hasdus := asdusScan_stop A (seqCountAt A (a + x)) (asdusStart A (a + x))
  -- the two lengths end at `y` and `z`; where they stand in `B` is known when they end in the part
  obtain ⟨y, hxy, hA, hB⟩ := asn_moved hsame (x + 9)
  obtain ⟨z, hyz, hseqA, hseqB⟩ := asn_moved hsame (y + 4)
  have hsavA : asnEnd A (a + x + 9) = a + y := hA
  have hstartA : asdusStart A (a + x) = a + z := by
    rw [asdusStart, hsavA]
    exact hseqA
  have hend : (sequencePass A (frameEndAt A (a + x)) (seqCountAt A (a + x))
      (asdusStart A (a + x))).stop
        = (asdusScan A (seqCountAt A (a + x)) (asdusStart A (a + x))).stop := rfl
  refine runChecks_moved (pduChecks_moved hsame hlength) ?_ ?_ (fun _ hwithin => ?_) hstop
  · rw [pduChecks, hsavA, show asnEnd A (a + y + 4) = a + z from hseqA]
    simp only [List.pairwise_cons, List.forall_mem_cons]
    simp
    omega
  · rw [hend, pduChecks, hsavA, show asnEnd A (a + y + 4) = a + z from hseqA]
    simp only [List.forall_mem_cons]
    refine ⟨?_, ?_, ?_, ?_, ?_, ?_, ?_, ?_, by simp⟩ <;> omega
  · -- all lengths were checked, so that both ends are within the part
    rw [hend] at hwithin
    have hsavB : asnEnd B (b + x + 9) = b + y := (hB (by omega)).1
    have hstartB : asdusStart B (b + x) = b + z := by
      rw [asdusStart, hsavB]
      exact (hseqB (by omega)).1
    have hcount : seqCountAt B (b + x) = seqCountAt A (a + x) := by
      rw [seqCountAt, seqCountAt, hsavA, hsavB]
      exact congrArg UInt8.toNat (hsame.u8At_eq (x := y + 2) (by omega)).symm
    rw [hstartA] at hwithin
    obtain ⟨w, hw, hmoved⟩ := asdusScan_moved hsame _ hwithin
    refine ⟨w, by rw [hend, hstartA]; exact hw, ?_⟩
    rw [sequencePass, sequencePass, hstartA, hstartB, hcount, hmoved, hw, frameEndAt_eq,
      frameEndAt_eq, ← hlength, UInt16.ofNat_add, UInt16.ofNat_add]
    simp only [UInt16.add_right_inj]

/-- The outcome of a PDU that ends within a part, wherever the part stands. -/
theorem pduScan_of_part {part restA restB : List UInt8} {y : Nat} {accepted : Bool}
    {asdus : List ASDU} (hA : A.drop a = part ++ restA) (hB : B.drop b = part ++ restB)
    (hscan : pduScan A (a + x) = ⟨accepted, a + y, asdus⟩) (hle : y ≤ part.length) :
    pduScan B (b + x) = ⟨accepted, b + y, asdus⟩ := by
  have hstop : (pduScan A (a + x)).stop = a + y := congrArg Scan.stop hscan
  obtain ⟨z, hz, hmoved⟩ := pduScan_moved (x := x) (SameBytes.of_drop hA hB) (by omega)
  have hzy : z = y := by omega
  rw [hmoved, hscan, hzy]

end Iec

end IecCore
