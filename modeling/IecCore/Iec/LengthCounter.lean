import IecCore.Iec.IecParser
import IecCore.Lib.Conserved
import Mathlib.Data.Int.ModEq
import Mathlib.Data.UInt

/-! # The counter of the length

The parser lowers `internalFrameLength` by hand behind every read. This file shows that it never
misses one: on every path through a frame the counter and the offset move by the same number. The
statement is about words that may wrap, so that it needs no bound on the buffer and no check of the
frame; it holds of accepted frames, of rejected ones and of reads past the end.

* **`StaticBuffer.Takes`** — a call of the buffer that moves the offset by a number of bytes.
* **`accounted s`** — the counter and the offset, added in one word, which the parts of a frame keep
  (`Keeps accounted m`).
* **`keeps_counted`** — a read and the statement behind it; `keeps_u8`, `keeps_u16` and `keeps_u32`
  are its three cases, **`keeps_skipped`** the one of the svID.
* **`keeps_parseASDU`**, **`keeps_parseSequence`** — the parts of a frame, statement by statement.
* **`parsePDU_counts`** — what is left of the length when `parsePDU` returns. -/

namespace IecCore

namespace StaticBuffer

variable {size : Nat} {α : Type}

/-- A call that **takes** a number of bytes: it moves the offset, and nothing else of the buffer. -/
def Takes (count : UInt64) (m : EStateM Fault (StaticBuffer size) α) : Prop :=
  ∀ b, wp m (fun _ b' => b' = b.appendOffset count) (fun _ _ => True) b

/-- A read takes its bytes, inside of the array or past its end. -/
theorem takes_read (count : Nat) : Takes (UInt64.ofNat count)
    (read count : EStateM Fault (StaticBuffer size) (List UInt8)) := by
  intro b
  unfold read
  rw [wp_bind, wp_get]
  by_cases hinside : size > (b.offset + UInt64.ofNat count).toNat
  · rw [if_pos hinside]
    cases b.get with
    | none => trivial
    | some srcBegin => rfl
  · rw [if_neg hinside]
    rfl

/-- The value is made from the bytes that were taken, which moves nothing more. -/
theorem Takes.map {count : UInt64} {m : EStateM Fault (StaticBuffer size) α} (h : Takes count m)
    {β : Type} (g : α → β) : Takes count (do return g (← m)) := by
  intro b
  rw [wp_bind]
  exact h b

variable [Bytes.Host]

theorem takes_readU8 : Takes 1 (@readU8 size _) := (takes_read 1).map _

theorem takes_readU16 : Takes 2 (@readU16 size _) := (takes_read 2).map _

theorem takes_readU32 : Takes 4 (@readU32 size _) := (takes_read 4).map _

end StaticBuffer

namespace Iec

namespace IecParser

open StaticBuffer

variable {size : Nat} {α β : Type}

/-! ## What the reads conserve -/

/-- The length that is left, with the bytes that are consumed, in a word. -/
def accounted (s : ParseState size) : UInt16 :=
  s.parser.internalFrameLength + s.buffer.offset.toUInt16

/-- A call of the buffer moves the account by the bytes it takes. -/
theorem moves_onBuffer {count : UInt64} {m : EStateM Fault (StaticBuffer size) α}
    (hm : Takes count m) : Moves accounted count.toUInt16 (onBuffer m) := by
  intro s
  rw [onBuffer, wp_zoom]
  refine (hm s.buffer).imp ?_
  rintro a b rfl
  show s.parser.internalFrameLength + (s.buffer.offset + count).toUInt16 = _
  rw [UInt64.toUInt16_add, ← UInt16.add_assoc]
  rfl

/-- Skipping bytes moves the account by their number, as a `u16`: the counter is not lowered by
it. -/
theorem moves_appendOffset (length : UInt64) :
    Moves accounted length.toUInt16 (appendOffset length : ParseM size Unit) := by
  apply moves_modify
  intro s
  show s.parser.internalFrameLength + (s.buffer.offset + length).toUInt16 = _
  rw [UInt64.toUInt16_add, ← UInt16.add_assoc]
  rfl

/-- Lowering the counter by `length` moves the account back by as much. -/
theorem moves_subFrameLength (length : UInt16) :
    Moves accounted (-length) (subFrameLength length : ParseM size Unit) := by
  apply moves_modify
  intro s
  show s.parser.internalFrameLength - length + s.buffer.offset.toUInt16 = _
  rw [sub_eq_add_neg, add_right_comm]
  rfl

/-- **A read and the statement behind it**, in front of a part that keeps the account: both move it
by the same number, in opposite directions. -/
theorem keeps_counted {count : UInt64} {length : UInt16}
    {m : EStateM Fault (StaticBuffer size) α} {g : α → PUnit → ParseM size β} (hm : Takes count m)
    (hlength : count.toUInt16 = length) (hg : ∀ a u, Keeps accounted (g a u)) :
    Keeps accounted (onBuffer m >>= fun a => subFrameLength length >>= g a) := by
  subst hlength
  exact Keeps.balanced (moves_onBuffer hm) (moves_subFrameLength _) hg

/-- Skipping bytes and the statement behind it, whose number is a byte. -/
theorem keeps_skipped {length : UInt8} {g : PUnit → PUnit → ParseM size β}
    (hg : ∀ u v, Keeps accounted (g u v)) :
    Keeps accounted (appendOffset length.toUInt64 >>= fun u =>
      subFrameLength length.toUInt16 >>= g u) := by
  have hmoves : Moves accounted _ (appendOffset length.toUInt64 : ParseM size Unit) :=
    moves_appendOffset length.toUInt64
  rw [UInt8.toUInt16_toUInt64] at hmoves
  exact Keeps.balanced hmoves (moves_subFrameLength _) hg

/-- Looking at the counter moves nothing: `verify` keeps the account. -/
theorem keeps_verify (assumedLength : UInt16) :
    Keeps accounted (verify assumedLength : ParseM size Bool) := by
  intro s
  exact (add_zero (accounted s)).symm

/-- Storing an ASDU moves nothing, since neither the counter nor the offset is written. -/
theorem keeps_pushBack (asdu : ASDU) : Keeps accounted (pushBack asdu : ParseM size Unit) := by
  apply moves_modify
  intro s
  exact (add_zero (accounted s)).symm

/-- A check that ends the part keeps the account, when the rest does. -/
theorem keeps_check {c : Prop} [Decidable c] {m : ParseM size Bool} (hm : Keeps accounted m) :
    Keeps accounted (if c then pure false else m) :=
  .ite (keeps_pure false) hm

/-- A comparison of the counter with a length, which ends the part when it fails. -/
theorem keeps_verified (assumedLength : UInt16) {m : ParseM size Bool} (hm : Keeps accounted m) :
    Keeps accounted (do
      if !(← verify assumedLength) then
        return false
      m) := by
  apply (keeps_verify assumedLength).bind
  intro verified
  exact keeps_check hm

/-- A call of the buffer, by its result and the bytes it takes: what holds after it holds of the
state whose offset has moved on by `count`. -/
theorem wp_onBuffer {count : UInt64} {m : EStateM Fault (StaticBuffer size) α}
    (hm : Takes count m) {Q : α → ParseState size → Prop} {s : ParseState size}
    (hQ : ∀ a, m s.buffer = .ok a (s.buffer.appendOffset count) →
      Q a { s with buffer := s.buffer.appendOffset count }) :
    wp (onBuffer m) Q (fun _ _ => True) s := by
  rw [onBuffer, wp_zoom]
  have htakes := hm s.buffer
  cases hrun : m s.buffer with
  | ok a b =>
      rw [wp_of_ok hrun] at htakes ⊢
      subst htakes
      exact hQ a hrun
  -- a call that faults does not return, and nothing is to be shown of it
  | error e b =>
      rw [wp_of_error hrun]
      trivial

/-- Setting the counter, which is where the account of a frame begins. -/
theorem wp_setFrameLength (length : UInt16) {Q : Unit → ParseState size → Prop}
    {E : Fault → ParseState size → Prop} {s : ParseState size} :
    wp (setFrameLength length) Q E s
      ↔ Q ⟨⟩ { s with parser.internalFrameLength := length } := Iff.rfl

/-! ## The parts of a frame -/

section Parts

variable [Bytes.Host]

/-- A byte that is read and counted keeps the account: the offset moves on by one, and the counter
is lowered by one. -/
theorem keeps_u8 {g : UInt8 → PUnit → ParseM size β} (hg : ∀ a u, Keeps accounted (g a u)) :
    Keeps accounted (onBuffer readU8 >>= fun a => subFrameLength 1 >>= g a) :=
  keeps_counted takes_readU8 rfl hg

/-- A word that is read and counted keeps the account: two bytes on, and the counter lowered by
two. -/
theorem keeps_u16 {g : UInt16 → PUnit → ParseM size β} (hg : ∀ a u, Keeps accounted (g a u)) :
    Keeps accounted (onBuffer readU16 >>= fun a => subFrameLength 2 >>= g a) :=
  keeps_counted takes_readU16 rfl hg

/-- A double word that is read and counted keeps the account: four bytes on, and the counter lowered
by four. -/
theorem keeps_u32 {g : UInt32 → PUnit → ParseM size β} (hg : ∀ a u, Keeps accounted (g a u)) :
    Keeps accounted (onBuffer readU32 >>= fun a => subFrameLength 4 >>= g a) :=
  keeps_counted takes_readU32 rfl hg

/-- The bytes of a length keep the account, each being read and counted; by induction on
`asnLength`, the number of those that are left. -/
theorem keeps_parseAsnBytes (asnLength : Nat) (length : UInt32) :
    Keeps accounted (parseAsnBytes asnLength length : ParseM size UInt32) := by
  induction asnLength generalizing length with
  | zero => exact keeps_pure length
  | succ asnLength ih =>
      apply keeps_u8
      intro byte _
      exact ih _

/-- A length in any of its forms keeps the account, also the one with too many bytes. -/
theorem keeps_parseAsnLength : Keeps accounted (parseAsnLength : ParseM size UInt32) := by
  apply keeps_u8
  intro firstByte _
  apply Keeps.ite
  · apply Keeps.ite
    · exact keeps_pure 0
    · exact keeps_parseAsnBytes _ 0
  · exact keeps_pure _

/-- A data unit keeps the account: eight bytes are read, and eight are counted. -/
theorem keeps_parseDataUnit : Keeps accounted (parseDataUnit : ParseM size DataUnit) := by
  apply keeps_u32
  intro instMagI _
  apply keeps_u16
  intro quality _
  apply keeps_u16
  intro bitset _
  exact keeps_pure _

/-- The data units of an ASDU keep the account, by induction on their number. -/
theorem keeps_parseDataUnits (count : Nat) :
    Keeps accounted (parseDataUnits count : ParseM size (Vector DataUnit count)) := by
  induction count with
  | zero => exact keeps_pure _
  | succ count ih =>
      apply ih.bind
      intro units
      apply keeps_parseDataUnit.bind
      intro unit
      exact keeps_pure _

/-- **An ASDU** keeps the account wherever it ends, with one step of the proof for each of its
statements. -/
theorem keeps_parseASDU : Keeps accounted (parseASDU : ParseM size Bool) := by
  -- the header
  apply keeps_u8
  intro asduId _
  apply keeps_check
  apply keeps_u8
  intro asduLength _
  apply keeps_check
  -- the svID, which is skipped
  apply keeps_u8
  intro svId _
  apply keeps_check
  apply keeps_u8
  intro svIdLength _
  apply keeps_check
  apply keeps_skipped
  intro _ _
  -- the sample count
  apply keeps_u8
  intro smpCntId _
  apply keeps_check
  apply keeps_u8
  intro smpCntLen _
  apply keeps_check
  apply keeps_u16
  intro smpCnt _
  -- the configuration revision
  apply keeps_u8
  intro confRevId _
  apply keeps_check
  apply keeps_u8
  intro confRevLen _
  apply keeps_check
  apply keeps_u32
  intro confRev _
  -- the sample synchronisation
  apply keeps_u8
  intro smpSyncId _
  apply keeps_check
  apply keeps_u8
  intro smpSyncLen _
  apply keeps_check
  apply keeps_u8
  intro smpSynch _
  -- the data
  apply keeps_u8
  intro datasetId _
  apply keeps_check
  apply keeps_u8
  intro datasetLen _
  apply keeps_check
  apply (keeps_parseDataUnits unitsPerASDU).bind
  intro data
  apply (keeps_pushBack _).bind
  intro _
  exact keeps_check (keeps_pure true)

/-- The ASDUs of a frame keep the account, by induction on those that are left. -/
theorem keeps_parseASDUs (count : Nat) :
    Keeps accounted (parseASDUs count : ParseM size Bool) := by
  induction count with
  | zero => exact keeps_pure true
  | succ count ih =>
      apply keeps_parseASDU.bind
      intro accepted
      exact keeps_check ih

/-- **The sequence of ASDUs** keeps the account, wherever it ends. -/
theorem keeps_parseSequence (seqCount : UInt8) :
    Keeps accounted (parseSequence seqCount : ParseM size Bool) := by
  apply keeps_u8
  intro seqAsduId _
  apply keeps_check
  apply keeps_parseAsnLength.bind
  intro length
  apply keeps_verified
  apply (keeps_parseASDUs seqCount.toNat).bind
  intro accepted
  apply keeps_check
  exact keeps_verified 0 (keeps_pure true)

/-! ## A whole frame -/

/-- The length field of the header of a PDU: the second word of the buffer. -/
def headLength (b : StaticBuffer size) : UInt16 :=
  match readU16 (b.appendOffset 2) with
  | .ok length _ => length
  | .error _ _ => 0

/-- The account when `parsePDU` returns, from the header on: the length in the header and the offset
that the call began with. -/
theorem wp_parsePDU_accounted (s : ParseState size) :
    wp parsePDU (fun _ t => headLength s.buffer ≠ 0 →
      accounted t = headLength s.buffer + s.buffer.offset.toUInt16) (fun _ _ => True) s := by
  unfold parsePDU
  rw [wp_bind]
  refine wp_onBuffer takes_readU16 fun appID _ => ?_
  rw [wp_bind]
  refine wp_onBuffer takes_readU16 fun length hread => ?_
  have hfield : headLength s.buffer = length := by
    rw [headLength, hread]
  rw [wp_bind]
  refine wp_onBuffer takes_readU16 fun res1 _ => ?_
  rw [wp_bind]
  refine wp_onBuffer takes_readU16 fun res2 _ => ?_
  rw [hfield]
  by_cases hzero : length ≤ 0
  · rw [if_pos hzero, wp_pure]
    intro hne
    exact absurd (UInt16.le_zero_iff.mp hzero) hne
  rw [if_neg hzero, wp_bind, wp_setFrameLength]
  -- the counter starts with the length behind the header
  have hstart : accounted ({
        parser := { s.parser with internalFrameLength := length - UInt16.ofNat headSize },
        buffer := (((s.buffer.appendOffset 2).appendOffset 2).appendOffset 2).appendOffset 2
      } : ParseState size) = length + s.buffer.offset.toUInt16 := by
    show length - 8 + (s.buffer.offset + 2 + 2 + 2 + 2).toUInt16 = _
    simp only [UInt64.toUInt16_add, UInt64.toUInt16_ofNat]
    grind
  refine Keeps.wp_imp (f := accounted) ?_ ?_
  · -- each part of the rest is counted
    apply keeps_u8
    intro pduId _
    apply keeps_check
    apply keeps_parseAsnLength.bind
    intro asnLength
    apply keeps_verified
    apply keeps_u8
    intro noAsduId _
    apply keeps_check
    apply keeps_u8
    intro one _
    apply keeps_check
    apply keeps_u8
    intro seqCount _
    apply keeps_check
    exact keeps_parseSequence seqCount
  · intro accepted t ht _
    exact ht.trans hstart

/-- **The counter counts what is consumed.** When `parsePDU` returns, accepting or not and wherever
it ends, and the length field is not zero, the counter is the length less the bytes that the offset
has moved by, as words. -/
theorem parsePDU_counts {s t : ParseState size} {accepted : Bool}
    (hreturns : parsePDU s = .ok accepted t) (hlength : headLength s.buffer ≠ 0) :
    (t.parser.internalFrameLength.toNat : ℤ)
      ≡ (headLength s.buffer).toNat - (t.buffer.offset - s.buffer.offset).toNat
        [ZMOD 65536] := by
  have haccount : t.parser.internalFrameLength + t.buffer.offset.toUInt16
      = headLength s.buffer + s.buffer.offset.toUInt16 :=
    (wp_of_ok hreturns).mp (wp_parsePDU_accounted s) hlength
  have hcounter : t.parser.internalFrameLength
      = headLength s.buffer - (t.buffer.offset - s.buffer.offset).toUInt16 := by
    rw [UInt64.toUInt16_sub]
    grind
  rw [hcounter, UInt16.toNat_sub, UInt64.toNat_toUInt16, Int.ModEq]
  omega

end Parts

theorem fiveByteLength_size_lt : 16 < 2 ^ 63 := by decide

/-- A buffer with a PDU whose length has five bytes, which is one too many. -/
def fiveByteLength : StaticBuffer 16 where
  data := #v[0x40, 0, 0, 0x10, 0, 0, 0, 0, 0x60, 0x85, 0, 0, 0, 0, 0, 0]
  offset := 0
  written := 16
  size_lt := fiveByteLength_size_lt

/-- The PDU in `fiveByteLength` is rejected behind the first byte of its length: ten bytes are
consumed of the sixteen, and six are left in the counter. -/
theorem parsePDU_counts_fiveBytes :
    ∃ t, @parsePDU 16 ⟨.littleEndian⟩ ⟨.new, fiveByteLength⟩ = .ok false t ∧
      t.parser.internalFrameLength = 6 ∧ t.buffer.offset = 10 ∧
      (t.parser.internalFrameLength.toNat : ℤ)
        ≡ (@headLength 16 ⟨.littleEndian⟩ fiveByteLength).toNat
          - (t.buffer.offset - fiveByteLength.offset).toNat [ZMOD 65536] :=
  ⟨⟨⟨[], 6⟩, { fiveByteLength with offset := 10 }⟩, rfl, rfl, rfl,
    @parsePDU_counts 16 ⟨.littleEndian⟩ ⟨.new, fiveByteLength⟩ _ false rfl (by decide)⟩

end IecParser

end Iec

end IecCore
