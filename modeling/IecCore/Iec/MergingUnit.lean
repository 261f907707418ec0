import IecCore.Iec.LossDetection
import IecCore.Iec.StandAlone
import Mathlib.Data.List.Range

/-! # A merging unit

The other end of the cable: a **merging unit** samples four currents and four voltages and publishes
the samples one after the other, the same number in every frame. Nothing of it is in the program;
it says which frames the program is meant for, and the results on the whole program are applied to
the frames of such units.

* **`MergingUnit`** — its Ethernet header, its svID, the number of ASDUs in a frame and its samples.
* **`MergingUnit.frame`** — the frame `k`, whose ASDUs are the samples from `k * perFrame` on. Both
  of its lengths have two bytes (**`AsnLength.twoBytes`**) and are exact (`pdu_exact`).
* **`length_frame`** — all frames of a unit have the same number of bytes.
* **`asdusAlone_frames`** — the parser finds the samples of the frames, in order.
* **`isChain_smpCnt`** — the validator has no objection to their sample counts, also where the count
  goes back to zero. -/

namespace IecCore

namespace Iec

/-! ## Lengths with two bytes -/

theorem length_beBytes_two (n : Nat) : 1 ≤ (beBytes 2 n).length ∧ (beBytes 2 n).length ≤ 4 := by
  rw [length_beBytes]
  decide

/-- The length `n` with two bytes, which a publisher needs from 256 on. -/
def AsnLength.twoBytes (n : Nat) : AsnLength := .long (beBytes 2 n) (length_beBytes_two n)

/-- `(twoBytes n).value = n` for a number `n` that has two bytes. -/
theorem AsnLength.value_twoBytes {n : Nat} (hn : n < 256 ^ 2) : (twoBytes n).value = n := by
  show beNat (beBytes 2 n) = n
  rw [beNat_beBytes, Nat.mod_eq_of_lt hn]

/-- A length with two bytes takes three: the first one counts the other two. -/
theorem AsnLength.length_encode_twoBytes (n : Nat) : (twoBytes n).encode.length = 3 := rfl

/-! ## The unit -/

/-- A **merging unit** that publishes 80 samples in a period, with the sizes that its frames must
have. -/
structure MergingUnit where
  /-- The Ethernet header of its frames, the same in all of them. -/
  etherHeader : List UInt8
  /-- Its svID, the same in all of its ASDUs. -/
  svId : List UInt8
  /-- The number of ASDUs in each of its frames, one for each sample. -/
  perFrame : Nat
  /-- The values and the quality of its samples, for the whole time that it publishes. -/
  data : Nat → Vector DataUnit unitsPerASDU
  /-- The header has 14 bytes. -/
  length_etherHeader : etherHeader.length = 14
  /-- The svID has 10 to 34 bytes. -/
  length_svId : 10 ≤ svId.length ∧ svId.length ≤ 34
  /-- From three ASDUs on, the lengths of a frame have two bytes. -/
  perFrame_bounds : 3 ≤ perFrame ∧ perFrame ≤ 16

namespace MergingUnit

variable (unit : MergingUnit)

/-- The ASDU of the sample `n`. The count starts again after 3999. -/
def asdu (n : Nat) : ASDU where
  smpCnt := Validator.smpCntAt 3999 n
  smpSynch := 2
  confRev := 1
  data := unit.data n

/-- The same ASDU with the svID of the unit, as it stands in a frame. -/
def svAsdu (n : Nat) : SvAsdu where
  svId := unit.svId
  asdu := unit.asdu n
  length_svId := unit.length_svId

/-- The ASDUs of the frame `k`: those of its `perFrame` samples. -/
def svAsdus (k : Nat) : List SvAsdu :=
  (List.range' (k * unit.perFrame) unit.perFrame).map unit.svAsdu

theorem length_svAsdus (k : Nat) : (unit.svAsdus k).length = unit.perFrame := by
  rw [svAsdus, List.length_map, List.length_range']

theorem svAsdus_count (k : Nat) : 1 ≤ (unit.svAsdus k).length ∧ (unit.svAsdus k).length ≤ 16 := by
  have hbounds := unit.perFrame_bounds
  rw [length_svAsdus]
  omega

/-- The number of bytes that the ASDUs of a frame take, the same in every frame. -/
def asduSize : Nat := (83 + unit.svId.length) * unit.perFrame

/-- The PDU of the frame `k`, with lengths of two bytes: its ASDUs are the samples of the unit from
`k * unit.perFrame` on. -/
def pdu (k : Nat) : SvPdu where
  appID := 0x4000
  res1 := 0
  res2 := 0
  savLength := .twoBytes (7 + unit.asduSize)
  seqLength := .twoBytes unit.asduSize
  asdus := unit.svAsdus k
  count := unit.svAsdus_count k

/-- The frame `k`: the same Ethernet header in front of every PDU. -/
def frame (k : Nat) : SvFrame where
  etherHeader := unit.etherHeader
  pdu := unit.pdu k
  length_etherHeader := unit.length_etherHeader

/-- The bytes of the first `m` frames, in the order of sending, each a list of its own. -/
def frames (m : Nat) : List (List UInt8) := (List.range m).map fun k => (unit.frame k).encode

/-! ## The sizes -/

/-- The ASDUs of any samples take the same number of bytes each: `svId` has a fixed length. -/
theorem length_flatMap_svAsdu (samples : List Nat) :
    ((samples.map unit.svAsdu).flatMap SvAsdu.encode).length
      = (83 + unit.svId.length) * samples.length := by
  induction samples with
  | nil => rfl
  | cons n samples ih =>
      have hone : (unit.svAsdu n).encode.length = 83 + unit.svId.length :=
        (unit.svAsdu n).length_encode
      rw [List.map_cons, List.flatMap_cons, List.length_append, hone, ih, List.length_cons,
        Nat.mul_succ, Nat.add_comm]

/-- `asduSize` is the number of bytes that `seqLength` covers: the ASDUs of a frame, whichever it
is. -/
theorem length_asduBytes (k : Nat) : (unit.pdu k).asduBytes.length = unit.asduSize := by
  have hsize := unit.length_flatMap_svAsdu (List.range' (k * unit.perFrame) unit.perFrame)
  rw [List.length_range'] at hsize
  exact hsize

/-- The ASDUs of a frame have at least 93 bytes each, and all of them fit two bytes of length. -/
theorem asduSize_bounds : 93 * unit.perFrame ≤ unit.asduSize ∧ unit.asduSize ≤ 1872 := by
  obtain ⟨hlow, hhigh⟩ := length_flatMap_encode (unit.svAsdus 0)
  have hsize := unit.length_asduBytes 0
  have hbounds := unit.perFrame_bounds
  rw [length_svAsdus] at hlow hhigh
  change ((unit.svAsdus 0).flatMap SvAsdu.encode).length = _ at hsize
  omega

/-- **Both lengths are exact**, in every frame: `(unit.pdu k).Exact`. -/
theorem pdu_exact (k : Nat) : (unit.pdu k).Exact := by
  have hsize := unit.asduSize_bounds
  have hasdus := unit.length_asduBytes k
  have hsav := (unit.pdu k).length_bounds.1
  have hseq : (unit.pdu k).seqLength.encode.length = 3 := AsnLength.length_encode_twoBytes _
  refine ⟨?_, ?_⟩
  · show (AsnLength.twoBytes (7 + unit.asduSize)).value = _
    rw [AsnLength.value_twoBytes (by omega), hsav, hseq, hasdus]
  · show (AsnLength.twoBytes unit.asduSize).value = _
    rw [AsnLength.value_twoBytes (by omega), hasdus]

/-- The number of bytes of a frame: the headers, the lengths and the ASDUs. -/
def frameSize : Nat := 33 + unit.asduSize

/-- **Every frame** of the unit has `frameSize` bytes, since only the samples differ between
them. -/
theorem length_frame (k : Nat) : (unit.frame k).encode.length = unit.frameSize := by
  have hasdus := unit.length_asduBytes k
  obtain ⟨hsav, hlength, -, -⟩ := (unit.pdu k).length_bounds
  have hsavLength : (unit.pdu k).savLength.encode.length = 3 := AsnLength.length_encode_twoBytes _
  have hseqLength : (unit.pdu k).seqLength.encode.length = 3 := AsnLength.length_encode_twoBytes _
  have hpdu : (unit.frame k).pdu = unit.pdu k := rfl
  rw [SvFrame.length_encode, hpdu, frameSize]
  omega

/-- The frames of the unit among each other have the same number of bytes. -/
theorem length_of_mem_frames {m : Nat} {bytes : List UInt8} (hbytes : bytes ∈ unit.frames m) :
    bytes.length = unit.frameSize := by
  obtain ⟨k, -, rfl⟩ := List.mem_map.mp hbytes
  exact unit.length_frame k

/-! ## The samples -/

/-- The parser keeps the samples of a frame, without the svID: `unit.perFrame` of them, from `k *
unit.perFrame` on. -/
theorem values_pdu (k : Nat) :
    (unit.pdu k).values = (List.range' (k * unit.perFrame) unit.perFrame).map unit.asdu := by
  show ((List.range' _ _).map unit.svAsdu).map SvAsdu.asdu = _
  rw [List.map_map]
  rfl

/-- The frames one after the other have the samples one after the other:
`0, …, m * perFrame - 1`. -/
theorem flatMap_values (m : Nat) :
    ((List.range m).flatMap fun k => (unit.pdu k).values)
      = (List.range (m * unit.perFrame)).map unit.asdu := by
  induction m with
  | zero => rw [Nat.zero_mul]; rfl
  | succ m ih =>
      rw [List.range_succ, List.flatMap_append, ih, List.flatMap_singleton, values_pdu,
        ← List.map_append, Nat.succ_mul, List.range_eq_range', List.range_eq_range']
      have happend := @List.range'_append_1 0 (m * unit.perFrame) unit.perFrame
      rw [Nat.zero_add] at happend
      rw [happend]

/-- **The sample counts** of consecutive samples may follow one another. -/
theorem isChain_smpCnt (n : Nat) :
    (((List.range n).map unit.asdu).map ASDU.smpCnt).IsChain Validator.Succeeds := by
  rw [List.map_map, List.isChain_map, List.isChain_range]
  intro k _
  exact (Validator.succeeds_smpCntAt (.inl rfl) (Nat.lt_succ_self k) (by omega)).mpr (.inl rfl)

section Parse

variable [Bytes.Host]

/-- Every frame of the unit is accepted when it stands alone, since its lengths are exact. -/
theorem acceptedAlone_of_mem_frames {m : Nat} {bytes : List UInt8}
    (hbytes : bytes ∈ unit.frames m) : AcceptedAlone bytes := by
  obtain ⟨k, -, rfl⟩ := List.mem_map.mp hbytes
  exact acceptedAlone_iff.mpr ⟨unit.frame k, (unit.pdu_exact k).congruent, rfl⟩

/-- **The parser finds the samples** of the first `m` frames, in order, and nothing else. -/
theorem asdusAlone_frames (m : Nat) :
    (unit.frames m).flatMap asdusAlone = (List.range (m * unit.perFrame)).map unit.asdu := by
  rw [frames, List.flatMap_map, ← flatMap_values]
  exact List.flatMap_congr fun k _ => asdusAlone_encode (unit.pdu_exact k).congruent

end Parse

end MergingUnit

end Iec

end IecCore
