import IecCore.Iec.Asdu
import IecCore.Lib.BigEndian
import Mathlib.Data.Int.ModEq
import Mathlib.Data.List.Basic

/-! # The grammar of sampled values

The frame format of IEC 61850-9-2 LE as data and its encoding, independent of the parser. Values of
these types are well formed: the sizes that the format bounds are fields, so that a frame with an
svID of nine bytes or with seventeen ASDUs cannot be built.

* **`AsnLength`** — a length in short form or in long form with one to four bytes, its bytes
  `encode` and its `value`. Leading zeros are allowed, as the parser allows them.
* **`SvAsdu`**, **`SvPdu`**, **`SvFrame`** — an ASDU with its svID, a PDU of 1 to 16 of them with
  both lengths, and a frame with its Ethernet header.
* **`encode`** — their bytes. A PDU is split into `head` and `asduBytes` (`encode_eq`), and their
  sizes are given by `SvAsdu.length_encode`, `SvPdu.length_bounds` and `SvFrame.length_encode`.
* **`SvPdu.Exact`** — both lengths count the bytes they cover; **`SvPdu.Congruent`** — they do so up
  to a multiple of `2 ^ 16`, which is all that the counter of the parser can tell. -/

namespace IecCore

namespace Iec

/-! ## Lengths -/

/-- A **length** in ASN format: the length itself, or the number of the bytes that hold it. -/
inductive AsnLength
  /-- The short form, one byte below `128`. -/
  | short (value : UInt8) (small : value.toNat < 128)
  /-- The long form: the number of bytes and the bytes; leading zeros are allowed. -/
  | long (bytes : List UInt8) (count : 1 ≤ bytes.length ∧ bytes.length ≤ 4)

namespace AsnLength

/-- The bytes of a length: the number of bytes has `128` added to it. -/
def encode : AsnLength → List UInt8
  | short value _ => [value]
  | long bytes _ => UInt8.ofNat (128 + bytes.length) :: bytes

/-- The value of a length; the bytes of the long form are in network order. -/
def value : AsnLength → Nat
  | short value _ => value.toNat
  | long bytes _ => beNat bytes

/-- A length takes one to five bytes: `1 ≤ l.encode.length ≤ 5`. -/
theorem length_encode (l : AsnLength) : 1 ≤ l.encode.length ∧ l.encode.length ≤ 5 := by
  cases l with
  | short value small => exact ⟨le_refl 1, Nat.le_add_left 1 4⟩
  | long bytes count =>
      rw [encode, List.length_cons]
      omega

end AsnLength

/-! ## ASDUs -/

/-- The bytes of a data unit, eight in network order: the magnitude and the two fields behind it. -/
def DataUnit.encode (unit : DataUnit) : List UInt8 :=
  beBytes 4 unit.instMagI.toUInt32.toNat ++ beBytes 2 unit.quality.toNat
    ++ beBytes 2 unit.bitset.toNat

/-- The bytes of data units, one after the other: `8 * count` of them, for a data set of `count`
units. -/
def encodeData {count : Nat} (data : Vector DataUnit count) : List UInt8 :=
  data.toList.flatMap DataUnit.encode

/-- The bytes of an ASDU between its svID and its data units: four fields with their tags and
sizes. -/
def ASDU.head (asdu : ASDU) : List UInt8 :=
  [0x82, 2] ++ beBytes 2 asdu.smpCnt.toNat ++ [0x83, 4] ++ beBytes 4 asdu.confRev.toNat
    ++ [0x85, 1, asdu.smpSynch] ++ [0x87, 64]

/-- An **ASDU of a frame**: the fields that the parser keeps and the svID that it skips. -/
structure SvAsdu where
  /-- The svID, which the parser does not compare. -/
  svId : List UInt8
  /-- The fields that are stored: the counts, the revision and the data. -/
  asdu : ASDU
  /-- The svID has 10 to 34 bytes, the sizes that `parseASDU` lets pass. -/
  length_svId : 10 ≤ svId.length ∧ svId.length ≤ 34

/-- The bytes of an ASDU before its data units; its length `81 + svId.length` fits into the byte. -/
def SvAsdu.head (a : SvAsdu) : List UInt8 :=
  [0x30, UInt8.ofNat (81 + a.svId.length), 0x80, UInt8.ofNat a.svId.length] ++ a.svId
    ++ a.asdu.head

/-- The bytes of an ASDU: the fields of `head`, and behind them the data units. -/
def SvAsdu.encode (a : SvAsdu) : List UInt8 := a.head ++ encodeData a.asdu.data

/-- An ASDU is its head and its data units, as a rewriting rule. -/
theorem SvAsdu.encode_eq (a : SvAsdu) : a.encode = a.head ++ encodeData a.asdu.data := rfl

/-! ## Frames -/

/-- A **protocol data unit**: the words of its header, its ASDUs, and the two lengths in the form
that the sender chose. The length in the header is not a field, it is the size of the PDU
(`length`). -/
structure SvPdu where
  /-- The application identifier. -/
  appID : UInt16
  /-- The first reserved word. -/
  res1 : UInt16
  /-- The second reserved word. -/
  res2 : UInt16
  /-- The length after the tag of the PDU, in either form. -/
  savLength : AsnLength
  /-- The length after the tag of the sequence of ASDUs, in either form. -/
  seqLength : AsnLength
  /-- The ASDUs, in the order of their samples. -/
  asdus : List SvAsdu
  /-- There are 1 to 16 ASDUs, as `parsePDU` checks. -/
  count : 1 ≤ asdus.length ∧ asdus.length ≤ 16

namespace SvPdu

variable (pdu : SvPdu)

/-- The bytes of the ASDUs, one after the other: those that the second length of the PDU counts. -/
def asduBytes : List UInt8 := pdu.asdus.flatMap SvAsdu.encode

/-- The bytes after the length of the PDU, which this length counts. -/
def savBytes : List UInt8 :=
  [0x80, 1, UInt8.ofNat pdu.asdus.length, 0xa2] ++ pdu.seqLength.encode ++ pdu.asduBytes

/-- The bytes after the header of the PDU, from the tag of the PDU to the last ASDU. -/
def body : List UInt8 := [0x60] ++ pdu.savLength.encode ++ pdu.savBytes

/-- The length in the header: the number of all bytes of the PDU, the header included. -/
def length : Nat := 8 + pdu.body.length

/-- The bytes of a PDU: the eight bytes of its header, with `length` among them, and its body. -/
def encode : List UInt8 :=
  beBytes 2 pdu.appID.toNat ++ beBytes 2 pdu.length ++ beBytes 2 pdu.res1.toNat
    ++ beBytes 2 pdu.res2.toNat ++ pdu.body

/-- The bytes of a PDU before its ASDUs: the header, and the fields up to the second length. -/
def head : List UInt8 :=
  beBytes 2 pdu.appID.toNat ++ beBytes 2 pdu.length ++ beBytes 2 pdu.res1.toNat
    ++ beBytes 2 pdu.res2.toNat ++ [0x60] ++ pdu.savLength.encode
    ++ [0x80, 1, UInt8.ofNat pdu.asdus.length, 0xa2] ++ pdu.seqLength.encode

/-- Both lengths are the number of bytes they cover, as the format says. -/
def Exact : Prop :=
  pdu.savLength.value = pdu.savBytes.length ∧ pdu.seqLength.value = pdu.asduBytes.length

/-- Both lengths are the number of bytes they cover, up to a multiple of `2 ^ 16`. -/
def Congruent : Prop :=
  pdu.savLength.value ≡ pdu.savBytes.length [MOD 2 ^ 16] ∧
    pdu.seqLength.value ≡ pdu.asduBytes.length [MOD 2 ^ 16]

instance : Decidable pdu.Exact := inferInstanceAs (Decidable (_ ∧ _))

instance : Decidable pdu.Congruent := inferInstanceAs (Decidable (_ ∧ _))

/-- The ASDUs that the parser keeps of a PDU, without their svIDs. -/
def values : List ASDU := pdu.asdus.map SvAsdu.asdu

variable {pdu}

/-- Exact lengths are congruent modulo `2 ^ 16`: `pdu.Exact → pdu.Congruent`. -/
theorem Exact.congruent (h : pdu.Exact) : pdu.Congruent :=
  ⟨congrArg (· % 2 ^ 16) h.1, congrArg (· % 2 ^ 16) h.2⟩

end SvPdu

/-- A **frame**: an Ethernet header and a PDU. That the header has 14 bytes is a field,
`length_etherHeader`. -/
structure SvFrame where
  /-- The Ethernet header, which the parser skips. -/
  etherHeader : List UInt8
  /-- The PDU. -/
  pdu : SvPdu
  /-- The header has 14 bytes. -/
  length_etherHeader : etherHeader.length = 14

/-- The bytes of a frame: the Ethernet header and those of the PDU. -/
def SvFrame.encode (frame : SvFrame) : List UInt8 := frame.etherHeader ++ frame.pdu.encode

/-! ## Sizes -/

/-- A data unit has eight bytes: four of the magnitude, and two for each of the other fields. -/
@[simp] theorem DataUnit.length_encode (unit : DataUnit) : unit.encode.length = 8 := by
  rw [encode, List.length_append, List.length_append, length_beBytes, length_beBytes,
    length_beBytes]

/-- The size of data units, eight bytes each: `(encodeData data).length = 8 * count`. -/
theorem length_encodeData {count : Nat} (data : Vector DataUnit count) :
    (encodeData data).length = 8 * count := by
  have hunits : ∀ units : List DataUnit,
      (units.flatMap DataUnit.encode).length = 8 * units.length := by
    intro units
    induction units with
    | nil => rfl
    | cons unit units ih =>
        rw [List.flatMap_cons, List.length_append, unit.length_encode, ih, List.length_cons]
        omega
  rw [encodeData, hunits, Vector.length_toList]

/-- The size of the fields of an ASDU, from the tag of the sample count to the size of the data set:
15 bytes. -/
@[simp] theorem ASDU.length_head (asdu : ASDU) : asdu.head.length = 15 := by
  simp only [head, List.length_append, length_beBytes, List.length_cons, List.length_nil]

/-- The size of an ASDU without its data units, `19` and the svID. -/
theorem SvAsdu.length_head (a : SvAsdu) : a.head.length = 19 + a.svId.length := by
  rw [head, List.length_append, List.length_append, ASDU.length_head]
  simp only [List.length_cons, List.length_nil]
  omega

/-- The size of an ASDU, `83` and the svID: two bytes more than its length says. -/
theorem SvAsdu.length_encode (a : SvAsdu) : a.encode.length = 83 + a.svId.length := by
  have hdata : (encodeData a.asdu.data).length = 64 := length_encodeData a.asdu.data
  rw [a.encode_eq, List.length_append, a.length_head, hdata]
  omega

/-- ASDUs have 93 to 117 bytes each, by the bounds of their svIDs. -/
theorem length_flatMap_encode (asdus : List SvAsdu) :
    93 * asdus.length ≤ (asdus.flatMap SvAsdu.encode).length ∧
      (asdus.flatMap SvAsdu.encode).length ≤ 117 * asdus.length := by
  induction asdus with
  | nil => exact ⟨le_refl _, le_refl _⟩
  | cons a asdus ih =>
      have hsvId := a.length_svId
      rw [List.flatMap_cons, List.length_append, a.length_encode, List.length_cons]
      omega

/-- A PDU has as many bytes as its header says: `pdu.encode.length = pdu.length`. -/
theorem SvPdu.length_encode (pdu : SvPdu) : pdu.encode.length = pdu.length := by
  rw [encode, length]
  simp only [List.length_append, length_beBytes]

/-- A PDU is its head and its ASDUs: `pdu.encode = pdu.head ++ pdu.asduBytes`. -/
theorem SvPdu.encode_eq (pdu : SvPdu) : pdu.encode = pdu.head ++ pdu.asduBytes := by
  simp only [encode, body, savBytes, head, List.append_assoc]

/-- The parts of a PDU are small: a PDU has at most 1895 bytes, so that its length fits into a
word. -/
theorem SvPdu.length_bounds (pdu : SvPdu) :
    pdu.savBytes.length = 4 + pdu.seqLength.encode.length + pdu.asduBytes.length ∧
      pdu.length = 9 + pdu.savLength.encode.length + pdu.savBytes.length ∧
      93 ≤ pdu.asduBytes.length ∧ pdu.length ≤ 1895 := by
  have hcount := pdu.count
  have hasdus := length_flatMap_encode pdu.asdus
  have hsav := pdu.savLength.length_encode
  have hseq := pdu.seqLength.length_encode
  rw [← asduBytes] at hasdus
  have hsavBytes : pdu.savBytes.length
      = 4 + pdu.seqLength.encode.length + pdu.asduBytes.length := by
    simp only [savBytes, List.length_append, List.length_cons, List.length_nil]
  have hlength : pdu.length = 9 + pdu.savLength.encode.length + pdu.savBytes.length := by
    simp only [length, body, List.length_append, List.length_cons, List.length_nil]
    omega
  omega

/-- The size of a PDU without its ASDUs, which is at most 23 bytes: ten of them are the two lengths,
in their longest forms. -/
theorem SvPdu.length_head (pdu : SvPdu) :
    pdu.head.length + pdu.asduBytes.length = pdu.length ∧ pdu.head.length ≤ 23 := by
  have hsav := pdu.savLength.length_encode
  have hseq := pdu.seqLength.length_encode
  have hencode := congrArg List.length pdu.encode_eq
  rw [pdu.length_encode, List.length_append] at hencode
  refine ⟨hencode.symm, ?_⟩
  simp only [head, List.length_append, length_beBytes, List.length_cons, List.length_nil]
  omega

/-- The size of a frame: `14 + frame.pdu.length`, where `length` is the one in the header of the
PDU. -/
theorem SvFrame.length_encode (frame : SvFrame) :
    frame.encode.length = 14 + frame.pdu.length := by
  rw [encode, List.length_append, frame.length_etherHeader, frame.pdu.length_encode]

end Iec

end IecCore
