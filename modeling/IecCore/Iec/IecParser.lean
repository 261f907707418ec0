import IecCore.Iec.Asdu
import IecCore.Utils.Buffer

/-! # The parser of sampled values

`iec::IecParser` reads IEC 61850-9-2 LE frames from a static buffer. It checks the tags, the fixed
sizes and, by two counters that it lowers by hand, the lengths: the length of an ASDU in a byte, and
`internalFrameLength`, the rest of the frame, in a word. A failed check ends the frame where it is;
the loop over the frames goes on from there, and keeps the ASDUs that are stored already.

* **`IecParser`**, **`ParseState`**, **`ParseM`** — the parser with the two fields that its calls
  read and write, the parser together with the buffer that is passed to it, and its calls.
* **`stdPduId`** … **`stdDatasetId`** — the tags of the standard, one byte each.
* **`parseASDU`**, **`parseDataUnit`** — an ASDU and one of its eight data units. `pushBack` stands
  before the last check of the length, as in the source.
* **`parsePDU`**, **`parseSequence`**, **`parseAsnLength`** — the frame, the sequence of its ASDUs
  and a length in ASN format. `verify` compares the rest of the frame with such a length.
* **`parseFrame`**, **`parseLoop`**, **`parse`** — the body of the loop over the frames of a buffer,
  the loop for a number of iterations, and the call, which gives the loop enough of them. -/

namespace IecCore

namespace Iec

open Bytes

/-- The **parser** `iec::IecParser`: the ASDUs that it has stored, and the counter of the frame it
is in. -/
structure IecParser where
  /-- `sequence`, the ASDUs parsed so far, in the order of their bytes. -/
  sequence : List ASDU
  /-- `internalFrameLength`, the length of the frame that is left. -/
  internalFrameLength : UInt16
  deriving DecidableEq, Repr

namespace IecParser

/-- The constructor: no ASDU is stored, and `internalFrameLength` is zero. -/
def new : IecParser where
  sequence := []
  internalFrameLength := 0

/-- The state that a call works on: the parser, and the `buffer` that is passed to it by
reference. -/
structure ParseState (size : Nat) where
  parser : IecParser
  buffer : StaticBuffer size

/-- The calls of the parser on a buffer: a fault ends them, a failed check is the result `false`. -/
abbrev ParseM (size : Nat) := EStateM Fault (ParseState size)

variable {size : Nat}

/-- A call of the buffer, `buffer.readU8()` and its like, in a call of the parser: it leaves the
parser. -/
def onBuffer {α : Type} (m : EStateM Fault (StaticBuffer size) α) : ParseM size α :=
  zoom ParseState.buffer (fun buffer s => { s with buffer := buffer }) m

/-- `internalFrameLength = length`, which `parsePDU` does once the length of the header is read. -/
def setFrameLength (length : UInt16) : ParseM size Unit :=
  modify fun s => { s with parser.internalFrameLength := length }

/-- `internalFrameLength -= length`, which stands behind every read. It is a `u16` and may wrap. -/
def subFrameLength (length : UInt16) : ParseM size Unit :=
  modify fun s =>
    { s with parser.internalFrameLength := s.parser.internalFrameLength - length }

/-- `buffer.appendOffset(length)`, which skips bytes without reading them: a header, or an svID. -/
def appendOffset (length : UInt64) : ParseM size Unit :=
  modify fun s => { s with buffer := s.buffer.appendOffset length }

/-- `sequence.push_back(asdu)`: the ASDU is stored behind the other ones. -/
def pushBack (asdu : ASDU) : ParseM size Unit :=
  modify fun s => { s with parser.sequence := s.parser.sequence ++ [asdu] }

/-- Compare the rest of the frame with a length. The length is passed as a word, so that the upper
half of a `u32` is lost on the way. -/
def verify (assumedLength : UInt16) : ParseM size Bool := do
  return (← get).parser.internalFrameLength = assumedLength

/-! ## Tags -/

/-- The tag of the PDU, which the parser reads behind the eight bytes of the PDU's header. -/
def stdPduId : UInt8 := 0x60

/-- The tag of the number of ASDUs, the first field of the PDU that the parser checks. -/
def stdNoAsduId : UInt8 := 0x80

/-- The tag of the sequence of ASDUs, whose length is in ASN format. -/
def stdSeqAsduId : UInt8 := 0xa2

/-- The tag of an ASDU, whose length is a single byte: the parser takes 91 to 115 for it. -/
def stdAsduId : UInt8 := 0x30

/-- The tag of the svID, which has the same value as `stdNoAsduId`: the place of a tag tells them
apart. -/
def stdSvId : UInt8 := 0x80

/-- The tag of the sample count, whose value has two bytes, as the byte behind the tag must say. -/
def stdSmpCntId : UInt8 := 0x82

/-- The tag of the configuration revision, whose value has four bytes, which is checked too. -/
def stdConfRevId : UInt8 := 0x83

/-- The tag of the sample synchronisation, whose value is a single byte, which is checked too. -/
def stdSmpSyncId : UInt8 := 0x85

/-- The tag of the data set, behind which the eight data units follow, 64 bytes. -/
def stdDatasetId : UInt8 := 0x87

/-- The size of an Ethernet header, which the loop skips before it parses the PDU. -/
def etherHeaderSize : Nat := 14

/-- The size of the PDU header: four words, which the length in the header counts too. -/
def headSize : Nat := 8

/-- The size of a data unit: a value of four bytes, the quality and the bit set. -/
def dataUnitSize : Nat := 8

/-! ## Parsing -/

variable [Host]

/-- The loop over the bytes of a length: `asnLength` of them are left, and the value of those before
is shifted by a byte for each that is still to come. -/
def parseAsnBytes : (asnLength : Nat) → (length : UInt32) → ParseM size UInt32
  | 0, length => pure length
  | asnLength + 1, length => do
      let length := length + (← onBuffer StaticBuffer.readU8).toUInt32
      subFrameLength 1
      let length := if asnLength > 0 then length <<< 8 else length
      parseAsnBytes asnLength length

/-- Parse a length in ASN format: a byte below `0x80` is the length, any other one says how many
bytes of it follow. More than four give zero, and none of them is read. -/
def parseAsnLength : ParseM size UInt32 := do
  let firstByte ← onBuffer StaticBuffer.readU8
  subFrameLength 1
  if firstByte &&& 0x80 ≠ 0 then
    let asnLength := (firstByte &&& 0x7f).toNat
    if asnLength > 4 then
      return 0
    parseAsnBytes asnLength 0
  else
    return firstByte.toUInt32

/-- Parse a data unit: the instantaneous value, its quality, and the bit set behind it. -/
def parseDataUnit : ParseM size DataUnit := do
  let instMagI := (← onBuffer StaticBuffer.readU32).toInt32
  subFrameLength 4
  let quality ← onBuffer StaticBuffer.readU16
  subFrameLength 2
  let bitset ← onBuffer StaticBuffer.readU16
  subFrameLength 2
  return { instMagI, quality, bitset }

/-- The loop over the data units of an ASDU, which writes them in the order of their bytes. -/
def parseDataUnits : (count : Nat) → ParseM size (Vector DataUnit count)
  | 0 => return #v[]
  | count + 1 => do
      let units ← parseDataUnits count
      return units.push (← parseDataUnit)

/-- Parse an ASDU. The counter `asduLength` is a byte, lowered by the size of every field that is
read; the ASDU is stored before its last check, that nothing of the length is left. -/
def parseASDU : ParseM size Bool := do
  -- reading ASDU header
  let asduId ← onBuffer StaticBuffer.readU8
  subFrameLength 1
  if asduId ≠ stdAsduId then
    return false
  let asduLength ← onBuffer StaticBuffer.readU8
  subFrameLength 1
  if asduLength < 91 ∨ asduLength > 115 then
    return false
  -- reading svID
  let svId ← onBuffer StaticBuffer.readU8
  subFrameLength 1
  if svId ≠ stdSvId then
    return false
  let svIdLength ← onBuffer StaticBuffer.readU8
  subFrameLength 1
  if svIdLength < 10 ∨ svIdLength > 34 then
    return false
  appendOffset svIdLength.toUInt64
  subFrameLength svIdLength.toUInt16
  let asduLength := asduLength - (1 + 1 + svIdLength)
  -- reading smpCnt
  let smpCntId ← onBuffer StaticBuffer.readU8
  subFrameLength 1
  if smpCntId ≠ stdSmpCntId then
    return false
  let smpCntLen ← onBuffer StaticBuffer.readU8
  subFrameLength 1
  if smpCntLen ≠ 2 then
    return false
  let smpCnt ← onBuffer StaticBuffer.readU16
  subFrameLength 2
  let asduLength := asduLength - (1 + 1 + 2)
  -- reading confRev
  let confRevId ← onBuffer StaticBuffer.readU8
  subFrameLength 1
  if confRevId ≠ stdConfRevId then
    return false
  let confRevLen ← onBuffer StaticBuffer.readU8
  subFrameLength 1
  if confRevLen ≠ 4 then
    return false
  let confRev ← onBuffer StaticBuffer.readU32
  subFrameLength 4
  let asduLength := asduLength - (1 + 1 + 4)
  -- reading smpSynch
  let smpSyncId ← onBuffer StaticBuffer.readU8
  subFrameLength 1
  if smpSyncId ≠ stdSmpSyncId then
    return false
  let smpSyncLen ← onBuffer StaticBuffer.readU8
  subFrameLength 1
  if smpSyncLen ≠ 1 then
    return false
  let smpSynch ← onBuffer StaticBuffer.readU8
  subFrameLength 1
  let asduLength := asduLength - (1 + 1 + 1)
  -- reading sequence of data
  let datasetId ← onBuffer StaticBuffer.readU8
  subFrameLength 1
  if datasetId ≠ stdDatasetId then
    return false
  let datasetLen ← onBuffer StaticBuffer.readU8
  subFrameLength 1
  let asduLength := asduLength - (1 + 1)
  if datasetLen.toNat ≠ dataUnitSize * unitsPerASDU then
    return false
  -- reading data units of ASDU
  let data ← parseDataUnits unitsPerASDU
  pushBack { smpCnt, smpSynch, confRev, data }
  -- the ASDU is in the sequence already when this check fails
  let asduLength := asduLength - datasetLen
  if asduLength ≠ 0 then
    return false
  return true

/-- The loop over the ASDUs of a frame: `count` of them are left. The first one that is rejected
ends it. -/
def parseASDUs : (count : Nat) → ParseM size Bool
  | 0 => return true
  | count + 1 => do
      if !(← parseASDU) then
        return false
      parseASDUs count

/-- Parse the sequence of ASDUs: its length, `seqCount` ASDUs, and the check that they end the
frame. -/
def parseSequence (seqCount : UInt8) : ParseM size Bool := do
  -- reading seqASDU
  let seqAsduId ← onBuffer StaticBuffer.readU8
  subFrameLength 1
  if seqAsduId ≠ stdSeqAsduId then
    return false
  let length ← parseAsnLength
  if !(← verify length.toUInt16) then
    return false
  -- reading ASDU
  if !(← parseASDUs seqCount.toNat) then
    return false
  if !(← verify 0) then
    return false
  return true

/-- Parse a PDU: the header, the length of the PDU, the number of its ASDUs, and their sequence. The
counter starts with the length of the header without the header itself. -/
def parsePDU : ParseM size Bool := do
  let _appID ← onBuffer StaticBuffer.readU16
  let headLength ← onBuffer StaticBuffer.readU16
  let _res1 ← onBuffer StaticBuffer.readU16
  let _res2 ← onBuffer StaticBuffer.readU16
  -- the only check of the header: a length below its own size makes the counter wrap
  if headLength ≤ 0 then
    return false
  setFrameLength (headLength - UInt16.ofNat headSize)
  -- reading savPDU
  let pduId ← onBuffer StaticBuffer.readU8
  subFrameLength 1
  if pduId ≠ stdPduId then
    return false
  let length ← parseAsnLength
  if !(← verify length.toUInt16) then
    return false
  -- reading noASDU
  let noAsduId ← onBuffer StaticBuffer.readU8
  subFrameLength 1
  if noAsduId ≠ stdNoAsduId then
    return false
  let length ← onBuffer StaticBuffer.readU8
  subFrameLength 1
  if length ≠ 1 then
    return false
  let seqCount ← onBuffer StaticBuffer.readU8
  subFrameLength 1
  if seqCount > 16 ∨ seqCount < 1 then
    return false
  parseSequence seqCount

/-- **The body of the loop** over the frames: the Ethernet header is skipped, and the PDU behind it is
parsed. The result of `parsePDU` is returned here; the loop does not use it. -/
def parseFrame : ParseM size Bool := do
  appendOffset (UInt64.ofNat etherHeaderSize)
  parsePDU

/-- The loop over the frames, `while (buffer.getOffset() < buffer.getWritten())`, for a number of
iterations. What `parsePDU` returns is not looked at. -/
def parseLoop : (fuel : Nat) → ParseM size Unit
  | 0 => throw .unfinished
  | fuel + 1 => do
      let s ← get
      if s.buffer.offset < s.buffer.written then
        let _accepted ← parseFrame
        parseLoop fuel

/-- A call of `parse` whose loop ends within a number of iterations. The ASDUs are moved out of the
parser, so that the sequence is empty after the call. -/
def parseWithin (iterations : Nat) : ParseM size (List ASDU) := do
  parseLoop iterations
  let s ← get
  set { s with parser.sequence := [] }
  return s.parser.sequence

/-- **Parse** the frames of the buffer and move the ASDUs out of the parser. Every iteration moves the
offset on, so that `written + 1` iterations are enough unless the offset wraps. -/
def parse : ParseM size (List ASDU) := do
  parseWithin ((← get).buffer.written.toNat + 1)

end IecParser

end Iec

end IecCore
