import Mathlib.Init

/-! # Application sequence data units

The values that `iec::IecParser` produces and its consumers read.

* **`DataUnit`** — one sample value and its quality words.
* **`ASDU`** — the sample count, synchronisation, configuration revision and eight data units. -/

namespace IecCore

namespace Iec

/-- A **data unit**: the sample value and the two words of its quality. The source overlays the last
word with named bit fields that the parser does not look at. -/
structure DataUnit where
  /-- The sample value, a signed whole number. -/
  instMagI : Int32
  /-- The upper word of the quality. -/
  quality : UInt16
  /-- The lower word of the quality. -/
  bitset : UInt16
  deriving DecidableEq, Repr

/-- The number of data units of an ASDU: four currents and four voltages, in the order of their
channels. -/
def unitsPerASDU : Nat := 8

/-- An **application sequence data unit**, as far as the parser keeps it: one sample of each
channel, with its count and the synchronisation of the unit that took it. -/
structure ASDU where
  /-- The sample count, which starts again at zero every second. -/
  smpCnt : UInt16
  /-- The sample synchronisation. -/
  smpSynch : UInt8
  /-- The configuration revision. -/
  confRev : UInt32
  /-- The sequence of data, one unit for each channel. -/
  data : Vector DataUnit unitsPerASDU
  deriving DecidableEq, Repr

end Iec

end IecCore
