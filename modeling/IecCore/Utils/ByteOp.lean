import IecCore.Lib.BigEndian

/-! # Byte order

The host stores an unsigned integer in memory in its own byte order, and `bytes::byteswap` turns the
bytes of an integer round, by assigning the members of one union from those of another.

* **`Host`** — the machine the program is compiled for.
* **`toMemory`**, **`ofMemory`** — an integer as the bytes of an object and back.
* **`byteswap16`**, **`byteswap32`**, **`byteswap64`** — the three functions, member by member.
* **`reverseBytes`** — the integer with the reversed bytes, and **`byteswap16_eq`**,
  **`byteswap32_eq`**, **`byteswap64_eq`**: the assignments give it.
* **`reverseBytes_ofMemory`** — reversing an integer reverses the bytes it is stored in. -/

namespace IecCore

namespace Bytes

/-- The values of `__BYTE_ORDER__` that the program tells apart. -/
inductive ByteOrder
  | littleEndian
  | bigEndian
  deriving DecidableEq, Repr

/-- The **host** of the program: all that the results depend on is its byte order. -/
class Host where
  /-- `__BYTE_ORDER__`, by which the source decides about swaps. -/
  byteOrder : ByteOrder

variable [Host]

/-- The bytes of an unsigned integer of `width` bytes in memory, in the order of the host. -/
def toMemory (width value : Nat) : List UInt8 :=
  match Host.byteOrder with
  | .bigEndian => beBytes width value
  | .littleEndian => (beBytes width value).reverse

/-- The unsigned integer stored in bytes of memory, in the order of the host. -/
def ofMemory (bytes : List UInt8) : Nat :=
  match Host.byteOrder with
  | .bigEndian => beNat bytes
  | .littleEndian => beNat bytes.reverse

/-- The memory of an integer has its width, on either host: `(toMemory width value).length =
width`. -/
theorem length_toMemory (width value : Nat) : (toMemory width value).length = width := by
  unfold toMemory
  split
  · exact length_beBytes width value
  · rw [List.length_reverse, length_beBytes]

theorem size_toMemory (width value : Nat) : (toMemory width value).toArray.size = width := by
  rw [List.size_toArray, length_toMemory]

/-! ## Swapping

A swap writes the value of one union and reads the value of another, whose members it assigns from
those of the first. The members `a`, `b` and so on of `byteset` are the elements 0, 1 and so on. -/

/-- The `byteset` of a union whose `value` was written: the bytes of the object, which the source
reads member by member. -/
def byteset (width value : Nat) : Vector UInt8 width :=
  ⟨(toMemory width value).toArray, size_toMemory width value⟩

/-- `byteswap` of a word: two unions, of which the second one's members are assigned from the first
one's in reverse. -/
def byteswap16 (x : UInt16) : UInt16 :=
  let y := byteset 2 x.toNat
  let z := #v[y[1], y[0]]
  UInt16.ofNat (ofMemory z.toList)

/-- `byteswap` of a double word, with four assignments: each byte goes to the place that mirrors its
own. -/
def byteswap32 (x : UInt32) : UInt32 :=
  let y := byteset 4 x.toNat
  let z := #v[y[3], y[2], y[1], y[0]]
  UInt32.ofNat (ofMemory z.toList)

/-- `byteswap` of a quadro word, with eight assignments: each byte goes to the place that mirrors
its own. -/
def byteswap64 (x : UInt64) : UInt64 :=
  let y := byteset 8 x.toNat
  let z := #v[y[7], y[6], y[5], y[4], y[3], y[2], y[1], y[0]]
  UInt64.ofNat (ofMemory z.toList)

/-- `reverseBytes width x` is the integer whose bytes in memory are those of `x` in the reverse
order. -/
def reverseBytes (width x : Nat) : Nat := ofMemory (toMemory width x).reverse

/-- The elements of a vector of bytes are those of its list, `toMemory width value`. -/
theorem toList_byteset (width value : Nat) : (byteset width value).toList = toMemory width value :=
  rfl

/-- **The assignments of a word** reverse its bytes: `byteswap16` is `reverseBytes 2`. -/
theorem byteswap16_eq (x : UInt16) : byteswap16 x = UInt16.ofNat (reverseBytes 2 x.toNat) := by
  rw [byteswap16, reverseBytes, ← toList_byteset]
  obtain ⟨⟨bytes⟩, hsize⟩ := byteset 2 x.toNat
  match bytes, hsize with
  | [_, _], _ => rfl

/-- **The assignments of a double word** reverse its bytes: `byteswap32` is `reverseBytes 4`. -/
theorem byteswap32_eq (x : UInt32) : byteswap32 x = UInt32.ofNat (reverseBytes 4 x.toNat) := by
  rw [byteswap32, reverseBytes, ← toList_byteset]
  obtain ⟨⟨bytes⟩, hsize⟩ := byteset 4 x.toNat
  match bytes, hsize with
  | [_, _, _, _], _ => rfl

/-- **The assignments of a quadro word** reverse its bytes: `byteswap64` is `reverseBytes 8`. -/
theorem byteswap64_eq (x : UInt64) : byteswap64 x = UInt64.ofNat (reverseBytes 8 x.toNat) := by
  rw [byteswap64, reverseBytes, ← toList_byteset]
  obtain ⟨⟨bytes⟩, hsize⟩ := byteset 8 x.toNat
  match bytes, hsize with
  | [_, _, _, _, _, _, _, _], _ => rfl

/-- Storing an integer that was read from memory gives the bytes back, on either host. -/
theorem toMemory_ofMemory (bytes : List UInt8) :
    toMemory bytes.length (ofMemory bytes) = bytes := by
  unfold toMemory ofMemory
  split
  · exact beBytes_beNat bytes
  · have hreverse := beBytes_beNat bytes.reverse
    rw [List.length_reverse] at hreverse
    rw [hreverse, List.reverse_reverse]

/-- **Swapping** the integer stored in bytes gives the one stored in the reversed bytes, whatever
the order of the host. -/
theorem reverseBytes_ofMemory (bytes : List UInt8) :
    reverseBytes bytes.length (ofMemory bytes) = ofMemory bytes.reverse := by
  rw [reverseBytes, toMemory_ofMemory]

/-- The integer stored in bytes fits their width: `ofMemory bytes < 256 ^ bytes.length`. -/
theorem ofMemory_lt (bytes : List UInt8) : ofMemory bytes < 256 ^ bytes.length := by
  unfold ofMemory
  split
  · exact beNat_lt bytes
  · have hreverse := beNat_lt bytes.reverse
    rwa [List.length_reverse] at hreverse

/-- On a little-endian host the swapped integer is the big-endian one, `beNat bytes`. -/
theorem reverseBytes_of_little (hlittle : Host.byteOrder = .littleEndian) (bytes : List UInt8) :
    reverseBytes bytes.length (ofMemory bytes) = beNat bytes := by
  rw [reverseBytes_ofMemory, ofMemory, hlittle]
  exact congrArg beNat bytes.reverse_reverse

/-- On a big-endian host the stored integer is the big-endian one already, and must not be
swapped. -/
theorem ofMemory_of_big (hbig : Host.byteOrder ≠ .littleEndian) (bytes : List UInt8) :
    ofMemory bytes = beNat bytes := by
  unfold ofMemory
  split
  · rfl
  · next hlittle => exact absurd hlittle hbig

end Bytes

end IecCore
