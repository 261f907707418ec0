import IecCore.Lib.Hoare
import IecCore.Utils.ByteOp
import Mathlib.Data.List.Basic

/-! # The static buffer

`utils::StaticBuffer<size>` is an array of bytes with an offset for reading and one for writing,
both of type `size_t`. Reading copies the bytes of a value only when they end before the last byte
of the array, and moves the offset in any case.

* **`StaticBuffer`** — the array and the two offsets.
* **`StaticBuffer.read`** — the bytes of a value at the offset.
* **`StaticBuffer.readU8`** … **`readU64`** — the big-endian reads.
* **`StaticBuffer.readable`**, **`fieldAt`** — the bytes that a read can see, and the number that a
  read of a width finds at a position.
* **`StaticBuffer.readU8_seek`** … — a read at a position that does not wrap returns the field there
  and moves on. -/

namespace IecCore

open Bytes

/-- What ends a call without a result, in this model: the source has undefined behaviour, or a loop
without an end, at these places. -/
inductive Fault
  /-- A null pointer was read. -/
  | nullRead
  /-- A loop did not end within its steps. -/
  | unfinished
  deriving DecidableEq, Repr

/-- A **static buffer**: the array and the two offsets, which nothing keeps within the array. An
object has fewer than `2 ^ 63` bytes. -/
structure StaticBuffer (size : Nat) where
  /-- The array. -/
  data : Vector UInt8 size
  /-- The offset for reading, which calls of `appendOffset` may take past the end. -/
  offset : UInt64
  /-- The offset for writing, behind the bytes that were received. -/
  written : UInt64
  /-- An array is no larger than the largest object. -/
  size_lt : size < 2 ^ 63

namespace StaticBuffer

variable {size : Nat}

/-- The pointer to the data at the offset, as an index; none is `nullptr`, when the offset is not
inside the array. -/
protected def get (b : StaticBuffer size) : Option Nat :=
  if b.offset.toNat < size then some b.offset.toNat else none

/-- The pointer to the data at the written offset, as an index; none is `nullptr`, when the array is
full. -/
def getFree (b : StaticBuffer size) : Option Nat :=
  if b.written.toNat < size then some b.written.toNat else none

/-- Move the offset on. It is not compared with the size of the array, and wraps at `2 ^ 64`. -/
def appendOffset (b : StaticBuffer size) (length : UInt64) : StaticBuffer size :=
  { b with offset := b.offset + length }

/-- Move the written offset on. It is not compared with the size of the array either. -/
def appendWritten (b : StaticBuffer size) (length : UInt64) : StaticBuffer size :=
  { b with written := b.written + length }

/-- The free size, in `size_t`: `size - written` wraps when more than the array was written. -/
def getFreeSize (b : StaticBuffer size) : UInt64 := UInt64.ofNat size - b.written

/-- The free size is `size - written` as a number, when no more than the array is written. -/
theorem toNat_getFreeSize {b : StaticBuffer size} (hwritten : b.written.toNat ≤ size) :
    b.getFreeSize.toNat = size - b.written.toNat := by
  have hsize := b.size_lt
  have hword : (UInt64.ofNat size).toNat = size :=
    UInt64.toNat_ofNat_of_lt' (by rw [UInt64.size]; omega)
  rw [getFreeSize, UInt64.toNat_sub_of_le _ _ (UInt64.le_iff_toNat_le.mpr (by omega)), hword]

/-- Both offsets go back to the start; the array stays as it is, with the bytes of the last
batch. -/
def reset (b : StaticBuffer size) : StaticBuffer size := { b with offset := 0, written := 0 }

/-- `read<T>` for a type of `count` bytes: the bytes of the value in memory. They are zeros when the
value does not end before the last byte of the array; the offset moves on in any case. -/
def read (count : Nat) : EStateM Fault (StaticBuffer size) (List UInt8) := do
  let b ← get
  let value ←
    if size > (b.offset + UInt64.ofNat count).toNat then
      match b.get with
      | some srcBegin => pure ((b.data.toList.drop srcBegin).take count)
      | none => throw .nullRead
    else
      pure (List.replicate count 0)
  modify fun b => b.appendOffset (UInt64.ofNat count)
  return value

variable [Host]

/-- Read a byte: `readU8` returns it and moves the offset on by one. A byte needs no swap. -/
def readU8 : EStateM Fault (StaticBuffer size) UInt8 := do
  return UInt8.ofNat (ofMemory (← read 1))

/-- Read a word: the bytes of a big-endian word are swapped on a little-endian host. -/
def readU16 : EStateM Fault (StaticBuffer size) UInt16 := do
  let word := UInt16.ofNat (ofMemory (← read 2))
  return if Host.byteOrder = .littleEndian then byteswap16 word else word

/-- Read a double word: four bytes at the offset, swapped when the host is little-endian. -/
def readU32 : EStateM Fault (StaticBuffer size) UInt32 := do
  let dword := UInt32.ofNat (ofMemory (← read 4))
  return if Host.byteOrder = .littleEndian then byteswap32 dword else dword

/-- Read a quadro word: eight bytes at the offset, swapped when the host is little-endian. -/
def readU64 : EStateM Fault (StaticBuffer size) UInt64 := do
  let qword := UInt64.ofNat (ofMemory (← read 8))
  return if Host.byteOrder = .littleEndian then byteswap64 qword else qword

end StaticBuffer

/-! ## Fields -/

/-- The bytes of a field, or zeros when the field does not end within the bytes, as `read` leaves
the value zero. -/
def window (bytes : List UInt8) (width position : Nat) : List UInt8 :=
  if position + width ≤ bytes.length then (bytes.drop position).take width
  else List.replicate width 0

/-- The number in a field of `width` bytes at a position, read as big-endian. -/
def fieldAt (bytes : List UInt8) (width position : Nat) : Nat := beNat (window bytes width position)

/-- The byte at a position: `bytes[position]`, and zero past the end of the bytes. -/
def u8At (bytes : List UInt8) (position : Nat) : UInt8 := UInt8.ofNat (fieldAt bytes 1 position)

/-- The word at a position, zero when it does not end within the bytes. -/
def u16At (bytes : List UInt8) (position : Nat) : UInt16 := UInt16.ofNat (fieldAt bytes 2 position)

/-- The double word at a position, zero when it does not end within the bytes. -/
def u32At (bytes : List UInt8) (position : Nat) : UInt32 := UInt32.ofNat (fieldAt bytes 4 position)

/-- The quadro word at a position, zero when it does not end within the bytes. -/
def u64At (bytes : List UInt8) (position : Nat) : UInt64 := UInt64.ofNat (fieldAt bytes 8 position)

@[simp] theorem length_window (bytes : List UInt8) (width position : Nat) :
    (window bytes width position).length = width := by
  unfold window
  split
  · rw [List.length_take, List.length_drop]
    omega
  · exact List.length_replicate

/-- A field holds a number of its width: `fieldAt bytes width position < 256 ^ width`. -/
theorem fieldAt_lt (bytes : List UInt8) (width position : Nat) :
    fieldAt bytes width position < 256 ^ width := by
  have hlt := beNat_lt (window bytes width position)
  rwa [length_window] at hlt

/-- **A field inside the bytes** stands at its position: the bytes from there on are the encoding of
the number and what is behind it. -/
theorem drop_eq_beBytes_fieldAt {bytes : List UInt8} {width position : Nat}
    (hinside : position + width ≤ bytes.length) :
    bytes.drop position
      = beBytes width (fieldAt bytes width position) ++ bytes.drop (position + width) := by
  have hwindow : beBytes width (fieldAt bytes width position) = window bytes width position := by
    have hround := beBytes_beNat (window bytes width position)
    rwa [length_window] at hround
  rw [hwindow, window, if_pos hinside, ← List.drop_drop, List.take_append_drop]

/-- **A number encoded at a position** is the field there, which is how an encoded frame is read. -/
theorem fieldAt_of_drop_eq {bytes rest : List UInt8} {width position n : Nat}
    (hdrop : bytes.drop position = beBytes width n ++ rest) (hn : n < 256 ^ width) :
    fieldAt bytes width position = n := by
  by_cases hwidth : width = 0
  · subst hwidth
    have hlt := fieldAt_lt bytes 0 position
    rw [pow_zero] at hlt hn
    omega
  · have hlength := congrArg List.length hdrop
    rw [List.length_drop, List.length_append, length_beBytes] at hlength
    rw [fieldAt, window, if_pos (by omega), hdrop, List.take_left' (length_beBytes width n),
      beNat_beBytes, Nat.mod_eq_of_lt hn]

/-- The bytes after a part that stands at a position, `bytes.drop (position + part.length)`. -/
theorem drop_add_of_append {bytes part rest : List UInt8} {position : Nat}
    (hdrop : bytes.drop position = part ++ rest) :
    bytes.drop (position + part.length) = rest := by
  rw [← List.drop_drop, hdrop, List.drop_left]

/-- The bytes after a byte that stands at a position: `bytes.drop (position + 1) = rest` when
`bytes.drop position = byte :: rest`. -/
theorem drop_succ_of_cons {byte : UInt8} {bytes rest : List UInt8} {position : Nat}
    (hdrop : bytes.drop position = byte :: rest) : bytes.drop (position + 1) = rest := by
  rw [← List.drop_drop, hdrop, List.drop_one, List.tail_cons]

/-- A byte that stands at a position is read there: `u8At bytes position = byte`. -/
theorem u8At_of_drop {byte : UInt8} {bytes rest : List UInt8} {position : Nat}
    (hdrop : bytes.drop position = byte :: rest) : u8At bytes position = byte := by
  have hbytes : bytes.drop position = beBytes 1 byte.toNat ++ rest := by
    rw [hdrop, beBytes_succ, beBytes_zero, pow_zero, Nat.div_one, UInt8.ofNat_toNat]
    rfl
  rw [u8At, fieldAt_of_drop_eq hbytes byte.toNat_lt, UInt8.ofNat_toNat]

/-- A word whose two bytes stand at a position is read there: `u16At bytes position = word`. -/
theorem u16At_of_drop {word : UInt16} {bytes rest : List UInt8} {position : Nat}
    (hdrop : bytes.drop position = beBytes 2 word.toNat ++ rest) :
    u16At bytes position = word := by
  rw [u16At, fieldAt_of_drop_eq hdrop word.toNat_lt, UInt16.ofNat_toNat]

/-- A double word whose four bytes stand at a position is read there. -/
theorem u32At_of_drop {dword : UInt32} {bytes rest : List UInt8} {position : Nat}
    (hdrop : bytes.drop position = beBytes 4 dword.toNat ++ rest) :
    u32At bytes position = dword := by
  rw [u32At, fieldAt_of_drop_eq hdrop dword.toNat_lt, UInt32.ofNat_toNat]

/-- The byte at a position inside the bytes is the first one from there on. -/
theorem drop_eq_u8At {bytes : List UInt8} {position : Nat} (hinside : position < bytes.length) :
    bytes.drop position = u8At bytes position :: bytes.drop (position + 1) := by
  have hend : position + 1 ≤ bytes.length := hinside
  rw [drop_eq_beBytes_fieldAt hend, beBytes_succ, beBytes_zero, pow_zero, Nat.div_one]
  rfl

/-- The word at a position inside the bytes is what stands there, as its two bytes. -/
theorem drop_eq_u16At {bytes : List UInt8} {position : Nat}
    (hinside : position + 2 ≤ bytes.length) :
    bytes.drop position
      = beBytes 2 (u16At bytes position).toNat ++ bytes.drop (position + 2) := by
  have hlt : fieldAt bytes 2 position < 2 ^ 16 := fieldAt_lt bytes 2 position
  rw [drop_eq_beBytes_fieldAt hinside, u16At, UInt16.toNat_ofNat', Nat.mod_eq_of_lt hlt]

/-- A word inside the bytes is made of its two bytes, the first one counting `256`. -/
theorem toNat_u16At {bytes : List UInt8} {position : Nat}
    (hinside : position + 2 ≤ bytes.length) :
    (u16At bytes position).toNat
      = (u8At bytes position).toNat * 256 + (u8At bytes (position + 1)).toNat := by
  have hfirst := (u8At bytes position).toNat_lt
  have hsecond := (u8At bytes (position + 1)).toNat_lt
  -- the two bytes are the big-endian bytes of their number
  have hdrop : bytes.drop position
      = beBytes 2 (beNat [u8At bytes position, u8At bytes (position + 1)])
        ++ bytes.drop (position + 2) := by
    have hround := beBytes_beNat [u8At bytes position, u8At bytes (position + 1)]
    rw [List.length_cons, List.length_singleton] at hround
    rw [hround, drop_eq_u8At (show position < bytes.length by omega),
      drop_eq_u8At (show position + 1 < bytes.length by omega)]
    rfl
  rw [u16At, fieldAt_of_drop_eq hdrop (beNat_lt _), UInt16.toNat_ofNat', beNat_cons,
    beNat_singleton, List.length_singleton, pow_one]
  omega

/-- The double word at a position inside the bytes is what stands there, as its four bytes. -/
theorem drop_eq_u32At {bytes : List UInt8} {position : Nat}
    (hinside : position + 4 ≤ bytes.length) :
    bytes.drop position
      = beBytes 4 (u32At bytes position).toNat ++ bytes.drop (position + 4) := by
  have hlt : fieldAt bytes 4 position < 2 ^ 32 := fieldAt_lt bytes 4 position
  rw [drop_eq_beBytes_fieldAt hinside, u32At, UInt32.toNat_ofNat', Nat.mod_eq_of_lt hlt]

/-- Past the end a field reads as zero, also when only its last byte is past the end. -/
theorem fieldAt_of_lt {bytes : List UInt8} {width position : Nat}
    (houtside : bytes.length < position + width) : fieldAt bytes width position = 0 := by
  have hzero : ∀ n, beNat (List.replicate n 0) = 0 := by
    intro n
    induction n with
    | zero => rfl
    | succ n ih =>
        rw [List.replicate_succ, beNat_cons, ih, add_zero]
        exact Nat.zero_mul _
  rw [fieldAt, window, if_neg (by omega), hzero]

/-- Of bytes that are cut, the fields before the cut are read as before, and the others are zero. -/
theorem fieldAt_take {bytes : List UInt8} {width position cut : Nat} (hcut : cut ≤ bytes.length) :
    fieldAt (bytes.take cut) width position
      = if position + width ≤ cut then fieldAt bytes width position else 0 := by
  have hlength : (bytes.take cut).length = cut := List.length_take_of_le hcut
  by_cases hinside : position + width ≤ cut
  · rw [if_pos hinside, fieldAt, fieldAt, window, window, hlength, if_pos hinside,
      if_pos (hinside.trans hcut), List.drop_take, List.take_take, Nat.min_eq_left (by omega)]
  · rw [if_neg hinside, fieldAt_of_lt (by omega)]

/-- A part that ends before the cut still stands at its position behind it. -/
theorem exists_drop_take {bytes part rest : List UInt8} {position cut : Nat}
    (hdrop : bytes.drop position = part ++ rest) (hinside : position + part.length ≤ cut) :
    ∃ rest', (bytes.take cut).drop position = part ++ rest' := by
  refine ⟨rest.take (cut - position - part.length), ?_⟩
  rw [List.drop_take, hdrop, List.take_append, List.take_of_length_le (by omega)]

/-! ## Reading at a position -/

namespace StaticBuffer

variable {size : Nat}

/-- The bytes that a read can see: all but the last one of the array, by the strict comparison in
`read`. -/
def readable (b : StaticBuffer size) : List UInt8 := b.data.toList.take (size - 1)

/-- The buffer with its offset at a position; the array and the written offset are as before. -/
def seek (b : StaticBuffer size) (position : Nat) : StaticBuffer size :=
  { b with offset := UInt64.ofNat position }

theorem length_readable (b : StaticBuffer size) : b.readable.length = size - 1 := by
  rw [readable, List.length_take, Vector.length_toList]
  omega

@[simp] theorem seek_offset (b : StaticBuffer size) (position : Nat) :
    (b.seek position).offset = UInt64.ofNat position := rfl

@[simp] theorem seek_written (b : StaticBuffer size) (position : Nat) :
    (b.seek position).written = b.written := rfl

/-- An offset that does not wrap is its position: `(b.seek position).offset.toNat = position` below
`2 ^ 64`. -/
theorem toNat_seek_offset (b : StaticBuffer size) {position : Nat} (hwrap : position < 2 ^ 64) :
    (b.seek position).offset.toNat = position :=
  UInt64.toNat_ofNat_of_lt' hwrap

/-- Moving on from a position by `length` is a seek to the sum `position + length`, wrap
included. -/
theorem appendOffset_seek (b : StaticBuffer size) (position length : Nat) :
    (b.seek position).appendOffset (UInt64.ofNat length) = b.seek (position + length) := by
  rw [appendOffset, seek_offset, ← UInt64.ofNat_add]
  rfl

/-- Every buffer stands at a position, that of its own offset: `b.seek b.offset.toNat = b`. -/
theorem seek_offset_toNat (b : StaticBuffer size) : b.seek b.offset.toNat = b := by
  rw [seek, UInt64.ofNat_toNat]

/-- **Reading at a position** returns the bytes of the field there and moves on. The position plus
the width has to fit `size_t`, since the comparison is made with the wrapped sum. -/
theorem read_seek (b : StaticBuffer size) {count position : Nat} (hcount : 0 < count)
    (hwrap : position + count < 2 ^ 64) :
    read count (b.seek position)
      = .ok (window b.readable count position) (b.seek (position + count)) := by
  have hposition : (UInt64.ofNat position).toNat = position := b.toNat_seek_offset (by omega)
  have hend : (UInt64.ofNat position + UInt64.ofNat count).toNat = position + count := by
    rw [← UInt64.ofNat_add]
    exact b.toNat_seek_offset hwrap
  unfold read
  rw [bind_get, seek_offset, hend]
  -- the comparison of the source decides whether the bytes are copied
  by_cases hinside : size > position + count
  · have hget : (b.seek position).get = some position := by
      rw [StaticBuffer.get, seek_offset, hposition, if_pos (by omega)]
    have hbytes : ((b.seek position).data.toList.drop position).take count
        = window b.readable count position := by
      rw [window, length_readable, if_pos (by omega), readable, List.drop_take, List.take_take,
        Nat.min_eq_left (by omega)]
      rfl
    rw [if_pos hinside, hget]
    show EStateM.Result.ok (((b.seek position).data.toList.drop position).take count)
      ((b.seek position).appendOffset (UInt64.ofNat count)) = _
    rw [hbytes, appendOffset_seek]
  · have hbytes : List.replicate count 0 = window b.readable count position := by
      rw [window, length_readable, if_neg (by omega)]
    rw [if_neg hinside, hbytes]
    show EStateM.Result.ok _ ((b.seek position).appendOffset (UInt64.ofNat count)) = _
    rw [appendOffset_seek]

/-- A read past the end returns zeros and stays past the end, or faults: where the offset would wrap
back into the array, the null pointer is read instead. -/
theorem wp_read_past {b : StaticBuffer size} (count : Nat) (hpast : size ≤ b.offset.toNat) :
    wp (read count) (fun bytes b' => bytes = List.replicate count 0 ∧ size ≤ b'.offset.toNat)
      (fun _ _ => True) b := by
  have hget : b.get = none := by
    rw [StaticBuffer.get, if_neg (by omega)]
  unfold read
  rw [wp_bind, wp_get]
  by_cases hwrapped : size > (b.offset + UInt64.ofNat count).toNat
  · rw [if_pos hwrapped, hget]
    exact trivial
  · rw [if_neg hwrapped]
    exact ⟨rfl, by simpa [appendOffset] using hwrapped⟩

variable [Host]

/-- Reading a byte at a position returns `u8At` of the readable bytes and moves on by one. -/
theorem readU8_seek (b : StaticBuffer size) {position : Nat} (hwrap : position + 1 < 2 ^ 64) :
    readU8 (b.seek position) = .ok (u8At b.readable position) (b.seek (position + 1)) := by
  unfold readU8
  rw [bind_of_ok (b.read_seek (by decide) hwrap), run_pure]
  obtain ⟨byte, hbyte⟩ := List.length_eq_one_iff.mp (length_window b.readable 1 position)
  rw [u8At, fieldAt, hbyte]
  have hmemory : ofMemory [byte] = beNat [byte] := by
    unfold ofMemory
    split <;> rfl
  rw [hmemory]

/-- The number that a big-endian read of several bytes returns is `beNat bytes`, on either host. -/
theorem ofMemory_swapped (bytes : List UInt8) :
    (if Host.byteOrder = .littleEndian then reverseBytes bytes.length (ofMemory bytes)
      else ofMemory bytes) = beNat bytes := by
  split
  · next hlittle => exact reverseBytes_of_little hlittle bytes
  · next hbig => exact ofMemory_of_big hbig bytes

/-- The number that a big-endian read of a width returns, in a type that holds the numbers of this
width and swaps their bytes. -/
theorem number_ofMemory {α : Type} {ofNat : Nat → α} {toNat : α → Nat} {swap : α → α} {width : Nat}
    {bytes : List UInt8} (hlength : bytes.length = width)
    (hround : ∀ n < 256 ^ width, toNat (ofNat n) = n)
    (hswap : ∀ x, swap x = ofNat (reverseBytes width (toNat x))) :
    (if Host.byteOrder = .littleEndian then swap (ofNat (ofMemory bytes))
      else ofNat (ofMemory bytes)) = ofNat (beNat bytes) := by
  have hmemory := ofMemory_lt bytes
  have hswapped := ofMemory_swapped bytes
  rw [hlength] at hmemory hswapped
  rw [hswap, hround _ hmemory, ← apply_ite ofNat, hswapped]

/-- The word that is read from two bytes, swapped on a little-endian host, is their big-endian
number. -/
theorem word_ofMemory {bytes : List UInt8} (hlength : bytes.length = 2) :
    (if Host.byteOrder = .littleEndian then byteswap16 (UInt16.ofNat (ofMemory bytes))
      else UInt16.ofNat (ofMemory bytes)) = UInt16.ofNat (beNat bytes) :=
  number_ofMemory hlength (fun _ hlt => UInt16.toNat_ofNat_of_lt' hlt) byteswap16_eq

/-- The double word that is read from four bytes is their big-endian number, on either host. -/
theorem dword_ofMemory {bytes : List UInt8} (hlength : bytes.length = 4) :
    (if Host.byteOrder = .littleEndian then byteswap32 (UInt32.ofNat (ofMemory bytes))
      else UInt32.ofNat (ofMemory bytes)) = UInt32.ofNat (beNat bytes) :=
  number_ofMemory hlength (fun _ hlt => UInt32.toNat_ofNat_of_lt' hlt) byteswap32_eq

/-- The quadro word that is read from eight bytes is their big-endian number, on either host. -/
theorem qword_ofMemory {bytes : List UInt8} (hlength : bytes.length = 8) :
    (if Host.byteOrder = .littleEndian then byteswap64 (UInt64.ofNat (ofMemory bytes))
      else UInt64.ofNat (ofMemory bytes)) = UInt64.ofNat (beNat bytes) :=
  number_ofMemory hlength (fun _ hlt => UInt64.toNat_ofNat_of_lt' hlt) byteswap64_eq

/-- Reading a word at a position returns `u16At` of the readable bytes and moves on by two. -/
theorem readU16_seek (b : StaticBuffer size) {position : Nat} (hwrap : position + 2 < 2 ^ 64) :
    readU16 (b.seek position) = .ok (u16At b.readable position) (b.seek (position + 2)) := by
  unfold readU16
  rw [bind_of_ok (b.read_seek (by decide) hwrap), run_pure, word_ofMemory (length_window ..)]
  rfl

/-- Reading a double word at a position returns `u32At` of the readable bytes and moves on by
four. -/
theorem readU32_seek (b : StaticBuffer size) {position : Nat} (hwrap : position + 4 < 2 ^ 64) :
    readU32 (b.seek position) = .ok (u32At b.readable position) (b.seek (position + 4)) := by
  unfold readU32
  rw [bind_of_ok (b.read_seek (by decide) hwrap), run_pure, dword_ofMemory (length_window ..)]
  rfl

/-- Reading a quadro word at a position returns `u64At` of the readable bytes and moves on by
eight. -/
theorem readU64_seek (b : StaticBuffer size) {position : Nat} (hwrap : position + 8 < 2 ^ 64) :
    readU64 (b.seek position) = .ok (u64At b.readable position) (b.seek (position + 8)) := by
  unfold readU64
  rw [bind_of_ok (b.read_seek (by decide) hwrap), run_pure, qword_ofMemory (length_window ..)]
  rfl

/-- A word past the end is zero, and the offset stays past the end, as long as it does not wrap. -/
theorem wp_readU16_past {b : StaticBuffer size} (hpast : size ≤ b.offset.toNat) :
    wp readU16 (fun word b' => word = 0 ∧ size ≤ b'.offset.toNat) (fun _ _ => True) b := by
  unfold readU16
  rw [wp_bind]
  refine (wp_read_past 2 hpast).imp fun bytes b' ⟨hzeros, hpast'⟩ => ?_
  rw [wp_pure, word_ofMemory (by rw [hzeros]; rfl), hzeros]
  exact ⟨rfl, hpast'⟩

end StaticBuffer

end IecCore
