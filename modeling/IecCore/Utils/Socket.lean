import IecCore.Utils.Buffer
import Mathlib.Data.List.GetD

/-! # The socket

`utils::Socket::readTo` receives one frame into the free part of a static buffer. The socket is a
packet socket that does not block: a call delivers one frame, of which it keeps what fits into the
free part, or fails because nothing waits.

* **`Socket.recvfrom`** — what the packet socket delivers.
* **`Socket.readTo`** — the buffer after a call.
* **`Socket.readTo_some`** — a frame is stored behind what was written, as far as there is room; the
  rest of it is lost. -/

namespace IecCore

namespace StaticBuffer

variable {size : Nat}

/-- The buffer after bytes were copied to an index; the offsets are moved by the caller. -/
def store (b : StaticBuffer size) (start : Nat) (bytes : List UInt8) : StaticBuffer size :=
  { b with
    data := Vector.ofFn fun i =>
      if start ≤ i ∧ i < start + bytes.length then bytes.getD (i - start) 0 else b.data[i] }

/-- The array after bytes were copied to `start`: they stand there, and the bytes before and behind
them are as before. -/
theorem toList_store (b : StaticBuffer size) {start : Nat} {bytes : List UInt8}
    (hroom : start + bytes.length ≤ size) :
    (b.store start bytes).data.toList
      = b.data.toList.take start ++ bytes ++ b.data.toList.drop (start + bytes.length) := by
  refine List.ext_getElem ?_ fun i hi _ => ?_
  · simp only [List.length_append, List.length_take, List.length_drop, Vector.length_toList]
    omega
  · rw [Vector.length_toList] at hi
    simp only [store, Vector.toList_ofFn, List.getElem_ofFn, List.getElem_append, List.getElem_take,
      List.getElem_drop, List.length_append, List.length_take, Vector.length_toList,
      Vector.getElem_toList, Nat.min_eq_left (show start ≤ size by omega)]
    by_cases hbefore : i < start
    · rw [if_neg (by omega), dif_pos (by omega), dif_pos hbefore]
      rfl
    by_cases hnew : i < start + bytes.length
    · rw [if_pos (by omega), dif_pos hnew, dif_neg hbefore, List.getD_eq_getElem]
    · rw [if_neg (by omega), dif_neg hnew]
      simp only [show start + bytes.length + (i - (start + bytes.length)) = i by omega]
      rfl

end StaticBuffer

namespace Socket

variable {size : Nat}

/-- `recvfrom` on the packet socket, with the frame that is waiting, if there is one: the bytes that
are copied, none when the result is negative. Of a frame as many bytes are copied as there is room
for, and the rest is discarded. -/
def recvfrom (waiting : Option (List UInt8)) (length : UInt64) : Option (List UInt8) :=
  waiting.map (List.take length.toNat)

/-- `readTo`, for what waits at the socket. Into a null pointer nothing is received; an error leaves
the buffer as it is. -/
def readTo (waiting : Option (List UInt8)) (b : StaticBuffer size) : StaticBuffer size :=
  match b.getFree, recvfrom waiting b.getFreeSize with
  | some dest, some received =>
      if received.length > 0 then
        (b.store dest received).appendWritten (UInt64.ofNat received.length)
      else b
  | _, _ => b

/-- When nothing waits, `recvfrom` fails and the buffer is left as it is. -/
theorem readTo_none (b : StaticBuffer size) : readTo none b = b := by
  unfold readTo recvfrom
  split <;> simp_all

/-- **A frame** is stored behind what was written, as far as there is room, and the written offset
moves behind it. The offset for reading stays. -/
theorem readTo_some {b : StaticBuffer size} (frame : List UInt8) (hroom : b.written.toNat < size) :
    (readTo (some frame) b).data.toList
        = b.data.toList.take b.written.toNat ++ frame.take (size - b.written.toNat)
          ++ b.data.toList.drop (b.written.toNat + (frame.take (size - b.written.toNat)).length) ∧
      (readTo (some frame) b).written.toNat = min size (b.written.toNat + frame.length) ∧
      (readTo (some frame) b).offset = b.offset := by
  have hsize := b.size_lt
  have hfree := StaticBuffer.toNat_getFreeSize hroom.le
  have hreceived : (frame.take (size - b.written.toNat)).length
      = min (size - b.written.toNat) frame.length := List.length_take
  -- a datagram without bytes is not appended
  by_cases hframe : frame = []
  · have hread : readTo (some frame) b = b := by
      rw [readTo, StaticBuffer.getFree, if_pos hroom, recvfrom, hframe]
      exact if_neg (by simp)
    rw [hread, hframe, List.take_nil, List.append_nil, List.length_nil, Nat.add_zero,
      List.take_append_drop]
    exact ⟨rfl, (Nat.min_eq_right hroom.le).symm, rfl⟩
  have hpositive : 0 < frame.length := List.length_pos_iff.mpr hframe
  have hread : readTo (some frame) b
      = (b.store b.written.toNat (frame.take (size - b.written.toNat))).appendWritten
        (UInt64.ofNat (frame.take (size - b.written.toNat)).length) := by
    rw [readTo, StaticBuffer.getFree, if_pos hroom, recvfrom, Option.map_some, hfree]
    exact if_pos (by omega)
  rw [hread]
  refine ⟨b.toList_store (by omega), ?_, rfl⟩
  show (b.written + UInt64.ofNat (frame.take (size - b.written.toNat)).length).toNat = _
  rw [UInt64.toNat_add, UInt64.toNat_ofNat_of_lt' (by rw [UInt64.size]; omega), hreceived]
  omega

end Socket

end IecCore
