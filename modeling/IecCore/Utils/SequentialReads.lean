import IecCore.Utils.Buffer
import Mathlib.Algebra.BigOperators.Group.List.Basic

/-! # Reading a buffer from its start

The clients of a buffer read numbers of mixed widths one after the other and skip what they do not
need. Every read is exact except one that ends with the array: its bytes are not copied, since `read`
compares the end of the value with the size by `>` instead of `>=`.

* **`Access`**, **`Access.perform`** — the calls that move the offset.
* **`placed`** — the calls of a list with the positions they are made at.
* **`mapM_perform`** — a list of calls finds the fields at these positions.
* **`reads_exact_iff`** — all reads are exact precisely when none of them ends with the array, or
  finds zeros there.
* **`last_byte_unread`** — a buffer whose last byte is valid and read as zero. -/

namespace IecCore

namespace StaticBuffer

open Bytes

/-! ## The calls -/

/-- A call that moves the offset of a buffer: one of the four reads, or a skip. -/
inductive Access
  | readU8
  | readU16
  | readU32
  | readU64
  | appendOffset (length : UInt64)
  deriving DecidableEq, Repr

namespace Access

/-- By how much a call moves the offset, which does not depend on the buffer. -/
def width : Access → Nat
  | readU8 => 1
  | readU16 => 2
  | readU32 => 4
  | readU64 => 8
  | appendOffset length => length.toNat

/-- Whether a call returns a number: the four reads do, `appendOffset` does not. -/
def IsRead : Access → Prop
  | appendOffset _ => False
  | _ => True

instance : DecidablePred IsRead
  | readU8 | readU16 | readU32 | readU64 => .isTrue trivial
  | appendOffset _ => .isFalse id

variable {size : Nat}

/-- Perform a call; a read returns its number, and `appendOffset` returns none. -/
def perform [Host] : Access → EStateM Fault (StaticBuffer size) (Option Nat)
  | readU8 => return some (← StaticBuffer.readU8).toNat
  | readU16 => return some (← StaticBuffer.readU16).toNat
  | readU32 => return some (← StaticBuffer.readU32).toNat
  | readU64 => return some (← StaticBuffer.readU64).toNat
  | appendOffset length => do
      modify fun b => b.appendOffset length
      return none

/-- What a call made at a position returns when it is exact: a read returns the big-endian value of
the bytes at its position. -/
def value (bytes : List UInt8) (position : Nat) (access : Access) : Option Nat :=
  if access.IsRead then some (beNat ((bytes.drop position).take access.width)) else none

/-- What a call made at a position returns: the field there, or none for a skip. -/
def found (bytes : List UInt8) (position : Nat) (access : Access) : Option Nat :=
  if access.IsRead then some (fieldAt bytes access.width position) else none

/-- **One call** made at a position finds the field there and moves on by its width, whichever call
it is. -/
theorem perform_seek [Host] (b : StaticBuffer size) (access : Access) {position : Nat}
    (hwrap : position + access.width < 2 ^ 64) :
    access.perform (b.seek position) =
      .ok (access.found b.readable position) (b.seek (position + access.width)) := by
  cases access with
  | readU8 =>
      have hlt : fieldAt b.readable 1 position < 2 ^ 8 := fieldAt_lt b.readable 1 position
      rw [perform, bind_of_ok (b.readU8_seek hwrap), run_pure, u8At, UInt8.toNat_ofNat',
        Nat.mod_eq_of_lt hlt]
      rfl
  | readU16 =>
      have hlt : fieldAt b.readable 2 position < 2 ^ 16 := fieldAt_lt b.readable 2 position
      rw [perform, bind_of_ok (b.readU16_seek hwrap), run_pure, u16At, UInt16.toNat_ofNat',
        Nat.mod_eq_of_lt hlt]
      rfl
  | readU32 =>
      have hlt : fieldAt b.readable 4 position < 2 ^ 32 := fieldAt_lt b.readable 4 position
      rw [perform, bind_of_ok (b.readU32_seek hwrap), run_pure, u32At, UInt32.toNat_ofNat',
        Nat.mod_eq_of_lt hlt]
      rfl
  | readU64 =>
      have hlt : fieldAt b.readable 8 position < 2 ^ 64 := fieldAt_lt b.readable 8 position
      rw [perform, bind_of_ok (b.readU64_seek hwrap), run_pure, u64At, UInt64.toNat_ofNat',
        Nat.mod_eq_of_lt hlt]
      rfl
  | appendOffset length =>
      have hseek := b.appendOffset_seek position length.toNat
      rw [UInt64.ofNat_toNat] at hseek
      rw [perform, bind_modify, hseek]
      rfl

/-- A read is exact precisely when it does not end with the array, or finds zeros there, which are
the value of a read that copies nothing. -/
theorem found_eq_value_iff (b : StaticBuffer size) (access : Access) {position : Nat}
    (hinside : position + access.width ≤ size) :
    access.found b.readable position = access.value b.data.toList position ↔
      (access.IsRead → position + access.width = size →
        ∀ byte ∈ b.data.toList.drop position, byte = 0) := by
  have hlength : b.data.toList.length = size := Vector.length_toList
  have hfield : fieldAt (b.data.toList.take (size - 1)) access.width position
      = if position + access.width ≤ size - 1 then fieldAt b.data.toList access.width position
        else 0 := fieldAt_take (by omega)
  unfold found value
  by_cases hread : access.IsRead
  · have hwidth : 0 < access.width := by
      cases access with
      | appendOffset length => exact hread.elim
      | _ => exact Nat.succ_pos _
    rw [if_pos hread, if_pos hread, Option.some_inj, readable, hfield, forall_prop_of_true hread]
    -- only a read of the last byte of the array finds zero for it
    by_cases hend : position + access.width = size
    · rw [if_neg (by omega), List.take_of_length_le (by rw [List.length_drop]; omega),
        forall_prop_of_true hend, eq_comm, beNat_eq_zero]
    · rw [if_pos (by omega), fieldAt, window, if_pos (by omega)]
      exact iff_of_true rfl fun h => absurd h hend
  · rw [if_neg hread, if_neg hread]
    exact iff_of_true rfl fun h => absurd h hread

end Access

/-! ## Lists of calls -/

/-- The calls of a list and the positions they are made at, each behind the widths of those before
it. -/
def placed : Nat → List Access → List (Nat × Access)
  | _, [] => []
  | position, access :: accesses => (position, access) :: placed (position + access.width) accesses

/-- The widths of the calls of a list together, which is where the list ends. -/
def totalWidth (accesses : List Access) : Nat := (accesses.map Access.width).sum

theorem totalWidth_cons (access : Access) (accesses : List Access) :
    totalWidth (access :: accesses) = access.width + totalWidth accesses := by
  rw [totalWidth, List.map_cons, List.sum_cons]
  rfl

/-- Every call of a list ends within the widths of all: its position and its width are at most
`position + totalWidth accesses`. -/
theorem placed_le {accesses : List Access} {position : Nat} {call : Nat × Access}
    (hcall : call ∈ placed position accesses) :
    call.1 + call.2.width ≤ position + totalWidth accesses := by
  induction accesses generalizing position with
  | nil => exact absurd hcall List.not_mem_nil
  | cons access accesses ih =>
      rw [totalWidth_cons]
      rcases List.mem_cons.mp hcall with rfl | hrest
      · show position + access.width ≤ _
        omega
      · have hle := ih hrest
        omega

variable {size : Nat}

/-- **A list of calls** finds the fields at the positions of the calls and moves on by their widths
together. -/
theorem mapM_perform [Host] (b : StaticBuffer size) (accesses : List Access) {position : Nat}
    (hwrap : position + totalWidth accesses < 2 ^ 64) :
    accesses.mapM Access.perform (b.seek position) =
      .ok ((placed position accesses).map fun call => call.2.found b.readable call.1)
        (b.seek (position + totalWidth accesses)) := by
  induction accesses generalizing position with
  | nil => rfl
  | cons access accesses ih =>
      rw [totalWidth_cons] at hwrap ⊢
      rw [List.mapM_cons, bind_of_ok (access.perform_seek b (by omega)),
        bind_of_ok (ih (by omega)), Nat.add_assoc]
      rfl

/-- **Reads are exact** precisely when none of them ends with the array, or finds zeros there. -/
theorem reads_exact_iff [Host] {b : StaticBuffer size} (hwritten : b.written.toNat ≤ size)
    (hoffset : b.offset = 0) {accesses : List Access}
    (hwidths : totalWidth accesses ≤ b.written.toNat) :
    (∃ b', accesses.mapM Access.perform b =
        .ok ((placed 0 accesses).map fun call => call.2.value b.data.toList call.1) b' ∧
      b'.offset.toNat = totalWidth accesses) ↔
    ∀ call ∈ placed 0 accesses, call.2.IsRead → call.1 + call.2.width = size →
      ∀ byte ∈ b.data.toList.drop call.1, byte = 0 := by
  have hsize := b.size_lt
  have hstart : b.seek 0 = b := by
    have hseek := b.seek_offset_toNat
    rwa [hoffset] at hseek
  have hwrap : 0 + totalWidth accesses < 2 ^ 64 := by omega
  have hrun := b.mapM_perform accesses hwrap
  have hmoved : (b.seek (0 + totalWidth accesses)).offset.toNat = totalWidth accesses := by
    rw [b.toNat_seek_offset hwrap, Nat.zero_add]
  rw [hstart] at hrun
  constructor
  · rintro ⟨b', hexact, -⟩ call hcall
    rw [hrun] at hexact
    injection hexact with hvalues
    have hle := placed_le hcall
    exact (call.2.found_eq_value_iff b (by omega)).mp (List.map_inj_left.mp hvalues call hcall)
  · intro h
    refine ⟨_, ?_, hmoved⟩
    have hvalues : (placed 0 accesses).map (fun call => call.2.found b.readable call.1)
        = (placed 0 accesses).map fun call => call.2.value b.data.toList call.1 := by
      refine List.map_congr_left fun call hcall => ?_
      have hle := placed_le hcall
      exact (call.2.found_eq_value_iff b (by omega)).mpr (h call hcall)
    rw [hrun, hvalues]

/-- A buffer of three bytes, all of them written and none of them read. -/
def three : StaticBuffer 3 := ⟨#v[1, 2, 3], 0, 3, by decide⟩

/-- Two of the three bytes, read on a little-endian host: no read ends with the array. -/
theorem reads_exact_iff_two :
    (∃ b', [Access.readU8, Access.readU8].mapM (@Access.perform 3 ⟨.littleEndian⟩) three =
        .ok ((placed 0 [Access.readU8, Access.readU8]).map fun call =>
          call.2.value three.data.toList call.1) b' ∧
      b'.offset.toNat = totalWidth [Access.readU8, Access.readU8]) ↔
    ∀ call ∈ placed 0 [Access.readU8, Access.readU8], call.2.IsRead →
      call.1 + call.2.width = 3 → ∀ byte ∈ three.data.toList.drop call.1, byte = 0 :=
  @reads_exact_iff 3 ⟨.littleEndian⟩ three (by decide) rfl _ (by decide)

/-- The last byte of the array is valid and reads as zero, on either host, although the reads stay
within what was written. -/
theorem last_byte_unread :
    totalWidth [Access.readU16, Access.readU8] ≤ three.written.toNat ∧ three.written.toNat ≤ 3 ∧
    three.data.toList = [1, 2, 3] ∧
    ∀ host : Host, ∃ b', [Access.readU16, Access.readU8].mapM (@Access.perform 3 host) three =
      .ok [some 0x0102, some 0] b' := by
  refine ⟨by decide, by decide, rfl, ?_⟩
  rintro ⟨_ | _⟩
  · exact ⟨_, rfl⟩
  · exact ⟨_, rfl⟩

end StaticBuffer

end IecCore
