import Mathlib.Algebra.Order.Ring.Nat
import Mathlib.Tactic.Ring

/-! # Big-endian numbers

Bytes in network order as natural numbers and back, for any number of bytes. A field of a frame is
`width` bytes of it; the parser reads such a field as the number `beNat`, and a publisher writes the
number as `beBytes width`.

* **`beNat`** — the number that a list of bytes represents.
* **`beBytes`** — the bytes of a number, of a fixed width: a number that is too large loses its upper
  bytes.
* **`beNat_beBytes`**, **`beBytes_beNat`** — the two round trips.
* **`beNat_append_lt_iff`** — which leading bytes a number may have without being too large. -/

namespace IecCore

/-- The number that bytes represent, the most significant first: every byte counts `256` to the
power of the number of bytes behind it. -/
def beNat : List UInt8 → Nat
  | [] => 0
  | byte :: bytes => byte.toNat * 256 ^ bytes.length + beNat bytes

/-- The lowest `width` bytes of a number, the most significant first. What does not fit the width is
left out. -/
def beBytes : Nat → Nat → List UInt8
  | 0, _ => []
  | width + 1, n => UInt8.ofNat (n / 256 ^ width) :: beBytes width n

@[simp] theorem beNat_nil : beNat [] = 0 := rfl

theorem beNat_cons (byte : UInt8) (bytes : List UInt8) :
    beNat (byte :: bytes) = byte.toNat * 256 ^ bytes.length + beNat bytes := rfl

@[simp] theorem beNat_singleton (byte : UInt8) : beNat [byte] = byte.toNat := by
  rw [beNat_cons, List.length_nil, pow_zero, mul_one, beNat_nil, add_zero]

@[simp] theorem beBytes_zero (n : Nat) : beBytes 0 n = [] := rfl

theorem beBytes_succ (width n : Nat) :
    beBytes (width + 1) n = UInt8.ofNat (n / 256 ^ width) :: beBytes width n := rfl

@[simp] theorem length_beBytes (width n : Nat) : (beBytes width n).length = width := by
  induction width with
  | zero => rfl
  | succ width ih => rw [beBytes_succ, List.length_cons, ih]

/-- `beNat bytes < 256 ^ bytes.length`: bytes represent a number that fits their width. -/
theorem beNat_lt (bytes : List UInt8) : beNat bytes < 256 ^ bytes.length := by
  induction bytes with
  | nil => exact Nat.one_pos
  | cons byte bytes ih =>
      rw [beNat_cons, List.length_cons, pow_succ']
      have hbyte : byte.toNat + 1 ≤ 256 := byte.toNat_lt
      have hmul := Nat.mul_le_mul_right (256 ^ bytes.length) hbyte
      rw [Nat.add_mul, Nat.one_mul] at hmul
      omega

/-- `beNat bytes = 0` precisely when all of the bytes are zero; leading zeros do not change a
number. -/
theorem beNat_eq_zero {bytes : List UInt8} : beNat bytes = 0 ↔ ∀ byte ∈ bytes, byte = 0 := by
  induction bytes with
  | nil => exact iff_of_true rfl fun _ hbyte => absurd hbyte List.not_mem_nil
  | cons byte bytes ih =>
      have hpos : 256 ^ bytes.length ≠ 0 := (Nat.pow_pos (by decide)).ne'
      have hbyte : byte.toNat = 0 ↔ byte = 0 := UInt8.toNat_inj (b := 0)
      rw [beNat_cons, List.forall_mem_cons, Nat.add_eq_zero_iff, Nat.mul_eq_zero,
        or_iff_left hpos, hbyte, ih]

/-- Bytes in front of others count by the range `256 ^ bytes'.length` of these. -/
theorem beNat_append (bytes bytes' : List UInt8) :
    beNat (bytes ++ bytes') = beNat bytes * 256 ^ bytes'.length + beNat bytes' := by
  induction bytes with
  | nil => rw [List.nil_append, beNat_nil, Nat.zero_mul, Nat.zero_add]
  | cons byte bytes ih =>
      rw [List.cons_append, beNat_cons, beNat_cons, ih, List.length_append, pow_add]
      ring

/-- A number fits the lower bytes precisely when all bytes in front of them are zero. This decides
whether the low two bytes of a long ASN length are its value. -/
theorem beNat_append_lt_iff (bytes bytes' : List UInt8) :
    beNat (bytes ++ bytes') < 256 ^ bytes'.length ↔ ∀ byte ∈ bytes, byte = 0 := by
  rw [beNat_append, ← beNat_eq_zero]
  constructor
  · intro h
    by_contra hne
    have hle := Nat.le_mul_of_pos_left (256 ^ bytes'.length) (Nat.pos_of_ne_zero hne)
    omega
  · intro h
    rw [h, Nat.zero_mul, Nat.zero_add]
    exact beNat_lt bytes'

/-- **Decoding after encoding**: `beNat (beBytes width n)` is `n` modulo `256 ^ width`, so that it
keeps what fits the width. -/
theorem beNat_beBytes (width n : Nat) : beNat (beBytes width n) = n % 256 ^ width := by
  induction width with
  | zero => rw [beBytes_zero, beNat_nil, pow_zero, Nat.mod_one]
  | succ width ih =>
      have hbyte : (UInt8.ofNat (n / 256 ^ width)).toNat = n / 256 ^ width % 256 :=
        UInt8.toNat_ofNat'
      rw [beBytes_succ, beNat_cons, length_beBytes, ih, hbyte, Nat.pow_succ, Nat.mod_mul,
        Nat.add_comm, Nat.mul_comm]

/-- Only the lowest bytes of a number are encoded: a multiple of `256 ^ width` makes no difference
to `beBytes width`. -/
theorem beBytes_add_mul (width n m : Nat) :
    beBytes width (m * 256 ^ width + n) = beBytes width n := by
  induction width generalizing m with
  | zero => rfl
  | succ width ih =>
      have hpos : 0 < 256 ^ width := Nat.pow_pos (by decide)
      have hhead : (m * 256 ^ (width + 1) + n) / 256 ^ width = m * 256 + n / 256 ^ width := by
        rw [pow_succ', ← mul_assoc, Nat.add_comm, Nat.add_mul_div_right _ _ hpos, Nat.add_comm]
      have htail : beBytes width (m * 256 ^ (width + 1) + n) = beBytes width n := by
        rw [pow_succ', ← mul_assoc]
        exact ih (m * 256)
      rw [beBytes_succ, beBytes_succ, hhead, htail]
      congr 1
      rw [← UInt8.toNat_inj, UInt8.toNat_ofNat', UInt8.toNat_ofNat']
      omega

/-- **Encoding after decoding** gives the bytes back, leading zeros included, because the width is
known. -/
theorem beBytes_beNat (bytes : List UInt8) : beBytes bytes.length (beNat bytes) = bytes := by
  -- the first byte is the quotient by the range of the others
  induction bytes with
  | nil => rfl
  | cons byte bytes ih =>
      have hpos : 0 < 256 ^ bytes.length := Nat.pow_pos (by decide)
      have hhead : (byte.toNat * 256 ^ bytes.length + beNat bytes) / 256 ^ bytes.length
          = byte.toNat := by
        rw [Nat.add_comm, Nat.add_mul_div_right _ _ hpos, Nat.div_eq_of_lt (beNat_lt bytes),
          Nat.zero_add]
      rw [List.length_cons, beBytes_succ, beNat_cons, hhead, beBytes_add_mul, ih,
        UInt8.ofNat_toNat]

end IecCore
