import IecCore.Lib.HexConstant
import IecCore.Utils.Helpers

/-! # Files, and the address of a device

`utils::read_file` reads a file in parts of 4096 bytes, and `utils::get_mac_by_iface_name` makes a
constant of C from the file with the address of a device. The kernel writes the address as six bytes
in lower case with colons between them and a line break behind.

* **`readFileLoop`**, **`readFile`** — the loop and the function.
* **`readFileLoop_eq`** — the parts are the whole file.
* **`addressText`** — the file with an address.
* **`getMacByIfaceName_addressText`** — the constant has the digits of the address. -/

namespace IecCore

namespace Utils

open CLiteral

/-! ## Files -/

/-- `read_size`, the length of the parts that a file is read in. -/
def readSize : Nat := 4096

/-- The loop of `read_file`. A call of `read` puts what is left of the stream at the start of the
buffer, as far as there is room, and goes on while it can fill the buffer. -/
def readFileLoop (stream buf out : Text) : Text :=
  let gcount := min readSize stream.length
  let buf := stream.take gcount ++ buf.drop gcount
  if readSize ≤ stream.length then
    readFileLoop (stream.drop readSize) buf (out ++ buf.take gcount)
  else
    -- the last part, which may be empty
    out ++ buf.take gcount
termination_by stream.length
decreasing_by
  have hpos : 0 < readSize := by decide
  rw [List.length_drop]
  omega

/-- What a call of `read` has put into the buffer: the next `readSize` bytes of the stream, or what
is left of it. -/
theorem take_gcount (stream buf : Text) :
    (stream.take (min readSize stream.length) ++ buf.drop (min readSize stream.length)).take
      (min readSize stream.length) = stream.take readSize := by
  have hgcount : (stream.take (min readSize stream.length)).length = min readSize stream.length :=
    List.length_take_of_le (min_le_right ..)
  rw [List.take_append_of_le_length hgcount.ge, List.take_take, min_self, ← List.take_take,
    List.take_length]

/-- **The loop appends the stream**, whatever is in the buffer: the last part is shorter, and only
its bytes are appended. -/
theorem readFileLoop_eq (stream buf out : Text) : readFileLoop stream buf out = out ++ stream := by
  induction stream, buf, out using readFileLoop.induct with
  | case1 stream buf out gcount buf' hfull ih =>
      rw [readFileLoop, if_pos hfull]
      refine ih.trans ?_
      rw [take_gcount, List.append_assoc, List.take_append_drop]
  | case2 stream buf out hlast =>
      rw [readFileLoop, if_neg hlast, take_gcount, List.take_of_length_le (Nat.le_of_not_le hlast)]

/-- The files: what can be read of those that can be opened; none for a path that cannot. -/
abbrev Files := Text → Option Text

/-- A string as a C function reads it: up to the first zero. A `std::string` may have zeros in
it. -/
def cString (s : Text) : Text := s.takeWhile fun c => c ≠ 0

/-- **Read a file** to a string. Of a file that cannot be opened nothing is read, and the string is
empty. -/
def readFile (files : Files) (filepath : Text) : Text :=
  match files (cString filepath) with
  | some content => readFileLoop content (List.replicate readSize 0) []
  | none => []

/-- The whole file is read when it can be opened: `readFile files filepath = content`. -/
theorem readFile_of_some {files : Files} {filepath content : Text}
    (hfile : files (cString filepath) = some content) : readFile files filepath = content := by
  rw [readFile, hfile]
  exact readFileLoop_eq content _ []

/-! ## The address of a device -/

/-- Removing a character keeps the other ones: `removeAll input [c]` is a filter. -/
theorem removeAll_singleton (input : Text) (c : UInt8) :
    removeAll input [c] = some (input.filter fun x => x ≠ c) := by
  have hone := replaceAll_eq_substitute input
    { key := [c], value := [], key_ne := List.cons_ne_nil c [] }
  rw [removeAll, hone]
  congr 1
  induction input with
  | nil => rfl
  | cons x input ih =>
      by_cases hx : x = c
      · subst hx
        have hmatch := matchAt_singleton_append (α := UInt8)
          (r := { key := [x], value := [], key_ne := List.cons_ne_nil x [] }) input
        have hgone := substitute_of_match hmatch
        rw [List.filter_cons_of_neg (by simp)]
        exact hgone.trans (ih (replaceAll_eq_substitute input _))
      · have hother : ¬[c] <+: x :: input := fun h => hx (List.cons_prefix_cons.mp h).1.symm
        rw [List.filter_cons_of_pos (by simpa using hx),
          substitute_cons (matchAt_singleton_eq_none hother),
          ih (replaceAll_eq_substitute input _)]

/-- The path of the file with the address of a device, under `/sys/class/net`. -/
def addressFilepath (ifaceName : Text) : Text :=
  text "/sys/class/net/" ++ ifaceName ++ text "/address"

/-- The file with an **address**, as the kernel writes it: two digits for each byte, colons, and a
line break. -/
def addressText (mac : List UInt8) : Text :=
  (text ":").intercalate (mac.map (hexByte false)) ++ text "\n"

/-- Digits are neither colons nor line breaks, so that they stay when these are removed. -/
theorem digit_ne {c : UInt8} (hc : digitValue c < 16) : c ≠ 0x3a ∧ c ≠ 0x0a := by
  constructor
  · rintro rfl
    exact absurd hc (by decide)
  · rintro rfl
    exact absurd hc (by decide)

/-- The digits of bytes with colons between them are the digits of the bytes when the colons are
removed. -/
theorem filter_intercalate (mac : List UInt8) :
    ([0x3a].intercalate (mac.map (hexByte false))).filter (fun x => x ≠ 0x3a)
      = hexBytes false mac := by
  have hbyte (byte : UInt8) :
      (hexByte false byte).filter (fun x => x ≠ 0x3a) = hexByte false byte := by
    refine List.filter_eq_self.mpr fun c hc => ?_
    have hdigit := isDigits_hexBytes false [byte] c (by rwa [hexBytes, List.flatMap_singleton])
    exact decide_eq_true (digit_ne hdigit).1
  induction mac with
  | nil => rfl
  | cons byte mac ih =>
      cases mac with
      | nil =>
          rw [List.map_singleton, List.intercalate_singleton, hbyte, hexBytes,
            List.flatMap_singleton]
      | cons next mac =>
          have hcolon : ([0x3a] : Text).filter (fun x => x ≠ 0x3a) = [] := by decide
          have hne : (next :: mac).map (hexByte false) ≠ [] := List.cons_ne_nil _ _
          rw [List.map_cons, List.intercalate_cons_of_ne_nil hne,
            List.filter_append, List.filter_append, hbyte, hcolon, ih, List.append_nil,
            ← hexBytes_cons]

/-- Without the colons and the line break, the digits of the bytes are left: `hexBytes false
mac`. -/
theorem filter_addressText (mac : List UInt8) :
    ((addressText mac).filter fun x => x ≠ 0x3a).filter (fun x => x ≠ 0x0a) = hexBytes false mac := by
  have hcolon : text ":" = [0x3a] := by decide
  have hbreak : (text "\n").filter (fun x => x ≠ 0x3a) = text "\n" := by decide
  have hgone : (text "\n").filter (fun x => x ≠ 0x0a) = [] := by decide
  rw [addressText, hcolon, List.filter_append, filter_intercalate, hbreak, List.filter_append, hgone,
    List.append_nil]
  refine List.filter_eq_self.mpr fun c hc => ?_
  exact decide_eq_true (digit_ne (isDigits_hexBytes false mac c hc)).2

/-- **The constant of an address** has its digits behind `0x`, when the file of the device is one
that the kernel writes. -/
theorem getMacByIfaceName_addressText {files : Files} {ifaceName : Text} (hname : ifaceName ≠ [])
    {mac : List UInt8}
    (hfile : files (cString (addressFilepath ifaceName)) = some (addressText mac)) :
    getMacByIfaceName (readFile files) ifaceName = some (hexStart ++ hexBytes false mac) := by
  have hread : readFile files (text "/sys/class/net/" ++ ifaceName ++ text "/address")
      = addressText mac := readFile_of_some hfile
  have hcolon : text ":" = [0x3a] := by decide
  have hbreak : text "\n" = [0x0a] := by decide
  rw [getMacByIfaceName, if_pos hname]
  dsimp only
  rw [hread, hcolon, removeAll_singleton, Option.bind_eq_bind, Option.bind_some, hbreak,
    removeAll_singleton, Option.bind_some, filter_addressText]
  rfl

end Utils

end IecCore
