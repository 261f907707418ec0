import IecCore.Lib.BigEndian
import IecCore.Lib.CLiteral

/-! # Hexadecimal constants of C

A compiler reads a constant up to the first character that cannot be part of a number; a text that is
no constant up to there is an error, and so is a constant that fits no integer type. Of the constants
of C only those in hexadecimal and without a suffix are read here: `hexConstant` gives none for a
decimal, octal or binary constant, a suffix such as `ULL`, a constant in parentheses or blanks in
front of it, although a compiler takes these. Bytes are written as two digits each, in either case.

* **`hexConstant`** — the constant at the start of a text.
* **`hexConstant_eq_some_iff`**, **`hexConstant_append_iff`** — what is read, and what is read of a
  text that something else than a number follows.
* **`hexConstant_digits_iff`** — `0x` and digits are a constant when there is a digit and the number
  is small enough.
* **`hexBytes`**, **`number_hexBytes`** — the digits of bytes, and the number that they make. -/

namespace IecCore

namespace CLiteral

/-! ## Constants -/

/-- The characters that a number goes on with: a letter, a digit, an underscore or a point makes one
token with the digits before it. -/
def isWord (c : UInt8) : Bool :=
  0x30 ≤ c ∧ c ≤ 0x39 ∨ 0x41 ≤ c ∧ c ≤ 0x5a ∨ 0x61 ≤ c ∧ c ≤ 0x7a ∨ c = 0x5f ∨ c = 0x2e

/-- A number goes on at the start of the text, so that the digits before it are no constant of their
own. -/
def goesOn (text : List UInt8) : Bool := text.head?.any isWord

/-- The size of the largest integer type: a constant of 64 bits or more has no type, which is an
error. -/
def integerLimit : Nat := 2 ^ 64

/-- **The hexadecimal constant** at the start of a text: its value, and the text behind it. It is none
for the other constants of C (decimal, octal, binary, with a suffix, in parentheses), and so a text for
which it is none may still be an expression that a compiler takes. -/
def hexConstant : (text : List UInt8) → Option (Nat × List UInt8)
  | zero :: x :: text =>
      if zero = 0x30 ∧ (x = 0x78 ∨ x = 0x58) then
        let digits := readDigits 16 text.length text
        let back := text.drop digits.length
        if digits ≠ [] ∧ goesOn back = false ∧ number 16 digits < integerLimit then
          some (number 16 digits, back)
        else none
      else none
  | _ => none

/-- A text of hexadecimal **digits**, in upper or in lower case; it may be empty. -/
def IsDigits (digits : List UInt8) : Prop := ∀ c ∈ digits, digitValue c < 16

instance (digits : List UInt8) : Decidable (IsDigits digits) :=
  inferInstanceAs (Decidable (∀ c ∈ digits, digitValue c < 16))

/-- A digit is one of the characters that a number goes on with. -/
theorem isWord_of_digit {c : UInt8} (hc : digitValue c < 16) : isWord c = true := by
  have hall : ∀ n < 256, digitValue (UInt8.ofNat n) < 16 → isWord (UInt8.ofNat n) = true := by
    decide +kernel
  have h := hall c.toNat c.toNat_lt
  rw [UInt8.ofNat_toNat] at h
  exact h hc

variable {digits back : List UInt8}

/-- All digits at the start are read, when a number does not go on behind them. -/
theorem readDigits_append (hdigits : IsDigits digits) (hback : goesOn back = false) :
    readDigits 16 (digits ++ back).length (digits ++ back) = digits := by
  have hstop : back.takeWhile (fun c => digitValue c < 16) = [] := by
    cases back with
    | nil => rfl
    | cons c back =>
        have hword : isWord c = false := hback
        refine List.takeWhile_cons_of_neg fun hdigit => ?_
        rw [isWord_of_digit (of_decide_eq_true hdigit)] at hword
        cases hword
  rw [readDigits, List.take_length,
    List.takeWhile_append_of_pos fun c hc => decide_eq_true (hdigits c hc), hstop, List.append_nil]

/-- The digits that are read are digits, and the text is these and what `drop` leaves behind
them. -/
theorem isDigits_readDigits (text : List UInt8) :
    IsDigits (readDigits 16 text.length text) ∧
      text = readDigits 16 text.length text ++ text.drop (readDigits 16 text.length text).length := by
  refine ⟨fun c hc => ?_, (readDigits_spec (le_refl 16) text.length text).1.symm⟩
  have hdigit : decide (digitValue c < 16) = true :=
    List.mem_takeWhile_imp (p := fun c => decide (digitValue c < 16)) hc
  exact of_decide_eq_true hdigit

/-- **A constant** is its start and digits that fit an integer type, which nothing goes on with. -/
theorem hexConstant_eq_some_iff {text : List UInt8} {value : Nat} :
    hexConstant text = some (value, back) ↔ ∃ x digits, (x = 0x78 ∨ x = 0x58) ∧
      text = 0x30 :: x :: (digits ++ back) ∧ digits ≠ [] ∧ IsDigits digits ∧ goesOn back = false ∧
      number 16 digits < integerLimit ∧ value = number 16 digits := by
  constructor
  · intro h
    match text with
    | [] => cases h
    | [_] => cases h
    | zero :: x :: text =>
        rw [hexConstant] at h
        obtain ⟨⟨hzero, hx⟩, hread⟩ := Option.ite_none_right_eq_some.mp h
        subst hzero
        dsimp only at hread
        -- the reader asks for digits, for an end of the constant and for a value that fits
        obtain ⟨⟨hne, hback, hsmall⟩, hread⟩ := Option.ite_none_right_eq_some.mp hread
        obtain ⟨rfl, rfl⟩ := Prod.mk.inj (Option.some.inj hread)
        obtain ⟨hdigits, hsplit⟩ := isDigits_readDigits text
        exact ⟨x, _, hx, congrArg _ (congrArg _ hsplit), hne, hdigits, hback, hsmall, rfl⟩
  · rintro ⟨x, digits, hx, rfl, hne, hdigits, hback, hsmall, rfl⟩
    rw [hexConstant, if_pos ⟨rfl, hx⟩]
    dsimp only
    rw [readDigits_append hdigits hback, List.drop_left, if_pos ⟨hne, hback, hsmall⟩]

/-- **A constant as a whole**: a text and a back that no number goes on with are read up to the back
exactly when the text is a constant. -/
theorem hexConstant_append_iff {text : List UInt8} {value : Nat} (hback : goesOn back = false) :
    hexConstant (text ++ back) = some (value, back) ↔ hexConstant text = some (value, []) := by
  rw [hexConstant_eq_some_iff, hexConstant_eq_some_iff]
  constructor
  · rintro ⟨x, digits, hx, htext, hne, hdigits, -, hsmall⟩
    have hcancel : text = 0x30 :: x :: digits := List.append_cancel_right htext
    exact ⟨x, digits, hx, by rw [hcancel, List.append_nil], hne, hdigits, rfl, hsmall⟩
  · rintro ⟨x, digits, hx, rfl, hne, hdigits, -, hsmall⟩
    rw [List.append_nil]
    exact ⟨x, digits, hx, rfl, hne, hdigits, hback, hsmall⟩

/-- The start of a constant, `0x`. A compiler takes `0X` as well. -/
def hexStart : List UInt8 := [0x30, 0x78]

/-- **Digits behind the start** `0x` are a constant exactly when there is a digit and their number is
below `integerLimit`; then the constant is this number. -/
theorem hexConstant_digits_iff (hdigits : IsDigits digits) {value : Nat} :
    hexConstant (hexStart ++ digits) = some (value, []) ↔
      digits ≠ [] ∧ number 16 digits < integerLimit ∧ value = number 16 digits := by
  rw [hexConstant_eq_some_iff]
  constructor
  · rintro ⟨x, all, -, htext, hne, -, -, hsmall, hvalue⟩
    have hall : digits = all := by
      have hcancel := (List.cons.inj (List.cons.inj htext).2).2
      rwa [List.append_nil] at hcancel
    rw [hall]
    exact ⟨hne, hsmall, hvalue⟩
  · rintro ⟨hne, hsmall, hvalue⟩
    exact ⟨0x78, digits, .inl rfl, by rw [List.append_nil]; rfl, hne, hdigits, rfl, hsmall, hvalue⟩

/-! ## The digits of bytes -/

/-- A hexadecimal digit, for the numbers below sixteen; the letters are in upper or in lower
case. -/
def hexDigit (upper : Bool) (n : Nat) : UInt8 :=
  if n < 10 then UInt8.ofNat (0x30 + n)
  else if upper then UInt8.ofNat (0x41 + (n - 10))
  else UInt8.ofNat (0x61 + (n - 10))

/-- The two digits of a byte, the upper one first: `byte / 16` and `byte % 16`, in the same case. -/
def hexByte (upper : Bool) (byte : UInt8) : List UInt8 :=
  [hexDigit upper (byte.toNat / 16), hexDigit upper (byte.toNat % 16)]

/-- The digits of bytes, two for each of them, in the order of the bytes. -/
def hexBytes (upper : Bool) (bytes : List UInt8) : List UInt8 := bytes.flatMap (hexByte upper)

theorem hexBytes_cons (upper : Bool) (byte : UInt8) (bytes : List UInt8) :
    hexBytes upper (byte :: bytes) = hexByte upper byte ++ hexBytes upper bytes := rfl

/-- `digitValue (hexDigit upper n) = n`: a digit has its value in either case. -/
theorem digitValue_hexDigit (upper : Bool) {n : Nat} (hn : n < 16) :
    digitValue (hexDigit upper n) = n := by
  revert n
  cases upper <;> decide

variable (upper : Bool) (bytes : List UInt8)

/-- The digits of bytes are hexadecimal digits, in either case: `IsDigits (hexBytes upper
bytes)`. -/
theorem isDigits_hexBytes : IsDigits (hexBytes upper bytes) := by
  intro c hc
  obtain ⟨byte, -, hdigit⟩ := List.mem_flatMap.mp hc
  have hbyte := byte.toNat_lt
  simp only [hexByte, List.mem_cons, List.not_mem_nil, or_false] at hdigit
  obtain rfl | rfl := hdigit
  · rw [digitValue_hexDigit upper (by omega)]
    omega
  · rw [digitValue_hexDigit upper (by omega)]
    omega

@[simp] theorem length_hexBytes : (hexBytes upper bytes).length = 2 * bytes.length := by
  induction bytes with
  | nil => rfl
  | cons byte bytes ih =>
      have htwo : (hexByte upper byte).length = 2 := rfl
      rw [hexBytes_cons, List.length_append, htwo, ih, List.length_cons]
      omega

/-- Digits behind others: `number 16 front` counts by `16` to the power of the number of digits
behind it. -/
theorem number_append (front back : List UInt8) :
    number 16 (front ++ back) = number 16 front * 16 ^ back.length + number 16 back := by
  have hfrom (n : Nat) (digits : List UInt8) :
      digits.foldl (fun n c => n * 16 + digitValue c) n
        = n * 16 ^ digits.length + number 16 digits := by
    induction digits generalizing n with
    | nil => rw [List.foldl_nil, List.length_nil, pow_zero, mul_one, number, List.foldl_nil, add_zero]
    | cons c digits ih =>
        have hfirst : number 16 (c :: digits)
            = digits.foldl (fun n c => n * 16 + digitValue c) (0 * 16 + digitValue c) := rfl
        rw [List.foldl_cons, ih, hfirst, ih (0 * 16 + digitValue c), List.length_cons, pow_succ]
        ring
  rw [number, List.foldl_append, hfrom, ← number]

/-- **Bound** on the number that digits write: `number 16 digits < 16 ^ digits.length`. -/
theorem number_lt {digits : List UInt8} (hdigits : IsDigits digits) :
    number 16 digits < 16 ^ digits.length := by
  induction digits with
  | nil => exact Nat.one_pos
  | cons c digits ih =>
      obtain ⟨hc, hrest⟩ := List.forall_mem_cons.mp hdigits
      have hlater := ih hrest
      have hfirst : number 16 [c] = digitValue c := Nat.zero_add _
      have hsplit := number_append [c] digits
      have hmul := Nat.mul_le_mul_right (16 ^ digits.length) (Nat.succ_le_of_lt hc)
      rw [List.singleton_append, hfirst] at hsplit
      rw [hsplit, List.length_cons, pow_succ']
      rw [Nat.succ_mul] at hmul
      omega

/-- **The digits of bytes** make the number of the bytes, `beNat bytes`, in either case. -/
theorem number_hexBytes : number 16 (hexBytes upper bytes) = beNat bytes := by
  induction bytes with
  | nil => rfl
  | cons byte bytes ih =>
      have hbyte := byte.toNat_lt
      have hpair : number 16 (hexByte upper byte) = byte.toNat := by
        have hhigh : digitValue (hexDigit upper (byte.toNat / 16)) = byte.toNat / 16 :=
          digitValue_hexDigit upper (by omega)
        have hlow : digitValue (hexDigit upper (byte.toNat % 16)) = byte.toNat % 16 :=
          digitValue_hexDigit upper (by omega)
        simp only [number, hexByte, List.foldl_cons, List.foldl_nil, hhigh, hlow]
        omega
      have hpow : 16 ^ (2 * bytes.length) = 256 ^ bytes.length := by
        rw [pow_mul]
        rfl
      rw [hexBytes_cons, number_append, hpair, ih, length_hexBytes, hpow, beNat_cons]

end CLiteral

end IecCore
