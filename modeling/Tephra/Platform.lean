import Tephra.Lib.Base128

/-!
# What the JavaScript platform provides

Byte arrays are lists of `UInt8`, strings are lists of UTF-16 code units, a `bigint` is an integer,
and so is a `number` where the program only ever puts integers into one.  `toNumber` is the
conversion `Number(x)` of a bigint, which rounds to a double once `x` has more than 53 bits;
`toUint32` is the conversion the operators `>>>` and `&` apply to their operands.

The platform's `TextEncoder` and `TextDecoder` are the parameter `TextCodec`;
`Tephra.Utf8` defines the standard one.
-/

namespace Tephra

/-- A `Uint8Array`. -/
abbrev Bytes := List UInt8

/-- A JavaScript string: its UTF-16 code units. -/
abbrev JsString := List UInt16

/-- `Number(x)` for a non-negative bigint: the nearest double, ties to even.  Above `2 ^ 53` the
result is still an integer. -/
def toNumber (x : ℕ) : ℕ :=
  if x < 2 ^ 53 then x else
    let e := Nat.log2 x - 52
    let q := x / 2 ^ e
    let r := x % 2 ^ e
    (if 2 ^ (e - 1) < r ∨ r = 2 ^ (e - 1) ∧ q % 2 = 1 then q + 1 else q) * 2 ^ e

theorem toNumber_of_lt {x : ℕ} (h : x < 2 ^ 53) : toNumber x = x := by
  rw [toNumber, if_pos h]

/-- The length no typed array exceeds: its constructor throws a `RangeError` above it. -/
def maxArrayLength : ℕ := 2 ^ 53 - 1

/-- The operand of a 32-bit operator, read as an unsigned integer. -/
def toUint32 (x : ℕ) : ℕ := x % 2 ^ 32

theorem toUint32_of_lt {x : ℕ} (h : x < 2 ^ 32) : toUint32 x = x := Nat.mod_eq_of_lt h

/-- `TextEncoder` and `TextDecoder`.  Of their behaviour only this is fixed here: no bytes decode to
the empty string. -/
class TextCodec where
  /-- `new TextEncoder().encode(s)`. -/
  encode : JsString → Bytes
  /-- `new TextDecoder("utf-8", { fatal: false }).decode(bytes)`. -/
  decode : Bytes → JsString
  /-- Decoding nothing gives nothing. -/
  decode_nil : decode [] = []

/-- The code units of a Unicode scalar value. -/
def utf16 (c : ℕ) : JsString :=
  if c < 0x10000 then [UInt16.ofNat c]
  else
    [UInt16.ofNat (0xd800 + (c - 0x10000) / 0x400), UInt16.ofNat (0xdc00 + (c - 0x10000) % 0x400)]

/-- A string literal of the source. -/
def js (s : String) : JsString := s.toList.flatMap fun c => utf16 c.toNat

end Tephra
