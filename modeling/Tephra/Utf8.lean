import Tephra.Platform

/-!
# The standard text codec

`TextEncoder` replaces every lone surrogate by U+FFFD and writes UTF-8.  `TextDecoder`, in its
non-fatal mode, is the byte-by-byte automaton of the Encoding standard: a malformed sequence becomes
one U+FFFD and the byte that broke it is read again, and one leading byte order mark is dropped.
-/

namespace Tephra

namespace Utf8

/-- A leading surrogate. -/
def isHigh (c : UInt16) : Bool := 0xd800 ≤ c && c ≤ 0xdbff

/-- A trailing surrogate. -/
def isLow (c : UInt16) : Bool := 0xdc00 ≤ c && c ≤ 0xdfff

/-- The scalar values of a string, lone surrogates replaced by U+FFFD. -/
def scalars : JsString → List ℕ
  | [] => []
  | [c] => [if isHigh c || isLow c then 0xfffd else c.toNat]
  | c :: d :: s =>
    if isHigh c && isLow d then
      (0x10000 + (c.toNat - 0xd800) * 0x400 + (d.toNat - 0xdc00)) :: scalars s
    else (if isHigh c || isLow c then 0xfffd else c.toNat) :: scalars (d :: s)

/-- UTF-8 of one scalar value. -/
def encodeScalar (c : ℕ) : Bytes :=
  if c < 0x80 then [UInt8.ofNat c]
  else if c < 0x800 then [UInt8.ofNat (0xc0 + c / 0x40), UInt8.ofNat (0x80 + c % 0x40)]
  else if c < 0x10000 then
    [UInt8.ofNat (0xe0 + c / 0x1000), UInt8.ofNat (0x80 + c / 0x40 % 0x40),
      UInt8.ofNat (0x80 + c % 0x40)]
  else
    [UInt8.ofNat (0xf0 + c / 0x40000), UInt8.ofNat (0x80 + c / 0x1000 % 0x40),
      UInt8.ofNat (0x80 + c / 0x40 % 0x40), UInt8.ofNat (0x80 + c % 0x40)]

/-- The decoder inside a sequence: the bits so far, how many bytes are missing, and the range the
next byte must be in.  Outside a sequence `needed` is zero. -/
structure State where
  /-- Bits of the scalar value read so far. -/
  codePoint : ℕ
  /-- Continuation bytes still missing. -/
  needed : ℕ
  /-- Least byte allowed next. -/
  lower : ℕ
  /-- Greatest byte allowed next. -/
  upper : ℕ

/-- Outside a sequence. -/
def State.idle : State := ⟨0, 0, 0x80, 0xbf⟩

/-- A byte outside a sequence: the next state and the scalar value given, if any. -/
def first (b : ℕ) : State × List ℕ :=
  if b < 0x80 then (.idle, [b])
  else if 0xc2 ≤ b ∧ b ≤ 0xdf then (⟨b % 0x20, 1, 0x80, 0xbf⟩, [])
  else if 0xe0 ≤ b ∧ b ≤ 0xef then
    (⟨b % 0x10, 2, if b = 0xe0 then 0xa0 else 0x80, if b = 0xed then 0x9f else 0xbf⟩, [])
  else if 0xf0 ≤ b ∧ b ≤ 0xf4 then
    (⟨b % 0x08, 3, if b = 0xf0 then 0x90 else 0x80, if b = 0xf4 then 0x8f else 0xbf⟩, [])
  else (.idle, [0xfffd])

/-- One byte.  A byte that cannot continue a sequence ends it with U+FFFD and is read again. -/
def next (st : State) (b : ℕ) : State × List ℕ :=
  if st.needed = 0 then first b
  else if b < st.lower ∨ st.upper < b then
    let r := first b
    (r.1, 0xfffd :: r.2)
  else
    let cp := st.codePoint * 0x40 + b % 0x40
    if st.needed = 1 then (.idle, [cp]) else (⟨cp, st.needed - 1, 0x80, 0xbf⟩, [])

/-- All bytes; a sequence the input ends in gives U+FFFD. -/
def decodeFrom : State → Bytes → List ℕ
  | st, [] => if st.needed = 0 then [] else [0xfffd]
  | st, b :: bs => (next st b.toNat).2 ++ decodeFrom (next st b.toNat).1 bs

/-- Drop one leading byte order mark. -/
def stripBom : List ℕ → List ℕ
  | 0xfeff :: cs => cs
  | cs => cs

end Utf8

/-- The text codec of the Encoding standard. -/
@[reducible] def utf8Codec : TextCodec where
  encode s := (Utf8.scalars s).flatMap Utf8.encodeScalar
  decode bytes := (Utf8.stripBom (Utf8.decodeFrom .idle bytes)).flatMap utf16
  decode_nil := rfl

end Tephra
