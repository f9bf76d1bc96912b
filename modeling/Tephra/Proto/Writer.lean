import Tephra.Errors

/-!
# The protobuf writer

`Writer` is the growable buffer of the source: bytes beyond `len` are spare room, `reserve` doubles
the capacity until the next write fits.  That `len` stays inside the buffer is a field, and a write
takes the proof that it fits, so a write outside the buffer cannot be expressed.  The `finish_*`
lemmas say that every operation appends its bytes to what was written before.
-/

namespace Tephra

open Lib

section

variable [TextCodec]

/-- `encodeUtf8`. -/
def encodeUtf8 (value : JsString) : Bytes := TextCodec.encode value

/-- `decodeUtf8`. -/
def decodeUtf8 (bytes : Bytes) : JsString := TextCodec.decode bytes

@[simp] theorem decodeUtf8_nil : decodeUtf8 [] = [] := TextCodec.decode_nil

end

/-- `WIRE_VARINT`. -/
def wireVarint : ℕ := 0

/-- `WIRE_FIXED64`. -/
def wireFixed64 : ℕ := 1

/-- `WIRE_LEN`. -/
def wireLen : ℕ := 2

/-- `WIRE_FIXED32`. -/
def wireFixed32 : ℕ := 5

/-- `value & U64_MASK`. -/
def u64 (value : ℤ) : ℕ := (value % 2 ^ 64).toNat

theorem u64_lt (value : ℤ) : u64 value < 2 ^ 64 := by
  unfold u64; omega

theorem u64_of_lt {value : ℤ} (h₀ : 0 ≤ value) (h : value < 2 ^ 64) :
    (u64 value : ℤ) = value := by
  unfold u64; omega

@[simp] theorem u64_zero : u64 0 = 0 := rfl

@[simp] theorem u64_natCast {v : ℕ} (h : v < 2 ^ 64) : u64 (v : ℤ) = v := by
  unfold u64; omega

/-! ### Writer -/

/-- A growable buffer. -/
structure Writer where
  /-- The backing array. -/
  buf : Bytes
  /-- How much of it is written. -/
  len : ℕ
  /-- The written part lies in the array. -/
  len_le : len ≤ buf.length
  /-- The capacity is positive, so that doubling it makes progress. -/
  buf_pos : 0 < buf.length

namespace Writer

/-- `new Writer(capacity)`. -/
def new (capacity : ℕ) (h : 0 < capacity) : Writer where
  buf := List.replicate capacity 0
  len := 0
  len_le := Nat.zero_le _
  buf_pos := by simpa using h

/-- `new Writer()`. -/
def init : Writer := new 64 (by decide)

/-- `finish`: the written part. -/
def finish (w : Writer) : Bytes := w.buf.take w.len

/-- The doubling loop of `reserve`, for at most `fuel` doublings. -/
def growCap : ℕ → ℕ → ℕ → ℕ
  | 0, cap, _ => cap
  | fuel + 1, cap, needed => if cap < needed then growCap fuel (cap * 2) needed else cap

theorem le_growCap {fuel cap needed : ℕ} (h : needed ≤ cap * 2 ^ fuel) :
    needed ≤ growCap fuel cap needed := by
  induction fuel generalizing cap with
  | zero => simpa [growCap] using h
  | succ fuel ih =>
    rw [growCap]
    split_ifs with hc
    · exact ih (by rw [pow_succ] at h; rwa [mul_assoc, mul_comm 2])
    · omega

/-- As many doublings as bytes are needed are enough: the loop of `reserve` ends. -/
theorem needed_le_growCap {cap needed : ℕ} (h : 0 < cap) : needed ≤ growCap needed cap needed := by
  refine le_growCap (le_trans ?_ (Nat.le_mul_of_pos_left _ h))
  exact Nat.lt_two_pow_self.le

/-- `reserve`: afterwards `extra` more bytes fit. -/
def reserve (w : Writer) (extra : ℕ) : { w' : Writer // w'.len + extra ≤ w'.buf.length } :=
  if h : w.len + extra ≤ w.buf.length then ⟨w, h⟩
  else
    let cap := growCap (w.len + extra) (w.buf.length * 2) (w.len + extra)
    have hcap : w.len + extra ≤ cap := needed_le_growCap (Nat.mul_pos w.buf_pos two_pos)
    have hlen : (w.buf.take w.len ++ List.replicate (cap - w.len) 0).length = cap := by
      have := w.len_le
      simp only [List.length_append, List.length_take, List.length_replicate]
      omega
    ⟨{ buf := w.buf.take w.len ++ List.replicate (cap - w.len) 0
       len := w.len
       len_le := by rw [hlen]; omega
       buf_pos := by have := w.buf_pos; rw [hlen]; omega },
      by simp only [hlen]; exact hcap⟩

/-- `buf.set(bytes, len)`, then `len += bytes.length`, where the bytes fit. -/
def put (w : Writer) (bytes : Bytes) (h : w.len + bytes.length ≤ w.buf.length) : Writer where
  buf := w.buf.take w.len ++ bytes ++ w.buf.drop (w.len + bytes.length)
  len := w.len + bytes.length
  len_le := by
    simp only [List.length_append, List.length_take, List.length_drop]
    omega
  buf_pos := by
    have := w.buf_pos
    simp only [List.length_append, List.length_take, List.length_drop]
    omega

/-- Reserve room for some bytes and write them. -/
def append (w : Writer) (bytes : Bytes) : Writer :=
  (w.reserve bytes.length).1.put bytes (w.reserve bytes.length).2

/-- `pushByte`. -/
def pushByte (w : Writer) (byte : UInt8) : Writer := w.append [byte]

/-- The loop of `varint`, on a 32-bit number; it takes at most four turns. -/
def varintLoop : ℕ → Writer → UInt32 → Writer
  | 0, w, v => w.pushByte v.toUInt8
  | fuel + 1, w, v =>
    if 0x80 ≤ v then varintLoop fuel (w.pushByte ((v &&& 0x7f) ||| 0x80).toUInt8) (v >>> 7)
    else w.pushByte v.toUInt8

/-- The loop of `varintBig`, on a bigint below `2 ^ 64`; it takes at most nine turns. -/
def varintBigLoop : ℕ → Writer → ℕ → Writer
  | 0, w, v => w.pushByte (UInt8.ofNat v)
  | fuel + 1, w, v =>
    if 0x80 ≤ v then
      varintBigLoop fuel (w.pushByte (UInt8.ofNat ((v &&& 0x7f) ||| 0x80))) (v >>> 7)
    else w.pushByte (UInt8.ofNat v)

/-- `varintBig`. -/
def varintBig (w : Writer) (value : ℤ) : Writer := varintBigLoop 9 w (u64 value)

/-- `varint`. -/
def varint (w : Writer) (value : ℤ) : Writer :=
  if value > 0xffffffff ∨ value < 0 then w.varintBig value
  else varintLoop 4 w (UInt32.ofNat value.toNat)

/-- `(fieldNo << 3) | wireType`. -/
def tagKey (fieldNo wireType : ℕ) : ℕ := fieldNo <<< 3 ||| wireType

/-- `tag`. -/
def tag (w : Writer) (fieldNo wireType : ℕ) : Writer := w.varint (tagKey fieldNo wireType)

/-- `uint64`. -/
def uint64 (w : Writer) (fieldNo : ℕ) (value : ℤ) : Writer :=
  if value = 0 then w else (w.tag fieldNo wireVarint).varintBig value

/-- `uint64Present`. -/
def uint64Present (w : Writer) (fieldNo : ℕ) (value : ℤ) : Writer :=
  (w.tag fieldNo wireVarint).varintBig value

/-- `bool`. -/
def bool (w : Writer) (fieldNo : ℕ) (value : Bool) : Writer :=
  if !value then w else (w.tag fieldNo wireVarint).pushByte 1

/-- `enum`. -/
def enum (w : Writer) (fieldNo : ℕ) (value : ℤ) : Writer :=
  if value = 0 then w else (w.tag fieldNo wireVarint).varint value

/-- `uint32`. -/
def uint32 (w : Writer) (fieldNo : ℕ) (value : ℤ) : Writer :=
  if value = 0 then w else (w.tag fieldNo wireVarint).varint value

/-- `bytes`. -/
def bytes (w : Writer) (fieldNo : ℕ) (value : Bytes) : Writer :=
  if value.length = 0 then w
  else ((w.tag fieldNo wireLen).varint value.length).append value

/-- `message`. -/
def message (w : Writer) (fieldNo : ℕ) (value : Bytes) : Writer :=
  ((w.tag fieldNo wireLen).varint value.length).append value

section

variable [TextCodec]

/-- `string`. -/
def string (w : Writer) (fieldNo : ℕ) (value : JsString) : Writer :=
  if value.length = 0 then w else w.bytes fieldNo (encodeUtf8 value)

/-- `repeatedString`. -/
def repeatedString (w : Writer) (fieldNo : ℕ) (value : JsString) : Writer :=
  let encoded := encodeUtf8 value
  ((w.tag fieldNo wireLen).varint encoded.length).append encoded

end

/-- `if (value !== undefined) { … }` around a write. -/
def ifDefined {α : Type} (w : Writer) (value : Option α) (write : Writer → α → Writer) : Writer :=
  match value with
  | some a => write w a
  | none => w

/-! ### What the operations append -/

@[simp] theorem finish_new (capacity : ℕ) (h : 0 < capacity) : (new capacity h).finish = [] := rfl

@[simp] theorem finish_init : init.finish = [] := rfl

theorem finish_reserve (w : Writer) (extra : ℕ) : (w.reserve extra).1.finish = w.finish := by
  unfold reserve
  split_ifs with h
  · rfl
  · have := w.len_le
    simp only [finish]
    rw [List.take_append_of_le_length (by simp [this]), List.take_take, Nat.min_self]

theorem finish_put (w : Writer) (bytes : Bytes) (h : w.len + bytes.length ≤ w.buf.length) :
    (w.put bytes h).finish = w.finish ++ bytes := by
  have hlen : (w.buf.take w.len ++ bytes).length = w.len + bytes.length := by
    simp only [List.length_append, List.length_take]
    omega
  simp only [finish, put]
  rw [List.take_append_of_le_length (by omega), List.take_of_length_le (by omega)]

@[simp] theorem finish_append (w : Writer) (bytes : Bytes) :
    (w.append bytes).finish = w.finish ++ bytes := by
  rw [append, finish_put, finish_reserve]

@[simp] theorem finish_pushByte (w : Writer) (byte : UInt8) :
    (w.pushByte byte).finish = w.finish ++ [byte] :=
  finish_append w [byte]

theorem and_or_group (v : ℕ) : (v &&& 0x7f) ||| 0x80 = v % 128 + 128 := by
  have hand : v &&& 0x7f = v % 2 ^ 7 := Nat.and_two_pow_sub_one_eq_mod v 7
  have hor := Nat.two_pow_add_eq_or_of_lt (i := 7) (b := v % 2 ^ 7) (by omega) 1
  rw [hand, Nat.or_comm, show (0x80 : ℕ) = 2 ^ 7 * 1 from rfl, ← hor]
  omega

theorem finish_varintBigLoop {fuel : ℕ} {w : Writer} {v : ℕ} (h : v < 128 ^ (fuel + 1)) :
    (varintBigLoop fuel w v).finish = w.finish ++ Base128.encode v := by
  induction fuel generalizing w v with
  | zero => rw [varintBigLoop, finish_pushByte, Base128.encode_of_lt (by simpa using h)]
  | succ fuel ih =>
    rw [varintBigLoop]
    split_ifs with hv
    · have hshift : v >>> 7 = v / 128 := Nat.shiftRight_eq_div_pow v 7
      have hdiv : v / 128 < 128 ^ (fuel + 1) := by
        rw [Nat.div_lt_iff_lt_mul (by omega)]
        rwa [pow_succ] at h
      rw [hshift, ih hdiv, finish_pushByte, and_or_group, Base128.encode_of_le hv]
      simp
    · rw [finish_pushByte, Base128.encode_of_lt (by omega)]

@[simp] theorem finish_varintBig (w : Writer) (value : ℤ) :
    (w.varintBig value).finish = w.finish ++ Base128.encode (u64 value) :=
  finish_varintBigLoop ((u64_lt value).trans (by norm_num))

theorem toUInt8_eq (v : UInt32) : v.toUInt8 = UInt8.ofNat v.toNat := by
  rw [← UInt8.toNat_inj]; simp

theorem toUInt8_group (v : UInt32) :
    ((v &&& 0x7f) ||| 0x80).toUInt8 = UInt8.ofNat ((v.toNat &&& 0x7f) ||| 0x80) := by
  rw [toUInt8_eq, UInt32.toNat_or, UInt32.toNat_and]; rfl

theorem toNat_shiftRight_seven (v : UInt32) : (v >>> 7).toNat = v.toNat >>> 7 := by
  rw [UInt32.toNat_shiftRight]; rfl

theorem varintLoop_eq (fuel : ℕ) (w : Writer) (v : UInt32) :
    varintLoop fuel w v = varintBigLoop fuel w v.toNat := by
  induction fuel generalizing w v with
  | zero => rw [varintLoop, varintBigLoop, toUInt8_eq]
  | succ fuel ih =>
    rw [varintLoop, varintBigLoop, ih, toNat_shiftRight_seven, toUInt8_group, toUInt8_eq]
    exact if_congr (UInt32.le_iff_toNat_le) rfl rfl

@[simp] theorem finish_varint (w : Writer) (value : ℤ) :
    (w.varint value).finish = w.finish ++ Base128.encode (u64 value) := by
  rw [varint]
  split_ifs with h
  · exact finish_varintBig w value
  · have hnat : (UInt32.ofNat value.toNat).toNat = u64 value := by
      rw [UInt32.toNat_ofNat']
      unfold u64
      omega
    rw [varintLoop_eq, hnat, finish_varintBigLoop]
    unfold u64
    omega

end Writer

end Tephra
