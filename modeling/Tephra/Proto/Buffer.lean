import Tephra.Lib.Fuel
import Tephra.Proto.Writer
import Tephra.Utf8

/-!
# The writer's buffer

`Buffer` is the class `Writer` of `wire.ts` as it stands: nothing keeps its length inside the array,
a write outside the array is a fault, and so is a loop that has used up its fuel.  With a positive
capacity neither happens: every operation does to the buffer what it does to the `Writer` that
carries its invariants (`Refines`), and `finish` returns what the operations specify.

* `Buffer.refines_write` : an operation on a buffer is that on a `Writer`.
* `Buffer.writes_concatenation` : a sequence of operations writes the concatenation of their bytes.
* `Buffer.reserve_of_empty` : a buffer of capacity zero never grows.
-/

namespace Tephra

open Lib Lib.Fuel

/-- What goes wrong with a buffer. -/
inductive Fault
  /-- A loop takes too many turns. -/
  | exhausted
  /-- A write lies outside the array. -/
  | outOfBounds
  deriving DecidableEq, Repr

/-- `Writer`, with its two fields. -/
structure Buffer where
  buf : Bytes
  len : ℕ
  deriving DecidableEq, Repr

/-- `(fieldNo << 3) | wireType`, a signed number of 32 bits. -/
def tagNumber (fieldNo : ℤ) (wireType : ℕ) : ℤ :=
  (BitVec.ofInt 32 fieldNo <<< 3 ||| BitVec.ofNat 32 wireType).toInt

/-- `target.set(source, offset)`. -/
def setBytes (target source : Bytes) (offset : ℕ) : Except Fault Bytes :=
  if offset + source.length ≤ target.length then
    .ok (target.take offset ++ source ++ target.drop (offset + source.length))
  else .error .outOfBounds

/-- `target[index] = byte`. -/
def setByte (target : Bytes) (index : ℕ) (byte : UInt8) : Except Fault Bytes :=
  if index < target.length then .ok (target.set index byte) else .error .outOfBounds

namespace Buffer

/-- The loop of `reserve`, for at most `fuel` turns. -/
def growLoop : ℕ → ℕ → ℕ → Except Fault ℕ
  | 0, _, _ => .error .exhausted
  | fuel + 1, cap, needed => if cap < needed then growLoop fuel (cap * 2) needed else .ok cap

/-- `new Writer(capacity)`. -/
def new (capacity : ℕ) : Buffer := { buf := List.replicate capacity 0, len := 0 }

/-- `finish`. -/
def finish (b : Buffer) : Bytes := b.buf.take b.len

/-- `reserve`. -/
def reserve (fuel : ℕ) (b : Buffer) (extra : ℕ) : Except Fault Buffer := do
  let needed := b.len + extra
  if needed ≤ b.buf.length then return b
  let cap ← growLoop fuel (b.buf.length * 2) needed
  let next ← setBytes (List.replicate cap 0) (b.buf.take b.len) 0
  return { b with buf := next }

/-- `pushByte`. -/
def pushByte (fuel : ℕ) (b : Buffer) (byte : UInt8) : Except Fault Buffer := do
  let b ← b.reserve fuel 1
  return { buf := ← setByte b.buf b.len byte, len := b.len + 1 }

/-- Reserve room for an array and copy it there. -/
def append (fuel : ℕ) (b : Buffer) (value : Bytes) : Except Fault Buffer := do
  let b ← b.reserve fuel value.length
  return { buf := ← setBytes b.buf value b.len, len := b.len + value.length }

/-- The loop of `varint`. -/
def varintLoop (fuel : ℕ) : ℕ → Buffer → UInt32 → Except Fault Buffer
  | 0, _, _ => .error .exhausted
  | turns + 1, b, v => do
    if 0x80 ≤ v then
      let b ← b.pushByte fuel ((v &&& 0x7f) ||| 0x80).toUInt8
      varintLoop fuel turns b (v >>> 7)
    else b.pushByte fuel v.toUInt8

/-- The loop of `varintBig`. -/
def varintBigLoop (fuel : ℕ) : ℕ → Buffer → ℕ → Except Fault Buffer
  | 0, _, _ => .error .exhausted
  | turns + 1, b, v => do
    if 0x80 ≤ v then
      let b ← b.pushByte fuel (UInt8.ofNat ((v &&& 0x7f) ||| 0x80))
      varintBigLoop fuel turns b (v >>> 7)
    else b.pushByte fuel (UInt8.ofNat v)

/-- `varintBig`. -/
def varintBig (fuel : ℕ) (b : Buffer) (value : ℤ) : Except Fault Buffer :=
  varintBigLoop fuel fuel b (u64 value)

/-- `varint`. -/
def varint (fuel : ℕ) (b : Buffer) (value : ℤ) : Except Fault Buffer :=
  if value > 0xffffffff ∨ value < 0 then b.varintBig fuel value
  else varintLoop fuel fuel b (UInt32.ofNat value.toNat)

/-- `tag`. -/
def tag (fuel : ℕ) (b : Buffer) (fieldNo : ℤ) (wireType : ℕ) : Except Fault Buffer :=
  b.varint fuel (tagNumber fieldNo wireType)

/-- `uint64`. -/
def uint64 (fuel : ℕ) (b : Buffer) (fieldNo value : ℤ) : Except Fault Buffer :=
  if value = 0 then .ok b
  else do
    let b ← b.tag fuel fieldNo wireVarint
    b.varintBig fuel value

/-- `uint64Present`. -/
def uint64Present (fuel : ℕ) (b : Buffer) (fieldNo value : ℤ) : Except Fault Buffer := do
  let b ← b.tag fuel fieldNo wireVarint
  b.varintBig fuel value

/-- `bool`. -/
def bool (fuel : ℕ) (b : Buffer) (fieldNo : ℤ) (value : Bool) : Except Fault Buffer :=
  if !value then .ok b
  else do
    let b ← b.tag fuel fieldNo wireVarint
    b.pushByte fuel 1

/-- `enum`. -/
def enum (fuel : ℕ) (b : Buffer) (fieldNo value : ℤ) : Except Fault Buffer :=
  if value = 0 then .ok b
  else do
    let b ← b.tag fuel fieldNo wireVarint
    b.varint fuel value

/-- `uint32`. -/
def uint32 (fuel : ℕ) (b : Buffer) (fieldNo value : ℤ) : Except Fault Buffer :=
  if value = 0 then .ok b
  else do
    let b ← b.tag fuel fieldNo wireVarint
    b.varint fuel value

/-- `message`. -/
def message (fuel : ℕ) (b : Buffer) (fieldNo : ℤ) (value : Bytes) : Except Fault Buffer := do
  let b ← b.tag fuel fieldNo wireLen
  let b ← b.varint fuel value.length
  b.append fuel value

/-- `bytes`. -/
def bytes (fuel : ℕ) (b : Buffer) (fieldNo : ℤ) (value : Bytes) : Except Fault Buffer :=
  if value.length = 0 then .ok b
  else do
    let b ← b.tag fuel fieldNo wireLen
    let b ← b.varint fuel value.length
    b.append fuel value

section

variable [TextCodec]

/-- `string`. -/
def string (fuel : ℕ) (b : Buffer) (fieldNo : ℤ) (value : JsString) : Except Fault Buffer :=
  if value.length = 0 then .ok b else b.bytes fuel fieldNo (encodeUtf8 value)

/-- `repeatedString`. -/
def repeatedString (fuel : ℕ) (b : Buffer) (fieldNo : ℤ) (value : JsString) :
    Except Fault Buffer := do
  let b ← b.tag fuel fieldNo wireLen
  let encoded := encodeUtf8 value
  let b ← b.varint fuel encoded.length
  b.append fuel encoded

end

end Buffer

/-! ### The operations -/

/-- The operations of a writer, with their arguments. -/
inductive WriterOp
  | varint (value : ℤ)
  | varintBig (value : ℤ)
  | uint64 (fieldNo value : ℤ)
  | uint64Present (fieldNo value : ℤ)
  | bool (fieldNo : ℤ) (value : Bool)
  | enum (fieldNo value : ℤ)
  | uint32 (fieldNo value : ℤ)
  | string (fieldNo : ℤ) (value : JsString)
  | bytes (fieldNo : ℤ) (value : Bytes)
  | message (fieldNo : ℤ) (value : Bytes)
  | repeatedString (fieldNo : ℤ) (value : JsString)
  deriving DecidableEq, Repr

namespace WriterOp

variable [TextCodec]

/-- The operation, on a buffer. -/
def run (fuel : ℕ) (b : Buffer) : WriterOp → Except Fault Buffer
  | varint value => b.varint fuel value
  | varintBig value => b.varintBig fuel value
  | uint64 fieldNo value => b.uint64 fuel fieldNo value
  | uint64Present fieldNo value => b.uint64Present fuel fieldNo value
  | bool fieldNo value => b.bool fuel fieldNo value
  | enum fieldNo value => b.enum fuel fieldNo value
  | uint32 fieldNo value => b.uint32 fuel fieldNo value
  | string fieldNo value => b.string fuel fieldNo value
  | bytes fieldNo value => b.bytes fuel fieldNo value
  | message fieldNo value => b.message fuel fieldNo value
  | repeatedString fieldNo value => b.repeatedString fuel fieldNo value

/-- A base-128 varint, of the value modulo `2 ^ 64`. -/
def varintForm (value : ℤ) : Bytes := Base128.encode (u64 value)

/-- A field without its tag is nothing when the field has its default, and is preceded by the tag
otherwise. -/
def field (fieldNo : ℤ) (wireType : ℕ) (isDefault : Bool) (value : Bytes) : Bytes :=
  if isDefault then [] else varintForm (tagNumber fieldNo wireType) ++ value

/-- An array after its length. -/
def prefixed (value : Bytes) : Bytes := varintForm value.length ++ value

/-- The bytes an operation specifies: a field with its default is left out, unless it is an element
of its own. -/
def specified : WriterOp → Bytes
  | varint value | varintBig value => varintForm value
  | uint64 fieldNo value | enum fieldNo value | uint32 fieldNo value =>
    field fieldNo wireVarint (value = 0) (varintForm value)
  | uint64Present fieldNo value => field fieldNo wireVarint false (varintForm value)
  | bool fieldNo value => field fieldNo wireVarint (!value) [1]
  | string fieldNo value =>
    field fieldNo wireLen (value = [] || encodeUtf8 value = []) (prefixed (encodeUtf8 value))
  | bytes fieldNo value => field fieldNo wireLen (value = []) (prefixed value)
  | message fieldNo value => field fieldNo wireLen false (prefixed value)
  | repeatedString fieldNo value => field fieldNo wireLen false (prefixed (encodeUtf8 value))

/-- The operation, on a writer. -/
def write (w : Writer) : WriterOp → Writer
  | varint value => w.varint value
  | varintBig value => w.varintBig value
  | uint64 fieldNo value =>
    if value = 0 then w else (w.varint (tagNumber fieldNo wireVarint)).varintBig value
  | uint64Present fieldNo value => (w.varint (tagNumber fieldNo wireVarint)).varintBig value
  | bool fieldNo value =>
    if !value then w else (w.varint (tagNumber fieldNo wireVarint)).pushByte 1
  | enum fieldNo value | uint32 fieldNo value =>
    if value = 0 then w else (w.varint (tagNumber fieldNo wireVarint)).varint value
  | string fieldNo value =>
    if value.length = 0 then w
    else if (encodeUtf8 value).length = 0 then w
    else ((w.varint (tagNumber fieldNo wireLen)).varint (encodeUtf8 value).length).append
      (encodeUtf8 value)
  | bytes fieldNo value =>
    if value.length = 0 then w
    else ((w.varint (tagNumber fieldNo wireLen)).varint value.length).append value
  | message fieldNo value =>
    ((w.varint (tagNumber fieldNo wireLen)).varint value.length).append value
  | repeatedString fieldNo value =>
    ((w.varint (tagNumber fieldNo wireLen)).varint (encodeUtf8 value).length).append
      (encodeUtf8 value)

theorem finish_write (w : Writer) (op : WriterOp) :
    (op.write w).finish = w.finish ++ op.specified := by
  cases op with
  | varint value | varintBig value => simp [write, specified, varintForm]
  | uint64 fieldNo value | enum fieldNo value | uint32 fieldNo value =>
    rw [write, specified, field]
    by_cases h : value = 0
    · simp [h]
    · simp [h, varintForm]
  | bool fieldNo value => cases value <;> simp [write, specified, field, varintForm]
  | uint64Present fieldNo value => simp [write, specified, field, varintForm]
  | string fieldNo value =>
    rw [write, specified, field]
    by_cases h : value = []
    · simp [h]
    · by_cases hencoded : encodeUtf8 value = []
      · simp [hencoded]
      · simp [h, hencoded, varintForm, prefixed]
  | bytes fieldNo value =>
    rw [write, specified, field]
    by_cases h : value = []
    · simp [h]
    · simp [h, varintForm, prefixed]
  | message fieldNo value | repeatedString fieldNo value =>
    simp [write, specified, field, varintForm, prefixed]

end WriterOp

/-- The two fields of a writer. -/
def Writer.buffer (w : Writer) : Buffer := { buf := w.buf, len := w.len }

namespace Buffer

/-! ### Growing -/

theorem growLoop_eq {k cap needed : ℕ} (h : needed ≤ cap * 2 ^ k) {fuel : ℕ} (hfuel : k < fuel) :
    growLoop fuel cap needed = .ok (Writer.growCap k cap needed) := by
  induction k generalizing cap fuel with
  | zero =>
    obtain ⟨fuel, rfl⟩ := Nat.exists_eq_add_of_lt hfuel
    rw [growLoop, Writer.growCap, if_neg (by omega)]
  | succ k ih =>
    obtain ⟨fuel, rfl⟩ := Nat.exists_eq_add_of_lt hfuel
    rw [growLoop, Writer.growCap]
    split_ifs with hcap
    · exact ih (by rw [pow_succ] at h; rwa [mul_assoc, mul_comm 2]) (by omega)
    · rfl

theorem growLoop_zero {needed : ℕ} (h : 0 < needed) (fuel : ℕ) :
    growLoop fuel 0 needed = .error .exhausted := by
  induction fuel with
  | zero => rfl
  | succ fuel ih => rw [growLoop, if_pos h, Nat.zero_mul, ih]

theorem reserve_of_empty (fuel : ℕ) {extra : ℕ} (h : 0 < extra) :
    (new 0).reserve fuel extra = .error .exhausted := by
  have hneeded : ¬ 0 + extra ≤ 0 := by omega
  simp only [reserve, new, List.replicate_zero, List.length_nil, if_neg hneeded, Nat.zero_mul,
    growLoop_zero (show 0 < 0 + extra by omega)]
  rfl

/-! ### Refinement -/

/-- With enough fuel, and without a fault, `f` does to a buffer what `g` does to a writer. -/
def Refines (f : ℕ → Buffer → Except Fault Buffer) (g : Writer → Writer) : Prop :=
  ∀ w : Writer, Ends (fun fuel => f fuel w.buffer) (g w).buffer

theorem Refines.id : Refines (fun _ b => .ok b) fun w => w := fun w => .ok w.buffer

theorem Refines.bind {f f' : ℕ → Buffer → Except Fault Buffer} {g g' : Writer → Writer}
    (h : Refines f g) (h' : Refines f' g') :
    Refines (fun fuel b => f fuel b >>= f' fuel) fun w => g' (g w) :=
  fun w => Ends.bind (h w) (h' (g w))

theorem Refines.ite {f f' : ℕ → Buffer → Except Fault Buffer} {g g' : Writer → Writer} {p : Prop}
    [Decidable p] (h : Refines f g) (h' : Refines f' g') :
    Refines (fun fuel b => if p then f fuel b else f' fuel b) fun w => if p then g w else g' w := by
  split_ifs
  · exact h
  · exact h'

theorem setBytes_replicate {used : Bytes} {cap : ℕ} (h : used.length ≤ cap) :
    setBytes (List.replicate cap 0) used 0 =
      .ok (used ++ List.replicate (cap - used.length) 0) := by
  rw [setBytes, if_pos (by rwa [Nat.zero_add, List.length_replicate]), Nat.zero_add,
    List.take_zero, List.nil_append, List.drop_replicate]

/-- The array of a writer has a positive capacity, so that doubling it ends. -/
theorem refines_reserve (extra : ℕ) :
    Refines (fun fuel b => b.reserve fuel extra) fun w => (w.reserve extra).1 := by
  intro w
  refine ⟨w.len + extra + 1, fun fuel hfuel => ?_⟩
  show w.buffer.reserve fuel extra = .ok (w.reserve extra).1.buffer
  have hlen : (w.buf.take w.len).length = w.len := by
    rw [List.length_take, Nat.min_eq_left w.len_le]
  rw [reserve, Writer.reserve]
  by_cases h : w.len + extra ≤ w.buf.length
  · rw [if_pos (show w.buffer.len + extra ≤ w.buffer.buf.length from h), dif_pos h]
    rfl
  · rw [if_neg (show ¬ w.buffer.len + extra ≤ w.buffer.buf.length from h), dif_neg h]
    have hpos : 0 < w.buf.length * 2 := Nat.mul_pos w.buf_pos two_pos
    have hgrow : growLoop fuel (w.buffer.buf.length * 2) (w.buffer.len + extra) =
        .ok (Writer.growCap (w.len + extra) (w.buf.length * 2) (w.len + extra)) :=
      growLoop_eq (Nat.lt_two_pow_self.le.trans (Nat.le_mul_of_pos_left _ hpos)) hfuel
    have hcap : w.len + extra ≤ Writer.growCap (w.len + extra) (w.buf.length * 2) (w.len + extra) :=
      Writer.needed_le_growCap hpos
    have hset : setBytes (List.replicate _ 0) (w.buf.take w.len) 0 = .ok _ :=
      setBytes_replicate (hlen.trans_le ((Nat.le_add_right _ _).trans hcap))
    rw [hgrow]
    show (setBytes _ (w.buf.take w.len) 0 >>= _) = _
    rw [hset, hlen]
    rfl

theorem setBytes_put (w : Writer) (value : Bytes) (h : w.len + value.length ≤ w.buf.length) :
    setBytes w.buf value w.len = .ok (w.put value h).buf := by
  rw [setBytes, if_pos h]
  rfl

theorem setByte_put (w : Writer) (byte : UInt8) (h : w.len + 1 ≤ w.buf.length) :
    setByte w.buf w.len byte = .ok (w.put [byte] h).buf := by
  rw [setByte, if_pos (by omega), List.set_eq_take_append_cons_drop, if_pos (by omega)]
  simp [Writer.put]

theorem refines_append (value : Bytes) :
    Refines (fun fuel b => b.append fuel value) fun w => w.append value := by
  intro w
  refine Ends.bind (refines_reserve value.length w) ?_
  have hset := setBytes_put _ value (w.reserve value.length).2
  refine ⟨0, fun fuel _ => ?_⟩
  simp only [Writer.buffer, hset]
  rfl

theorem refines_pushByte (byte : UInt8) :
    Refines (fun fuel b => b.pushByte fuel byte) fun w => w.pushByte byte := by
  intro w
  refine Ends.bind (refines_reserve 1 w) ?_
  have hset := setByte_put _ byte (w.reserve 1).2
  refine ⟨0, fun fuel _ => ?_⟩
  simp only [Writer.buffer, hset]
  rfl

/-- The loop of `varintBig` ends within as many turns as the number has groups of seven bits. -/
theorem ends_varintBigLoop {k : ℕ} (w : Writer) {v : ℕ} (h : v < 128 ^ (k + 1)) :
    ∃ n, ∀ fuel, n ≤ fuel → ∀ turns, k < turns →
      varintBigLoop fuel turns w.buffer v = .ok (Writer.varintBigLoop k w v).buffer := by
  induction k generalizing w v with
  | zero =>
    obtain ⟨n, hn⟩ := refines_pushByte (UInt8.ofNat v) w
    refine ⟨n, fun fuel hfuel turns hturns => ?_⟩
    obtain ⟨turns, rfl⟩ := Nat.exists_eq_add_of_lt hturns
    rw [zero_add, pow_one] at h
    rw [varintBigLoop, if_neg (by omega), Writer.varintBigLoop]
    exact hn fuel hfuel
  | succ k ih =>
    by_cases hmore : 0x80 ≤ v
    · have hdiv : v >>> 7 < 128 ^ (k + 1) := by
        rw [Nat.shiftRight_eq_div_pow, Nat.div_lt_iff_lt_mul (by decide)]
        rwa [pow_succ] at h
      obtain ⟨n, hn⟩ := refines_pushByte (UInt8.ofNat ((v &&& 0x7f) ||| 0x80)) w
      obtain ⟨m, hm⟩ := ih (w.pushByte (UInt8.ofNat ((v &&& 0x7f) ||| 0x80))) hdiv
      refine ⟨max n m, fun fuel hfuel turns hturns => ?_⟩
      obtain ⟨turns, rfl⟩ := Nat.exists_eq_add_of_lt hturns
      rw [varintBigLoop, if_pos hmore, Writer.varintBigLoop, if_pos hmore]
      have hpush : w.buffer.pushByte fuel (UInt8.ofNat ((v &&& 0x7f) ||| 0x80)) = .ok _ :=
        hn fuel (le_of_max_le_left hfuel)
      rw [hpush]
      exact hm fuel (le_of_max_le_right hfuel) _ (by omega)
    · obtain ⟨n, hn⟩ := refines_pushByte (UInt8.ofNat v) w
      refine ⟨n, fun fuel hfuel turns hturns => ?_⟩
      obtain ⟨turns, rfl⟩ := Nat.exists_eq_add_of_lt hturns
      rw [varintBigLoop, if_neg hmore, Writer.varintBigLoop, if_neg hmore]
      exact hn fuel hfuel

theorem varintLoop_eq (fuel turns : ℕ) (b : Buffer) (v : UInt32) :
    varintLoop fuel turns b v = varintBigLoop fuel turns b v.toNat := by
  induction turns generalizing b v with
  | zero => rfl
  | succ turns ih =>
    rw [varintLoop, varintBigLoop]
    simp only [ih, Writer.toNat_shiftRight_seven, Writer.toUInt8_eq]
    exact if_congr (UInt32.le_iff_toNat_le) rfl rfl

theorem refines_varintBigLoop {k v : ℕ} (h : v < 128 ^ (k + 1)) :
    Refines (fun fuel b => varintBigLoop fuel fuel b v) fun w => Writer.varintBigLoop k w v := by
  intro w
  obtain ⟨n, hn⟩ := ends_varintBigLoop w h
  refine ⟨max n (k + 1), fun fuel hfuel => ?_⟩
  exact hn fuel (le_of_max_le_left hfuel) fuel (le_of_max_le_right hfuel)

theorem refines_varintBig (value : ℤ) :
    Refines (fun fuel b => b.varintBig fuel value) fun w => w.varintBig value :=
  refines_varintBigLoop ((u64_lt value).trans (by norm_num))

theorem refines_varint (value : ℤ) :
    Refines (fun fuel b => b.varint fuel value) fun w => w.varint value := by
  refine .ite (refines_varintBig value) ?_
  have hlt : (UInt32.ofNat value.toNat).toNat < 128 ^ (4 + 1) :=
    (UInt32.ofNat value.toNat).toNat_lt.trans (by norm_num)
  simp only [varintLoop_eq, Writer.varintLoop_eq]
  exact refines_varintBigLoop hlt

theorem refines_prefixed (fieldNo : ℤ) (value : Bytes) :
    Refines (fun fuel b => b.message fuel fieldNo value) fun w =>
      ((w.varint (tagNumber fieldNo wireLen)).varint value.length).append value :=
  (refines_varint _).bind ((refines_varint _).bind (refines_append value))

/-- **An operation on a buffer** is that on a writer: its loops end, and no write is out of
bounds. -/
theorem refines_write [TextCodec] (op : WriterOp) :
    Refines (fun fuel b => op.run fuel b) fun w => op.write w := by
  cases op with
  | varint value => exact refines_varint value
  | varintBig value => exact refines_varintBig value
  | uint64 fieldNo value => exact .ite .id ((refines_varint _).bind (refines_varintBig value))
  | uint64Present fieldNo value => exact (refines_varint _).bind (refines_varintBig value)
  | bool fieldNo value => exact .ite .id ((refines_varint _).bind (refines_pushByte 1))
  | enum fieldNo value | uint32 fieldNo value =>
    exact .ite .id ((refines_varint _).bind (refines_varint value))
  | string fieldNo value =>
    exact .ite .id (.ite .id (refines_prefixed fieldNo (encodeUtf8 value)))
  | bytes fieldNo value => exact .ite .id (refines_prefixed fieldNo value)
  | message fieldNo value => exact refines_prefixed fieldNo value
  | repeatedString fieldNo value => exact refines_prefixed fieldNo (encodeUtf8 value)

/-- **The growable writer refines concatenation.** -/
theorem writes_concatenation [TextCodec] {capacity : ℕ} (h : 1 ≤ capacity) (ops : List WriterOp) :
    ∃ b, Ends (fun fuel => ops.foldlM (fun b op => op.run fuel b) (new capacity)) b ∧
      b.len ≤ b.buf.length ∧ b.finish = (ops.map WriterOp.specified).flatten := by
  have hfinish : ∀ w : Writer, (ops.foldl (fun w op => op.write w) w).finish =
      w.finish ++ (ops.map WriterOp.specified).flatten := by
    induction ops with
    | nil => intro w; simp
    | cons op ops ih =>
      intro w
      rw [List.foldl_cons, ih, WriterOp.finish_write, List.map_cons, List.flatten_cons,
        List.append_assoc]
  have hends := Ends.foldlM (fun w op => refines_write op w) (Writer.new capacity h) ops
  exact ⟨_, hends, Writer.len_le _, hfinish _⟩

section

attribute [local instance] utf8Codec

/-- A buffer of one byte grows to hold a varint and a field. -/
theorem writes_concatenation_one :
    ∃ b, Ends (fun fuel => [WriterOp.varint 300, .bytes 3 [7, 8]].foldlM
        (fun b op => op.run fuel b) (new 1)) b ∧
      b.len ≤ b.buf.length ∧ b.finish = [172, 2, 26, 2, 7, 8] := by
  obtain ⟨b, hends, hlen, hfinish⟩ :=
    writes_concatenation le_rfl [WriterOp.varint 300, .bytes 3 [7, 8]]
  exact ⟨b, hends, hlen, hfinish.trans (by decide +kernel)⟩

end

end Buffer

/-! ### The fields of a message -/

/-- The number of a tag, for the field numbers that protobuf has. -/
theorem tagNumber_eq {fieldNo wireType : ℕ} (hfield : fieldNo < 2 ^ 28) (htype : wireType < 8) :
    tagNumber fieldNo wireType = Writer.tagKey fieldNo wireType := by
  have hkey : Writer.tagKey fieldNo wireType < 2 ^ 31 := by
    refine Nat.or_lt_two_pow ?_ (by omega)
    rw [Nat.shiftLeft_eq]
    omega
  have hnat : (BitVec.ofInt 32 fieldNo <<< 3 ||| BitVec.ofNat 32 wireType).toNat =
      Writer.tagKey fieldNo wireType := by
    have hshift : fieldNo <<< 3 < 2 ^ 32 := by
      rw [Nat.shiftLeft_eq]
      omega
    rw [BitVec.ofInt_natCast, BitVec.toNat_or, BitVec.toNat_shiftLeft, BitVec.toNat_ofNat,
      BitVec.toNat_ofNat, Nat.mod_eq_of_lt (show fieldNo < 2 ^ 32 by omega),
      Nat.mod_eq_of_lt hshift, Nat.mod_eq_of_lt (show wireType < 2 ^ 32 by omega), Writer.tagKey]
  rw [tagNumber, BitVec.toInt_eq_toNat_of_lt (by omega), hnat]

theorem Writer.tag_eq {fieldNo wireType : ℕ} (w : Writer) (hfield : fieldNo < 2 ^ 28)
    (htype : wireType < 8) : w.tag fieldNo wireType = w.varint (tagNumber fieldNo wireType) := by
  rw [Writer.tag, tagNumber_eq hfield htype]

/-- With the field numbers that protobuf has the operations are those that messages are encoded
with. -/
theorem WriterOp.write_field [TextCodec] {fieldNo : ℕ} (h : fieldNo < 2 ^ 28) (w : Writer) :
    (∀ value, (uint64 fieldNo value).write w = w.uint64 fieldNo value) ∧
      (∀ value, (uint64Present fieldNo value).write w = w.uint64Present fieldNo value) ∧
      (∀ value, (bool fieldNo value).write w = w.bool fieldNo value) ∧
      (∀ value, (enum fieldNo value).write w = w.enum fieldNo value) ∧
      (∀ value, (uint32 fieldNo value).write w = w.uint32 fieldNo value) ∧
      (∀ value, (string fieldNo value).write w = w.string fieldNo value) ∧
      (∀ value, (bytes fieldNo value).write w = w.bytes fieldNo value) ∧
      (∀ value, (message fieldNo value).write w = w.message fieldNo value) ∧
      ∀ value, (repeatedString fieldNo value).write w = w.repeatedString fieldNo value := by
  have hvarint := w.tag_eq h (show wireVarint < 8 by decide)
  have hlen := w.tag_eq h (show wireLen < 8 by decide)
  simp only [write, Writer.uint64, Writer.uint64Present, Writer.bool, Writer.enum, Writer.uint32,
    Writer.string, Writer.bytes, Writer.message, Writer.repeatedString, hvarint, hlen, implies_true,
    and_self]

end Tephra
