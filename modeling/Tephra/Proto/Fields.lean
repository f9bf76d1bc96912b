import Tephra.Proto.Reader

/-!
# Fields, written and read

`Fields` names the bytes each `Writer` operation appends, and the `Writer.finish_*` lemmas say that
it does.  The second half is about reading them: `readMessage` on the bytes of a known field
followed by a rest sets the field and goes on with the rest (`readMessage_uint64` and its
siblings).  A field that is omitted when it has its default value needs that reading the default
gives what the message held before.

A length is read back through a double, so the reading lemmas ask for at most `maxArrayLength`
bytes, which is as long as a `Uint8Array` can be.
-/

namespace Tephra

open Lib

/-- A `uint64`. -/
def IsU64 (v : ℤ) : Prop := 0 ≤ v ∧ v < 2 ^ 64

/-- A `uint32`. -/
def IsU32 (v : ℤ) : Prop := 0 ≤ v ∧ v < 2 ^ 32

instance (v : ℤ) : Decidable (IsU64 v) := inferInstanceAs (Decidable (_ ∧ _))

instance (v : ℤ) : Decidable (IsU32 v) := inferInstanceAs (Decidable (_ ∧ _))

section

variable [TextCodec]

/-- A string that `TextEncoder` and `TextDecoder` give back. -/
def Survives (s : JsString) : Prop := decodeUtf8 (encodeUtf8 s) = s

instance (s : JsString) : Decidable (Survives s) := inferInstanceAs (Decidable (_ = _))

theorem Survives.encodeUtf8_ne_nil {s : JsString} (hs : Survives s) (h : s ≠ []) :
    encodeUtf8 s ≠ [] := by
  intro he
  rw [Survives, he, decodeUtf8_nil] at hs
  exact h hs.symm

end

namespace Fields

/-- A tag. -/
def tag (fieldNo wireType : ℕ) : Bytes := Base128.encode (u64 (Writer.tagKey fieldNo wireType))

/-- A tag and a varint. -/
def varint (fieldNo : ℕ) (v : ℕ) : Bytes := tag fieldNo wireVarint ++ Base128.encode v

/-- A tag, a length and that many bytes. -/
def len (fieldNo : ℕ) (value : Bytes) : Bytes :=
  tag fieldNo wireLen ++ (Base128.encode (u64 value.length) ++ value)

/-- A varint field that is omitted when it is zero. -/
def uint64 (fieldNo : ℕ) (value : ℤ) : Bytes :=
  if value = 0 then [] else varint fieldNo (u64 value)

/-- A bool field, omitted when it is false. -/
def bool (fieldNo : ℕ) (value : Bool) : Bytes := if value then varint fieldNo 1 else []

/-- A bytes field, omitted when it is empty. -/
def bytes (fieldNo : ℕ) (value : Bytes) : Bytes :=
  if value.length = 0 then [] else len fieldNo value

/-- A field that is written only when it is present. -/
def opt {α : Type} (enc : α → Bytes) : Option α → Bytes
  | some a => enc a
  | none => []

section

variable [TextCodec]

/-- A string field, omitted when it is empty. -/
def string (fieldNo : ℕ) (value : JsString) : Bytes :=
  if value.length = 0 then [] else bytes fieldNo (encodeUtf8 value)

/-- An element of a repeated string field. -/
def repeatedString (fieldNo : ℕ) (value : JsString) : Bytes := len fieldNo (encodeUtf8 value)

end

end Fields

/-! ### What is written -/

namespace Writer

variable (w : Writer) (fieldNo : ℕ)

@[simp] theorem finish_tag (wireType : ℕ) :
    (w.tag fieldNo wireType).finish = w.finish ++ Fields.tag fieldNo wireType :=
  finish_varint w _

@[simp] theorem finish_uint64Present (value : ℤ) :
    (w.uint64Present fieldNo value).finish = w.finish ++ Fields.varint fieldNo (u64 value) := by
  simp [uint64Present, Fields.varint]

@[simp] theorem finish_uint64 (value : ℤ) :
    (w.uint64 fieldNo value).finish = w.finish ++ Fields.uint64 fieldNo value := by
  rw [uint64, Fields.uint64]
  split_ifs
  · simp
  · exact finish_uint64Present w fieldNo value

@[simp] theorem finish_bool (value : Bool) :
    (w.bool fieldNo value).finish = w.finish ++ Fields.bool fieldNo value := by
  have h1 : Base128.encode 1 = [1] := Base128.encode_of_lt (by omega)
  cases value <;> simp [bool, Fields.bool, Fields.varint, h1]

@[simp] theorem finish_enum (value : ℤ) :
    (w.enum fieldNo value).finish = w.finish ++ Fields.uint64 fieldNo value := by
  rw [enum, Fields.uint64]
  split_ifs <;> simp [Fields.varint]

@[simp] theorem finish_uint32 (value : ℤ) :
    (w.uint32 fieldNo value).finish = w.finish ++ Fields.uint64 fieldNo value :=
  finish_enum w fieldNo value

@[simp] theorem finish_message (value : Bytes) :
    (w.message fieldNo value).finish = w.finish ++ Fields.len fieldNo value := by
  simp [message, Fields.len]

@[simp] theorem finish_bytes (value : Bytes) :
    (w.bytes fieldNo value).finish = w.finish ++ Fields.bytes fieldNo value := by
  rw [bytes, Fields.bytes]
  split_ifs
  · simp
  · exact finish_message w fieldNo value

section

variable [TextCodec]

@[simp] theorem finish_string (value : JsString) :
    (w.string fieldNo value).finish = w.finish ++ Fields.string fieldNo value := by
  rw [string, Fields.string]
  split_ifs <;> simp

@[simp] theorem finish_repeatedString (value : JsString) :
    (w.repeatedString fieldNo value).finish = w.finish ++ Fields.repeatedString fieldNo value :=
  finish_message w fieldNo (encodeUtf8 value)

end

/-- A loop that writes one piece for each element writes the pieces in order. -/
theorem finish_foldl {α : Type} {f : Writer → α → Writer} {g : α → Bytes}
    (h : ∀ w a, (f w a).finish = w.finish ++ g a) (l : List α) :
    (l.foldl f w).finish = w.finish ++ l.flatMap g := by
  induction l generalizing w with
  | nil => simp
  | cons a l ih => rw [List.foldl_cons, ih, h, List.append_assoc, List.flatMap_cons]

theorem finish_ifDefined {α : Type} {write : Writer → α → Writer} {g : α → Bytes}
    (h : ∀ w a, (write w a).finish = w.finish ++ g a) (value : Option α) :
    (w.ifDefined value write).finish = w.finish ++ Fields.opt g value := by
  cases value with
  | none => exact (List.append_nil _).symm
  | some a => exact h w a

theorem tagKey_eq (fieldNo : ℕ) {wireType : ℕ} (h : wireType < 8) :
    tagKey fieldNo wireType = 8 * fieldNo + wireType := by
  rw [tagKey, Nat.shiftLeft_eq, mul_comm, ← Nat.two_pow_add_eq_or_of_lt (i := 3) (by omega)]

end Writer

/-! ### Sizes -/

namespace Fields

theorem length_tag_pos (fieldNo wireType : ℕ) : 0 < (tag fieldNo wireType).length :=
  Base128.length_encode_pos _

theorem length_le_len (fieldNo : ℕ) (value : Bytes) :
    value.length ≤ (len fieldNo value).length := by
  simp only [len, List.length_append]
  omega

theorem length_tag_le {fieldNo wireType : ℕ} (hn : fieldNo < 16) (hw : wireType < 8) :
    (tag fieldNo wireType).length ≤ 1 := by
  have hkey := Writer.tagKey_eq fieldNo hw
  refine Base128.length_encode_le (k := 0) ?_
  rw [u64_natCast (by omega)]
  omega

theorem length_varint_le {fieldNo v : ℕ} (hn : fieldNo < 16) (hv : v < 2 ^ 64) :
    (varint fieldNo v).length ≤ 11 := by
  have h := Base128.length_encode_le (k := 9) (hv.trans (by norm_num))
  have htag := length_tag_le hn (show wireVarint < 8 by decide)
  simp only [varint, List.length_append]
  omega

theorem length_uint64_le {fieldNo : ℕ} (hn : fieldNo < 16) (value : ℤ) :
    (uint64 fieldNo value).length ≤ 11 := by
  rw [uint64]
  split_ifs
  · simp
  · exact length_varint_le hn (u64_lt value)

/-- A short embedded message takes two bytes more than its body. -/
theorem length_len_le {fieldNo : ℕ} {value : Bytes} (hn : fieldNo < 16) (h : value.length < 128) :
    (len fieldNo value).length ≤ value.length + 2 := by
  have htag := length_tag_le hn (show wireLen < 8 by decide)
  have hlen := Base128.length_encode_le (k := 0) (v := u64 value.length)
    (by rw [u64_natCast (by omega)]; omega)
  simp only [len, List.length_append]
  omega

theorem length_le_opt {α : Type} (enc : α → Bytes) {o : Option α} {a : α} (h : o = some a) :
    (enc a).length ≤ (opt enc o).length := by
  rw [h]; exact le_rfl

theorem length_le_flatMap {α : Type} (enc : α → Bytes) {l : List α} {a : α} (h : a ∈ l) :
    (enc a).length ≤ (l.flatMap enc).length := by
  rw [List.length_flatMap]
  exact List.le_sum_of_mem (List.mem_map.2 ⟨a, h, rfl⟩)

end Fields

/-! ### What is read -/

namespace Reader

theorem tag_append {fieldNo wireType : ℕ} (hn : fieldNo < 2 ^ 28) (hw : wireType < 8) (r : Reader) :
    tag (Fields.tag fieldNo wireType ++ r) = .ok ((fieldNo, wireType), r) := by
  have hkey := Writer.tagKey_eq fieldNo hw
  have hor : 8 * fieldNo + wireType = 2 ^ 3 * fieldNo + wireType := rfl
  rw [tag, Fields.tag, varintBig_encode, u64_natCast (by omega), Nat.mod_eq_of_lt (by omega)]
  simp only [ok_bind, toNumber_of_lt (show Writer.tagKey fieldNo wireType < 2 ^ 53 by omega),
    toUint32_of_lt (show Writer.tagKey fieldNo wireType < 2 ^ 32 by omega), pure_eq_ok]
  have hshift : Writer.tagKey fieldNo wireType >>> 3 = fieldNo := by
    rw [Nat.shiftRight_eq_div_pow]; omega
  have hmask : Writer.tagKey fieldNo wireType &&& 0x7 = wireType := by
    rw [show (0x7 : ℕ) = 2 ^ 3 - 1 from rfl, Nat.and_two_pow_sub_one_eq_mod]; omega
  rw [hshift, hmask]

theorem varintBig_append {v : ℕ} (hv : v < 2 ^ 64) (r : Reader) :
    varintBig (Base128.encode v ++ r) = .ok (v, r) := by
  rw [varintBig_encode, Nat.mod_eq_of_lt hv]

theorem bytes_append {value : Bytes} (h : value.length ≤ maxArrayLength) (r : Reader) :
    bytes (Base128.encode (u64 value.length) ++ (value ++ r)) = .ok (value, r) := by
  have h : value.length < 2 ^ 53 := Nat.lt_of_le_pred (by decide) h
  rw [bytes, varintBig_append (u64_lt _), u64_natCast (by omega)]
  simp only [ok_bind, toNumber_of_lt h]
  rw [if_neg (by simp)]
  simp

end Reader

section

variable [TextCodec] {σ : Type} {field : σ → ℕ → Option (FieldReader σ)} {st : σ} {fieldNo : ℕ}
variable {rest : Bytes} {res : Except Err σ}

theorem readMessage_known {f : FieldReader σ} {wireType : ℕ} {st' : σ} {payload : Bytes}
    (hn : fieldNo < 2 ^ 28) (hw : wireType < 8) (hf : field st fieldNo = some f)
    (hread : f.read (payload ++ rest) = .ok (st', rest))
    (hnext : readMessage field st' rest = res) :
    readMessage field st (Fields.tag fieldNo wireType ++ payload ++ rest) = res := by
  have hne : Fields.tag fieldNo wireType ++ payload ++ rest ≠ [] := by
    have := Fields.length_tag_pos fieldNo wireType
    intro h
    have := congrArg List.length h
    simp only [List.length_append, List.length_nil] at this
    omega
  rw [readMessage_of_ne_nil hne, List.append_assoc, Reader.tag_append hn hw]
  simp only [ok_bind, hf, hread, hnext]

theorem readMessage_varint {set : ℤ → σ} {v : ℕ} (hn : fieldNo < 2 ^ 28)
    (hf : field st fieldNo = some (.varintBig set)) (hv : v < 2 ^ 64)
    (hnext : readMessage field (set v) rest = res) :
    readMessage field st (Fields.varint fieldNo v ++ rest) = res := by
  refine readMessage_known hn (by decide) hf ?_ hnext
  simp only [FieldReader.read, Reader.varintBig_append hv, ok_bind, pure_eq_ok]

theorem readMessage_uint64Present {set : ℤ → σ} {value : ℤ} (hn : fieldNo < 2 ^ 28)
    (hf : field st fieldNo = some (.varintBig set))
    (hnext : readMessage field (set (u64 value)) rest = res) :
    readMessage field st (Fields.varint fieldNo (u64 value) ++ rest) = res :=
  readMessage_varint hn hf (u64_lt value) hnext

/-- A uint64 field that is omitted when it is zero. -/
theorem readMessage_uint64 {set : ℤ → σ} {value : ℤ} (hn : fieldNo < 2 ^ 28)
    (hf : field st fieldNo = some (.varintBig set)) (hzero : set 0 = st)
    (hnext : readMessage field (set (u64 value)) rest = res) :
    readMessage field st (Fields.uint64 fieldNo value ++ rest) = res := by
  rw [Fields.uint64]
  split_ifs with hz
  · rw [hz, u64_zero, Nat.cast_zero, hzero] at hnext
    exact hnext
  · exact readMessage_uint64Present hn hf hnext

theorem readMessage_uint32 {set : ℤ → σ} {value : ℤ} (hn : fieldNo < 2 ^ 28)
    (hf : field st fieldNo = some (.varint set)) (hzero : set 0 = st)
    (hnext : readMessage field (set (toNumber (u64 value))) rest = res) :
    readMessage field st (Fields.uint64 fieldNo value ++ rest) = res := by
  rw [Fields.uint64]
  split_ifs with hz
  · rw [hz, u64_zero, toNumber_of_lt (by norm_num), Nat.cast_zero, hzero] at hnext
    exact hnext
  · refine readMessage_known hn (by decide) hf ?_ hnext
    simp only [FieldReader.read, Reader.varint, Reader.varintBig_append (u64_lt value), ok_bind,
      pure_eq_ok]

theorem readMessage_bool {set : Bool → σ} {value : Bool} (hn : fieldNo < 2 ^ 28)
    (hf : field st fieldNo = some (.bool set)) (hfalse : set false = st)
    (hnext : readMessage field (set value) rest = res) :
    readMessage field st (Fields.bool fieldNo value ++ rest) = res := by
  cases value with
  | false => rwa [hfalse] at hnext
  | true =>
    refine readMessage_known hn (by decide) hf ?_ hnext
    simp only [FieldReader.read, Reader.bool, Reader.varintBig_append (show 1 < 2 ^ 64 by decide),
      ok_bind, pure_eq_ok]
    rfl

theorem readMessage_len {f : FieldReader σ} {st' : σ} {value : Bytes} (hn : fieldNo < 2 ^ 28)
    (hf : field st fieldNo = some f)
    (hread : f.read (Base128.encode (u64 value.length) ++ (value ++ rest)) = .ok (st', rest))
    (hnext : readMessage field st' rest = res) :
    readMessage field st (Fields.len fieldNo value ++ rest) = res := by
  rw [Fields.len]
  refine readMessage_known hn (by decide) hf ?_ hnext
  rwa [List.append_assoc]

theorem readMessage_bytes {set : Bytes → σ} {value : Bytes} (hn : fieldNo < 2 ^ 28)
    (hf : field st fieldNo = some (.bytes set))
    (hlen : (Fields.bytes fieldNo value).length ≤ maxArrayLength) (hnil : set [] = st)
    (hnext : readMessage field (set value) rest = res) :
    readMessage field st (Fields.bytes fieldNo value ++ rest) = res := by
  rw [Fields.bytes] at hlen ⊢
  split_ifs at hlen ⊢ with hv
  · rwa [List.nil_append, ← hnil, ← List.length_eq_zero_iff.1 hv]
  · refine readMessage_len hn hf ?_ hnext
    have := Fields.length_le_len fieldNo value
    rw [FieldReader.read, Reader.bytes_append (by omega)]
    rfl

theorem readMessage_repeatedString {set : JsString → σ} {value : JsString}
    (hn : fieldNo < 2 ^ 28) (hf : field st fieldNo = some (.string set))
    (hlen : (Fields.repeatedString fieldNo value).length ≤ maxArrayLength)
    (hnext : readMessage field (set (decodeUtf8 (encodeUtf8 value))) rest = res) :
    readMessage field st (Fields.repeatedString fieldNo value ++ rest) = res := by
  refine readMessage_len hn hf ?_ hnext
  have := Fields.length_le_len fieldNo (encodeUtf8 value)
  rw [Fields.repeatedString] at hlen
  rw [FieldReader.read, Reader.bytes_append (by omega)]
  simp only [ok_bind, pure_eq_ok]

/-- A string field: it is written unless it or its encoding is empty. -/
theorem readMessage_string {set : JsString → σ} {value : JsString}
    (hn : fieldNo < 2 ^ 28) (hf : field st fieldNo = some (.string set))
    (hlen : (Fields.string fieldNo value).length ≤ maxArrayLength)
    (hnil : value = [] ∨ encodeUtf8 value = [] → readMessage field st rest = res)
    (hnext : value ≠ [] → encodeUtf8 value ≠ [] →
      readMessage field (set (decodeUtf8 (encodeUtf8 value))) rest = res) :
    readMessage field st (Fields.string fieldNo value ++ rest) = res := by
  simp only [Fields.string, Fields.bytes, List.length_eq_zero_iff] at hlen ⊢
  split_ifs at hlen ⊢ with hv he
  · exact hnil (.inl hv)
  · exact hnil (.inr he)
  · exact readMessage_repeatedString hn hf hlen (hnext hv he)

theorem readMessage_message {α : Type} {decode : Reader → Except Err α} {set : α → σ}
    {value : Bytes} {a : α} (hn : fieldNo < 2 ^ 28)
    (hf : field st fieldNo = some (.message fun r => do return set (← decode r)))
    (hlen : (Fields.len fieldNo value).length ≤ maxArrayLength) (hdecode : decode value = .ok a)
    (hnext : readMessage field (set a) rest = res) :
    readMessage field st (Fields.len fieldNo value ++ rest) = res := by
  refine readMessage_len hn hf ?_ hnext
  have := Fields.length_le_len fieldNo value
  rw [FieldReader.read, Reader.bytes_append (by omega)]
  simp only [ok_bind, hdecode, pure_eq_ok]

/-- A repeated field: the elements are added one after the other, each as it arrives. -/
theorem readMessage_repeated {α β : Type} {enc : α → Bytes} (got : α → β) (set : List β → σ)
    {l : List α} (hnil : set [] = st)
    (h : ∀ pre a rest, a ∈ l →
      readMessage field (set pre) (enc a ++ rest) = readMessage field (set (pre ++ [got a])) rest)
    (hnext : readMessage field (set (l.map got)) rest = res) :
    readMessage field st (l.flatMap enc ++ rest) = res := by
  suffices H : ∀ (pre : List β) (suf : List α), (∀ a ∈ suf, a ∈ l) →
      readMessage field (set pre) (suf.flatMap enc ++ rest) =
        readMessage field (set (pre ++ suf.map got)) rest by
    rw [← hnil, H [] l fun _ ha => ha, List.nil_append, hnext]
  intro pre suf hsuf
  induction suf generalizing pre with
  | nil => simp
  | cons a suf ih =>
    rw [List.flatMap_cons, List.append_assoc, h _ _ _ (hsuf a List.mem_cons_self),
      ih _ fun b hb => hsuf b (List.mem_cons_of_mem _ hb), List.append_assoc, List.singleton_append,
      List.map_cons]

theorem readMessage_opt {α β : Type} {enc : α → Bytes} (got : α → β) (set : Option β → σ)
    {o : Option α} (hnone : set none = st)
    (h : ∀ a, o = some a →
      readMessage field st (enc a ++ rest) = readMessage field (set (some (got a))) rest)
    (hnext : readMessage field (set (o.map got)) rest = res) :
    readMessage field st (Fields.opt enc o ++ rest) = res := by
  cases o with
  | none => rwa [Option.map_none, hnone] at hnext
  | some a => rw [← hnext]; exact h a rfl

end

end Tephra
