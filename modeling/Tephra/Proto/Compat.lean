import Tephra.Proto.Schema
import Tephra.Utf8

/-!
# Forward compatibility

A newer server may send fields this client does not know, and any order of fields.  A request or
response body made of regular records (`Msg.WellFormed`) always decodes, and the result does not
change under a `Msg.Change`: records of unknown fields inserted or removed, or neighbouring records
of different fields exchanged, at the top or in any message the decoder descends into.

What the reader's arithmetic has to do with it is `Msg.tags_sound`: a tag of a field number below
`2 ^ 29` is below `2 ^ 32`, which neither the double nor the 32-bit operators disturb, and a length
that fits in a `Uint8Array` is a double.
-/

namespace Tephra

open Lib Records

/-- A number a double cannot hold does not become one that can be a length. -/
theorem le_toNumber {n : ℕ} (h : 2 ^ 53 ≤ n) : 2 ^ 53 ≤ toNumber n := by
  have hn : n ≠ 0 := by omega
  have hlog : 53 ≤ Nat.log2 n := (Nat.le_log2 hn).2 h
  have hexp : 2 ^ 52 * 2 ^ (Nat.log2 n - 52) ≤ n := by
    rw [← pow_add, Nat.add_sub_of_le (by omega)]
    exact Nat.log2_self_le hn
  have hq : 2 ^ 52 ≤ n / 2 ^ (Nat.log2 n - 52) := (Nat.le_div_iff_mul_le (by positivity)).2 hexp
  have htwo : 2 ^ 1 ≤ 2 ^ (Nat.log2 n - 52) := Nat.pow_le_pow_right (by omega) (by omega)
  have hup : ∀ q, n / 2 ^ (Nat.log2 n - 52) ≤ q → 2 ^ 53 ≤ q * 2 ^ (Nat.log2 n - 52) := by
    intro q hle
    exact Nat.mul_le_mul (hq.trans hle) htwo
  rw [toNumber, if_neg (by omega)]
  refine hup _ ?_
  split_ifs
  · exact Nat.le_succ _
  · exact le_rfl

namespace Msg

/-- A length that fits in an array, or is taken for one that does, is read exactly. -/
theorem size_eq {n : ℕ} (h : n ≤ maxArrayLength ∨ tags.size n ≤ maxArrayLength) :
    tags.size n = n := by
  by_cases hn : n < 2 ^ 53
  · exact toNumber_of_lt hn
  · have hmax : maxArrayLength < 2 ^ 53 := by decide
    have := le_toNumber (Nat.le_of_not_lt hn)
    rcases h with h | h
    · omega
    · have : toNumber n ≤ maxArrayLength := h
      omega

theorem number_of_lt {t : ℕ} (h : t < 2 ^ 32) : number t = t / 8 := by
  rw [number, toNumber_of_lt (by omega), toUint32_of_lt h, Nat.shiftRight_eq_div_pow]

theorem wire_of_lt {t : ℕ} (h : t < 2 ^ 32) : tags.wire t = t % 8 := by
  have : tags.wire t = toUint32 (toNumber t) &&& (2 ^ 3 - 1) := rfl
  rw [this, toNumber_of_lt (by omega), toUint32_of_lt h, Nat.and_two_pow_sub_one_eq_mod]

/-- **The reader takes regular tags and lengths for what they are.** -/
theorem tags_sound : tags.Sound schema maxArrayLength where
  known := by
    intro m t k ht hk
    have hlt : t < 2 ^ 32 := by have := ht.2.1; omega
    exact tags_field_eq_some.2 ⟨number_of_lt hlt, hk⟩
  unknown := by
    intro m t ht hk
    have hlt : t < 2 ^ 32 := by have := ht.2.1; omega
    refine ⟨tags_field_eq_none.2 ?_, wire_of_lt hlt⟩
    rw [number_of_lt hlt]
    exact hk
  size := fun hn => size_eq (.inl hn)

/-- A body of regular records that fits in an array. -/
def WellFormed (m : Msg) (b : Bytes) : Prop := RegularBody schema m b ∧ b.length ≤ maxArrayLength

/-- A change of a body into another one that fits in an array. -/
def Change (m : Msg) (b b' : Bytes) : Prop :=
  Step schema oneof m b b' ∧ b'.length ≤ maxArrayLength

variable [TextCodec]

theorem decode_of_acts {m : Msg} {b : Bytes} {e : m.Val → m.Val} (h : Acts format tags m b e) :
    m.decode b = .ok (e m.init) :=
  decode_eq_ok.2 (h.yields m.init)

theorem WellFormed.decodes {m : Msg} {b : Bytes} (h : m.WellFormed b) :
    ∃ x, m.decode b = .ok x := by
  obtain ⟨e, he⟩ := h.1.acts (F := format) tags_sound h.2
  exact ⟨_, decode_of_acts he⟩

theorem Change.decode_eq {m : Msg} {b b' : Bytes} (h : m.Change b b')
    (hlen : b.length ≤ maxArrayLength) : m.decode b' = m.decode b := by
  obtain ⟨e, he, he'⟩ := h.1.acts (F := format) tags_sound format_commutes hlen h.2
  rw [decode_of_acts he, decode_of_acts he']

theorem decode_eq_of_changes {m : Msg} {b b' : Bytes} (hlen : b.length ≤ maxArrayLength)
    (h : Relation.ReflTransGen m.Change b b') : m.decode b' = m.decode b := by
  have hboth : b'.length ≤ maxArrayLength ∧ m.decode b' = m.decode b := by
    induction h with
    | refl => exact ⟨hlen, rfl⟩
    | tail _ hstep ih => exact ⟨hstep.2, (hstep.decode_eq ih.1).trans ih.2⟩
  exact hboth.2

end Msg

/-- **Forward compatibility.**  A well-formed body decodes, and to the same message as any body it
can be changed into. -/
theorem forward_compatible [TextCodec] (b : Bytes) :
    (Msg.request.WellFormed b → ∃ x, decodeRequest b = .ok x ∧
      ∀ b', Relation.ReflTransGen Msg.request.Change b b' → decodeRequest b' = .ok x) ∧
    (Msg.response.WellFormed b → ∃ x, decodeResponse b = .ok x ∧
      ∀ b', Relation.ReflTransGen Msg.response.Change b b' → decodeResponse b' = .ok x) := by
  constructor
  · intro h
    obtain ⟨x, hx⟩ := h.decodes
    exact ⟨x, hx, fun b' hb' => (Msg.decode_eq_of_changes h.2 hb').trans hx⟩
  · intro h
    obtain ⟨x, hx⟩ := h.decodes
    exact ⟨x, hx, fun b' hb' => (Msg.decode_eq_of_changes h.2 hb').trans hx⟩

section

attribute [local instance] utf8Codec

/-- A read after position 5, to which a newer client adds a field. -/
theorem forward_compatible_read :
    ∃ x, decodeRequest [8, 7, 0x1a, 2, 0x10, 5] = .ok x ∧
      decodeRequest [8, 7, 0x1a, 5, 0x10, 5, 0x4a, 1, 0xff] = .ok x := by
  have hbyte : ∀ v : Fin 128, Varint [UInt8.ofNat v.val] v.val := by
    intro v
    refine ⟨by simp, v.val, ?_, Nat.mod_eq_of_lt (by omega)⟩
    rw [← Base128.encode_of_lt v.isLt]
    simpa using Base128.decode?_encode_append v.val []
  have hid : RegularBody Msg.schema .request ([8] ++ [7] ++ []) :=
    .plain ⟨by decide, by decide, by rintro k ⟨⟩; rfl⟩ rfl (hbyte 8) (.varint (hbyte 7)) (.nil _)
  have hafter : RegularBody Msg.schema .readRequest ([0x10] ++ [5] ++ []) :=
    .plain ⟨by decide, by decide, by rintro k ⟨⟩; rfl⟩ rfl (hbyte 0x10) (.varint (hbyte 5)) (.nil _)
  have hread : Msg.schema.Regular .request 0x1a := ⟨by decide, by decide, by rintro k ⟨⟩; rfl⟩
  have hnew : RegularRecord Msg.schema .readRequest 0x4a ([0x4a] ++ ([1] ++ [0xff])) :=
    .plain ⟨by decide, by decide, by intro k hk; cases hk⟩ rfl (hbyte 0x4a) (.len (hbyte 1))
  have hinner : Step Msg.schema Msg.oneof .readRequest _ _ := .insert hafter hnew rfl (.nil _)
  have hchange : Msg.request.Change [8, 7, 0x1a, 2, 0x10, 5]
      [8, 7, 0x1a, 5, 0x10, 5, 0x4a, 1, 0xff] :=
    ⟨.inside hid hread rfl (hbyte 0x1a) (hbyte 2) (hbyte 5) hinner (.nil _), by decide⟩
  have hbody : RegularBody Msg.schema .request
      ([8] ++ [7] ++ ([0x1a] ++ ([2] ++ [0x10, 5]) ++ [])) :=
    .plain ⟨by decide, by decide, by rintro k ⟨⟩; rfl⟩ rfl (hbyte 8) (.varint (hbyte 7))
      (.message hread rfl (hbyte 0x1a) (hbyte 2) hafter (.nil _))
  obtain ⟨x, hx, hsame⟩ := (forward_compatible [8, 7, 0x1a, 2, 0x10, 5]).1 ⟨hbody, by decide⟩
  exact ⟨x, hx, hsame _ (.single hchange)⟩

end

end Tephra
