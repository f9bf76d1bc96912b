import Tephra.Proto.Writer

/-!
# The protobuf reader

`Reader` is a cursor over a message body.  Only the unread bytes matter, so it is the list of
these; a cursor moved past the end by `skip` is the empty list, since all that is asked of it then
is `done`.

Every decoder of `messages.ts` is one loop: read a tag, read the field if its number is known,
skip it otherwise.  `readMessage` is that loop; what differs between messages is the table that
says how each known field is read (`FieldReader`) and where its value goes.  `readMessage_of_ne_nil`
is one turn of it, free of the bound on the number of turns.
-/

namespace Tephra

open Lib

/-- The unread bytes of a message body. -/
abbrev Reader := Bytes

namespace Reader

/-- The loop of `varintBig`. -/
def varintLoop : Reader → ℕ → ℕ → Except Err (ℕ × Reader)
  | [], _, _ => .error (.range "varint truncated")
  | byte :: r, result, shift =>
    let result := result ||| ((byte.toNat &&& 0x7f) <<< shift)
    if byte.toNat &&& 0x80 = 0 then .ok (result &&& (2 ^ 64 - 1), r)
    else varintLoop r result (shift + 7)

/-- `varintBig`. -/
def varintBig (r : Reader) : Except Err (ℕ × Reader) := varintLoop r 0 0

/-- `tag`: the field number and the wire type. -/
def tag (r : Reader) : Except Err ((ℕ × ℕ) × Reader) := do
  let (v, r) ← r.varintBig
  let key := toUint32 (toNumber v)
  return ((key >>> 3, key &&& 0x7), r)

/-- `varint`. -/
def varint (r : Reader) : Except Err (ℤ × Reader) := do
  let (v, r) ← r.varintBig
  return (toNumber v, r)

/-- `bool`. -/
def bool (r : Reader) : Except Err (Bool × Reader) := do
  let (v, r) ← r.varintBig
  return (v != 0, r)

/-- `bytes`. -/
def bytes (r : Reader) : Except Err (Bytes × Reader) := do
  let (v, r) ← r.varintBig
  let len := toNumber v
  if len > r.length then throw (.range "length-delimited field truncated")
  return (r.take len, r.drop len)

/-- `skip`. -/
def skip (r : Reader) (wireType : ℕ) : Except Err Reader :=
  if wireType = wireVarint then do
    let (_, r) ← r.varintBig
    return r
  else if wireType = wireFixed64 then return r.drop 8
  else if wireType = wireLen then do
    let (v, r) ← r.varintBig
    return r.drop (toNumber v)
  else if wireType = wireFixed32 then return r.drop 4
  else throw (.range s!"unsupported wire type {wireType}")

end Reader

/-- How a known field is read, and the message that results. -/
inductive FieldReader (σ : Type)
  /-- `r.varintBig()`. -/
  | varintBig (set : ℤ → σ)
  /-- `r.varint()`. -/
  | varint (set : ℤ → σ)
  /-- `r.bool()`. -/
  | bool (set : Bool → σ)
  /-- `r.string()`. -/
  | string (set : JsString → σ)
  /-- `r.bytes()`. -/
  | bytes (set : Bytes → σ)
  /-- `r.message()` and the decoder of the embedded message. -/
  | message (set : Reader → Except Err σ)

section

variable [TextCodec] {σ : Type}

/-- Read one field. -/
def FieldReader.read (r : Reader) : FieldReader σ → Except Err (σ × Reader)
  | .varintBig set => do
    let (v, r) ← r.varintBig
    return (set v, r)
  | .varint set => do
    let (v, r) ← r.varint
    return (set v, r)
  | .bool set => do
    let (v, r) ← r.bool
    return (set v, r)
  | .string set => do
    let (v, r) ← r.bytes
    return (set (decodeUtf8 v), r)
  | .bytes set => do
    let (v, r) ← r.bytes
    return (set v, r)
  | .message set => do
    let (v, r) ← r.bytes
    let st ← set v
    return (st, r)

/-- The loop of a decoder, for at most `fuel` fields. -/
def readLoop (field : σ → ℕ → Option (FieldReader σ)) : ℕ → σ → Reader → Except Err σ
  | _, st, [] => .ok st
  | 0, _, _ :: _ => .error (.native "Error" [])
  | fuel + 1, st, b :: r => do
    let ((fieldNo, wireType), r) ← Reader.tag (b :: r)
    match field st fieldNo with
    | some f =>
      let (st, r) ← f.read r
      readLoop field fuel st r
    | none =>
      let r ← r.skip wireType
      readLoop field fuel st r

/-- Decode a message body, starting from its defaults.  Every field takes at least one byte, so
the length of the body bounds the number of fields. -/
def readMessage (field : σ → ℕ → Option (FieldReader σ)) (st : σ) (r : Reader) : Except Err σ :=
  readLoop field r.length st r

end

/-! ### Every read consumes -/

namespace Reader

theorem and_group (b : UInt8) : b.toNat &&& 0x7f = b.toNat % 128 :=
  Nat.and_two_pow_sub_one_eq_mod b.toNat 7

theorem and_more (b : UInt8) : b.toNat &&& 0x80 = 0 ↔ b.toNat < 128 := by
  have h : ∀ i : Fin 256, i.val &&& 0x80 = 0 ↔ i.val < 128 := by decide +kernel
  exact h ⟨b.toNat, b.toNat_lt⟩

theorem varintLoop_eq {r : Reader} {result shift : ℕ} (h : result < 2 ^ shift) :
    varintLoop r result shift =
      match Base128.decode? r with
      | some (v, rest) => .ok ((result + 2 ^ shift * v) % 2 ^ 64, rest)
      | none => .error (.range "varint truncated") := by
  induction r generalizing result shift with
  | nil => rfl
  | cons b r ih =>
    have hor : result ||| ((b.toNat % 128) <<< shift) = result + 2 ^ shift * (b.toNat % 128) := by
      rw [Nat.shiftLeft_eq, mul_comm, Nat.or_comm, ← Nat.two_pow_add_eq_or_of_lt h, add_comm]
    rw [varintLoop, Base128.decode?, and_group, hor]
    simp only [and_more, Nat.and_two_pow_sub_one_eq_mod]
    have hb := b.toNat_lt
    split_ifs with hlt
    · rw [Nat.mod_eq_of_lt (show b.toNat < 128 from hlt)]
    · have hnext : result + 2 ^ shift * (b.toNat % 128) < 2 ^ (shift + 7) := by
        have : 2 ^ shift * (b.toNat % 128) ≤ 2 ^ shift * 127 := Nat.mul_le_mul_left _ (by omega)
        rw [pow_add]
        omega
      rw [ih hnext]
      cases Base128.decode? r with
      | none => rfl
      | some p =>
        obtain ⟨v, rest⟩ := p
        have hsum : result + 2 ^ shift * (b.toNat % 128) + 2 ^ (shift + 7) * v =
            result + 2 ^ shift * (b.toNat - 128 + 128 * v) := by
          rw [show b.toNat % 128 = b.toNat - 128 by omega]
          ring
        simp only [Option.map_some, hsum]

theorem varintBig_eq (r : Reader) :
    r.varintBig =
      match Base128.decode? r with
      | some (v, rest) => .ok (v % 2 ^ 64, rest)
      | none => .error (.range "varint truncated") := by
  rw [varintBig, varintLoop_eq (by simp)]
  simp only [pow_zero, one_mul, zero_add]

/-- **A written varint reads back**, whatever follows it. -/
theorem varintBig_encode (v : ℕ) (r : Reader) :
    varintBig (Base128.encode v ++ r) = .ok (v % 2 ^ 64, r) := by
  rw [varintBig_eq, Base128.decode?_encode_append]

theorem length_varintBig {r r' : Reader} {v : ℕ} (h : r.varintBig = .ok (v, r')) :
    r'.length < r.length := by
  rw [varintBig_eq] at h
  cases hd : Base128.decode? r with
  | none => rw [hd] at h; cases h
  | some p =>
    obtain ⟨w, rest⟩ := p
    rw [hd] at h
    cases h
    exact Base128.length_lt_of_decode? hd

theorem length_bytes {r r' : Reader} {v : Bytes} (h : r.bytes = .ok (v, r')) :
    r'.length < r.length := by
  obtain ⟨⟨n, r₁⟩, hv, h⟩ := bind_eq_ok.1 h
  have := length_varintBig hv
  simp only at h
  split_ifs at h
  · cases h
  · cases h
    simp only [List.length_drop]
    omega

theorem length_tag {r r' : Reader} {k : ℕ × ℕ} (h : r.tag = .ok (k, r')) :
    r'.length < r.length := by
  obtain ⟨⟨n, r₁⟩, hv, h⟩ := bind_eq_ok.1 h
  cases h
  exact length_varintBig hv

theorem length_skip {r r' : Reader} {wireType : ℕ} (h : r.skip wireType = .ok r') :
    r'.length ≤ r.length := by
  unfold skip at h
  split_ifs at h
  · obtain ⟨⟨n, r₁⟩, hv, h⟩ := bind_eq_ok.1 h
    cases h
    exact (length_varintBig hv).le
  · cases h; simp
  · obtain ⟨⟨n, r₁⟩, hv, h⟩ := bind_eq_ok.1 h
    have := length_varintBig hv
    cases h
    simp only [List.length_drop]
    omega
  · cases h; simp

end Reader

section

variable [TextCodec] {σ : Type}

theorem FieldReader.length_read {f : FieldReader σ} {r r' : Reader} {st : σ}
    (h : f.read r = .ok (st, r')) : r'.length ≤ r.length := by
  cases f with
  | varintBig set =>
    obtain ⟨p, hv, h⟩ := bind_eq_ok.1 h
    cases h
    exact (Reader.length_varintBig hv).le
  | varint set | bool set =>
    obtain ⟨p, hp, h⟩ := bind_eq_ok.1 h
    obtain ⟨q, hv, hp⟩ := bind_eq_ok.1 hp
    cases hp; cases h
    exact (Reader.length_varintBig hv).le
  | string set | bytes set =>
    obtain ⟨p, hv, h⟩ := bind_eq_ok.1 h
    cases h
    exact (Reader.length_bytes hv).le
  | message set =>
    obtain ⟨p, hv, h⟩ := bind_eq_ok.1 h
    obtain ⟨st', -, h⟩ := bind_eq_ok.1 h
    cases h
    exact (Reader.length_bytes hv).le

/-- Any bound at least the number of bytes gives the same result. -/
theorem readLoop_fuel {field : σ → ℕ → Option (FieldReader σ)} {fuel : ℕ} {st : σ} {r : Reader}
    (h : r.length ≤ fuel) : readLoop field fuel st r = readMessage field st r := by
  -- two bounds that are both large enough read the same
  suffices H : ∀ (n : ℕ) (st : σ) (r : Reader), r.length ≤ n → ∀ m, r.length ≤ m →
      readLoop field n st r = readLoop field m st r from H fuel st r h r.length le_rfl
  intro n
  induction n with
  | zero =>
    intro st r hr m _
    rw [List.length_eq_zero_iff.1 (Nat.le_zero.1 hr)]
    cases m <;> rfl
  | succ n ih =>
    intro st r hr m hm
    cases r with
    | nil => cases m <;> rfl
    | cons b r =>
      cases m with
      | zero => simp at hm
      | succ m =>
        simp only [readLoop, bind, Except.bind]
        simp only [List.length_cons] at hr hm
        cases ht : Reader.tag (b :: r) with
        | error e => rfl
        | ok p =>
          obtain ⟨⟨n', w⟩, r₁⟩ := p
          have h₁ := Reader.length_tag ht
          simp only [List.length_cons] at h₁
          simp only
          cases field st n' with
          | some f =>
            simp only
            cases hf : f.read r₁ with
            | error e => rfl
            | ok q => have := FieldReader.length_read hf; exact ih _ _ (by omega) _ (by omega)
          | none =>
            simp only
            cases hs : r₁.skip w with
            | error e => rfl
            | ok r₂ => have := Reader.length_skip hs; exact ih _ _ (by omega) _ (by omega)

@[simp] theorem readMessage_nil (field : σ → ℕ → Option (FieldReader σ)) (st : σ) :
    readMessage field st [] = .ok st := rfl

/-- One turn of the loop. -/
theorem readMessage_of_ne_nil {field : σ → ℕ → Option (FieldReader σ)} {st : σ} {r : Reader}
    (h : r ≠ []) :
    readMessage field st r = (do
      let ((fieldNo, wireType), r) ← r.tag
      match field st fieldNo with
      | some f =>
        let (st, r) ← f.read r
        readMessage field st r
      | none =>
        let r ← r.skip wireType
        readMessage field st r) := by
  obtain ⟨b, r, rfl⟩ := List.exists_cons_of_ne_nil h
  rw [readMessage, List.length_cons]
  simp only [readLoop, bind, Except.bind]
  cases ht : Reader.tag (b :: r) with
  | error e => rfl
  | ok p =>
    obtain ⟨⟨n, w⟩, r₁⟩ := p
    have h₁ := Reader.length_tag ht
    simp only [List.length_cons] at h₁
    simp only
    cases field st n with
    | some f =>
      simp only
      cases hf : f.read r₁ with
      | error e => rfl
      | ok q => have := FieldReader.length_read hf; exact readLoop_fuel (by omega)
    | none =>
      simp only
      cases hs : r₁.skip w with
      | error e => rfl
      | ok r₂ => have := Reader.length_skip hs; exact readLoop_fuel (by omega)

end

end Tephra
