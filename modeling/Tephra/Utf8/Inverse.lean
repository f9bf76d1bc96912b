import Tephra.Utf8
import Tephra.Proto.Fields

/-!
# What the text codec gives back

`TextDecoder` undoes `TextEncoder` on strings without lone surrogates, but for one code unit: a byte
order mark in front of the text is taken for a signature of the encoding and dropped.

* `decodeFrom_flatMap` : the automaton reads back any list of scalar values.
* `flatMap_utf16_scalars` : a well-formed string is its scalar values, written as UTF-16.
* `survives_iff` : a well-formed string comes back exactly when it does not begin with U+FEFF.
-/

namespace Tephra

namespace Utf8

/-- A Unicode scalar value: a code point that is no surrogate. -/
def IsScalar (c : ℕ) : Prop := c < 0xd800 ∨ 0xe000 ≤ c ∧ c < 0x110000

/-- Well-formed Unicode: no surrogate stands alone. -/
def wellFormed : JsString → Bool
  | [] => true
  | [c] => !isHigh c && !isLow c
  | c :: d :: s =>
    if isHigh c && isLow d then wellFormed s else !isHigh c && !isLow c && wellFormed (d :: s)

theorem isHigh_iff {c : UInt16} : isHigh c = true ↔ 0xd800 ≤ c.toNat ∧ c.toNat ≤ 0xdbff := by
  simp [isHigh, UInt16.le_iff_toNat_le]

theorem isLow_iff {c : UInt16} : isLow c = true ↔ 0xdc00 ≤ c.toNat ∧ c.toNat ≤ 0xdfff := by
  simp [isLow, UInt16.le_iff_toNat_le]

/-! ### Reading scalar values back -/

theorem first_ascii {b : ℕ} (h : b < 0x80) : first b = (.idle, [b]) := if_pos h

theorem first_two {x : ℕ} (h₀ : 2 ≤ x) (h : x < 0x20) :
    first (0xc0 + x) = (⟨x, 1, 0x80, 0xbf⟩, []) := by
  rw [first, if_neg (by omega), if_pos (by omega), show (0xc0 + x) % 0x20 = x by omega]

theorem first_three {x : ℕ} (h : x < 0x10) :
    first (0xe0 + x) =
      (⟨x, 2, if x = 0 then 0xa0 else 0x80, if x = 0xd then 0x9f else 0xbf⟩, []) := by
  rw [first, if_neg (by omega), if_neg (by omega), if_pos (by omega),
    show (0xe0 + x) % 0x10 = x by omega]
  simp only [show 0xe0 + x = 0xe0 ↔ x = 0 by omega, show 0xe0 + x = 0xed ↔ x = 0xd by omega]

theorem first_four {x : ℕ} (h : x ≤ 4) :
    first (0xf0 + x) =
      (⟨x, 3, if x = 0 then 0x90 else 0x80, if x = 4 then 0x8f else 0xbf⟩, []) := by
  rw [first, if_neg (by omega), if_neg (by omega), if_neg (by omega), if_pos (by omega),
    show (0xf0 + x) % 0x08 = x by omega]
  simp only [show 0xf0 + x = 0xf0 ↔ x = 0 by omega, show 0xf0 + x = 0xf4 ↔ x = 4 by omega]

theorem next_idle (b : ℕ) : next .idle b = first b := if_pos rfl

theorem next_more {cp n lower upper x : ℕ} (hx : x < 0x40) (hl : lower ≤ 0x80 + x)
    (hu : 0x80 + x ≤ upper) :
    next ⟨cp, n + 2, lower, upper⟩ (0x80 + x) = (⟨cp * 0x40 + x, n + 1, 0x80, 0xbf⟩, []) := by
  have hmod : (0x80 + x) % 0x40 = x := by omega
  rw [next, if_neg (by simp), if_neg (by simp only; omega), if_neg (by simp), hmod]
  rfl

theorem next_last {cp lower upper x : ℕ} (hx : x < 0x40) (hl : lower ≤ 0x80 + x)
    (hu : 0x80 + x ≤ upper) :
    next ⟨cp, 1, lower, upper⟩ (0x80 + x) = (.idle, [cp * 0x40 + x]) := by
  have hmod : (0x80 + x) % 0x40 = x := by omega
  rw [next, if_neg (by simp), if_neg (by simp only; omega), if_pos rfl, hmod]

theorem decodeFrom_ofNat {st st' : State} {out : List ℕ} {b : ℕ} (hb : b < 256)
    (h : next st b = (st', out)) (bs : Bytes) :
    decodeFrom st (UInt8.ofNat b :: bs) = out ++ decodeFrom st' bs := by
  rw [decodeFrom, UInt8.toNat_ofNat', Nat.mod_eq_of_lt hb, h]

/-- The automaton reads one scalar value back, whatever follows it. -/
theorem decodeFrom_encodeScalar {c : ℕ} (hc : IsScalar c) (bs : Bytes) :
    decodeFrom .idle (encodeScalar c ++ bs) = c :: decodeFrom .idle bs := by
  unfold IsScalar at hc
  unfold encodeScalar
  split_ifs with h₁ h₂ h₃
  · have hnext : next .idle c = (.idle, [c]) := by rw [next_idle, first_ascii h₁]
    exact decodeFrom_ofNat (by omega) hnext bs
  · simp only [List.cons_append, List.nil_append]
    rw [decodeFrom_ofNat (by omega) (by rw [next_idle, first_two (by omega) (by omega)]),
      decodeFrom_ofNat (by omega) (next_last (by omega) (by omega) (by omega))]
    simp only [List.nil_append, List.cons_append, List.cons.injEq, and_true]
    omega
  · simp only [List.cons_append, List.nil_append]
    -- the bounds on the second byte leave out the overlong forms and the surrogates
    rw [decodeFrom_ofNat (by omega) (by rw [next_idle, first_three (by omega)]),
      decodeFrom_ofNat (by omega)
        (next_more (by omega) (by split_ifs <;> omega) (by split_ifs <;> omega)),
      decodeFrom_ofNat (by omega) (next_last (by omega) (by omega) (by omega))]
    simp only [List.nil_append, List.cons_append, List.cons.injEq, and_true]
    omega
  · simp only [List.cons_append, List.nil_append]
    -- here they leave out the overlong forms and what is above U+10FFFF
    rw [decodeFrom_ofNat (by omega) (by rw [next_idle, first_four (by omega)]),
      decodeFrom_ofNat (by omega)
        (next_more (by omega) (by split_ifs <;> omega) (by split_ifs <;> omega)),
      decodeFrom_ofNat (by omega) (next_more (by omega) (by omega) (by omega)),
      decodeFrom_ofNat (by omega) (next_last (by omega) (by omega) (by omega))]
    simp only [List.nil_append, List.cons_append, List.cons.injEq, and_true]
    omega

theorem decodeFrom_flatMap {cs : List ℕ} (h : ∀ c ∈ cs, IsScalar c) :
    decodeFrom .idle (cs.flatMap encodeScalar) = cs := by
  induction cs with
  | nil => rfl
  | cons c cs ih =>
    rw [List.flatMap_cons, decodeFrom_encodeScalar (h c List.mem_cons_self),
      ih fun c' hc' => h c' (List.mem_cons_of_mem _ hc')]

/-! ### Strings and scalar values -/

theorem isScalar_replace (c : UInt16) :
    IsScalar (if isHigh c || isLow c then 0xfffd else c.toNat) := by
  have hc := c.toNat_lt
  unfold IsScalar
  split_ifs with h
  · omega
  · simp only [Bool.or_eq_true, isHigh_iff, isLow_iff] at h
    omega

theorem isScalar_of_mem_scalars {s : JsString} {c : ℕ} (h : c ∈ scalars s) : IsScalar c := by
  fun_induction scalars s with
  | case1 => cases h
  | case2 a =>
    rw [List.mem_singleton.1 h]
    exact isScalar_replace a
  | case3 a d s hpair ih =>
    rw [Bool.and_eq_true, isHigh_iff, isLow_iff] at hpair
    rw [List.mem_cons] at h
    obtain h | h := h
    · unfold IsScalar; omega
    · exact ih h
  | case4 a d s hpair ih =>
    rcases List.mem_cons.1 h with rfl | h
    · exact isScalar_replace a
    · exact ih h

theorem utf16_toNat (c : UInt16) : utf16 c.toNat = [c] := by
  have hc := c.toNat_lt
  rw [utf16, if_pos (by omega), UInt16.ofNat_toNat]

/-- The code units of a supplementary scalar value are the surrogates it was read from. -/
theorem utf16_pair {c d : UInt16} (hc : isHigh c = true) (hd : isLow d = true) :
    utf16 (0x10000 + (c.toNat - 0xd800) * 0x400 + (d.toNat - 0xdc00)) = [c, d] := by
  rw [isHigh_iff] at hc
  rw [isLow_iff] at hd
  have hhigh :
      0xd800 + (0x10000 + (c.toNat - 0xd800) * 0x400 + (d.toNat - 0xdc00) - 0x10000) / 0x400
      = c.toNat := by omega
  have hlow : 0xdc00 + (0x10000 + (c.toNat - 0xd800) * 0x400 + (d.toNat - 0xdc00) - 0x10000) % 0x400
      = d.toNat := by omega
  rw [utf16, if_neg (by omega), hhigh, hlow, UInt16.ofNat_toNat, UInt16.ofNat_toNat]

/-- A well-formed string is its scalar values, written as UTF-16. -/
theorem flatMap_utf16_scalars {s : JsString} (h : wellFormed s = true) :
    (scalars s).flatMap utf16 = s := by
  fun_induction scalars s with
  | case1 => rfl
  | case2 c =>
    simp only [wellFormed, Bool.and_eq_true, Bool.not_eq_true'] at h
    simp [h.1, h.2, utf16_toNat]
  | case3 c d s hpair ih =>
    rw [wellFormed, if_pos hpair] at h
    rw [Bool.and_eq_true] at hpair
    rw [List.flatMap_cons, utf16_pair hpair.1 hpair.2, ih h]
    rfl
  | case4 c d s hpair ih =>
    rw [wellFormed, if_neg hpair] at h
    simp only [Bool.and_eq_true, Bool.not_eq_true'] at h
    rw [List.flatMap_cons, ih h.2, h.1.1, h.1.2]
    simp [utf16_toNat]

/-- A code unit that is no surrogate is a scalar value of its own. -/
theorem scalars_cons {c : UInt16} (hhigh : isHigh c = false) (hlow : isLow c = false)
    (s : JsString) : scalars (c :: s) = c.toNat :: scalars s := by
  cases s with
  | nil => simp [scalars, hhigh, hlow]
  | cons d s => simp [scalars, hhigh, hlow]

theorem stripBom_of_head?_ne {cs : List ℕ} (h : cs.head? ≠ some 0xfeff) : stripBom cs = cs := by
  unfold stripBom
  split
  · exact absurd rfl h
  · rfl

/-! ### The codec -/

/-- What is decoded of an encoded string, lone surrogates or not. -/
theorem utf8Codec_decode_encode (s : JsString) :
    utf8Codec.decode (utf8Codec.encode s) = (stripBom (scalars s)).flatMap utf16 := by
  show (stripBom (decodeFrom .idle ((scalars s).flatMap encodeScalar))).flatMap utf16 = _
  rw [decodeFrom_flatMap fun c hc => isScalar_of_mem_scalars hc]

theorem head?_scalars_eq_bom {s : JsString} (h : wellFormed s = true) :
    (scalars s).head? = some 0xfeff ↔ s.head? = some 0xfeff := by
  constructor
  · intro hhead
    obtain ⟨cs, hcs⟩ := List.head?_eq_some_iff.1 hhead
    have hs := flatMap_utf16_scalars h
    rw [hcs, List.flatMap_cons] at hs
    rw [← hs]
    rfl
  · intro hhead
    obtain ⟨t, rfl⟩ := List.head?_eq_some_iff.1 hhead
    rw [scalars_cons (by decide) (by decide)]
    rfl

/-- **A well-formed string comes back** exactly when it does not begin with a byte order mark. -/
theorem survives_iff {s : JsString} (h : wellFormed s = true) :
    @Survives utf8Codec s ↔ s.head? ≠ some 0xfeff := by
  have hdecode :
      @decodeUtf8 utf8Codec (@encodeUtf8 utf8Codec s) = (stripBom (scalars s)).flatMap utf16 :=
    utf8Codec_decode_encode s
  have hsurvives : @Survives utf8Codec s ↔ (stripBom (scalars s)).flatMap utf16 = s := by
    rw [← hdecode]; rfl
  rw [hsurvives]
  by_cases hbom : s.head? = some 0xfeff
  · -- what is left is shorter by the mark
    obtain ⟨t, rfl⟩ := List.head?_eq_some_iff.1 hbom
    have hs := flatMap_utf16_scalars h
    rw [scalars_cons (by decide) (by decide)] at hs ⊢
    rw [List.flatMap_cons, utf16_toNat, List.singleton_append, List.cons.injEq] at hs
    refine iff_of_false ?_ fun hne => hne hbom
    intro heq
    have hlen := congrArg List.length (hs.2.symm.trans heq)
    simp at hlen
  · rw [stripBom_of_head?_ne fun hhead => hbom ((head?_scalars_eq_bom h).1 hhead)]
    exact iff_of_true (flatMap_utf16_scalars h) hbom

end Utf8

end Tephra
