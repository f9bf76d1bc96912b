import Mathlib

/-!
# Base-128 varints

A natural number is written seven bits at a time, least significant group first; every byte but
the last has its top bit set.  `encode` is the shortest such form; `decode?` reads one number off
the front of a byte list, accepting any form, and returns what follows it.

* `decode?_encode_append` : reading back what was written, whatever follows.
* `length_encode_le` : a number below `128 ^ k` takes at most `k` bytes (for `k > 0`).
* `decode?_append`, `exists_of_decode?` : a read takes one number off the front and no more.
* `encode_prefix_free` : no encoding is a proper prefix of another.
-/

namespace Lib

namespace Base128

/-- The shortest base-128 form. -/
def encode (v : ℕ) : List UInt8 :=
  if v < 128 then [UInt8.ofNat v] else UInt8.ofNat (v % 128 + 128) :: encode (v / 128)

/-- Read a number and what follows it; `none` when the bytes end before the last group. -/
def decode? : List UInt8 → Option (ℕ × List UInt8)
  | [] => none
  | b :: bs =>
    if b.toNat < 128 then some (b.toNat, bs)
    else (decode? bs).map fun r => (b.toNat - 128 + 128 * r.1, r.2)

theorem encode_of_lt {v : ℕ} (h : v < 128) : encode v = [UInt8.ofNat v] := by
  rw [encode, if_pos h]

theorem encode_of_le {v : ℕ} (h : 128 ≤ v) :
    encode v = UInt8.ofNat (v % 128 + 128) :: encode (v / 128) := by
  rw [encode, if_neg (by omega)]

theorem encode_ne_nil (v : ℕ) : encode v ≠ [] := by
  rw [encode]
  split_ifs <;> simp

theorem toNat_last {v : ℕ} (h : v < 128) : (UInt8.ofNat v).toNat = v := by
  rw [UInt8.toNat_ofNat']
  omega

theorem toNat_more (v : ℕ) : (UInt8.ofNat (v % 128 + 128)).toNat = v % 128 + 128 := by
  rw [UInt8.toNat_ofNat']
  omega

/-- **Reading back what was written**, whatever follows. -/
theorem decode?_encode_append (v : ℕ) (t : List UInt8) :
    decode? (encode v ++ t) = some (v, t) := by
  induction v using Nat.strongRecOn with
  | ind v ih =>
    by_cases h : v < 128
    · simp [encode_of_lt h, decode?, toNat_last h, h]
    · rw [encode_of_le (by omega), List.cons_append, decode?, toNat_more, if_neg (by omega),
        ih (v / 128) (by omega)]
      simp only [Option.map_some, Option.some.injEq, Prod.mk.injEq, and_true]
      omega

/-- No encoding is a proper prefix of another. -/
theorem encode_prefix_free {v w : ℕ} (h : encode v <+: encode w) : v = w := by
  obtain ⟨t, ht⟩ := h
  have hv := decode?_encode_append v t
  have hw := decode?_encode_append w []
  rw [List.append_nil, ← ht, hv, Option.some.injEq, Prod.mk.injEq] at hw
  exact hw.1

theorem length_encode_le {k : ℕ} : ∀ {v : ℕ}, v < 128 ^ (k + 1) → (encode v).length ≤ k + 1 := by
  induction k with
  | zero => intro v h; simp [encode_of_lt (by simpa using h : v < 128)]
  | succ k ih =>
    intro v h
    by_cases hv : v < 128
    · simp [encode_of_lt hv]
    · rw [encode_of_le (by omega), List.length_cons]
      have hdiv : v / 128 < 128 ^ (k + 1) := by
        rw [Nat.div_lt_iff_lt_mul (by omega)]
        rwa [pow_succ] at h
      have := ih hdiv
      omega

theorem length_encode_pos (v : ℕ) : 0 < (encode v).length :=
  List.length_pos_iff.2 (encode_ne_nil v)

theorem length_lt_of_decode? {bs rest : List UInt8} {v : ℕ} (h : decode? bs = some (v, rest)) :
    rest.length < bs.length := by
  induction bs generalizing v with
  | nil => cases h
  | cons b bs ih =>
    rw [decode?] at h
    split_ifs at h with hb
    · cases h; simp
    · simp only [Option.map_eq_some_iff, Prod.mk.injEq] at h
      obtain ⟨⟨w, rest'⟩, hw, -, hr⟩ := h
      obtain rfl : rest' = rest := hr
      have := ih hw
      simp only [List.length_cons]
      omega

/-- A read does not look at what follows the number. -/
theorem decode?_append {bs rest : List UInt8} {v : ℕ} (h : decode? bs = some (v, rest))
    (t : List UInt8) : decode? (bs ++ t) = some (v, rest ++ t) := by
  induction bs generalizing v with
  | nil => cases h
  | cons b bs ih =>
    rw [decode?] at h
    rw [List.cons_append, decode?]
    split_ifs at h ⊢ with hb
    · cases h; rfl
    · simp only [Option.map_eq_some_iff, Prod.mk.injEq] at h
      obtain ⟨⟨w, rest'⟩, hw, hv, hr⟩ := h
      obtain rfl : rest' = rest := hr
      rw [ih hw, ← hv]
      rfl

/-- A read takes a number off the front. -/
theorem exists_of_decode? {bs rest : List UInt8} {v : ℕ} (h : decode? bs = some (v, rest)) :
    ∃ n, bs = n ++ rest ∧ decode? n = some (v, []) := by
  induction bs generalizing v with
  | nil => cases h
  | cons b bs ih =>
    rw [decode?] at h
    split_ifs at h with hb
    · cases h
      exact ⟨[b], rfl, by rw [decode?, if_pos hb]⟩
    · simp only [Option.map_eq_some_iff, Prod.mk.injEq] at h
      obtain ⟨⟨w, rest'⟩, hw, hv, hr⟩ := h
      obtain rfl : rest' = rest := hr
      obtain ⟨n, rfl, hn⟩ := ih hw
      refine ⟨b :: n, rfl, ?_⟩
      rw [decode?, if_neg hb, hn, ← hv]
      rfl

end Base128

end Lib
