import Tephra.Proto.Reader

/-!
# The varint codec

What `Writer.varintBig` appends, `Reader.varintBig` reads back modulo `2 ^ 64`, and the fast path
`Writer.varint` appends the same.  The writer's loops run until the number has less than eight bits;
the bounds on their turns in the model are never reached.

* `varintBigLoop_fuel`, `varintLoop_fuel` : a larger bound makes no difference.
* `varint_codec` : the round trip, the bound on the length, and that the code is prefix-free.
-/

namespace Tephra

open Lib

/-- What `varintBig` appends. -/
def varintBytes (value : ℤ) : Bytes := (Writer.init.varintBig value).finish

theorem varintBytes_eq (value : ℤ) : varintBytes value = Base128.encode (u64 value) := by
  rw [varintBytes, Writer.finish_varintBig, Writer.finish_init, List.nil_append]

theorem length_varintBytes (value : ℤ) : (varintBytes value).length ≤ 10 := by
  rw [varintBytes_eq]
  exact Base128.length_encode_le ((u64_lt value).trans (by norm_num))

theorem varintBytes_prefix_free {x y : ℤ} (h : varintBytes x <+: varintBytes y) :
    varintBytes x = varintBytes y := by
  rw [varintBytes_eq, varintBytes_eq] at h ⊢
  rw [Base128.encode_prefix_free h]

namespace Writer

/-- The loop of `varintBig` ends by itself. -/
theorem varintBigLoop_fuel {fuel fuel' : ℕ} {w : Writer} {v : ℕ} (h : v < 128 ^ (fuel + 1))
    (hfuel : fuel ≤ fuel') : varintBigLoop fuel' w v = varintBigLoop fuel w v := by
  induction fuel generalizing fuel' w v with
  | zero =>
    have hsmall : ¬ 0x80 ≤ v := by
      rw [zero_add, pow_one] at h
      omega
    cases fuel' with
    | zero => rfl
    | succ fuel' => rw [varintBigLoop, varintBigLoop, if_neg hsmall]
  | succ fuel ih =>
    obtain ⟨fuel', rfl⟩ := Nat.exists_eq_add_of_lt (Nat.lt_of_succ_le hfuel)
    have hdiv : v >>> 7 < 128 ^ (fuel + 1) := by
      rw [Nat.shiftRight_eq_div_pow, Nat.div_lt_iff_lt_mul (by decide)]
      rwa [pow_succ] at h
    rw [varintBigLoop, varintBigLoop, ih hdiv (by omega)]

/-- The loop of `varint` ends by itself. -/
theorem varintLoop_fuel {fuel : ℕ} {w : Writer} {v : UInt32} (hfuel : 4 ≤ fuel) :
    varintLoop fuel w v = varintLoop 4 w v := by
  have hlt : v.toNat < 128 ^ (4 + 1) := v.toNat_lt.trans (by norm_num)
  rw [varintLoop_eq, varintLoop_eq, varintBigLoop_fuel hlt hfuel]

end Writer

/-- **Varint codec.** -/
theorem varint_codec :
    (∀ (w : Writer) (x : ℤ) (t : Bytes),
      (w.varintBig x).finish = w.finish ++ varintBytes x ∧ (varintBytes x).length ≤ 10 ∧
        Reader.varintBig (varintBytes x ++ t) = .ok ((x % 2 ^ 64).toNat, t)) ∧
      (∀ x y, varintBytes x <+: varintBytes y → varintBytes x = varintBytes y) ∧
      (∀ (w : Writer) (v : ℤ), 0 ≤ v → v < 2 ^ 53 →
        (w.varint v).finish = w.finish ++ varintBytes v) ∧
      ∀ (w : Writer) (x : ℤ) (v : UInt32) (fuel : ℕ),
        (9 ≤ fuel → Writer.varintBigLoop fuel w (u64 x) = w.varintBig x) ∧
          (4 ≤ fuel → Writer.varintLoop fuel w v = Writer.varintLoop 4 w v) := by
  refine ⟨fun w x t => ⟨?_, length_varintBytes x, ?_⟩, fun x y => varintBytes_prefix_free,
    fun w v _ _ => ?_, fun w x v fuel => ⟨fun hfuel => ?_, Writer.varintLoop_fuel⟩⟩
  · rw [Writer.finish_varintBig, varintBytes_eq]
  · rw [varintBytes_eq, Reader.varintBig_encode, Nat.mod_eq_of_lt (u64_lt x), u64]
  · rw [Writer.finish_varint, varintBytes_eq]
  · exact Writer.varintBigLoop_fuel ((u64_lt x).trans (by norm_num)) hfuel

/-- A negative number takes ten bytes and comes back as its remainder. -/
theorem varint_codec_neg :
    varintBytes (-1) = [255, 255, 255, 255, 255, 255, 255, 255, 255, 1] ∧
      Reader.varintBig (varintBytes (-1) ++ [7]) = .ok (2 ^ 64 - 1, [7]) ∧
      (Writer.init.varint 300).finish = varintBytes 300 :=
  ⟨by decide +kernel, (varint_codec.1 Writer.init (-1) [7]).2.2,
    varint_codec.2.2.1 Writer.init 300 (by decide) (by decide)⟩

end Tephra
