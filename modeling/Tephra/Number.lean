import Tephra.Platform

/-!
# JavaScript numbers

`JsNumber` is a `number`: a double by its value, where the two zeros are one.  `stringToNumber` is
the conversion `Number(s)` of a string: white space around the literal does not count, nothing at
all is zero, an integer may be binary, octal or hexadecimal, and a decimal may have a fraction and
an exponent and is rounded to the nearest double.

* `stringToNumber_trimEnd` : white space at the end does not count.
* `toDouble_natCast` : natural numbers below `2 ^ 53` are doubles.
* `stringToNumber_digits` : decimal digits are the number they write.
-/

namespace Tephra

/-- A `number`. -/
inductive JsNumber
  | nan
  | infinity (negative : Bool)
  | finite (value : ℚ)
  deriving DecidableEq, Repr

namespace JsNumber

/-- `-x`. -/
def neg : JsNumber → JsNumber
  | nan => nan
  | infinity negative => infinity !negative
  | finite value => finite (-value)

/-- The integer a number is, if it is one; `Number.isInteger` says whether it is. -/
def integer? : JsNumber → Option ℤ
  | finite value => if value.den = 1 then some value.num else none
  | _ => none

end JsNumber

/-! ### Rounding -/

/-- The nearest integer, and of two the even one. -/
def roundHalfEven (q : ℚ) : ℤ :=
  let n := ⌊q⌋
  if q - n < 1 / 2 then n else if 1 / 2 < q - n then n + 1 else n + n % 2

/-- The double nearest to a non-negative number: 53 significant bits, none of them worth less than
`2 ^ (-1074)`. -/
def toDouble (q : ℚ) : JsNumber :=
  let e := max (Int.log 2 q - 52) (-1074)
  let v := roundHalfEven (q / 2 ^ e) * (2 : ℚ) ^ e
  if 2 ^ 1024 ≤ v then .infinity false else .finite v

theorem roundHalfEven_intCast (n : ℤ) : roundHalfEven (n : ℚ) = n := by
  rw [roundHalfEven, Int.floor_intCast]
  norm_num

/-- Natural numbers below `2 ^ 53` are doubles. -/
theorem toDouble_natCast {n : ℕ} (h : n < 2 ^ 53) : toDouble n = .finite n := by
  have hlog : Int.log 2 (n : ℚ) ≤ 52 := by
    rcases Nat.eq_zero_or_pos n with rfl | hpos
    · simp
    · have hlt : (n : ℚ) < ((2 : ℕ) : ℚ) ^ (53 : ℤ) := by exact_mod_cast h
      have := (Int.lt_zpow_iff_log_lt (by norm_num) (by exact_mod_cast hpos)).1 hlt
      omega
  obtain ⟨k, hk⟩ : ∃ k : ℕ, max (Int.log 2 (n : ℚ) - 52) (-1074) = -(k : ℤ) :=
    ⟨(-max (Int.log 2 (n : ℚ) - 52) (-1074)).toNat, by omega⟩
  -- scaled up by a power of two, an integer stays one
  have hscaled : (n : ℚ) / 2 ^ (-(k : ℤ)) = ((n * 2 ^ k : ℤ) : ℚ) := by
    rw [zpow_neg, div_inv_eq_mul, zpow_natCast]
    push_cast
    rfl
  have hvalue : ((n * 2 ^ k : ℤ) : ℚ) * 2 ^ (-(k : ℤ)) = n := by
    rw [zpow_neg, zpow_natCast]
    push_cast
    rw [mul_assoc, mul_inv_cancel₀ (by positivity), mul_one]
  have hsmall : ¬ (2 : ℚ) ^ 1024 ≤ n := by
    rw [not_le]
    calc (n : ℚ) < 2 ^ 53 := by exact_mod_cast h
      _ ≤ 2 ^ 1024 := pow_le_pow_right₀ (by norm_num) (by norm_num)
  simp only [toDouble]
  rw [hk, hscaled, roundHalfEven_intCast, hvalue, if_neg hsmall]

/-! ### White space -/

/-- White space and line terminators. -/
def isWhiteSpace (c : UInt16) : Bool :=
  0x09 ≤ c && c ≤ 0x0d || c = 0x20 || c = 0xa0 || c = 0x1680 || 0x2000 ≤ c && c ≤ 0x200a ||
    c = 0x2028 || c = 0x2029 || c = 0x202f || c = 0x205f || c = 0x3000 || c = 0xfeff

/-- `s.trimEnd()`. -/
def trimEnd (s : JsString) : JsString := s.rdropWhile isWhiteSpace

/-- `s.trim()`. -/
def trim (s : JsString) : JsString := (trimEnd s).dropWhile isWhiteSpace

/-! ### Literals -/

/-- The value of a digit. -/
def digitValue? (radix : ℕ) (c : UInt16) : Option ℕ :=
  let value :=
    if 0x30 ≤ c ∧ c ≤ 0x39 then some (c.toNat - 0x30)
    else if 0x61 ≤ c ∧ c ≤ 0x7a then some (c.toNat - 0x57)
    else if 0x41 ≤ c ∧ c ≤ 0x5a then some (c.toNat - 0x37)
    else none
  value.filter (· < radix)

/-- Whether a code unit is a digit. -/
def isDigit (radix : ℕ) (c : UInt16) : Bool := (digitValue? radix c).isSome

/-- The value of a sequence of digits. -/
def digitsValue (radix : ℕ) (digits : JsString) : ℕ :=
  digits.foldl (fun value c => value * radix + (digitValue? radix c).getD 0) 0

/-- The digits of an integer, if there are any and nothing else. -/
def digits? (radix : ℕ) (s : JsString) : Option ℕ :=
  if s ≠ [] ∧ s.all (isDigit radix) then some (digitsValue radix s) else none

/-- A sign, and what follows it. -/
def sign : JsString → Bool × JsString
  | 0x2b :: s => (false, s)
  | 0x2d :: s => (true, s)
  | s => (false, s)

/-- The letter of a radix: `b`, `o` or `x`. -/
def radix? (c : UInt16) : Option ℕ :=
  if c = 0x62 ∨ c = 0x42 then some 2
  else if c = 0x6f ∨ c = 0x4f then some 8
  else if c = 0x78 ∨ c = 0x58 then some 16
  else none

/-- A binary, octal or hexadecimal integer. -/
def nonDecimalInteger? : JsString → Option ℕ
  | 0x30 :: c :: s => (radix? c).bind fun radix => digits? radix s
  | _ => none

/-- The exponent of a decimal, which may be missing. -/
def exponent? : JsString → Option ℤ
  | [] => some 0
  | c :: s =>
    if c = 0x65 ∨ c = 0x45 then
      let (negative, s) := sign s
      (digits? 10 s).map fun value => if negative then -(value : ℤ) else value
    else none

/-- A decimal without a sign. -/
def unsignedDecimal? (s : JsString) : Option JsNumber :=
  if s = js "Infinity" then some (.infinity false)
  else
    let (whole, s) := s.span (isDigit 10)
    let (fraction, s) :=
      match s with
      | 0x2e :: s => s.span (isDigit 10)
      | s => ([], s)
    if whole = [] ∧ fraction = [] then none
    else (exponent? s).map fun exponent : ℤ =>
      toDouble (digitsValue 10 (whole ++ fraction) * (10 : ℚ) ^ (exponent - fraction.length))

/-- The value of a literal. -/
def numericLiteral (s : JsString) : JsNumber :=
  if s = [] then .finite 0
  else
    match nonDecimalInteger? s with
    | some value => toDouble value
    | none =>
      let (negative, s) := sign s
      match unsignedDecimal? s with
      | some value => if negative then value.neg else value
      | none => .nan

/-- `Number(s)`. -/
def stringToNumber (s : JsString) : JsNumber := numericLiteral (trim s)

theorem stringToNumber_trimEnd (s : JsString) : stringToNumber (trimEnd s) = stringToNumber s := by
  have hidem : trimEnd (trimEnd s) = trimEnd s := List.rdropWhile_idempotent isWhiteSpace s
  rw [stringToNumber, stringToNumber, trim, trim, hidem]

/-! ### Decimal digits -/

theorem toNat_of_isDigit {c : UInt16} (h : isDigit 10 c = true) :
    0x30 ≤ c.toNat ∧ c.toNat ≤ 0x39 := by
  obtain ⟨value, hvalue⟩ := Option.isSome_iff_exists.1 h
  obtain ⟨hsome, hlt⟩ := Option.filter_eq_some_iff.1 hvalue
  have hlt := of_decide_eq_true hlt
  simp only [UInt16.le_iff_toNat_le] at hsome
  split_ifs at hsome with h0 h1 h2
  · exact h0
  · injection hsome with hsome
    simp at h1
    omega
  · injection hsome with hsome
    simp at h2
    omega

theorem isWhiteSpace_of_isDigit {c : UInt16} (h : isDigit 10 c = true) :
    isWhiteSpace c = false := by
  obtain ⟨hle, hge⟩ := toNat_of_isDigit h
  simp only [isWhiteSpace, UInt16.le_iff_toNat_le, ← UInt16.toNat_inj]
  simp
  omega

theorem ne_of_isDigit {c d : UInt16} (h : isDigit 10 c = true) (hd : isDigit 10 d = false) :
    c ≠ d := by
  rintro rfl
  rw [h] at hd
  cases hd

section

variable {digits : JsString}

theorem trim_digits (h : digits.all (isDigit 10) = true) : trim digits = digits := by
  have hspace : ∀ c ∈ digits, ¬isWhiteSpace c = true := fun c hc =>
    Bool.not_eq_true _ ▸ isWhiteSpace_of_isDigit (List.all_eq_true.1 h c hc)
  have hend : trimEnd digits = digits :=
    List.rdropWhile_eq_self_iff.2 fun hne => hspace _ (List.getLast_mem hne)
  rw [trim, hend]
  exact List.dropWhile_eq_self_iff.2 fun hlen => hspace _ (List.getElem_mem hlen)

theorem nonDecimalInteger?_digits (h : digits.all (isDigit 10) = true) :
    nonDecimalInteger? digits = none := by
  unfold nonDecimalInteger?
  split
  · rename_i c s
    have hc : isDigit 10 c = true := List.all_eq_true.1 h c (by simp)
    have hradix : radix? c = none := by
      unfold radix?
      repeat rw [if_neg (not_or.2 ⟨ne_of_isDigit hc (by decide), ne_of_isDigit hc (by decide)⟩)]
    rw [hradix]
    rfl
  · rfl

theorem sign_digits (h : digits.all (isDigit 10) = true) : sign digits = (false, digits) := by
  unfold sign
  split
  · rename_i s
    exact absurd (List.all_eq_true.1 h 0x2b List.mem_cons_self) (by decide)
  · rename_i s
    exact absurd (List.all_eq_true.1 h 0x2d List.mem_cons_self) (by decide)
  · rfl

theorem unsignedDecimal?_digits (hne : digits ≠ []) (h : digits.all (isDigit 10) = true) :
    unsignedDecimal? digits = some (toDouble (digitsValue 10 digits)) := by
  have hinfinity : digits ≠ js "Infinity" := by
    rintro rfl
    exact absurd h (by decide +kernel)
  have htake := List.takeWhile_eq_self_iff.2 (List.all_eq_true.1 h)
  have hdrop := List.dropWhile_eq_nil_iff.2 (List.all_eq_true.1 h)
  rw [unsignedDecimal?, if_neg hinfinity, List.span_eq_takeWhile_dropWhile, htake, hdrop]
  simp [hne, exponent?]

/-- Decimal digits are the number they write, as long as it is a double. -/
theorem stringToNumber_digits (hne : digits ≠ []) (h : digits.all (isDigit 10) = true)
    (hlt : digitsValue 10 digits < 2 ^ 53) :
    stringToNumber digits = .finite (digitsValue 10 digits) := by
  rw [stringToNumber, trim_digits h, numericLiteral, if_neg hne, nonDecimalInteger?_digits h]
  simp only [sign_digits h, unsignedDecimal?_digits hne h, toDouble_natCast hlt]
  rfl

end

end Tephra
