import Tephra.Types
import Tephra.Utf8.Inverse

/-!
# The length of a name

`utf8ByteLength` counts what `TextEncoder` will write, and is wrong about some strings with lone
surrogates: it takes every high surrogate it comes to for the first half of a pair.  What it then
counts too little (`uncounted`) is the size of the code unit it passes over; at the end of the
string it counts one byte too much (`endsHigh`).

* `length_encode_add` : the count and the number of bytes written differ by exactly these.
* `nameLength_iff` : for which names they agree, and with them validation and the wire.
-/

namespace Tephra

namespace Utf8

theorem unitByteLength_eq (c : UInt16) :
    unitByteLength c =
      if c.toNat < 0x80 then 1 else if c.toNat < 0x800 then 2 else if isHigh c then 4 else 3 := rfl

theorem length_encodeScalar_unit (c : UInt16) :
    (encodeScalar (if isHigh c || isLow c then 0xfffd else c.toNat)).length =
      if isHigh c then 3 else unitByteLength c := by
  have hc := c.toNat_lt
  have hbad : (encodeScalar 0xfffd).length = 3 := rfl
  rw [unitByteLength_eq]
  by_cases h : isHigh c = true
  · rw [if_pos (by simp [h]), if_pos h, hbad]
  · rw [if_neg h, if_neg h]
    by_cases hlow : isLow c = true
    · have hl := isLow_iff.1 hlow
      rw [if_pos (by simp [hlow]), hbad, if_neg (by omega), if_neg (by omega)]
    · rw [if_neg (by simp [h, hlow]), encodeScalar]
      split_ifs
      · rfl
      · rfl
      · rfl

end Utf8

section

open Utf8

attribute [local instance] utf8Codec

theorem length_encodeUtf8 (s : JsString) :
    (encodeUtf8 s).length = ((scalars s).map fun c => (encodeScalar c).length).sum :=
  List.length_flatMap

theorem length_encodeUtf8_pair {c d : UInt16} (hc : isHigh c = true) (hd : isLow d = true)
    (s : JsString) : (encodeUtf8 (c :: d :: s)).length = 4 + (encodeUtf8 s).length := by
  have hcr := isHigh_iff.1 hc
  have hlen :
      (encodeScalar (0x10000 + (c.toNat - 0xd800) * 0x400 + (d.toNat - 0xdc00))).length = 4 := by
    rw [encodeScalar, if_neg (by omega), if_neg (by omega), if_neg (by omega)]
    rfl
  rw [length_encodeUtf8, scalars, if_pos (by simp [hc, hd]), List.map_cons, List.sum_cons, hlen,
    length_encodeUtf8]

theorem length_encodeUtf8_cons {c : UInt16} {s : JsString}
    (h : isHigh c = true → s.head?.any isLow = false) :
    (encodeUtf8 (c :: s)).length =
      (if isHigh c then 3 else unitByteLength c) + (encodeUtf8 s).length := by
  rw [length_encodeUtf8, length_encodeUtf8, ← length_encodeScalar_unit]
  cases s with
  | nil => rfl
  | cons d s =>
    have hpair : ¬(isHigh c && isLow d) = true := by
      rw [Bool.and_eq_true]
      rintro ⟨hc, hd⟩
      have := h hc
      simp [hd] at this
    rw [scalars, if_neg hpair, List.map_cons, List.sum_cons]

theorem length_encodeUtf8_low {c : UInt16} (h : isLow c = true) (s : JsString) :
    (encodeUtf8 (c :: s)).length = 3 + (encodeUtf8 s).length := by
  have hr := isLow_iff.1 h
  have hhigh : ¬isHigh c = true := by rw [isHigh_iff]; omega
  rw [length_encodeUtf8_cons fun hc => absurd hc hhigh, if_neg hhigh, unitByteLength_eq,
    if_neg (by omega), if_neg (by omega), if_neg hhigh]

end

/-! ### Where the count is wrong -/

/-- The bytes left out when the loop, at a high surrogate, passes over `next`: none when `next` is a
low surrogate, and none when it is one byte, since four are counted where the encoder writes three
for the surrogate. -/
def passedOver (next : UInt16) (rest : JsString) : ℕ :=
  if Utf8.isLow next || next < 0x80 then 0
  else if next < 0x800 then 1
  -- what follows is then taken for a low surrogate of its own, three bytes for the pair's other one
  else if Utf8.isHigh next && rest.head?.any Utf8.isLow then 0
  else 2

/-- The bytes `utf8ByteLength` leaves out. -/
def uncounted : JsString → ℕ
  | [] => 0
  | [_] => 0
  | code :: next :: rest =>
    if isHighSurrogate code then passedOver next rest + uncounted rest else uncounted (next :: rest)

/-- The loop ends on a high surrogate that nothing follows; it counts four bytes for it, not three.
-/
def endsHigh : JsString → Bool
  | [] => false
  | [code] => isHighSurrogate code
  | code :: next :: rest =>
    if isHighSurrogate code then endsHigh rest else endsHigh (next :: rest)

section

open Utf8

attribute [local instance] utf8Codec

theorem unitByteLength_high {c : UInt16} (h : isHigh c = true) : unitByteLength c = 4 := by
  have hr := isHigh_iff.1 h
  rw [unitByteLength_eq, if_neg (by omega), if_neg (by omega), if_pos h]

theorem passedOver_eq (d : UInt16) (s : JsString) :
    passedOver d s = if (isLow d || decide (d.toNat < 0x80)) = true then 0
      else if d.toNat < 0x800 then 1 else if (isHigh d && s.head?.any isLow) = true then 0 else 2 :=
  rfl

/-- One turn of the loop at a high surrogate, against the encoder. -/
theorem length_encodeUtf8_high {c : UInt16} (hc : isHigh c = true) (d : UInt16) (s : JsString) :
    (encodeUtf8 (c :: d :: s)).length = 4 + passedOver d s + (encodeUtf8 s).length := by
  rw [passedOver_eq]
  by_cases hlow : isLow d = true
  · rw [length_encodeUtf8_pair hc hlow, if_pos (by simp [hlow])]
  rw [length_encodeUtf8_cons (s := d :: s) (by simp [hlow]), if_pos hc]
  by_cases hd : isHigh d = true
  · have hdr := isHigh_iff.1 hd
    rw [if_neg (by simp [hlow]; omega), if_neg (by omega)]
    by_cases hs : s.head?.any isLow = true
    · -- the unit passed over is itself the first half of a pair
      rw [if_pos (by simp [hd, hs])]
      cases s with
      | nil => cases hs
      | cons l t =>
        have hl : isLow l = true := hs
        rw [length_encodeUtf8_pair hd hl, length_encodeUtf8_low hl]
        omega
    · rw [Bool.not_eq_true] at hs
      rw [length_encodeUtf8_cons fun _ => hs, if_pos hd, if_neg (by simp [hs])]
      omega
  · have hpair : ¬(isHigh d && s.head?.any isLow) = true := by simp [hd]
    rw [length_encodeUtf8_cons fun h => absurd h hd, if_neg hd, unitByteLength_eq, if_neg hd,
      if_neg hpair]
    simp only [hlow, Bool.false_or, decide_eq_true_eq]
    split_ifs <;> omega

/-- The bytes written and the bytes counted. -/
theorem length_encode_add (s : JsString) :
    (encodeUtf8 s).length + (endsHigh s).toNat = utf8ByteLength s + uncounted s := by
  fun_induction utf8ByteLength s with
  | case1 => rfl
  | case2 c =>
    rw [length_encodeUtf8_cons (by simp), endsHigh, uncounted]
    have hhigh : isHighSurrogate c = isHigh c := rfl
    have hnil : (encodeUtf8 []).length = 0 := rfl
    by_cases hc : isHigh c = true
    · simp [hhigh, hc, unitByteLength_high hc, hnil]
    · simp [hhigh, hc, hnil]
  | case3 c d s hc ih =>
    rw [endsHigh, if_pos hc, uncounted, if_pos hc, length_encodeUtf8_high hc,
      unitByteLength_high hc]
    omega
  | case4 c d s hc ih =>
    rw [endsHigh, if_neg hc, uncounted, if_neg hc, length_encodeUtf8_cons fun h => absurd h hc,
      if_neg (c := isHigh c = true) hc]
    omega

end

/-! ### Validation and the wire -/

section

variable [TextCodec]

/-- A name whose bytes on the wire are in range. -/
def NameInRange (name : JsString) : Prop := name ≠ [] ∧ (encodeUtf8 name).length ≤ maxNameLen

/-- Wherever a name can stand, in an event or in a query item that is accepted otherwise, it is
accepted exactly when its bytes on the wire are in range. -/
structure AcceptedInRange (name : JsString) : Prop where
  /-- As the type of an event. -/
  eventType : ∀ type tags payload, (∃ e, Event.create type tags payload = .ok e) →
    ((∃ e, Event.create name tags payload = .ok e) ↔ NameInRange name)
  /-- As one more tag of an event. -/
  eventTag : ∀ type tags₁ tags₂ payload, (∃ e, Event.create type (tags₁ ++ tags₂) payload = .ok e) →
    name ∉ tags₁ ++ tags₂ →
      ((∃ e, Event.create type (tags₁ ++ name :: tags₂) payload = .ok e) ↔ NameInRange name)
  /-- As one more type of a query item. -/
  itemType : ∀ types₁ types₂ tags, (∃ item, QueryItem.of (types₁ ++ types₂) tags = .ok item) →
    ((∃ item, QueryItem.of (types₁ ++ name :: types₂) tags = .ok item) ↔ NameInRange name)
  /-- As one more tag of a query item. -/
  itemTag : ∀ types tags₁ tags₂, (∃ item, QueryItem.of types (tags₁ ++ tags₂) = .ok item) →
    name ∉ tags₁ ++ tags₂ →
      ((∃ item, QueryItem.of types (tags₁ ++ name :: tags₂) = .ok item) ↔ NameInRange name)

theorem acceptedInRange_iff {name : JsString} :
    AcceptedInRange name ↔ (ValidName name ↔ NameInRange name) := by
  constructor
  · intro h
    have htype := h.eventType (js "a") [] [] ⟨_, rfl⟩
    simpa only [Event.exists_create, List.not_mem_nil, false_implies, implies_true, List.nodup_nil,
      and_true] using htype
  · intro h
    refine ⟨?_, ?_, ?_, ?_⟩
    · intro type tags payload hother
      obtain ⟨-, hrest⟩ := Event.exists_create.1 hother
      rw [Event.exists_create, and_iff_left hrest, h]
    · intro type tags₁ tags₂ payload hother hnot
      obtain ⟨htype, htags, hnodup⟩ := Event.exists_create.1 hother
      rw [Event.exists_create, and_iff_right htype, forall_validName_insert htags,
        and_iff_left (List.nodup_middle.2 (List.nodup_cons.2 ⟨hnot, hnodup⟩)), h]
    · intro types₁ types₂ tags hother
      obtain ⟨htypes, hrest⟩ := QueryItem.exists_of.1 hother
      rw [QueryItem.exists_of, and_iff_left hrest, forall_validName_insert htypes, h]
    · intro types tags₁ tags₂ hother hnot
      obtain ⟨htypes, htags, hnodup⟩ := QueryItem.exists_of.1 hother
      rw [QueryItem.exists_of, and_iff_right htypes, forall_validName_insert htags,
        and_iff_left (List.nodup_middle.2 (List.nodup_cons.2 ⟨hnot, hnodup⟩)), h]

end

section

attribute [local instance] utf8Codec

/-- **The count and the wire agree**, and with them validation, exactly when the bytes left out
behind lone high surrogates make up for the byte too much at the end. -/
theorem nameLength_iff (name : JsString) :
    utf8ByteLength name = (encodeUtf8 name).length ∧ AcceptedInRange name ↔
      uncounted name = (endsHigh name).toNat := by
  have hadd := length_encode_add name
  constructor
  · rintro ⟨hlen, -⟩
    omega
  · intro hsame
    have hlen : utf8ByteLength name = (encodeUtf8 name).length := by omega
    refine ⟨hlen, acceptedInRange_iff.2 ?_⟩
    rw [ValidName, NameInRange, hlen]

/-- A high surrogate alone is counted as four bytes and written as three. -/
theorem nameLength_lone : utf8ByteLength [0xd800] = 4 ∧ (encodeUtf8 [0xd800]).length = 3 := by
  decide

end

end Tephra
