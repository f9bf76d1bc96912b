import Tephra.Lib.Base128

/-!
# Tagged records

The wire form of a message is a sequence of records: a varint tag `8 * n + w`, `n` a field number
and `w` a wire type, and a payload whose extent the wire type fixes.  A `Schema` says which field
numbers each message type has and how their payloads are to be read, `Body` is the grammar of the
byte strings made of whole records, and `Step` says which changes of a body a reader is to ignore:
records of unknown fields come or go, and neighbours change places.

`Reads` is a reader: a cursor that dispatches on the tag, reads the field if it knows it, and skips
the payload otherwise.  How it takes a tag apart is a parameter (`Tags`), and so is the meaning of a
message (`Format`): what a field does to the message read so far.  With the result a reading yields
the records it met, those of the embedded messages included.

* `Step.acts` : a reader that reads the regular tags as the schema has them gives the same result
  before and after a change.
* `Reads.isWhole_iff` : what it has faithfully read is a sequence of whole records when every varint
  it met ended in time and no payload was cut short, and only then.
* `Reads.size_le` : what it has read is no larger than the body.
-/

namespace Lib

namespace Records

/-- How the payload of a field is to be read. -/
inductive Kind (M : Type)
  | varint
  | bytes
  | message (m : M)

/-- The wire type of a field. -/
def Kind.wire {M : Type} : Kind M → ℕ
  | varint => 0
  | bytes => 2
  | message _ => 2

/-- The fields of each message type. -/
structure Schema (M : Type) where
  kind : M → ℕ → Option (Kind M)

theorem Kind.wire_lt {M : Type} (k : Kind M) : k.wire < 8 := by
  cases k <;> simp only [Kind.wire] <;> omega

/-- What a record carries. -/
inductive Value {M : Type} (V : M → Type)
  | varint (v : ℕ)
  | bytes (b : List UInt8)
  | message (m : M) (x : V m)

/-- The value has the kind of the field. -/
def Value.Fits {M : Type} {V : M → Type} : Value V → Kind M → Prop
  | varint _, .varint => True
  | bytes _, .bytes => True
  | message m _, .message m' => m = m'
  | _, _ => False

/-- A schema and what its fields mean: the message before its first field, and what a field does. -/
structure Format (M : Type) (V : M → Type) extends Schema M where
  init : (m : M) → V m
  set : (m : M) → V m → ℕ → Value V → V m

/-- How a reader takes tags and lengths: the field it holds a tag for, the wire type by which it
skips the other ones, and what it takes a length to be. -/
structure Tags (M : Type) where
  field : M → ℕ → Option (ℕ × Kind M)
  wire : ℕ → ℕ
  size : ℕ → ℕ

/-! ### Varints -/

/-- Ten bytes at most that are the varint of `t`. -/
def Varint (bs : List UInt8) (t : ℕ) : Prop :=
  bs.length ≤ 10 ∧ ∃ v, Base128.decode? bs = some (v, []) ∧ v % 2 ^ 64 = t

/-- Take a varint off the front: its value, whether it is longer than ten bytes, and the rest. -/
def number? (b : List UInt8) : Option (ℕ × Bool × List UInt8) :=
  (Base128.decode? b).map fun r => (r.1 % 2 ^ 64, decide (10 < b.length - r.2.length), r.2)

theorem varint_encode {v : ℕ} (h : v < 2 ^ 64) : Varint (Base128.encode v) v := by
  refine ⟨?_, v, ?_, Nat.mod_eq_of_lt h⟩
  · exact Base128.length_encode_le (k := 9) (h.trans (by norm_num))
  · have := Base128.decode?_encode_append v []
    rwa [List.append_nil] at this

theorem Varint.number? {bs : List UInt8} {t : ℕ} (h : Varint bs t) (rest : List UInt8) :
    number? (bs ++ rest) = some (t, false, rest) := by
  obtain ⟨hlen, v, hv, rfl⟩ := h
  rw [Records.number?, Base128.decode?_append hv]
  simp only [List.nil_append, Option.map_some, List.length_append, Nat.add_sub_cancel]
  rw [decide_eq_false (by omega)]

theorem exists_of_number? {b rest : List UInt8} {t : ℕ} {long : Bool}
    (h : number? b = some (t, long, rest)) :
    ∃ bs, b = bs ++ rest ∧ 0 < bs.length ∧ (long = false → Varint bs t) := by
  obtain ⟨⟨v, r⟩, hd, he⟩ := Option.map_eq_some_iff.1 h
  simp only [Prod.mk.injEq] at he
  obtain ⟨hv, hlong, rfl⟩ := he
  obtain ⟨bs, rfl, hbs⟩ := Base128.exists_of_decode? hd
  refine ⟨bs, rfl, Base128.length_lt_of_decode? hbs, fun hl => ⟨?_, v, hbs, hv⟩⟩
  rw [hl, decide_eq_false_iff_not, List.length_append, Nat.add_sub_cancel] at hlong
  omega

/-! ### The grammar -/

/-- How the payload behind a tag is delimited: its wire type, and the message type it embeds if it
is to be looked into. -/
structure Shape (M : Type) where
  wire : M → ℕ → ℕ
  inner : M → ℕ → Option M

/-- The bytes after the tag of a record that is not looked into. -/
inductive Payload : ℕ → List UInt8 → Prop
  | varint {p v} : Varint p v → Payload 0 p
  | fixed64 {p} : p.length = 8 → Payload 1 p
  | len {lb p} : Varint lb p.length → Payload 2 (lb ++ p)
  | fixed32 {p} : p.length = 4 → Payload 5 p

section

variable {M : Type} (S : Schema M)

/-- The message type a record embeds: it has the number and the wire type of such a field. -/
def Schema.inner (m : M) (t : ℕ) : Option M :=
  match S.kind m (t / 8) with
  | some (.message m') => if t % 8 = 2 then some m' else none
  | _ => none

/-- Records as they are written: the tag has the wire type in its last three bits. -/
def Schema.shape : Shape M where
  wire _ t := t % 8
  inner := S.inner

/-- The field whose own tag `t` is. -/
def Schema.own (m : M) (t : ℕ) : Option (ℕ × Kind M) :=
  match S.kind m (t / 8) with
  | some k => if t % 8 = k.wire then some (t / 8, k) else none
  | none => none

/-- A tag with a field number there is, and the wire type of the field if it is known. -/
def Schema.Regular (m : M) (t : ℕ) : Prop :=
  1 ≤ t / 8 ∧ t / 8 < 2 ^ 29 ∧ ∀ k, S.kind m (t / 8) = some k → t % 8 = k.wire

variable (G : Shape M) (ok : M → ℕ → Prop)

/-- A body that is a sequence of whole records with the tags `ok`; so is every embedded message. -/
inductive Body : M → List UInt8 → Prop
  | nil (m) : Body m []
  | plain {m t tb p b} : ok m t → G.inner m t = none → Varint tb t → Payload (G.wire m t) p →
      Body m b → Body m (tb ++ p ++ b)
  | message {m t m' tb lb p b} : ok m t → G.inner m t = some m' → Varint tb t →
      Varint lb p.length → Body m' p → Body m b → Body m (tb ++ (lb ++ p) ++ b)

/-- A record with the tag `t`. -/
inductive Record (m : M) (t : ℕ) : List UInt8 → Prop
  | plain {tb p} : ok m t → G.inner m t = none → Varint tb t → Payload (G.wire m t) p →
      Record m t (tb ++ p)
  | message {m' tb lb p} : ok m t → G.inner m t = some m' → Varint tb t →
      Varint lb p.length → Body G ok m' p → Record m t (tb ++ (lb ++ p))

/-- A body with regular tags. -/
abbrev RegularBody : M → List UInt8 → Prop := Body S.shape S.Regular

/-- A record with a regular tag. -/
abbrev RegularRecord : M → ℕ → List UInt8 → Prop := Record S.shape S.Regular

/-- A change a reader is to ignore. -/
inductive Step (oneof : M → ℕ → Prop) : M → List UInt8 → List UInt8 → Prop
  | insert {m t r a b} : RegularBody S m a → RegularRecord S m t r → S.kind m (t / 8) = none →
      RegularBody S m b → Step oneof m (a ++ b) (a ++ (r ++ b))
  | remove {m t r a b} : RegularBody S m a → RegularRecord S m t r → S.kind m (t / 8) = none →
      RegularBody S m b → Step oneof m (a ++ (r ++ b)) (a ++ b)
  | swap {m t t' r r' a b} : RegularBody S m a → RegularRecord S m t r → RegularRecord S m t' r' →
      t / 8 ≠ t' / 8 → ¬ (oneof m (t / 8) ∧ oneof m (t' / 8)) → RegularBody S m b →
      Step oneof m (a ++ (r ++ (r' ++ b))) (a ++ (r' ++ (r ++ b)))
  | inside {m t m' tb lb lb' p p' a b} : RegularBody S m a → S.Regular m t →
      S.inner m t = some m' → Varint tb t → Varint lb p.length → Varint lb' p'.length →
      Step oneof m' p p' → RegularBody S m b →
      Step oneof m (a ++ (tb ++ (lb ++ p) ++ b)) (a ++ (tb ++ (lb' ++ p') ++ b))

end

/-! ### Reading -/

/-- A record a reader has met. -/
structure Met (M : Type) where
  message : M
  tag : ℕ
  /-- The field it set. -/
  field : Option ℕ
  /-- One of its varints took more than ten bytes. -/
  long : Bool
  /-- Its payload went on after the end of the body. -/
  cut : Bool

/-- Skip the payload of a record.  A payload that the body ends in takes the rest of it. -/
inductive Skips (size : ℕ → ℕ) : ℕ → List UInt8 → List UInt8 → Bool → Bool → Prop
  | varint {r v long r'} : number? r = some (v, long, r') → Skips size 0 r r' long false
  | fixed64 {r} : Skips size 1 r (r.drop 8) false (decide (r.length < 8))
  | len {r v long r'} : number? r = some (v, long, r') →
      Skips size 2 r (r'.drop (size v)) long (decide (r'.length < size v))
  | fixed32 {r} : Skips size 5 r (r.drop 4) false (decide (r.length < 4))

section

variable {M : Type} {V : M → Type} (F : Format M V) (T : Tags M)

/-- Reading the body of a message of type `m` turns `st` into the result and meets these records. -/
inductive Reads : (m : M) → V m → List UInt8 → V m → List (Met M) → Prop
  | done (m st) : Reads m st [] st []
  | varint {m st b t l r n v l' r' x tr} : number? b = some (t, l, r) →
      T.field m t = some (n, .varint) → number? r = some (v, l', r') →
      Reads m (F.set m st n (.varint v)) r' x tr →
      Reads m st b x (⟨m, t, some n, l || l', false⟩ :: tr)
  | bytes {m st b t l r n v l' r' x tr} : number? b = some (t, l, r) →
      T.field m t = some (n, .bytes) → number? r = some (v, l', r') → T.size v ≤ r'.length →
      Reads m (F.set m st n (.bytes (r'.take (T.size v)))) (r'.drop (T.size v)) x tr →
      Reads m st b x (⟨m, t, some n, l || l', false⟩ :: tr)
  | message {m st b t l r n m' v l' r' y tr' x tr} : number? b = some (t, l, r) →
      T.field m t = some (n, .message m') → number? r = some (v, l', r') → T.size v ≤ r'.length →
      Reads m' (F.init m') (r'.take (T.size v)) y tr' →
      Reads m (F.set m st n (.message m' y)) (r'.drop (T.size v)) x tr →
      Reads m st b x (⟨m, t, some n, l || l', false⟩ :: (tr' ++ tr))
  | skip {m st b t l r r' l' o x tr} : number? b = some (t, l, r) → T.field m t = none →
      Skips T.size (T.wire t) r r' l' o → Reads m st r' x tr →
      Reads m st b x (⟨m, t, none, l || l', o⟩ :: tr)

/-- What a reading of the body gives. -/
def Yields (m : M) (st : V m) (b : List UInt8) (x : V m) : Prop := ∃ tr, Reads F T m st b x tr

/-- A reader meets the record when it reads the body as a message of type `m`. -/
def Meets (m : M) (b : List UInt8) (e : Met M) : Prop :=
  ∃ x tr, Reads F T m (F.init m) b x tr ∧ e ∈ tr

/-- Reading `b` does `e` to the message, whatever follows. -/
def Acts (m : M) (b : List UInt8) (e : V m → V m) : Prop :=
  ∀ st rest x, Yields F T m (e st) rest x → Yields F T m st (b ++ rest) x

variable {F T}

theorem Acts.yields {m : M} {b : List UInt8} {e : V m → V m} (h : Acts F T m b e) (st : V m) :
    Yields F T m st b (e st) := by
  have := h st [] (e st) ⟨[], .done m (e st)⟩
  rwa [List.append_nil] at this

theorem Acts.nil (m : M) : Acts F T m [] id := fun _ _ _ h => h

theorem Acts.append {m : M} {a b : List UInt8} {e e' : V m → V m} (ha : Acts F T m a e)
    (hb : Acts F T m b e') : Acts F T m (a ++ b) (e' ∘ e) := by
  intro st rest x h
  rw [List.append_assoc]
  exact ha _ _ _ (hb _ _ _ h)

end

/-! ### Sizes -/

section

variable {M : Type} {V : M → Type}

/-- A measure of messages that a field raises by no more than the bytes of its record. -/
structure Format.Measure (F : Format M V) (size : (m : M) → V m → ℕ) : Prop where
  init : ∀ m, size m (F.init m) = 0
  varint : ∀ {m n} (st : V m) (v : ℕ), F.kind m n = some .varint →
    size m (F.set m st n (.varint v)) ≤ size m st + 2
  bytes : ∀ {m n} (st : V m) (b : List UInt8), F.kind m n = some .bytes →
    size m (F.set m st n (.bytes b)) ≤ size m st + b.length + 2
  message : ∀ {m n m'} (st : V m) (x : V m'), F.kind m n = some (.message m') →
    size m (F.set m st n (.message m' x)) ≤ size m st + size m' x + 2

variable {F : Format M V} {T : Tags M} {size : (m : M) → V m → ℕ}

theorem length_of_number? {b r : List UInt8} {t : ℕ} {l : Bool} (h : number? b = some (t, l, r)) :
    r.length < b.length := by
  obtain ⟨bs, rfl, hpos, -⟩ := exists_of_number? h
  rw [List.length_append]
  omega

theorem Skips.length_le {f : ℕ → ℕ} {w : ℕ} {r r' : List UInt8} {l o : Bool}
    (h : Skips f w r r' l o) : r'.length ≤ r.length := by
  cases h with
  | varint hv => exact (length_of_number? hv).le
  | fixed64 | fixed32 =>
    rw [List.length_drop]
    omega
  | len hv =>
    have := length_of_number? hv
    rw [List.length_drop]
    omega

/-- What is read is no larger than the bytes it is read from. -/
theorem Reads.size_le (hF : F.Measure size)
    (hT : ∀ {m t n k}, T.field m t = some (n, k) → F.kind m n = some k) {m : M} {st x : V m}
    {b : List UInt8} {tr : List (Met M)} (h : Reads F T m st b x tr) :
    size m x ≤ size m st + b.length := by
  induction h with
  | done m st => exact Nat.le_add_right _ _
  | @varint m st b t l r n v l' r' x tr ht hfield hv _ ih =>
    have := length_of_number? ht
    have := length_of_number? hv
    have := hF.varint st v (hT hfield)
    omega
  | @bytes m st b t l r n v l' r' x tr ht hfield hv hle _ ih =>
    have := length_of_number? ht
    have := length_of_number? hv
    have := hF.bytes st (r'.take (T.size v)) (hT hfield)
    rw [List.length_take, Nat.min_eq_left hle] at this
    rw [List.length_drop] at ih
    omega
  | @message m st b t l r n m' v l' r' y tr' x tr ht hfield hv hle _ _ ihy ih =>
    have := length_of_number? ht
    have := length_of_number? hv
    have := hF.message st y (hT hfield)
    rw [hF.init, List.length_take, Nat.min_eq_left hle] at ihy
    rw [List.length_drop] at ih
    omega
  | skip ht _ hskips _ ih =>
    have := length_of_number? ht
    have := hskips.length_le
    omega

end

/-! ### Forward compatibility -/

theorem Schema.inner_eq_some {M : Type} {S : Schema M} {m m' : M} {t : ℕ} :
    S.inner m t = some m' ↔ S.kind m (t / 8) = some (.message m') ∧ t % 8 = 2 := by
  rw [Schema.inner]
  split
  · next h => simp only [h, Option.ite_none_right_eq_some, Option.some.injEq, Kind.message.injEq]
              exact and_comm
  · next h =>
    simp only [reduceCtorEq, false_iff, not_and]
    exact fun hk => absurd hk (h m')

/-- The reader takes the regular tags, and the lengths up to `limit`, for what they are. -/
structure Tags.Sound {M : Type} (T : Tags M) (S : Schema M) (limit : ℕ) : Prop where
  known : ∀ {m t k}, S.Regular m t → S.kind m (t / 8) = some k → T.field m t = some (t / 8, k)
  unknown : ∀ {m t}, S.Regular m t → S.kind m (t / 8) = none →
    T.field m t = none ∧ T.wire t = t % 8
  size : ∀ {n}, n ≤ limit → T.size n = n

/-- Fields that are not alternatives of each other may be set in any order. -/
def Format.Commutes {M : Type} {V : M → Type} (F : Format M V) (oneof : M → ℕ → Prop) : Prop :=
  ∀ {m n n' k k'} {v v' : Value V} (st : V m), F.kind m n = some k → F.kind m n' = some k' →
    v.Fits k → v'.Fits k' → n ≠ n' → ¬ (oneof m n ∧ oneof m n') →
    F.set m (F.set m st n v) n' v' = F.set m (F.set m st n' v') n v

/-- What a record with the field number `n` may do to a message: what its field does, and nothing if
there is no such field. -/
def Format.Effect {M : Type} {V : M → Type} (F : Format M V) (m : M) (n : ℕ) (e : V m → V m) :
    Prop :=
  (F.kind m n = none ∧ e = id) ∨
    ∃ k v, F.kind m n = some k ∧ v.Fits k ∧ e = fun st => F.set m st n v

theorem Format.Effect.eq_id {M : Type} {V : M → Type} {F : Format M V} {m : M} {n : ℕ}
    {e : V m → V m} (h : F.Effect m n e) (hk : F.kind m n = none) : e = id := by
  rcases h with ⟨-, rfl⟩ | ⟨k, v, hk', -⟩
  · rfl
  · rw [hk] at hk'
    cases hk'

theorem Format.Commutes.effects {M : Type} {V : M → Type} {F : Format M V} {oneof : M → ℕ → Prop}
    (h : F.Commutes oneof) {m : M} {n n' : ℕ} {e e' : V m → V m} (he : F.Effect m n e)
    (he' : F.Effect m n' e') (hne : n ≠ n') (ho : ¬ (oneof m n ∧ oneof m n')) :
    e' ∘ e = e ∘ e' := by
  rcases he with ⟨-, rfl⟩ | ⟨k, v, hk, hv, rfl⟩
  · rfl
  rcases he' with ⟨-, rfl⟩ | ⟨k', v', hk', hv', rfl⟩
  · rfl
  funext st
  exact h st hk hk' hv hv' hne ho

section

variable {M : Type} {V : M → Type} {F : Format M V} {T : Tags M} {limit : ℕ}

theorem Payload.skips {size : ℕ → ℕ} {p : List UInt8} {w : ℕ} (h : Payload w p)
    (hsize : ∀ {n}, n ≤ limit → size n = n) (hp : p.length ≤ limit) (rest : List UInt8) :
    Skips size w (p ++ rest) rest false false := by
  cases h with
  | varint hv => exact .varint (hv.number? rest)
  | fixed64 hlen =>
    have hs : Skips size 1 (p ++ rest) _ false _ := .fixed64
    rwa [List.drop_left' hlen, decide_eq_false (by simp; omega)] at hs
  | @len lb q hlb =>
    rw [List.length_append] at hp
    have hs : Skips size 2 _ _ false _ := .len (hlb.number? (q ++ rest))
    rw [hsize (by omega), List.drop_left, decide_eq_false (by simp)] at hs
    rwa [List.append_assoc]
  | fixed32 hlen =>
    have hs : Skips size 5 (p ++ rest) _ false _ := .fixed32
    rwa [List.drop_left' hlen, decide_eq_false (by simp; omega)] at hs

variable {m m' : M} {t : ℕ} {tb lb p : List UInt8}

theorem acts_plain (hT : T.Sound F.toSchema limit) (ht : F.Regular m t)
    (hi : F.inner m t = none) (htb : Varint tb t) (hp : Payload (t % 8) p)
    (hlen : p.length ≤ limit) :
    ∃ e, Acts F T m (tb ++ p) e ∧ F.Effect m (t / 8) e := by
  cases hk : F.kind m (t / 8) with
  -- an unknown record is skipped by its wire type
  | none =>
    obtain ⟨hfield, hwire⟩ := hT.unknown ht hk
    refine ⟨id, ?_, .inl ⟨hk, rfl⟩⟩
    rintro st rest x ⟨tr, hx⟩
    have hs := hp.skips hT.size hlen rest
    rw [← hwire] at hs
    rw [List.append_assoc]
    exact ⟨_, .skip (htb.number? _) hfield hs hx⟩
  | some k =>
    -- a known one is read as its kind says, which fits its wire type
    have hfield := hT.known ht hk
    have hw := ht.2.2 k hk
    cases k with
    | varint =>
      rw [hw] at hp
      cases hp with
      | @varint _ v hv =>
        refine ⟨fun st => F.set m st (t / 8) (.varint v), ?_, .inr ⟨_, .varint v, hk, trivial, rfl⟩⟩
        rintro st rest x ⟨tr, hx⟩
        rw [List.append_assoc]
        exact ⟨_, .varint (htb.number? _) hfield (hv.number? rest) hx⟩
    | bytes =>
      rw [hw] at hp
      cases hp with
      | @len lb q hlb =>
        refine ⟨fun st => F.set m st (t / 8) (.bytes q), ?_, .inr ⟨_, .bytes q, hk, trivial, rfl⟩⟩
        rintro st rest x ⟨tr, hx⟩
        rw [List.length_append] at hlen
        have hsize := hT.size (show q.length ≤ limit by omega)
        have htake : (q ++ rest).take (T.size q.length) = q := by rw [hsize, List.take_left]
        have hdrop : (q ++ rest).drop (T.size q.length) = rest := by rw [hsize, List.drop_left]
        rw [List.append_assoc, List.append_assoc]
        exact ⟨_, .bytes (htb.number? _) hfield (hlb.number? _) (by simp [hsize])
          (by rw [htake, hdrop]; exact hx)⟩
    | message m' =>
      have := Schema.inner_eq_some.2 ⟨hk, hw⟩
      rw [hi] at this
      cases this

theorem acts_message (hT : T.Sound F.toSchema limit) (ht : F.Regular m t)
    (hi : F.inner m t = some m') (htb : Varint tb t) (hlb : Varint lb p.length)
    (hlen : p.length ≤ limit) {e : V m' → V m'} (hp : Acts F T m' p e) :
    Acts F T m (tb ++ (lb ++ p)) fun st => F.set m st (t / 8) (.message m' (e (F.init m'))) := by
  rintro st rest x ⟨tr, hx⟩
  obtain ⟨tr', hy⟩ := hp.yields (F.init m')
  have hfield := hT.known ht (Schema.inner_eq_some.1 hi).1
  have hsize := hT.size hlen
  have htake : (p ++ rest).take (T.size p.length) = p := by rw [hsize, List.take_left]
  have hdrop : (p ++ rest).drop (T.size p.length) = rest := by rw [hsize, List.drop_left]
  rw [← htake] at hy
  rw [← hdrop] at hx
  rw [List.append_assoc, List.append_assoc]
  exact ⟨_, .message (htb.number? _) hfield (hlb.number? _) (by simp [hsize]) hy hx⟩

/-- A regular body acts on a message: the reader gets through it, whatever is behind it. -/
theorem Body.acts (hT : T.Sound F.toSchema limit) {b : List UInt8}
    (hb : RegularBody F.toSchema m b) (hlen : b.length ≤ limit) : ∃ e, Acts F T m b e := by
  induction hb with
  | nil m => exact ⟨id, .nil m⟩
  | plain ht hi htb hp _ ih =>
    simp only [List.length_append] at hlen
    obtain ⟨e, he, -⟩ := acts_plain hT ht hi htb hp (by omega)
    obtain ⟨e', he'⟩ := ih (by omega)
    exact ⟨e' ∘ e, he.append he'⟩
  | message ht hi htb hlb _ _ ihp ih =>
    simp only [List.length_append] at hlen
    obtain ⟨e, he⟩ := ihp (by omega)
    obtain ⟨e', he'⟩ := ih (by omega)
    exact ⟨_, (acts_message hT ht hi htb hlb (by omega) he).append he'⟩

theorem Record.acts (hT : T.Sound F.toSchema limit) {r : List UInt8}
    (hr : RegularRecord F.toSchema m t r) (hlen : r.length ≤ limit) :
    ∃ e, Acts F T m r e ∧ F.Effect m (t / 8) e := by
  cases hr with
  | plain ht hi htb hp =>
    rw [List.length_append] at hlen
    exact acts_plain hT ht hi htb hp (by omega)
  | message ht hi htb hlb hp =>
    simp only [List.length_append] at hlen
    obtain ⟨e, he⟩ := hp.acts hT (by omega)
    exact ⟨_, acts_message hT ht hi htb hlb (by omega) he,
      .inr ⟨_, .message _ _, (Schema.inner_eq_some.1 hi).1, rfl, rfl⟩⟩

theorem acts_insert (hT : T.Sound F.toSchema limit) {a r b : List UInt8}
    (ha : RegularBody F.toSchema m a) (hr : RegularRecord F.toSchema m t r)
    (hk : F.kind m (t / 8) = none) (hb : RegularBody F.toSchema m b)
    (hlen : (a ++ (r ++ b)).length ≤ limit) :
    ∃ e, Acts F T m (a ++ b) e ∧ Acts F T m (a ++ (r ++ b)) e := by
  simp only [List.length_append] at hlen
  obtain ⟨ea, hea⟩ := ha.acts hT (by omega)
  obtain ⟨eb, heb⟩ := hb.acts hT (by omega)
  obtain ⟨er, her, heff⟩ := hr.acts hT (by omega)
  obtain rfl := heff.eq_id hk
  exact ⟨eb ∘ ea, hea.append heb, hea.append (her.append heb)⟩

/-- **A change acts as the body it changes.** -/
theorem Step.acts {oneof : M → ℕ → Prop} (hT : T.Sound F.toSchema limit) (hF : F.Commutes oneof)
    {b b' : List UInt8} (h : Step F.toSchema oneof m b b') (hlen : b.length ≤ limit)
    (hlen' : b'.length ≤ limit) : ∃ e, Acts F T m b e ∧ Acts F T m b' e := by
  induction h with
  | insert ha hr hk hb => exact acts_insert hT ha hr hk hb hlen'
  | remove ha hr hk hb =>
    obtain ⟨e, he, he'⟩ := acts_insert hT ha hr hk hb hlen
    exact ⟨e, he', he⟩
  | swap ha hr hr' hne ho hb =>
    simp only [List.length_append] at hlen hlen'
    obtain ⟨ea, hea⟩ := ha.acts hT (by omega)
    obtain ⟨eb, heb⟩ := hb.acts hT (by omega)
    obtain ⟨e, he, heff⟩ := hr.acts hT (by omega)
    obtain ⟨e', he', heff'⟩ := hr'.acts hT (by omega)
    -- the two effects are on different fields, and commute
    refine ⟨_, hea.append (he.append (he'.append heb)), ?_⟩
    have := hea.append (he'.append (he.append heb))
    rwa [Function.comp_assoc eb e e', ← hF.effects heff heff' hne ho,
      ← Function.comp_assoc eb e' e] at this
  | inside ha ht hi htb hlb hlb' _ hb ih =>
    simp only [List.length_append] at hlen hlen'
    obtain ⟨ea, hea⟩ := ha.acts hT (by omega)
    obtain ⟨eb, heb⟩ := hb.acts hT (by omega)
    obtain ⟨e, he, he'⟩ := ih (by omega) (by omega)
    exact ⟨_, hea.append ((acts_message hT ht hi htb hlb (by omega) he).append heb),
      hea.append ((acts_message hT ht hi htb hlb' (by omega) he').append heb)⟩

end

/-! ### What has been read -/

/-- Whole records, whatever their tags. -/
abbrev Whole {M : Type} (G : Shape M) : M → List UInt8 → Prop := Body G fun _ _ => True

/-- Records as the reader takes them: a field it holds the tag for by the kind of the field, and any
other record by the wire type it skips it by. -/
def Tags.shape {M : Type} (T : Tags M) : Shape M where
  wire m t := match T.field m t with
    | some (_, k) => k.wire
    | none => T.wire t
  inner m t := match T.field m t with
    | some (_, .message m') => some m'
    | _ => none

/-- The reader takes the record as it is written. -/
def Met.Faithful {M : Type} (G : Shape M) (T : Tags M) (e : Met M) : Prop :=
  T.shape.wire e.message e.tag = G.wire e.message e.tag ∧
    T.shape.inner e.message e.tag = G.inner e.message e.tag

/-- Its varints ended within ten bytes, and its payload within the body. -/
def Met.Complete {M : Type} (e : Met M) : Prop := e.long = false ∧ e.cut = false

section

variable {M : Type} {G : Shape M} {T : Tags M} {m : M} {t : ℕ} {n : Option ℕ} {l o : Bool}

theorem Met.Faithful.wire {n' : ℕ} {k : Kind M} (h : Met.Faithful G T ⟨m, t, n, l, o⟩)
    (hf : T.field m t = some (n', k)) : G.wire m t = k.wire := by
  rw [← h.1]
  simp only [Tags.shape, hf]

theorem Met.Faithful.wire_skip (h : Met.Faithful G T ⟨m, t, n, l, o⟩) (hf : T.field m t = none) :
    G.wire m t = T.wire t := by
  rw [← h.1]
  simp only [Tags.shape, hf]

theorem Met.Faithful.inner_message {n' : ℕ} {m' : M} (h : Met.Faithful G T ⟨m, t, n, l, o⟩)
    (hf : T.field m t = some (n', .message m')) : G.inner m t = some m' := by
  rw [← h.2]
  simp only [Tags.shape, hf]

theorem Met.Faithful.inner_plain {n' : ℕ} {k : Kind M} (h : Met.Faithful G T ⟨m, t, n, l, o⟩)
    (hf : T.field m t = some (n', k)) (hk : ∀ m', k ≠ .message m') : G.inner m t = none := by
  rw [← h.2]
  cases k with
  | message m' => exact absurd rfl (hk m')
  | varint | bytes => simp only [Tags.shape, hf]

theorem Met.Faithful.inner_skip (h : Met.Faithful G T ⟨m, t, n, l, o⟩) (hf : T.field m t = none) :
    G.inner m t = none := by
  rw [← h.2]
  simp only [Tags.shape, hf]

end

section

variable {size : ℕ → ℕ} {limit w : ℕ} {r r' p b : List UInt8} {l o : Bool}

theorem Skips.unique {r'' : List UInt8} {l' o' : Bool} (h : Skips size w r r' l o)
    (h' : Skips size w r r'' l' o') : r'' = r' ∧ l' = l ∧ o' = o := by
  cases h with
  | varint hv =>
    cases h' with
    | varint hv' => cases hv.symm.trans hv'; exact ⟨rfl, rfl, rfl⟩
  | fixed64 => cases h'; exact ⟨rfl, rfl, rfl⟩
  | len hv =>
    cases h' with
    | len hv' => cases hv.symm.trans hv'; exact ⟨rfl, rfl, rfl⟩
  | fixed32 => cases h'; exact ⟨rfl, rfl, rfl⟩

theorem Skips.payload (h : Skips size w r r' l o) (hsize : ∀ {n}, size n ≤ limit → size n = n)
    (hlen : r.length ≤ limit) (hl : l = false) (ho : o = false) :
    ∃ p, r = p ++ r' ∧ Payload w p := by
  cases h with
  | varint hv =>
    obtain ⟨bs, rfl, -, hbs⟩ := exists_of_number? hv
    exact ⟨bs, rfl, .varint (hbs hl)⟩
  | fixed64 =>
    rw [decide_eq_false_iff_not] at ho
    exact ⟨r.take 8, (List.take_append_drop 8 r).symm, .fixed64 (by rw [List.length_take]; omega)⟩
  | @len r v l q hv =>
    rw [decide_eq_false_iff_not] at ho
    obtain ⟨bs, rfl, -, hbs⟩ := exists_of_number? hv
    rw [List.length_append] at hlen
    have hsv : size v = v := hsize (by omega)
    refine ⟨bs ++ q.take (size v), by rw [List.append_assoc, List.take_append_drop], .len ?_⟩
    rw [List.length_take, min_eq_left (by omega), hsv]
    exact hbs hl
  | fixed32 =>
    rw [decide_eq_false_iff_not] at ho
    exact ⟨r.take 4, (List.take_append_drop 4 r).symm, .fixed32 (by rw [List.length_take]; omega)⟩

/-- What is skipped of a payload that is there is that payload. -/
theorem Payload.of_skips (hp : Payload w p) (h : Skips size w (p ++ b) r' l o)
    (hsize : ∀ {n}, n ≤ limit → size n = n) (hlen : p.length ≤ limit) :
    l = false ∧ o = false ∧ r' = b := by
  cases hp with
  | varint hv =>
    cases h with
    | varint hn =>
      rw [hv.number? b] at hn
      cases hn
      exact ⟨rfl, rfl, rfl⟩
  | fixed64 h8 =>
    cases h with
    | fixed64 => exact ⟨rfl, decide_eq_false (by simp; omega), List.drop_left' h8⟩
  | @len lb q hlb =>
    rw [List.length_append] at hlen
    have hsq : size q.length = q.length := hsize (by omega)
    cases h with
    | len hn =>
      rw [List.append_assoc, hlb.number? (q ++ b)] at hn
      cases hn
      exact ⟨rfl, decide_eq_false (by simp [hsq]), by rw [hsq, List.drop_left]⟩
  | fixed32 h4 =>
    cases h with
    | fixed32 => exact ⟨rfl, decide_eq_false (by simp; omega), List.drop_left' h4⟩

end

section

variable {M : Type} {V : M → Type} {F : Format M V} {G : Shape M} {T : Tags M} {limit : ℕ} {m : M}
variable {st x : V m} {b : List UInt8} {tr : List (Met M)}

/-- **A faithful and complete reading has read whole records.** -/
theorem Reads.whole (h : Reads F T m st b x tr) (hsize : ∀ {n}, T.size n ≤ limit → T.size n = n)
    (hlen : b.length ≤ limit) (hf : ∀ e ∈ tr, e.Faithful G T)
    (hc : ∀ e ∈ tr, e.Complete) : Whole G m b := by
  induction h with
  | done m st => exact .nil m
  | @varint m st b t l r n v l' r' x tr ht hfield hv _ ih =>
    rw [List.forall_mem_cons] at hf hc
    obtain ⟨hlong, -⟩ := hc.1
    rw [Bool.or_eq_false_iff] at hlong
    obtain ⟨tb, rfl, -, htb⟩ := exists_of_number? ht
    obtain ⟨p, rfl, -, hp⟩ := exists_of_number? hv
    simp only [List.length_append] at hlen
    have hw := hf.1.wire hfield
    have hi := hf.1.inner_plain hfield (by intro m' h; cases h)
    rw [← List.append_assoc]
    refine .plain trivial hi (htb hlong.1) ?_ (ih (by omega) hf.2 hc.2)
    rw [hw]
    exact .varint (hp hlong.2)
  | @bytes m st b t l r n v l' r' x tr ht hfield hv hle _ ih =>
    rw [List.forall_mem_cons] at hf hc
    obtain ⟨hlong, -⟩ := hc.1
    rw [Bool.or_eq_false_iff] at hlong
    obtain ⟨tb, rfl, -, htb⟩ := exists_of_number? ht
    obtain ⟨lb, rfl, -, hlb⟩ := exists_of_number? hv
    simp only [List.length_append] at hlen
    have hw := hf.1.wire hfield
    have hi := hf.1.inner_plain hfield (by intro m' h; cases h)
    have hsv : T.size v = v := hsize (by omega)
    rw [← List.take_append_drop (T.size v) r', ← List.append_assoc lb, ← List.append_assoc tb]
    -- the payload is what the reader took, as many bytes as the length says
    refine .plain trivial hi (htb hlong.1) ?_ (ih (by rw [List.length_drop]; omega) hf.2 hc.2)
    rw [hw]
    refine .len ?_
    rw [List.length_take, min_eq_left hle, hsv]
    exact hlb hlong.2
  | @message m st b t l r n m' v l' r' y tr' x tr ht hfield hv hle _ _ ihp ih =>
    rw [List.forall_mem_cons, List.forall_mem_append] at hf hc
    obtain ⟨hlong, -⟩ := hc.1
    rw [Bool.or_eq_false_iff] at hlong
    obtain ⟨tb, rfl, -, htb⟩ := exists_of_number? ht
    obtain ⟨lb, rfl, -, hlb⟩ := exists_of_number? hv
    simp only [List.length_append] at hlen
    have hi := hf.1.inner_message hfield
    have hsv : T.size v = v := hsize (by omega)
    rw [← List.take_append_drop (T.size v) r', ← List.append_assoc lb, ← List.append_assoc tb]
    refine .message trivial hi (htb hlong.1) ?_
      (ihp (by rw [List.length_take]; omega) hf.2.1 hc.2.1)
      (ih (by rw [List.length_drop]; omega) hf.2.2 hc.2.2)
    rw [List.length_take, min_eq_left hle, hsv]
    exact hlb hlong.2
  | @skip m st b t l r r' l' o x tr ht hfield hskip _ ih =>
    rw [List.forall_mem_cons] at hf hc
    obtain ⟨hlong, hcut⟩ := hc.1
    rw [Bool.or_eq_false_iff] at hlong
    obtain ⟨tb, rfl, -, htb⟩ := exists_of_number? ht
    rw [List.length_append] at hlen
    -- a skip that was not cut passed over a payload
    obtain ⟨p, rfl, hp⟩ := hskip.payload hsize (by omega) hlong.2 hcut
    rw [List.length_append] at hlen
    have hi := hf.1.inner_skip hfield
    rw [← hf.1.wire_skip hfield] at hp
    rw [← List.append_assoc]
    exact .plain trivial hi (htb hlong.1) hp (ih (by omega) hf.2 hc.2)

section

variable {ok : M → ℕ → Prop} {t : ℕ} {l : Bool} {r : List UInt8}

/-- The first record of a body, when its payload is not descended into. -/
theorem Body.first_plain (h : Body G ok m b) (ht : number? b = some (t, l, r))
    (hi : G.inner m t = none) :
    l = false ∧ ∃ p b', r = p ++ b' ∧ Payload (G.wire m t) p ∧ Body G ok m b' := by
  cases h with
  | nil => cases ht
  | plain _ _ htb hp hb =>
    rw [List.append_assoc, htb.number?] at ht
    cases ht
    exact ⟨rfl, _, _, rfl, hp, hb⟩
  | message _ hi' htb =>
    rw [List.append_assoc, List.append_assoc, htb.number?] at ht
    cases ht
    cases hi.symm.trans hi'

theorem Body.first_message {m' : M} (h : Body G ok m b) (ht : number? b = some (t, l, r))
    (hi : G.inner m t = some m') :
    l = false ∧ ∃ lb p b', r = lb ++ (p ++ b') ∧ Varint lb p.length ∧ Body G ok m' p ∧
      Body G ok m b' := by
  cases h with
  | nil => cases ht
  | plain _ hi' htb =>
    rw [List.append_assoc, htb.number?] at ht
    cases ht
    cases hi.symm.trans hi'
  | message _ hi' htb hlb hp hb =>
    rw [List.append_assoc, List.append_assoc, htb.number?] at ht
    cases ht
    cases hi.symm.trans hi'
    exact ⟨rfl, _, _, _, rfl, hlb, hp, hb⟩

end

/-- **A faithful reading of whole records is complete.** -/
theorem Reads.complete (h : Reads F T m st b x tr) (hsize : ∀ {n}, n ≤ limit → T.size n = n)
    (hlen : b.length ≤ limit) (hf : ∀ e ∈ tr, e.Faithful G T)
    (hb : Whole G m b) : ∀ e ∈ tr, e.Complete := by
  induction h with
  | done m st => intro e he; cases he
  | @varint m st b t l r n v l' r' x tr ht hfield hv _ ih =>
    rw [List.forall_mem_cons] at hf ⊢
    have hi := hf.1.inner_plain hfield (by intro m' h; cases h)
    obtain ⟨tb, rfl, -, -⟩ := exists_of_number? ht
    obtain ⟨rfl, p, b', rfl, hp, hb'⟩ := hb.first_plain ht hi
    rw [hf.1.wire hfield] at hp
    cases hp with
    | varint hpv =>
      -- the reader and the record end the varint at the same place
      rw [hpv.number?] at hv
      cases hv
      simp only [List.length_append] at hlen
      exact ⟨⟨rfl, rfl⟩, ih (by omega) hf.2 hb'⟩
  | @bytes m st b t l r n v l' r' x tr ht hfield hv hle _ ih =>
    rw [List.forall_mem_cons] at hf ⊢
    have hi := hf.1.inner_plain hfield (by intro m' h; cases h)
    obtain ⟨tb, rfl, -, -⟩ := exists_of_number? ht
    obtain ⟨rfl, p, b', rfl, hp, hb'⟩ := hb.first_plain ht hi
    rw [hf.1.wire hfield] at hp
    cases hp with
    | @len lb q hlb =>
      rw [List.append_assoc, hlb.number?] at hv
      cases hv
      simp only [List.length_append] at hlen
      rw [hsize (show q.length ≤ limit by omega), List.drop_left] at ih
      exact ⟨⟨rfl, rfl⟩, ih (by omega) hf.2 hb'⟩
  | @message m st b t l r n m' v l' r' y tr' x tr ht hfield hv hle _ _ ihp ih =>
    rw [List.forall_mem_cons, List.forall_mem_append] at hf ⊢
    obtain ⟨tb, rfl, -, -⟩ := exists_of_number? ht
    obtain ⟨rfl, lb, p, b', rfl, hlb, hp, hb'⟩ := hb.first_message ht (hf.1.inner_message hfield)
    rw [hlb.number?] at hv
    cases hv
    simp only [List.length_append] at hlen
    have hsp := hsize (show p.length ≤ limit by omega)
    rw [hsp, List.take_left] at ihp
    rw [hsp, List.drop_left] at ih
    exact ⟨⟨rfl, rfl⟩, ihp (by omega) hf.2.1 hp, ih (by omega) hf.2.2 hb'⟩
  | @skip m st b t l r r' l' o x tr ht hfield hskip _ ih =>
    rw [List.forall_mem_cons] at hf ⊢
    obtain ⟨tb, rfl, -, -⟩ := exists_of_number? ht
    obtain ⟨rfl, p, b', rfl, hp, hb'⟩ := hb.first_plain ht (hf.1.inner_skip hfield)
    rw [hf.1.wire_skip hfield] at hp
    simp only [List.length_append] at hlen
    -- what is skipped is the payload of the record
    obtain ⟨rfl, rfl, rfl⟩ := hp.of_skips hskip hsize (by omega)
    exact ⟨⟨rfl, rfl⟩, ih (by omega) hf.2 hb'⟩

theorem Reads.unique {x' : V m} {tr' : List (Met M)} (h : Reads F T m st b x tr)
    (h' : Reads F T m st b x' tr') : x' = x ∧ tr' = tr := by
  induction h generalizing tr' with
  -- the tag decides which rule applies, and what it says of the rest
  | done =>
    cases h' with
    | done => exact ⟨rfl, rfl⟩
    | varint ht' | bytes ht' | message ht' | skip ht' => cases ht'
  | varint ht hf hv _ ih =>
    cases h' with
    | done => cases ht
    | varint ht' hf' hv' h' =>
      cases ht.symm.trans ht'
      cases hf.symm.trans hf'
      cases hv.symm.trans hv'
      obtain ⟨rfl, rfl⟩ := ih h'
      exact ⟨rfl, rfl⟩
    | bytes ht' hf' | message ht' hf' | skip ht' hf' =>
      cases ht.symm.trans ht'
      cases hf.symm.trans hf'
  | bytes ht hf hv _ _ ih =>
    cases h' with
    | done => cases ht
    | bytes ht' hf' hv' _ h' =>
      cases ht.symm.trans ht'
      cases hf.symm.trans hf'
      cases hv.symm.trans hv'
      obtain ⟨rfl, rfl⟩ := ih h'
      exact ⟨rfl, rfl⟩
    | varint ht' hf' | message ht' hf' | skip ht' hf' =>
      cases ht.symm.trans ht'
      cases hf.symm.trans hf'
  | message ht hf hv _ _ _ ihp ih =>
    cases h' with
    | done => cases ht
    | message ht' hf' hv' _ hp' h' =>
      cases ht.symm.trans ht'
      cases hf.symm.trans hf'
      cases hv.symm.trans hv'
      obtain ⟨rfl, rfl⟩ := ihp hp'
      obtain ⟨rfl, rfl⟩ := ih h'
      exact ⟨rfl, rfl⟩
    | varint ht' hf' | bytes ht' hf' | skip ht' hf' =>
      cases ht.symm.trans ht'
      cases hf.symm.trans hf'
  | skip ht hf hs _ ih =>
    cases h' with
    | done => cases ht
    | skip ht' hf' hs' h' =>
      cases ht.symm.trans ht'
      obtain ⟨rfl, rfl, rfl⟩ := hs.unique hs'
      obtain ⟨rfl, rfl⟩ := ih h'
      exact ⟨rfl, rfl⟩
    | varint ht' hf' | bytes ht' hf' | message ht' hf' =>
      cases ht.symm.trans ht'
      cases hf.symm.trans hf'

theorem Reads.meets_iff (h : Reads F T m (F.init m) b x tr) {e : Met M} :
    Meets F T m b e ↔ e ∈ tr := by
  constructor
  · rintro ⟨x', tr', hr, he⟩
    rwa [(h.unique hr).2] at he
  · intro he
    exact ⟨x, tr, h, he⟩

theorem Reads.cut_eq_false (h : Reads F T m st b x tr) :
    ∀ e ∈ tr, e.field ≠ none → e.cut = false := by
  induction h with
  | done => intro e he; cases he
  | varint _ _ _ _ ih | bytes _ _ _ _ _ ih =>
    rw [List.forall_mem_cons]
    exact ⟨fun _ => rfl, ih⟩
  | message _ _ _ _ _ _ ihp ih =>
    rw [List.forall_mem_cons, List.forall_mem_append]
    exact ⟨fun _ => rfl, ihp, ih⟩
  | skip _ _ _ _ ih =>
    rw [List.forall_mem_cons]
    exact ⟨fun hne => absurd rfl hne, ih⟩

/-- What a reader has faithfully read is a sequence of whole records exactly when each of them was
complete. -/
theorem Reads.isWhole_iff (h : Reads F T m st b x tr)
    (hsize : ∀ {n}, n ≤ limit ∨ T.size n ≤ limit → T.size n = n) (hlen : b.length ≤ limit)
    (hf : ∀ e ∈ tr, e.Faithful G T) :
    Whole G m b ↔ ∀ e ∈ tr, e.Complete :=
  ⟨h.complete (fun hn => hsize (.inl hn)) hlen hf, h.whole (fun hn => hsize (.inr hn)) hlen hf⟩

end

end Records

end Lib
