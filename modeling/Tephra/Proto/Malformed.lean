import Tephra.Lib.Written
import Tephra.Proto.Compat

/-!
# What the decoders let through

Two checks are missing from the reader.  `skip` moves the cursor over a payload without asking
whether it is there, and `varintBig` reads on for as long as the bytes ask it to: a body that ends
inside an unknown record is taken for a shorter one.  And the field is picked by a number squeezed
through a double and 32 bits, with the wire type left out of account: a record with another tag than
a field's own can set the field, or be skipped by a wire type it does not have.

* `whole_of_untruncated` : an accepted body whose tags are taken as they are written is a sequence
  of whole records unless one of those that were met has an overlong varint, or was skipped and is
  cut short.
* `own_tags_of_exact` : where every tag that stands in an accepted body is what it is taken for,
  every field was set by its own tag, and a record of another tag might as well not be there.
-/

namespace Tephra

open Lib Records

namespace Msg

section

variable [TextCodec]

/-- The decoder of `m` meets the record in `b`, at the top or in a message it descends into. -/
abbrev Meets (m : Msg) (b : Bytes) (e : Met Msg) : Prop := Records.Meets format tags m b e

/-- No varint that was met takes more than ten bytes, and no record that was skipped is cut short.
-/
def Untruncated (m : Msg) (b : Bytes) : Prop :=
  ∀ e, m.Meets b e → e.long = false ∧ (e.field = none → e.cut = false)

/-- Every tag that was met is taken as it is written: its record is read, or skipped, by the wire
type in its last three bits, and is looked into when it is the own tag of a message. -/
def Faithful (m : Msg) (b : Bytes) : Prop := ∀ e, m.Meets b e → e.Faithful schema.shape tags

theorem complete_iff_untruncated {m : Msg} {b : Bytes} :
    (∀ e, m.Meets b e → e.Complete) ↔ m.Untruncated b := by
  constructor
  · intro h e he
    exact ⟨(h e he).1, fun _ => (h e he).2⟩
  · rintro h e ⟨x, tr, hr, he⟩
    obtain ⟨hlong, hcut⟩ := h e ⟨x, tr, hr, he⟩
    refine ⟨hlong, ?_⟩
    by_cases hf : e.field = none
    · exact hcut hf
    · exact hr.cut_eq_false e he hf

/-- An accepted body in which every tag says how its record is delimited. -/
theorem whole_iff_untruncated {m : Msg} {b : Bytes} {x : m.Val} (hlen : b.length ≤ maxArrayLength)
    (h : m.decode b = .ok x) (hf : m.Faithful b) : Whole schema.shape m b ↔ m.Untruncated b := by
  obtain ⟨tr, htr⟩ := decode_eq_ok.1 h
  have hmeets : ∀ e, m.Meets b e ↔ e ∈ tr := fun e => htr.meets_iff
  rw [← complete_iff_untruncated]
  simp only [hmeets, Faithful] at hf ⊢
  exact htr.isWhole_iff size_eq hlen hf

end

theorem le_of_kind {m : Msg} {n : ℕ} {k : Kind Msg} (h : m.kind n = some k) : n ≤ 10 := by
  by_contra hn
  obtain ⟨j, rfl⟩ : ∃ j, n = j + 11 := ⟨n - 11, by omega⟩
  cases m <;> cases h

theorem own_eq_none {m : Msg} {t : ℕ} (h : 88 ≤ t) : schema.own m t = none := by
  by_contra hne
  obtain ⟨⟨n, k⟩, hown⟩ := Option.ne_none_iff_exists'.1 hne
  obtain ⟨rfl, hk, -⟩ := Schema.own_eq_some.1 hown
  have := le_of_kind hk
  omega

/-- The tag is what the decoder takes it for: the own tag of the field whose number it finds in it,
or, if there is no such field, a tag of the wire type it finds in it. -/
def ExactTag (m : Msg) (v : ℕ) : Prop :=
  match m.kind (number (v % 2 ^ 64)) with
  | some k => v = 8 * number (v % 2 ^ 64) + k.wire
  | none => tags.wire (v % 2 ^ 64) = v % 8

/-- Every tag that stands in the body is what the decoder takes it for. -/
def ExactTags (m : Msg) (b : Bytes) : Prop :=
  ∀ m' v, schema.Stands m b m' v → m'.ExactTag v

theorem exactTag_iff {m : Msg} {v : ℕ} : m.ExactTag v ↔ tags.Takes schema m v := by
  rw [ExactTag, Tags.Takes]
  cases hk : m.kind (number (v % 2 ^ 64)) with
  | some k =>
    rw [tags_field_eq_some.2 ⟨rfl, hk⟩]
    constructor
    · intro hv
      have hw := k.wire_lt
      have hown : schema.own m v = some (number (v % 2 ^ 64), k) :=
        Schema.own_eq_some.2 ⟨by omega, hk, by omega⟩
      exact ⟨hown.symm, fun hn => absurd (hown.symm.trans hn) (by simp)⟩
    · rintro ⟨hown, -⟩
      obtain ⟨hdiv, -, hmod⟩ := Schema.own_eq_some.1 hown.symm
      simp only
      omega
  | none =>
    rw [tags_field_eq_none.2 hk]
    have hown : schema.own m v = none := by
      by_cases hv : v < 88
      · -- the number of a small tag is found
        rw [Nat.mod_eq_of_lt (by omega), number_of_lt (by omega)] at hk
        rw [Schema.own]
        simp only [schema, hk]
      · exact own_eq_none (Nat.le_of_not_lt hv)
    rw [hown]
    exact ⟨fun hv => ⟨rfl, fun _ => hv⟩, fun h => h.2 rfl⟩

/-- A record with a tag that is no field's own is taken out, and what is left fits in an array. -/
def Drops (m : Msg) (b b' : Bytes) : Prop := schema.Drops m b b' ∧ b'.length ≤ maxArrayLength

variable [TextCodec]

/-- The message is what the records of `b` make of it as they are written: a field is set by its own
tag, and a record of any other tag is passed over. -/
def SetByOwnTags (m : Msg) (b : Bytes) (x : m.Val) : Prop := Written format m m.init b x

section

variable {m : Msg} {b b' : Bytes} {x : m.Val}

omit [TextCodec] in
theorem ExactTags.drops (hb : m.ExactTags b) (hdrop : m.Drops b b') : m.ExactTags b' := by
  intro m' v hs
  exact hb m' v (hdrop.1.stands hs)

/-- A body with exact tags is decoded as it is written. -/
theorem ExactTags.decode_iff (hb : m.ExactTags b) (hlen : b.length ≤ maxArrayLength) :
    m.decode b = .ok x ↔ m.SetByOwnTags b x := by
  rw [decode_eq_ok]
  constructor
  · rintro ⟨tr, htr⟩
    exact (htr.written size_eq hlen fun e _ v hs _ => exactTag_iff.1 (hb _ v hs)).1
  · intro h
    exact h.yields size_eq hlen fun m' v hs => exactTag_iff.1 (hb m' v hs)

theorem ExactTags.decode_eq (hb : m.ExactTags b) (hlen : b.length ≤ maxArrayLength)
    (h : m.decode b = .ok x) (hdrops : Relation.ReflTransGen m.Drops b b') :
    m.decode b' = .ok x := by
  have hall : m.ExactTags b' ∧ b'.length ≤ maxArrayLength ∧ m.SetByOwnTags b' x := by
    induction hdrops with
    | refl => exact ⟨hb, hlen, (hb.decode_iff hlen).1 h⟩
    | tail _ hdrop ih =>
      obtain ⟨hb', -, hset⟩ := ih
      exact ⟨hb'.drops hdrop, hdrop.2, hset.drops hdrop.1⟩
  obtain ⟨hb', hlen', hset⟩ := hall
  exact (hb'.decode_iff hlen').2 hset

/-- In a body with a tag that is not exact the decoder meets such a tag. -/
theorem exists_meets_of_not_exactTags (hlen : b.length ≤ maxArrayLength) (h : m.decode b = .ok x)
    (hb : ¬ m.ExactTags b) :
    ∃ e v, m.Meets b e ∧ e.tag = v % 2 ^ 64 ∧ schema.Stands m b e.message v ∧
      ¬ e.message.ExactTag v := by
  by_contra hno
  have hexact : ∀ e v, m.Meets b e → e.tag = v % 2 ^ 64 → schema.Stands m b e.message v →
      e.message.ExactTag v := by
    intro e v he ht hs
    by_contra hne
    exact hno ⟨e, v, he, ht, hs, hne⟩
  obtain ⟨tr, htr⟩ := decode_eq_ok.1 h
  obtain ⟨-, hmet⟩ := htr.written size_eq hlen fun e he v hs ht =>
    exactTag_iff.1 (hexact e v (htr.meets_iff.2 he) ht hs)
  -- the decoder meets every tag that stands in the body
  refine hb fun m' v hs => ?_
  obtain ⟨e, he, rfl, ht⟩ := hmet m' v hs
  exact hexact e v (htr.meets_iff.2 he) ht hs

end

end Msg

/-- **What an accepted body is made of.**  An accepted body whose tags were taken as they are
written is a sequence of whole records, and so is every embedded message, when no varint that was
met is overlong and no record that was skipped is cut short, and only then. -/
theorem whole_of_untruncated [TextCodec] (b : Bytes) (hlen : b.length ≤ maxArrayLength) :
    (∀ x, decodeRequest b = .ok x →
      (Msg.request.Faithful b ∧ Msg.request.Untruncated b → Whole Msg.schema.shape .request b) ∧
      (Msg.request.Faithful b → Whole Msg.schema.shape .request b → Msg.request.Untruncated b)) ∧
    (∀ x, decodeResponse b = .ok x →
      (Msg.response.Faithful b ∧ Msg.response.Untruncated b → Whole Msg.schema.shape .response b) ∧
      (Msg.response.Faithful b → Whole Msg.schema.shape .response b →
        Msg.response.Untruncated b)) := by
  constructor
  · intro x hx
    have hx : Msg.request.decode b = .ok x := hx
    exact ⟨fun h => (Msg.whole_iff_untruncated hlen hx h.1).2 h.2,
      fun h => (Msg.whole_iff_untruncated hlen hx h).1⟩
  · intro x hx
    have hx : Msg.response.decode b = .ok x := hx
    exact ⟨fun h => (Msg.whole_iff_untruncated hlen hx h.1).2 h.2,
      fun h => (Msg.whole_iff_untruncated hlen hx h).1⟩

/-- **Which tags set fields.**  In an accepted body whose tags are what they are taken for, every
field was set by its own tag, and the records of other tags, any number of them at any level, might
as well not be there.  In an accepted body with another tag the decoder has met such a tag. -/
theorem own_tags_of_exact [TextCodec] (b : Bytes) (hlen : b.length ≤ maxArrayLength) :
    (∀ x, decodeRequest b = .ok x →
      (Msg.request.ExactTags b → Msg.request.SetByOwnTags b x ∧
        ∀ b', Relation.ReflTransGen Msg.request.Drops b b' → decodeRequest b' = .ok x) ∧
      (¬ Msg.request.ExactTags b → ∃ e v, Msg.request.Meets b e ∧ e.tag = v % 2 ^ 64 ∧
        Msg.schema.Stands .request b e.message v ∧ ¬ e.message.ExactTag v)) ∧
    (∀ x, decodeResponse b = .ok x →
      (Msg.response.ExactTags b → Msg.response.SetByOwnTags b x ∧
        ∀ b', Relation.ReflTransGen Msg.response.Drops b b' → decodeResponse b' = .ok x) ∧
      (¬ Msg.response.ExactTags b → ∃ e v, Msg.response.Meets b e ∧ e.tag = v % 2 ^ 64 ∧
        Msg.schema.Stands .response b e.message v ∧ ¬ e.message.ExactTag v)) := by
  constructor
  · intro x hx
    have hx : Msg.request.decode b = .ok x := hx
    refine ⟨fun hb => ?_, Msg.exists_meets_of_not_exactTags hlen hx⟩
    exact ⟨(hb.decode_iff hlen).1 hx, fun b' hdrops => hb.decode_eq hlen hx hdrops⟩
  · intro x hx
    have hx : Msg.response.decode b = .ok x := hx
    refine ⟨fun hb => ?_, Msg.exists_meets_of_not_exactTags hlen hx⟩
    exact ⟨(hb.decode_iff hlen).1 hx, fun b' hdrops => hb.decode_eq hlen hx hdrops⟩

section

attribute [local instance] utf8Codec

/-- A response that ends inside a record of an unknown field is accepted. -/
theorem whole_cut :
    (∃ x, decodeResponse [0x4a, 5] = .ok x) ∧ ¬ Whole Msg.schema.shape .response [0x4a, 5] := by
  have htag : number? [0x4a, 5] = some (0x4a, false, [5]) := rfl
  have hlen : number? [5] = some (5, false, []) := rfl
  have hskip : Skips Msg.tags.size (Msg.tags.wire 0x4a) [5] [] false true := .len hlen
  have hreads : Reads Msg.format Msg.tags .response Msg.response.init [0x4a, 5] Msg.response.init
      [⟨.response, 0x4a, none, false, true⟩] := .skip htag rfl hskip (.done _ _)
  refine ⟨⟨_, Msg.readMessage_of_reads hreads⟩, ?_⟩
  intro hw
  have hsize : ∀ {n}, n ≤ maxArrayLength → Msg.tags.size n = n := fun hn => Msg.size_eq (.inl hn)
  obtain ⟨-, hcut⟩ := hreads.complete hsize (by decide)
    (by intro e he; rw [List.mem_singleton.1 he]; exact ⟨rfl, rfl⟩) hw _ (List.mem_singleton.2 rfl)
  cases hcut

/-- A response with a fixed-width record of an unknown field. -/
theorem whole_fixed : Whole Msg.schema.shape .response [0x08, 7, 0x4d, 1, 2, 3, 4] := by
  have hnum : number? [0x08, 7, 0x4d, 1, 2, 3, 4] = some (0x08, false, [7, 0x4d, 1, 2, 3, 4]) := rfl
  have hseven : number? [7, 0x4d, 1, 2, 3, 4] = some (7, false, [0x4d, 1, 2, 3, 4]) := rfl
  have htag : number? [0x4d, 1, 2, 3, 4] = some (0x4d, false, [1, 2, 3, 4]) := rfl
  have hskip : Skips Msg.tags.size (Msg.tags.wire 0x4d) [1, 2, 3, 4] [] false false := .fixed32
  have hread : Reads Msg.format Msg.tags .response Msg.response.init [0x08, 7, 0x4d, 1, 2, 3, 4]
      { requestId := 7, kind := .none }
      [⟨.response, 0x08, some 1, false, false⟩, ⟨.response, 0x4d, none, false, false⟩] :=
    .varint hnum rfl hseven (.skip htag rfl hskip (.done _ _))
  refine ((whole_of_untruncated _ (by decide)).2 _ (Msg.readMessage_of_reads hread)).1 ⟨?_, ?_⟩
  · intro e he
    have he := hread.meets_iff.1 he
    fin_cases he <;> exact ⟨rfl, rfl⟩
  · intro e he
    have he := hread.meets_iff.1 he
    fin_cases he <;> exact ⟨rfl, fun _ => rfl⟩

/-- A response that is one record without a field's own tag, and sets the request id all the same.
-/
theorem decode_ne_of_record {tb p : Bytes} {v : ℕ} {x : WireResponse} (htb : Tag tb v)
    (hown : Msg.schema.own .response v = none) (hp : Payload (v % 8) p)
    (hread : Yields Msg.format Msg.tags .response Msg.response.init (tb ++ p) x)
    (hx : x.requestId ≠ 0) :
    decodeResponse (tb ++ p) = .ok x ∧ Msg.response.Drops (tb ++ p) [] ∧
      decodeResponse [] ≠ .ok x := by
  refine ⟨Msg.decode_eq_ok.2 hread, ⟨?_, by decide⟩, ?_⟩
  · have := Schema.Drops.here (b := []) hown htb hp
    rwa [List.append_nil] at this
  · intro h
    cases h
    exact hx rfl

/-- Four ways to set a request id by a record of another tag than its own: one that is
length-delimited, one whose tag has 33 bits, one whose tag has 65, and one whose tag is rounded to
another wire type. -/
theorem own_tags_folded :
    (∃ x, x.requestId = 7 ∧ decodeResponse [0x0a, 2, 8, 7] = .ok x ∧
      Msg.response.Drops [0x0a, 2, 8, 7] [] ∧ decodeResponse [] ≠ .ok x) ∧
    (∃ x, x.requestId = 5 ∧ decodeResponse [0x88, 0x80, 0x80, 0x80, 0x10, 5] = .ok x ∧
      Msg.response.Drops [0x88, 0x80, 0x80, 0x80, 0x10, 5] [] ∧ decodeResponse [] ≠ .ok x) ∧
    (∃ x, x.requestId = 5 ∧
      decodeResponse [0x88, 0x80, 0x80, 0x80, 0x80, 0x80, 0x80, 0x80, 0x80, 2, 5] = .ok x ∧
      Msg.response.Drops [0x88, 0x80, 0x80, 0x80, 0x80, 0x80, 0x80, 0x80, 0x80, 2, 5] [] ∧
      decodeResponse [] ≠ .ok x) ∧
    ∃ x, x.requestId = 7 ∧
      decodeResponse [0x81, 0x80, 0x80, 0x80, 0x80, 0x80, 0x80, 0x10,
        0, 8, 7, 0x48, 0, 0x48, 0x80, 0] = .ok x ∧
      Msg.response.Drops [0x81, 0x80, 0x80, 0x80, 0x80, 0x80, 0x80, 0x10,
        0, 8, 7, 0x48, 0, 0x48, 0x80, 0] [] ∧ decodeResponse [] ≠ .ok x := by
  refine ⟨⟨{ requestId := 7, kind := .none }, rfl, ?_⟩,
    ⟨{ requestId := 5, kind := .none }, rfl, ?_⟩, ⟨{ requestId := 5, kind := .none }, rfl, ?_⟩,
    { requestId := 7, kind := .none }, rfl, ?_⟩
  · have htb : Tag [0x0a] 0x0a := ⟨by decide, rfl⟩
    have hp : Payload 2 ([2] ++ [8, 7]) := .len ⟨by decide, 2, rfl, rfl⟩
    have hread : Yields Msg.format Msg.tags .response Msg.response.init [0x0a, 2, 8, 7]
        { requestId := 7, kind := .none } :=
      ⟨_, .varint rfl rfl rfl (.varint rfl rfl rfl (.done _ _))⟩
    exact decode_ne_of_record htb rfl hp hread (by decide)
  · have htb : Tag [0x88, 0x80, 0x80, 0x80, 0x10] (2 ^ 32 + 8) := ⟨by decide, rfl⟩
    have htag : number? [0x88, 0x80, 0x80, 0x80, 0x10, 5] = some (2 ^ 32 + 8, false, [5]) := rfl
    have hp : Payload 0 [5] := .varint ⟨by decide, 5, rfl, rfl⟩
    have hread : Yields Msg.format Msg.tags .response Msg.response.init
        [0x88, 0x80, 0x80, 0x80, 0x10, 5] { requestId := 5, kind := .none } :=
      ⟨_, .varint htag rfl rfl (.done _ _)⟩
    exact decode_ne_of_record htb (Msg.own_eq_none (by norm_num)) hp hread (by decide)
  · have htb : Tag [0x88, 0x80, 0x80, 0x80, 0x80, 0x80, 0x80, 0x80, 0x80, 2] (2 ^ 64 + 8) :=
      ⟨by decide, by decide⟩
    have htag : number? [0x88, 0x80, 0x80, 0x80, 0x80, 0x80, 0x80, 0x80, 0x80, 2, 5] =
        some (8, false, [5]) := by decide
    have hp : Payload 0 [5] := .varint ⟨by decide, 5, rfl, rfl⟩
    have hread : Yields Msg.format Msg.tags .response Msg.response.init
        [0x88, 0x80, 0x80, 0x80, 0x80, 0x80, 0x80, 0x80, 0x80, 2, 5]
        { requestId := 5, kind := .none } :=
      ⟨_, .varint htag rfl rfl (.done _ _)⟩
    exact decode_ne_of_record htb (Msg.own_eq_none (by norm_num)) hp hread (by decide)
  · have htb : Tag [0x81, 0x80, 0x80, 0x80, 0x80, 0x80, 0x80, 0x10] (2 ^ 53 + 1) :=
      ⟨by decide, rfl⟩
    have htag : number? [0x81, 0x80, 0x80, 0x80, 0x80, 0x80, 0x80, 0x10,
        0, 8, 7, 0x48, 0, 0x48, 0x80, 0] =
        some (2 ^ 53 + 1, false, [0, 8, 7, 0x48, 0, 0x48, 0x80, 0]) := rfl
    have hp : Payload 1 [0, 8, 7, 0x48, 0, 0x48, 0x80, 0] := .fixed64 rfl
    -- the tag of a fixed64 record, rounded to that of a varint
    have hskip : Skips Msg.tags.size (Msg.tags.wire (2 ^ 53 + 1)) [0, 8, 7, 0x48, 0, 0x48, 0x80, 0]
        [8, 7, 0x48, 0, 0x48, 0x80, 0] false false := .varint rfl
    have hrest : Reads Msg.format Msg.tags .response Msg.response.init
        [8, 7, 0x48, 0, 0x48, 0x80, 0] { requestId := 7, kind := .none } _ :=
      .varint rfl rfl rfl (.skip rfl rfl (.varint rfl) (.skip rfl rfl (.varint rfl) (.done _ _)))
    exact decode_ne_of_record htb (Msg.own_eq_none (by norm_num)) hp
      ⟨_, .skip htag rfl hskip hrest⟩ (by decide)

/-- A response with its own tags. -/
theorem own_tags_plain :
    Msg.response.SetByOwnTags [0x08, 7, 0x4a, 1, 9] { requestId := 7, kind := .none } ∧
      decodeResponse [0x08, 7] = .ok { requestId := 7, kind := .none } := by
  have hseven : Skips id 0 [7, 0x4a, 1, 9] [0x4a, 1, 9] false false := .varint rfl
  have hlen : number? [1, 9] = some (1, false, [9]) := rfl
  have hone : Skips id 2 [1, 9] [] false false := .len hlen
  have hexact : Msg.response.ExactTags [0x08, 7, 0x4a, 1, 9] := by
    intro m' v hs
    rcases (Schema.stands_plain rfl hseven rfl).1 hs with ⟨rfl, rfl⟩ | hs
    · rfl
    rcases (Schema.stands_plain rfl hone rfl).1 hs with ⟨rfl, rfl⟩ | hs
    · rfl
    · cases hs with
      | head hv | next hv | inside hv => cases hv
  have hset : Msg.response.SetByOwnTags [0x08, 7, 0x4a, 1, 9] { requestId := 7, kind := .none } :=
    .varint rfl rfl rfl (.other rfl rfl hone (.done _ _))
  have hdecode := (hexact.decode_iff (by decide)).2 hset
  obtain ⟨-, hsame⟩ := ((own_tags_of_exact _ (by decide)).2 _ hdecode).1 hexact
  refine ⟨hset, hsame _ (.single ⟨?_, by decide⟩)⟩
  -- the record of field 9 goes
  have height : Tag [0x08] 0x08 := ⟨by decide, rfl⟩
  have hnine : Tag [0x4a] 0x4a := ⟨by decide, rfl⟩
  have hpid : Payload 0 [7] := .varint ⟨by decide, 7, rfl, rfl⟩
  have hp : Payload 2 ([1] ++ [9]) := .len ⟨by decide, 1, rfl, rfl⟩
  exact .next height hpid (.here rfl hnine hp)

end

end Tephra
