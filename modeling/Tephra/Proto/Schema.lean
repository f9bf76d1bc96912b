import Tephra.Proto.Messages
import Tephra.Lib.Records

/-!
# The decoders as one record reader

The decoders of `messages.ts` are instances of the reader of `Lib.Records`: `kind` is the schema
their `switch`es follow, `set` is what a field does to the message so far, and `tags` is how
`Reader.tag` and `Reader.bytes` take tags and lengths.

* `FieldReader.Takes` : what a decoder does with the record of a field.
* `Msg.decode_eq_ok` : a decoder returns exactly what that reader yields.
-/

namespace Tephra

open Lib Records

/-- The messages that have a decoder. -/
inductive Msg
  | event | queryItem | query | condition
  | appendRequest | readRequest | subscribeRequest | cancelRequest | hello | request
  | sequencedEvent | appendResponse | readEvents | watermark | statsResponse | errorResponse
  | helloAck | response
  deriving DecidableEq, Repr

namespace Msg

/-- The wire struct of a message. -/
abbrev Val : Msg → Type
  | event => WireEvent
  | queryItem => WireQueryItem
  | query => WireQuery
  | condition => WireAppendCondition
  | appendRequest => WireAppendRequest
  | readRequest => WireReadRequest
  | subscribeRequest => WireSubscribeRequest
  | cancelRequest => WireCancelRequest
  | hello => WireHello
  | request => WireRequest
  | sequencedEvent => WireSequencedEvent
  | appendResponse => WireAppendResponse
  | readEvents => WireReadEvents
  | watermark => ℤ
  | statsResponse => WireStatsResponse
  | errorResponse => WireErrorResponse
  | helloAck => WireHelloAck
  | response => WireResponse

/-- The message a decoder starts from. -/
def init : (m : Msg) → m.Val
  | event => { type := [], tags := [], payload := [] }
  | queryItem => { types := [], tags := [] }
  | query => emptyQuery
  | condition => { failIfEventsMatch := emptyQuery, after := 0, failIfExists := none }
  | appendRequest => { events := [], condition := none }
  | readRequest => { query := emptyQuery, after := 0, limit := none, reverse := false }
  | subscribeRequest => { query := emptyQuery, after := 0 }
  | cancelRequest => { target := 0 }
  | hello => { protocolVersion := 0, authToken := none }
  | request => { requestId := 0, kind := .none }
  | sequencedEvent => { position := 0, event := none }
  | appendResponse => { first := 0, last := 0 }
  | readEvents => { events := [] }
  | watermark => (0 : ℤ)
  | statsResponse =>
    { eventCount := 0, segmentCount := 0, diskBytes := 0, uptimeSeconds := 0,
      activeConnections := 0, activeSubscriptions := 0, version := [], connectionsRefused := 0,
      maxConnections := 0, connectionsReaped := 0 }
  | errorResponse => { code := 0, message := [], conflictPosition := none, retryable := false }
  | helloAck => { protocolVersion := 0, serverVersion := [] }
  | response => { requestId := 0, kind := .none }

/-- The schema.  The body of a stats request is not decoded. -/
def kind : Msg → ℕ → Option (Kind Msg)
  | event, 1 | event, 2 | event, 3 => some .bytes
  | queryItem, 1 | queryItem, 2 => some .bytes
  | query, 1 => some .varint
  | query, 2 => some (.message queryItem)
  | condition, 1 | condition, 3 => some (.message query)
  | condition, 2 => some .varint
  | appendRequest, 1 => some (.message event)
  | appendRequest, 2 => some (.message condition)
  | readRequest, 1 => some (.message query)
  | readRequest, 2 | readRequest, 3 | readRequest, 4 => some .varint
  | subscribeRequest, 1 => some (.message query)
  | subscribeRequest, 2 => some .varint
  | cancelRequest, 1 => some .varint
  | hello, 1 => some .varint
  | hello, 2 => some .bytes
  | request, 1 => some .varint
  | request, 2 => some (.message appendRequest)
  | request, 3 => some (.message readRequest)
  | request, 4 => some (.message subscribeRequest)
  | request, 5 => some (.message cancelRequest)
  | request, 6 => some .bytes
  | request, 7 => some (.message hello)
  | sequencedEvent, 1 => some .varint
  | sequencedEvent, 2 => some (.message event)
  | appendResponse, 1 | appendResponse, 2 => some .varint
  | readEvents, 1 => some (.message sequencedEvent)
  | watermark, 1 => some .varint
  | statsResponse, 1 | statsResponse, 2 | statsResponse, 3 | statsResponse, 4 | statsResponse, 5
  | statsResponse, 6 | statsResponse, 8 | statsResponse, 9 | statsResponse, 10 => some .varint
  | statsResponse, 7 => some .bytes
  | errorResponse, 1 | errorResponse, 3 | errorResponse, 4 => some .varint
  | errorResponse, 2 => some .bytes
  | helloAck, 1 => some .varint
  | helloAck, 2 => some .bytes
  | response, 1 => some .varint
  | response, 2 => some (.message appendResponse)
  | response, 3 => some (.message readEvents)
  | response, 4 => some (.message watermark)
  | response, 5 => some (.message errorResponse)
  | response, 6 => some (.message watermark)
  | response, 7 => some (.message statsResponse)
  | response, 8 => some (.message helloAck)
  | _, _ => none

/-- The alternatives of `kind`. -/
def oneof : Msg → ℕ → Prop
  | request, n => 2 ≤ n ∧ n ≤ 7
  | response, n => 2 ≤ n ∧ n ≤ 8
  | _, _ => False

/-- The schema of `kind`. -/
def schema : Schema Msg := ⟨kind⟩

/-- What an embedded message does. -/
def embed (m : Msg) (st : m.Val) (n : ℕ) (m' : Msg) (x : m'.Val) : m.Val :=
  match m, st, n, m', x with
  | query, st, _, queryItem, x => { st with items := st.items ++ [x] }
  | condition, st, 1, query, x => { st with failIfEventsMatch := x }
  | condition, st, 3, query, x => { st with failIfExists := some x }
  | appendRequest, st, _, event, x => { st with events := st.events ++ [x] }
  | appendRequest, st, _, condition, x => { st with condition := some x }
  | readRequest, st, _, query, x => { st with query := x }
  | subscribeRequest, st, _, query, x => { st with query := x }
  | request, st, _, appendRequest, x => { st with kind := .append x }
  | request, st, _, readRequest, x => { st with kind := .read x }
  | request, st, _, subscribeRequest, x => { st with kind := .subscribe x }
  | request, st, _, cancelRequest, x => { st with kind := .cancel x }
  | request, st, _, hello, x => { st with kind := .hello x }
  | sequencedEvent, st, _, event, x => { st with event := some x }
  | readEvents, st, _, sequencedEvent, x => { st with events := st.events ++ [x] }
  | response, st, _, appendResponse, x => { st with kind := .append x }
  | response, st, _, readEvents, x => { st with kind := .readEvents x }
  | response, st, 4, watermark, x => { st with kind := .readEnd { watermark := x } }
  | response, st, 6, watermark, x => { st with kind := .caughtUp { watermark := x } }
  | response, st, _, errorResponse, x => { st with kind := .error x }
  | response, st, _, statsResponse, x => { st with kind := .stats x }
  | response, st, _, helloAck, x => { st with kind := .helloAck x }
  | _, st, _, _, _ => st

section

variable [TextCodec]

/-- The `switch` of a decoder. -/
def field : (m : Msg) → m.Val → ℕ → Option (FieldReader m.Val)
  | event => eventField
  | queryItem => queryItemField
  | query => queryField
  | condition => conditionField
  | appendRequest => appendRequestField
  | readRequest => readRequestField
  | subscribeRequest => subscribeRequestField
  | cancelRequest => cancelRequestField
  | hello => helloField
  | request => requestField
  | sequencedEvent => sequencedEventField
  | appendResponse => appendResponseField
  | readEvents => readEventsField
  | watermark => watermarkField
  | statsResponse => statsResponseField
  | errorResponse => errorResponseField
  | helloAck => helloAckField
  | response => responseField

/-- The decoder. -/
def decode (m : Msg) (r : Reader) : Except Err m.Val := readMessage m.field m.init r

/-- What a field does. -/
def set (m : Msg) (st : m.Val) (n : ℕ) : Value Val → m.Val
  | .varint v =>
    match m.field st n with
    | some (.varintBig f) => f v
    | some (.varint f) => f (toNumber v)
    | some (.bool f) => f (v != 0)
    | _ => st
  | .bytes b =>
    match m.field st n with
    | some (.string f) => f (decodeUtf8 b)
    | some (.bytes f) => f b
    -- the stats request, whose body is left alone
    | some (.message f) => ((f b).toOption).getD st
    | _ => st
  | .message m' x => m.embed st n m' x

/-- The messages as a format. -/
def format : Format Msg Val where
  toSchema := schema
  init := init
  set := set

end

/-- `fieldNo` of `Reader.tag`. -/
def number (t : ℕ) : ℕ := toUint32 (toNumber t) >>> 3

/-- How `Reader` takes tags and lengths. -/
def tags : Tags Msg where
  field m t := (kind m (number t)).map fun k => (number t, k)
  wire t := toUint32 (toNumber t) &&& 0x7
  size := toNumber

end Msg

open Msg

/-! ### The reader's operations -/

theorem Reader.varintBig_eq_ok {r r' : Reader} {v : ℕ} :
    r.varintBig = .ok (v, r') ↔ ∃ l, number? r = some (v, l, r') := by
  rw [Reader.varintBig_eq, number?]
  cases Base128.decode? r with
  | none => simp
  | some p => simp

theorem Reader.tag_eq_ok {r r' : Reader} {n w : ℕ} :
    r.tag = .ok ((n, w), r') ↔
      ∃ t l, number? r = some (t, l, r') ∧ number t = n ∧ tags.wire t = w := by
  simp only [Reader.tag, bind_eq_ok, Prod.exists, Reader.varintBig_eq_ok]
  constructor
  · rintro ⟨t, q, ⟨l, ht⟩, h⟩
    cases h
    exact ⟨t, l, ht, rfl, rfl⟩
  · rintro ⟨t, l, ht, rfl, rfl⟩
    exact ⟨t, r', ⟨l, ht⟩, rfl⟩

theorem Reader.bytes_eq_ok {r r' : Reader} {b : Bytes} :
    r.bytes = .ok (b, r') ↔ ∃ v l q, number? r = some (v, l, q) ∧ tags.size v ≤ q.length ∧
      q.take (tags.size v) = b ∧ q.drop (tags.size v) = r' := by
  constructor
  · intro h
    obtain ⟨⟨v, q⟩, hv, h⟩ := bind_eq_ok.1 h
    obtain ⟨l, hv⟩ := Reader.varintBig_eq_ok.1 hv
    simp only at h
    split_ifs at h with hlt
    · cases h
    · cases h
      exact ⟨v, l, q, hv, Nat.le_of_not_lt hlt, rfl, rfl⟩
  · rintro ⟨v, l, q, hv, hle, rfl, rfl⟩
    rw [Reader.bytes, Reader.varintBig_eq_ok.2 ⟨l, hv⟩]
    simp only [ok_bind]
    rw [if_neg (show ¬ toNumber v > q.length from Nat.not_lt.2 hle)]
    rfl

theorem Reader.skip_eq_ok {r r' : Reader} {w : ℕ} :
    r.skip w = .ok r' ↔ ∃ l o, Skips tags.size w r r' l o := by
  constructor
  · intro h
    rw [Reader.skip] at h
    split_ifs at h with h0 h1 h2 h5
    · obtain ⟨⟨v, q⟩, hv, h⟩ := bind_eq_ok.1 h
      obtain ⟨l, hv⟩ := Reader.varintBig_eq_ok.1 hv
      cases h
      rw [h0]
      exact ⟨l, _, .varint hv⟩
    · cases h
      rw [h1]
      exact ⟨_, _, .fixed64⟩
    · obtain ⟨⟨v, q⟩, hv, h⟩ := bind_eq_ok.1 h
      obtain ⟨l, hv⟩ := Reader.varintBig_eq_ok.1 hv
      cases h
      rw [h2]
      exact ⟨l, _, .len hv⟩
    · cases h
      rw [h5]
      exact ⟨_, _, .fixed32⟩
  · rintro ⟨l, o, h⟩
    cases h with
    | varint hv =>
      rw [Reader.skip, if_pos (by rfl), Reader.varintBig_eq_ok.2 ⟨l, hv⟩]
      rfl
    | fixed64 => rfl
    | len hv =>
      rw [Reader.skip, if_neg (by decide), if_neg (by decide), if_pos (by rfl),
        Reader.varintBig_eq_ok.2 ⟨l, hv⟩]
      rfl
    | fixed32 => rfl

theorem Msg.tags_field_eq_some {m : Msg} {t n : ℕ} {k : Kind Msg} :
    tags.field m t = some (n, k) ↔ number t = n ∧ m.kind n = some k := by
  simp only [tags, Option.map_eq_some_iff, Prod.mk.injEq]
  constructor
  · rintro ⟨k', hk, rfl, rfl⟩
    exact ⟨rfl, hk⟩
  · rintro ⟨rfl, hk⟩
    exact ⟨k, hk, rfl, rfl⟩

theorem Msg.tags_field_eq_none {m : Msg} {t : ℕ} :
    tags.field m t = none ↔ m.kind (number t) = none :=
  Option.map_eq_none_iff

theorem ne_nil_of_number? {b r : Bytes} {t : ℕ} {l : Bool} (h : number? b = some (t, l, r)) :
    b ≠ [] :=
  List.length_pos_iff.1 ((Nat.zero_le _).trans_lt (length_of_number? h))

section

variable [TextCodec]

/-- The field reader takes a payload of the kind and does what `set` says. -/
def FieldReader.Takes {m : Msg} (f : FieldReader m.Val) (set : Value Val → m.Val) :
    Kind Msg → Prop
  | .varint => ∀ r, f.read r = do
      let (v, r) ← r.varintBig
      return (set (.varint v), r)
  | .bytes => ∀ r, f.read r = do
      let (v, r) ← r.bytes
      return (set (.bytes v), r)
  | .message m' => ∀ r, f.read r = do
      let (v, r) ← r.bytes
      let x ← m'.decode v
      return (set (.message m' x), r)

section

variable {m : Msg} {g : Value Val → m.Val}

theorem FieldReader.takes_varintBig {f : ℤ → m.Val} (h : ∀ v : ℕ, g (.varint v) = f v) :
    (FieldReader.varintBig f).Takes g .varint := by
  intro r
  simp only [FieldReader.read, h]

theorem FieldReader.takes_varint {f : ℤ → m.Val}
    (h : ∀ v : ℕ, g (.varint v) = f (toNumber v)) : (FieldReader.varint f).Takes g .varint := by
  intro r
  simp only [FieldReader.read, Reader.varint, h, bind_assoc, pure_bind]

theorem FieldReader.takes_bool {f : Bool → m.Val} (h : ∀ v : ℕ, g (.varint v) = f (v != 0)) :
    (FieldReader.bool f).Takes g .varint := by
  intro r
  simp only [FieldReader.read, Reader.bool, h, bind_assoc, pure_bind]

theorem FieldReader.takes_string {f : JsString → m.Val}
    (h : ∀ b, g (.bytes b) = f (decodeUtf8 b)) : (FieldReader.string f).Takes g .bytes := by
  intro r
  simp only [FieldReader.read, h]

theorem FieldReader.takes_bytes {f : Bytes → m.Val} (h : ∀ b, g (.bytes b) = f b) :
    (FieldReader.bytes f).Takes g .bytes := by
  intro r
  simp only [FieldReader.read, h]

theorem FieldReader.takes_ignored {st : m.Val} (h : ∀ b, g (.bytes b) = st) :
    (FieldReader.message fun _ => return st).Takes g .bytes := by
  intro r
  simp only [FieldReader.read, h, pure_bind]

end

theorem FieldReader.takes_message {m m' : Msg} {st : m.Val} {n : ℕ} {f : FieldReader m.Val}
    (h : f = .message fun r => do return m.embed st n m' (← m'.decode r)) :
    f.Takes (m.set st n) (.message m') := by
  intro r
  rw [h]
  simp only [FieldReader.read, bind_assoc, pure_bind]
  rfl

theorem Msg.field_of_kind_eq_none {m : Msg} {n : ℕ} (h : m.kind n = none) (st : m.Val) :
    m.field st n = none := by
  cases m <;> rcases n with _ | _ | _ | _ | _ | _ | _ | _ | _ | _ | _ | n <;>
    first | rfl | cases h

/-- **Every `switch` follows the schema.** -/
theorem Msg.field_of_kind {m : Msg} {n : ℕ} {k : Kind Msg} (h : m.kind n = some k) (st : m.Val) :
    ∃ f, m.field st n = some f ∧ f.Takes (m.set st n) k := by
  cases m <;> rcases n with _ | _ | _ | _ | _ | _ | _ | _ | _ | _ | _ | n <;> cases h <;>
    refine ⟨_, rfl, ?_⟩ <;>
    first
    | exact FieldReader.takes_varintBig fun _ => rfl
    | exact FieldReader.takes_varint fun _ => rfl
    | exact FieldReader.takes_bool fun _ => rfl
    | exact FieldReader.takes_string fun _ => rfl
    | exact FieldReader.takes_bytes fun _ => rfl
    | exact FieldReader.takes_message rfl
    | exact FieldReader.takes_ignored fun _ => rfl

/-- The fields of a message may be set in any order, unless one of them replaces the other. -/
theorem Msg.format_commutes : format.Commutes oneof := by
  intro m n n' k k' v v' st h h' hv hv' hne ho
  cases m <;> rcases n with _ | _ | _ | _ | _ | _ | _ | _ | _ | _ | _ | n <;> cases h <;>
    rcases n' with _ | _ | _ | _ | _ | _ | _ | _ | _ | _ | _ | n' <;> cases h' <;>
    first
    | exact absurd rfl hne
    | (cases v <;> cases hv; cases v' <;> cases hv'; rfl)
    | exact absurd ⟨⟨by decide, by decide⟩, by decide, by decide⟩ ho

/-! ### A decoder is that reader -/

/-- A decoder that returns has read its body as the record reader does. -/
theorem Msg.yields_of_readMessage {m : Msg} {st x : m.Val} {b : Bytes}
    (h : readMessage m.field st b = .ok x) : Yields format tags m st b x := by
  induction hn : b.length using Nat.strongRecOn generalizing m b with
  | ind _ ih =>
    subst hn
    by_cases hb : b = []
    · subst hb
      cases h
      exact ⟨[], .done m st⟩
    rw [readMessage_of_ne_nil hb] at h
    -- a tag comes first, and then a field that is known or skipped
    obtain ⟨⟨⟨n, w⟩, r⟩, htag, h⟩ := bind_eq_ok.1 h
    obtain ⟨t, l, ht, rfl, rfl⟩ := Reader.tag_eq_ok.1 htag
    have hr := length_of_number? ht
    simp only at h
    cases hk : m.kind (number t) with
    | none =>
      rw [field_of_kind_eq_none hk] at h
      obtain ⟨r', hskip, h⟩ := bind_eq_ok.1 h
      obtain ⟨l', o, hs⟩ := Reader.skip_eq_ok.1 hskip
      have hr' := Reader.length_skip hskip
      obtain ⟨tr, htr⟩ := ih _ (by omega) h rfl
      exact ⟨_, .skip ht (tags_field_eq_none.2 hk) hs htr⟩
    | some k =>
      obtain ⟨f, hf, htakes⟩ := field_of_kind hk st
      have hfield := tags_field_eq_some.2 ⟨rfl, hk⟩
      rw [hf] at h
      obtain ⟨⟨st', r'⟩, hread, h⟩ := bind_eq_ok.1 h
      simp only at h
      have hr' : r'.length ≤ r.length := FieldReader.length_read hread
      obtain ⟨tr, htr⟩ := ih _ (by omega) h rfl
      cases k with
      | varint =>
        rw [htakes r] at hread
        obtain ⟨⟨v, q⟩, hv, he⟩ := bind_eq_ok.1 hread
        obtain ⟨l', hv⟩ := Reader.varintBig_eq_ok.1 hv
        cases he
        exact ⟨_, .varint ht hfield hv htr⟩
      | bytes =>
        rw [htakes r] at hread
        obtain ⟨⟨v, q⟩, hv, he⟩ := bind_eq_ok.1 hread
        obtain ⟨v', l', q', hv', hle, rfl, rfl⟩ := Reader.bytes_eq_ok.1 hv
        cases he
        exact ⟨_, .bytes ht hfield hv' hle htr⟩
      | message m' =>
        rw [htakes r] at hread
        obtain ⟨⟨v, q⟩, hv, he⟩ := bind_eq_ok.1 hread
        obtain ⟨y, hy, hset⟩ := bind_eq_ok.1 he
        obtain ⟨v', l', q', hv', hle, rfl, rfl⟩ := Reader.bytes_eq_ok.1 hv
        cases hset
        -- the embedded message is read by the decoder of its own type
        have hq := length_of_number? hv'
        obtain ⟨tr', htr'⟩ := ih _ (by rw [List.length_take]; omega) hy rfl
        exact ⟨_, .message ht hfield hv' hle htr' htr⟩

theorem Msg.readMessage_field {m : Msg} {st st' : m.Val} {b r r' : Bytes} {t n : ℕ} {l : Bool}
    {k : Kind Msg} {f : FieldReader m.Val} (ht : number? b = some (t, l, r))
    (hfield : tags.field m t = some (n, k)) (hf : m.field st n = some f)
    (hread : f.read r = .ok (st', r')) : readMessage m.field st b = readMessage m.field st' r' := by
  obtain ⟨rfl, -⟩ := tags_field_eq_some.1 hfield
  rw [readMessage_of_ne_nil (ne_nil_of_number? ht), Reader.tag_eq_ok.2 ⟨t, l, ht, rfl, rfl⟩]
  simp only [ok_bind, hf, hread]

theorem Msg.readMessage_of_reads {m : Msg} {st x : m.Val} {b : Bytes} {tr : List (Met Msg)}
    (h : Reads format tags m st b x tr) : readMessage m.field st b = .ok x := by
  induction h with
  | done m st => rfl
  | @varint m st b t l r n v l' r' x tr ht hfield hv _ ih =>
    obtain ⟨f, hf, htakes⟩ := field_of_kind (tags_field_eq_some.1 hfield).2 st
    have hread : f.read r = .ok (m.set st n (.varint v), r') := by
      rw [htakes r, Reader.varintBig_eq_ok.2 ⟨l', hv⟩]
      rfl
    exact (readMessage_field ht hfield hf hread).trans ih
  | @bytes m st b t l r n v l' r' x tr ht hfield hv hle _ ih =>
    obtain ⟨f, hf, htakes⟩ := field_of_kind (tags_field_eq_some.1 hfield).2 st
    have hread : f.read r =
        .ok (m.set st n (.bytes (r'.take (tags.size v))), r'.drop (tags.size v)) := by
      rw [htakes r, Reader.bytes_eq_ok.2 ⟨v, l', r', hv, hle, rfl, rfl⟩]
      rfl
    exact (readMessage_field ht hfield hf hread).trans ih
  | @message m st b t l r n m' v l' r' y tr' x tr ht hfield hv hle _ _ ihp ih =>
    obtain ⟨f, hf, htakes⟩ := field_of_kind (tags_field_eq_some.1 hfield).2 st
    have hy : m'.decode (r'.take (tags.size v)) = .ok y := ihp
    have hread : f.read r = .ok (m.set st n (.message m' y), r'.drop (tags.size v)) := by
      rw [htakes r, Reader.bytes_eq_ok.2 ⟨v, l', r', hv, hle, rfl, rfl⟩]
      simp only [ok_bind, hy]
      rfl
    exact (readMessage_field ht hfield hf hread).trans ih
  | @skip m st b t l r r' l' o x tr ht hfield hskip _ ih =>
    rw [readMessage_of_ne_nil (ne_nil_of_number? ht), Reader.tag_eq_ok.2 ⟨t, l, ht, rfl, rfl⟩]
    simp only [ok_bind, field_of_kind_eq_none (tags_field_eq_none.1 hfield),
      Reader.skip_eq_ok.2 ⟨l', o, hskip⟩]
    exact ih

/-- **A decoder returns exactly what the record reader yields.** -/
theorem Msg.decode_eq_ok {m : Msg} {x : m.Val} {b : Bytes} :
    m.decode b = .ok x ↔ Yields format tags m m.init b x := by
  constructor
  · intro h
    exact yields_of_readMessage h
  · rintro ⟨tr, h⟩
    exact readMessage_of_reads h

end

end Tephra
