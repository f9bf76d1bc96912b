import Tephra.Framing
import Tephra.Proto.Schema
import Tephra.Utf8

/-!
# How large a decoded message is

A body of so many bytes decodes to no more: the code units of its strings, its payloads and two for
each element of its lists fit in the bytes it was read from.  A peer cannot make a decoder allocate
what it has not sent.

* `Msg.size` : the size of a wire struct.
* `Msg.measure_size` : no field raises it by more than the bytes of its record.
* `FrameDecoder.length_feed` : frames are no larger than the stream they are split from.
* `decoded_bounded` : so all that is decoded is no larger than all that was received.
-/

namespace Tephra

open Lib Records

/-- The code units of some strings, and two for each of them. -/
def sizeStrings (l : List JsString) : ℕ := (l.map fun s => s.length + 2).sum

theorem sizeStrings_append (l : List JsString) (s : JsString) :
    sizeStrings (l ++ [s]) = sizeStrings l + s.length + 2 := by
  simp only [sizeStrings, List.map_append, List.sum_append, List.map_cons, List.map_nil,
    List.sum_singleton]
  omega

/-- The size of an event. -/
def WireEvent.size (e : WireEvent) : ℕ :=
  e.type.length + sizeStrings e.tags + e.payload.length

/-- The size of a query item. -/
def WireQueryItem.size (item : WireQueryItem) : ℕ := sizeStrings item.types + sizeStrings item.tags

/-- The size of a query. -/
def WireQuery.size (q : WireQuery) : ℕ := (q.items.map fun item => item.size + 2).sum

/-- The size of an append condition. -/
def WireAppendCondition.size (c : WireAppendCondition) : ℕ :=
  c.failIfEventsMatch.size + (c.failIfExists.map WireQuery.size).getD 0

/-- The size of an append. -/
def WireAppendRequest.size (req : WireAppendRequest) : ℕ :=
  (req.events.map fun e => e.size + 2).sum + (req.condition.map WireAppendCondition.size).getD 0

/-- The size of a sequenced event. -/
def WireSequencedEvent.size (e : WireSequencedEvent) : ℕ := (e.event.map WireEvent.size).getD 0

/-- The size of a batch of events. -/
def WireReadEvents.size (res : WireReadEvents) : ℕ := (res.events.map fun e => e.size + 2).sum

/-- The size of a request kind. -/
def RequestKind.size : RequestKind → ℕ
  | .append req => req.size
  | .read req => req.query.size
  | .subscribe req => req.query.size
  | .hello req => (req.authToken.map List.length).getD 0
  | .cancel _ | .stats | .none => 0

/-- The size of a response kind. -/
def ResponseKind.size : ResponseKind → ℕ
  | .readEvents res => res.size
  | .error res => res.message.length
  | .stats res => res.version.length
  | .helloAck ack => ack.serverVersion.length
  | .append _ | .readEnd _ | .caughtUp _ | .none => 0

namespace Msg

/-- The size of a wire struct. -/
def size : (m : Msg) → m.Val → ℕ
  | event => WireEvent.size
  | queryItem => WireQueryItem.size
  | query => WireQuery.size
  | condition => WireAppendCondition.size
  | appendRequest => WireAppendRequest.size
  | readRequest => fun req => req.query.size
  | subscribeRequest => fun req => req.query.size
  | hello => fun req => (req.authToken.map List.length).getD 0
  | request => fun request => request.kind.size
  | sequencedEvent => WireSequencedEvent.size
  | readEvents => WireReadEvents.size
  | statsResponse => fun res => res.version.length
  | errorResponse => fun res => res.message.length
  | helloAck => fun ack => ack.serverVersion.length
  | response => fun response => response.kind.size
  | cancelRequest | appendResponse | watermark => fun _ => 0

section

variable [TextCodec]

/-- No field raises the size by more than the bytes of its record. -/
theorem measure_size (hdecode : ∀ b : Bytes, (decodeUtf8 b).length ≤ b.length) :
    format.Measure size where
  init m := by cases m <;> rfl
  varint st v h := by
    rename_i m n
    cases m <;> rcases n with _ | _ | _ | _ | _ | _ | _ | _ | _ | _ | _ | n <;> cases h <;>
      exact Nat.le_add_right _ 2
  bytes st b h := by
    rename_i m n
    have := hdecode b
    cases m <;> rcases n with _ | _ | _ | _ | _ | _ | _ | _ | _ | _ | _ | n <;> cases h
    all_goals
      first
      -- the body of a stats request is left alone
      | exact Nat.zero_le _
      | simp only [size, format, set, field, eventField, queryItemField, helloField,
          statsResponseField, errorResponseField, helloAckField, WireEvent.size,
          WireQueryItem.size, sizeStrings_append, Option.map_some, Option.getD_some]
        omega
  message st x h := by
    rename_i m n m'
    cases m <;> rcases n with _ | _ | _ | _ | _ | _ | _ | _ | _ | _ | _ | n <;> cases h
    all_goals
      simp only [size, format, set, embed, WireQuery.size, WireAppendCondition.size,
        WireAppendRequest.size, WireSequencedEvent.size, WireReadEvents.size, RequestKind.size,
        ResponseKind.size, Option.map_some, Option.getD_some, List.map_append, List.sum_append,
        List.map_cons, List.map_nil, List.sum_singleton]
      omega

theorem size_le_of_decode (hdecode : ∀ b : Bytes, (decodeUtf8 b).length ≤ b.length) {m : Msg}
    {b : Bytes} {x : m.Val} (h : m.decode b = .ok x) : size m x ≤ b.length := by
  obtain ⟨tr, hreads⟩ := Msg.decode_eq_ok.1 h
  have hle := hreads.size_le (measure_size hdecode) fun hfield => (tags_field_eq_some.1 hfield).2
  have hinit : size m m.init = 0 := (measure_size hdecode).init m
  rwa [hinit, Nat.zero_add] at hle

end

end Msg

/-! ### Frames -/

namespace FrameDecoder

open Splitter

/-- A frame takes four bytes more than its body, which is not over the limit. -/
theorem frames_items (maxFrameLen : ℕ) (s : Bytes) : ∀ i ∈ ((frames maxFrameLen).parse s).items,
    i.2 = i.1.length + 4 ∧ i.1.length ≤ maxFrameLen := by
  induction s using parse_induction (S := frames maxFrameLen) with
  | more s h =>
    rw [parse_more h]
    intro i hi
    cases hi
  | bad s h =>
    rw [parse_bad h]
    intro i hi
    cases hi
  | item s b n h ih =>
    obtain ⟨hfour, hmax, hn, hle, hb⟩ := frameHead_item h
    have hlen : b.length = readU32BE s 0 := by
      rw [hb, List.length_take, List.length_drop]
      omega
    rw [parse_item h]
    intro i hi
    rcases List.mem_cons.1 hi with rfl | hi
    · exact ⟨by simp only; omega, by simp only; omega⟩
    · exact ih i hi

/-- The frames of some chunks are no larger than what was buffered and the chunks. -/
theorem length_feed (d : FrameDecoder) (chunks : List Bytes) :
    ((d.feed chunks).1.map fun body => body.length + 4).sum ≤
        d.buffer.length + chunks.flatten.length ∧
      ∀ body ∈ (d.feed chunks).1, body.length ≤ d.maxFrameLen := by
  -- on the chunks: each body leaves the buffer with its prefix
  induction chunks generalizing d with
  | nil => exact ⟨Nat.zero_le _, fun body hbody => by cases hbody⟩
  | cons chunk chunks ih =>
    cases hbad : ((frames d.maxFrameLen).parse (d.buffer ++ chunk)).bad with
    | true =>
      simp only [feed, push_of_bad hbad]
      exact ⟨Nat.zero_le _, fun body hbody => by cases hbody⟩
    | false =>
      have hitems := frames_items d.maxFrameLen (d.buffer ++ chunk)
      have hsize := Splitter.size_le (S := frames d.maxFrameLen) (d.buffer ++ chunk)
      have hrest := Splitter.rest_eq_drop (S := frames d.maxFrameLen) (d.buffer ++ chunk)
      simp only [feed, push_of_not_bad hbad]
      generalize (frames d.maxFrameLen).parse (d.buffer ++ chunk) = p at hitems hsize hrest
      obtain ⟨hsum, hbodies⟩ := ih { d with buffer := p.rest }
      have hvalues : (p.values.map fun body => body.length + 4).sum = p.size := by
        rw [Parsed.values, Parsed.size, List.map_map]
        exact congrArg List.sum (List.map_congr_left fun i hi => (hitems i hi).1.symm)
      refine ⟨?_, fun body hbody => ?_⟩
      · rw [List.map_append, List.sum_append, hvalues, List.flatten_cons, List.length_append]
        have hlen : p.rest.length = d.buffer.length + chunk.length - p.size := by
          rw [hrest, List.length_drop, List.length_append]
        rw [List.length_append] at hsize
        simp only [hlen] at hsum
        omega
      · rcases List.mem_append.1 hbody with hbody | hbody
        · obtain ⟨i, hi, rfl⟩ := List.mem_map.1 hbody
          exact (hitems i hi).2
        · exact hbodies body hbody

end FrameDecoder

/-- **What is received bounds what is decoded.**  Whatever bytes arrive, in whatever chunks: the
messages decoded from the frames they are split into are together no larger than these bytes, and
none is larger than `maxFrameLen`, even if every frame is taken for the message that suits it worst.
-/
theorem decoded_bounded [TextCodec] (hdecode : ∀ b : Bytes, (decodeUtf8 b).length ≤ b.length)
    (maxFrameLen : ℕ) (chunks : List Bytes) (m : Msg) :
    let messages := ((FrameDecoder.new maxFrameLen).feed chunks).1.filterMap fun body =>
      (m.decode body).toOption
    (messages.map m.size).sum ≤ chunks.flatten.length ∧
      ∀ x ∈ messages, m.size x ≤ maxFrameLen := by
  obtain ⟨hsum, hbodies⟩ := (FrameDecoder.new maxFrameLen).length_feed chunks
  rw [show (FrameDecoder.new maxFrameLen).buffer.length = 0 from rfl, Nat.zero_add] at hsum
  simp only
  generalize ((FrameDecoder.new maxFrameLen).feed chunks).1 = bodies at hsum hbodies
  have hsize : ∀ body x, (m.decode body).toOption = some x → m.size x ≤ body.length := by
    intro body x hx
    cases hresult : m.decode body with
    | error err => rw [hresult] at hx; cases hx
    | ok y =>
      rw [hresult] at hx
      cases hx
      exact Msg.size_le_of_decode hdecode hresult
  refine ⟨le_trans ?_ hsum, fun x hx => ?_⟩
  · clear hsum hbodies
    induction bodies with
    | nil => exact Nat.zero_le _
    | cons body bodies ih =>
      rw [List.filterMap_cons]
      cases hx : (m.decode body).toOption with
      | none => exact ih.trans (Nat.le_add_left _ _)
      | some x =>
        have := hsize body x hx
        simp only [List.map_cons, List.sum_cons]
        omega
  · obtain ⟨body, hbody, hx⟩ := List.mem_filterMap.1 hx
    exact (hsize body x hx).trans (hbodies body hbody)

/-! ### The standard decoder -/

namespace Utf8

theorem length_utf16_le (c : ℕ) : (utf16 c).length ≤ 2 := by
  unfold utf16
  split_ifs <;> simp

/-- The code unit that is due for the bytes of an unfinished sequence. -/
def State.due (st : State) : ℕ := if st.needed = 0 then 0 else 1

theorem due_idle : State.idle.due = 0 := rfl

theorem due_le (st : State) : st.due ≤ 1 := by
  unfold State.due
  split_ifs <;> omega

theorem length_first_le (b : ℕ) :
    ((first b).2.flatMap utf16).length + (first b).1.due ≤ 1 := by
  have hdue := due_le (first b).1
  by_cases hascii : b < 0x80
  · have hunit : utf16 b = [UInt16.ofNat b] := if_pos (by omega)
    simp only [first, if_pos hascii, List.flatMap_singleton, hunit, due_idle]
    exact le_rfl
  by_cases hlead : 0xc2 ≤ b ∧ b ≤ 0xf4
  · have hnone : (first b).2 = [] := by
      unfold first
      rw [if_neg hascii]
      split_ifs <;> first | rfl | omega
    rw [hnone]
    simpa using hdue
  · have heq : first b = (.idle, [0xfffd]) := by
      unfold first
      rw [if_neg hascii, if_neg (by omega), if_neg (by omega), if_neg (by omega)]
    rw [heq]
    exact le_rfl

/-- A byte adds at most one code unit to those that are out or due. -/
theorem length_next_le (st : State) (b : ℕ) :
    ((next st b).2.flatMap utf16).length + (next st b).1.due ≤ st.due + 1 := by
  have hfirst := length_first_le b
  by_cases hidle : st.needed = 0
  · rw [next, if_pos hidle]
    omega
  have hdue : st.due = 1 := if_neg hidle
  unfold next
  rw [if_neg hidle, hdue]
  split_ifs with hbroken hlast
  · show ((0xfffd :: (first b).2).flatMap utf16).length + (first b).1.due ≤ 1 + 1
    rw [List.flatMap_cons, List.length_append, show (utf16 0xfffd).length = 1 from rfl]
    omega
  · have := length_utf16_le (st.codePoint * 0x40 + b % 0x40)
    rw [List.flatMap_singleton, due_idle]
    exact this
  · rw [List.flatMap_nil, List.length_nil, Nat.zero_add]
    exact (due_le _).trans (by omega)

theorem length_decodeFrom_le (st : State) (bs : Bytes) :
    ((decodeFrom st bs).flatMap utf16).length ≤ st.due + bs.length := by
  induction bs generalizing st with
  | nil =>
    rw [decodeFrom, State.due]
    split_ifs
    · exact Nat.zero_le _
    · exact le_rfl
  | cons b bs ih =>
    have := length_next_le st b.toNat
    have := ih (next st b.toNat).1
    rw [decodeFrom, List.flatMap_append, List.length_append, List.length_cons]
    omega

/-- The standard decoder gives at most one code unit for each byte. -/
theorem length_decode_le (bytes : Bytes) : (utf8Codec.decode bytes).length ≤ bytes.length := by
  have hle := length_decodeFrom_le .idle bytes
  rw [show State.due .idle = 0 from rfl, Nat.zero_add] at hle
  refine le_trans ?_ hle
  show ((stripBom (decodeFrom .idle bytes)).flatMap utf16).length ≤ _
  generalize decodeFrom .idle bytes = cs
  unfold stripBom
  split
  · rw [List.flatMap_cons, List.length_append]
    exact Nat.le_add_left _ _
  · exact le_rfl

end Utf8

section

attribute [local instance] utf8Codec

/-- The frame of a batch with two empty events. -/
def emptyEvents : Bytes := [0, 0, 0, 8, 8, 2, 26, 4, 10, 0, 10, 0]

/-- Twelve bytes decode to a batch whose list counts four. -/
theorem empty_events_bounded :
    ((((FrameDecoder.new 1000).feed [emptyEvents]).1.filterMap fun body =>
        (decodeResponse body).toOption).map (Msg.size .response)) = [4] ∧
      ((((FrameDecoder.new 1000).feed [emptyEvents]).1.filterMap fun body =>
        (decodeResponse body).toOption).map (Msg.size .response)).sum ≤ 12 :=
  ⟨by decide +kernel, (decoded_bounded Utf8.length_decode_le 1000 [emptyEvents] .response).1⟩

end

end Tephra
