import Tephra.Proto.Compat
import Tephra.Proto.Received

/-!
# What the encoders emit

Every encoder writes regular records of the schema, nested as the schema has them.  So its bytes are
a body of which forward compatibility speaks: a peer that adds records of fields this side does not
know, or puts fields in another order, still means the same message.

* `Msg.regular_uint64`, `Msg.regular_string` and the like : each field operation puts a regular
  record before a regular body, or nothing.
* `regular_encodeRequest`, `regular_encodeResponse` : what the bytes of a message are.
* `encoded_compatible` : every change of an encoded message decodes to that message as it arrives.
-/

namespace Tephra

open Lib Records

namespace Msg

variable {m i : Msg} {n : ℕ} {value rest : Bytes}

/-- A body of regular records. -/
abbrev Regular (m : Msg) (b : Bytes) : Prop := RegularBody schema m b

/-! ### Fields -/

theorem regular_tag {k : Kind Msg} (hk : m.kind n = some k) (hn : 1 ≤ n) (hlt : n < 2 ^ 28) :
    Varint (Fields.tag n k.wire) (8 * n + k.wire) ∧ schema.Regular m (8 * n + k.wire) := by
  have hw := k.wire_lt
  have hdiv : (8 * n + k.wire) / 8 = n := by omega
  refine ⟨?_, ?_, ?_, fun k' hk' => ?_⟩
  · rw [Fields.tag, Writer.tagKey_eq n hw, u64_natCast (by omega)]
    exact varint_encode (by omega)
  · omega
  · omega
  · rw [hdiv] at hk'
    cases hk.symm.trans hk'
    omega

theorem inner_eq {k : Kind Msg} (hk : m.kind n = some k) :
    schema.inner m (8 * n + k.wire) = match k with
      | .message i => some i
      | _ => none := by
  have hw := k.wire_lt
  have hdiv : (8 * n + k.wire) / 8 = n := by omega
  have hmod : (8 * n + k.wire) % 8 = k.wire := by omega
  rw [Schema.inner, hdiv, hmod, show schema.kind m n = some k from hk]
  cases k <;> rfl

theorem regular_varint {v : ℕ} (hk : m.kind n = some .varint) (hn : 1 ≤ n) (hlt : n < 2 ^ 28)
    (hv : v < 2 ^ 64) (hrest : m.Regular rest) :
    m.Regular (Fields.varint n v ++ rest) := by
  obtain ⟨htag, hregular⟩ := regular_tag hk hn hlt
  refine .plain hregular (inner_eq hk) htag ?_ hrest
  rw [show schema.shape.wire m (8 * n + Kind.wire .varint) = 0 from by
    show (8 * n + 0) % 8 = 0
    omega]
  exact .varint (varint_encode hv)

theorem regular_len_bytes (hk : m.kind n = some .bytes) (hn : 1 ≤ n) (hlt : n < 2 ^ 28)
    (hlen : value.length ≤ maxArrayLength) (hrest : m.Regular rest) :
    m.Regular (Fields.len n value ++ rest) := by
  have hmax : maxArrayLength < 2 ^ 64 := by decide
  obtain ⟨htag, hregular⟩ := regular_tag hk hn hlt
  refine .plain hregular (inner_eq hk) htag ?_ hrest
  rw [show schema.shape.wire m (8 * n + Kind.wire .bytes) = 2 from by
    show (8 * n + 2) % 8 = 2
    omega]
  refine .len ?_
  rw [u64_natCast (by omega)]
  exact varint_encode (by omega)

theorem regular_len_message (hk : m.kind n = some (.message i)) (hn : 1 ≤ n) (hlt : n < 2 ^ 28)
    (hlen : value.length ≤ maxArrayLength) (hvalue : i.Regular value)
    (hrest : m.Regular rest) : m.Regular (Fields.len n value ++ rest) := by
  have hmax : maxArrayLength < 2 ^ 64 := by decide
  obtain ⟨htag, hregular⟩ := regular_tag hk hn hlt
  refine .message hregular (inner_eq hk) htag ?_ hvalue hrest
  rw [u64_natCast (by omega)]
  exact varint_encode (by omega)

theorem regular_uint64 {v : ℤ} (hk : m.kind n = some .varint) (hn : 1 ≤ n) (hlt : n < 2 ^ 28)
    (hrest : m.Regular rest) :
    m.Regular (Fields.uint64 n v ++ rest) := by
  rw [Fields.uint64]
  split_ifs
  · exact hrest
  · exact regular_varint hk hn hlt (u64_lt v) hrest

theorem regular_bool {v : Bool} (hk : m.kind n = some .varint) (hn : 1 ≤ n) (hlt : n < 2 ^ 28)
    (hrest : m.Regular rest) :
    m.Regular (Fields.bool n v ++ rest) := by
  rw [Fields.bool]
  split_ifs
  · exact regular_varint hk hn hlt (by norm_num) hrest
  · exact hrest

theorem regular_bytes (hk : m.kind n = some .bytes) (hn : 1 ≤ n) (hlt : n < 2 ^ 28)
    (hlen : (Fields.bytes n value).length ≤ maxArrayLength) (hrest : m.Regular rest) :
    m.Regular (Fields.bytes n value ++ rest) := by
  rw [Fields.bytes] at hlen ⊢
  split_ifs at hlen ⊢
  · exact hrest
  · exact regular_len_bytes hk hn hlt ((Fields.length_le_len n value).trans hlen) hrest

theorem regular_flatMap {α : Type} {enc : α → Bytes} {l : List α}
    (h : ∀ a ∈ l, ∀ rest, m.Regular rest → m.Regular (enc a ++ rest))
    (hrest : m.Regular rest) : m.Regular (l.flatMap enc ++ rest) := by
  induction l with
  | nil => exact hrest
  | cons a l ih =>
    rw [List.flatMap_cons, List.append_assoc]
    exact h a List.mem_cons_self _ (ih fun a ha => h a (List.mem_cons_of_mem _ ha))

theorem regular_opt {α : Type} {enc : α → Bytes} {o : Option α}
    (h : ∀ a, o = some a → m.Regular (enc a ++ rest))
    (hrest : m.Regular rest) : m.Regular (Fields.opt enc o ++ rest) := by
  cases o with
  | none => exact hrest
  | some a => exact h a rfl

variable [TextCodec] {s : JsString}

theorem regular_string (hk : m.kind n = some .bytes) (hn : 1 ≤ n) (hlt : n < 2 ^ 28)
    (hlen : (Fields.string n s).length ≤ maxArrayLength) (hrest : m.Regular rest) :
    m.Regular (Fields.string n s ++ rest) := by
  rw [Fields.string] at hlen ⊢
  split_ifs at hlen ⊢
  · exact hrest
  · exact regular_bytes hk hn hlt hlen hrest

end Msg

/-! ### Messages -/

open Msg

section

variable [TextCodec]

theorem Msg.regular_strings {m : Msg} {n : ℕ} {l : List JsString} {rest : Bytes}
    (hk : m.kind n = some .bytes) (hn : 1 ≤ n) (hlt : n < 2 ^ 28)
    (hlen : (l.flatMap (Fields.repeatedString n)).length ≤ maxArrayLength)
    (hrest : m.Regular rest) : m.Regular (l.flatMap (Fields.repeatedString n) ++ rest) := by
  refine regular_flatMap (fun s hs rest hrest => ?_) hrest
  have hle : (Fields.repeatedString n s).length ≤ maxArrayLength :=
    (Fields.length_le_flatMap (Fields.repeatedString n) hs).trans hlen
  exact regular_len_bytes hk hn hlt ((Fields.length_le_len n (encodeUtf8 s)).trans hle) hrest

theorem regular_encodeEvent {e : WireEvent} (hlen : (encodeEvent e).length ≤ maxArrayLength) :
    Msg.event.Regular (encodeEvent e) := by
  rw [encodeEvent_eq] at hlen ⊢
  simp only [List.length_append] at hlen
  refine regular_string rfl (by decide) (by decide) (by omega) ?_
  refine regular_strings rfl (by decide) (by decide) (by omega) ?_
  exact regular_bytes rfl (by decide) (by decide) (by omega) (.nil _)

theorem regular_encodeQueryItem {item : WireQueryItem}
    (hlen : (encodeQueryItem item).length ≤ maxArrayLength) :
    Msg.queryItem.Regular (encodeQueryItem item) := by
  rw [encodeQueryItem_eq] at hlen ⊢
  simp only [List.length_append] at hlen
  refine regular_strings rfl (by decide) (by decide) (by omega) ?_
  exact regular_strings rfl (by decide) (by decide) (by omega) (.nil _)

theorem regular_encodeQuery {q : WireQuery} (hlen : (encodeQuery q).length ≤ maxArrayLength) :
    Msg.query.Regular (encodeQuery q) := by
  rw [encodeQuery_eq] at hlen ⊢
  simp only [List.length_append] at hlen
  refine regular_bool rfl (by decide) (by decide) ?_
  refine regular_flatMap (fun item hitem rest hrest => ?_) (.nil _)
  have := Fields.length_le_flatMap (fun item => Fields.len 2 (encodeQueryItem item)) hitem
  have := Fields.length_le_len 2 (encodeQueryItem item)
  exact regular_len_message (i := .queryItem) rfl (by decide) (by decide) (by omega)
    (regular_encodeQueryItem (by omega)) hrest

theorem regular_encodeCondition {c : WireAppendCondition}
    (hlen : (encodeCondition c).length ≤ maxArrayLength) :
    Msg.condition.Regular (encodeCondition c) := by
  rw [encodeCondition_eq] at hlen ⊢
  simp only [List.length_append] at hlen
  have := Fields.length_le_len 1 (encodeQuery c.failIfEventsMatch)
  refine regular_len_message (i := .query) rfl (by decide) (by decide) (by omega)
    (regular_encodeQuery (by omega)) ?_
  refine regular_uint64 rfl (by decide) (by decide) ?_
  refine regular_opt (fun q hq => ?_) (.nil _)
  have := Fields.length_le_opt (fun q => Fields.len 3 (encodeQuery q)) hq
  have := Fields.length_le_len 3 (encodeQuery q)
  exact regular_len_message (i := .query) rfl (by decide) (by decide) (by omega)
    (regular_encodeQuery (by omega)) (.nil _)

theorem regular_encodeAppendRequest {req : WireAppendRequest}
    (hlen : (encodeAppendRequest req).length ≤ maxArrayLength) :
    Msg.appendRequest.Regular (encodeAppendRequest req) := by
  rw [encodeAppendRequest_eq] at hlen ⊢
  simp only [List.length_append] at hlen
  refine regular_flatMap (fun e he rest hrest => ?_) ?_
  · have := Fields.length_le_flatMap (fun e => Fields.len 1 (encodeEvent e)) he
    have := Fields.length_le_len 1 (encodeEvent e)
    exact regular_len_message (i := .event) rfl (by decide) (by decide) (by omega)
      (regular_encodeEvent (by omega)) hrest
  · refine regular_opt (fun c hc => ?_) (.nil _)
    have := Fields.length_le_opt (fun c => Fields.len 2 (encodeCondition c)) hc
    have := Fields.length_le_len 2 (encodeCondition c)
    exact regular_len_message (i := .condition) rfl (by decide) (by decide) (by omega)
      (regular_encodeCondition (by omega)) (.nil _)

theorem regular_encodeReadRequest {req : WireReadRequest}
    (hlen : (encodeReadRequest req).length ≤ maxArrayLength) :
    Msg.readRequest.Regular (encodeReadRequest req) := by
  rw [encodeReadRequest_eq] at hlen ⊢
  simp only [List.length_append] at hlen
  have := Fields.length_le_len 1 (encodeQuery req.query)
  refine regular_len_message (i := .query) rfl (by decide) (by decide) (by omega)
    (regular_encodeQuery (by omega)) ?_
  refine regular_uint64 rfl (by decide) (by decide) ?_
  refine regular_opt (fun limit _ => ?_) ?_
  · exact regular_varint rfl (by decide) (by decide) (u64_lt limit)
      (regular_bool rfl (by decide) (by decide) (.nil _))
  · exact regular_bool rfl (by decide) (by decide) (.nil _)

theorem regular_encodeSubscribeRequest {req : WireSubscribeRequest}
    (hlen : (encodeSubscribeRequest req).length ≤ maxArrayLength) :
    Msg.subscribeRequest.Regular (encodeSubscribeRequest req) := by
  rw [encodeSubscribeRequest_eq] at hlen ⊢
  simp only [List.length_append] at hlen
  have := Fields.length_le_len 1 (encodeQuery req.query)
  refine regular_len_message (i := .query) rfl (by decide) (by decide) (by omega)
    (regular_encodeQuery (by omega)) ?_
  exact regular_uint64 rfl (by decide) (by decide) (.nil _)

omit [TextCodec] in
theorem regular_encodeCancelRequest (req : WireCancelRequest) :
    Msg.cancelRequest.Regular (encodeCancelRequest req) := by
  rw [encodeCancelRequest_eq]
  exact regular_uint64 rfl (by decide) (by decide) (.nil _)

theorem regular_encodeHello {hello : WireHello}
    (hlen : (encodeHello hello).length ≤ maxArrayLength) :
    Msg.hello.Regular (encodeHello hello) := by
  rw [encodeHello_eq] at hlen ⊢
  simp only [List.length_append] at hlen
  refine regular_uint64 rfl (by decide) (by decide) ?_
  refine regular_opt (fun token htoken => ?_) (.nil _)
  have := Fields.length_le_opt (Fields.string 2) htoken
  exact regular_string rfl (by decide) (by decide) (by omega) (.nil _)

theorem regular_encodeRequest {request : WireRequest}
    (hlen : (encodeRequest request).length ≤ maxArrayLength) :
    Msg.request.Regular (encodeRequest request) := by
  rw [encodeRequest_eq] at hlen ⊢
  simp only [List.length_append] at hlen
  refine regular_uint64 rfl (by decide) (by decide) ?_
  obtain ⟨requestId, kind⟩ := request
  cases kind with
  | append req =>
    have := Fields.length_le_len 2 (encodeAppendRequest req)
    simp only [requestKindBytes] at hlen ⊢
    exact regular_len_message (i := .appendRequest) rfl (by decide) (by decide) (by omega)
      (regular_encodeAppendRequest (by omega)) (.nil _)
  | read req =>
    have := Fields.length_le_len 3 (encodeReadRequest req)
    simp only [requestKindBytes] at hlen ⊢
    exact regular_len_message (i := .readRequest) rfl (by decide) (by decide) (by omega)
      (regular_encodeReadRequest (by omega)) (.nil _)
  | subscribe req =>
    have := Fields.length_le_len 4 (encodeSubscribeRequest req)
    simp only [requestKindBytes] at hlen ⊢
    exact regular_len_message (i := .subscribeRequest) rfl (by decide) (by decide) (by omega)
      (regular_encodeSubscribeRequest (by omega)) (.nil _)
  | cancel req =>
    have := Fields.length_le_len 5 (encodeCancelRequest req)
    simp only [requestKindBytes] at hlen ⊢
    exact regular_len_message (i := .cancelRequest) rfl (by decide) (by decide) (by omega)
      (regular_encodeCancelRequest req) (.nil _)
  | stats => exact regular_len_bytes rfl (by decide) (by decide) (Nat.zero_le _) (.nil _)
  | hello hello =>
    have := Fields.length_le_len 7 (encodeHello hello)
    simp only [requestKindBytes] at hlen ⊢
    exact regular_len_message (i := .hello) rfl (by decide) (by decide) (by omega)
      (regular_encodeHello (by omega)) (.nil _)
  | none => exact .nil _

theorem regular_encodeSequencedEvent {e : WireSequencedEvent}
    (hlen : (encodeSequencedEvent e).length ≤ maxArrayLength) :
    Msg.sequencedEvent.Regular (encodeSequencedEvent e) := by
  rw [encodeSequencedEvent_eq] at hlen ⊢
  simp only [List.length_append] at hlen
  refine regular_uint64 rfl (by decide) (by decide) ?_
  refine regular_opt (fun event hevent => ?_) (.nil _)
  have := Fields.length_le_opt (fun event => Fields.len 2 (encodeEvent event)) hevent
  have := Fields.length_le_len 2 (encodeEvent event)
  exact regular_len_message (i := .event) rfl (by decide) (by decide) (by omega)
    (regular_encodeEvent (by omega)) (.nil _)

omit [TextCodec] in
theorem regular_encodeAppendResponse (res : WireAppendResponse) :
    Msg.appendResponse.Regular (encodeAppendResponse res) := by
  rw [encodeAppendResponse_eq]
  exact regular_uint64 rfl (by decide) (by decide)
    (regular_uint64 rfl (by decide) (by decide) (.nil _))

theorem regular_encodeReadEvents {res : WireReadEvents}
    (hlen : (encodeReadEvents res).length ≤ maxArrayLength) :
    Msg.readEvents.Regular (encodeReadEvents res) := by
  rw [encodeReadEvents_eq] at hlen ⊢
  simp only [List.length_append] at hlen
  refine regular_flatMap (fun e he rest hrest => ?_) (.nil _)
  have := Fields.length_le_flatMap (fun e => Fields.len 1 (encodeSequencedEvent e)) he
  have := Fields.length_le_len 1 (encodeSequencedEvent e)
  exact regular_len_message (i := .sequencedEvent) rfl (by decide) (by decide) (by omega)
    (regular_encodeSequencedEvent (by omega)) hrest

omit [TextCodec] in
theorem regular_encodeWatermark (watermark : ℤ) :
    Msg.watermark.Regular (encodeWatermark watermark) := by
  have heq : encodeWatermark watermark = Fields.uint64 1 watermark ++ [] := by
    simp only [encodeWatermark, Writer.finish_uint64, Writer.finish_init, List.nil_append,
      List.append_nil]
  rw [heq]
  exact regular_uint64 rfl (by decide) (by decide) (.nil _)

theorem regular_encodeStatsResponse {res : WireStatsResponse}
    (hlen : (encodeStatsResponse res).length ≤ maxArrayLength) :
    Msg.statsResponse.Regular (encodeStatsResponse res) := by
  rw [encodeStatsResponse_eq] at hlen ⊢
  simp only [List.length_append] at hlen
  refine regular_uint64 rfl (by decide) (by decide) ?_
  refine regular_uint64 rfl (by decide) (by decide) ?_
  refine regular_uint64 rfl (by decide) (by decide) ?_
  refine regular_uint64 rfl (by decide) (by decide) ?_
  refine regular_uint64 rfl (by decide) (by decide) ?_
  refine regular_uint64 rfl (by decide) (by decide) ?_
  refine regular_string rfl (by decide) (by decide) (by omega) ?_
  refine regular_uint64 rfl (by decide) (by decide) ?_
  refine regular_uint64 rfl (by decide) (by decide) ?_
  exact regular_uint64 rfl (by decide) (by decide) (.nil _)

theorem regular_encodeErrorResponse {res : WireErrorResponse}
    (hlen : (encodeErrorResponse res).length ≤ maxArrayLength) :
    Msg.errorResponse.Regular (encodeErrorResponse res) := by
  rw [encodeErrorResponse_eq] at hlen ⊢
  simp only [List.length_append] at hlen
  have hbool : Msg.errorResponse.Regular (Fields.bool 4 res.retryable ++ []) :=
    regular_bool rfl (by decide) (by decide) (.nil _)
  refine regular_uint64 rfl (by decide) (by decide) ?_
  refine regular_string rfl (by decide) (by decide) (by omega) ?_
  exact regular_opt (fun p _ => regular_varint rfl (by decide) (by decide) (u64_lt p) hbool) hbool

theorem regular_encodeHelloAck {ack : WireHelloAck}
    (hlen : (encodeHelloAck ack).length ≤ maxArrayLength) :
    Msg.helloAck.Regular (encodeHelloAck ack) := by
  rw [encodeHelloAck_eq] at hlen ⊢
  simp only [List.length_append] at hlen
  refine regular_uint64 rfl (by decide) (by decide) ?_
  exact regular_string rfl (by decide) (by decide) (by omega) (.nil _)

theorem regular_encodeResponse {response : WireResponse}
    (hlen : (encodeResponse response).length ≤ maxArrayLength) :
    Msg.response.Regular (encodeResponse response) := by
  rw [encodeResponse_eq] at hlen ⊢
  simp only [List.length_append] at hlen
  refine regular_uint64 rfl (by decide) (by decide) ?_
  -- behind the id there is the record of the kind alone
  obtain ⟨requestId, kind⟩ := response
  cases kind with
  | append res =>
    have := Fields.length_le_len 2 (encodeAppendResponse res)
    simp only [responseKindBytes] at hlen ⊢
    exact regular_len_message (i := .appendResponse) rfl (by decide) (by decide) (by omega)
      (regular_encodeAppendResponse res) (.nil _)
  | readEvents res =>
    have := Fields.length_le_len 3 (encodeReadEvents res)
    simp only [responseKindBytes] at hlen ⊢
    exact regular_len_message (i := .readEvents) rfl (by decide) (by decide) (by omega)
      (regular_encodeReadEvents (by omega)) (.nil _)
  | readEnd res =>
    have := Fields.length_le_len 4 (encodeWatermark res.watermark)
    simp only [responseKindBytes] at hlen ⊢
    exact regular_len_message (i := .watermark) rfl (by decide) (by decide) (by omega)
      (regular_encodeWatermark _) (.nil _)
  | error res =>
    have := Fields.length_le_len 5 (encodeErrorResponse res)
    simp only [responseKindBytes] at hlen ⊢
    exact regular_len_message (i := .errorResponse) rfl (by decide) (by decide) (by omega)
      (regular_encodeErrorResponse (by omega)) (.nil _)
  | caughtUp res =>
    have := Fields.length_le_len 6 (encodeWatermark res.watermark)
    simp only [responseKindBytes] at hlen ⊢
    exact regular_len_message (i := .watermark) rfl (by decide) (by decide) (by omega)
      (regular_encodeWatermark _) (.nil _)
  | stats res =>
    have := Fields.length_le_len 7 (encodeStatsResponse res)
    simp only [responseKindBytes] at hlen ⊢
    exact regular_len_message (i := .statsResponse) rfl (by decide) (by decide) (by omega)
      (regular_encodeStatsResponse (by omega)) (.nil _)
  | helloAck ack =>
    have := Fields.length_le_len 8 (encodeHelloAck ack)
    simp only [responseKindBytes] at hlen ⊢
    exact regular_len_message (i := .helloAck) rfl (by decide) (by decide) (by omega)
      (regular_encodeHelloAck (by omega)) (.nil _)
  | none => exact .nil _

/-- **What is emitted is compatible.**  A request or response is encoded to a body of regular
records, and every body that this can be changed into, by records of unknown fields and by another
order of the fields, at the top or inside, decodes to the message as it arrives unchanged. -/
theorem encoded_compatible (request : WireRequest) (response : WireResponse)
    (hrequest : (encodeRequest request).length ≤ maxArrayLength)
    (hresponse : (encodeResponse response).length ≤ maxArrayLength) :
    (Msg.request.WellFormed (encodeRequest request) ∧
      ∀ b, Relation.ReflTransGen Msg.request.Change (encodeRequest request) b →
        decodeRequest b = .ok request.received) ∧
    (Msg.response.WellFormed (encodeResponse response) ∧
      ∀ b, Relation.ReflTransGen Msg.response.Change (encodeResponse response) b →
        decodeResponse b = .ok response.received) := by
  refine ⟨⟨⟨regular_encodeRequest hrequest, hrequest⟩, fun b hb => ?_⟩,
    ⟨⟨regular_encodeResponse hresponse, hresponse⟩, fun b hb => ?_⟩⟩
  · exact (Msg.decode_eq_of_changes hrequest hb).trans
      (decodeRequest_encodeRequest_received request hrequest)
  · exact (Msg.decode_eq_of_changes hresponse hb).trans
      (decodeResponse_encodeResponse_received response hresponse)

end

section

attribute [local instance] utf8Codec

/-- A read after position 5. -/
def readAfterFive : WireRequest where
  requestId := 7
  kind := .read
    { query := { all := true, items := [] }, after := 5, limit := none, reverse := false }

/-- The end of a read. -/
def readEndEight : WireResponse where
  requestId := 7
  kind := .readEnd { watermark := 8 }

/-- A newer peer adds field 9 to both, and they are read as they were. -/
theorem emitted_read :
    decodeRequest (encodeRequest readAfterFive ++ [0x48, 1]) = .ok readAfterFive.received ∧
      decodeResponse (encodeResponse readEndEight ++ [0x48, 1]) = .ok readEndEight.received := by
  have hnew : ∀ m : Msg, m.kind 9 = none → RegularRecord Msg.schema m 0x48 [0x48, 1] :=
    fun m hm => by
    have htag : Varint [0x48] 0x48 := ⟨by decide, 0x48, by decide, rfl⟩
    refine .plain (p := [1]) ⟨by decide, by decide, fun k hk => ?_⟩ ?_ htag
      (.varint (v := 1) ⟨by decide, 1, by decide, rfl⟩)
    · show Msg.schema.inner m 0x48 = none
      rw [Schema.inner, show Msg.schema.kind m (0x48 / 8) = none from hm]
    · cases hm.symm.trans hk
  have hchange : ∀ (m : Msg) (b : Bytes), m.kind 9 = none → m.Regular b →
      (b ++ [0x48, 1]).length ≤ maxArrayLength → m.Change b (b ++ [0x48, 1]) :=
    fun m b hm hb hlen => by
      have hinsert : Step Msg.schema Msg.oneof m (b ++ []) (b ++ ([0x48, 1] ++ [])) :=
        .insert hb (hnew m hm) hm (.nil _)
      rw [List.append_nil, List.append_nil] at hinsert
      exact ⟨hinsert, hlen⟩
  obtain ⟨⟨hrequest, hread⟩, hresponse, hend⟩ :=
    encoded_compatible readAfterFive readEndEight (by decide +kernel) (by decide +kernel)
  exact ⟨hread _ (.single (hchange .request _ rfl hrequest.1 (by decide +kernel))),
    hend _ (.single (hchange .response _ rfl hresponse.1 (by decide +kernel)))⟩

end

end Tephra
