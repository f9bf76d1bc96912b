import Tephra.Proto.Messages

/-!
# What arrives

For every message: its bytes as fields (`encodeX_eq`), and what its decoder makes of them
(`decodeX_encodeX`), whatever the message holds.  A bigint arrives modulo `2 ^ 64`, a number through
a double, a string as the text codec gives it back, and an empty credential not at all; everything
else arrives as it was.  Lengths are read back exactly because no `Uint8Array` is longer than
`maxArrayLength`.

* `decodeRequest_encodeRequest_received`, `decodeResponse_encodeResponse_received` : the two
  top-level messages.
-/

namespace Tephra

section

variable [TextCodec]

/-! ### Messages as they arrive -/

/-- A bigint as it arrives. -/
def receivedBigInt (v : ℤ) : ℤ := u64 v

/-- A number as it arrives. -/
def receivedNumber (v : ℤ) : ℤ := toNumber (u64 v)

/-- An element of a repeated string field as it arrives. -/
def receivedElement (s : JsString) : JsString := decodeUtf8 (encodeUtf8 s)

/-- A string field as it arrives: it is not written when it is empty. -/
def receivedString (s : JsString) : JsString := if s = [] then [] else receivedElement s

/-- The credential of a hello as it arrives.  It is written like any string field, so that an empty
one does not arrive. -/
def receivedToken (s : JsString) : Option JsString :=
  if s = [] ∨ encodeUtf8 s = [] then none else some (receivedElement s)

/-- An event as it arrives. -/
def WireEvent.received (e : WireEvent) : WireEvent where
  type := receivedString e.type
  tags := e.tags.map receivedElement
  payload := e.payload

/-- A query item as it arrives. -/
def WireQueryItem.received (item : WireQueryItem) : WireQueryItem where
  types := item.types.map receivedElement
  tags := item.tags.map receivedElement

/-- A query as it arrives. -/
def WireQuery.received (q : WireQuery) : WireQuery where
  all := q.all
  items := q.items.map WireQueryItem.received

/-- An append condition as it arrives. -/
def WireAppendCondition.received (c : WireAppendCondition) : WireAppendCondition where
  failIfEventsMatch := c.failIfEventsMatch.received
  after := receivedBigInt c.after
  failIfExists := c.failIfExists.map WireQuery.received

/-- An append as it arrives. -/
def WireAppendRequest.received (req : WireAppendRequest) : WireAppendRequest where
  events := req.events.map WireEvent.received
  condition := req.condition.map WireAppendCondition.received

/-- A read as it arrives. -/
def WireReadRequest.received (req : WireReadRequest) : WireReadRequest where
  query := req.query.received
  after := receivedBigInt req.after
  limit := req.limit.map receivedBigInt
  reverse := req.reverse

/-- A subscribe as it arrives. -/
def WireSubscribeRequest.received (req : WireSubscribeRequest) : WireSubscribeRequest where
  query := req.query.received
  after := receivedBigInt req.after

/-- A cancel as it arrives. -/
def WireCancelRequest.received (req : WireCancelRequest) : WireCancelRequest where
  target := receivedBigInt req.target

/-- A hello as it arrives. -/
def WireHello.received (hello : WireHello) : WireHello where
  protocolVersion := receivedNumber hello.protocolVersion
  authToken := hello.authToken.bind receivedToken

/-- A request kind as it arrives. -/
def RequestKind.received : RequestKind → RequestKind
  | .append req => .append req.received
  | .read req => .read req.received
  | .subscribe req => .subscribe req.received
  | .cancel req => .cancel req.received
  | .stats => .stats
  | .hello req => .hello req.received
  | .none => .none

/-- A request as it arrives. -/
def WireRequest.received (request : WireRequest) : WireRequest where
  requestId := receivedBigInt request.requestId
  kind := request.kind.received

/-- A sequenced event as it arrives. -/
def WireSequencedEvent.received (e : WireSequencedEvent) : WireSequencedEvent where
  position := receivedBigInt e.position
  event := e.event.map WireEvent.received

/-- An append response as it arrives. -/
def WireAppendResponse.received (res : WireAppendResponse) : WireAppendResponse where
  first := receivedBigInt res.first
  last := receivedBigInt res.last

/-- A batch of events as it arrives. -/
def WireReadEvents.received (res : WireReadEvents) : WireReadEvents where
  events := res.events.map WireSequencedEvent.received

/-- A stats response as it arrives. -/
def WireStatsResponse.received (res : WireStatsResponse) : WireStatsResponse where
  eventCount := receivedBigInt res.eventCount
  segmentCount := receivedBigInt res.segmentCount
  diskBytes := receivedBigInt res.diskBytes
  uptimeSeconds := receivedBigInt res.uptimeSeconds
  activeConnections := receivedBigInt res.activeConnections
  activeSubscriptions := receivedBigInt res.activeSubscriptions
  version := receivedString res.version
  connectionsRefused := receivedBigInt res.connectionsRefused
  maxConnections := receivedBigInt res.maxConnections
  connectionsReaped := receivedBigInt res.connectionsReaped

/-- An error response as it arrives. -/
def WireErrorResponse.received (res : WireErrorResponse) : WireErrorResponse where
  code := receivedNumber res.code
  message := receivedString res.message
  conflictPosition := res.conflictPosition.map receivedBigInt
  retryable := res.retryable

/-- A hello acknowledgement as it arrives. -/
def WireHelloAck.received (ack : WireHelloAck) : WireHelloAck where
  protocolVersion := receivedNumber ack.protocolVersion
  serverVersion := receivedString ack.serverVersion

/-- A response kind as it arrives. -/
def ResponseKind.received : ResponseKind → ResponseKind
  | .append res => .append res.received
  | .readEvents res => .readEvents res.received
  | .readEnd res => .readEnd { watermark := receivedBigInt res.watermark }
  | .error res => .error res.received
  | .caughtUp res => .caughtUp { watermark := receivedBigInt res.watermark }
  | .stats res => .stats res.received
  | .helloAck ack => .helloAck ack.received
  | .none => .none

/-- A response as it arrives. -/
def WireResponse.received (response : WireResponse) : WireResponse where
  requestId := receivedBigInt response.requestId
  kind := response.kind.received

theorem receivedString_of_empty {s : JsString} (h : s = [] ∨ encodeUtf8 s = []) :
    receivedString s = [] := by
  rw [receivedString]
  split_ifs with hs
  · rfl
  · rw [receivedElement, h.resolve_left hs, decodeUtf8_nil]

theorem receivedString_of_ne {s : JsString} (h : s ≠ []) :
    receivedString s = decodeUtf8 (encodeUtf8 s) := if_neg h

section

variable {σ : Type} {field : σ → ℕ → Option (FieldReader σ)} {st : σ} {fieldNo : ℕ} {rest : Bytes}
variable {res : Except Err σ} {value : JsString}

theorem readMessage_receivedString {set : JsString → σ} (hn : fieldNo < 2 ^ 28)
    (hf : field st fieldNo = some (.string set))
    (hlen : (Fields.string fieldNo value).length ≤ maxArrayLength) (hempty : set [] = st)
    (hnext : readMessage field (set (receivedString value)) rest = res) :
    readMessage field st (Fields.string fieldNo value ++ rest) = res := by
  refine readMessage_string hn hf hlen (fun h => ?_) fun hv _ => ?_
  · rwa [receivedString_of_empty h, hempty] at hnext
  · rwa [receivedString_of_ne hv] at hnext

theorem readMessage_receivedToken (set : Option JsString → σ) {o : Option JsString}
    (hn : fieldNo < 2 ^ 28) (hf : field st fieldNo = some (.string fun v => set (some v)))
    (hlen : (Fields.opt (Fields.string fieldNo) o).length ≤ maxArrayLength) (hnone : set none = st)
    (hnext : readMessage field (set (o.bind receivedToken)) rest = res) :
    readMessage field st (Fields.opt (Fields.string fieldNo) o ++ rest) = res := by
  cases o with
  | none => rwa [Option.bind_none, hnone] at hnext
  | some value =>
    rw [Option.bind_some] at hnext
    refine readMessage_string hn hf hlen (fun h => ?_) fun hv he => ?_
    · rwa [receivedToken, if_pos h, hnone] at hnext
    · rwa [receivedToken, if_neg (by simp [hv, he])] at hnext

end

/-! ### Event, Query, condition -/

theorem encodeEvent_eq (e : WireEvent) :
    encodeEvent e = Fields.string 1 e.type ++
      (e.tags.flatMap (Fields.repeatedString 2) ++ (Fields.bytes 3 e.payload ++ [])) := by
  simp only [encodeEvent, Writer.finish_bytes,
    Writer.finish_foldl _ fun w tag => Writer.finish_repeatedString w 2 tag, Writer.finish_string,
    Writer.finish_init, List.nil_append, List.append_nil, List.append_assoc]

theorem decodeEvent_encodeEvent (e : WireEvent) (hlen : (encodeEvent e).length ≤ maxArrayLength) :
    decodeEvent (encodeEvent e) = .ok e.received := by
  rw [encodeEvent_eq] at hlen
  rw [encodeEvent_eq, decodeEvent]
  simp only [List.length_append] at hlen
  refine readMessage_receivedString (by decide) rfl (by omega) rfl ?_
  refine readMessage_repeated receivedElement
    (fun tags => { type := receivedString e.type, tags := tags, payload := [] }) rfl
    (fun pre tag rest htag => ?_) ?_
  · have := Fields.length_le_flatMap (Fields.repeatedString 2) htag
    exact readMessage_repeatedString (by decide) rfl (by omega) rfl
  · exact readMessage_bytes (by decide) rfl (by omega) rfl rfl

theorem encodeQueryItem_eq (item : WireQueryItem) :
    encodeQueryItem item = item.types.flatMap (Fields.repeatedString 1) ++
      (item.tags.flatMap (Fields.repeatedString 2) ++ []) := by
  simp only [encodeQueryItem,
    Writer.finish_foldl _ fun w tag => Writer.finish_repeatedString w 2 tag,
    Writer.finish_foldl _ fun w type => Writer.finish_repeatedString w 1 type,
    Writer.finish_init, List.nil_append, List.append_nil]

theorem decodeQueryItem_encodeQueryItem (item : WireQueryItem)
    (hlen : (encodeQueryItem item).length ≤ maxArrayLength) :
    decodeQueryItem (encodeQueryItem item) = .ok item.received := by
  rw [encodeQueryItem_eq] at hlen
  rw [encodeQueryItem_eq, decodeQueryItem]
  simp only [List.length_append] at hlen
  refine readMessage_repeated receivedElement (fun types => { types := types, tags := [] }) rfl
    (fun pre type rest htype => ?_) ?_
  · have := Fields.length_le_flatMap (Fields.repeatedString 1) htype
    exact readMessage_repeatedString (by decide) rfl (by omega) rfl
  refine readMessage_repeated receivedElement
    (fun tags => { types := item.types.map receivedElement, tags := tags }) rfl
    (fun pre tag rest htag => ?_) rfl
  have := Fields.length_le_flatMap (Fields.repeatedString 2) htag
  exact readMessage_repeatedString (by decide) rfl (by omega) rfl

theorem encodeQuery_eq (q : WireQuery) :
    encodeQuery q = Fields.bool 1 q.all ++
      (q.items.flatMap (fun item => Fields.len 2 (encodeQueryItem item)) ++ []) := by
  simp only [encodeQuery,
    Writer.finish_foldl _ fun w item => Writer.finish_message w 2 (encodeQueryItem item),
    Writer.finish_bool, Writer.finish_init, List.nil_append, List.append_nil]

theorem decodeQuery_encodeQuery (q : WireQuery) (hlen : (encodeQuery q).length ≤ maxArrayLength) :
    decodeQuery (encodeQuery q) = .ok q.received := by
  rw [encodeQuery_eq] at hlen
  rw [encodeQuery_eq, decodeQuery]
  simp only [List.length_append] at hlen
  refine readMessage_bool (by decide) rfl rfl ?_
  refine readMessage_repeated WireQueryItem.received
    (fun items => { all := q.all, items := items }) rfl
    (fun pre item rest hitem => ?_) rfl
  have := Fields.length_le_flatMap (fun item => Fields.len 2 (encodeQueryItem item)) hitem
  have := Fields.length_le_len 2 (encodeQueryItem item)
  exact readMessage_message (by decide) rfl (by omega)
    (decodeQueryItem_encodeQueryItem item (by omega)) rfl

theorem encodeCondition_eq (c : WireAppendCondition) :
    encodeCondition c = Fields.len 1 (encodeQuery c.failIfEventsMatch) ++
      (Fields.uint64 2 c.after ++
      (Fields.opt (fun q => Fields.len 3 (encodeQuery q)) c.failIfExists ++ [])) := by
  simp only [encodeCondition,
    Writer.finish_ifDefined _ fun w q => Writer.finish_message w 3 (encodeQuery q),
    Writer.finish_uint64, Writer.finish_message, Writer.finish_init, List.nil_append,
    List.append_nil, List.append_assoc]

theorem decodeCondition_encodeCondition (c : WireAppendCondition)
    (hlen : (encodeCondition c).length ≤ maxArrayLength) :
    decodeCondition (encodeCondition c) = .ok c.received := by
  rw [encodeCondition_eq] at hlen
  rw [encodeCondition_eq, decodeCondition]
  simp only [List.length_append] at hlen
  have := Fields.length_le_len 1 (encodeQuery c.failIfEventsMatch)
  refine readMessage_message (by decide) rfl (by omega)
    (decodeQuery_encodeQuery _ (by omega)) ?_
  refine readMessage_uint64 (by decide) rfl rfl ?_
  refine readMessage_opt WireQuery.received (fun q => { c.received with failIfExists := q }) rfl
    (fun q hq => ?_) rfl
  have := Fields.length_le_opt (fun q => Fields.len 3 (encodeQuery q)) hq
  have := Fields.length_le_len 3 (encodeQuery q)
  exact readMessage_message (by decide) rfl (by omega)
    (decodeQuery_encodeQuery q (by omega)) rfl

/-! ### Requests -/

theorem encodeAppendRequest_eq (req : WireAppendRequest) :
    encodeAppendRequest req = req.events.flatMap (fun e => Fields.len 1 (encodeEvent e)) ++
      (Fields.opt (fun c => Fields.len 2 (encodeCondition c)) req.condition ++ []) := by
  simp only [encodeAppendRequest,
    Writer.finish_ifDefined _ fun w c => Writer.finish_message w 2 (encodeCondition c),
    Writer.finish_foldl _ fun w e => Writer.finish_message w 1 (encodeEvent e), Writer.finish_init,
    List.nil_append, List.append_nil]

theorem decodeAppendRequest_encodeAppendRequest (req : WireAppendRequest)
    (hlen : (encodeAppendRequest req).length ≤ maxArrayLength) :
    decodeAppendRequest (encodeAppendRequest req) = .ok req.received := by
  rw [encodeAppendRequest_eq] at hlen
  rw [encodeAppendRequest_eq, decodeAppendRequest]
  simp only [List.length_append] at hlen
  refine readMessage_repeated WireEvent.received
    (fun events => { events := events, condition := none }) rfl
    (fun pre e rest he => ?_) ?_
  · have := Fields.length_le_flatMap (fun e => Fields.len 1 (encodeEvent e)) he
    have := Fields.length_le_len 1 (encodeEvent e)
    exact readMessage_message (by decide) rfl (by omega)
      (decodeEvent_encodeEvent e (by omega)) rfl
  · refine readMessage_opt WireAppendCondition.received
      (fun c => { req.received with condition := c }) rfl (fun c hc => ?_) rfl
    have := Fields.length_le_opt (fun c => Fields.len 2 (encodeCondition c)) hc
    have := Fields.length_le_len 2 (encodeCondition c)
    exact readMessage_message (by decide) rfl (by omega)
      (decodeCondition_encodeCondition c (by omega)) rfl

theorem encodeReadRequest_eq (req : WireReadRequest) :
    encodeReadRequest req = Fields.len 1 (encodeQuery req.query) ++ (Fields.uint64 2 req.after ++
      (Fields.opt (fun limit => Fields.varint 3 (u64 limit)) req.limit ++
        (Fields.bool 4 req.reverse ++ []))) := by
  simp only [encodeReadRequest,
    Writer.finish_ifDefined _ fun w limit => Writer.finish_uint64Present w 3 limit,
    Writer.finish_bool, Writer.finish_uint64, Writer.finish_message, Writer.finish_init,
    List.nil_append, List.append_nil, List.append_assoc]

theorem decodeReadRequest_encodeReadRequest (req : WireReadRequest)
    (hlen : (encodeReadRequest req).length ≤ maxArrayLength) :
    decodeReadRequest (encodeReadRequest req) = .ok req.received := by
  rw [encodeReadRequest_eq] at hlen
  rw [encodeReadRequest_eq, decodeReadRequest]
  simp only [List.length_append] at hlen
  have := Fields.length_le_len 1 (encodeQuery req.query)
  refine readMessage_message (by decide) rfl (by omega)
    (decodeQuery_encodeQuery _ (by omega)) ?_
  refine readMessage_uint64 (by decide) rfl rfl ?_
  refine readMessage_opt receivedBigInt
    (fun limit => { req.received with limit := limit, reverse := false }) rfl
    (fun limit hlimit => ?_) ?_
  · exact readMessage_uint64Present (by decide) rfl rfl
  · exact readMessage_bool (by decide) rfl rfl rfl

theorem encodeSubscribeRequest_eq (req : WireSubscribeRequest) :
    encodeSubscribeRequest req =
      Fields.len 1 (encodeQuery req.query) ++ (Fields.uint64 2 req.after ++ []) := by
  simp only [encodeSubscribeRequest, Writer.finish_uint64, Writer.finish_message,
    Writer.finish_init, List.nil_append, List.append_nil]

theorem decodeSubscribeRequest_encodeSubscribeRequest (req : WireSubscribeRequest)
    (hlen : (encodeSubscribeRequest req).length ≤ maxArrayLength) :
    decodeSubscribeRequest (encodeSubscribeRequest req) = .ok req.received := by
  rw [encodeSubscribeRequest_eq] at hlen
  rw [encodeSubscribeRequest_eq, decodeSubscribeRequest]
  simp only [List.length_append] at hlen
  have := Fields.length_le_len 1 (encodeQuery req.query)
  refine readMessage_message (by decide) rfl (by omega)
    (decodeQuery_encodeQuery _ (by omega)) ?_
  exact readMessage_uint64 (by decide) rfl rfl rfl

omit [TextCodec] in
theorem encodeCancelRequest_eq (req : WireCancelRequest) :
    encodeCancelRequest req = Fields.uint64 1 req.target ++ [] := by
  simp only [encodeCancelRequest, Writer.finish_uint64, Writer.finish_init, List.nil_append,
    List.append_nil]

theorem decodeCancelRequest_encodeCancelRequest (req : WireCancelRequest) :
    decodeCancelRequest (encodeCancelRequest req) = .ok req.received := by
  rw [encodeCancelRequest_eq, decodeCancelRequest]
  exact readMessage_uint64 (by decide) rfl rfl rfl

theorem encodeHello_eq (hello : WireHello) :
    encodeHello hello = Fields.uint64 1 hello.protocolVersion ++
      (Fields.opt (Fields.string 2) hello.authToken ++ []) := by
  simp only [encodeHello,
    Writer.finish_ifDefined _ fun w authToken => Writer.finish_string w 2 authToken,
    Writer.finish_uint32, Writer.finish_init, List.nil_append, List.append_nil]

theorem decodeHello_encodeHello (hello : WireHello)
    (hlen : (encodeHello hello).length ≤ maxArrayLength) :
    decodeHello (encodeHello hello) = .ok hello.received := by
  rw [encodeHello_eq] at hlen
  rw [encodeHello_eq, decodeHello]
  simp only [List.length_append] at hlen
  refine readMessage_uint32 (by decide) rfl rfl ?_
  exact readMessage_receivedToken
    (fun o => { protocolVersion := receivedNumber hello.protocolVersion, authToken := o })
    (by decide) rfl (by omega) rfl rfl

/-- The part of a request that carries its kind. -/
def requestKindBytes : RequestKind → Bytes
  | .append req => Fields.len 2 (encodeAppendRequest req)
  | .read req => Fields.len 3 (encodeReadRequest req)
  | .subscribe req => Fields.len 4 (encodeSubscribeRequest req)
  | .cancel req => Fields.len 5 (encodeCancelRequest req)
  | .stats => Fields.len 6 []
  | .hello hello => Fields.len 7 (encodeHello hello)
  | .none => []

theorem encodeRequest_eq (request : WireRequest) :
    encodeRequest request =
      Fields.uint64 1 request.requestId ++ (requestKindBytes request.kind ++ []) := by
  cases h : request.kind <;>
    simp only [encodeRequest, h, requestKindBytes, Writer.finish_message, Writer.finish_uint64,
      Writer.finish_init, List.nil_append, List.append_nil]

/-- What an encoded request is decoded to. -/
theorem decodeRequest_encodeRequest_received (request : WireRequest)
    (hlen : (encodeRequest request).length ≤ maxArrayLength) :
    decodeRequest (encodeRequest request) = .ok request.received := by
  rw [encodeRequest_eq] at hlen
  rw [encodeRequest_eq, decodeRequest]
  simp only [List.length_append] at hlen
  refine readMessage_uint64 (by decide) rfl rfl ?_
  obtain ⟨requestId, kind⟩ := request
  cases kind with
  | append req =>
    have := Fields.length_le_len 2 (encodeAppendRequest req)
    simp only [requestKindBytes] at hlen
    exact readMessage_message (by decide) rfl (by omega)
      (decodeAppendRequest_encodeAppendRequest _ (by omega)) rfl
  | read req =>
    have := Fields.length_le_len 3 (encodeReadRequest req)
    simp only [requestKindBytes] at hlen
    exact readMessage_message (by decide) rfl (by omega)
      (decodeReadRequest_encodeReadRequest _ (by omega)) rfl
  | subscribe req =>
    have := Fields.length_le_len 4 (encodeSubscribeRequest req)
    simp only [requestKindBytes] at hlen
    exact readMessage_message (by decide) rfl (by omega)
      (decodeSubscribeRequest_encodeSubscribeRequest _ (by omega)) rfl
  | cancel req =>
    simp only [requestKindBytes] at hlen
    exact readMessage_message (by decide) rfl (by omega)
      (decodeCancelRequest_encodeCancelRequest _) rfl
  | stats =>
    simp only [requestKindBytes] at hlen
    have hfield : requestField { requestId := u64 requestId, kind := .none } 6 =
        some (.message fun _ => do
          return { requestId := u64 requestId, kind := (← Except.ok RequestKind.stats) }) := rfl
    exact readMessage_message (by decide) hfield (by omega) rfl rfl
  | hello hello =>
    have := Fields.length_le_len 7 (encodeHello hello)
    simp only [requestKindBytes] at hlen
    exact readMessage_message (by decide) rfl (by omega)
      (decodeHello_encodeHello _ (by omega)) rfl
  | none => rfl

/-! ### Responses -/

theorem encodeSequencedEvent_eq (e : WireSequencedEvent) :
    encodeSequencedEvent e = Fields.uint64 1 e.position ++
      (Fields.opt (fun event => Fields.len 2 (encodeEvent event)) e.event ++ []) := by
  simp only [encodeSequencedEvent,
    Writer.finish_ifDefined _ fun w event => Writer.finish_message w 2 (encodeEvent event),
    Writer.finish_uint64, Writer.finish_init, List.nil_append, List.append_nil]

theorem decodeSequencedEvent_encodeSequencedEvent (e : WireSequencedEvent)
    (hlen : (encodeSequencedEvent e).length ≤ maxArrayLength) :
    decodeSequencedEvent (encodeSequencedEvent e) = .ok e.received := by
  rw [encodeSequencedEvent_eq] at hlen
  rw [encodeSequencedEvent_eq, decodeSequencedEvent]
  simp only [List.length_append] at hlen
  refine readMessage_uint64 (by decide) rfl rfl ?_
  refine readMessage_opt WireEvent.received (fun event => { e.received with event := event }) rfl
    (fun event hevent => ?_) rfl
  have := Fields.length_le_opt (fun event => Fields.len 2 (encodeEvent event)) hevent
  have := Fields.length_le_len 2 (encodeEvent event)
  exact readMessage_message (by decide) rfl (by omega)
    (decodeEvent_encodeEvent event (by omega)) rfl

omit [TextCodec] in
theorem encodeAppendResponse_eq (res : WireAppendResponse) :
    encodeAppendResponse res = Fields.uint64 1 res.first ++ (Fields.uint64 2 res.last ++ []) := by
  simp only [encodeAppendResponse, Writer.finish_uint64, Writer.finish_init, List.nil_append,
    List.append_nil]

theorem decodeAppendResponse_encodeAppendResponse (res : WireAppendResponse) :
    decodeAppendResponse (encodeAppendResponse res) = .ok res.received := by
  rw [encodeAppendResponse_eq, decodeAppendResponse]
  refine readMessage_uint64 (by decide) rfl rfl ?_
  exact readMessage_uint64 (by decide) rfl rfl rfl

theorem encodeReadEvents_eq (res : WireReadEvents) :
    encodeReadEvents res =
      res.events.flatMap (fun e => Fields.len 1 (encodeSequencedEvent e)) ++ [] := by
  simp only [encodeReadEvents,
    Writer.finish_foldl _ fun w e => Writer.finish_message w 1 (encodeSequencedEvent e),
    Writer.finish_init, List.nil_append, List.append_nil]

theorem decodeReadEvents_encodeReadEvents (res : WireReadEvents)
    (hlen : (encodeReadEvents res).length ≤ maxArrayLength) :
    decodeReadEvents (encodeReadEvents res) = .ok res.received := by
  rw [encodeReadEvents_eq] at hlen
  rw [encodeReadEvents_eq, decodeReadEvents]
  simp only [List.length_append] at hlen
  refine readMessage_repeated WireSequencedEvent.received (fun events => { events := events }) rfl
    (fun pre e rest he => ?_) rfl
  have := Fields.length_le_flatMap (fun e => Fields.len 1 (encodeSequencedEvent e)) he
  have := Fields.length_le_len 1 (encodeSequencedEvent e)
  exact readMessage_message (by decide) rfl (by omega)
    (decodeSequencedEvent_encodeSequencedEvent e (by omega)) rfl

theorem decodeWatermark_encodeWatermark (watermark : ℤ) :
    decodeWatermark (encodeWatermark watermark) = .ok (receivedBigInt watermark) := by
  have heq : encodeWatermark watermark = Fields.uint64 1 watermark ++ [] := by
    simp only [encodeWatermark, Writer.finish_uint64, Writer.finish_init, List.nil_append,
      List.append_nil]
  rw [heq, decodeWatermark]
  exact readMessage_uint64 (by decide) rfl rfl rfl

theorem encodeStatsResponse_eq (res : WireStatsResponse) :
    encodeStatsResponse res = Fields.uint64 1 res.eventCount ++
      (Fields.uint64 2 res.segmentCount ++ (Fields.uint64 3 res.diskBytes ++
      (Fields.uint64 4 res.uptimeSeconds ++ (Fields.uint64 5 res.activeConnections ++
      (Fields.uint64 6 res.activeSubscriptions ++ (Fields.string 7 res.version ++
      (Fields.uint64 8 res.connectionsRefused ++ (Fields.uint64 9 res.maxConnections ++
      (Fields.uint64 10 res.connectionsReaped ++ []))))))))) := by
  simp only [encodeStatsResponse, Writer.finish_uint64, Writer.finish_string, Writer.finish_init,
    List.nil_append, List.append_nil, List.append_assoc]

theorem decodeStatsResponse_encodeStatsResponse (res : WireStatsResponse)
    (hlen : (encodeStatsResponse res).length ≤ maxArrayLength) :
    decodeStatsResponse (encodeStatsResponse res) = .ok res.received := by
  rw [encodeStatsResponse_eq] at hlen
  rw [encodeStatsResponse_eq, decodeStatsResponse]
  simp only [List.length_append] at hlen
  refine readMessage_uint64 (by decide) rfl rfl ?_
  refine readMessage_uint64 (by decide) rfl rfl ?_
  refine readMessage_uint64 (by decide) rfl rfl ?_
  refine readMessage_uint64 (by decide) rfl rfl ?_
  refine readMessage_uint64 (by decide) rfl rfl ?_
  refine readMessage_uint64 (by decide) rfl rfl ?_
  refine readMessage_receivedString (by decide) rfl (by omega) rfl ?_
  refine readMessage_uint64 (by decide) rfl rfl ?_
  refine readMessage_uint64 (by decide) rfl rfl ?_
  exact readMessage_uint64 (by decide) rfl rfl rfl

theorem encodeErrorResponse_eq (res : WireErrorResponse) :
    encodeErrorResponse res = Fields.uint64 1 res.code ++ (Fields.string 2 res.message ++
      (Fields.opt (fun p => Fields.varint 3 (u64 p)) res.conflictPosition ++
        (Fields.bool 4 res.retryable ++ []))) := by
  simp only [encodeErrorResponse,
    Writer.finish_ifDefined _ fun w p => Writer.finish_uint64Present w 3 p,
    Writer.finish_bool, Writer.finish_string, Writer.finish_enum, Writer.finish_init,
    List.nil_append, List.append_nil, List.append_assoc]

theorem decodeErrorResponse_encodeErrorResponse (res : WireErrorResponse)
    (hlen : (encodeErrorResponse res).length ≤ maxArrayLength) :
    decodeErrorResponse (encodeErrorResponse res) = .ok res.received := by
  rw [encodeErrorResponse_eq] at hlen
  rw [encodeErrorResponse_eq, decodeErrorResponse]
  simp only [List.length_append] at hlen
  refine readMessage_uint32 (by decide) rfl rfl ?_
  refine readMessage_receivedString (by decide) rfl (by omega) rfl ?_
  refine readMessage_opt receivedBigInt
    (fun p => { res.received with conflictPosition := p, retryable := false }) rfl
    (fun p hp => ?_) ?_
  · exact readMessage_uint64Present (by decide) rfl rfl
  · exact readMessage_bool (by decide) rfl rfl rfl

theorem encodeHelloAck_eq (ack : WireHelloAck) :
    encodeHelloAck ack =
      Fields.uint64 1 ack.protocolVersion ++ (Fields.string 2 ack.serverVersion ++ []) := by
  simp only [encodeHelloAck, Writer.finish_string, Writer.finish_uint32, Writer.finish_init,
    List.nil_append, List.append_nil]

theorem decodeHelloAck_encodeHelloAck (ack : WireHelloAck)
    (hlen : (encodeHelloAck ack).length ≤ maxArrayLength) :
    decodeHelloAck (encodeHelloAck ack) = .ok ack.received := by
  rw [encodeHelloAck_eq] at hlen
  rw [encodeHelloAck_eq, decodeHelloAck]
  simp only [List.length_append] at hlen
  refine readMessage_uint32 (by decide) rfl rfl ?_
  exact readMessage_receivedString (by decide) rfl (by omega) rfl rfl

/-- The part of a response that carries its kind. -/
def responseKindBytes : ResponseKind → Bytes
  | .append res => Fields.len 2 (encodeAppendResponse res)
  | .readEvents res => Fields.len 3 (encodeReadEvents res)
  | .readEnd res => Fields.len 4 (encodeWatermark res.watermark)
  | .error res => Fields.len 5 (encodeErrorResponse res)
  | .caughtUp res => Fields.len 6 (encodeWatermark res.watermark)
  | .stats res => Fields.len 7 (encodeStatsResponse res)
  | .helloAck ack => Fields.len 8 (encodeHelloAck ack)
  | .none => []

theorem encodeResponse_eq (response : WireResponse) :
    encodeResponse response =
      Fields.uint64 1 response.requestId ++ (responseKindBytes response.kind ++ []) := by
  cases h : response.kind <;>
    simp only [encodeResponse, h, responseKindBytes, Writer.finish_message, Writer.finish_uint64,
      Writer.finish_init, List.nil_append, List.append_nil]

/-- What an encoded response is decoded to. -/
theorem decodeResponse_encodeResponse_received (response : WireResponse)
    (hlen : (encodeResponse response).length ≤ maxArrayLength) :
    decodeResponse (encodeResponse response) = .ok response.received := by
  rw [encodeResponse_eq] at hlen
  rw [encodeResponse_eq, decodeResponse]
  simp only [List.length_append] at hlen
  refine readMessage_uint64 (by decide) rfl rfl ?_
  obtain ⟨requestId, kind⟩ := response
  cases kind with
  | append res =>
    simp only [responseKindBytes] at hlen
    exact readMessage_message (by decide) rfl (by omega)
      (decodeAppendResponse_encodeAppendResponse _) rfl
  | readEvents res =>
    have := Fields.length_le_len 3 (encodeReadEvents res)
    simp only [responseKindBytes] at hlen
    exact readMessage_message (by decide) rfl (by omega)
      (decodeReadEvents_encodeReadEvents _ (by omega)) rfl
  | readEnd res | caughtUp res =>
    simp only [responseKindBytes] at hlen
    exact readMessage_message (by decide) rfl (by omega) (decodeWatermark_encodeWatermark _) rfl
  | error res =>
    have := Fields.length_le_len 5 (encodeErrorResponse res)
    simp only [responseKindBytes] at hlen
    exact readMessage_message (by decide) rfl (by omega)
      (decodeErrorResponse_encodeErrorResponse _ (by omega)) rfl
  | stats res =>
    have := Fields.length_le_len 7 (encodeStatsResponse res)
    simp only [responseKindBytes] at hlen
    exact readMessage_message (by decide) rfl (by omega)
      (decodeStatsResponse_encodeStatsResponse _ (by omega)) rfl
  | helloAck ack =>
    have := Fields.length_le_len 8 (encodeHelloAck ack)
    simp only [responseKindBytes] at hlen
    exact readMessage_message (by decide) rfl (by omega)
      (decodeHelloAck_encodeHelloAck _ (by omega)) rfl
  | none => rfl

end

end Tephra
