import Tephra.Proto.Received
import Tephra.Utf8

/-!
# Decoding what was encoded

A message is well formed when its bigints are in the range of a uint64, its numbers in that of a
uint32, and its strings survive the text codec.  Such a message arrives as it is (`received`), so
that its decoder gives it back.

* `decodeRequest_encodeRequest`, `decodeResponse_encodeResponse` : the round trip of the two
  top-level messages.
* `message_round_trip` : both of them, and that no two messages share an encoding.
-/

namespace Tephra

section

variable [TextCodec]

/-! ### Well-formed messages -/

/-- The strings of an event survive. -/
structure WireEvent.WellFormed (e : WireEvent) : Prop where
  type : Survives e.type
  tags : ∀ tag ∈ e.tags, Survives tag

/-- The strings of a query item survive. -/
structure WireQueryItem.WellFormed (item : WireQueryItem) : Prop where
  types : ∀ type ∈ item.types, Survives type
  tags : ∀ tag ∈ item.tags, Survives tag

/-- The items of a query are well formed. -/
def WireQuery.WellFormed (q : WireQuery) : Prop := ∀ item ∈ q.items, item.WellFormed

/-- A well-formed append condition. -/
structure WireAppendCondition.WellFormed (c : WireAppendCondition) : Prop where
  failIfEventsMatch : c.failIfEventsMatch.WellFormed
  after : IsU64 c.after
  failIfExists : ∀ q, c.failIfExists = some q → q.WellFormed

/-- A well-formed append. -/
structure WireAppendRequest.WellFormed (req : WireAppendRequest) : Prop where
  events : ∀ e ∈ req.events, e.WellFormed
  condition : ∀ c, req.condition = some c → c.WellFormed

/-- A well-formed read. -/
structure WireReadRequest.WellFormed (req : WireReadRequest) : Prop where
  query : req.query.WellFormed
  after : IsU64 req.after
  limit : ∀ limit, req.limit = some limit → IsU64 limit

/-- A well-formed subscribe. -/
structure WireSubscribeRequest.WellFormed (req : WireSubscribeRequest) : Prop where
  query : req.query.WellFormed
  after : IsU64 req.after

/-- A well-formed request of any kind but hello. -/
def RequestKind.WellFormed : RequestKind → Prop
  | .append req => req.WellFormed
  | .read req => req.WellFormed
  | .subscribe req => req.WellFormed
  | .cancel req => IsU64 req.target
  | .stats => True
  | .hello _ => False
  | .none => True

/-- A well-formed request. -/
structure WireRequest.WellFormed (request : WireRequest) : Prop where
  requestId : IsU64 request.requestId
  kind : request.kind.WellFormed

/-- A well-formed append response. -/
structure WireAppendResponse.WellFormed (res : WireAppendResponse) : Prop where
  first : IsU64 res.first
  last : IsU64 res.last

/-- A well-formed sequenced event. -/
structure WireSequencedEvent.WellFormed (e : WireSequencedEvent) : Prop where
  position : IsU64 e.position
  event : ∀ event, e.event = some event → event.WellFormed

/-- The events of a batch are well formed. -/
def WireReadEvents.WellFormed (res : WireReadEvents) : Prop := ∀ e ∈ res.events, e.WellFormed

/-- A well-formed stats response. -/
structure WireStatsResponse.WellFormed (res : WireStatsResponse) : Prop where
  eventCount : IsU64 res.eventCount
  segmentCount : IsU64 res.segmentCount
  diskBytes : IsU64 res.diskBytes
  uptimeSeconds : IsU64 res.uptimeSeconds
  activeConnections : IsU64 res.activeConnections
  activeSubscriptions : IsU64 res.activeSubscriptions
  version : Survives res.version
  connectionsRefused : IsU64 res.connectionsRefused
  maxConnections : IsU64 res.maxConnections
  connectionsReaped : IsU64 res.connectionsReaped

/-- A well-formed error response. -/
structure WireErrorResponse.WellFormed (res : WireErrorResponse) : Prop where
  code : IsU32 res.code
  message : Survives res.message
  conflictPosition : ∀ p, res.conflictPosition = some p → IsU64 p

/-- A well-formed hello acknowledgement. -/
structure WireHelloAck.WellFormed (ack : WireHelloAck) : Prop where
  protocolVersion : IsU32 ack.protocolVersion
  serverVersion : Survives ack.serverVersion

/-- A well-formed response of any kind. -/
def ResponseKind.WellFormed : ResponseKind → Prop
  | .append res => res.WellFormed
  | .readEvents res => res.WellFormed
  | .readEnd res => IsU64 res.watermark
  | .error res => res.WellFormed
  | .caughtUp res => IsU64 res.watermark
  | .stats res => res.WellFormed
  | .helloAck ack => ack.WellFormed
  | .none => True

/-- A well-formed response. -/
structure WireResponse.WellFormed (response : WireResponse) : Prop where
  requestId : IsU64 response.requestId
  kind : response.kind.WellFormed

/-! ### Well-formed messages arrive as they are -/

omit [TextCodec] in
theorem IsU64.received {v : ℤ} (h : IsU64 v) : receivedBigInt v = v := u64_of_lt h.1 h.2

omit [TextCodec] in
theorem IsU32.received {v : ℤ} (h : IsU32 v) : receivedNumber v = v := by
  have hv := u64_of_lt h.1 (h.2.trans (by norm_num))
  have hlt := h.2
  rw [receivedNumber, toNumber_of_lt (by omega), hv]

theorem Survives.received {s : JsString} (h : Survives s) : receivedString s = s := by
  rw [receivedString]
  split_ifs with hs
  · exact hs.symm
  · exact h

theorem Survives.receivedElement {s : JsString} (h : Survives s) : receivedElement s = s := h

omit [TextCodec] in
theorem map_eq_self {α : Type} {f : α → α} {l : List α} (h : ∀ a ∈ l, f a = a) : l.map f = l :=
  (List.map_congr_left h).trans (List.map_id l)

omit [TextCodec] in
theorem optionMap_eq_self {α : Type} {f : α → α} {o : Option α} (h : ∀ a, o = some a → f a = a) :
    o.map f = o := by
  cases o with
  | none => rfl
  | some a => rw [Option.map_some, h a rfl]

theorem WireEvent.WellFormed.received {e : WireEvent} (h : e.WellFormed) : e.received = e := by
  rw [WireEvent.received, h.type.received,
    map_eq_self fun tag htag => (h.tags tag htag).receivedElement]

theorem WireQueryItem.WellFormed.received {item : WireQueryItem} (h : item.WellFormed) :
    item.received = item := by
  rw [WireQueryItem.received,
    map_eq_self fun type htype => (h.types type htype).receivedElement,
    map_eq_self fun tag htag => (h.tags tag htag).receivedElement]

theorem WireQuery.WellFormed.received {q : WireQuery} (h : q.WellFormed) : q.received = q := by
  rw [WireQuery.received, map_eq_self fun item hitem => (h item hitem).received]

theorem WireAppendCondition.WellFormed.received {c : WireAppendCondition} (h : c.WellFormed) :
    c.received = c := by
  rw [WireAppendCondition.received, h.failIfEventsMatch.received, h.after.received,
    optionMap_eq_self fun q hq => (h.failIfExists q hq).received]

theorem WireAppendRequest.WellFormed.received {req : WireAppendRequest} (h : req.WellFormed) :
    req.received = req := by
  rw [WireAppendRequest.received, map_eq_self fun e he => (h.events e he).received,
    optionMap_eq_self fun c hc => (h.condition c hc).received]

theorem WireReadRequest.WellFormed.received {req : WireReadRequest} (h : req.WellFormed) :
    req.received = req := by
  rw [WireReadRequest.received, h.query.received, h.after.received,
    optionMap_eq_self fun limit hlimit => (h.limit limit hlimit).received]

theorem WireSubscribeRequest.WellFormed.received {req : WireSubscribeRequest} (h : req.WellFormed) :
    req.received = req := by
  rw [WireSubscribeRequest.received, h.query.received, h.after.received]

theorem WireRequest.WellFormed.received {request : WireRequest} (h : request.WellFormed) :
    request.received = request := by
  obtain ⟨requestId, kind⟩ := request
  obtain ⟨hid, hkind⟩ := h
  rw [WireRequest.received, IsU64.received hid]
  cases kind with
  | append req => rw [RequestKind.received, WireAppendRequest.WellFormed.received hkind]
  | read req => rw [RequestKind.received, WireReadRequest.WellFormed.received hkind]
  | subscribe req => rw [RequestKind.received, WireSubscribeRequest.WellFormed.received hkind]
  | cancel req => rw [RequestKind.received, WireCancelRequest.received, IsU64.received hkind]
  | stats => rfl
  | hello hello => exact hkind.elim
  | none => rfl

theorem WireSequencedEvent.WellFormed.received {e : WireSequencedEvent} (h : e.WellFormed) :
    e.received = e := by
  rw [WireSequencedEvent.received, h.position.received,
    optionMap_eq_self fun event hevent => (h.event event hevent).received]

theorem WireReadEvents.WellFormed.received {res : WireReadEvents} (h : res.WellFormed) :
    res.received = res := by
  rw [WireReadEvents.received, map_eq_self fun e he => (h e he).received]

omit [TextCodec] in
theorem WireAppendResponse.WellFormed.received {res : WireAppendResponse} (h : res.WellFormed) :
    res.received = res := by
  rw [WireAppendResponse.received, h.first.received, h.last.received]

theorem WireStatsResponse.WellFormed.received {res : WireStatsResponse} (h : res.WellFormed) :
    res.received = res := by
  rw [WireStatsResponse.received, h.eventCount.received, h.segmentCount.received,
    h.diskBytes.received, h.uptimeSeconds.received, h.activeConnections.received,
    h.activeSubscriptions.received, h.version.received, h.connectionsRefused.received,
    h.maxConnections.received, h.connectionsReaped.received]

theorem WireErrorResponse.WellFormed.received {res : WireErrorResponse} (h : res.WellFormed) :
    res.received = res := by
  rw [WireErrorResponse.received, h.code.received, h.message.received,
    optionMap_eq_self fun p hp => (h.conflictPosition p hp).received]

theorem WireHelloAck.WellFormed.received {ack : WireHelloAck} (h : ack.WellFormed) :
    ack.received = ack := by
  rw [WireHelloAck.received, h.protocolVersion.received, h.serverVersion.received]

theorem WireResponse.WellFormed.received {response : WireResponse} (h : response.WellFormed) :
    response.received = response := by
  obtain ⟨requestId, kind⟩ := response
  obtain ⟨hid, hkind⟩ := h
  rw [WireResponse.received, IsU64.received hid]
  cases kind with
  | append res => rw [ResponseKind.received, WireAppendResponse.WellFormed.received hkind]
  | readEvents res => rw [ResponseKind.received, WireReadEvents.WellFormed.received hkind]
  | readEnd res | caughtUp res => rw [ResponseKind.received, IsU64.received hkind]
  | error res => rw [ResponseKind.received, WireErrorResponse.WellFormed.received hkind]
  | stats res => rw [ResponseKind.received, WireStatsResponse.WellFormed.received hkind]
  | helloAck ack => rw [ResponseKind.received, WireHelloAck.WellFormed.received hkind]
  | none => rfl

/-- Decoding an encoded request that is not a hello gives it back. -/
theorem decodeRequest_encodeRequest {request : WireRequest} (h : request.WellFormed)
    (hlen : (encodeRequest request).length ≤ maxArrayLength) :
    decodeRequest (encodeRequest request) = .ok request := by
  rw [decodeRequest_encodeRequest_received request hlen, h.received]

/-- Decoding an encoded response gives it back. -/
theorem decodeResponse_encodeResponse {response : WireResponse} (h : response.WellFormed)
    (hlen : (encodeResponse response).length ≤ maxArrayLength) :
    decodeResponse (encodeResponse response) = .ok response := by
  rw [decodeResponse_encodeResponse_received response hlen, h.received]

/-- Requests other than hello and responses come back from their encodings, so that whatever two of
them differ in (a catch-all query and one without items, a limit of zero and none, an empty clause
and none) their encodings differ too. -/
theorem message_round_trip :
    (∀ request : WireRequest, request.WellFormed →
      (encodeRequest request).length ≤ maxArrayLength →
        decodeRequest (encodeRequest request) = .ok request ∧
        ∀ request' : WireRequest, request'.WellFormed →
          encodeRequest request' = encodeRequest request → request' = request) ∧
    ∀ response : WireResponse, response.WellFormed →
      (encodeResponse response).length ≤ maxArrayLength →
        decodeResponse (encodeResponse response) = .ok response ∧
        ∀ response' : WireResponse, response'.WellFormed →
          encodeResponse response' = encodeResponse response → response' = response := by
  refine ⟨fun request h hlen => ?_, fun response h hlen => ?_⟩
  · have hdecode := decodeRequest_encodeRequest h hlen
    refine ⟨hdecode, fun request' h' heq => ?_⟩
    have hdecode' := decodeRequest_encodeRequest h' (by rwa [heq])
    rw [heq, hdecode] at hdecode'
    exact (Except.ok.inj hdecode').symm
  · have hdecode := decodeResponse_encodeResponse h hlen
    refine ⟨hdecode, fun response' h' heq => ?_⟩
    have hdecode' := decodeResponse_encodeResponse h' (by rwa [heq])
    rw [heq, hdecode] at hdecode'
    exact (Except.ok.inj hdecode').symm

end

/-- An append with an empty tag, whose condition has an empty existence clause. -/
def sampleAppend : WireRequest where
  requestId := 7
  kind := .append
    { events := [{ type := js "order", tags := [js "a", []], payload := [1, 0, 255] }]
      condition := some
        { failIfEventsMatch := { all := false, items := [{ types := [], tags := [js "é"] }] }
          after := 2 ^ 64 - 1
          failIfExists := some emptyQuery } }

theorem sampleAppend_wellFormed : @WireRequest.WellFormed utf8Codec sampleAppend := by
  refine @WireRequest.WellFormed.mk utf8Codec _ (by decide) ?_
  refine @WireAppendRequest.WellFormed.mk utf8Codec _ (fun e he => ?_) (fun c hc => ?_)
  · rw [List.mem_singleton.1 he]
    exact @WireEvent.WellFormed.mk utf8Codec _ (by decide +kernel) (by decide +kernel)
  · cases hc
    refine @WireAppendCondition.WellFormed.mk utf8Codec _ (fun item hitem => ?_) (by decide)
      (fun q hq => ?_)
    · rw [List.mem_singleton.1 hitem]
      exact @WireQueryItem.WellFormed.mk utf8Codec _ (by decide +kernel) (by decide +kernel)
    · cases hq
      exact fun _ h => absurd h List.not_mem_nil

/-- It comes back, under the standard codec. -/
theorem message_round_trip_append :
    @decodeRequest utf8Codec (@encodeRequest utf8Codec sampleAppend) = .ok sampleAppend :=
  ((@message_round_trip utf8Codec).1 sampleAppend sampleAppend_wellFormed (by decide +kernel)).1

end Tephra
