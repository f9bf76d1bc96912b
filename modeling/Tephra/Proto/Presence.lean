import Tephra.Proto.RoundTrip

/-!
# Presence of optional fields

The optional fields of the schema, listed for each message with whether they are present and with
what value.  They arrive as they were sent, but for one: `encodeHello` writes a presented credential
with the writer that leaves out empty strings, so that a hello with an empty credential arrives as
one without.

* `presence_iff` : for which messages the optional fields survive.
-/

namespace Tephra

/-- An optional field, absent or with its value. -/
inductive OptionalField
  /-- `Hello.authToken`. -/
  | authToken (value : Option JsString)
  /-- `ReadRequest.limit`. -/
  | limit (value : Option ℤ)
  /-- `AppendRequest.condition`. -/
  | condition (value : Option WireAppendCondition)
  /-- `AppendCondition.failIfExists`. -/
  | failIfExists (value : Option WireQuery)
  /-- `SequencedEvent.event`. -/
  | event (value : Option WireEvent)
  /-- `ErrorResponse.conflictPosition`. -/
  | conflictPosition (value : Option ℤ)
  deriving DecidableEq, Repr

/-- The optional fields of a request, those of an embedded condition included. -/
def WireRequest.optionalFields (request : WireRequest) : List OptionalField :=
  match request.kind with
  | .hello hello => [.authToken hello.authToken]
  | .read read => [.limit read.limit]
  | .append append =>
    .condition append.condition ::
      append.condition.toList.map fun condition => .failIfExists condition.failIfExists
  | _ => []

/-- The optional fields of a response. -/
def WireResponse.optionalFields (response : WireResponse) : List OptionalField :=
  match response.kind with
  | .readEvents res => res.events.map fun e => .event e.event
  | .error res => [.conflictPosition res.conflictPosition]
  | _ => []

section

variable [TextCodec]

/-- The value of an optional field, if it has one, is in the range of its type. -/
def OptionalField.InRange : OptionalField → Prop
  | .authToken value => ∀ s, value = some s → Survives s
  | .limit value => ∀ v, value = some v → IsU64 v
  | .condition value => ∀ c, value = some c → c.WellFormed
  | .failIfExists value => ∀ q, value = some q → q.WellFormed
  | .event value => ∀ e, value = some e → e.WellFormed
  | .conflictPosition value => ∀ v, value = some v → IsU64 v

theorem receivedToken_eq_some {s : JsString} (hs : Survives s) :
    receivedToken s = some s ↔ s ≠ [] := by
  rw [receivedToken]
  split_ifs with h
  · refine iff_of_false (by intro h; cases h) fun hne => ?_
    exact h.elim hne (hs.encodeUtf8_ne_nil hne)
  · rw [not_or] at h
    exact iff_of_true (congrArg some hs) h.1

theorem bind_receivedToken {o : Option JsString} (h : ∀ s, o = some s → Survives s) :
    o.bind receivedToken = o ↔ o ≠ some [] := by
  cases o with
  | none => exact iff_of_true rfl (by intro h; cases h)
  | some s =>
    rw [Option.bind_some, receivedToken_eq_some (h s rfl)]
    exact not_congr (Option.some_inj).symm

theorem WireRequest.optionalFields_received {request : WireRequest}
    (h : ∀ f ∈ request.optionalFields, f.InRange) :
    request.received.optionalFields = request.optionalFields ↔
      OptionalField.authToken (some []) ∉ request.optionalFields := by
  obtain ⟨requestId, kind⟩ := request
  cases kind with
  | append req =>
    have hcondition : ∀ c, req.condition = some c → c.WellFormed :=
      h (.condition _) List.mem_cons_self
    have hreceived := optionMap_eq_self fun c hc => (hcondition c hc).received
    refine iff_of_true ?_ ?_
    · show OptionalField.condition (req.condition.map WireAppendCondition.received) ::
        ((req.condition.map WireAppendCondition.received).toList.map _) = _
      rw [hreceived]
      rfl
    · simp [optionalFields]
  | read req =>
    have hlimit : ∀ v, req.limit = some v → IsU64 v := h (.limit _) List.mem_cons_self
    refine iff_of_true ?_ (by simp [optionalFields])
    show [OptionalField.limit (req.limit.map receivedBigInt)] = _
    rw [optionMap_eq_self fun v hv => (hlimit v hv).received]
    rfl
  | hello hello =>
    have htoken : ∀ s, hello.authToken = some s → Survives s :=
      h (.authToken _) List.mem_cons_self
    show [OptionalField.authToken (hello.authToken.bind receivedToken)] =
      [OptionalField.authToken hello.authToken] ↔ _ ∉ [OptionalField.authToken hello.authToken]
    rw [List.cons.injEq, OptionalField.authToken.injEq, and_iff_left rfl, bind_receivedToken htoken,
      List.mem_singleton, OptionalField.authToken.injEq]
    exact not_congr eq_comm
  | subscribe | cancel | stats | none =>
    exact iff_of_true rfl List.not_mem_nil

theorem WireResponse.optionalFields_received {response : WireResponse}
    (h : ∀ f ∈ response.optionalFields, f.InRange) :
    response.received.optionalFields = response.optionalFields := by
  obtain ⟨requestId, kind⟩ := response
  cases kind with
  | readEvents res =>
    show (res.events.map WireSequencedEvent.received).map _ = res.events.map _
    rw [List.map_map]
    refine List.map_congr_left fun e he => ?_
    have hevent : ∀ event, e.event = some event → event.WellFormed :=
      h (.event e.event) (List.mem_map.2 ⟨e, he, rfl⟩)
    show OptionalField.event (e.event.map WireEvent.received) = _
    rw [optionMap_eq_self fun event heq => (hevent event heq).received]
  | error res =>
    have hposition : ∀ v, res.conflictPosition = some v → IsU64 v :=
      h (.conflictPosition _) List.mem_cons_self
    show [OptionalField.conflictPosition (res.conflictPosition.map receivedBigInt)] = _
    rw [optionMap_eq_self fun v hv => (hposition v hv).received]
    rfl
  | append | readEnd | caughtUp | stats | helloAck | none => rfl

/-- **Presence survives the wire**, with the value of every optional field that is in range: for
every request but a hello with an empty credential, and for every response. -/
theorem presence_iff :
    (∀ request : WireRequest, (∀ f ∈ request.optionalFields, f.InRange) →
      (encodeRequest request).length ≤ maxArrayLength →
        ((decodeRequest (encodeRequest request)).map WireRequest.optionalFields =
            .ok request.optionalFields ↔
          OptionalField.authToken (some []) ∉ request.optionalFields)) ∧
    ∀ response : WireResponse, (∀ f ∈ response.optionalFields, f.InRange) →
      (encodeResponse response).length ≤ maxArrayLength →
        (decodeResponse (encodeResponse response)).map WireResponse.optionalFields =
          .ok response.optionalFields := by
  refine ⟨?_, ?_⟩
  · intro request hrange hlen
    rw [decodeRequest_encodeRequest_received request hlen,
      ← WireRequest.optionalFields_received hrange]
    constructor
    · intro h
      exact Except.ok.inj h
    · intro h
      exact congrArg Except.ok h
  · intro response hrange hlen
    rw [decodeResponse_encodeResponse_received response hlen]
    exact congrArg Except.ok (WireResponse.optionalFields_received hrange)

end

section

attribute [local instance] utf8Codec

/-- A read limited to no events arrives limited to no events. -/
theorem presence_limit :
    (decodeRequest (encodeRequest
      { requestId := 1
        kind := .read { query := emptyQuery, after := 0, limit := some 0, reverse := false } })).map
        WireRequest.optionalFields = .ok [.limit (some 0)] := by
  refine (presence_iff.1 { requestId := 1
                           kind := .read { query := emptyQuery, after := 0, limit := some 0,
                                           reverse := false } } ?_ (by decide +kernel)).2 ?_
  · intro f hf
    rw [List.mem_singleton.1 hf]
    intro v hv
    cases hv
    decide
  · decide

/-- A hello that presents an empty credential arrives without one. -/
theorem presence_emptyToken :
    (decodeRequest (encodeRequest
      { requestId := 0, kind := .hello { protocolVersion := 1, authToken := some [] } })).map
        WireRequest.optionalFields = .ok [.authToken none] := by
  decide +kernel

end

end Tephra
