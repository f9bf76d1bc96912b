import Tephra.Convert
import Tephra.Proto.RoundTrip
import Tephra.Utf8.Inverse

/-!
# Events over the wire

An event that `Event.create` accepted is put into an append request, or comes back in a batch of a
read.  Whatever else these messages hold, it arrives with the type, tags and payload it had, unless
its type or a tag begins with U+FEFF, which the text decoder drops.

* `eventToWire_received` : when the wire event arrives as it was.
* `event_round_trip_iff` : both directions.
-/

namespace Tephra

open Utf8

/-- The event at place `i` of the append that some bytes are decoded to. -/
def appendedEvent [TextCodec] (bytes : Bytes) (i : ℕ) : Option WireEvent :=
  match decodeRequest bytes with
  | .ok { kind := .append req, .. } => req.events[i]?
  | _ => none

/-- The event at place `i` of the batch that some bytes are decoded to, as the caller gets it. -/
def readEvent [TextCodec] (bytes : Bytes) (i : ℕ) : Option Event :=
  match decodeResponse bytes with
  | .ok { kind := .readEvents res, .. } =>
    res.events[i]?.bind fun seq => (sequencedFromWire seq).toOption.map SequencedEvent.event
  | _ => none

/-- An append with an event between others. -/
def appendWith (requestId : ℤ) (before : List WireEvent) (e : Event) (after : List WireEvent)
    (condition : Option WireAppendCondition) : WireRequest where
  requestId := requestId
  kind := .append { events := before ++ eventToWire e :: after, condition := condition }

/-- A batch with an event between others. -/
def batchWith (requestId : ℤ) (before : List WireSequencedEvent) (position : ℤ) (e : Event)
    (after : List WireSequencedEvent) : WireResponse where
  requestId := requestId
  kind := .readEvents
    { events := before ++ { position := position, event := some (eventToWire e) } :: after }

/-- A string that begins with a byte order mark. -/
def Marked (s : JsString) : Prop := s.head? = some 0xfeff

instance (s : JsString) : Decidable (Marked s) := inferInstanceAs (Decidable (_ = _))

section

attribute [local instance] utf8Codec

theorem receivedElement_eq_self {s : JsString} (h : wellFormed s = true) :
    receivedElement s = s ↔ ¬Marked s := survives_iff h

theorem receivedString_eq_self {s : JsString} (h : wellFormed s = true) :
    receivedString s = s ↔ ¬Marked s := by
  rw [receivedString]
  split_ifs with hs
  · rw [hs]
    exact iff_of_true rfl (by intro h; cases h)
  · exact receivedElement_eq_self h

/-- The strings of an event are all that can change. -/
theorem eventToWire_received {e : Event} (htype : wellFormed e.type = true)
    (htags : ∀ tag ∈ e.tags, wellFormed tag = true) :
    (eventToWire e).received = eventToWire e ↔ ∀ s ∈ e.type :: e.tags, ¬Marked s := by
  have heq : (eventToWire e).received = eventToWire e ↔
      receivedString e.type = e.type ∧ e.tags.map receivedElement = e.tags := by
    simp only [WireEvent.received, eventToWire, WireEvent.mk.injEq, and_true]
  rw [heq, receivedString_eq_self htype, List.forall_mem_cons]
  refine and_congr_right fun _ => ?_
  constructor
  · intro hmap tag htag
    have hself := List.map_inj_left.1 (hmap.trans (List.map_id _).symm) tag htag
    exact (receivedElement_eq_self (htags tag htag)).1 hself
  · intro hmarked
    exact map_eq_self fun tag htag =>
      (receivedElement_eq_self (htags tag htag)).2 (hmarked tag htag)

theorem appendedEvent_appendWith {requestId : ℤ} {before after : List WireEvent} {e : Event}
    {condition : Option WireAppendCondition}
    (hlen :
      (encodeRequest (appendWith requestId before e after condition)).length ≤ maxArrayLength) :
    appendedEvent (encodeRequest (appendWith requestId before e after condition)) before.length =
      some (eventToWire e).received := by
  have hreceived : (appendWith requestId before e after condition).received =
      { requestId := receivedBigInt requestId
        kind := .append
          { events := before.map WireEvent.received ++
              (eventToWire e).received :: after.map WireEvent.received
            condition := condition.map WireAppendCondition.received } } := by
    simp [WireRequest.received, appendWith, RequestKind.received, WireAppendRequest.received]
  rw [appendedEvent, decodeRequest_encodeRequest_received _ hlen, hreceived]
  simp

theorem readEvent_batchWith {requestId position : ℤ} {before after : List WireSequencedEvent}
    {e : Event}
    (hlen :
      (encodeResponse (batchWith requestId before position e after)).length ≤ maxArrayLength) :
    readEvent (encodeResponse (batchWith requestId before position e after)) before.length =
      some (Event.fromServer (eventToWire e).received.type (eventToWire e).received.tags
        (eventToWire e).received.payload) := by
  have hreceived : (batchWith requestId before position e after).received =
      { requestId := receivedBigInt requestId
        kind := .readEvents
          { events := before.map WireSequencedEvent.received ++
              { position := receivedBigInt position, event := some (eventToWire e).received } ::
                after.map WireSequencedEvent.received } } := by
    simp [WireResponse.received, batchWith, ResponseKind.received, WireReadEvents.received,
      WireSequencedEvent.received]
  rw [readEvent, decodeResponse_encodeResponse_received _ hlen, hreceived]
  simp [sequencedFromWire, Except.toOption]

theorem fromServer_eq_iff {w : WireEvent} {e : Event} :
    Event.fromServer w.type w.tags w.payload = e ↔ w = eventToWire e := by
  cases w
  cases e
  simp [Event.fromServer, eventToWire]

/-- **An event never round-trips to something else** exactly when neither its type nor a tag begins
with a byte order mark. -/
theorem event_round_trip_iff (type : JsString) (tags : List JsString) (payload : Bytes) (e : Event)
    (hcreate : Event.create type tags payload = .ok e) (htype : wellFormed type = true)
    (htags : ∀ tag ∈ tags, wellFormed tag = true) :
    (e.type = type ∧ e.tags.Perm tags ∧ e.payload = payload) ∧
      (∀ requestId before after condition,
        (encodeRequest (appendWith requestId before e after condition)).length ≤ maxArrayLength →
          (appendedEvent (encodeRequest (appendWith requestId before e after condition))
              before.length = some (eventToWire e) ↔
            ∀ s ∈ type :: tags, ¬Marked s)) ∧
      ∀ requestId before position after,
        (encodeResponse (batchWith requestId before position e after)).length ≤ maxArrayLength →
          (readEvent (encodeResponse (batchWith requestId before position e after))
              before.length = some e ↔
            ∀ s ∈ type :: tags, ¬Marked s) := by
  obtain ⟨-, -, rfl⟩ := Event.create_eq_ok.1 hcreate
  have hperm := List.perm_insertionSort (· ≤ ·) tags
  have hmarked : (∀ s ∈ type :: tags.insertionSort (· ≤ ·), ¬Marked s) ↔
      ∀ s ∈ type :: tags, ¬Marked s := by
    simp only [List.forall_mem_cons, hperm.mem_iff]
  have hsame := eventToWire_received
    (e := { type := type, tags := tags.insertionSort (· ≤ ·), payload := payload }) htype
    fun tag htag => htags tag (hperm.mem_iff.1 htag)
  refine ⟨⟨rfl, hperm, rfl⟩, ?_, ?_⟩
  · intro requestId before after condition hlen
    rw [appendedEvent_appendWith hlen, ← hmarked, ← hsame, Option.some.injEq]
  · intro requestId before position after hlen
    rw [readEvent_batchWith hlen, ← hmarked, ← hsame, Option.some.injEq, fromServer_eq_iff]

/-- An event with a tag outside the basic plane. -/
def clefEvent : Event := { type := js "order", tags := [js "a", js "𝄞"], payload := [1] }

/-- It comes back both ways. -/
theorem event_round_trip_clef :
    appendedEvent (encodeRequest (appendWith 1 [] clefEvent [] none)) 0 =
        some (eventToWire clefEvent) ∧
      readEvent (encodeResponse (batchWith 1 [] 5 clefEvent [])) 0 = some clefEvent := by
  obtain ⟨-, happend, hread⟩ := event_round_trip_iff (js "order") [js "𝄞", js "a"] [1] clefEvent
    (by decide +kernel) (by decide +kernel) (by decide +kernel)
  exact ⟨(happend 1 [] [] none (by decide +kernel)).2 (by decide +kernel),
    (hread 1 [] 5 [] (by decide +kernel)).2 (by decide +kernel)⟩

/-- An event whose type is a byte order mark. -/
def markEvent : Event := { type := [0xfeff], tags := [], payload := [] }

/-- It is accepted, and comes back with an empty type. -/
theorem event_round_trip_mark :
    Event.create [0xfeff] [] [] = .ok markEvent ∧ wellFormed [0xfeff] = true ∧
      appendedEvent (encodeRequest (appendWith 1 [] markEvent [] none)) 0 =
        some { type := [], tags := [], payload := [] } ∧
      readEvent (encodeResponse (batchWith 1 [] 5 markEvent [])) 0 =
        some { type := [], tags := [], payload := [] } := by
  decide +kernel

end

end Tephra
