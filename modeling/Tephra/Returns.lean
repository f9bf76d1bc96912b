import Tephra.Service

/-!
# What callers get

What a server sends for a read, a subscription or an append, and what comes of it for the caller.

* `read_returns` : a read gives what was asked for.
* `subscription_follows` : a subscription follows the log.
* `append_decided` : a resolved append was appended.
-/

namespace Tephra

open Lib

/-! ### Events on the wire -/

/-- An event of the log as a server sends it. -/
def SequencedEvent.toWire (e : SequencedEvent) : WireSequencedEvent :=
  { position := e.position, event := some (eventToWire e.event) }

/-- A response with some events of the log. -/
def eventsKind (es : List SequencedEvent) : ResponseKind :=
  .readEvents { events := es.map SequencedEvent.toWire }

theorem batchEvents_toWire (es : List SequencedEvent) :
    batchEvents { events := es.map SequencedEvent.toWire } = es := by
  refine batchEvents_of_ok ?_
  induction es with
  | nil => rfl
  | cons e es ih =>
    simp only at ih
    rw [List.map_cons, List.mapM_cons, ih]
    rfl

/-! ### Reads -/

/-- A server that has the events of a log answers a read with what is asked for, in batches of any
sizes, and then the end. -/
def ReadServed (log : List SequencedEvent) (demand : Demand) (kinds : List ResponseKind) : Prop :=
  ∃ (answer : List SequencedEvent → List SequencedEvent) (batches : List (List SequencedEvent))
    (watermark : ℤ), demand = .read answer ∧ batches.flatten = answer log ∧
    kinds = batches.map eventsKind ++ [.readEnd { watermark := watermark }]

theorem flatMap_eventsKind (batches : List (List SequencedEvent)) :
    (batches.map eventsKind).flatMap readChannel.items = batches.flatten := by
  rw [List.flatMap_map, List.flatten_eq_flatMap]
  exact List.flatMap_congr fun es _ => batchEvents_toWire es

theorem ReadServed.items {batches : List (List SequencedEvent)} {watermark : ℤ}
    {kinds : List ResponseKind}
    (h : kinds <+: batches.map eventsKind ++ [.readEnd { watermark := watermark }]) :
    kinds.flatMap readChannel.items <+: batches.flatten ∧
      ∀ res, ResponseKind.readEnd res ∈ kinds →
        kinds.flatMap readChannel.items = batches.flatten := by
  have hall : (batches.map eventsKind ++ [ResponseKind.readEnd { watermark := watermark }]).flatMap
      readChannel.items = batches.flatten := by
    rw [List.flatMap_append, flatMap_eventsKind]
    exact List.append_nil _
  constructor
  · obtain ⟨kinds', hkinds⟩ := h
    rw [← hall, ← hkinds, List.flatMap_append]
    exact List.prefix_append _ _
  · intro res hmem
    rcases List.prefix_concat_iff.1 h with rfl | hbegins
    · exact hall
    · obtain ⟨es, -, heq⟩ := List.mem_map.1 (hbegins.subset hmem)
      cases heq

/-! ### Subscriptions -/

/-- The event of an item. -/
def SubEvent.event? : SubEvent → Option SequencedEvent
  | event e => some e
  | caughtUp _ => none

/-- Some items of a subscription to some events: these events, in order, from the first on; and
where it says that it has caught up, all of them up to there. -/
structure Follows (covered : List SequencedEvent) (items : List SubEvent) : Prop where
  events : items.filterMap SubEvent.event? <+: covered
  caughtUp : ∀ before watermark after, items = before ++ .caughtUp watermark :: after →
    ∀ e ∈ covered, e.position ≤ watermark → e ∈ before.filterMap SubEvent.event?

theorem Follows.of_begins {covered : List SequencedEvent} {items items' : List SubEvent}
    (h : Follows covered items) (hbegins : items' <+: items) : Follows covered items' where
  events := (hbegins.filterMap _).trans h.events
  caughtUp before watermark after heq := by
    obtain ⟨later, rfl⟩ := hbegins
    refine h.caughtUp before watermark (after ++ later) ?_
    rw [heq, List.append_assoc, List.cons_append]

/-- A response to a subscription. -/
inductive SubscribeReply
  | events (es : List SequencedEvent)
  | caughtUp (watermark : ℤ)

namespace SubscribeReply

/-- On the wire. -/
def kind : SubscribeReply → ResponseKind
  | events es => eventsKind es
  | caughtUp watermark => .caughtUp { watermark := watermark }

/-- To the consumer. -/
def items : SubscribeReply → List SubEvent
  | events es => es.map .event
  | caughtUp watermark => [.caughtUp watermark]

theorem items_kind (reply : SubscribeReply) : subscribeChannel.items reply.kind = reply.items := by
  cases reply with
  | events es => exact congrArg (List.map SubEvent.event) (batchEvents_toWire es)
  | caughtUp watermark => rfl

end SubscribeReply

/-- A server that has the events of a log serves a subscription: it sends the events asked for in
order, and that it has caught up when it has sent all of them up to a watermark. -/
def SubscribeServed (log : List SequencedEvent) (demand : Demand) (kinds : List ResponseKind) :
    Prop :=
  ∃ (covers : List SequencedEvent → List SequencedEvent) (replies : List SubscribeReply),
    demand = .subscribe covers ∧ kinds = replies.map SubscribeReply.kind ∧
      Follows (covers log) (replies.flatMap SubscribeReply.items)

theorem SubscribeServed.items {covered : List SequencedEvent} {replies : List SubscribeReply}
    {kinds : List ResponseKind} (hfollows : Follows covered (replies.flatMap SubscribeReply.items))
    (h : kinds <+: replies.map SubscribeReply.kind) :
    Follows covered (kinds.flatMap subscribeChannel.items) := by
  refine hfollows.of_begins ?_
  have hall : (replies.map SubscribeReply.kind).flatMap subscribeChannel.items =
      replies.flatMap SubscribeReply.items := by
    rw [List.flatMap_map]
    exact List.flatMap_congr fun reply _ => reply.items_kind
  obtain ⟨kinds', hkinds⟩ := h
  rw [← hall, ← hkinds, List.flatMap_append]
  exact List.prefix_append _ _

/-- The events that a call subscribes to. -/
def ClientCall.covered (call : ClientCall) (log : List SequencedEvent) : List SequencedEvent :=
  match call.demand? with
  | .ok (.subscribe covers) => covers log
  | _ => []

/-! ### Appends -/

/-- Events at consecutive positions. -/
def placedAt (first : ℤ) (events : List Event) : List SequencedEvent :=
  events.mapIdx fun i e => { position := first + i, event := e }

/-- A server decides an append on the log it has: it is refused, and the log stays; or it is not,
and the events are placed behind those of the log. -/
inductive AppendServed (log : List SequencedEvent) :
    List SequencedEvent → Demand → List ResponseKind → Prop
  | appended {events : List Event} {refusal : Refusal} {first : ℤ}
      (holds : refusal.conflict log = false ∧ refusal.alreadyExists log = false) :
      AppendServed log (log ++ placedAt first events) (.append events refusal)
        [.append { first := first, last := first + events.length - 1 }]
  | refused {events : List Event} {refusal : Refusal} {error : WireErrorResponse}
      (fires : refusal.conflict log = true ∨ refusal.alreadyExists log = true) :
      AppendServed log log (.append events refusal) [.error error]

theorem Conn.unaryOutcome_append {kind : ResponseKind} {reply : Reply}
    (h : Conn.unaryOutcome .append kind = .ok reply) :
    ∃ res, kind = .append res ∧ reply = .append res := by
  cases kind with
  | append res =>
    cases h
    exact ⟨res, rfl, rfl⟩
  | readEvents | readEnd | caughtUp | error | stats | helloAck | none => cases h

section

variable [TextCodec] {cfg : Config}

/-- What the consumer of a read is given and left on its connection, and all of it in the end. -/
theorem Service.read_given {c₀ c : Conn cfg} {bs : List Action} {call : ClientCall} {id : ℤ}
    {log : List SequencedEvent} {stream : ReadStream} (hmade : c₀.Made call id)
    (hclear : call.Clear) (halive : c₀.dead = false) (h : (connection cfg).Run c₀ bs c)
    (hmax : cfg.maxFrameLen < 2 ^ 32) (hcounter : c.idCounter < 2 ^ 64)
    (srv : Service (ReadServed log) c id)
    (hreceived : c₀.decoder.buffer ++ (received bs).flatten <+: srv.written.flatten)
    (hstream : c.calls.get? id = some (.read stream)) :
    stream.base.sink.accepted <+: call.answer log ∧
      (.finished ∈ stream.base.sink.promises → .closeStream id ∉ bs →
        stream.base.sink.promises.filterMap NextResult.value? = call.answer log) := by
  have hdemand := srv.demand_eq hmade h hclear hmax hcounter
  -- what happens to the read in its life are the first of the responses to it
  obtain ⟨object, hs, hmakes, hrequest, hresponses, hclosed⟩ :=
    srv.exists_life hmade halive h hmax hreceived
  obtain ⟨answer, batches, watermark, hread, hflatten, hkinds⟩ := srv.served
  rw [hread] at hdemand
  rw [hkinds] at hresponses
  have hanswer : call.answer log = batches.flatten := by
    rw [ClientCall.answer, hdemand, hflatten]
  have htype : call.type = readChannel.type := by
    cases call with
    | read | readBack => rfl
    | append | stats | subscribe => cases hdemand
  rw [htype] at hmakes hrequest hresponses
  obtain ⟨haccepted, hfinished⟩ := Channel.told hmakes hrequest hstream rfl
  obtain ⟨hbegins, hall⟩ := ReadServed.items hresponses
  rw [hanswer]
  refine ⟨haccepted ▸ hbegins, fun hmem hopen => ?_⟩
  -- who is told the end has taken what was buffered, and something has ended the stream cleanly
  obtain ⟨hqueue, x, hx, hclean⟩ := hfinished hmem
  have hgiven : stream.base.sink.promises.filterMap NextResult.value? =
      stream.base.sink.accepted := by
    rw [Sink.accepted, hqueue, List.append_nil]
  rw [hgiven, haccepted]
  rcases Happening.ending_eq_clean hclean with ⟨kind, hkind, hended⟩ | ⟨alive, rfl⟩
  · -- the end of the read came in, and so all its batches before
    have hin : kind ∈ responsesIn ((Request.new.react (.opened readChannel.type object)).life hs) :=
      List.mem_filterMap.2 ⟨x, hx, hkind⟩
    obtain ⟨res, rfl⟩ := Conn.endedBy_read hended
    exact hall res hin
  · exact absurd (hclosed alive ((Request.life_begins _ _).subset hx)) hopen

/-! ### What callers get -/

namespace Client

variable {cl₀ cl cl' : Client cfg} {lane : Lane} {id : ℤ} {as : List ClientAction}
variable {c₀ c : Conn cfg} {bs : List Action} {call : ClientCall} {log : List SequencedEvent}

/-- **A read gives what was asked for.**  A read is made on a live connection to a server that
answers it, among other requests, with what the request asks for that it decodes.  Whatever else is
done with the connection, and however the bytes of the server come in: what the consumer is given,
and what is still buffered for it, is the beginning of what the call asks for; and once it is told
the end and has not closed the stream itself, it has been given all of it. -/
theorem read_returns {stream : ReadStream} (hconn : cl₀.Connected)
    (hrun : (client cfg).Run cl₀ as cl) (hcall : cl.call call = (cl', .ok (lane, id)))
    (hclear : call.Clear) (hlane : cl'.lane? lane = some c₀) (halive : c₀.dead = false)
    (h : (connection cfg).Run c₀ bs c) (hmax : cfg.maxFrameLen < 2 ^ 32)
    (hcounter : c.idCounter < 2 ^ 64) (srv : Service (ReadServed log) c id)
    (hreceived : c₀.decoder.buffer ++ (received bs).flatten <+: srv.written.flatten)
    (hstream : c.calls.get? id = some (.read stream)) :
    stream.base.sink.accepted <+: call.answer log ∧
      (.finished ∈ stream.base.sink.promises → .closeStream id ∉ bs →
        stream.base.sink.promises.filterMap NextResult.value? = call.answer log) :=
  srv.read_given (made_of_call hconn hrun hcall hlane) hclear halive h hmax hcounter hreceived
    hstream

/-- **A subscription follows the log.**  A subscription is made on a live connection to a server
that serves it, among other requests, as the request asks that it decodes.  Whatever else is done
with the connection: what the consumer is given, and what is still buffered for it, are the events
that the call asks for, in order and none left out; where it is told that it has caught up, it has
been given all of them up to there; and it is never told that there are no more unless it has closed
the stream itself. -/
theorem subscription_follows {stream : SubscribeStream} (hconn : cl₀.Connected)
    (hrun : (client cfg).Run cl₀ as cl) (hcall : cl.call call = (cl', .ok (lane, id)))
    (hclear : call.Clear) (hlane : cl'.lane? lane = some c₀) (halive : c₀.dead = false)
    (h : (connection cfg).Run c₀ bs c) (hmax : cfg.maxFrameLen < 2 ^ 32)
    (hcounter : c.idCounter < 2 ^ 64) (srv : Service (SubscribeServed log) c id)
    (hreceived : c₀.decoder.buffer ++ (received bs).flatten <+: srv.written.flatten)
    (hstream : c.calls.get? id = some (.subscribe stream)) :
    Follows (call.covered log) stream.sink.accepted ∧
      (.finished ∈ stream.sink.promises → .closeStream id ∈ bs) := by
  have hmade := made_of_call hconn hrun hcall hlane
  have hdemand := srv.demand_eq hmade h hclear hmax hcounter
  obtain ⟨object, hs, hmakes, hrequest, hresponses, hclosed⟩ :=
    srv.exists_life hmade halive h hmax hreceived
  obtain ⟨covers, replies, hsubscribe, hkinds, hfollows⟩ := srv.served
  rw [hsubscribe] at hdemand
  rw [hkinds] at hresponses
  have hcovered : call.covered log = covers log := by rw [ClientCall.covered, hdemand]
  -- only a subscription asks for one
  have htype : call.type = subscribeChannel.type := by
    cases call with
    | subscribe => rfl
    | append | stats => cases hdemand
    | read q after limit | readBack q after limit =>
      simp only [ClientCall.demand?] at hdemand
      cases hlimit : toBigIntLimit limit <;> rw [hlimit] at hdemand <;> cases hdemand
  rw [htype] at hmakes hrequest hresponses
  obtain ⟨haccepted, hfinished⟩ := Channel.told hmakes hrequest hstream rfl
  rw [hcovered, haccepted]
  refine ⟨SubscribeServed.items hfollows hresponses, fun hmem => ?_⟩
  obtain ⟨-, x, hx, hclean⟩ := hfinished hmem
  rcases Happening.ending_eq_clean hclean with ⟨kind, -, hended⟩ | ⟨alive, rfl⟩
  · exact absurd hended Conn.endedBy_subscribe
  · exact hclosed alive ((Request.life_begins _ _).subset hx)

/-- **A resolved append was appended.**  An append is made to a server that decides it as the
request asks that it decodes.  If the call is resolved, its condition did not refuse the log that
the server had, and the log has grown by just the events of the call, at the positions of the
result. -/
theorem append_decided {events : List Event} {condition : Option AppendCondition} {signal : Signal}
    {log' : List SequencedEvent} {reply : Reply} {listening : Bool} (hconn : cl₀.Connected)
    (hrun : (client cfg).Run cl₀ as cl)
    (hcall : cl.call (.append events condition signal) = (cl', .ok (lane, id)))
    (hclear : (ClientCall.append events condition signal).Clear) (hlane : cl'.lane? lane = some c₀)
    (halive : c₀.dead = false) (h : (connection cfg).Run c₀ bs c) (hmax : cfg.maxFrameLen < 2 ^ 32)
    (hcounter : c.idCounter < 2 ^ 64) (srv : Service (AppendServed log log') c id)
    (hreceived : c₀.decoder.buffer ++ (received bs).flatten <+: srv.written.flatten)
    (hresolved : c.calls.get? id = some (.unary (.resolved reply) listening)) :
    ∃ first, reply = .append { first := first, last := first + events.length - 1 } ∧
      log' = log ++ placedAt first events ∧ ∀ cond, condition = some cond →
        cond.refusal.conflict log = false ∧ cond.refusal.alreadyExists log = false := by
  have hmade := made_of_call hconn hrun hcall hlane
  have hdemand := srv.demand_eq hmade h hclear hmax hcounter
  obtain ⟨object, hs, hmakes, hrequest, hresponses, -⟩ :=
    srv.exists_life hmade halive h hmax hreceived
  obtain ⟨kind, hkind, houtcome⟩ :=
    Inquiry.resolved (p := unaryInquiry .append) hmakes hrequest hresolved rfl
  obtain ⟨res, rfl, rfl⟩ := Conn.unaryOutcome_append houtcome
  have hmem := hresponses.subset hkind
  have hserved := srv.served
  rw [← Except.ok.inj hdemand] at hserved
  generalize answersTo id srv.responses = kinds at hserved hmem
  cases hserved with
  | @appended _ _ first holds =>
    cases List.mem_singleton.1 hmem
    refine ⟨first, rfl, rfl, ?_⟩
    rintro cond rfl
    exact holds
  | refused fires => cases List.mem_singleton.1 hmem

end Client

end

/-- A log of one event at each of some positions. -/
def logAt (positions : List ℤ) : List SequencedEvent :=
  positions.map fun position =>
    { position := position, event := { type := js "order", tags := [], payload := [] } }

namespace Client

section

open Conn (onePermit connectActions)

attribute [local instance] utf8Codec

/-- Whether a call on a new client makes request 2 on its connection, and a server has read it after
some steps. -/
def reaches (call : ClientCall) (request : WireRequest) (bs : List Action)
    (check : Conn onePermit → Bool) (c : Conn onePermit) : Bool :=
  c.calls.get? 1 = some (.hello (.resolved ())) ∧
    ((ofControl c).call call).2.toOption = some (.control, 2) ∧
    ((ofControl c).call call).1.control.dead = false ∧
    ((ofControl c).call call).1.control.decoder.buffer = [] ∧
    ((connection onePermit).exec ((ofControl c).call call).1.control bs).any fun c =>
      c.idCounter < 2 ^ 64 ∧ check c ∧
        ((FrameDecoder.new onePermit.maxFrameLen).feed [c.wire.bytes]).1.any fun body =>
          (decodeRequest body).toOption = some request

theorem exists_reached {call : ClientCall} {request : WireRequest} {bs : List Action}
    {check : Conn onePermit → Bool}
    (h : ((connection onePermit).exec (Conn.init onePermit) connectActions).any
      (reaches call request bs check) = true) :
    ∃ (cl cl' : Client onePermit) (c₀ c : Conn onePermit), cl.Connected ∧
      cl.call call = (cl', .ok (.control, 2)) ∧ cl'.lane? .control = some c₀ ∧ c₀.dead = false ∧
      c₀.decoder.buffer = [] ∧ (connection onePermit).Run c₀ bs c ∧ c.idCounter < 2 ^ 64 ∧
      check c = true ∧ ∃ body ∈ ((FrameDecoder.new onePermit.maxFrameLen).feed [c.wire.bytes]).1,
        decodeRequest body = .ok request := by
  obtain ⟨c, hrun, hq⟩ := Machine.exists_run_of_exec h
  obtain ⟨hhello, hcall, halive, hbuffer, hexec⟩ := of_decide_eq_true hq
  obtain ⟨c', hrun', hc'⟩ := Machine.exists_run_of_exec hexec
  obtain ⟨hcounter, hcheck, hbodies⟩ := of_decide_eq_true hc'
  obtain ⟨body, hbody, hdecode⟩ := List.any_eq_true.1 hbodies
  exact ⟨ofControl c, _, _, c', connected_ofControl hrun hhello,
    Prod.ext rfl (eq_ok_of_toOption hcall), rfl, halive, hbuffer, hrun', hcounter, hcheck, body,
    hbody, eq_ok_of_toOption (of_decide_eq_true hdecode)⟩

/-- Events of the log arrive as they are if their positions are unsigned 64-bit integers. -/
theorem eventsKind_wellFormed {positions : List ℤ} (h : ∀ p ∈ positions, IsU64 p) :
    (eventsKind (logAt positions)).WellFormed := by
  intro w hw
  obtain ⟨e, he, rfl⟩ := List.mem_map.1 hw
  obtain ⟨p, hp, rfl⟩ := List.mem_map.1 he
  refine ⟨h p hp, fun event hevent => ?_⟩
  cases hevent
  refine ⟨show Survives (js "order") by decide +kernel, fun tag htag => ?_⟩
  cases htag

/-- A read of everything. -/
def readEverything : ClientCall := .read Query.all none none .none

/-- Its request. -/
def everythingRequest : WireRequest where
  requestId := 2
  kind := .read { query := queryToWire Query.all, after := 0, limit := none, reverse := false }

/-- The server sends the events of its log in two batches, and then the end. -/
def readReplies : List WireResponse :=
  [{ requestId := 2, kind := eventsKind (logAt [1]) },
    { requestId := 2, kind := eventsKind (logAt [2]) },
    { requestId := 2, kind := .readEnd { watermark := 2 } }]

/-- Their frames. -/
def readFrames : List Bytes :=
  [[0, 0, 0, 17, 8, 2, 26, 13, 10, 11, 8, 1, 18, 7, 10, 5, 111, 114, 100, 101, 114],
    [0, 0, 0, 17, 8, 2, 26, 13, 10, 11, 8, 2, 18, 7, 10, 5, 111, 114, 100, 101, 114],
    [0, 0, 0, 6, 8, 2, 34, 2, 8, 2]]

/-- The consumer asks three times; the frames come in two chunks, the first of which ends inside the
second frame. -/
def consuming : List Action :=
  [.permit 2, .slot 2, .writer (.returned true), .next 2, .data (readFrames.flatten.take 30),
    .next 2, .data (readFrames.flatten.drop 30), .next 2]

/-- It is given the two events and the end. -/
theorem both_returned : ∃ (c : Conn onePermit) (stream : ReadStream),
    c.calls.get? 2 = some (.read stream) ∧ .finished ∈ stream.base.sink.promises ∧
      stream.base.sink.promises.filterMap NextResult.value? = logAt [1, 2] := by
  have hexec : ((connection onePermit).exec (Conn.init onePermit) connectActions).any
      (reaches readEverything everythingRequest consuming fun c => (c.calls.get? 2).any fun call =>
        (readChannel.sink? call).any fun s => decide (.finished ∈ s.promises)) = true := by
    decide +kernel
  obtain ⟨cl, cl', c₀, c, hconn, hcall, hlane, halive, hbuffer, hrun, hcounter, hcheck, hrequest⟩ :=
    exists_reached hexec
  obtain ⟨call, hget, hsink⟩ := (Option.any_eq_true _ _).1 hcheck
  obtain ⟨s, hs, hfinished⟩ := (Option.any_eq_true _ _).1 hsink
  have hfinished := of_decide_eq_true hfinished
  cases call with
  | read stream =>
    cases hs
    have hwritten : List.Forall₂ (fun response bytes =>
        writeFrame (encodeResponse response) onePermit.maxFrameLen = .ok bytes) readReplies
        readFrames :=
      .cons (by decide +kernel) (.cons (by decide +kernel) (.cons (by decide +kernel) .nil))
    have hclear : readEverything.Clear := by
      rintro kind ⟨⟩
      exact ⟨fun item hitem => (by cases hitem), by decide, fun limit hlimit => (by cases hlimit)⟩
    let srv : Service (ReadServed (logAt [1, 2])) c 2 :=
      { chunks := [c.wire.bytes]
        arrives := List.flatten_singleton
        request := everythingRequest
        decodes := hrequest
        requestId := rfl
        demand := _
        asks := rfl
        responses := readReplies
        written := readFrames
        wellFormed := by
          intro response hmem
          rcases List.mem_cons.1 hmem with rfl | hmem
          · exact ⟨by decide, eventsKind_wellFormed (by decide)⟩
          rcases List.mem_cons.1 hmem with rfl | hmem
          · exact ⟨by decide, eventsKind_wellFormed (by decide)⟩
          · rw [List.mem_singleton.1 hmem]
            exact ⟨by decide, show IsU64 2 by decide⟩
        writes := hwritten
        served := ⟨_, [logAt [1], logAt [2]], 2, rfl, by decide, by decide⟩ }
    have hreceived : c₀.decoder.buffer ++ (received consuming).flatten <+: srv.written.flatten := by
      rw [hbuffer]
      show (received consuming).flatten <+: readFrames.flatten
      decide
    obtain ⟨-, hall⟩ := read_returns hconn .start hcall hclear hlane halive hrun (by decide)
      hcounter srv hreceived hget
    refine ⟨c, stream, hget, hfinished, (hall hfinished fun hmem => ?_).trans (by decide)⟩
    simp [consuming] at hmem
  | unary deferred abortListener | hello deferred | subscribe stream => cases hs

/-- A subscription to everything. -/
def followEverything : ClientCall := .subscribe Query.all none .none

/-- Its request. -/
def followRequest : WireRequest where
  requestId := 2
  kind := .subscribe { query := queryToWire Query.all, after := 0 }

/-- The server sends an event, and that there is no other up to its position. -/
def followReplies : List WireResponse :=
  [{ requestId := 2, kind := eventsKind (logAt [1]) },
    { requestId := 2, kind := .caughtUp { watermark := 1 } }]

/-- Their frames. -/
def followFrames : List Bytes :=
  [[0, 0, 0, 17, 8, 2, 26, 13, 10, 11, 8, 1, 18, 7, 10, 5, 111, 114, 100, 101, 114],
    [0, 0, 0, 6, 8, 2, 50, 2, 8, 1]]

/-- The consumer asks once, before the frames come. -/
def following : List Action :=
  [.permit 2, .slot 2, .writer (.returned true), .next 2, .data followFrames.flatten]

/-- It has or can get the event and the marker, while the log has another event already. -/
theorem one_followed : ∃ (c : Conn onePermit) (stream : SubscribeStream),
    c.calls.get? 2 = some (.subscribe stream) ∧
      stream.sink.accepted = (logAt [1]).map .event ++ [.caughtUp 1] ∧
      Follows (followEverything.covered (logAt [1, 2])) stream.sink.accepted := by
  have hexec : ((connection onePermit).exec (Conn.init onePermit) connectActions).any
      (reaches followEverything followRequest following fun c => (c.calls.get? 2).any fun call =>
        (subscribeChannel.sink? call).any fun s =>
          s.accepted = (logAt [1]).map .event ++ [.caughtUp 1]) = true := by
    decide +kernel
  obtain ⟨cl, cl', c₀, c, hconn, hcall, hlane, halive, hbuffer, hrun, hcounter, hcheck, hrequest⟩ :=
    exists_reached hexec
  obtain ⟨call, hget, hsink⟩ := (Option.any_eq_true _ _).1 hcheck
  obtain ⟨s, hs, haccepted⟩ := (Option.any_eq_true _ _).1 hsink
  cases call with
  | subscribe stream =>
    cases hs
    have hclear : followEverything.Clear := by
      rintro kind ⟨⟩
      exact ⟨fun item hitem => (by cases hitem), by decide⟩
    have hfollows : Follows (followEverything.covered (logAt [1, 2]))
        ((logAt [1]).map .event ++ [.caughtUp 1]) := by
      refine ⟨by decide, fun before watermark after heq => ?_⟩
      rcases before with _ | ⟨item, _ | ⟨item', before⟩⟩
      · cases heq
      · cases heq
        decide
      · cases (List.append_eq_nil_iff.1 (List.cons.inj (List.cons.inj heq).2).2.symm).2
    let srv : Service (SubscribeServed (logAt [1, 2])) c 2 :=
      { chunks := [c.wire.bytes]
        arrives := List.flatten_singleton
        request := followRequest
        decodes := hrequest
        requestId := rfl
        demand := _
        asks := rfl
        responses := followReplies
        written := followFrames
        wellFormed := by
          intro response hmem
          rcases List.mem_cons.1 hmem with rfl | hmem
          · exact ⟨by decide, eventsKind_wellFormed (by decide)⟩
          · rw [List.mem_singleton.1 hmem]
            exact ⟨by decide, show IsU64 1 by decide⟩
        writes := .cons (by decide +kernel) (.cons (by decide +kernel) .nil)
        served := ⟨_, [.events (logAt [1]), .caughtUp 1], rfl, by decide, hfollows⟩ }
    have hreceived : c₀.decoder.buffer ++ (received following).flatten <+: srv.written.flatten := by
      rw [hbuffer]
      show (received following).flatten <+: followFrames.flatten
      decide
    obtain ⟨hfollowed, -⟩ := subscription_follows hconn .start hcall hclear hlane halive hrun
      (by decide) hcounter srv hreceived hget
    exact ⟨c, stream, hget, of_decide_eq_true haccepted, hfollowed⟩
  | unary deferred abortListener | hello deferred | read stream => cases hs

/-- An event to append. -/
def thirdEvent : Event := { type := js "order", tags := [], payload := [] }

/-- No event may be after position 2. -/
def afterTwo : AppendCondition := .create Query.all 2 none

/-- An append behind two events. -/
def appendThird : ClientCall := .append [thirdEvent] (some afterTwo) .none

/-- Its request. -/
def thirdRequest : WireRequest where
  requestId := 2
  kind := .append
    { events := [eventToWire thirdEvent], condition := some (conditionToWire afterTwo) }

/-- It is resolved by the one frame that comes. -/
def appending : List Action :=
  [.permit 2, .slot 2, .writer (.returned true), .data [0, 0, 0, 8, 8, 2, 18, 4, 8, 3, 16, 3]]

/-- On a log of two events it is resolved when its event is the third. -/
theorem third_appended : ∃ (c : Conn onePermit) (first : ℤ),
    c.calls.get? 2 = some (.unary (.resolved (.append { first := 3, last := 3 })) false) ∧
      logAt [1, 2, 3] = logAt [1, 2] ++ placedAt first [thirdEvent] := by
  have hexec : ((connection onePermit).exec (Conn.init onePermit) connectActions).any
      (reaches appendThird thirdRequest appending fun c =>
        c.calls.get? 2 =
          some (.unary (.resolved (.append { first := 3, last := 3 })) false)) = true := by
    decide +kernel
  obtain ⟨cl, cl', c₀, c, hconn, hcall, hlane, halive, hbuffer, hrun, hcounter, hcheck, hrequest⟩ :=
    exists_reached hexec
  have hget := of_decide_eq_true hcheck
  have hclear : appendThird.Clear := by
    rintro kind ⟨⟩
    refine ⟨fun w hw => ?_, fun cond hcond => ?_⟩
    · rw [List.mem_singleton.1 hw]
      exact ⟨by decide +kernel, fun tag htag => by cases htag⟩
    · cases hcond
      exact ⟨fun item hitem => (by cases hitem), by decide, fun q hq => by cases hq⟩
  let srv : Service (AppendServed (logAt [1, 2]) (logAt [1, 2, 3])) c 2 :=
    { chunks := [c.wire.bytes]
      arrives := List.flatten_singleton
      request := thirdRequest
      decodes := hrequest
      requestId := rfl
      demand := _
      asks := rfl
      responses := [{ requestId := 2, kind := .append { first := 3, last := 3 } }]
      written := [[0, 0, 0, 8, 8, 2, 18, 4, 8, 3, 16, 3]]
      wellFormed := by
        intro response hmem
        rw [List.mem_singleton.1 hmem]
        exact ⟨by decide, by decide, by decide⟩
      writes := .cons (by decide +kernel) .nil
      served := @AppendServed.appended _ [thirdEvent] (conditionToWire afterTwo).refusal 3
        ⟨by decide, by decide⟩ }
  have hreceived : c₀.decoder.buffer ++ (received appending).flatten <+: srv.written.flatten := by
    rw [hbuffer]
    exact List.prefix_rfl
  obtain ⟨first, -, hlog, -⟩ := append_decided hconn .start hcall hclear hlane halive hrun
    (by decide) hcounter srv hreceived hget
  exact ⟨c, first, hget, hlog⟩

end

end Client

end Tephra
