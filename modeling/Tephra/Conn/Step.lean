import Tephra.Conn.State
import Tephra.Lib.Machine
import Tephra.Utf8

/-!
# What a connection does

The methods of `Conn` in `connection.ts`, and the steps they make up.  A step is the code that runs
between two awaits: a call from outside, an event of the socket, or a continuation that may run on.
A method that may throw gives the state it leaves behind and what it throws.

`Action` names the steps, `Conn.step` is the partial function they define, and `connection cfg` is
the event machine.  Which action comes next is free, so a run is any interleaving.
-/

namespace Tephra

open Lib

section

variable [TextCodec]

namespace Conn

variable {cfg : Config}

/-! ### Bookkeeping -/

/-- `nextId`: the new counter is the id. -/
def nextId (c : Conn cfg) : Conn cfg :=
  { c with idCounter := c.idCounter + 1 }.record (.issue (c.idCounter + 1))

/-- Take an id, and add a pending entry and an object under it. -/
def register (c : Conn cfg) (type : PendingType) (call : Call) : Conn cfg :=
  let c := c.nextId
  { c with
    pending := c.pending.set c.idCounter { type := type, permit := false }
    calls := c.calls.set c.idCounter call }

/-- `finalize`. -/
def finalize (c : Conn cfg) (id : ℤ) : Conn cfg :=
  match c.pending.get? id with
  | none => c
  | some entry =>
    let c := { c with pending := c.pending.delete id }
    if entry.permit then { c with inflight := c.inflight.release } else c

/-- `deadError`. -/
def deadError (c : Conn cfg) : Err := c.deathCause.getD (.conn "connection closed")

/-- `failConnection`. -/
def failConnection (c : Conn cfg) (err : Err) : Conn cfg :=
  if c.dead then c
  else
    let ids := c.pending.keys
    let c :=
      { c with dead := true, deathCause := some err, pending := .empty }.record (.die err ids)
    let c := ids.foldl (fun c id => c.settle id (Call.reject err)) c
    { c with writerGate := c.writerGate.signal, queueSlots := c.queueSlots.drainWaiters }

/-! ### Cancelling -/

/-- `sendCancel`. -/
def sendCancel (c : Conn cfg) (target : ℤ) : Conn cfg × Option Err :=
  if c.dead then (c, none)
  else
    let c := c.nextId
    match makeFrame cfg { requestId := c.idCounter, kind := .cancel { target := target } } with
    | .error e => (c, some e)
    | .ok frame =>
      ({ c with
          priority := c.priority ++ [frame]
          writerGate := c.writerGate.signal }.record (.priority frame), none)

/-- `sendCancel(id)`, then `finalize(id)`. -/
def cancel (c : Conn cfg) (id : ℤ) : Conn cfg × Option Err :=
  match c.sendCancel id with
  | (c, some e) => (c, some e)
  | (c, none) => (c.finalize id, none)

/-- `cancelStream`. -/
def cancelStream (c : Conn cfg) (id : ℤ) : Conn cfg × Option Err :=
  if !c.pending.has id then (c, none) else c.cancel id

/-- `cancelUnary`. -/
def cancelUnary (c : Conn cfg) (id : ℤ) (err : Err) : Conn cfg × Option Err :=
  match c.pending.get? id with
  | none => (c, none)
  | some entry =>
    match c.cancel id with
    | (c, some e) => (c, some e)
    | (c, none) =>
      match entry.type with
      | .unary _ => (c.settle id (Call.reject err), none)
      | _ => (c, none)

/-- `abortStream`. -/
def abortStream (c : Conn cfg) (id : ℤ) (err : Err) : Conn cfg × Option Err :=
  match if c.pending.has id then c.cancel id else (c, none) with
  | (c, some e) => (c, some e)
  | (c, none) => (c.settle id (Call.reject err), none)

/-- `BaseStream.close` and `BaseStream.onAbort`, up to how the sink ends: nothing happens to a
stream that is closed, and a cancel that throws leaves the sink open. -/
def endStream (c : Conn cfg) (id : ℤ) (ending : ∀ {α : Type}, Sink α → Sink α) : Conn cfg :=
  match c.calls.get? id with
  | none => c
  | some call =>
    if call.closed then c
    else
      match (c.update id (Call.mapBase BaseStream.markClosed)).cancelStream id with
      | (c, some _) => c
      | (c, none) => c.settle id (Call.mapBase fun b => { b with sink := ending b.sink })

/-- `close()` of a stream. -/
def closeStream (c : Conn cfg) (id : ℤ) : Conn cfg := c.endStream id Sink.finish

/-- `onAbort` of a stream. -/
def onAbort (c : Conn cfg) (id : ℤ) (reason : Reason) : Conn cfg :=
  c.endStream id (Sink.fail · (asError reason "the operation was aborted"))

/-! ### Sending -/

/-- `inflight.acquire()`, of a send function. -/
def acquire (c : Conn cfg) (s : Sender) : Conn cfg := { c with inflight := c.inflight.acquire s }

/-- `inflight.release()`. -/
def release (c : Conn cfg) : Conn cfg := { c with inflight := c.inflight.release }

/-- `sendUnaryRequest`, up to its first `await`. -/
def sendUnaryRequest (c : Conn cfg) (id : ℤ) (kind : Outgoing) : Conn cfg :=
  c.acquire { id := id, type := .unary, outgoing := kind }

/-- `sendStreamRequest`, up to its first `await`. -/
def sendStreamRequest (c : Conn cfg) (id : ℤ) (kind : Outgoing) : Conn cfg :=
  c.acquire { id := id, type := .stream, outgoing := kind }

/-- `sendHelloRequest`, up to its first `await`. -/
def sendHelloRequest (c : Conn cfg) (id : ℤ) (token : Option JsString) : Conn cfg :=
  c.acquire { id := id, type := .hello, outgoing := .hello token }

/-- The `catch` block of the send functions, once `heldPermit` is dealt with. -/
def sendFailed (c : Conn cfg) (s : Sender) (err : Err) : Conn cfg :=
  match c.pending.get? s.id with
  | none => c
  | some entry =>
    let c := c.finalize s.id
    if s.type.handles entry.type then
      c.settle s.id (Call.reject (asError (.error err) s.type.fallback))
    else c

/-- `enqueue`, up to its `await`. -/
def enqueue (c : Conn cfg) (s : Sender) (frame : Frame cfg) : Conn cfg :=
  { c with queueSlots := c.queueSlots.acquire (s, frame) }

/-- A send function after `await this.inflight.acquire()`. -/
def permitGranted (c : Conn cfg) (s : Sender) : Conn cfg :=
  match c.pending.get? s.id with
  | none => c.release
  | some _ =>
    if c.dead then c.release.sendFailed s c.deadError
    else
      let c := { c with
        pending := c.pending.modify s.id fun entry => { entry with permit := true } }
      match s.outgoing.kind >>= fun kind => makeFrame cfg { requestId := s.id, kind := kind } with
      | .error e => c.sendFailed s e
      | .ok frame => c.enqueue s frame

/-- `enqueue` after `await this.queueSlots.acquire()`.  When it rejects, the `catch` block of the
send function runs in a later step. -/
def slotGranted (c : Conn cfg) (s : Sender) (frame : Frame cfg) : Conn cfg :=
  if c.dead then
    { c with
      queueSlots := c.queueSlots.release
      failedSends := c.failedSends ++ [(s, c.deadError)] }
  else
    { c with
      outbound := c.outbound ++ [frame]
      writerGate := c.writerGate.signal }.record (.outbound frame)

/-! ### Operations -/

/-- `unary`.  With a signal that has aborted already the request is cancelled before it is sent; if
that throws, so does the call. -/
def unary (c : Conn cfg) (kind : Outgoing) (expect : Expect) (signal : Signal) : Conn cfg :=
  if c.dead then c.record (.refuse c.deadError)
  else
    let c := c.register (.unary expect) (.unary .pending (signal = .live))
    let id := c.idCounter
    match signal with
    | .aborted reason =>
      match c.cancelUnary id (asError reason "the operation was aborted") with
      | (c, some _) => c
      | (c, none) => c.sendUnaryRequest id kind
    | _ => c.sendUnaryRequest id kind

/-- `append`. -/
def append (c : Conn cfg) (req : Except Err WireAppendRequest) (signal : Signal) : Conn cfg :=
  c.unary (.append req) .append signal

/-- `stats`. -/
def stats (c : Conn cfg) (signal : Signal) : Conn cfg := c.unary .stats .stats signal

/-- `read`. -/
def read (c : Conn cfg) (req : Except Err WireReadRequest) (signal : Signal) : Conn cfg :=
  let c := c.register .read (.read (ReadStream.new signal))
  c.sendStreamRequest c.idCounter (.read req)

/-- `subscribe`. -/
def subscribe (c : Conn cfg) (req : Except Err WireSubscribeRequest) (signal : Signal) :
    Conn cfg :=
  let c := c.register .subscribe (.subscribe (BaseStream.new signal))
  c.sendStreamRequest c.idCounter (.subscribe req)

/-- `hello`. -/
def hello (c : Conn cfg) (token : Option JsString) : Conn cfg :=
  let c := c.register .hello (.hello .pending)
  c.sendHelloRequest c.idCounter token

/-- `close`. -/
def close (c : Conn cfg) : Conn cfg :=
  { c.failConnection (.conn "connection closed") with destroyed := true }

/-! ### Writer loop -/

/-- How `socket.write` ends. -/
inductive WriteOutcome
  /-- It returns whether there is room for more. -/
  | returned (ok : Bool)
  | threw (reason : Reason)
  deriving DecidableEq, Repr

/-- `concatFrames`. -/
def concatFrames (frames : List (Frame cfg)) : Bytes :=
  match frames with
  | [frame] => frame.bytes
  | frames => frames.foldl (fun out frame => out ++ frame.bytes) []

/-- `await this.writerGate.wait()`. -/
def waitGate (c : Conn cfg) : Conn cfg := { c with writerGate := c.writerGate.wait }

/-- `runWriter` from a turn of its loop to its next `await`.  After a write that leaves room the
loop turns again at once and, with both queues empty, waits at the gate. -/
def runWriter (c : Conn cfg) (outcome : WriteOutcome) : Conn cfg :=
  if c.dead then c
  else if c.priority.length = 0 ∧ c.outbound.length = 0 then c.waitGate
  else
    let batch := c.priority ++ c.outbound
    let released := c.outbound.length
    let c := { c with priority := [], outbound := [] }.record (.write batch (concatFrames batch))
    match outcome with
    | .threw reason =>
      c.failConnection (.connCause "write failed" (asError reason "write failed"))
    | .returned ok =>
      let c := { c with queueSlots := c.queueSlots.releaseN released }
      if ok then c.waitGate else { c with drain := .listening }

/-- `onError` of `waitDrain`, when `close` or `error` comes. -/
def rejectDrain (c : Conn cfg) : Conn cfg :=
  match c.drain with
  | .listening => { c with drain := .rejected c.deadError }
  | _ => c

/-! ### Reader loop -/

/-- How a hello ends when `kind` answers it. -/
def helloOutcome (kind : ResponseKind) : Except Err Unit :=
  match kind with
  | .helloAck ack =>
    if ack.protocolVersion ≠ protocolVersion then
      .error (.protocol
        s!"server protocol version {ack.protocolVersion} does not match client {protocolVersion}")
    else .ok ()
  | .error error => .error (serverErrorFromWire error)
  | kind => .error (.protocol s!"unexpected {kind.name} response to hello")

/-- How a unary request ends when `kind` answers it. -/
def unaryOutcome (expect : Expect) (kind : ResponseKind) : Except Err Reply :=
  match kind, expect with
  | .error error, _ => .error (serverErrorFromWire error)
  | .append res, .append => .ok (.append res)
  | .stats res, .stats => .ok (.stats res)
  | kind, expect =>
    .error (.protocol s!"unexpected {kind.name} response for a {expect.name} request")

/-- `routeRead`. -/
def routeRead (c : Conn cfg) (id : ℤ) (kind : ResponseKind) : Conn cfg × Option Err :=
  match kind with
  | .readEvents res =>
    match res.events.mapM sequencedFromWire with
    | .error e => c.abortStream id (asError (.error e) "protocol error")
    | .ok mapped =>
      (c.update id fun call => mapped.foldl (fun call e => call.deliverRead e) call, none)
  | .readEnd res => ((c.finalize id).settle id (Call.endWith res.watermark), none)
  | .error error => ((c.finalize id).settle id (Call.reject (serverErrorFromWire error)), none)
  | kind => c.abortStream id (.protocol s!"unexpected {kind.name} response for a read")

/-- `routeSubscribe`. -/
def routeSubscribe (c : Conn cfg) (id : ℤ) (kind : ResponseKind) : Conn cfg × Option Err :=
  match kind with
  | .readEvents res =>
    match res.events.mapM sequencedFromWire with
    | .error e => c.abortStream id (asError (.error e) "protocol error")
    | .ok mapped =>
      (c.update id fun call => mapped.foldl (fun call e => call.deliverSubscribe (.event e)) call,
      none)
  | .caughtUp res => (c.update id (Call.deliverSubscribe (.caughtUp res.watermark)), none)
  | .error error => ((c.finalize id).settle id (Call.reject (serverErrorFromWire error)), none)
  | kind => c.abortStream id (.protocol s!"unexpected {kind.name} response for a subscription")

/-- `route`, for a decoded response. -/
def routeResponse (c : Conn cfg) (response : WireResponse) : Conn cfg × Option Err :=
  let id := response.requestId
  let kind := response.kind
  if id = 0 then
    match kind with
    | .error error =>
      (c.failConnection (.connCause "unattributed server error" (serverErrorFromWire error)), none)
    | _ => (c, none)
  else
    match c.pending.get? id with
    | none => (c, none)
    | some entry =>
      match entry.type with
      | .hello => ((c.finalize id).settle id (Call.settleHello (helloOutcome kind)), none)
      | .unary expect =>
        ((c.finalize id).settle id (Call.settleUnary (unaryOutcome expect kind)), none)
      | .read => c.routeRead id kind
      | .subscribe => c.routeSubscribe id kind

/-- `route`. -/
def route (c : Conn cfg) (body : Bytes) : Conn cfg × Option Err :=
  match decodeResponse body with
  | .error e => (c, some e)
  | .ok response => c.routeResponse response

/-- The loop of `onData` over the frames of a chunk. -/
def routeAll (c : Conn cfg) : List Bytes → Conn cfg
  | [] => c
  | body :: bodies =>
    match c.route body with
    | (c, some e) =>
      c.failConnection (.connCause "protocol error" (asError (.error e) "protocol error"))
    | (c, none) => c.routeAll bodies

/-- `onData`. -/
def onData (c : Conn cfg) (chunk : Bytes) : Conn cfg :=
  match c.decoder.push chunk with
  | (decoder, .error e) =>
    { c with decoder := decoder }.failConnection
      (.connCause "framing error" (asError (.error e) "framing error"))
  | (decoder, .ok frames) => { c with decoder := decoder }.routeAll frames

end Conn

/-! ### Steps -/

/-- The steps of a connection. -/
inductive Action
  -- calls
  | append (req : Except Err WireAppendRequest) (signal : Signal)
  | stats (signal : Signal)
  | read (req : Except Err WireReadRequest) (signal : Signal)
  | subscribe (req : Except Err WireSubscribeRequest) (signal : Signal)
  | close
  | closeStream (id : ℤ)
  | next (id : ℤ)
  | collect (id : ℤ)
  | abort (id : ℤ) (reason : Reason)
  -- the socket
  | data (chunk : Bytes)
  | socketError (err : Err)
  | socketClose
  | drained
  -- continuations
  | permit (id : ℤ)
  | slot (id : ℤ)
  | sendFailed (id : ℤ)
  | writer (outcome : Conn.WriteOutcome)
  | drainResumed (outcome : Conn.WriteOutcome)
  | drainRejected
  | abortMicrotask (id : ℤ)
  | collectStep (id : ℤ)

/-- Whether a step is a continuation that was waiting to run. -/
def Action.isContinuation : Action → Bool
  | .permit _ | .slot _ | .sendFailed _ | .writer _ | .drainResumed _ | .drainRejected
  | .abortMicrotask _ | .collectStep _ => true
  | _ => false

/-- The chunk that an action delivers. -/
def Action.chunk? : Action → Option Bytes
  | .data chunk => some chunk
  | _ => none

namespace Conn

variable {cfg : Config}

/-- A step, if it can be taken. -/
def step (c : Conn cfg) : Action → Option (Conn cfg)
  | .append req signal => some (c.append req signal)
  | .stats signal => some (c.stats signal)
  | .read req signal => some (c.read req signal)
  | .subscribe req signal => some (c.subscribe req signal)
  | .close => some c.close
  | .closeStream id =>
    match c.calls.get? id with
    | some call => if call.isStream then some (c.closeStream id) else none
    | none => none
  | .next id =>
    match c.calls.get? id with
    | some call => if call.isStream then some (c.update id (Call.mapBase BaseStream.next)) else none
    | none => none
  | .collect id =>
    match c.calls.get? id with
    | some (.read stream) =>
      if stream.collector.isNone then some (c.update id fun _ => .read stream.collect) else none
    | _ => none
  | .abort id reason =>
    match c.calls.get? id with
    | some call =>
      if call.listening then
        let c := c.update id Call.takeListener
        if call.isStream then some (c.onAbort id reason)
        else some (c.cancelUnary id (asError reason "the operation was aborted")).1
      else none
    | none => none
  | .data chunk => if c.destroyed then none else some (c.onData chunk)
  | .socketError err => some (c.failConnection (.connCause "connection error" err)).rejectDrain
  | .socketClose =>
    some { (c.failConnection (.conn "connection closed")).rejectDrain with destroyed := true }
  | .drained =>
    match c.drain with
    | .listening => some { c with drain := .resumed }
    | _ => none
  | .permit id =>
    (c.inflight.resume fun s => s.id = id).map fun r =>
      { c with inflight := r.2 }.permitGranted r.1
  | .slot id =>
    (c.queueSlots.resume fun s => s.1.id = id).map fun r =>
      { c with queueSlots := r.2 }.slotGranted r.1.1 r.1.2
  | .sendFailed id =>
    (c.failedSends.find? fun s => s.1.id = id).map fun s =>
      { c with failedSends := c.failedSends.eraseP fun s => s.1.id = id }.sendFailed s.1 s.2
  | .writer outcome =>
    if c.writerGate.resumed then
      some ({ c with writerGate := { c.writerGate with resumed := false } }.runWriter outcome)
    else none
  | .drainResumed outcome =>
    match c.drain with
    | .resumed => some ({ c with drain := .idle }.runWriter outcome)
    | _ => none
  | .drainRejected =>
    match c.drain with
    | .rejected reason =>
      some ({ c with drain := .idle }.failConnection
        (.connCause "write failed" (asError (.error reason) "write failed")))
    | _ => none
  | .abortMicrotask id =>
    match c.calls.get? id with
    | some call =>
      match call.abortMicrotask with
      | some reason =>
        some ((c.update id (Call.mapBase BaseStream.takeMicrotask)).onAbort id reason)
      | none => none
    | none => none
  | .collectStep id =>
    match c.calls.get? id with
    | some (.read stream) => stream.collectStep.map fun stream => c.update id fun _ => .read stream
    | _ => none

/-- The state `connect` starts from: the constructor, and the opening hello. -/
def init (cfg : Config) : Conn cfg := (Conn.new cfg).hello cfg.authToken

/-- No continuation can run. -/
def Quiescent (c : Conn cfg) : Prop := ∀ a : Action, a.isContinuation = true → c.step a = none

end Conn

/-- A connection as an event machine. -/
def connection (cfg : Config) : Machine (Conn cfg) Action where
  step := Conn.step

end

/-! ### Connecting -/

namespace Conn

section

attribute [local instance] utf8Codec

/-- A connection with a single permit. -/
def onePermit : Config :=
  { maxInflightRequests := 1, requestQueueDepth := 1, maxFrameLen := 1000, authToken := none }

/-- The frame with which the server accepts the hello. -/
def helloAckFrame : Bytes := [0, 0, 0, 6, 8, 1, 66, 2, 8, 1]

/-- The hello is sent and accepted. -/
def connectActions : List Action :=
  [.permit 1, .slot 1, .writer (.returned true), .data helloAckFrame]

/-- A read of everything, with no signal. -/
def readAll : Action :=
  .read (.ok { query := { all := true, items := [] }, after := 0, limit := none, reverse := false })
    .none

example : ((connection onePermit).exec (init onePermit) connectActions).any (fun c =>
    c.calls.get? 1 = some (.hello (.resolved ())) ∧ c.inflight.permits = 1) = true := by
  decide +kernel

end

end Conn

end Tephra
