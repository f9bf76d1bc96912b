import Tephra.Conn.Call
import Tephra.Framing
import Tephra.Lib.OrdMap
import Tephra.Proto.RoundTrip

/-!
# The state of a connection

`Conn` has the fields of the class of that name in `connection.ts`.  A deferred or a stream is an
object shared with the caller, so these live in a map `calls` of their own, under the id of their
request, and a pending entry refers to its object by that id.

Besides the class, the state has what is on its way between two awaits: `failedSends` are the
requests whose `enqueue` has rejected and whose `catch` block has not run yet, `drain` is the
promise the writer waits on after a full write.  `log` records what the connection does, for
properties that speak about the past; nothing reads it.
-/

namespace Tephra

open Lib

/-- `ResolvedConfig`, as far as a connection reads it. -/
structure Config where
  maxInflightRequests : ℕ
  requestQueueDepth : ℕ
  maxFrameLen : ℕ
  authToken : Option JsString
  deriving DecidableEq, Repr

/-- An encoded request frame. -/
structure Frame [TextCodec] (cfg : Config) where
  /-- What is encoded. -/
  request : WireRequest
  /-- The bytes for the socket. -/
  bytes : Bytes
  /-- The bytes are those of the request. -/
  encoded : writeFrame (encodeRequest request) cfg.maxFrameLen = .ok bytes

/-- `writeFrame(encodeRequest(request), maxFrameLen)`. -/
def makeFrame [TextCodec] (cfg : Config) (request : WireRequest) : Except Err (Frame cfg) :=
  match h : writeFrame (encodeRequest request) cfg.maxFrameLen with
  | .ok bytes => .ok { request := request, bytes := bytes, encoded := h }
  | .error e => .error e

/-! ### Requests -/

/-- `Pending`, without the object it refers to. -/
structure Pending where
  type : PendingType
  permit : Bool
  deriving DecidableEq, Repr

/-- Which of the three send functions runs. -/
inductive SenderType
  | unary | stream | hello
  deriving DecidableEq, Repr

/-- The check of a `catch` block that the entry is of its own kind. -/
def SenderType.handles : SenderType → PendingType → Bool
  | unary, .unary _ => true
  | stream, .read => true
  | stream, .subscribe => true
  | hello, .hello => true
  | _, _ => false

/-- The fallback text of a `catch` block. -/
def SenderType.fallback : SenderType → String
  | hello => "failed to send hello"
  | _ => "failed to send request"

/-- What a send function encodes. -/
structure Outgoing where
  /-- The request, or what encoding it throws when the caller's arguments are ill-typed. -/
  kind : Except Err RequestKind
  /-- Cancels are not sent this way. -/
  kind_ne_cancel : ∀ req, kind ≠ .ok (.cancel req)

namespace Outgoing

/-- The arguments of an append. -/
def append (req : Except Err WireAppendRequest) : Outgoing where
  kind := req.map .append
  kind_ne_cancel _ h := by cases req <;> cases h

/-- A stats request. -/
def stats : Outgoing where
  kind := .ok .stats
  kind_ne_cancel _ h := nomatch h

/-- The arguments of a read. -/
def read (req : Except Err WireReadRequest) : Outgoing where
  kind := req.map .read
  kind_ne_cancel _ h := by cases req <;> cases h

/-- The arguments of a subscription. -/
def subscribe (req : Except Err WireSubscribeRequest) : Outgoing where
  kind := req.map .subscribe
  kind_ne_cancel _ h := by cases req <;> cases h

/-- The opening hello. -/
def hello (token : Option JsString) : Outgoing where
  kind := .ok (.hello { protocolVersion := protocolVersion, authToken := token })
  kind_ne_cancel _ h := nomatch h

end Outgoing

/-- A running send function. -/
structure Sender where
  id : ℤ
  type : SenderType
  outgoing : Outgoing

/-! ### The connection -/

/-- What the writer waits on after a write that filled the socket's buffer. -/
inductive Drain
  /-- The writer is elsewhere. -/
  | idle
  /-- Its listeners are installed. -/
  | listening
  /-- `drain` came. -/
  | resumed
  /-- `close` or `error` came, with the error the promise was rejected with. -/
  | rejected (reason : Err)
  deriving DecidableEq, Repr

section

variable [TextCodec]

/-- What a connection does. -/
inductive Effect (cfg : Config)
  /-- An id is taken, for a request or a cancel. -/
  | issue (id : ℤ)
  /-- The object of a request is settled. -/
  | settle (id : ℤ)
  /-- The connection dies with these requests pending. -/
  | die (cause : Err) (ids : List ℤ)
  /-- A call is rejected at once, on a dead connection. -/
  | refuse (reason : Err)
  /-- `outbound.push(frame)`. -/
  | outbound (frame : Frame cfg)
  /-- `priority.push(frame)`. -/
  | priority (frame : Frame cfg)
  /-- `socket.write(bytes)`, for the frames of a batch, whether or not the call throws. -/
  | write (batch : List (Frame cfg)) (bytes : Bytes)

/-- `Conn`. -/
structure Conn (cfg : Config) where
  pending : OrdMap ℤ Pending
  inflight : Semaphore Sender
  queueSlots : Semaphore (Sender × Frame cfg)
  decoder : FrameDecoder
  writerGate : Gate
  outbound : List (Frame cfg)
  priority : List (Frame cfg)
  idCounter : ℤ
  dead : Bool
  deathCause : Option Err
  /-- The objects of all requests ever started. -/
  calls : OrdMap ℤ Call
  /-- Rejected enqueues whose `catch` block has not run. -/
  failedSends : List (Sender × Err)
  /-- The writer's wait for `drain`. -/
  drain : Drain
  /-- Whether the socket delivers no more data. -/
  destroyed : Bool
  /-- What happened so far. -/
  log : List (Effect cfg)

namespace Conn

variable {cfg : Config}

/-- The constructor, with the writer loop run up to its first `await`. -/
def new (cfg : Config) : Conn cfg where
  pending := .empty
  inflight := .new cfg.maxInflightRequests
  queueSlots := .new cfg.requestQueueDepth
  decoder := .new cfg.maxFrameLen
  writerGate := Gate.new.wait
  outbound := []
  priority := []
  idCounter := 0
  dead := false
  deathCause := none
  calls := .empty
  failedSends := []
  drain := .idle
  destroyed := false
  log := []

/-- Append to the log. -/
def record (c : Conn cfg) (effect : Effect cfg) : Conn cfg := { c with log := c.log ++ [effect] }

/-- Change the object of a request. -/
def update (c : Conn cfg) (id : ℤ) (f : Call → Call) : Conn cfg :=
  { c with calls := c.calls.modify id f }

/-- Settle the object of a request. -/
def settle (c : Conn cfg) (id : ℤ) (f : Call → Call) : Conn cfg :=
  (c.update id f).record (.settle id)

end Conn

end

end Tephra
