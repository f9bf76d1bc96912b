import Tephra.Proto.Fields

/-!
# The messages

The wire structs of `messages.ts` with their encoders and decoders, in the order of the source.  A
decoder is the table of its `switch`: for each field number, how the field is read and what it does
to the message so far.
-/

namespace Tephra

/-- `PROTOCOL_VERSION`. -/
def protocolVersion : ℤ := 1

/-! ### Wire structs -/

/-- `WireEvent`. -/
structure WireEvent where
  type : JsString
  tags : List JsString
  payload : Bytes
  deriving DecidableEq, Repr

/-- `WireQueryItem`. -/
structure WireQueryItem where
  types : List JsString
  tags : List JsString
  deriving DecidableEq, Repr

/-- `WireQuery`. -/
structure WireQuery where
  all : Bool
  items : List WireQueryItem
  deriving DecidableEq, Repr

/-- `WireAppendCondition`. -/
structure WireAppendCondition where
  failIfEventsMatch : WireQuery
  after : ℤ
  failIfExists : Option WireQuery
  deriving DecidableEq, Repr

/-- `WireAppendRequest`. -/
structure WireAppendRequest where
  events : List WireEvent
  condition : Option WireAppendCondition
  deriving DecidableEq, Repr

/-- `WireReadRequest`. -/
structure WireReadRequest where
  query : WireQuery
  after : ℤ
  limit : Option ℤ
  reverse : Bool
  deriving DecidableEq, Repr

/-- `WireSubscribeRequest`. -/
structure WireSubscribeRequest where
  query : WireQuery
  after : ℤ
  deriving DecidableEq, Repr

/-- `WireCancelRequest`. -/
structure WireCancelRequest where
  target : ℤ
  deriving DecidableEq, Repr

/-- `WireHello`. -/
structure WireHello where
  protocolVersion : ℤ
  authToken : Option JsString
  deriving DecidableEq, Repr

/-- `RequestKind`. -/
inductive RequestKind
  | append (append : WireAppendRequest)
  | read (read : WireReadRequest)
  | subscribe (subscribe : WireSubscribeRequest)
  | cancel (cancel : WireCancelRequest)
  | stats
  | hello (hello : WireHello)
  | none
  deriving DecidableEq, Repr

/-- `WireRequest`. -/
structure WireRequest where
  requestId : ℤ
  kind : RequestKind
  deriving DecidableEq, Repr

/-- `WireAppendResponse`. -/
structure WireAppendResponse where
  first : ℤ
  last : ℤ
  deriving DecidableEq, Repr

/-- `WireSequencedEvent`. -/
structure WireSequencedEvent where
  position : ℤ
  event : Option WireEvent
  deriving DecidableEq, Repr

/-- `WireReadEvents`. -/
structure WireReadEvents where
  events : List WireSequencedEvent
  deriving DecidableEq, Repr

/-- `WireReadEnd`. -/
structure WireReadEnd where
  watermark : ℤ
  deriving DecidableEq, Repr

/-- `WireSubscribeCaughtUp`. -/
structure WireSubscribeCaughtUp where
  watermark : ℤ
  deriving DecidableEq, Repr

/-- `WireStatsResponse`. -/
structure WireStatsResponse where
  eventCount : ℤ
  segmentCount : ℤ
  diskBytes : ℤ
  uptimeSeconds : ℤ
  activeConnections : ℤ
  activeSubscriptions : ℤ
  version : JsString
  connectionsRefused : ℤ
  maxConnections : ℤ
  connectionsReaped : ℤ
  deriving DecidableEq, Repr

/-- `WireErrorResponse`. -/
structure WireErrorResponse where
  code : ℤ
  message : JsString
  conflictPosition : Option ℤ
  retryable : Bool
  deriving DecidableEq, Repr

/-- `WireHelloAck`. -/
structure WireHelloAck where
  protocolVersion : ℤ
  serverVersion : JsString
  deriving DecidableEq, Repr

/-- `ResponseKind`. -/
inductive ResponseKind
  | append (append : WireAppendResponse)
  | readEvents (readEvents : WireReadEvents)
  | readEnd (readEnd : WireReadEnd)
  | error (error : WireErrorResponse)
  | caughtUp (caughtUp : WireSubscribeCaughtUp)
  | stats (stats : WireStatsResponse)
  | helloAck (helloAck : WireHelloAck)
  | none
  deriving DecidableEq, Repr

/-- `kind.kind`: the name a response kind has in the texts of protocol errors. -/
def ResponseKind.name : ResponseKind → String
  | .append _ => "append"
  | .readEvents _ => "readEvents"
  | .readEnd _ => "readEnd"
  | .error _ => "error"
  | .caughtUp _ => "caughtUp"
  | .stats _ => "stats"
  | .helloAck _ => "helloAck"
  | .none => "none"

/-- `WireResponse`. -/
structure WireResponse where
  requestId : ℤ
  kind : ResponseKind
  deriving DecidableEq, Repr

section

variable [TextCodec]

/-! ### Event, Query, condition -/

/-- `encodeEvent`. -/
def encodeEvent (event : WireEvent) : Bytes :=
  let w := Writer.init.string 1 event.type
  let w := event.tags.foldl (fun w tag => w.repeatedString 2 tag) w
  (w.bytes 3 event.payload).finish

/-- The fields of an event. -/
def eventField (event : WireEvent) : ℕ → Option (FieldReader WireEvent)
  | 1 => some (.string fun v => { event with type := v })
  | 2 => some (.string fun v => { event with tags := event.tags ++ [v] })
  | 3 => some (.bytes fun v => { event with payload := v })
  | _ => none

/-- `decodeEvent`. -/
def decodeEvent (r : Reader) : Except Err WireEvent :=
  readMessage eventField { type := [], tags := [], payload := [] } r

/-- `encodeQueryItem`. -/
def encodeQueryItem (item : WireQueryItem) : Bytes :=
  let w := item.types.foldl (fun w type => w.repeatedString 1 type) Writer.init
  (item.tags.foldl (fun w tag => w.repeatedString 2 tag) w).finish

/-- The fields of a query item. -/
def queryItemField (item : WireQueryItem) : ℕ → Option (FieldReader WireQueryItem)
  | 1 => some (.string fun v => { item with types := item.types ++ [v] })
  | 2 => some (.string fun v => { item with tags := item.tags ++ [v] })
  | _ => none

/-- `decodeQueryItem`. -/
def decodeQueryItem (r : Reader) : Except Err WireQueryItem :=
  readMessage queryItemField { types := [], tags := [] } r

/-- `encodeQuery`. -/
def encodeQuery (query : WireQuery) : Bytes :=
  let w := Writer.init.bool 1 query.all
  (query.items.foldl (fun w item => w.message 2 (encodeQueryItem item)) w).finish

/-- The fields of a query. -/
def queryField (query : WireQuery) : ℕ → Option (FieldReader WireQuery)
  | 1 => some (.bool fun v => { query with all := v })
  | 2 => some (.message fun r => do
      return { query with items := query.items ++ [← decodeQueryItem r] })
  | _ => none

/-- `{ all: false, items: [] }`. -/
def emptyQuery : WireQuery := { all := false, items := [] }

/-- `decodeQuery`. -/
def decodeQuery (r : Reader) : Except Err WireQuery := readMessage queryField emptyQuery r

/-- `encodeCondition`. -/
def encodeCondition (condition : WireAppendCondition) : Bytes :=
  let w := Writer.init.message 1 (encodeQuery condition.failIfEventsMatch)
  let w := w.uint64 2 condition.after
  (w.ifDefined condition.failIfExists fun w query => w.message 3 (encodeQuery query)).finish

/-- The fields of a condition. -/
def conditionField (condition : WireAppendCondition) :
    ℕ → Option (FieldReader WireAppendCondition)
  | 1 => some (.message fun r => do
      return { condition with failIfEventsMatch := ← decodeQuery r })
  | 2 => some (.varintBig fun v => { condition with after := v })
  | 3 => some (.message fun r => do
      return { condition with failIfExists := some (← decodeQuery r) })
  | _ => none

/-- `decodeCondition`. -/
def decodeCondition (r : Reader) : Except Err WireAppendCondition :=
  readMessage conditionField
    { failIfEventsMatch := emptyQuery, after := 0, failIfExists := none } r

/-! ### Requests -/

/-- `encodeAppendRequest`. -/
def encodeAppendRequest (req : WireAppendRequest) : Bytes :=
  let w := req.events.foldl (fun w event => w.message 1 (encodeEvent event)) Writer.init
  (w.ifDefined req.condition fun w condition => w.message 2 (encodeCondition condition)).finish

/-- The fields of an append request. -/
def appendRequestField (req : WireAppendRequest) : ℕ → Option (FieldReader WireAppendRequest)
  | 1 => some (.message fun r => do
      return { req with events := req.events ++ [← decodeEvent r] })
  | 2 => some (.message fun r => do
      return { req with condition := some (← decodeCondition r) })
  | _ => none

/-- `decodeAppendRequest`. -/
def decodeAppendRequest (r : Reader) : Except Err WireAppendRequest :=
  readMessage appendRequestField { events := [], condition := none } r

/-- `encodeReadRequest`. -/
def encodeReadRequest (req : WireReadRequest) : Bytes :=
  let w := Writer.init.message 1 (encodeQuery req.query)
  let w := w.uint64 2 req.after
  let w := w.ifDefined req.limit fun w limit => w.uint64Present 3 limit
  (w.bool 4 req.reverse).finish

/-- The fields of a read request. -/
def readRequestField (req : WireReadRequest) : ℕ → Option (FieldReader WireReadRequest)
  | 1 => some (.message fun r => do return { req with query := ← decodeQuery r })
  | 2 => some (.varintBig fun v => { req with after := v })
  | 3 => some (.varintBig fun v => { req with limit := some v })
  | 4 => some (.bool fun v => { req with reverse := v })
  | _ => none

/-- `decodeReadRequest`. -/
def decodeReadRequest (r : Reader) : Except Err WireReadRequest :=
  readMessage readRequestField
    { query := emptyQuery, after := 0, limit := none, reverse := false } r

/-- `encodeSubscribeRequest`. -/
def encodeSubscribeRequest (req : WireSubscribeRequest) : Bytes :=
  ((Writer.init.message 1 (encodeQuery req.query)).uint64 2 req.after).finish

/-- The fields of a subscribe request. -/
def subscribeRequestField (req : WireSubscribeRequest) :
    ℕ → Option (FieldReader WireSubscribeRequest)
  | 1 => some (.message fun r => do return { req with query := ← decodeQuery r })
  | 2 => some (.varintBig fun v => { req with after := v })
  | _ => none

/-- `decodeSubscribeRequest`. -/
def decodeSubscribeRequest (r : Reader) : Except Err WireSubscribeRequest :=
  readMessage subscribeRequestField { query := emptyQuery, after := 0 } r

/-- `encodeCancelRequest`. -/
def encodeCancelRequest (req : WireCancelRequest) : Bytes :=
  (Writer.init.uint64 1 req.target).finish

/-- The fields of a cancel request. -/
def cancelRequestField (req : WireCancelRequest) : ℕ → Option (FieldReader WireCancelRequest)
  | 1 => some (.varintBig fun v => { req with target := v })
  | _ => none

/-- `decodeCancelRequest`. -/
def decodeCancelRequest (r : Reader) : Except Err WireCancelRequest :=
  readMessage cancelRequestField { target := 0 } r

/-- `encodeHello`. -/
def encodeHello (hello : WireHello) : Bytes :=
  let w := Writer.init.uint32 1 hello.protocolVersion
  (w.ifDefined hello.authToken fun w authToken => w.string 2 authToken).finish

/-- The fields of a hello. -/
def helloField (hello : WireHello) : ℕ → Option (FieldReader WireHello)
  | 1 => some (.varint fun v => { hello with protocolVersion := v })
  | 2 => some (.string fun v => { hello with authToken := some v })
  | _ => none

/-- `decodeHello`. -/
def decodeHello (r : Reader) : Except Err WireHello :=
  readMessage helloField { protocolVersion := 0, authToken := none } r

/-- `encodeRequest`. -/
def encodeRequest (request : WireRequest) : Bytes :=
  let w := Writer.init.uint64 1 request.requestId
  let w := match request.kind with
    | .append append => w.message 2 (encodeAppendRequest append)
    | .read read => w.message 3 (encodeReadRequest read)
    | .subscribe subscribe => w.message 4 (encodeSubscribeRequest subscribe)
    | .cancel cancel => w.message 5 (encodeCancelRequest cancel)
    | .stats => w.message 6 []
    | .hello hello => w.message 7 (encodeHello hello)
    | .none => w
  w.finish

/-- The fields of a request. -/
def requestField (request : WireRequest) : ℕ → Option (FieldReader WireRequest)
  | 1 => some (.varintBig fun v => { request with requestId := v })
  | 2 => some (.message fun r => do
      return { request with kind := .append (← decodeAppendRequest r) })
  | 3 => some (.message fun r => do return { request with kind := .read (← decodeReadRequest r) })
  | 4 => some (.message fun r => do
      return { request with kind := .subscribe (← decodeSubscribeRequest r) })
  | 5 => some (.message fun r => do
      return { request with kind := .cancel (← decodeCancelRequest r) })
  | 6 => some (.message fun _ => return { request with kind := .stats })
  | 7 => some (.message fun r => do return { request with kind := .hello (← decodeHello r) })
  | _ => none

/-- `decodeRequest`. -/
def decodeRequest (bytes : Bytes) : Except Err WireRequest :=
  readMessage requestField { requestId := 0, kind := .none } bytes

/-! ### Responses -/

/-- `encodeSequencedEvent`. -/
def encodeSequencedEvent (event : WireSequencedEvent) : Bytes :=
  let w := Writer.init.uint64 1 event.position
  (w.ifDefined event.event fun w event => w.message 2 (encodeEvent event)).finish

/-- The fields of a sequenced event. -/
def sequencedEventField (event : WireSequencedEvent) : ℕ → Option (FieldReader WireSequencedEvent)
  | 1 => some (.varintBig fun v => { event with position := v })
  | 2 => some (.message fun r => do return { event with event := some (← decodeEvent r) })
  | _ => none

/-- `decodeSequencedEvent`. -/
def decodeSequencedEvent (r : Reader) : Except Err WireSequencedEvent :=
  readMessage sequencedEventField { position := 0, event := none } r

/-- `encodeAppendResponse`. -/
def encodeAppendResponse (res : WireAppendResponse) : Bytes :=
  ((Writer.init.uint64 1 res.first).uint64 2 res.last).finish

/-- The fields of an append response. -/
def appendResponseField (res : WireAppendResponse) : ℕ → Option (FieldReader WireAppendResponse)
  | 1 => some (.varintBig fun v => { res with first := v })
  | 2 => some (.varintBig fun v => { res with last := v })
  | _ => none

/-- `decodeAppendResponse`. -/
def decodeAppendResponse (r : Reader) : Except Err WireAppendResponse :=
  readMessage appendResponseField { first := 0, last := 0 } r

/-- `encodeReadEvents`. -/
def encodeReadEvents (res : WireReadEvents) : Bytes :=
  (res.events.foldl (fun w event => w.message 1 (encodeSequencedEvent event)) Writer.init).finish

/-- The fields of a batch of events. -/
def readEventsField (res : WireReadEvents) : ℕ → Option (FieldReader WireReadEvents)
  | 1 => some (.message fun r => do
      return { res with events := res.events ++ [← decodeSequencedEvent r] })
  | _ => none

/-- `decodeReadEvents`. -/
def decodeReadEvents (r : Reader) : Except Err WireReadEvents :=
  readMessage readEventsField { events := [] } r

/-- `encodeWatermark`. -/
def encodeWatermark (watermark : ℤ) : Bytes := (Writer.init.uint64 1 watermark).finish

/-- The fields of a watermark. -/
def watermarkField (_ : ℤ) : ℕ → Option (FieldReader ℤ)
  | 1 => some (.varintBig fun v => v)
  | _ => none

/-- `decodeWatermark`. -/
def decodeWatermark (r : Reader) : Except Err ℤ := readMessage watermarkField 0 r

/-- `encodeStatsResponse`. -/
def encodeStatsResponse (res : WireStatsResponse) : Bytes :=
  let w := Writer.init.uint64 1 res.eventCount
  let w := w.uint64 2 res.segmentCount
  let w := w.uint64 3 res.diskBytes
  let w := w.uint64 4 res.uptimeSeconds
  let w := w.uint64 5 res.activeConnections
  let w := w.uint64 6 res.activeSubscriptions
  let w := w.string 7 res.version
  let w := w.uint64 8 res.connectionsRefused
  let w := w.uint64 9 res.maxConnections
  (w.uint64 10 res.connectionsReaped).finish

/-- The fields of a stats response. -/
def statsResponseField (res : WireStatsResponse) : ℕ → Option (FieldReader WireStatsResponse)
  | 1 => some (.varintBig fun v => { res with eventCount := v })
  | 2 => some (.varintBig fun v => { res with segmentCount := v })
  | 3 => some (.varintBig fun v => { res with diskBytes := v })
  | 4 => some (.varintBig fun v => { res with uptimeSeconds := v })
  | 5 => some (.varintBig fun v => { res with activeConnections := v })
  | 6 => some (.varintBig fun v => { res with activeSubscriptions := v })
  | 7 => some (.string fun v => { res with version := v })
  | 8 => some (.varintBig fun v => { res with connectionsRefused := v })
  | 9 => some (.varintBig fun v => { res with maxConnections := v })
  | 10 => some (.varintBig fun v => { res with connectionsReaped := v })
  | _ => none

/-- `decodeStatsResponse`. -/
def decodeStatsResponse (r : Reader) : Except Err WireStatsResponse :=
  readMessage statsResponseField
    { eventCount := 0, segmentCount := 0, diskBytes := 0, uptimeSeconds := 0,
      activeConnections := 0, activeSubscriptions := 0, version := [], connectionsRefused := 0,
      maxConnections := 0, connectionsReaped := 0 } r

/-- `encodeErrorResponse`. -/
def encodeErrorResponse (res : WireErrorResponse) : Bytes :=
  let w := Writer.init.enum 1 res.code
  let w := w.string 2 res.message
  let w := w.ifDefined res.conflictPosition fun w conflictPosition =>
    w.uint64Present 3 conflictPosition
  (w.bool 4 res.retryable).finish

/-- The fields of an error response. -/
def errorResponseField (res : WireErrorResponse) : ℕ → Option (FieldReader WireErrorResponse)
  | 1 => some (.varint fun v => { res with code := v })
  | 2 => some (.string fun v => { res with message := v })
  | 3 => some (.varintBig fun v => { res with conflictPosition := some v })
  | 4 => some (.bool fun v => { res with retryable := v })
  | _ => none

/-- `decodeErrorResponse`. -/
def decodeErrorResponse (r : Reader) : Except Err WireErrorResponse :=
  readMessage errorResponseField
    { code := 0, message := [], conflictPosition := none, retryable := false } r

/-- `encodeHelloAck`. -/
def encodeHelloAck (ack : WireHelloAck) : Bytes :=
  ((Writer.init.uint32 1 ack.protocolVersion).string 2 ack.serverVersion).finish

/-- The fields of a hello acknowledgement. -/
def helloAckField (ack : WireHelloAck) : ℕ → Option (FieldReader WireHelloAck)
  | 1 => some (.varint fun v => { ack with protocolVersion := v })
  | 2 => some (.string fun v => { ack with serverVersion := v })
  | _ => none

/-- `decodeHelloAck`. -/
def decodeHelloAck (r : Reader) : Except Err WireHelloAck :=
  readMessage helloAckField { protocolVersion := 0, serverVersion := [] } r

/-- `encodeResponse`. -/
def encodeResponse (response : WireResponse) : Bytes :=
  let w := Writer.init.uint64 1 response.requestId
  let w := match response.kind with
    | .append append => w.message 2 (encodeAppendResponse append)
    | .readEvents readEvents => w.message 3 (encodeReadEvents readEvents)
    | .readEnd readEnd => w.message 4 (encodeWatermark readEnd.watermark)
    | .error error => w.message 5 (encodeErrorResponse error)
    | .caughtUp caughtUp => w.message 6 (encodeWatermark caughtUp.watermark)
    | .stats stats => w.message 7 (encodeStatsResponse stats)
    | .helloAck helloAck => w.message 8 (encodeHelloAck helloAck)
    | .none => w
  w.finish

/-- The fields of a response. -/
def responseField (response : WireResponse) : ℕ → Option (FieldReader WireResponse)
  | 1 => some (.varintBig fun v => { response with requestId := v })
  | 2 => some (.message fun r => do
      return { response with kind := .append (← decodeAppendResponse r) })
  | 3 => some (.message fun r => do
      return { response with kind := .readEvents (← decodeReadEvents r) })
  | 4 => some (.message fun r => do
      return { response with kind := .readEnd { watermark := ← decodeWatermark r } })
  | 5 => some (.message fun r => do
      return { response with kind := .error (← decodeErrorResponse r) })
  | 6 => some (.message fun r => do
      return { response with kind := .caughtUp { watermark := ← decodeWatermark r } })
  | 7 => some (.message fun r => do
      return { response with kind := .stats (← decodeStatsResponse r) })
  | 8 => some (.message fun r => do
      return { response with kind := .helloAck (← decodeHelloAck r) })
  | _ => none

/-- `decodeResponse`. -/
def decodeResponse (bytes : Bytes) : Except Err WireResponse :=
  readMessage responseField { requestId := 0, kind := .none } bytes

end

end Tephra
