import Tephra.Conn.Isolation
import Tephra.Conn.Log

/-!
# What happens to one request

Most of what a connection does concerns one of its requests.  `Happening` is what can happen to a
request, and `Request.react` what becomes of the request then: its pending entry, the object of its
caller and the number of cancels for it, with no connection around them.

`Conn.happenings` reads off a step what happens to request `t`, and `Conn.story` does so for a whole
run, from the time the request is made.  That a connection does to each request what these say is
`request_of_run`, in the module on single requests.
-/

namespace Tephra

open Lib

/-! ### A request by itself -/

namespace Call

/-- `collect()`, of a read that is not collected yet. -/
def collect : Call → Call
  | read stream => if stream.collector.isNone then read stream.collect else read stream
  | call => call

/-- A turn of `collect()`. -/
def collectStep : Call → Call
  | read stream => read (stream.collectStep.getD stream)
  | call => call

theorem hasType_settleUnary (outcome : Except Err Reply) (call : Call) (type : PendingType) :
    (call.settleUnary outcome).hasType type = call.hasType type := by
  cases call <;> cases outcome <;> cases type <;> rfl

theorem hasType_settleHello (outcome : Except Err Unit) (call : Call) (type : PendingType) :
    (call.settleHello outcome).hasType type = call.hasType type := by
  cases call <;> cases outcome <;> cases type <;> rfl

theorem hasType_endWith (watermark : ℤ) (call : Call) (type : PendingType) :
    (call.endWith watermark).hasType type = call.hasType type := by
  cases call <;> cases type <;> rfl

theorem extends_collect (call : Call) : call.Extends call.collect := by
  cases call with
  | read stream =>
    rw [collect]
    split_ifs
    · exact ⟨rfl, Sink.extends_next _, rfl⟩
    · exact .refl _
  | unary deferred abortListener | hello deferred | subscribe stream => exact .refl _

theorem extends_collectStep (call : Call) : call.Extends call.collectStep := by
  cases call with
  | read stream =>
    rw [collectStep]
    cases hstep : stream.collectStep with
    | none => exact .refl _
    | some stream' => exact ReadStream.extends_of_collectStep hstep
  | unary deferred abortListener | hello deferred | subscribe stream => exact .refl _

end Call

/-- An outcome leaves the type of an object alone, even where it does not fit. -/
theorem Conn.hasType_of_reaction {type : PendingType} {kind : ResponseKind} {f : Call → Call}
    (h : Conn.reaction type kind = .settle f) (call : Call) (type' : PendingType) :
    (f call).hasType type' = call.hasType type' := by
  cases type with
  | hello => cases h; exact Call.hasType_settleHello _ call type'
  | unary expect => cases h; exact Call.hasType_settleUnary _ call type'
  | read =>
    cases kind with
    | readEvents res =>
      simp only [reaction] at h
      split at h <;> cases h
    | readEnd res => cases h; exact Call.hasType_endWith _ call type'
    | error error => cases h; exact (Call.ends_reject _ call).hasType type'
    | append res | caughtUp res | stats res | helloAck ack | none => cases h
  | subscribe =>
    cases kind with
    | readEvents res =>
      simp only [reaction] at h
      split at h <;> cases h
    | error error => cases h; exact (Call.ends_reject _ call).hasType type'
    | append res | readEnd res | caughtUp res | stats res | helloAck ack | none => cases h

/-- What can happen to a request.  A flag `alive` says whether the connection is alive then. -/
inductive Happening
  /-- It is made. -/
  | opened (type : PendingType) (call : Call)
  /-- It gets its in-flight permit. -/
  | permit
  /-- A response with its id comes. -/
  | response (response : WireResponse) (alive : Bool)
  /-- Its stream is closed. -/
  | close (alive : Bool)
  /-- Its signal aborts. -/
  | abort (err : Err) (alive : Bool)
  /-- It is closed or aborted, and the cancel for it does not fit a frame. -/
  | jam
  /-- Sending it fails. -/
  | sendFailed (err : Err)
  /-- The connection dies. -/
  | died (err : Err)
  -- what its signal and its consumer do besides
  | listener
  | microtask
  | next
  | collect
  | collectStep
  deriving DecidableEq, Repr

/-- Whether the request is made. -/
def Happening.isOpened : Happening → Bool
  | opened _ _ => true
  | _ => false

/-- A request: what can be seen of it, and how many cancels were queued for it. -/
structure Request where
  view : View
  cancels : ℕ
  deriving DecidableEq, Repr

/-- What the signal and the consumer of a request do to its object. -/
def Happening.use? : Happening → Option (Call → Call)
  | listener => some Call.takeListener
  | microtask => some (Call.mapBase BaseStream.takeMicrotask)
  | next => some (Call.mapBase BaseStream.next)
  | collect => some Call.collect
  | collectStep => some Call.collectStep
  | _ => none

theorem Happening.extends_of_use {h : Happening} {f : Call → Call} (huse : h.use? = some f)
    (call : Call) : call.Extends (f call) := by
  cases h <;> cases huse
  · exact Call.extends_takeListener call
  · exact Call.extends_takeMicrotask call
  · exact Call.extends_next call
  · exact Call.extends_collect call
  · exact Call.extends_collectStep call

namespace Request

/-- Before the request is made. -/
def new : Request := { view := { pending := none, call := none }, cancels := 0 }

/-- The request gets its outcome, and with it a cancel or not. -/
def settle (q : Request) (f : Call → Call) (cancelled : Bool) : Request where
  view := q.view.finish f
  cancels := q.cancels + cancelled.toNat

/-- The object of the request changes. -/
def update (q : Request) (f : Call → Call) : Request := { q with view := q.view.deliver f }

/-- Whether it is too late for the request to be closed or aborted.  A stream knows this by itself,
and for a unary request the pending entry says so. -/
def closed (q : Request) : Bool :=
  match q.view.call with
  | some call => if call.isStream then call.closed else q.view.pending.isNone
  | none => true

/-- Whether a response violates the protocol of the request. -/
def violatedBy (q : Request) (kind : ResponseKind) : Bool :=
  q.view.pending.any fun e => Conn.violates e.type kind

/-- What becomes of a request. -/
def react (q : Request) : Happening → Request
  | .opened type call =>
    -- an id is used once
    if q.view.call.isSome then q
    else { q with view := { pending := some { type := type, permit := false }, call := some call } }
  | .permit =>
    { q with view := { q.view with
      pending := q.view.pending.map fun entry => { entry with permit := true } } }
  | .response response alive =>
    { view := q.view.respond response
      cancels := q.cancels + (alive && q.violatedBy response.kind).toNat }
  | .close alive => if q.closed then q else q.settle (Call.mapBase BaseStream.finishClean) alive
  | .abort err alive => if q.closed then q else q.settle (Call.reject err) alive
  | .jam => if q.closed then q else q.update (Call.mapBase BaseStream.markClosed)
  | .sendFailed err | .died err =>
    if q.view.pending.isNone then q else q.settle (Call.reject err) false
  | .listener => q.update Call.takeListener
  | .microtask => q.update (Call.mapBase BaseStream.takeMicrotask)
  | .next => q.update (Call.mapBase BaseStream.next)
  | .collect => q.update Call.collect
  | .collectStep => q.update Call.collectStep

theorem react_new {h : Happening} (hopened : h.isOpened = false) : new.react h = new := by
  cases h with
  | opened type call => cases hopened
  | response response alive =>
    simp only [react, new, View.respond, violatedBy, Option.any_none, Bool.and_false,
      Bool.toNat_false]
  | permit | close alive | abort err alive | jam | sendFailed err | died err | listener | microtask
  | next | collect | collectStep => rfl

theorem foldl_react_new (hs : List Happening) :
    (hs.dropWhile fun h => !h.isOpened).foldl react new = hs.foldl react new := by
  induction hs with
  | nil => rfl
  | cons h hs ih =>
    rw [List.dropWhile_cons]
    cases hopened : h.isOpened with
    | true => rfl
    | false => simp only [Bool.not_false, if_true, List.foldl_cons, react_new hopened, ih]

theorem react_response {q : Request} {e : Pending} (entry : q.view.pending = some e)
    {response : WireResponse} {v : View} (hview : q.view.respond response = v) (alive : Bool) :
    q.react (.response response alive) =
      { view := v,
        cancels := q.cancels + (alive && Conn.violates e.type response.kind).toNat } := by
  rw [react, hview, violatedBy, entry, Option.any_some]

theorem react_of_use {q : Request} {h : Happening} {f : Call → Call} (huse : h.use? = some f) :
    q.react h = q.update f := by
  cases h <;> cases huse <;> rfl

/-- A request is over, with a number of cancels. -/
structure Over (q : Request) (cancels : ℕ) : Prop where
  gone : q.view.pending = none
  call : ∃ call, q.view.call = some call ∧ call.closed = true
  cancels_eq : q.cancels = cancels

/-- Nothing but its consumer and its signal does anything to a request that is over. -/
theorem Over.react_eq_self {q : Request} {n : ℕ} (hq : q.Over n) {h : Happening}
    (huse : h.use? = none) : q.react h = q := by
  obtain ⟨hgone, ⟨call, hcall, hcallClosed⟩, -⟩ := hq
  have hclosed : q.closed = true := by
    simp only [closed, hcall, hcallClosed, hgone, Option.isNone_none, ite_self]
  cases h with
  | opened type call' => rw [react, hcall, Option.isSome_some, if_pos rfl]
  | permit =>
    rw [react, hgone, Option.map_none, ← hgone]
  | response response alive =>
    rw [react, View.respond, violatedBy, hgone]
    simp only [Option.any_none, Bool.and_false, Bool.toNat_false, Nat.add_zero]
  | close alive | abort err alive | jam => rw [react, if_pos hclosed]
  | sendFailed err | died err => rw [react, hgone, Option.isNone_none, if_pos rfl]
  | listener | microtask | next | collect | collectStep => cases huse

theorem Over.react {q : Request} {n : ℕ} (hq : q.Over n) (h : Happening) : (q.react h).Over n := by
  cases huse : h.use? with
  | none => rwa [hq.react_eq_self huse]
  | some f =>
    obtain ⟨hgone, ⟨call, hcall, hcallClosed⟩, hcancels⟩ := hq
    rw [react_of_use huse]
    refine ⟨hgone, ⟨f call, ?_, (Happening.extends_of_use huse call).closed.trans hcallClosed⟩,
      hcancels⟩
    simp only [update, View.deliver, hcall, Option.map_some]

theorem Over.foldl {q : Request} {n : ℕ} (hq : q.Over n) (hs : List Happening) :
    (hs.foldl Request.react q).Over n := by
  induction hs generalizing q with
  | nil => exact hq
  | cons h hs ih => exact ih (hq.react h)

theorem hasType_react {q : Request} {type : PendingType}
    (hq : q.view.call.any (fun call => call.hasType type) = true) (h : Happening) :
    (q.react h).view.call.any (fun call => call.hasType type) = true := by
  obtain ⟨call, hcall, htype⟩ := (Option.any_eq_true _ _).1 hq
  have hmap : ∀ f : Call → Call, (∀ call type, Call.hasType (f call) type = call.hasType type) →
      (q.view.call.map f).any (fun call => call.hasType type) = true := fun f hf => by
    rw [hcall, Option.map_some, Option.any_some, hf, htype]
  have hbase : ∀ (f : ∀ {α : Type}, BaseStream α → BaseStream α) (call : Call) type,
      (call.mapBase f).hasType type = call.hasType type := fun f call type => by
    cases call <;> cases type <;> rfl
  have hreject : ∀ (err : Err) (call : Call) type,
      (call.reject err).hasType type = call.hasType type :=
    fun err call => (Call.ends_reject err call).hasType
  have huses : ∀ {h : Happening} {f : Call → Call}, h.use? = some f →
      (q.react h).view.call.any (fun call => call.hasType type) = true := fun huse => by
    rw [react_of_use huse]
    exact hmap _ fun call => (Happening.extends_of_use huse call).keeps.hasType
  cases h with
  | opened type' call' => rwa [react, hcall, Option.isSome_some, if_pos rfl]
  | permit => exact hq
  | response response alive =>
    rcases Option.eq_none_or_eq_some q.view.pending with entry | ⟨e, entry⟩
    · simp only [react, View.respond, entry]
      exact hq
    · rw [react_response entry (View.respond_of_pending entry response)]
      cases hreaction : Conn.reaction e.type response.kind with
      | settle f => exact hmap f (Conn.hasType_of_reaction hreaction)
      | deliver f => exact hmap f fun call => (Conn.keeps_of_reaction hreaction call).1.hasType
      | violate err => exact hmap _ (hreject err)
  | close alive =>
    rw [react]
    split_ifs
    · exact hq
    · exact hmap _ (hbase _)
  | abort err alive | sendFailed err | died err =>
    rw [react]
    split_ifs
    · exact hq
    · exact hmap _ (hreject err)
  | jam =>
    rw [react]
    split_ifs
    · exact hq
    -- the cancel does not fit: the stream is closed, but nothing is settled
    · exact hmap _ (hbase _)
  | listener | microtask | next | collect | collectStep => exact huses rfl

theorem hasType_foldl {q : Request} {type : PendingType}
    (hq : q.view.call.any (fun call => call.hasType type) = true) (hs : List Happening) :
    (hs.foldl react q).view.call.any (fun call => call.hasType type) = true := by
  induction hs generalizing q with
  | nil => exact hq
  | cons h hs ih => exact ih (hasType_react hq h)

end Request

/-- The objects that requests of each type are made with. -/
def PendingType.Makes (type : PendingType) (call : Call) : Prop :=
  match type with
  | .unary _ => ∃ abortListener, call = .unary .pending abortListener
  | .hello => call = .hello .pending
  | .read => ∃ signal, call = .read (ReadStream.new signal)
  | .subscribe => ∃ signal, call = .subscribe (BaseStream.new signal)

theorem PendingType.Makes.hasType {type : PendingType} {call : Call} (h : type.Makes call) :
    call.hasType type = true := by
  cases type with
  | unary expect => obtain ⟨abortListener, rfl⟩ := h; rfl
  | hello => cases h; rfl
  | read => obtain ⟨signal, rfl⟩ := h; rfl
  | subscribe => obtain ⟨signal, rfl⟩ := h; rfl

theorem PendingType.Makes.settled {type : PendingType} {call : Call} (h : type.Makes call) :
    call.settled = false := by
  cases type with
  | unary expect => obtain ⟨abortListener, rfl⟩ := h; rfl
  | hello => cases h; rfl
  | read => obtain ⟨signal, rfl⟩ := h; rfl
  | subscribe => obtain ⟨signal, rfl⟩ := h; rfl

/-! ### The requests of a connection -/

section

variable [TextCodec] {cfg : Config}

/-- What happens to request `t` when these things happen to request `id`. -/
def on (id t : ℤ) (hs : List Happening) : List Happening := if id = t then hs else []

omit [TextCodec] in
theorem mem_on {id t : ℤ} {hs : List Happening} {h : Happening} :
    h ∈ on id t hs ↔ id = t ∧ h ∈ hs := by
  unfold on
  split_ifs with hid
  · exact (and_iff_right hid).symm
  · exact iff_of_false List.not_mem_nil fun hh => hid hh.1

omit [TextCodec] in
theorem foldl_on (id t : ℤ) (hs : List Happening) (q : Request) :
    (on id t hs).foldl Request.react q = if id = t then hs.foldl Request.react q else q := by
  unfold on
  split_ifs <;> rfl

namespace Conn

/-- How many cancels for request `t` were pushed to the priority queue. -/
def cancelCount (c : Conn cfg) (t : ℤ) : ℕ :=
  (c.log.flatMap Effect.pushedPriority).countP fun frame =>
    frame.request.kind = .cancel { target := t }

/-- Request `t`. -/
def request (c : Conn cfg) (t : ℤ) : Request where
  view := c.view t
  cancels := c.cancelCount t

/-- Whether a cancel does not throw: nothing is sent, or the frame fits. -/
def canCancel (c : Conn cfg) (id : ℤ) : Bool :=
  c.dead ||
    (makeFrame cfg { requestId := c.idCounter + 1, kind := .cancel { target := id } }).toBool

/-- What a request meets that is to be closed or aborted. -/
def ending (c : Conn cfg) (id : ℤ) (h : Happening) : Happening := if c.canCancel id then h else .jam

/-- What every request meets when the connection fails: a dead one does not fail again. -/
def failing (c : Conn cfg) (err : Err) : List Happening := if c.dead then [] else [.died err]

/-- What a unary request meets when it is made. -/
def unaryHappenings (c : Conn cfg) (t : ℤ) (expect : Expect) (signal : Signal) : List Happening :=
  if c.dead then []
  else on (c.idCounter + 1) t (.opened (.unary expect) (.unary .pending (signal = .live)) ::
    match signal with
    | .aborted reason =>
      [c.nextId.ending (c.idCounter + 1) (.abort (asError reason "the operation was aborted") true)]
    | _ => [])

/-- What a response is for request `t`. -/
def responseHappenings (c : Conn cfg) (t : ℤ) (response : WireResponse) : List Happening :=
  if response.requestId = 0 then
    match response.kind with
    | .error error => c.failing (.connCause "unattributed server error" (serverErrorFromWire error))
    | _ => []
  else on response.requestId t [.response response !c.dead]

/-- What the frames of a chunk are for request `t`. -/
def frameHappenings (c : Conn cfg) (t : ℤ) : List Bytes → List Happening
  | [] => []
  | body :: bodies =>
    match decodeResponse body with
    | .error e => c.failing (.connCause "protocol error" (asError (.error e) "protocol error"))
    | .ok response =>
      match c.routeResponse response with
      | (_, some e) => c.failing (.connCause "protocol error" (asError (.error e) "protocol error"))
      | (c', none) => c.responseHappenings t response ++ c'.frameHappenings t bodies

/-- What a request meets when its send function gets a permit. -/
def permitHappenings (c : Conn cfg) (s : Sender) : List Happening :=
  if c.dead then [.sendFailed (asError (.error c.deadError) s.type.fallback)]
  else .permit ::
    match s.outgoing.kind >>= fun kind => makeFrame cfg { requestId := s.id, kind := kind } with
    | .error e => [.sendFailed (asError (.error e) s.type.fallback)]
    | .ok _ => []

/-- What every request meets when the writer runs. -/
def writerHappenings (c : Conn cfg) (outcome : WriteOutcome) : List Happening :=
  if c.priority.length = 0 ∧ c.outbound.length = 0 then []
  else
    match outcome with
    | .threw reason => c.failing (.connCause "write failed" (asError reason "write failed"))
    | .returned _ => []

/-- What happens to request `t` in a step. -/
def happenings (c : Conn cfg) (t : ℤ) : Action → List Happening
  | .append _ signal => c.unaryHappenings t .append signal
  | .stats signal => c.unaryHappenings t .stats signal
  | .read _ signal => on (c.idCounter + 1) t [.opened .read (.read (ReadStream.new signal))]
  | .subscribe _ signal =>
    on (c.idCounter + 1) t [.opened .subscribe (.subscribe (BaseStream.new signal))]
  | .close => c.failing (.conn "connection closed")
  | .closeStream id => on id t [c.ending id (.close !c.dead)]
  | .next id => on id t [.next]
  | .collect id => on id t [.collect]
  | .abort id reason =>
    on id t [.listener,
      c.ending id (.abort (asError reason "the operation was aborted") !c.dead)]
  | .data chunk =>
    match c.decoder.push chunk with
    | (_, .error e) => c.failing (.connCause "framing error" (asError (.error e) "framing error"))
    | (decoder, .ok frames) => { c with decoder := decoder }.frameHappenings t frames
  | .socketError err => c.failing (.connCause "connection error" err)
  | .socketClose => c.failing (.conn "connection closed")
  | .drained => []
  | .permit id =>
    match c.inflight.resume fun s => s.id = id with
    | some (s, _) => on id t (c.permitHappenings s)
    | none => []
  | .slot _ => []
  | .sendFailed id =>
    match c.failedSends.find? fun s => s.1.id = id with
    | some s => on id t [.sendFailed (asError (.error s.2) s.1.type.fallback)]
    | none => []
  | .writer outcome => c.writerHappenings outcome
  | .drainResumed outcome => c.writerHappenings outcome
  | .drainRejected =>
    match c.drain with
    | .rejected reason =>
      c.failing (.connCause "write failed" (asError (.error reason) "write failed"))
    | _ => []
  | .abortMicrotask id =>
    match (c.calls.get? id).bind Call.abortMicrotask with
    | some reason =>
      on id t [.microtask,
        c.ending id (.abort (asError reason "the operation was aborted") !c.dead)]
    | none => []
  | .collectStep id => on id t [.collectStep]

/-- What happens to request `t` before the first step: the hello is made. -/
def helloHappenings (t : ℤ) : List Happening := on 1 t [.opened .hello (.hello .pending)]

/-- What happens to request `t` in the course of a run, from the time it is made. -/
def story (cfg : Config) (t : ℤ) (as : List Action) : List Happening :=
  (helloHappenings t ++
    (connection cfg).observe (fun c a => c.happenings t a) (init cfg) as).dropWhile
    fun h => !h.isOpened

/-! ### What a step can be for a request -/

/-- What can happen to request `t` in a step. -/
inductive Meets (cfg : Config) (t : ℤ) (a : Action) : Happening → Prop
  | opened {type : PendingType} {call : Call} (makes : type.Makes call) :
      Meets cfg t a (.opened type call)
  | jam (unfit : cfg.maxFrameLen < 24) : Meets cfg t a .jam
  | next (next : a = .next t) : Meets cfg t a .next
  | permit : Meets cfg t a .permit
  | response (response : WireResponse) (alive : Bool) : Meets cfg t a (.response response alive)
  | close (alive : Bool) : Meets cfg t a (.close alive)
  | abort (err : Err) (alive : Bool) : Meets cfg t a (.abort err alive)
  | sendFailed (err : Err) : Meets cfg t a (.sendFailed err)
  | died (err : Err) : Meets cfg t a (.died err)
  | listener : Meets cfg t a .listener
  | microtask : Meets cfg t a .microtask
  | collect : Meets cfg t a .collect
  | collectStep : Meets cfg t a .collectStep

variable {c : Conn cfg} {t : ℤ} {a : Action} {h : Happening}

theorem Meets.ending {id : ℤ} (hh : Meets cfg t a h) : Meets cfg t a (c.ending id h) := by
  unfold Conn.ending
  split_ifs with hcan
  · exact hh
  · refine .jam ?_
    by_contra hmax
    obtain ⟨frame, hframe⟩ := exists_cancelFrame (Nat.le_of_not_lt hmax) (c.idCounter + 1) id
    refine hcan ?_
    rw [canCancel, hframe]
    exact Bool.or_true _

theorem meets_of_mem_failing {err : Err} (hmem : h ∈ c.failing err) : Meets cfg t a h := by
  unfold failing at hmem
  split_ifs at hmem
  · cases hmem
  · rw [List.mem_singleton.1 hmem]
    exact .died _

theorem meets_of_mem_unary {expect : Expect} {signal : Signal}
    (hmem : h ∈ c.unaryHappenings t expect signal) : Meets cfg t a h := by
  unfold unaryHappenings at hmem
  split_ifs at hmem
  · cases hmem
  · rcases List.mem_cons.1 (mem_on.1 hmem).2 with rfl | hmem
    · exact .opened ⟨_, rfl⟩
    · cases signal with
      | none | live => cases hmem
      | aborted reason =>
        rw [List.mem_singleton.1 hmem]
        exact Meets.ending (.abort _ _)

theorem meets_of_mem_response {response : WireResponse}
    (hmem : h ∈ c.responseHappenings t response) : Meets cfg t a h := by
  unfold responseHappenings at hmem
  split_ifs at hmem
  · split at hmem
    · exact meets_of_mem_failing hmem
    · cases hmem
  · rw [List.mem_singleton.1 (mem_on.1 hmem).2]
    exact .response _ _

theorem meets_of_mem_frames {bodies : List Bytes} (hmem : h ∈ c.frameHappenings t bodies) :
    Meets cfg t a h := by
  induction bodies generalizing c with
  | nil => cases hmem
  | cons body bodies ih =>
    rw [frameHappenings] at hmem
    split at hmem
    · exact meets_of_mem_failing hmem
    · split at hmem
      · exact meets_of_mem_failing hmem
      · rcases List.mem_append.1 hmem with hmem | hmem
        · exact meets_of_mem_response hmem
        · exact ih hmem

theorem mem_permitHappenings {s : Sender} (hmem : h ∈ c.permitHappenings s) :
    h = .permit ∨ ∃ err, h = .sendFailed err := by
  unfold permitHappenings at hmem
  split_ifs at hmem
  · exact .inr ⟨_, List.mem_singleton.1 hmem⟩
  · rcases List.mem_cons.1 hmem with rfl | hmem
    · exact .inl rfl
    · split at hmem
      · exact .inr ⟨_, List.mem_singleton.1 hmem⟩
      · cases hmem

theorem meets_of_mem_writer {outcome : WriteOutcome} (hmem : h ∈ c.writerHappenings outcome) :
    Meets cfg t a h := by
  unfold writerHappenings at hmem
  split_ifs at hmem
  · cases hmem
  · cases outcome with
    | threw reason => exact meets_of_mem_failing hmem
    | returned ok => cases hmem

theorem meets_of_mem (hmem : h ∈ c.happenings t a) : Meets cfg t a h := by
  cases a with
  | append req signal | stats signal => exact meets_of_mem_unary hmem
  | read req signal | subscribe req signal =>
    rw [List.mem_singleton.1 (mem_on.1 hmem).2]
    exact .opened ⟨signal, rfl⟩
  | close | socketError err | socketClose => exact meets_of_mem_failing hmem
  | closeStream id =>
    rw [List.mem_singleton.1 (mem_on.1 hmem).2]
    exact Meets.ending (.close _)
  | next id =>
    obtain ⟨hid, hmem⟩ := mem_on.1 hmem
    rw [List.mem_singleton.1 hmem]
    exact .next (by rw [hid])
  | collect id =>
    rw [List.mem_singleton.1 (mem_on.1 hmem).2]
    exact .collect
  | collectStep id =>
    rw [List.mem_singleton.1 (mem_on.1 hmem).2]
    exact .collectStep
  -- an abort takes the listener off, whatever it does then
  | abort id reason =>
    rcases List.mem_cons.1 (mem_on.1 hmem).2 with rfl | hmem
    · exact .listener
    · rw [List.mem_singleton.1 hmem]
      exact Meets.ending (.abort _ _)
  | data chunk =>
    simp only [happenings] at hmem
    split at hmem
    · exact meets_of_mem_failing hmem
    · exact meets_of_mem_frames hmem
  | drained | slot id => cases hmem
  | permit id =>
    simp only [happenings] at hmem
    split at hmem
    · rcases mem_permitHappenings (mem_on.1 hmem).2 with rfl | ⟨err, rfl⟩
      · exact .permit
      · exact .sendFailed err
    · cases hmem
  | sendFailed id =>
    simp only [happenings] at hmem
    split at hmem
    · rw [List.mem_singleton.1 (mem_on.1 hmem).2]
      exact .sendFailed _
    · cases hmem
  | writer outcome | drainResumed outcome => exact meets_of_mem_writer hmem
  | drainRejected =>
    simp only [happenings] at hmem
    split at hmem
    · exact meets_of_mem_failing hmem
    · cases hmem
  | abortMicrotask id =>
    simp only [happenings] at hmem
    split at hmem
    · rcases List.mem_cons.1 (mem_on.1 hmem).2 with rfl | hmem
      · exact .microtask
      · rw [List.mem_singleton.1 hmem]
        exact Meets.ending (.abort _ _)
    · cases hmem

/-- What is in a story was met in a step of the run, or is the hello that is made. -/
theorem meets_of_mem_story {ok : Conn cfg → Action → Prop} {as : List Action}
    (hrun : (connection cfg).RunWith ok (init cfg) as c) (hmem : h ∈ story cfg t as) :
    (h = .opened .hello (.hello .pending)) ∨ ∃ c a, ok c a ∧ Meets cfg t a h := by
  have hmem := (List.dropWhile_sublist _).subset hmem
  rcases List.mem_append.1 hmem with hmem | hmem
  · exact .inl (List.mem_singleton.1 (mem_on.1 hmem).2)
  · exact hrun.forall_mem_observe (P := fun h => _ ∨ ∃ c a, ok c a ∧ Meets cfg t a h)
      (fun c a hok h hh => .inr ⟨c, a, hok, meets_of_mem hh⟩) h hmem

end Conn

end

end Tephra
