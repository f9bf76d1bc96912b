import Tephra.Conn.Step

/-!
# What a step can do

`Conn.step` looks up what its action is about and then runs some code.  `Taken c a c'` lists the
ways this can go, each with what was found.  In the same way `Routes` lists the ways a response can
be routed, and `reaction` says what it makes of a pending request of each type.

* `taken_of_step` : every step that can be taken goes one of these ways.
* `routes_routeResponse` : every response is routed in one of these ways.
-/

namespace Tephra

open Lib

section

variable [TextCodec] {cfg : Config}

namespace Conn

/-- A step that can be taken, with what it found. -/
inductive Taken (c : Conn cfg) : Action → Conn cfg → Prop
  | append (req : Except Err WireAppendRequest) (signal : Signal) :
      Taken c (.append req signal) (c.append req signal)
  | stats (signal : Signal) : Taken c (.stats signal) (c.stats signal)
  | read (req : Except Err WireReadRequest) (signal : Signal) :
      Taken c (.read req signal) (c.read req signal)
  | subscribe (req : Except Err WireSubscribeRequest) (signal : Signal) :
      Taken c (.subscribe req signal) (c.subscribe req signal)
  | close : Taken c .close c.close
  | closeStream {id : ℤ} {call : Call} (found : c.calls.get? id = some call)
      (isStream : call.isStream = true) : Taken c (.closeStream id) (c.closeStream id)
  | next {id : ℤ} {call : Call} (found : c.calls.get? id = some call)
      (isStream : call.isStream = true) :
      Taken c (.next id) (c.update id (Call.mapBase BaseStream.next))
  | collect {id : ℤ} {stream : ReadStream} (found : c.calls.get? id = some (.read stream))
      (collector : stream.collector.isNone = true) :
      Taken c (.collect id) (c.update id fun _ => .read stream.collect)
  /-- The signal of a stream. -/
  | abortStream {id : ℤ} {reason : Reason} {call : Call} (found : c.calls.get? id = some call)
      (listening : call.listening = true) (isStream : call.isStream = true) :
      Taken c (.abort id reason) ((c.update id Call.takeListener).onAbort id reason)
  /-- The signal of a unary request. -/
  | abortUnary {id : ℤ} {reason : Reason} {call : Call} (found : c.calls.get? id = some call)
      (listening : call.listening = true) (isUnary : call.isStream = false) :
      Taken c (.abort id reason) ((c.update id Call.takeListener).cancelUnary id
        (asError reason "the operation was aborted")).1
  | data (chunk : Bytes) (intact : c.destroyed = false) : Taken c (.data chunk) (c.onData chunk)
  | socketError (err : Err) :
      Taken c (.socketError err) (c.failConnection (.connCause "connection error" err)).rejectDrain
  | socketClose : Taken c .socketClose
      { (c.failConnection (.conn "connection closed")).rejectDrain with destroyed := true }
  | drained (drain : c.drain = .listening) : Taken c .drained { c with drain := .resumed }
  | permit {id : ℤ} {s : Sender} {inflight : Semaphore Sender}
      (resume : c.inflight.resume (fun s => s.id = id) = some (s, inflight)) :
      Taken c (.permit id) ({ c with inflight := inflight }.permitGranted s)
  | slot {id : ℤ} {s : Sender} {frame : Frame cfg} {queueSlots : Semaphore (Sender × Frame cfg)}
      (resume : c.queueSlots.resume (fun p => p.1.id = id) = some ((s, frame), queueSlots)) :
      Taken c (.slot id) ({ c with queueSlots := queueSlots }.slotGranted s frame)
  | sendFailed {id : ℤ} {s : Sender} {err : Err}
      (found : c.failedSends.find? (fun p => p.1.id = id) = some (s, err)) :
      Taken c (.sendFailed id)
        ({ c with failedSends := c.failedSends.eraseP fun p => p.1.id = id }.sendFailed s err)
  | writer (outcome : WriteOutcome) (resumed : c.writerGate.resumed = true) :
      Taken c (.writer outcome)
      ({ c with writerGate := { c.writerGate with resumed := false } }.runWriter outcome)
  | drainResumed (outcome : WriteOutcome) (drain : c.drain = .resumed) :
      Taken c (.drainResumed outcome) ({ c with drain := .idle }.runWriter outcome)
  | drainRejected {reason : Err} (drain : c.drain = .rejected reason) :
      Taken c .drainRejected ({ c with drain := .idle }.failConnection
        (.connCause "write failed" (asError (.error reason) "write failed")))
  | abortMicrotask {id : ℤ} {reason : Reason} {call : Call} (found : c.calls.get? id = some call)
      (microtask : call.abortMicrotask = some reason) :
      Taken c (.abortMicrotask id)
        ((c.update id (Call.mapBase BaseStream.takeMicrotask)).onAbort id reason)
  | collectStep {id : ℤ} {stream stream' : ReadStream}
      (found : c.calls.get? id = some (.read stream)) (turn : stream.collectStep = some stream') :
      Taken c (.collectStep id) (c.update id fun _ => .read stream')

theorem taken_of_step {c c' : Conn cfg} {a : Action} (hstep : c.step a = some c') :
    Taken c a c' := by
  cases a with
  | append req signal => cases hstep; exact .append req signal
  | stats signal => cases hstep; exact .stats signal
  | read req signal => cases hstep; exact .read req signal
  | subscribe req signal => cases hstep; exact .subscribe req signal
  | close => cases hstep; exact .close
  -- a step on an object happens only if the object is there and is a stream
  | closeStream id =>
    simp only [step] at hstep
    split at hstep
    · split_ifs at hstep with hstream
      cases hstep
      exact .closeStream ‹_› hstream
    · cases hstep
  | next id =>
    simp only [step] at hstep
    split at hstep
    · split_ifs at hstep with hstream
      cases hstep
      exact .next ‹_› hstream
    · cases hstep
  | collect id =>
    simp only [step] at hstep
    split at hstep
    · split_ifs at hstep with hnone
      cases hstep
      exact .collect ‹_› hnone
    · cases hstep
  | abort id reason =>
    simp only [step] at hstep
    split at hstep
    · split_ifs at hstep with hlistening hstream
      · cases hstep
        exact .abortStream ‹_› hlistening hstream
      · cases hstep
        exact .abortUnary ‹_› hlistening (Bool.eq_false_iff.2 hstream)
    · cases hstep
  | data chunk =>
    simp only [step] at hstep
    split_ifs at hstep with hdestroyed
    cases hstep
    exact .data chunk (Bool.eq_false_iff.2 hdestroyed)
  | socketError err => cases hstep; exact .socketError err
  | socketClose => cases hstep; exact .socketClose
  | drained =>
    simp only [step] at hstep
    split at hstep
    · cases hstep; exact .drained ‹_›
    · cases hstep
  -- a continuation happens only if it is due
  | permit id =>
    obtain ⟨⟨s, inflight⟩, hresume, rfl⟩ := Option.map_eq_some_iff.1 hstep
    exact .permit hresume
  | slot id =>
    obtain ⟨⟨⟨s, frame⟩, queueSlots⟩, hresume, rfl⟩ := Option.map_eq_some_iff.1 hstep
    exact .slot hresume
  | sendFailed id =>
    obtain ⟨⟨s, err⟩, hfound, rfl⟩ := Option.map_eq_some_iff.1 hstep
    exact .sendFailed hfound
  | writer outcome =>
    simp only [step] at hstep
    split_ifs at hstep with hresumed
    cases hstep
    exact .writer outcome hresumed
  | drainResumed outcome =>
    simp only [step] at hstep
    split at hstep
    · cases hstep; exact .drainResumed outcome ‹_›
    · cases hstep
  | drainRejected =>
    simp only [step] at hstep
    split at hstep
    · cases hstep; exact .drainRejected ‹_›
    · cases hstep
  | abortMicrotask id =>
    simp only [step] at hstep
    split at hstep
    · split at hstep
      · cases hstep
        exact .abortMicrotask ‹_› ‹_›
      · cases hstep
    · cases hstep
  | collectStep id =>
    simp only [step] at hstep
    split at hstep
    · obtain ⟨stream', hturn, rfl⟩ := Option.map_eq_some_iff.1 hstep
      exact .collectStep ‹_› hturn
    · cases hstep

/-! ### Responses -/

/-- What a response makes of the pending request it is for. -/
inductive Reaction
  /-- It is finalized, and its object gets its outcome. -/
  | settle (f : Call → Call)
  /-- Its object takes something in. -/
  | deliver (f : Call → Call)
  /-- The stream is aborted. -/
  | violate (err : Err)

/-- Whether the request is finalized. -/
def Reaction.finalizes : Reaction → Bool
  | .settle _ => true
  | _ => false

/-- Whether the stream is aborted. -/
def Reaction.violates : Reaction → Bool
  | .violate _ => true
  | _ => false

/-- The cases of `route`, `routeRead` and `routeSubscribe`. -/
def reaction : PendingType → ResponseKind → Reaction
  | .hello, kind => .settle (Call.settleHello (helloOutcome kind))
  | .unary expect, kind => .settle (Call.settleUnary (unaryOutcome expect kind))
  | .read, .readEvents res =>
    match res.events.mapM sequencedFromWire with
    | .error e => .violate (asError (.error e) "protocol error")
    | .ok mapped => .deliver fun call => mapped.foldl (fun call e => call.deliverRead e) call
  | .read, .readEnd res => .settle (Call.endWith res.watermark)
  | .read, .error error => .settle (Call.reject (serverErrorFromWire error))
  | .read, kind => .violate (.protocol s!"unexpected {kind.name} response for a read")
  | .subscribe, .readEvents res =>
    match res.events.mapM sequencedFromWire with
    | .error e => .violate (asError (.error e) "protocol error")
    | .ok mapped =>
      .deliver fun call => mapped.foldl (fun call e => call.deliverSubscribe (.event e)) call
  | .subscribe, .caughtUp res => .deliver (Call.deliverSubscribe (.caughtUp res.watermark))
  | .subscribe, .error error => .settle (Call.reject (serverErrorFromWire error))
  | .subscribe, kind => .violate (.protocol s!"unexpected {kind.name} response for a subscription")

omit [TextCodec] in
theorem ends_of_reaction {type : PendingType} {kind : ResponseKind} {f : Call → Call}
    (h : reaction type kind = .settle f) (call : Call) (htype : call.hasType type = true) :
    call.Ends (f call) := by
  cases type with
  | hello => cases h; exact Call.ends_settleHello htype
  | unary expect => cases h; exact Call.ends_settleUnary htype
  | read =>
    cases kind with
    | readEvents res =>
      simp only [reaction] at h
      split at h <;> cases h
    | readEnd res => cases h; exact Call.ends_endWith htype
    | error error => cases h; exact Call.ends_reject _ call
    | append res | caughtUp res | stats res | helloAck ack | none => cases h
  | subscribe =>
    cases kind with
    | readEvents res =>
      simp only [reaction] at h
      split at h <;> cases h
    | error error => cases h; exact Call.ends_reject _ call
    | append res | readEnd res | caughtUp res | stats res | helloAck ack | none => cases h

omit [TextCodec] in
theorem keeps_of_reaction {type : PendingType} {kind : ResponseKind} {f : Call → Call}
    (h : reaction type kind = .deliver f) (call : Call) :
    call.Keeps (f call) ∧ (f call).settled = call.settled := by
  cases type with
  | hello | unary expect => cases h
  | read =>
    cases kind with
    | readEvents res =>
      simp only [reaction] at h
      split at h
      · cases h
      · cases h
        exact Call.keeps_foldl (fun call e => Call.keeps_deliverRead e call) _ call
    | append res | readEnd res | error error | caughtUp res | stats res | helloAck ack | none =>
      cases h
  | subscribe =>
    cases kind with
    | readEvents res =>
      simp only [reaction] at h
      split at h
      · cases h
      · cases h
        exact Call.keeps_foldl (fun call e => Call.keeps_deliverSubscribe (.event e) call) _ call
    | caughtUp res => cases h; exact Call.keeps_deliverSubscribe _ call
    | append res | readEnd res | error error | stats res | helloAck ack | none => cases h

/-- The ways a response can be routed. -/
inductive Routes (c : Conn cfg) (response : WireResponse) : Conn cfg × Option Err → Prop
  /-- An error that is for no request. -/
  | unattributed {error : WireErrorResponse} (id_eq : response.requestId = 0)
      (kind : response.kind = .error error) : Routes c response
        (c.failConnection (.connCause "unattributed server error" (serverErrorFromWire error)),
        none)
  /-- Something else that is for no request. -/
  | ignored (id_eq : response.requestId = 0) (kind : ∀ error, response.kind ≠ .error error) :
      Routes c response (c, none)
  /-- Its request is gone. -/
  | gone (id_ne : response.requestId ≠ 0) (entry : c.pending.get? response.requestId = none) :
      Routes c response (c, none)
  | settle {e : Pending} {f : Call → Call} (id_ne : response.requestId ≠ 0)
      (entry : c.pending.get? response.requestId = some e)
      (reaction : reaction e.type response.kind = .settle f) :
      Routes c response ((c.finalize response.requestId).settle response.requestId f, none)
  | deliver {e : Pending} {f : Call → Call} (id_ne : response.requestId ≠ 0)
      (entry : c.pending.get? response.requestId = some e)
      (reaction : reaction e.type response.kind = .deliver f) :
      Routes c response (c.update response.requestId f, none)
  | violate {e : Pending} {err : Err} (id_ne : response.requestId ≠ 0)
      (entry : c.pending.get? response.requestId = some e)
      (reaction : reaction e.type response.kind = .violate err) :
      Routes c response (c.abortStream response.requestId err)

theorem routes_routeResponse (c : Conn cfg) (response : WireResponse) :
    Routes c response (c.routeResponse response) := by
  unfold routeResponse
  simp only
  by_cases hzero : response.requestId = 0
  · rw [if_pos hzero]
    split
    · exact .unattributed hzero ‹_›
    · rename_i hkind
      exact .ignored hzero hkind
  rw [if_neg hzero]
  cases entry : c.pending.get? response.requestId with
  | none => exact .gone hzero entry
  | some e =>
    -- one of these, by what the type of the entry makes of the response
    have hsettle : ∀ f, reaction e.type response.kind = .settle f → Routes c response _ :=
      fun f => .settle hzero entry
    have hdeliver : ∀ f, reaction e.type response.kind = .deliver f → Routes c response _ :=
      fun f => .deliver hzero entry
    have hviolate : ∀ err, reaction e.type response.kind = .violate err → Routes c response _ :=
      fun err => .violate hzero entry
    simp only
    cases htype : e.type with
    | hello => exact hsettle _ (by rw [htype]; rfl)
    | unary expect => exact hsettle _ (by rw [htype]; rfl)
    | read =>
      rw [htype] at hsettle hdeliver hviolate
      simp only [routeRead]
      cases hkind : response.kind with
      | readEvents res =>
        rw [hkind] at hdeliver hviolate
        simp only
        cases hmapped : res.events.mapM sequencedFromWire with
        | error err => exact hviolate _ (by simp only [reaction, hmapped])
        | ok mapped => exact hdeliver _ (by simp only [reaction, hmapped])
      | readEnd res | error error =>
        rw [hkind] at hsettle
        exact hsettle _ rfl
      | append res | caughtUp res | stats res | helloAck ack | none =>
        rw [hkind] at hviolate
        exact hviolate _ rfl
    | subscribe =>
      rw [htype] at hsettle hdeliver hviolate
      simp only [routeSubscribe]
      cases hkind : response.kind with
      | readEvents res =>
        rw [hkind] at hdeliver hviolate
        simp only
        cases hmapped : res.events.mapM sequencedFromWire with
        | error err => exact hviolate _ (by simp only [reaction, hmapped])
        | ok mapped => exact hdeliver _ (by simp only [reaction, hmapped])
      | caughtUp res =>
        rw [hkind] at hdeliver
        exact hdeliver _ rfl
      | error error =>
        rw [hkind] at hsettle
        exact hsettle _ rfl
      | append res | readEnd res | stats res | helloAck ack | none =>
        rw [hkind] at hviolate
        exact hviolate _ rfl

end Conn

end

end Tephra
