import Tephra.Conn.Step

/-!
# Steps as sequences of moves

A step of a connection is long and branches a lot, but it is made of few kinds of state changes.
`Move` lists them, each with what holds when it is made; that every step is a sequence of moves is
`moves_of_step`, in the module on steps.  A property that every move keeps is therefore kept by
every step, and that is how the properties of connections are proved.

`Guard` names two kinds of moves that some properties have to exclude.
-/

namespace Tephra

open Lib

variable [TextCodec]

variable {cfg : Config}

theorem makeFrame_eq_ok {request : WireRequest} {frame : Frame cfg}
    (h : makeFrame cfg request = .ok frame) : frame.request = request := by
  unfold makeFrame at h
  split at h
  · cases h; rfl
  · cases h

namespace Conn

/-! ### Moves -/

/-- Whether the frame of a request is between its in-flight permit and the wire: waiting for a
queue slot, granted one, or in the outbound queue. -/
def parked (c : Conn cfg) (id : ℤ) : Bool :=
  (c.queueSlots.users.any fun p => p.2.request.requestId = id) ||
    c.outbound.any fun frame => frame.request.requestId = id

/-- Whether every in-flight permit is held by a request that was pending at some time, so that
nobody is left to hand one on. -/
def starved (c : Conn cfg) : Bool := c.inflight.floating = 0

/-- Queue a cancel frame. -/
def pushCancel (c : Conn cfg) (frame : Frame cfg) : Conn cfg :=
  { c.nextId with
    priority := c.priority ++ [frame]
    writerGate := c.writerGate.signal }.record (.priority frame)

/-- The batch of the writer is handed to the socket. -/
def handOver (c : Conn cfg) : Conn cfg :=
  { c with priority := [], outbound := [] }.record
    (.write (c.priority ++ c.outbound) (concatFrames (c.priority ++ c.outbound)))

/-- A write returns, and the slots of the batch are free again. -/
def write (c : Conn cfg) : Conn cfg :=
  { c.handOver with queueSlots := c.queueSlots.releaseN c.outbound.length }

end Conn

/-- Which of the critical moves are possible. -/
structure Guard where
  /-- A cancel for a request whose frame is parked. -/
  cancelParked : Prop
  /-- A stream opened on a dead connection that has no permit left. -/
  openStarved : Prop

/-- Everything is possible. -/
def Guard.all : Guard := ⟨True, True⟩

/-- One change of a connection. -/
inductive Move (g : Guard) : Conn cfg → Conn cfg → Prop
  /-- A unary request or the hello is entered. -/
  | register {c : Conn cfg} {type : PendingType} {call : Call}
      (alive : c.dead = false) (hasType : call.hasType type = true)
      (fresh : call.settled = false) : Move g c (c.register type call)
  /-- Its send function starts. -/
  | acquire {c : Conn cfg} {s : Sender} (alive : c.dead = false)
      (id_le : s.id ≤ c.idCounter) (new : ∀ s' ∈ c.inflight.users, s'.id ≠ s.id)
      (entry : ∀ e, c.pending.get? s.id = some e →
        e.permit = false ∧ s.type.handles e.type = true) : Move g c (c.acquire s)
  /-- A stream is entered and its send function starts. -/
  | openStream {c : Conn cfg} {type : PendingType} {call : Call} {s : Sender}
      (hasType : call.hasType type = true) (fresh : call.settled = false)
      (id_eq : s.id = c.idCounter + 1) (handles : s.type.handles type = true)
      (starved : c.dead = true → c.starved = true → g.openStarved) :
      Move g c ((c.register type call).acquire s)
  /-- A request is cancelled. -/
  | cancel {c : Conn cfg} {id : ℤ} {e : Pending} {frame : Frame cfg} {f : Call → Call}
      (alive : c.dead = false) (entry : c.pending.get? id = some e)
      (request : frame.request =
        { requestId := c.idCounter + 1, kind := .cancel { target := id } })
      (ends : ∀ call, c.calls.get? id = some call → call.Ends (f call))
      (parked : c.parked id = true → g.cancelParked) :
      Move g c (((c.pushCancel frame).finalize id).settle id f)
  /-- A request is answered or fails. -/
  | settle {c : Conn cfg} {id : ℤ} {e : Pending} {f : Call → Call}
      (entry : c.pending.get? id = some e)
      (ends : ∀ call, c.calls.get? id = some call → call.Ends (f call)) :
      Move g c ((c.finalize id).settle id f)
  /-- A pending stream takes in items. -/
  | deliver {c : Conn cfg} {id : ℤ} {e : Pending} {f : Call → Call}
      (entry : c.pending.get? id = some e)
      (keeps : ∀ call, c.calls.get? id = some call → call.Keeps (f call))
      (settled : ∀ call, c.calls.get? id = some call → (f call).settled = call.settled) :
      Move g c (c.update id f)
  /-- A consumer, or the signal of a request, does something. -/
  | consume {c : Conn cfg} {id : ℤ} {f : Call → Call}
      (extends_ : ∀ call, c.calls.get? id = some call → call.Extends (f call)) :
      Move g c (c.update id f)
  /-- A permit is given back: the request is gone. -/
  | dropPermit {c : Conn cfg} {s : Sender} {p : Sender → Bool} {inflight : Semaphore Sender}
      (resume : c.inflight.resume p = some (s, inflight)) (gone : c.pending.get? s.id = none) :
      Move g c { c with inflight := inflight.release }
  /-- A permit is given back: the connection is dead, and the request fails. -/
  | failPermit {c : Conn cfg} {s : Sender} {e : Pending} {p : Sender → Bool}
      {inflight : Semaphore Sender} {f : Call → Call}
      (resume : c.inflight.resume p = some (s, inflight)) (entry : c.pending.get? s.id = some e)
      (dead : c.dead = true)
      (ends : ∀ call, c.calls.get? s.id = some call → call.Ends (f call)) :
      Move g c (({ c with inflight := inflight.release }.finalize s.id).settle s.id f)
  /-- A permit goes to the pending entry. -/
  | keepPermit {c : Conn cfg} {s : Sender} {e : Pending} {p : Sender → Bool}
      {inflight : Semaphore Sender} (alive : c.dead = false)
      (resume : c.inflight.resume p = some (s, inflight)) (entry : c.pending.get? s.id = some e) :
      Move g c { c with
        inflight := inflight
        pending := c.pending.modify s.id fun entry => { entry with permit := true } }
  /-- A frame asks for a queue slot. -/
  | enqueue {c : Conn cfg} {s : Sender} {e : Pending} {frame : Frame cfg} (alive : c.dead = false)
      (entry : c.pending.get? s.id = some e) (requestId : frame.request.requestId = s.id)
      (kind : ∀ req, frame.request.kind ≠ .cancel req)
      (handles : s.type.handles e.type = true) : Move g c (c.enqueue s frame)
  /-- A frame with a slot enters the outbound queue. -/
  | slotPush {c : Conn cfg} {s : Sender} {frame : Frame cfg} {p : Sender × Frame cfg → Bool}
      {queueSlots : Semaphore (Sender × Frame cfg)} (alive : c.dead = false)
      (resume : c.queueSlots.resume p = some ((s, frame), queueSlots)) :
      Move g c ({ c with
        queueSlots := queueSlots
        outbound := c.outbound ++ [frame]
        writerGate := c.writerGate.signal }.record (.outbound frame))
  /-- A slot is given back: the connection is dead. -/
  | slotDrop {c : Conn cfg} {s : Sender} {frame : Frame cfg} {p : Sender × Frame cfg → Bool}
      {queueSlots : Semaphore (Sender × Frame cfg)} (dead : c.dead = true)
      (resume : c.queueSlots.resume p = some ((s, frame), queueSlots)) :
      Move g c { c with
        queueSlots := queueSlots.release
        failedSends := c.failedSends ++ [(s, c.deadError)] }
  /-- A rejected enqueue is caught. -/
  | takeFailed {c : Conn cfg} {failedSends : List (Sender × Err)}
      (sublist : failedSends.Sublist c.failedSends) : Move g c { c with failedSends := failedSends }
  /-- The writer writes a batch. -/
  | write {c : Conn cfg} (alive : c.dead = false) : Move g c c.write
  /-- The gate changes; a new waiter finds both queues empty. -/
  | gate {c : Conn cfg} {gate : Gate}
      (waiter : gate.waiter = true →
        c.writerGate.waiter = true ∨ c.priority = [] ∧ c.outbound = []) :
      Move g c { c with writerGate := gate }
  /-- The writer's wait for `drain` changes. -/
  | drain {c : Conn cfg} {drain : Drain} : Move g c { c with drain := drain }
  /-- A write throws and the connection dies. -/
  | throw {c : Conn cfg} {err : Err} (alive : c.dead = false) :
      Move g c (c.handOver.failConnection err)
  /-- The connection dies. -/
  | die {c : Conn cfg} {err : Err} (alive : c.dead = false) : Move g c (c.failConnection err)
  /-- The socket is gone. -/
  | destroy {c : Conn cfg} : Move g c { c with destroyed := true }
  /-- A call on a dead connection is rejected. -/
  | refuse {c : Conn cfg} {err : Err} (dead : c.dead = true) : Move g c (c.record (.refuse err))
  /-- A cancel does not fit a frame; its id is spent. -/
  | spend {c : Conn cfg} {id : ℤ} {err : Err} (alive : c.dead = false)
      (unfit : makeFrame cfg { requestId := c.idCounter + 1, kind := .cancel { target := id } } =
        .error err) : Move g c c.nextId
  /-- The cancel of a stream that is being closed does not fit, and the stream stays half closed. -/
  | jam {c : Conn cfg} {id : ℤ} {err : Err} (alive : c.dead = false)
      (unfit : makeFrame cfg { requestId := c.idCounter + 1, kind := .cancel { target := id } } =
        .error err) : Move g c (c.update id (Call.mapBase BaseStream.markClosed))

/-- A sequence of moves. -/
abbrev Moves (g : Guard) : Conn cfg → Conn cfg → Prop := Relation.ReflTransGen (Move g)

namespace Conn

/-! ### What the methods change -/

theorem parked_iff {c : Conn cfg} {id : ℤ} :
    c.parked id = true ↔ (∃ p ∈ c.queueSlots.users, p.2.request.requestId = id) ∨
      ∃ frame ∈ c.outbound, frame.request.requestId = id := by
  simp only [parked, Bool.or_eq_true, List.any_eq_true, decide_eq_true_eq]

theorem finalize_of_none {c : Conn cfg} {id : ℤ} (h : c.pending.get? id = none) :
    c.finalize id = c := by
  simp only [finalize, h]

theorem finalize_of_some {c : Conn cfg} {id : ℤ} {e : Pending} (h : c.pending.get? id = some e) :
    c.finalize id = { c with
      pending := c.pending.delete id
      inflight := if e.permit then c.inflight.release else c.inflight } := by
  simp only [finalize, h]
  split <;> rfl

theorem exists_finalize (c : Conn cfg) (id : ℤ) : ∃ pending inflight,
    c.finalize id = { c with pending := pending, inflight := inflight } := by
  cases h : c.pending.get? id with
  | none => exact ⟨_, _, finalize_of_none h⟩
  | some e => exact ⟨_, _, finalize_of_some h⟩

theorem settleAll_eq (c : Conn cfg) (ids : List ℤ) (f : Call → Call) :
    ids.foldl (fun c id => c.settle id f) c = { c with
      calls := ids.foldl (fun calls id => calls.modify id f) c.calls
      log := c.log ++ ids.map .settle } := by
  induction ids generalizing c with
  | nil => simp
  | cons id ids ih =>
    rw [List.foldl_cons, ih]
    simp [settle, update, record]

theorem failConnection_of_dead {c : Conn cfg} (err : Err) (h : c.dead = true) :
    c.failConnection err = c := by
  rw [failConnection, if_pos h]

theorem failConnection_of_alive {c : Conn cfg} (err : Err) (h : c.dead = false) :
    c.failConnection err = { c with
      dead := true
      deathCause := some err
      pending := .empty
      calls := c.pending.keys.foldl (fun calls id => calls.modify id (Call.reject err)) c.calls
      writerGate := c.writerGate.signal
      queueSlots := c.queueSlots.drainWaiters
      log := c.log ++ [.die err c.pending.keys] ++ c.pending.keys.map .settle } := by
  rw [failConnection, if_neg (by simp [h])]
  simp only [settleAll_eq, record]

/-- What death does to a call: it is rejected if it was pending. -/
theorem calls_failConnection {c : Conn cfg} (err : Err) (h : c.dead = false) (id : ℤ) :
    (c.failConnection err).calls.get? id =
      if c.pending.has id then (c.calls.get? id).map (Call.reject err) else c.calls.get? id := by
  rw [failConnection_of_alive err h]
  simp only [OrdMap.get?_foldl_modify c.pending.nodup_keys, OrdMap.has_iff]

/-- What is read off a log does not depend on effects it does not concern. -/
theorem flatMap_log {β : Type} {c c' : Conn cfg} {p : Effect cfg → List β} {l : List (Effect cfg)}
    (hlog : c'.log = c.log ++ l) (hl : ∀ effect ∈ l, p effect = []) :
    c'.log.flatMap p = c.log.flatMap p := by
  rw [hlog, List.flatMap_append, List.flatMap_eq_nil_iff.2 hl, List.append_nil]

theorem dead_failConnection (c : Conn cfg) (err : Err) : (c.failConnection err).dead = true := by
  rcases Bool.eq_false_or_eq_true c.dead with hdead | halive
  · rwa [failConnection_of_dead err hdead]
  · rw [failConnection_of_alive err halive]

/-- Death is for good. -/
theorem dead_of_move {g : Guard} {c c' : Conn cfg} (hm : Move g c c') (h : c.dead = true) :
    c'.dead = true := by
  have hfinalize : ∀ {c₁ : Conn cfg} {id : ℤ} {f : Call → Call}, c₁.dead = c.dead →
      ((c₁.finalize id).settle id f).dead = true := fun {c₁ id f} heq => by
    obtain ⟨_, _, hfinal⟩ := c₁.exists_finalize id
    rw [hfinal]
    exact heq.trans h
  cases hm with
  | cancel | settle | failPermit => exact hfinalize rfl
  | throw | die => exact dead_failConnection _ _
  | register | acquire | openStream | deliver | consume | dropPermit | keepPermit | enqueue
  | slotPush | slotDrop | takeFailed | write | gate | drain | destroy | refuse | spend | jam =>
    exact h

theorem parked_finalize (c : Conn cfg) (id id' : ℤ) :
    (c.finalize id).parked id' = c.parked id' := by
  cases h : c.pending.get? id with
  | none => rw [finalize_of_none h]
  | some e => rw [finalize_of_some h]; rfl

theorem parked_failConnection (c : Conn cfg) (err : Err) (id : ℤ) :
    (c.failConnection err).parked id = c.parked id := by
  rcases Bool.eq_false_or_eq_true c.dead with hdead | halive
  · rw [failConnection_of_dead err hdead]
  · rw [failConnection_of_alive err halive]
    simp only [parked]
    rw [c.queueSlots.users_drainWaiters.any_eq]

end Conn

end Tephra
