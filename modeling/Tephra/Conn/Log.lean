import Tephra.Conn.Decompose

/-!
# Frames on their way to the socket

`Wire` is what a connection does with frames, read off its queues and its log: what is in the two
queues, what was ever pushed to them, and what was handed to the socket.

* `wire_of_move` : the four things a move can do to it.
* `SlotsRequest` : a frame that comes by the outbound queue is not a cancel.
-/

namespace Tephra

open Lib

variable [TextCodec] {cfg : Config}

namespace Effect

/-- A call of `socket.write`. -/
def writes : Effect cfg → List (List (Frame cfg) × Bytes)
  | write batch bytes => [(batch, bytes)]
  | _ => []

/-- A push to the outbound queue. -/
def pushedOutbound : Effect cfg → List (Frame cfg)
  | outbound frame => [frame]
  | _ => []

/-- A push to the priority queue. -/
def pushedPriority : Effect cfg → List (Frame cfg)
  | priority frame => [frame]
  | _ => []

/-- Whether an effect is about a frame. -/
def isFrame : Effect cfg → Bool
  | write _ _ | outbound _ | priority _ => true
  | _ => false

end Effect

/-- Frames on their way to the socket. -/
structure Wire (cfg : Config) where
  outbound : List (Frame cfg)
  priority : List (Frame cfg)
  /-- What was ever pushed to `outbound`. -/
  pushedOutbound : List (Frame cfg)
  /-- What was ever pushed to `priority`. -/
  pushedPriority : List (Frame cfg)
  /-- The batches handed to `socket.write`, with their bytes. -/
  writes : List (List (Frame cfg) × Bytes)

namespace Wire

/-- The frames handed to the socket. -/
def written (w : Wire cfg) : List (Frame cfg) := w.writes.flatMap Prod.fst

/-- The bytes handed to the socket. -/
def bytes (w : Wire cfg) : Bytes := w.writes.flatMap Prod.snd

/-- The frames in the order of the wire, if the writer were to run now. -/
def inOrder (w : Wire cfg) : List (Frame cfg) := w.written ++ (w.priority ++ w.outbound)

/-- `outbound.push(frame)`. -/
def pushOutbound (w : Wire cfg) (frame : Frame cfg) : Wire cfg :=
  { w with outbound := w.outbound ++ [frame], pushedOutbound := w.pushedOutbound ++ [frame] }

/-- `priority.push(frame)`. -/
def pushPriority (w : Wire cfg) (frame : Frame cfg) : Wire cfg :=
  { w with priority := w.priority ++ [frame], pushedPriority := w.pushedPriority ++ [frame] }

/-- A turn of the writer. -/
def write (w : Wire cfg) : Wire cfg :=
  { w with
    outbound := []
    priority := []
    writes := w.writes ++
      [(w.priority ++ w.outbound, Conn.concatFrames (w.priority ++ w.outbound))] }

theorem written_write (w : Wire cfg) :
    w.write.written = w.written ++ (w.priority ++ w.outbound) := by
  simp only [written, write, List.flatMap_append, List.flatMap_singleton]

@[simp] theorem inOrder_write (w : Wire cfg) : w.write.inOrder = w.inOrder := by
  rw [inOrder, written_write]
  simp only [write, inOrder, List.append_nil]

theorem inOrder_pushOutbound (w : Wire cfg) (frame : Frame cfg) :
    (w.pushOutbound frame).inOrder = w.inOrder ++ [frame] := by
  simp only [inOrder, pushOutbound, written, List.append_assoc]

theorem inOrder_pushPriority (w : Wire cfg) (frame : Frame cfg) :
    (w.pushPriority frame).inOrder = w.written ++ w.priority ++ frame :: w.outbound := by
  simp only [inOrder, pushPriority, written, List.append_assoc, List.singleton_append]

end Wire

namespace Conn

variable {c c' : Conn cfg}

/-- The frames of a connection. -/
def wire (c : Conn cfg) : Wire cfg where
  outbound := c.outbound
  priority := c.priority
  pushedOutbound := c.log.flatMap Effect.pushedOutbound
  pushedPriority := c.log.flatMap Effect.pushedPriority
  writes := c.log.flatMap Effect.writes

/-- Nothing happens to the frames unless an effect is about one. -/
theorem wire_congr {l : List (Effect cfg)} (hout : c'.outbound = c.outbound)
    (hpriority : c'.priority = c.priority) (hlog : c'.log = c.log ++ l)
    (hl : ∀ effect ∈ l, effect.isFrame = false) : c'.wire = c.wire := by
  have hnone : ∀ {β : Type} (p : Effect cfg → List β),
      (∀ effect : Effect cfg, effect.isFrame = false → p effect = []) →
        c'.log.flatMap p = c.log.flatMap p := fun p hp =>
    flatMap_log hlog fun effect heffect => hp effect (hl effect heffect)
  simp only [wire, hout, hpriority]
  rw [hnone Effect.pushedOutbound (fun effect h => by cases effect <;> first | rfl | cases h),
    hnone Effect.pushedPriority (fun effect h => by cases effect <;> first | rfl | cases h),
    hnone Effect.writes (fun effect h => by cases effect <;> first | rfl | cases h)]

@[simp] theorem wire_finalize (c : Conn cfg) (id : ℤ) : (c.finalize id).wire = c.wire := by
  obtain ⟨_, _, heq⟩ := c.exists_finalize id
  rw [heq]
  rfl

@[simp] theorem wire_settle (c : Conn cfg) (id : ℤ) (f : Call → Call) :
    (c.settle id f).wire = c.wire :=
  wire_congr rfl rfl rfl (by simp [Effect.isFrame])

@[simp] theorem wire_failConnection (c : Conn cfg) (err : Err) :
    (c.failConnection err).wire = c.wire := by
  rcases Bool.eq_false_or_eq_true c.dead with hdead | halive
  · rw [failConnection_of_dead err hdead]
  · rw [failConnection_of_alive err halive]
    refine wire_congr (l := .die err c.pending.keys :: c.pending.keys.map .settle) rfl rfl
      (by simp) fun effect heffect => ?_
    rcases List.mem_cons.1 heffect with rfl | heffect
    · rfl
    · obtain ⟨id, -, rfl⟩ := List.mem_map.1 heffect
      rfl

theorem wire_handOver (c : Conn cfg) : c.handOver.wire = c.wire.write := by
  simp only [wire, handOver, record, Wire.write, List.flatMap_append, List.flatMap_singleton,
    Effect.pushedOutbound, Effect.pushedPriority, Effect.writes, List.append_nil]

theorem wire_pushCancel (c : Conn cfg) (frame : Frame cfg) :
    (c.pushCancel frame).wire = c.wire.pushPriority frame := by
  simp only [wire, pushCancel, nextId, record, Wire.pushPriority, List.flatMap_append,
    List.flatMap_singleton, Effect.pushedOutbound, Effect.pushedPriority, Effect.writes,
    List.append_nil]

/-- What a move can do to the frames of a connection. -/
inductive WireMove (g : Guard) (c c' : Conn cfg) : Prop
  | same (wire : c'.wire = c.wire)
  /-- A frame with a slot enters the outbound queue. -/
  | outbound {s : Sender} {frame : Frame cfg} (alive : c.dead = false)
      (slot : (s, frame) ∈ c.queueSlots.users) (wire : c'.wire = c.wire.pushOutbound frame)
  /-- A cancel enters the priority queue, and its target is gone. -/
  | priority {id : ℤ} {e : Pending} {frame : Frame cfg} (alive : c.dead = false)
      (entry : c.pending.get? id = some e) (gone : c'.pending.get? id = none)
      (request : frame.request =
        { requestId := c.idCounter + 1, kind := .cancel { target := id } })
      (counter : c'.idCounter = c.idCounter + 1) (slots : c'.queueSlots = c.queueSlots)
      (parked : c.parked id = true → g.cancelParked) (wire : c'.wire = c.wire.pushPriority frame)
  /-- The writer runs. -/
  | write (alive : c.dead = false) (wire : c'.wire = c.wire.write)

theorem WireMove.of_dead {g : Guard} (h : WireMove g c c') (hdead : c.dead = true) :
    c'.wire = c.wire := by
  cases h with
  | same wire => exact wire
  | outbound alive | priority alive | write alive => cases hdead.symm.trans alive

theorem wire_of_move {g : Guard} (hm : Move g c c') : WireMove g c c' := by
  cases hm with
  | register | openStream | spend | refuse =>
    exact .same (wire_congr rfl rfl rfl (by simp [Effect.isFrame]))
  | acquire | deliver | consume | dropPermit | keepPermit | enqueue | slotDrop | takeFailed | gate
  | drain | destroy | jam => exact .same rfl
  | settle => exact .same (by simp only [wire_settle, wire_finalize])
  | failPermit =>
    refine .same ?_
    simp only [wire_settle, wire_finalize]
    rfl
  | @cancel id e frame f alive entry request ends parked =>
    have hwire : (((c.pushCancel frame).finalize id).settle id f).wire =
        c.wire.pushPriority frame := by
      simp only [wire_settle, wire_finalize, wire_pushCancel]
    rw [finalize_of_some (c := c.pushCancel frame) entry] at hwire ⊢
    exact .priority alive entry (OrdMap.get?_delete_self _ _) request rfl rfl parked hwire
  | @slotPush s frame p queueSlots alive resume =>
    have hmem : (s, frame) ∈ c.queueSlots.users :=
      (Semaphore.users_of_resume resume).mem_iff.2 List.mem_cons_self
    refine .outbound alive hmem ?_
    simp only [wire, record, Wire.pushOutbound, List.flatMap_append, List.flatMap_singleton,
      Effect.pushedOutbound, Effect.pushedPriority, Effect.writes, List.append_nil]
  | write alive => exact .write alive (wire_handOver c)
  | throw alive => exact .write alive ((wire_failConnection _ _).trans (wire_handOver c))
  | die alive => exact .same (wire_failConnection c _)

/-- The frames that wait for a queue slot are not cancels. -/
def SlotsRequest (c : Conn cfg) : Prop :=
  ∀ p ∈ c.queueSlots.users, ∀ req, p.2.request.kind ≠ .cancel req

theorem SlotsRequest.move {g : Guard} (h : SlotsRequest c) (hm : Move g c c') :
    SlotsRequest c' := by
  have hfinalize : ∀ {c₁ : Conn cfg} {id : ℤ} {f : Call → Call}, c₁.queueSlots = c.queueSlots →
      SlotsRequest ((c₁.finalize id).settle id f) := fun {c₁ id f} heq => by
    obtain ⟨_, _, hfinal⟩ := c₁.exists_finalize id
    rw [hfinal]
    exact fun p hp => h p (heq ▸ hp)
  have hdeath : ∀ {c : Conn cfg} (err : Err), SlotsRequest c →
      SlotsRequest (c.failConnection err) := fun {c} err h => by
    rcases Bool.eq_false_or_eq_true c.dead with hdead | halive
    · rwa [failConnection_of_dead err hdead]
    · rw [failConnection_of_alive err halive]
      exact fun p hp => h p (Semaphore.mem_users_drainWaiters.1 hp)
  cases hm with
  | register | acquire | openStream | deliver | consume | dropPermit | keepPermit | takeFailed
    | gate
  | drain | destroy | refuse | spend | jam => exact h
  | cancel | settle | failPermit => exact hfinalize rfl
  | @enqueue s e frame alive entry requestId kind handles =>
    intro p hp
    rcases Semaphore.mem_users_acquire.1 hp with rfl | hp
    · exact kind
    · exact h p hp
  | slotPush alive resume =>
    exact fun p hp => h p ((Semaphore.users_of_resume resume).mem_iff.2 (List.mem_cons_of_mem _ hp))
  | slotDrop dead resume =>
    exact fun p hp => h p ((Semaphore.users_of_resume resume).mem_iff.2
      (List.mem_cons_of_mem _ (Semaphore.mem_users_release.1 hp)))
  | write alive => exact fun p hp => h p (Semaphore.mem_users_releaseN.1 hp)
  | throw alive => exact hdeath _ h
  | die alive => exact hdeath _ h

end Conn

end Tephra
