import Tephra.Conn.Log
import Tephra.Conn.Settlement

/-!
# How a request gets to the outbound queue

A send function lines up for an in-flight permit, its frame lines up for a queue slot, and then the
frame is pushed.  Everything else a connection does leaves these lines as they are, because a permit
or a slot that is given back goes to the first that waits for it.

* `Aside`, `asides_of_step` : the changes that have nothing to do with sending; a step that is not
  about sending consists of such changes.
* `Rests` : these leave the lines as they are, and enter no request.
* `Sends`, `sends_of_step` : what a step can do about sending.
-/

namespace Tephra

open Lib

/-- The request that a call makes. -/
def Action.outgoing? : Action → Option Outgoing
  | .append req _ => some (.append req)
  | .stats _ => some .stats
  | .read req _ => some (.read req)
  | .subscribe req _ => some (.subscribe req)
  | _ => none

section

variable [TextCodec] {cfg : Config}

namespace Conn

variable {c c' c'' : Conn cfg} {id : ℤ}

/-! ### What has nothing to do with sending -/

/-- A change that moves nothing towards the wire. -/
inductive Aside (c : Conn cfg) : Conn cfg → Prop
  | update (id : ℤ) (f : Call → Call) : Aside c (c.update id f)
  | settle (id : ℤ) (f : Call → Call) : Aside c (c.settle id f)
  | finalize (id : ℤ) : Aside c (c.finalize id)
  | fail (err : Err) : Aside c (c.failConnection err)
  | spend : Aside c c.nextId
  | pushCancel (frame : Frame cfg) : Aside c (c.pushCancel frame)
  | refuse (err : Err) : Aside c (c.record (.refuse err))
  | receive (decoder : FrameDecoder) : Aside c { c with decoder := decoder }
  | takeFailed (failedSends : List (Sender × Err)) : Aside c { c with failedSends := failedSends }
  | rejectDrain : Aside c c.rejectDrain
  | drained : Aside c { c with drain := .resumed }
  | destroy : Aside c { c with destroyed := true }
  /-- The writer runs on from its gate. -/
  | writer (outcome : WriteOutcome) : Aside c
      ({ c with writerGate := { c.writerGate with resumed := false } }.runWriter outcome)
  /-- The writer runs on after a full write. -/
  | drainResumed (outcome : WriteOutcome) : Aside c ({ c with drain := .idle }.runWriter outcome)
  | drainRejected (err : Err) : Aside c ({ c with drain := .idle }.failConnection err)

/-- Some such changes. -/
abbrev Asides : Conn cfg → Conn cfg → Prop := Relation.ReflTransGen Aside

namespace Asides

theorem cancel (c : Conn cfg) (id : ℤ) : Asides c (c.cancel id).1 := by
  rcases cancel_cases c id with ⟨-, heq⟩ | ⟨-, err, -, heq⟩ | ⟨-, frame, -, heq⟩
  · rw [heq]
    exact .single (.finalize id)
  · rw [heq]
    exact .single .spend
  · rw [heq]
    exact .tail (.single (.pushCancel frame)) (.finalize id)

theorem cancelUnary (c : Conn cfg) (id : ℤ) (err : Err) : Asides c (c.cancelUnary id err).1 := by
  have hcancel := cancel c id
  unfold Conn.cancelUnary
  split
  · exact .refl
  · split
    · rename_i heq
      rw [heq] at hcancel
      exact hcancel
    · rename_i heq
      rw [heq] at hcancel
      split
      · exact hcancel.tail (.settle id _)
      · exact hcancel

theorem endStream (c : Conn cfg) (id : ℤ) (ending : ∀ {α : Type}, Sink α → Sink α) :
    Asides c (c.endStream id ending) := by
  unfold Conn.endStream
  split
  · exact .refl
  · split_ifs
    · exact .refl
    · have hmark : Asides c _ := .single (.update id (Call.mapBase BaseStream.markClosed))
      have hcancel :
          Asides c ((c.update id (Call.mapBase BaseStream.markClosed)).cancelStream id).1 := by
        unfold cancelStream
        split_ifs
        · exact hmark
        · exact hmark.trans (cancel _ id)
      split
      · rename_i heq
        rw [heq] at hcancel
        exact hcancel
      · rename_i heq
        rw [heq] at hcancel
        exact hcancel.tail (.settle id _)

theorem abortStream (c : Conn cfg) (id : ℤ) (err : Err) : Asides c (c.abortStream id err).1 := by
  have hcancel : Asides c (if c.pending.has id then c.cancel id else (c, none)).1 := by
    split_ifs
    · exact cancel c id
    · exact .refl
  unfold Conn.abortStream
  split
  · rename_i heq
    rw [heq] at hcancel
    exact hcancel
  · rename_i heq
    rw [heq] at hcancel
    exact hcancel.tail (.settle id _)

theorem sendFailed (c : Conn cfg) (s : Sender) (err : Err) : Asides c (c.sendFailed s err) := by
  unfold Conn.sendFailed
  split
  · exact .refl
  · split_ifs
    · exact .tail (.single (.finalize s.id)) (.settle s.id _)
    · exact .single (.finalize s.id)

theorem routeResponse (c : Conn cfg) (response : WireResponse) :
    Asides c (c.routeResponse response).1 := by
  have hroutes := routes_routeResponse c response
  generalize c.routeResponse response = r at hroutes ⊢
  cases hroutes with
  | unattributed => exact .single (.fail _)
  | ignored | gone => exact .refl
  | settle => exact .tail (.single (.finalize _)) (.settle _ _)
  | deliver => exact .single (.update _ _)
  | violate => exact abortStream c _ _

theorem routeAll (c : Conn cfg) (bodies : List Bytes) : Asides c (c.routeAll bodies) := by
  induction bodies generalizing c with
  | nil => exact .refl
  | cons body bodies ih =>
    have hroute : Asides c (c.route body).1 := by
      unfold route
      split
      · exact .refl
      · exact routeResponse c _
    rw [Conn.routeAll]
    split
    · rename_i heq
      rw [heq] at hroute
      exact hroute.tail (.fail _)
    · rename_i heq
      rw [heq] at hroute
      exact hroute.trans (ih _)

theorem onData (c : Conn cfg) (chunk : Bytes) : Asides c (c.onData chunk) := by
  unfold Conn.onData
  split
  · exact .tail (.single (.receive _)) (.fail _)
  · exact .head (.receive _) (routeAll _ _)

end Asides

end Conn

/-- Whether an action starts a send function or lets one run on. -/
def Action.sends : Action → Bool
  | .append _ _ | .stats _ | .read _ _ | .subscribe _ _ | .permit _ | .slot _ => true
  | _ => false

namespace Conn

variable {c c' c'' : Conn cfg} {id : ℤ}

/-- Everything that does not start a send function or let one run on is aside from sending. -/
theorem asides_of_step {a : Action} (ha : a.sends = false) (hstep : c.step a = some c') :
    Asides c c' := by
  cases taken_of_step hstep with
  | append | stats | read | subscribe | permit | slot => cases ha
  | close => exact .tail (.single (.fail _)) .destroy
  | closeStream => exact .endStream c _ _
  | next | collect | collectStep => exact .single (.update _ _)
  | abortStream => exact .head (.update _ _) (Asides.endStream _ _ _)
  | abortUnary => exact .head (.update _ _) (Asides.cancelUnary _ _ _)
  | data chunk => exact .onData c chunk
  | socketError err => exact .tail (.single (.fail _)) .rejectDrain
  | socketClose => exact .tail (.tail (.single (.fail _)) .rejectDrain) .destroy
  | drained => exact .single .drained
  | sendFailed => exact .head (.takeFailed _) (Asides.sendFailed _ _ _)
  | writer outcome => exact .single (.writer outcome)
  | drainResumed outcome => exact .single (.drainResumed outcome)
  | drainRejected => exact .single (.drainRejected _)
  | abortMicrotask => exact .head (.update _ _) (Asides.endStream _ _ _)

/-- A unary request is refused, or entered; then its send function starts, unless its signal has
aborted already and the cancel does not fit a frame. -/
theorem unary_cases (c : Conn cfg) (kind : Outgoing) (expect : Expect) (signal : Signal) :
    Asides c (c.unary kind expect signal) ∨
      ∃ call c₁, Asides (c.register (.unary expect) call) c₁ ∧
        (c.unary kind expect signal = c₁.sendUnaryRequest (c.idCounter + 1) kind ∨
          cfg.maxFrameLen < 24 ∧ c.unary kind expect signal = c₁) := by
  unfold unary
  split_ifs
  · exact .inl (.single (.refuse _))
  refine .inr ⟨.unary .pending (signal = .live), ?_⟩
  cases signal with
  | none | live => exact ⟨_, .refl, .inl rfl⟩
  | aborted reason =>
    have hasides := Asides.cancelUnary (c.register (.unary expect) (.unary .pending
      (decide (Signal.aborted reason = .live)))) (c.idCounter + 1)
      (asError reason "the operation was aborted")
    simp only
    split
    · rename_i thrown heq
      rw [show (c.register _ _).idCounter = c.idCounter + 1 from rfl] at heq
      rw [heq] at hasides
      refine ⟨_, hasides, .inr ⟨Nat.lt_of_not_le fun hmax => ?_, rfl⟩⟩
      -- a cancel that fits does not throw
      have hentry : (c.register (.unary expect) (.unary .pending
          (decide (Signal.aborted reason = .live)))).pending.get? (c.idCounter + 1) =
            some { type := .unary expect, permit := false } := OrdMap.get?_set_self _ _ _
      simp only [cancelUnary, hentry] at heq
      rcases cancel_cases (c.register (.unary expect) (.unary .pending
        (decide (Signal.aborted reason = .live)))) (c.idCounter + 1) with
        ⟨-, hcancel⟩ | ⟨-, err, hunfit, -⟩ | ⟨-, frame, -, hcancel⟩
      · rw [hcancel] at heq
        cases heq
      · obtain ⟨frame, hframe⟩ := exists_cancelFrame hmax (c.idCounter + 1 + 1) (c.idCounter + 1)
        cases hunfit.symm.trans hframe
      · rw [hcancel] at heq
        cases heq
    · rename_i heq
      rw [show (c.register _ _).idCounter = c.idCounter + 1 from rfl] at heq
      rw [heq] at hasides
      exact ⟨_, hasides, .inl rfl⟩

/-! ### The lines -/

/-- Nothing moves towards the wire, and no request is entered. -/
structure Rests (c c' : Conn cfg) : Prop where
  inflight : c'.inflight.line = c.inflight.line
  slots : c'.queueSlots.line = c.queueSlots.line
  pushed : c'.wire.pushedOutbound = c.wire.pushedOutbound
  pending : ∀ id e, c'.pending.get? id = some e → c.pending.get? id = some e

namespace Rests

theorem refl (c : Conn cfg) : Rests c c := ⟨rfl, rfl, rfl, fun _ _ he => he⟩

theorem trans (h : Rests c c') (h' : Rests c' c'') : Rests c c'' where
  inflight := h'.inflight.trans h.inflight
  slots := h'.slots.trans h.slots
  pushed := h'.pushed.trans h.pushed
  pending id e he := h.pending id e (h'.pending id e he)

theorem failConnection (c : Conn cfg) (err : Err) : Rests c (c.failConnection err) := by
  have hpushed := congrArg Wire.pushedOutbound (wire_failConnection c err)
  rcases Bool.eq_false_or_eq_true c.dead with hdead | halive
  · rw [failConnection_of_dead err hdead]
    exact refl c
  · rw [failConnection_of_alive err halive] at hpushed ⊢
    exact ⟨rfl, Semaphore.line_drainWaiters _, hpushed, fun _ _ he => by cases he⟩

theorem runWriter (c : Conn cfg) (outcome : WriteOutcome) : Rests c (c.runWriter outcome) := by
  have hover : Rests c c.handOver :=
    ⟨rfl, rfl, flatMap_log rfl (by simp [Effect.pushedOutbound]), fun _ _ he => he⟩
  have hwrite : Rests c c.write :=
    ⟨rfl, Semaphore.line_releaseN _ _, hover.pushed, fun _ _ he => he⟩
  unfold Conn.runWriter
  split_ifs
  · exact refl c
  · exact ⟨rfl, rfl, rfl, fun _ _ he => he⟩
  · cases outcome with
    | threw reason => exact hover.trans (failConnection c.handOver _)
    | returned ok =>
      cases ok with
      | true => exact hwrite.trans ⟨rfl, rfl, rfl, fun _ _ he => he⟩
      | false => exact hwrite.trans ⟨rfl, rfl, rfl, fun _ _ he => he⟩

theorem aside (h : Aside c c') : Rests c c' := by
  cases h with
  | update | receive | takeFailed | drained | destroy => exact ⟨rfl, rfl, rfl, fun _ _ he => he⟩
  | settle id f =>
    exact ⟨rfl, rfl, congrArg Wire.pushedOutbound (wire_settle c id f), fun _ _ he => he⟩
  | finalize id =>
    cases entry : c.pending.get? id with
    | none => rw [finalize_of_none entry]; exact refl c
    | some e =>
      rw [finalize_of_some entry]
      refine ⟨?_, rfl, rfl, fun id' e' he => (OrdMap.get?_delete_eq_some.1 he).2⟩
      simp only
      split_ifs
      · exact Semaphore.line_release _
      · rfl
  | fail err => exact failConnection c err
  | spend | refuse =>
    exact ⟨rfl, rfl, flatMap_log rfl (by simp [Effect.pushedOutbound]), fun _ _ he => he⟩
  | pushCancel frame =>
    have hpushed := congrArg Wire.pushedOutbound (wire_pushCancel c frame)
    exact ⟨rfl, rfl, hpushed, fun _ _ he => he⟩
  | rejectDrain =>
    unfold Conn.rejectDrain
    split <;> exact ⟨rfl, rfl, rfl, fun _ _ he => he⟩
  | writer outcome =>
    have h := runWriter { c with writerGate := { c.writerGate with resumed := false } } outcome
    exact ⟨h.inflight, h.slots, h.pushed, h.pending⟩
  | drainResumed outcome =>
    have h := runWriter { c with drain := .idle } outcome
    exact ⟨h.inflight, h.slots, h.pushed, h.pending⟩
  | drainRejected err =>
    have h := failConnection { c with drain := .idle } err
    exact ⟨h.inflight, h.slots, h.pushed, h.pending⟩

theorem asides (h : Asides c c') : Rests c c' := by
  induction h with
  | refl => exact refl c
  | tail _ h ih => exact ih.trans (aside h)

end Rests

/-! ### What a step does about sending -/

/-- What a step can do about sending. -/
inductive Sends (c c' : Conn cfg) : Action → Prop
  | rests {a : Action} (rests : Rests c c') : Sends c c' a
  /-- A request is entered, and its send function lines up for a permit. -/
  | enters {a : Action} {s : Sender} (asked : a.outgoing? = some s.outgoing)
      (id_eq : s.id = c.idCounter + 1)
      (inflight : c'.inflight.line = c.inflight.line ++ [s])
      (slots : c'.queueSlots.line = c.queueSlots.line)
      (pushed : c'.wire.pushedOutbound = c.wire.pushedOutbound)
      (pending : ∀ id e, c'.pending.get? id = some e →
        c.pending.get? id = some e ∨ id = s.id ∧ e.permit = false) : Sends c c' a
  /-- A unary request is entered whose signal has aborted, and the cancel does not fit a frame. -/
  | jams {a : Action} (asked : a.outgoing?.isSome = true) (unfit : cfg.maxFrameLen < 24)
      (inflight : c'.inflight.line = c.inflight.line)
      (slots : c'.queueSlots.line = c.queueSlots.line)
      (pushed : c'.wire.pushedOutbound = c.wire.pushedOutbound) : Sends c c' a
  /-- A send function with a permit makes its frame, and the frame lines up for a slot. -/
  | lines {s : Sender} {frame : Frame cfg} {l₁ l₂ : List Sender}
      (requestId : frame.request.requestId = s.id)
      (kind : s.outgoing.kind = .ok frame.request.kind)
      (line : c.inflight.line = l₁ ++ s :: l₂) (inflight : c'.inflight.line = l₁ ++ l₂)
      (turn : (c.inflight.granted.head?.any fun s' => s'.id = s.id) = true → l₁ = [])
      (slots : c'.queueSlots.line = c.queueSlots.line ++ [(s, frame)])
      (pushed : c'.wire.pushedOutbound = c.wire.pushedOutbound) (alive : c'.dead = false)
      (pending : c'.pending = c.pending.modify s.id fun e => { e with permit := true }) :
      Sends c c' (.permit s.id)
  /-- A send function with a permit finds nothing to send, and its request is gone. -/
  | lapses {s : Sender} {l₁ l₂ : List Sender} (line : c.inflight.line = l₁ ++ s :: l₂)
      (inflight : c'.inflight.line = l₁ ++ l₂) (slots : c'.queueSlots.line = c.queueSlots.line)
      (pushed : c'.wire.pushedOutbound = c.wire.pushedOutbound)
      (gone : c'.pending.get? s.id = none)
      (pending : ∀ id e, c'.pending.get? id = some e → c.pending.get? id = some e) :
      Sends c c' (.permit s.id)
  /-- A frame with a slot is pushed. -/
  | pushes {s : Sender} {frame : Frame cfg} {l₁ l₂ : List (Sender × Frame cfg)}
      (line : c.queueSlots.line = l₁ ++ (s, frame) :: l₂) (slots : c'.queueSlots.line = l₁ ++ l₂)
      (turn : (c.queueSlots.granted.head?.any fun p => p.1.id = s.id) = true → l₁ = [])
      (inflight : c'.inflight.line = c.inflight.line)
      (pushed : c'.wire.pushedOutbound = c.wire.pushedOutbound ++ [frame])
      (pending : c'.pending = c.pending) : Sends c c' (.slot s.id)
  /-- A frame with a slot finds the connection dead. -/
  | drops {s : Sender} {frame : Frame cfg} {l₁ l₂ : List (Sender × Frame cfg)}
      (line : c.queueSlots.line = l₁ ++ (s, frame) :: l₂) (slots : c'.queueSlots.line = l₁ ++ l₂)
      (inflight : c'.inflight.line = c.inflight.line)
      (pushed : c'.wire.pushedOutbound = c.wire.pushedOutbound) (dead : c.dead = true)
      (pending : c'.pending = c.pending) : Sends c c' (.slot s.id)

theorem get?_register {type : PendingType} {call : Call} {e : Pending}
    (h : (c.register type call).pending.get? id = some e) :
    c.pending.get? id = some e ∨ id = c.idCounter + 1 ∧ e.permit = false := by
  rw [show (c.register type call).pending.get? id =
    if id = c.idCounter + 1 then some { type := type, permit := false } else c.pending.get? id
      from OrdMap.get?_set _ _ _ _] at h
  split_ifs at h with hid
  · cases h
    exact .inr ⟨hid, rfl⟩
  · exact .inl h

theorem pushed_register (c : Conn cfg) (type : PendingType) (call : Call) :
    (c.register type call).wire.pushedOutbound = c.wire.pushedOutbound :=
  flatMap_log (l := [.issue (c.idCounter + 1)]) rfl (by simp [Effect.pushedOutbound])

/-- A request is entered, and after something that moves nothing its send function starts. -/
theorem Sends.acquire {a : Action} {type : PendingType} {call : Call} {s : Sender}
    (asked : a.outgoing? = some s.outgoing) (h : Rests (c.register type call) c')
    (id_eq : s.id = c.idCounter + 1) : Sends c (c'.acquire s) a := by
  refine .enters asked id_eq ?_ h.slots (h.pushed.trans (pushed_register c _ _)) fun id e he => ?_
  · rw [show (c'.acquire s).inflight = c'.inflight.acquire s from rfl, Semaphore.line_acquire,
      h.inflight]
    rfl
  · rw [id_eq]
    exact get?_register (h.pending id e he)

theorem sends_unary {a : Action} {kind : Outgoing} (asked : a.outgoing? = some kind)
    (expect : Expect) (signal : Signal) : Sends c (c.unary kind expect signal) a := by
  rcases unary_cases c kind expect signal with h | ⟨call, c₁, h, heq | ⟨hunfit, heq⟩⟩
  · exact .rests (.asides h)
  · rw [heq]
    exact .acquire asked (.asides h) rfl
  · rw [heq]
    have hrests := Rests.asides h
    exact .jams (by rw [asked]; rfl) hunfit hrests.inflight hrests.slots
      (hrests.pushed.trans (pushed_register c _ _))

theorem sends_permitGranted {s : Sender} {inflight : Semaphore Sender}
    (resume : c.inflight.resume (fun s' => s'.id = id) = some (s, inflight)) :
    Sends c ({ c with inflight := inflight }.permitGranted s) (.permit id) := by
  have hid : s.id = id := of_decide_eq_true (Semaphore.resume_eq_some resume).1
  obtain ⟨l₁, l₂, hline, hline', hturn⟩ := Semaphore.line_of_resume resume
  subst hid
  unfold permitGranted
  split
  · rename_i entry
    exact .lapses hline ((Semaphore.line_release _).trans hline') rfl rfl entry fun _ _ he => he
  rename_i entry
  -- a send function that fails removes the entry of its request
  have hlapses : ∀ {c₁ : Conn cfg} {err : Err}, c₁.inflight.line = l₁ ++ l₂ →
      c₁.queueSlots = c.queueSlots → c₁.log = c.log →
      (∀ id e, id ≠ s.id → c₁.pending.get? id = some e → c.pending.get? id = some e) →
      Sends c (c₁.sendFailed s err) (.permit s.id) := by
    intro c₁ err hinflight hslots hlog hpending
    have hrests := Rests.asides (.sendFailed c₁ s err)
    have hgone : (c₁.sendFailed s err).pending.get? s.id = none := by
      unfold sendFailed
      split
      · assumption
      · rename_i entry
        rw [finalize_of_some entry]
        split_ifs <;> exact OrdMap.get?_delete_self _ _
    refine .lapses hline (hrests.inflight.trans hinflight) (hrests.slots.trans ?_)
      (hrests.pushed.trans ?_) hgone fun id e he => ?_
    · rw [hslots]
    · rw [wire, wire, hlog]
    · refine hpending id e ?_ (hrests.pending id e he)
      rintro rfl
      cases hgone.symm.trans he
  split_ifs with hdead
  · exact hlapses ((Semaphore.line_release _).trans hline') rfl rfl fun _ _ _ he => he
  · split
    · refine hlapses hline' rfl rfl fun id e hne he => ?_
      rwa [OrdMap.get?_modify_of_ne _ hne] at he
    · rename_i frame hframe
      obtain ⟨kind, hkind, hok⟩ := bind_eq_ok.1 hframe
      exact .lines (by rw [makeFrame_eq_ok hok]) (by rw [makeFrame_eq_ok hok]; exact hkind) hline
        hline' hturn (Semaphore.line_acquire _ _) rfl (Bool.eq_false_iff.2 hdead) rfl

theorem sends_slotGranted {s : Sender} {frame : Frame cfg}
    {queueSlots : Semaphore (Sender × Frame cfg)}
    (resume : c.queueSlots.resume (fun p => p.1.id = id) = some ((s, frame), queueSlots)) :
    Sends c ({ c with queueSlots := queueSlots }.slotGranted s frame) (.slot id) := by
  have hid : s.id = id := of_decide_eq_true (Semaphore.resume_eq_some resume).1
  obtain ⟨l₁, l₂, hline, hline', hturn⟩ := Semaphore.line_of_resume resume
  subst hid
  unfold slotGranted
  split_ifs with hdead
  · exact .drops hline ((Semaphore.line_release _).trans hline') rfl rfl hdead rfl
  · refine .pushes hline hline' hturn rfl ?_ rfl
    simp only [wire, record, List.flatMap_append, List.flatMap_singleton, Effect.pushedOutbound]

/-- Every step does one of these things about sending. -/
theorem sends_of_step {a : Action} (hstep : c.step a = some c') : Sends c c' a := by
  cases hsends : a.sends with
  | false => exact .rests (.asides (asides_of_step hsends hstep))
  | true =>
    cases taken_of_step hstep with
    | append req signal | stats signal => exact sends_unary rfl _ _
    | read req signal | subscribe req signal => exact .acquire rfl (.refl _) rfl
    | permit resume => exact sends_permitGranted resume
    | slot resume => exact sends_slotGranted resume
    | close | closeStream | next | collect | abortStream | abortUnary | data | socketError
    | socketClose | drained | sendFailed | writer | drainResumed | drainRejected | abortMicrotask
    | collectStep => cases hsends

end Conn

end

end Tephra
