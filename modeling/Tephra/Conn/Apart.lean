import Tephra.Conn.Isolation

/-!
# Steps that leave a read alone

`Apart r c c'` says that nothing relevant for read `r` changed between two connections.  Every step
that is not about `r`, delivers no data and does not fail the connection is such a change
(`apart_of_step`).
-/

namespace Tephra

open Lib

section

variable [TextCodec] {cfg : Config}

/-- The request of a send function fits a frame. -/
def Sender.Sendable (cfg : Config) (s : Sender) : Prop :=
  ∃ frame, (s.outgoing.kind >>= fun kind =>
    makeFrame cfg { requestId := s.id, kind := kind }) = .ok frame

/-- Steps by which a connection fails, other than by what it receives. -/
def Action.fails : Action → Bool
  | .close | .socketError _ | .socketClose | .drainRejected | .writer (.threw _)
  | .drainResumed (.threw _) => true
  | _ => false

/-- Steps that close or abort stream `r`, and steps of consumers of it other than `collect()`. -/
def Action.disturbs (r : ℤ) : Action → Bool
  | .closeStream id | .abort id _ | .abortMicrotask id | .next id => id = r
  | _ => false

/-- Steps of the `collect()` of read `r`. -/
def Action.collects (r : ℤ) : Action → Bool
  | .collect id | .collectStep id => id = r
  | _ => false

namespace Conn

variable {c c' c'' : Conn cfg} {r id : ℤ}

/-- Nothing relevant for read `r` changes. -/
structure Apart (r : ℤ) (c c' : Conn cfg) : Prop where
  call : c'.calls.get? r = c.calls.get? r
  type : (c'.pending.get? r).map Pending.type = (c.pending.get? r).map Pending.type
  dead : c'.dead = c.dead
  senders : ∀ s ∈ c'.inflight.users, s.id = r → s ∈ c.inflight.users

namespace Apart

theorem of_eq (hcalls : c'.calls = c.calls) (hpending : c'.pending = c.pending)
    (hdead : c'.dead = c.dead) (hinflight : c'.inflight = c.inflight) : Apart r c c' where
  call := by rw [hcalls]
  type := by rw [hpending]
  dead := hdead
  senders _ hs _ := hinflight ▸ hs

theorem refl (c : Conn cfg) : Apart r c c := .of_eq rfl rfl rfl rfl

theorem trans (h : Apart r c c') (h' : Apart r c' c'') : Apart r c c'' where
  call := h'.call.trans h.call
  type := h'.type.trans h.type
  dead := h'.dead.trans h.dead
  senders s hs hid := h.senders s (h'.senders s hs hid) hid

theorem update (c : Conn cfg) (hne : r ≠ id) (f : Call → Call) : Apart r c (c.update id f) where
  call := OrdMap.get?_modify_of_ne f hne
  type := rfl
  dead := rfl
  senders _ hs _ := hs

theorem finalize (c : Conn cfg) (hne : r ≠ id) : Apart r c (c.finalize id) := by
  cases entry : c.pending.get? id with
  | none => rw [finalize_of_none entry]; exact refl c
  | some e =>
    rw [finalize_of_some entry]
    refine ⟨rfl, congrArg _ (OrdMap.get?_delete_of_ne hne), rfl, fun s hs _ => ?_⟩
    simp only at hs
    split_ifs at hs
    · exact Semaphore.mem_users_release.1 hs
    · exact hs

theorem settle (c : Conn cfg) (hne : r ≠ id) (f : Call → Call) : Apart r c (c.settle id f) :=
  (update c hne f).trans (.of_eq rfl rfl rfl rfl)

theorem register (hr : r ≤ c.idCounter) (type : PendingType) (call : Call) :
    Apart r c (c.register type call) := by
  have hne : r ≠ c.idCounter + 1 := by omega
  exact ⟨OrdMap.get?_set_of_ne _ hne, congrArg _ (OrdMap.get?_set_of_ne _ hne), rfl,
    fun _ hs _ => hs⟩

theorem acquire (c : Conn cfg) {s : Sender} (hne : s.id ≠ r) : Apart r c (c.acquire s) where
  call := rfl
  type := rfl
  dead := rfl
  senders s' hs hid := by
    rcases Semaphore.mem_users_acquire.1 hs with rfl | hs
    · exact absurd hid hne
    · exact hs

theorem cancel (c : Conn cfg) (hne : r ≠ id) : Apart r c (c.cancel id).1 := by
  rcases cancel_cases c id with ⟨-, heq⟩ | ⟨-, err, -, heq⟩ | ⟨-, frame, -, heq⟩
  · rw [heq]; exact finalize c hne
  · rw [heq]; exact .of_eq rfl rfl rfl rfl
  · rw [heq]
    have hpush : Apart r c (c.pushCancel frame) := .of_eq rfl rfl rfl rfl
    exact hpush.trans (finalize _ hne)

theorem cancelUnary (c : Conn cfg) (hne : r ≠ id) (err : Err) :
    Apart r c (c.cancelUnary id err).1 := by
  have hcancel := cancel c hne
  unfold Conn.cancelUnary
  split
  · exact refl c
  · split
    · rename_i heq; rw [heq] at hcancel; exact hcancel
    · rename_i heq
      rw [heq] at hcancel
      split
      · exact hcancel.trans (settle _ hne _)
      · exact hcancel

theorem endStream (c : Conn cfg) (hne : r ≠ id) (ending : ∀ {α : Type}, Sink α → Sink α) :
    Apart r c (c.endStream id ending) := by
  unfold Conn.endStream
  split
  · exact refl c
  · split_ifs
    · exact refl c
    · have hmark := update c hne (Call.mapBase BaseStream.markClosed)
      have hcancel :
          Apart r c ((c.update id (Call.mapBase BaseStream.markClosed)).cancelStream id).1 := by
        unfold cancelStream
        split_ifs
        · exact hmark
        · exact hmark.trans (cancel _ hne)
      split
      · rename_i heq; rw [heq] at hcancel; exact hcancel
      · rename_i heq; rw [heq] at hcancel; exact hcancel.trans (settle _ hne _)

theorem unary (hr : r ≤ c.idCounter) (kind : Outgoing) (expect : Expect) (signal : Signal) :
    Apart r c (c.unary kind expect signal) := by
  have hne : r ≠ c.idCounter + 1 := by omega
  unfold Conn.unary
  split_ifs
  · exact .of_eq rfl rfl rfl rfl
  · have hregister := register hr (.unary expect) (.unary .pending (decide (signal = .live)))
    have hsend : ∀ {c₁ : Conn cfg}, Apart r c c₁ →
        Apart r c (c₁.sendUnaryRequest (c.idCounter + 1) kind) := fun h =>
      h.trans (acquire _ (Ne.symm hne))
    cases signal with
    | none | live => exact hsend hregister
    | aborted reason =>
      have hcancel :=
        hregister.trans (cancelUnary _ hne (asError reason "the operation was aborted"))
      simp only
      split
      · rename_i heq
        rw [show (c.register _ _).idCounter = c.idCounter + 1 from rfl] at heq
        rw [heq] at hcancel
        exact hcancel
      · rename_i heq
        rw [show (c.register _ _).idCounter = c.idCounter + 1 from rfl] at heq
        rw [heq] at hcancel
        exact hsend hcancel

theorem sendFailed (c : Conn cfg) {s : Sender} (hne : r ≠ s.id) (err : Err) :
    Apart r c (c.sendFailed s err) := by
  unfold Conn.sendFailed
  split
  · exact refl c
  · split_ifs
    · exact (finalize c hne).trans (settle _ hne _)
    · exact finalize c hne

/-- A permit that is granted, for another request or for one that can be sent. -/
theorem permitGranted {s : Sender} {p : Sender → Bool} {inflight : Semaphore Sender}
    (halive : c.dead = false) (resume : c.inflight.resume p = some (s, inflight))
    (hsend : s.id = r → s.Sendable cfg) :
    Apart r c ({ c with inflight := inflight }.permitGranted s) := by
  have hsub : ∀ s' ∈ inflight.users, s' ∈ c.inflight.users := fun s' hs' =>
    (Semaphore.users_of_resume resume).mem_iff.2 (List.mem_cons_of_mem _ hs')
  unfold Conn.permitGranted
  simp only
  cases entry : c.pending.get? s.id with
  | none => exact ⟨rfl, rfl, rfl, fun s' hs' _ => hsub s' (Semaphore.mem_users_release.1 hs')⟩
  | some e =>
    simp only [if_neg (Bool.eq_false_iff.1 halive)]
    have hkeep : Apart r c { c with
        inflight := inflight
        pending := c.pending.modify s.id fun entry => { entry with permit := true } } := by
      refine ⟨rfl, ?_, rfl, fun s' hs' _ => hsub s' hs'⟩
      simp only [OrdMap.get?_modify]
      split_ifs
      · cases c.pending.get? r <;> rfl
      · rfl
    split
    · rename_i err heq
      have hne : r ≠ s.id := fun hid => by
        obtain ⟨frame, hframe⟩ := hsend hid.symm
        cases hframe.symm.trans heq
      exact hkeep.trans (sendFailed _ hne err)
    · exact hkeep.trans (.of_eq rfl rfl rfl rfl)

theorem runWriter (c : Conn cfg) (ok : Bool) : Apart r c (c.runWriter (.returned ok)) := by
  unfold Conn.runWriter
  split_ifs
  · exact refl c
  · exact .of_eq rfl rfl rfl rfl
  · cases ok <;> exact .of_eq rfl rfl rfl rfl

end Apart

/-- While a connection is alive, no request was dropped between its permit and the outbound queue.
-/
def NoFailedSends (c : Conn cfg) : Prop := c.dead = false → c.failedSends = []

theorem NoFailedSends.move {g : Guard} (h : NoFailedSends c) (hm : Move g c c') :
    NoFailedSends c' := by
  have hsettle : ∀ {c₁ : Conn cfg} {id : ℤ} {f : Call → Call}, NoFailedSends c₁ →
      NoFailedSends ((c₁.finalize id).settle id f) := fun {c₁ id f} h => by
    obtain ⟨_, _, hfinal⟩ := c₁.exists_finalize id
    rw [hfinal]
    exact h
  have hdeath : ∀ (c₁ : Conn cfg) err, NoFailedSends (c₁.failConnection err) := fun c₁ err halive =>
    absurd (halive.symm.trans (dead_failConnection c₁ err)) Bool.noConfusion
  cases hm with
  | @cancel id e frame =>
    have hpush : NoFailedSends (c.pushCancel frame) := h
    exact hsettle hpush
  | settle => exact hsettle h
  | @failPermit s e p inflight =>
    have hrelease : NoFailedSends { c with inflight := inflight.release } := h
    exact hsettle hrelease
  | slotDrop dead => exact fun halive => absurd (halive.symm.trans dead) Bool.noConfusion
  | takeFailed sublist =>
    intro halive
    rw [h halive] at sublist
    exact List.sublist_nil.1 sublist
  | throw => exact hdeath _ _
  | die => exact hdeath _ _
  | register | acquire | openStream | deliver | consume | dropPermit | keepPermit | enqueue
  | slotPush | write | gate | drain | destroy | refuse | spend | jam => exact h

/-- A step that is not about read `r`, delivers no data and does not fail the connection. -/
theorem apart_of_step {a : Action} (halive : c.dead = false) (hfailed : NoFailedSends c)
    (hr : r ≤ c.idCounter) (hsend : ∀ s ∈ c.inflight.users, s.id = r → s.Sendable cfg)
    (hdata : a.chunk? = none) (hfails : a.fails = false) (hdisturbs : a.disturbs r = false)
    (hcollects : a.collects r = false) (hstep : c.step a = some c') : Apart r c c' := by
  have hid : ∀ {id : ℤ}, decide (id = r) = false → r ≠ id := fun h =>
    Ne.symm (of_decide_eq_false h)
  cases taken_of_step hstep with
  | append req signal | stats signal => exact .unary hr _ _ _
  | read req signal | subscribe req signal =>
    have hne : c.idCounter + 1 ≠ r := by omega
    exact (Apart.register hr _ _).trans (.acquire _ hne)
  | close | socketError err | socketClose | drainRejected => cases hfails
  | data chunk => cases hdata
  | closeStream => exact .endStream c (hid hdisturbs) _
  | next => exact .update c (hid hdisturbs) _
  | collect => exact .update c (hid hcollects) _
  | abortStream => exact (Apart.update c (hid hdisturbs) _).trans (.endStream _ (hid hdisturbs) _)
  | abortUnary => exact (Apart.update c (hid hdisturbs) _).trans (.cancelUnary _ (hid hdisturbs) _)
  | drained => exact .of_eq rfl rfl rfl rfl
  -- a sender may be that of the read, which can be sent
  | @permit id s inflight hresume =>
    refine .permitGranted halive hresume (hsend s ?_)
    exact (Semaphore.users_of_resume hresume).mem_iff.2 List.mem_cons_self
  | slot =>
    simp only [slotGranted, if_neg (Bool.eq_false_iff.1 halive)]
    exact .of_eq rfl rfl rfl rfl
  -- no send has failed
  | sendFailed hfound =>
    rw [hfailed halive, List.find?_nil] at hfound
    cases hfound
  | writer outcome =>
    cases outcome with
    | threw reason => cases hfails
    | returned ok =>
      have hgate : Apart r c { c with writerGate := { c.writerGate with resumed := false } } :=
        .of_eq rfl rfl rfl rfl
      exact hgate.trans (.runWriter _ ok)
  | drainResumed outcome =>
    cases outcome with
    | threw reason => cases hfails
    | returned ok =>
      have hdrain : Apart r c { c with drain := .idle } := .of_eq rfl rfl rfl rfl
      exact hdrain.trans (.runWriter _ ok)
  | abortMicrotask =>
    exact (Apart.update c (hid hdisturbs) _).trans (.endStream _ (hid hdisturbs) _)
  | collectStep => exact .update c (hid hcollects) _

end Conn

end

end Tephra
