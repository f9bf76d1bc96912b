import Tephra.Conn.Log
import Tephra.Conn.Isolation

/-!
# What a frame carries

The arguments of a call are encoded only once its send function has a permit, and the frame may wait
for a slot after that.  On the way they do not change:

* `Still t c c'` : nothing for request `t` moves towards the wire.
* `Carries c t kind` : whatever is on its way for request `t`, or was pushed for it, asks for
  `kind`.
* `carries_unary`, `carries_stream` : at first it asks for what the request was made with.
* `carries_of_run` : this stays so.
-/

namespace Tephra

open Lib

section

variable [TextCodec] {cfg : Config}

namespace Conn

variable {c c' c'' : Conn cfg} {t id : ℤ}

/-- Nothing for request `t` moves towards the wire. -/
structure Still (t : ℤ) (c c' : Conn cfg) : Prop where
  senders : ∀ s ∈ c'.inflight.users, s.id = t → s ∈ c.inflight.users
  slots : ∀ p ∈ c'.queueSlots.users, p ∈ c.queueSlots.users
  pushed : c'.wire.pushedOutbound = c.wire.pushedOutbound

namespace Still

theorem of_eq (hinflight : c'.inflight = c.inflight) (hslots : c'.queueSlots = c.queueSlots)
    (hpushed : c'.wire.pushedOutbound = c.wire.pushedOutbound) : Still t c c' where
  senders _ hs _ := hinflight ▸ hs
  slots _ hp := hslots ▸ hp
  pushed := hpushed

theorem refl (c : Conn cfg) : Still t c c := .of_eq rfl rfl rfl

theorem trans (h : Still t c c') (h' : Still t c' c'') : Still t c c'' where
  senders s hs hid := h.senders s (h'.senders s hs hid) hid
  slots p hp := h.slots p (h'.slots p hp)
  pushed := h'.pushed.trans h.pushed

theorem of_log {l : List (Effect cfg)} (hinflight : c'.inflight = c.inflight)
    (hslots : c'.queueSlots = c.queueSlots) (hlog : c'.log = c.log ++ l)
    (hl : ∀ effect ∈ l, effect.pushedOutbound = []) : Still t c c' :=
  .of_eq hinflight hslots (flatMap_log hlog hl)

theorem update (c : Conn cfg) (id : ℤ) (f : Call → Call) : Still t c (c.update id f) :=
  .of_eq rfl rfl rfl

theorem settle (c : Conn cfg) (id : ℤ) (f : Call → Call) : Still t c (c.settle id f) :=
  .of_log (l := [.settle id]) rfl rfl rfl (by simp [Effect.pushedOutbound])

theorem release (c : Conn cfg) : Still t c c.release where
  senders _ hs _ := Semaphore.mem_users_release.1 hs
  slots _ hp := hp
  pushed := rfl

theorem finalize (c : Conn cfg) (id : ℤ) : Still t c (c.finalize id) := by
  cases entry : c.pending.get? id with
  | none => rw [finalize_of_none entry]; exact refl c
  | some e =>
    rw [finalize_of_some entry]
    refine ⟨fun s hs _ => ?_, fun _ hp => hp, rfl⟩
    simp only at hs
    split_ifs at hs
    · exact Semaphore.mem_users_release.1 hs
    · exact hs

theorem failConnection (c : Conn cfg) (err : Err) : Still t c (c.failConnection err) := by
  have hpushed := congrArg Wire.pushedOutbound (wire_failConnection c err)
  rcases Bool.eq_false_or_eq_true c.dead with hdead | halive
  · rw [failConnection_of_dead err hdead]
    exact refl c
  · rw [failConnection_of_alive err halive] at hpushed ⊢
    exact ⟨fun _ hs _ => hs, fun _ hp => Semaphore.mem_users_drainWaiters.1 hp, hpushed⟩

theorem register (c : Conn cfg) (type : PendingType) (call : Call) :
    Still t c (c.register type call) :=
  .of_log (l := [.issue (c.idCounter + 1)]) rfl rfl rfl (by simp [Effect.pushedOutbound])

theorem acquire (c : Conn cfg) {s : Sender} (hne : s.id ≠ t) : Still t c (c.acquire s) where
  senders s' hs hid := by
    rcases Semaphore.mem_users_acquire.1 hs with rfl | hs
    · exact absurd hid hne
    · exact hs
  slots _ hp := hp
  pushed := rfl

theorem cancel (c : Conn cfg) (id : ℤ) : Still t c (c.cancel id).1 := by
  rcases cancel_cases c id with ⟨-, heq⟩ | ⟨-, err, -, heq⟩ | ⟨-, frame, -, heq⟩
  · rw [heq]
    exact finalize c id
  · rw [heq]
    exact .of_log (l := [.issue (c.idCounter + 1)]) rfl rfl rfl (by simp [Effect.pushedOutbound])
  · rw [heq]
    have hpush : Still t c (c.pushCancel frame) :=
      .of_log (l := [.issue (c.idCounter + 1), .priority frame]) rfl rfl (List.append_assoc _ _ _)
        (by simp [Effect.pushedOutbound])
    exact hpush.trans (finalize _ id)

theorem cancelUnary (c : Conn cfg) (id : ℤ) (err : Err) : Still t c (c.cancelUnary id err).1 := by
  have hcancel := cancel (t := t) c id
  unfold Conn.cancelUnary
  split
  · exact refl c
  · split
    · rename_i heq
      rw [heq] at hcancel
      exact hcancel
    · rename_i heq
      rw [heq] at hcancel
      split
      · exact hcancel.trans (settle _ id _)
      · exact hcancel

theorem endStream (c : Conn cfg) (id : ℤ) (ending : ∀ {α : Type}, Sink α → Sink α) :
    Still t c (c.endStream id ending) := by
  unfold Conn.endStream
  split
  · exact refl c
  · split_ifs
    · exact refl c
    · have hmark := update (t := t) c id (Call.mapBase BaseStream.markClosed)
      have hcancel :
          Still t c ((c.update id (Call.mapBase BaseStream.markClosed)).cancelStream id).1 := by
        unfold cancelStream
        split_ifs
        · exact hmark
        · exact hmark.trans (cancel _ id)
      split
      · rename_i heq
        rw [heq] at hcancel
        exact hcancel
      · rename_i heq
        rw [heq] at hcancel
        exact hcancel.trans (settle _ id _)

theorem abortStream (c : Conn cfg) (id : ℤ) (err : Err) : Still t c (c.abortStream id err).1 := by
  have hcancel : Still t c (if c.pending.has id then c.cancel id else (c, none)).1 := by
    split_ifs
    · exact cancel c id
    · exact refl c
  unfold Conn.abortStream
  split
  · rename_i heq
    rw [heq] at hcancel
    exact hcancel
  · rename_i heq
    rw [heq] at hcancel
    exact hcancel.trans (settle _ id _)

theorem sendFailed (c : Conn cfg) (s : Sender) (err : Err) : Still t c (c.sendFailed s err) := by
  unfold Conn.sendFailed
  split
  · exact refl c
  · split_ifs
    · exact (finalize c s.id).trans (settle _ s.id _)
    · exact finalize c s.id

theorem unary (hne : c.idCounter + 1 ≠ t) (kind : Outgoing) (expect : Expect) (signal : Signal) :
    Still t c (c.unary kind expect signal) := by
  unfold Conn.unary
  split_ifs
  · exact .of_log (l := [.refuse c.deadError]) rfl rfl rfl (by simp [Effect.pushedOutbound])
  · have hregister := register (t := t) c (.unary expect)
      (.unary .pending (decide (signal = .live)))
    have hsend : ∀ {c₁ : Conn cfg}, Still t c c₁ →
        Still t c (c₁.sendUnaryRequest (c.idCounter + 1) kind) := fun h =>
      h.trans (acquire _ hne)
    cases signal with
    | none | live => exact hsend hregister
    | aborted reason =>
      have hcancel := hregister.trans
        (cancelUnary _ (c.idCounter + 1) (asError reason "the operation was aborted"))
      simp only
      split
      · rename_i heq
        rw [show (c.register _ _).idCounter = c.idCounter + 1 from rfl] at heq
        rw [heq] at hcancel
        exact hcancel
      · rename_i heq
        rw [show (c.register _ _).idCounter = c.idCounter + 1 from rfl] at heq
        rw [heq] at hcancel
        exact hsend hcancel

theorem routeResponse (c : Conn cfg) (response : WireResponse) :
    Still t c (c.routeResponse response).1 := by
  have hroutes := routes_routeResponse c response
  generalize c.routeResponse response = r at hroutes ⊢
  cases hroutes with
  | unattributed => exact failConnection c _
  | ignored | gone => exact refl c
  | settle => exact (finalize c _).trans (settle _ _ _)
  | deliver => exact update c _ _
  | violate => exact abortStream c _ _

theorem routeAll (c : Conn cfg) (bodies : List Bytes) : Still t c (c.routeAll bodies) := by
  induction bodies generalizing c with
  | nil => exact refl c
  | cons body bodies ih =>
    have hroute : Still t c (c.route body).1 := by
      unfold route
      split
      · exact refl c
      · exact routeResponse c _
    rw [Conn.routeAll]
    split
    · rename_i heq
      rw [heq] at hroute
      exact hroute.trans (failConnection _ _)
    · rename_i heq
      rw [heq] at hroute
      exact hroute.trans (ih _)

theorem runWriter (c : Conn cfg) (outcome : WriteOutcome) : Still t c (c.runWriter outcome) := by
  have hover : Still t c c.handOver :=
    .of_log (l := [.write (c.priority ++ c.outbound) (concatFrames (c.priority ++ c.outbound))])
      rfl rfl rfl (by simp [Effect.pushedOutbound])
  have hwrite : Still t c c.write := ⟨hover.senders, fun p hp =>
    Semaphore.mem_users_releaseN.1 hp, hover.pushed⟩
  unfold Conn.runWriter
  split_ifs
  · exact refl c
  · exact .of_eq rfl rfl rfl
  · cases outcome with
    | threw reason => exact hover.trans (failConnection c.handOver _)
    | returned ok =>
      cases ok with
      | true => exact hwrite.trans (.of_eq rfl rfl rfl)
      | false => exact hwrite.trans (.of_eq rfl rfl rfl)

theorem rejectDrain (c : Conn cfg) : Still t c c.rejectDrain := by
  unfold Conn.rejectDrain
  split
  · exact .of_eq rfl rfl rfl
  · exact refl c

end Still

/-- Only a permit, a slot or its own call moves a request towards the wire. -/
theorem still_of_step {a : Action} (ht : t ≤ c.idCounter) (hpermit : ∀ id, a ≠ .permit id)
    (hslot : ∀ id, a ≠ .slot id) (hstep : c.step a = some c') : Still t c c' := by
  -- a request that is made now has a new id
  have hne : c.idCounter + 1 ≠ t := by omega
  cases taken_of_step hstep with
  | append req signal | stats signal => exact .unary hne _ _ _
  | read req signal | subscribe req signal =>
    exact (Still.register c _ _).trans (.acquire _ hne)
  | close => exact (Still.failConnection c _).trans (.of_eq rfl rfl rfl)
  | closeStream => exact .endStream c _ _
  | next | collect | collectStep => exact .update c _ _
  | abortStream => exact (Still.update c _ _).trans (.endStream _ _ _)
  | abortUnary => exact (Still.update c _ _).trans (.cancelUnary _ _ _)
  | data chunk =>
    have hdecoder : ∀ decoder, Still t c { c with decoder := decoder } :=
      fun _ => .of_eq rfl rfl rfl
    unfold onData
    split
    · exact (hdecoder _).trans (.failConnection _ _)
    · exact (hdecoder _).trans (.routeAll _ _)
  | socketError err => exact (Still.failConnection c _).trans (.rejectDrain _)
  | socketClose =>
    exact ((Still.failConnection c _).trans (.rejectDrain _)).trans (.of_eq rfl rfl rfl)
  | drained => exact .of_eq rfl rfl rfl
  | @permit id => exact absurd rfl (hpermit id)
  | @slot id => exact absurd rfl (hslot id)
  | @sendFailed id s err =>
    have htake : Still t c { c with failedSends := c.failedSends.eraseP fun p => p.1.id = id } :=
      .of_eq rfl rfl rfl
    exact htake.trans (.sendFailed _ s err)
  | writer outcome =>
    have hgate : Still t c { c with writerGate := { c.writerGate with resumed := false } } :=
      .of_eq rfl rfl rfl
    exact hgate.trans (.runWriter _ outcome)
  | drainResumed outcome =>
    have hdrain : Still t c { c with drain := .idle } := .of_eq rfl rfl rfl
    exact hdrain.trans (.runWriter _ outcome)
  | drainRejected =>
    have hdrain : Still t c { c with drain := .idle } := .of_eq rfl rfl rfl
    exact hdrain.trans (.failConnection _ _)
  | abortMicrotask => exact (Still.update c _ _).trans (.endStream _ _ _)

/-! ### What is on its way -/

/-- Whatever is on its way for request `t`, or was ever pushed for it, asks for `kind`. -/
structure Carries (c : Conn cfg) (t : ℤ) (kind : RequestKind) : Prop where
  le : t ≤ c.idCounter
  senders : ∀ s ∈ c.inflight.users, s.id = t → s.outgoing.kind = .ok kind
  slots : ∀ p ∈ c.queueSlots.users, p.2.request.requestId = t → p.2.request.kind = kind
  pushed : ∀ f ∈ c.wire.pushedOutbound, f.request.requestId = t → f.request.kind = kind

variable {kind : RequestKind}

theorem Carries.still (h : Carries c t kind) (hstill : Still t c c') (hle : t ≤ c'.idCounter) :
    Carries c' t kind where
  le := hle
  senders s hs hid := h.senders s (hstill.senders s hs hid) hid
  slots p hp := h.slots p (hstill.slots p hp)
  pushed f hf := h.pushed f (hstill.pushed ▸ hf)

theorem Carries.permitGranted (h : Carries c t kind) {s : Sender} {p : Sender → Bool}
    {inflight : Semaphore Sender} (resume : c.inflight.resume p = some (s, inflight)) :
    Carries ({ c with inflight := inflight }.permitGranted s) t kind := by
  have hs : s ∈ c.inflight.users :=
    (Semaphore.users_of_resume resume).mem_iff.2 List.mem_cons_self
  have hsub : ∀ s' ∈ inflight.users, s' ∈ c.inflight.users := fun s' hs' =>
    (Semaphore.users_of_resume resume).mem_iff.2 (List.mem_cons_of_mem _ hs')
  have hresume : Still t c { c with inflight := inflight } :=
    ⟨fun s' hs' _ => hsub s' hs', fun _ hp => hp, rfl⟩
  have hsendFailed : ∀ {c₁ : Conn cfg} {err : Err}, Still t c c₁ → c₁.idCounter = c.idCounter →
      Carries (c₁.sendFailed s err) t kind := fun {c₁ err} hstill hcounter => by
    refine h.still (hstill.trans (.sendFailed c₁ s err)) ?_
    have hfailed : (c₁.sendFailed s err).idCounter = c₁.idCounter := by
      obtain ⟨_, _, hfinal⟩ := c₁.exists_finalize s.id
      unfold sendFailed
      split
      · rfl
      · rw [hfinal]
        split_ifs <;> rfl
    rw [hfailed, hcounter]
    exact h.le
  unfold Conn.permitGranted
  split
  · exact h.still (hresume.trans (.release _)) h.le
  · split_ifs
    · exact hsendFailed (hresume.trans (.release _)) rfl
    · split
      · exact hsendFailed (hresume.trans (.of_eq rfl rfl rfl)) rfl
      · rename_i frame hframe
        obtain ⟨kind', hkind, hok⟩ := bind_eq_ok.1 hframe
        refine ⟨h.le, fun s' hs' => h.senders s' (hsub s' hs'), fun q hq hid => ?_, h.pushed⟩
        rcases Semaphore.mem_users_acquire.1 hq with rfl | hq
        · rw [makeFrame_eq_ok hok] at hid ⊢
          have hsender := h.senders s hs hid
          rw [hkind] at hsender
          exact Except.ok.inj hsender
        · exact h.slots q hq hid

theorem Carries.slotGranted (h : Carries c t kind) {s : Sender} {frame : Frame cfg}
    {p : Sender × Frame cfg → Bool} {queueSlots : Semaphore (Sender × Frame cfg)}
    (resume : c.queueSlots.resume p = some ((s, frame), queueSlots)) :
    Carries ({ c with queueSlots := queueSlots }.slotGranted s frame) t kind := by
  have hframe : (s, frame) ∈ c.queueSlots.users :=
    (Semaphore.users_of_resume resume).mem_iff.2 List.mem_cons_self
  have hsub : ∀ q ∈ queueSlots.users, q ∈ c.queueSlots.users := fun q hq =>
    (Semaphore.users_of_resume resume).mem_iff.2 (List.mem_cons_of_mem _ hq)
  unfold Conn.slotGranted
  split_ifs
  · exact ⟨h.le, h.senders, fun q hq => h.slots q (hsub q (Semaphore.mem_users_release.1 hq)),
      h.pushed⟩
  · refine ⟨h.le, h.senders, fun q hq => h.slots q (hsub q hq), fun f hf hid => ?_⟩
    simp only [wire, record, List.flatMap_append, List.flatMap_singleton, Effect.pushedOutbound,
      List.mem_append, List.mem_singleton] at hf
    rcases hf with hf | rfl
    · exact h.pushed f hf hid
    · exact h.slots _ hframe hid

theorem idCounter_le_of_step {a : Action} (hc : Consistent c) (hstep : c.step a = some c') :
    c.idCounter ≤ c'.idCounter := by
  have hreceive : (c.receive a).idCounter = c.idCounter := by cases a <;> rfl
  refine keeps_of_moves (I := fun c' => c.idCounter ≤ c'.idCounter)
    (moves_of_step hc (.all c a) hstep) (hc.receive a) hreceive.ge ?_
  intro c₁ c₂ _ hle hm
  rcases issued_of_move hm with ⟨heq, -⟩ | ⟨heq, -⟩ <;> omega

theorem Carries.step {a : Action} (hc : Consistent c) (h : Carries c t kind)
    (hstep : c.step a = some c') : Carries c' t kind := by
  have hle : t ≤ c'.idCounter := h.le.trans (idCounter_le_of_step hc hstep)
  by_cases hpermit : ∃ id, a = .permit id
  -- the two steps that move a request on
  · obtain ⟨id, rfl⟩ := hpermit
    obtain ⟨⟨s, inflight⟩, hresume, rfl⟩ := Option.map_eq_some_iff.1 hstep
    exact h.permitGranted hresume
  by_cases hslot : ∃ id, a = .slot id
  · obtain ⟨id, rfl⟩ := hslot
    obtain ⟨⟨⟨s, frame⟩, queueSlots⟩, hresume, rfl⟩ := Option.map_eq_some_iff.1 hstep
    exact h.slotGranted hresume
  have hstill := still_of_step h.le (fun id heq => hpermit ⟨id, heq⟩)
    (fun id heq => hslot ⟨id, heq⟩) hstep
  exact h.still hstill hle

/-- What is on its way for a request stays what it is. -/
theorem carries_of_run {ok : Conn cfg → Action → Prop} {as : List Action} (hc : Consistent c)
    (h : Carries c t kind) (hrun : (connection cfg).RunWith ok c as c') : Carries c' t kind :=
  (hrun.invariant (I := fun c => Consistent c ∧ Carries c t kind) ⟨hc, h⟩
    fun _ _ _ hi _ hstep => ⟨hi.1.step hstep, hi.2.step hi.1 hstep⟩).2

/-! ### Where it starts -/

theorem pushed_le_of_run {ok : Conn cfg → Action → Prop} {as : List Action}
    (h : (connection cfg).RunWith ok (init cfg) as c) :
    ∀ f ∈ c.wire.pushedOutbound, f.request.requestId ≤ c.idCounter := by
  refine invariant_of_run (allowed_of_run h.run)
    (I := fun c => ∀ f ∈ c.wire.pushedOutbound, f.request.requestId ≤ c.idCounter)
    (fun f hf => by cases hf) (fun c a hi => by cases a <;> exact hi) ?_
  intro c₁ c₂ hc hi hm
  have hle : c₁.idCounter ≤ c₂.idCounter := by
    rcases issued_of_move hm with ⟨heq, -⟩ | ⟨heq, -⟩ <;> omega
  have hold : ∀ f ∈ c₁.wire.pushedOutbound, f.request.requestId ≤ c₂.idCounter := fun f hf =>
    (hi f hf).trans hle
  cases wire_of_move hm with
  | same wire => exact wire ▸ hold
  | write alive wire => rw [wire]; exact hold
  | priority alive entry gone request counter slots parked wire => rw [wire]; exact hold
  | @outbound s frame alive slot wire =>
    rw [wire]
    -- the frame was parked, under an id that was issued
    intro f hf
    rcases List.mem_append.1 hf with hf | hf
    · exact hold f hf
    · rw [List.mem_singleton.1 hf]
      exact (hc.parked_le _ (parked_iff.2 (.inl ⟨_, slot, rfl⟩))).trans hle

theorem carries_of_still {ok : Conn cfg → Action → Prop} {as : List Action}
    (h : (connection cfg).RunWith ok (init cfg) as c) (hstill : Still (c.idCounter + 1) c c')
    (hle : c.idCounter + 1 ≤ c'.idCounter) : Carries c' (c.idCounter + 1) kind := by
  have hc := consistent_of_run h
  refine ⟨hle, fun s hs hid => ?_, fun p hp hid => ?_, fun f hf hid => ?_⟩
  -- senders, parked frames and pushed frames have ids up to the counter
  · have := hc.senders_le s (hstill.senders s hs hid)
    omega
  · have := hc.parked_le _ (parked_iff.2 (.inl ⟨p, hstill.slots p hp, hid⟩))
    omega
  · rw [hstill.pushed] at hf
    have := pushed_le_of_run h f hf
    omega

theorem Carries.acquire (h : Carries c t kind) {s : Sender} (hkind : s.outgoing.kind = .ok kind) :
    Carries (c.acquire s) t kind where
  le := h.le
  senders s' hs' hid := by
    rcases Semaphore.mem_users_acquire.1 hs' with rfl | hs'
    · exact hkind
    · exact h.senders s' hs' hid
  slots := h.slots
  pushed := h.pushed

theorem idCounter_le_cancelUnary (c : Conn cfg) (id : ℤ) (err : Err) :
    c.idCounter ≤ (c.cancelUnary id err).1.idCounter := by
  have hfinalize : ∀ c₁ : Conn cfg, (c₁.finalize id).idCounter = c₁.idCounter := fun c₁ => by
    obtain ⟨_, _, hfinal⟩ := c₁.exists_finalize id
    rw [hfinal]
  have hcancel : c.idCounter ≤ (c.cancel id).1.idCounter := by
    rcases cancel_cases c id with ⟨-, heq⟩ | ⟨-, err, -, heq⟩ | ⟨-, frame, -, heq⟩
    · rw [heq, hfinalize]
    · rw [heq]
      exact Int.le_add_one le_rfl
    · rw [heq, hfinalize]
      exact Int.le_add_one le_rfl
  unfold cancelUnary
  split
  · exact le_rfl
  · split
    · rename_i heq
      rw [heq] at hcancel
      exact hcancel
    · rename_i heq
      rw [heq] at hcancel
      split
      · exact hcancel
      · exact hcancel

/-- A unary request is sent as it was made, if it is sent at all. -/
theorem carries_unary {ok : Conn cfg → Action → Prop} {as : List Action} {outgoing : Outgoing}
    (h : (connection cfg).RunWith ok (init cfg) as c) (halive : c.dead = false)
    (hkind : outgoing.kind = .ok kind) (expect : Expect) (signal : Signal) :
    Carries (c.unary outgoing expect signal) (c.idCounter + 1) kind := by
  have hregister := Still.register (t := c.idCounter + 1) c (.unary expect)
    (.unary .pending (decide (signal = .live)))
  unfold unary
  rw [if_neg (Bool.eq_false_iff.1 halive)]
  cases signal with
  | none | live => exact (carries_of_still h hregister le_rfl).acquire hkind
  | aborted reason =>
    -- what the cancel leaves behind holds nothing of the request yet
    have hcancel : Carries _ (c.idCounter + 1) kind := carries_of_still h (hregister.trans
      (.cancelUnary _ (c.idCounter + 1) (asError reason "the operation was aborted")))
      (idCounter_le_cancelUnary _ _ _)
    simp only
    split
    · rename_i heq
      rw [show (c.register _ _).idCounter = c.idCounter + 1 from rfl] at heq
      rw [heq] at hcancel
      exact hcancel
    · rename_i heq
      rw [show (c.register _ _).idCounter = c.idCounter + 1 from rfl] at heq
      rw [heq] at hcancel
      exact hcancel.acquire hkind

/-- The request of a stream is sent as it was made. -/
theorem carries_stream {ok : Conn cfg → Action → Prop} {as : List Action} {outgoing : Outgoing}
    (h : (connection cfg).RunWith ok (init cfg) as c) (hkind : outgoing.kind = .ok kind)
    (type : PendingType) (call : Call) :
    Carries ((c.register type call).sendStreamRequest (c.idCounter + 1) outgoing)
      (c.idCounter + 1) kind :=
  (carries_of_still h (.register c type call) le_rfl).acquire hkind

end Conn

end

end Tephra
