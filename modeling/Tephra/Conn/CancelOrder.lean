import Tephra.Conn.Log

/-!
# Cancels and the requests they cancel

Cancels have a queue of their own, which is written before the other one.  A cancel for a request
whose frame waits for a slot or sits in the outbound queue is therefore written before that frame.

* `Gone` : a request that can send nothing any more; it stays so.
* `cancels_last` : when requests are cancelled only while their frame is not parked, no cancel is
  written before a frame of its request.
* `cancel_overtakes` : otherwise one may be.
-/

namespace Tephra

open Lib

section

variable [TextCodec] {cfg : Config}

/-- Whether a frame is that of an operation. -/
def Frame.isOperation (frame : Frame cfg) : Bool :=
  match frame.request.kind with
  | .append _ | .read _ | .subscribe _ | .stats => true
  | .cancel _ | .hello _ | .none => false

/-- `f` cancels the operation that `f'` asks for. -/
def Frame.Cancels (f f' : Frame cfg) : Prop :=
  f.request.kind = .cancel { target := f'.request.requestId } ∧ f'.isOperation = true

instance (f f' : Frame cfg) : Decidable (f.Cancels f') := inferInstanceAs (Decidable (_ ∧ _))

/-- No cancel comes before a frame of the operation it cancels. -/
def CancelsLast (frames : List (Frame cfg)) : Prop :=
  frames.Pairwise fun f f' => ¬ f.Cancels f'

instance (frames : List (Frame cfg)) : Decidable (CancelsLast frames) :=
  inferInstanceAs (Decidable (List.Pairwise _ _))

/-- The moves of steps that cancel no request whose frame is parked. -/
def Guard.unparked : Guard where
  cancelParked := False
  openStarved := True

namespace Conn

variable {c c' : Conn cfg}

/-- The requests a step cancels have no parked frame. -/
def CancelsUnparked (c : Conn cfg) (a : Action) : Prop :=
  ∀ id ∈ c.cancelTargets a, c.parked id = false

instance (c : Conn cfg) (a : Action) : Decidable (CancelsUnparked c a) :=
  inferInstanceAs (Decidable (∀ id ∈ c.cancelTargets a, _))

theorem CancelsUnparked.allowed {a : Action} (h : CancelsUnparked c a) :
    Allowed .unparked c a where
  openStarved _ _ _ := trivial
  cancelParked id hid hp := absurd ((h id hid).symm.trans hp) Bool.noConfusion

/-! ### Requests that are gone -/

/-- Request `id` is not pending, and its frame does not wait for a slot. -/
structure Gone (c : Conn cfg) (id : ℤ) : Prop where
  le : id ≤ c.idCounter
  pending : c.pending.get? id = none
  slots : ∀ p ∈ c.queueSlots.users, p.2.request.requestId ≠ id

namespace Gone

variable {id : ℤ}

theorem register (h : Gone c id) (type : PendingType) (call : Call) :
    Gone (c.register type call) id where
  le := Int.le_add_one h.le
  pending := by
    have hne : id ≠ c.idCounter + 1 := by have := h.le; omega
    exact (OrdMap.get?_set_of_ne _ hne).trans h.pending
  slots := h.slots

theorem finalize (h : Gone c id) (id' : ℤ) : Gone (c.finalize id') id := by
  cases entry : c.pending.get? id' with
  | none => rwa [finalize_of_none entry]
  | some e =>
    rw [finalize_of_some entry]
    refine ⟨h.le, ?_, h.slots⟩
    rw [OrdMap.get?_delete, h.pending, ite_self]

theorem failConnection (h : Gone c id) (err : Err) : Gone (c.failConnection err) id := by
  rcases Bool.eq_false_or_eq_true c.dead with hdead | halive
  · rwa [failConnection_of_dead err hdead]
  · rw [failConnection_of_alive err halive]
    exact ⟨h.le, rfl, fun p hp => h.slots p (Semaphore.mem_users_drainWaiters.1 hp)⟩

theorem move {g : Guard} (h : Gone c id) (hm : Move g c c') : Gone c' id := by
  have hsettle : ∀ {c₁ : Conn cfg} {id' : ℤ} {f : Call → Call}, Gone c₁ id →
      Gone ((c₁.finalize id').settle id' f) id := fun h => by
    have h' := h.finalize
    exact ⟨(h' _).le, (h' _).pending, (h' _).slots⟩
  cases hm with
  | register => exact h.register _ _
  | @openStream type call =>
    have hregister := h.register type call
    exact ⟨hregister.le, hregister.pending, hregister.slots⟩
  | acquire | deliver | consume | dropPermit | takeFailed | gate | drain | destroy | refuse | jam =>
    exact ⟨h.le, h.pending, h.slots⟩
  | spend => exact ⟨Int.le_add_one h.le, h.pending, h.slots⟩
  | @cancel id' e frame =>
    have hpush : Gone (c.pushCancel frame) id := ⟨Int.le_add_one h.le, h.pending, h.slots⟩
    exact hsettle hpush
  | settle => exact hsettle h
  | @failPermit s e p inflight =>
    have hrelease : Gone { c with inflight := inflight.release } id := ⟨h.le, h.pending, h.slots⟩
    exact hsettle hrelease
  -- a permit changes an entry that is there
  | @keepPermit s e p inflight =>
    refine ⟨h.le, ?_, h.slots⟩
    have hkeep := OrdMap.get?_modify c.pending s.id id fun entry => { entry with permit := true }
    rw [h.pending, Option.map_none, ite_self] at hkeep
    exact hkeep
  | @enqueue s e frame alive entry requestId =>
    refine ⟨h.le, h.pending, fun p hp => ?_⟩
    rcases Semaphore.mem_users_acquire.1 hp with rfl | hp
    · -- the frame is that of a pending request
      rintro rfl
      rw [requestId] at h
      cases entry.symm.trans h.pending
    · exact h.slots p hp
  | slotPush alive resume =>
    exact ⟨h.le, h.pending, fun p hp => h.slots p
      ((Semaphore.users_of_resume resume).mem_iff.2 (List.mem_cons_of_mem _ hp))⟩
  | slotDrop dead resume =>
    exact ⟨h.le, h.pending, fun p hp => h.slots p ((Semaphore.users_of_resume resume).mem_iff.2
      (List.mem_cons_of_mem _ (Semaphore.mem_users_release.1 hp)))⟩
  | write => exact ⟨h.le, h.pending, fun p hp => h.slots p (Semaphore.mem_users_releaseN.1 hp)⟩
  | throw =>
    have hover : Gone c.handOver id := ⟨h.le, h.pending, h.slots⟩
    exact hover.failConnection _
  | die => exact h.failConnection _

end Gone

/-! ### The order on the wire -/

/-- The frames written and queued are in order, and every cancel among them is for a request that
is gone. -/
structure Ordered (c : Conn cfg) : Prop where
  inOrder : CancelsLast c.wire.inOrder
  gone : ∀ f ∈ c.wire.inOrder, ∀ id, f.request.kind = .cancel { target := id } → Gone c id
  slots : SlotsRequest c

theorem Ordered.new : Ordered (Conn.new cfg) where
  inOrder := .nil
  gone _ hf := by cases hf
  slots _ hp := by cases hp

theorem Ordered.cancelsLast_move (h : Ordered c) (hm : Move .unparked c c') :
    CancelsLast c'.wire.inOrder := by
  cases wire_of_move hm with
  | same wire => exact wire ▸ h.inOrder
  | write alive wire => rw [wire, Wire.inOrder_write]; exact h.inOrder
  | @outbound s frame alive slot wire =>
    rw [wire, Wire.inOrder_pushOutbound]
    refine List.pairwise_append.2 ⟨h.inOrder, List.pairwise_singleton _ _, fun f hf f' hf' => ?_⟩
    rw [List.mem_singleton.1 hf']
    rintro ⟨hkind, -⟩
    exact (h.gone f hf _ hkind).slots _ slot rfl
  | @priority id e frame alive entry gone request counter slots parked wire =>
    rw [wire, Wire.inOrder_pushPriority]
    have horder : CancelsLast (c.wire.written ++ c.wire.priority ++ c.wire.outbound) := by
      rw [List.append_assoc]; exact h.inOrder
    obtain ⟨hleft, hright, hcross⟩ := List.pairwise_append.1 horder
    refine List.pairwise_append.2 ⟨hleft, List.pairwise_cons.2 ⟨fun f hf => ?_, hright⟩, ?_⟩
    · -- what is in the outbound queue is parked
      rintro ⟨hkind, -⟩
      rw [request] at hkind
      cases hkind
      exact parked (parked_iff.2 (.inr ⟨f, hf, rfl⟩))
    · intro f hf f' hf'
      rcases List.mem_cons.1 hf' with rfl | hf'
      · rintro ⟨-, hop⟩
        rw [Frame.isOperation, request] at hop
        cases hop
      · exact hcross f hf f' hf'

theorem Ordered.gone_move (hc : Consistent c) (h : Ordered c) (hm : Move .unparked c c') :
    ∀ f ∈ c'.wire.inOrder, ∀ id, f.request.kind = .cancel { target := id } → Gone c' id := by
  have hgone : ∀ f ∈ c.wire.inOrder, ∀ id, f.request.kind = .cancel { target := id } →
      Gone c' id := fun f hf id hkind => (h.gone f hf id hkind).move hm
  cases wire_of_move hm with
  | same wire => exact wire ▸ hgone
  | write alive wire => rw [wire, Wire.inOrder_write]; exact hgone
  | @outbound s frame alive slot wire =>
    rw [wire, Wire.inOrder_pushOutbound]
    intro f hf id hkind
    rcases List.mem_append.1 hf with hf | hf
    · exact hgone f hf id hkind
    · rw [List.mem_singleton.1 hf] at hkind
      exact absurd hkind (h.slots _ slot _)
  | @priority id e frame alive entry gone request counter slots parked wire =>
    rw [wire, Wire.inOrder_pushPriority]
    intro f hf id' hkind
    rcases List.mem_append.1 hf with hf | hf
    · refine hgone f ?_ id' hkind
      rw [Wire.inOrder, ← List.append_assoc]
      exact List.mem_append_left _ hf
    rcases List.mem_cons.1 hf with rfl | hf
    · rw [request] at hkind
      cases hkind
      -- the cancel itself: its target has left the table and is not parked
      refine ⟨?_, gone, fun p hp heq => ?_⟩
      · have := (hc.pending_le entry).2
        omega
      · exact parked (parked_iff.2 (.inl ⟨p, slots ▸ hp, heq⟩))
    · refine hgone f ?_ id' hkind
      rw [Wire.inOrder]
      exact List.mem_append_right _ (List.mem_append_right _ hf)

theorem Ordered.move (hc : Consistent c) (h : Ordered c) (hm : Move .unparked c c') :
    Ordered c' :=
  ⟨h.cancelsLast_move hm, h.gone_move hc hm, h.slots.move hm⟩

/-- When no step cancels a request whose frame waits for a queue slot or is in the outbound queue,
no cancel is written before a frame of the operation it cancels. -/
theorem cancels_last {as : List Action}
    (h : (connection cfg).RunWith CancelsUnparked (init cfg) as c) :
    CancelsLast c.wire.written := by
  have hrun := h.mono fun c a (ha : CancelsUnparked c a) => ha.allowed
  have hordered : Ordered c := invariant_of_run hrun Ordered.new
    (fun c a ho => by
      cases a <;> exact ⟨ho.inOrder, fun f hf id hkind =>
        ⟨(ho.gone f hf id hkind).le, (ho.gone f hf id hkind).pending,
          (ho.gone f hf id hkind).slots⟩, ho.slots⟩)
    Ordered.move
  exact hordered.inOrder.sublist (List.sublist_append_left _ _)

end Conn

end

/-! ### A cancel that overtakes -/

namespace Conn

section

attribute [local instance] utf8Codec

/-- Two requests at a time. -/
def twoPermits : Config :=
  { maxInflightRequests := 2, requestQueueDepth := 2, maxFrameLen := 1000, authToken := none }

/-- An append fills the socket's buffer; meanwhile a subscription is opened, sent as far as the
outbound queue, and closed; then the socket drains. -/
def overtakeActions : List Action :=
  connectActions ++ [.append (.ok { events := [], condition := none }) .none, .permit 2, .slot 2,
    .writer (.returned false),
    .subscribe (.ok { query := { all := true, items := [] }, after := 0 }) .none,
    .permit 3, .slot 3, .closeStream 3, .drained, .drainResumed (.returned true)]

/-- The cancel of the subscription is written before the subscription. -/
theorem cancel_overtakes : ∃ c, (connection twoPermits).Run (init twoPermits) overtakeActions c ∧
    c.wire.written.map (fun f => f.request) =
      [{ requestId := 1, kind := .hello { protocolVersion := 1, authToken := none } },
        { requestId := 2, kind := .append { events := [], condition := none } },
        { requestId := 4, kind := .cancel { target := 3 } },
        { requestId := 3,
          kind := .subscribe { query := { all := true, items := [] }, after := 0 } }] ∧
      ¬ CancelsLast c.wire.written := by
  have hexec : ((connection twoPermits).exec (init twoPermits) overtakeActions).any (fun c =>
      decide (c.wire.written.map (fun f => f.request) =
        [{ requestId := 1, kind := .hello { protocolVersion := 1, authToken := none } },
          { requestId := 2, kind := .append { events := [], condition := none } },
          { requestId := 4, kind := .cancel { target := 3 } },
          { requestId := 3
            kind := .subscribe { query := { all := true, items := [] }, after := 0 } }] ∧
        ¬ CancelsLast c.wire.written)) = true := by decide +kernel
  obtain ⟨c, hrun, hc⟩ := Machine.exists_run_of_exec hexec
  exact ⟨c, hrun, of_decide_eq_true hc⟩

/-- Closed after its frame is written, the subscription is cancelled in order. -/
theorem cancel_follows : ∃ c, (connection twoPermits).RunWith CancelsUnparked (init twoPermits)
    (connectActions ++
      [.subscribe (.ok { query := { all := true, items := [] }, after := 0 }) .none,
      .permit 2, .slot 2, .writer (.returned true), .closeStream 2, .writer (.returned true)]) c ∧
      c.wire.written.length = 3 ∧ CancelsLast c.wire.written := by
  have hexec : (((connection twoPermits).restrict fun c a => decide (CancelsUnparked c a)).exec
      (init twoPermits) (connectActions ++
        [.subscribe (.ok { query := { all := true, items := [] }, after := 0 }) .none, .permit 2,
          .slot 2, .writer (.returned true), .closeStream 2, .writer (.returned true)])).any
      (fun c => c.wire.written.length = 3) = true := by decide +kernel
  obtain ⟨c, hrun, hc⟩ := Machine.exists_runWith_of_exec (fun _ _ => of_decide_eq_true) hexec
  exact ⟨c, hrun, of_decide_eq_true hc, cancels_last hrun⟩

end

end Conn

end Tephra
