import Tephra.Conn.Decompose

/-!
# The two budgets

While a connection is alive, every in-flight permit is free, in a pending entry, or with a send
function that has not run on yet; every queue slot is free, taken by a frame of the outbound queue,
or with an `enqueue` that has not run on yet.

* `Budget` : the two sums; every move keeps them (`Budget.move`).
* `budget_conserved` : they hold after every run.
-/

namespace Tephra

open Lib

section

variable [TextCodec] {cfg : Config}

namespace Conn

/-- How many pending entries hold a permit. -/
def permitsHeld (c : Conn cfg) : ℕ := c.pending.countP Pending.permit

/-- While the connection is alive, permits and slots add up. -/
structure Budget (c : Conn cfg) : Prop where
  permits : c.dead = false → c.inflight.floating + c.permitsHeld = cfg.maxInflightRequests
  slots : c.dead = false → c.queueSlots.floating + c.outbound.length = cfg.requestQueueDepth

namespace Budget

variable {c : Conn cfg}

theorem new : Budget (Conn.new cfg) := ⟨fun _ => rfl, fun _ => rfl⟩

theorem congr {c' : Conn cfg} (h : Budget c) (hdead : c'.dead = c.dead)
    (hinflight : c'.inflight.floating + c'.permitsHeld = c.inflight.floating + c.permitsHeld)
    (hslots : c'.queueSlots.floating + c'.outbound.length =
      c.queueSlots.floating + c.outbound.length) : Budget c' :=
  ⟨fun halive => hinflight.trans (h.permits (hdead ▸ halive)),
    fun halive => hslots.trans (h.slots (hdead ▸ halive))⟩

theorem of_dead (h : c.dead = true) : Budget c :=
  ⟨fun halive => absurd (h.symm.trans halive) Bool.noConfusion,
    fun halive => absurd (h.symm.trans halive) Bool.noConfusion⟩

theorem permitsHeld_register (hc : Consistent c) (type : PendingType) (call : Call) :
    (c.register type call).permitsHeld = c.permitsHeld := by
  have hnone := hc.pending_new (Int.lt_add_one_of_le le_rfl)
  exact OrdMap.countP_set_of_none _ _ hnone

theorem permits_finalize (c : Conn cfg) (id : ℤ) :
    (c.finalize id).inflight.floating + (c.finalize id).permitsHeld =
      c.inflight.floating + c.permitsHeld := by
  cases entry : c.pending.get? id with
  | none => rw [finalize_of_none entry]
  | some e =>
    have hcount := OrdMap.countP_delete Pending.permit entry
    rw [finalize_of_some entry]
    simp only [permitsHeld]
    cases hpermit : e.permit with
    | true =>
      rw [hpermit, Bool.toNat_true] at hcount
      rw [if_pos rfl, Semaphore.floating_release]
      omega
    | false =>
      rw [hpermit, Bool.toNat_false] at hcount
      rw [if_neg Bool.false_ne_true]
      omega

theorem finalize (h : Budget c) (id : ℤ) : Budget (c.finalize id) := by
  have hpermits := permits_finalize c id
  obtain ⟨pending, inflight, heq⟩ := c.exists_finalize id
  rw [heq] at hpermits ⊢
  exact h.congr rfl hpermits rfl

/-- Every move keeps the sums. -/
theorem move {g : Guard} {c' : Conn cfg} (hc : Consistent c) (h : Budget c) (hm : Move g c c') :
    Budget c' := by
  cases hm with
  | @register type call alive hasType fresh =>
    exact h.congr rfl (congrArg _ (permitsHeld_register hc type call)) rfl
  | @acquire s alive id_le new entry =>
    exact h.congr rfl (congrArg (· + _) (Semaphore.floating_acquire _ s)) rfl
  | @openStream type call s hasType fresh id_eq handles starved =>
    exact h.congr rfl (congrArg₂ (· + ·) (Semaphore.floating_acquire _ s)
      (permitsHeld_register hc type call)) rfl
  | @cancel id e frame f alive entry request ends parked =>
    have hpush : Budget (c.pushCancel frame) := h.congr rfl rfl rfl
    exact (hpush.finalize id).congr rfl rfl rfl
  | @settle id e f entry ends => exact (h.finalize id).congr rfl rfl rfl
  | deliver | consume | takeFailed | gate | drain | destroy | refuse | spend | jam =>
    exact h.congr rfl rfl rfl
  | @dropPermit s p inflight resume gone =>
    refine h.congr rfl ?_ rfl
    have := Semaphore.floating_resume resume
    rw [show ({ c with inflight := inflight.release } : Conn cfg).permitsHeld = c.permitsHeld
      from rfl, Semaphore.floating_release, this]
  | @failPermit s e p inflight f resume entry dead ends =>
    obtain ⟨_, _, heq⟩ := exists_finalize { c with inflight := inflight.release } s.id
    rw [heq]
    exact of_dead dead
  | @keepPermit s e p inflight alive resume entry =>
    -- the entry had no permit, and has the one that was granted
    refine h.congr rfl ?_ rfl
    have hs : s ∈ c.inflight.users :=
      (Semaphore.users_of_resume resume).mem_iff.2 List.mem_cons_self
    have hpermit := (hc.sender_entry s hs e entry).1
    have hcount := OrdMap.countP_modify Pending.permit
      (fun entry => { entry with permit := true }) entry
    have hfloating := Semaphore.floating_resume resume
    rw [hpermit, Bool.toNat_false, Bool.toNat_true] at hcount
    simp only [permitsHeld]
    omega
  | @enqueue s e frame alive entry requestId kind handles =>
    exact h.congr rfl rfl (congrArg (· + _) (Semaphore.floating_acquire _ (s, frame)))
  | @slotPush s frame p queueSlots alive resume =>
    refine h.congr rfl rfl ?_
    have := Semaphore.floating_resume resume
    simp only [record, List.length_append, List.length_singleton]
    omega
  | slotDrop dead resume => exact of_dead dead
  | write alive =>
    exact h.congr rfl rfl (Semaphore.floating_releaseN _ _)
  | throw alive | die alive => exact of_dead (dead_failConnection _ _)

end Budget

/-- In every reachable state of an alive connection the in-flight permits and the queue slots add
up, and nobody waits for one while one is free. -/
theorem budget_conserved {as : List Action} {c : Conn cfg}
    (h : (connection cfg).Run (init cfg) as c) (alive : c.dead = false) :
    c.inflight.permits + c.permitsHeld + c.inflight.granted.length = cfg.maxInflightRequests ∧
      c.queueSlots.permits + c.outbound.length + c.queueSlots.granted.length =
        cfg.requestQueueDepth ∧
      (c.inflight.waiters ≠ [] → c.inflight.permits = 0) ∧
      (c.queueSlots.waiters ≠ [] → c.queueSlots.permits = 0) ∧
      c.outbound.length ≤ cfg.requestQueueDepth ∧
      (c.pending = .empty → c.inflight.granted = [] →
        c.inflight.permits = cfg.maxInflightRequests) := by
  have hbudget : Budget c := invariant_of_run (allowed_of_run h) Budget.new
    (fun c a h => by cases a <;> exact h.congr rfl rfl rfl) Budget.move
  have hpermits := hbudget.permits alive
  have hslots := hbudget.slots alive
  simp only [Semaphore.floating] at hpermits hslots
  refine ⟨by omega, by omega, c.inflight.permits_eq_zero, c.queueSlots.permits_eq_zero,
    by omega, ?_⟩
  intro hpending hgranted
  rw [permitsHeld, hpending, OrdMap.countP_empty, hgranted] at hpermits
  exact hpermits

end Conn

end

namespace Conn

section

attribute [local instance] utf8Codec

/-- The only permit is in the entry of a stats request. -/
theorem permit_held : ∃ c, (connection onePermit).Run (init onePermit)
    (connectActions ++ [.stats .none, .permit 2]) c ∧ c.permitsHeld = 1 ∧
      c.inflight.permits + c.permitsHeld + c.inflight.granted.length =
        onePermit.maxInflightRequests := by
  have hexec : ((connection onePermit).exec (init onePermit)
      (connectActions ++ [.stats .none, .permit 2])).any
        (fun c => !c.dead && c.permitsHeld = 1) = true := by decide +kernel
  obtain ⟨c, hrun, hc⟩ := Machine.exists_run_of_exec hexec
  simp only [Bool.and_eq_true, Bool.not_eq_true', decide_eq_true_eq] at hc
  exact ⟨c, hrun, hc.2, (budget_conserved hrun hc.1).1⟩

end

end Conn

end Tephra
