import Tephra.Conn.Decompose

/-!
# Requests on a dead connection

Death fails the requests that are pending and wakes whoever waits for a queue slot, but not whoever
waits for an in-flight permit: these are woken one by one, each by the release of the one before.
That works as long as a permit is free or on its way when a stream is opened.

* `quiescent_iff` : whether a continuation can run is decidable.
* `Woken` : on a dead connection a pending request has a send function that will run on.
* `settled_of_quiescent` : if streams are opened on a dead connection only while it is not starved,
  every request has its outcome once no continuation can run.
* `read_hangs` : otherwise one may be left pending for good.
-/

namespace Tephra

open Lib

section

variable [TextCodec] {cfg : Config}

/-- Whether the abort microtask or the collector of a call can run on. -/
def Call.runnable (call : Call) : Bool :=
  call.abortMicrotask.isSome ||
    match call with
    | .read stream => stream.collectStep.isSome
    | _ => false

namespace Conn

/-! ### Quiescence -/

/-- `Quiescent`, as a computation. -/
def quiescent (c : Conn cfg) : Bool :=
  c.inflight.granted.isEmpty && c.queueSlots.granted.isEmpty && c.failedSends.isEmpty &&
    !c.writerGate.resumed && (c.drain = .idle || c.drain = .listening) &&
    c.calls.entries.all fun e => !e.2.runnable

theorem quiescent_iff {c : Conn cfg} : c.quiescent = true ↔ Quiescent c := by
  simp only [quiescent, Bool.and_eq_true, List.isEmpty_iff, Bool.not_eq_true', Bool.or_eq_true,
    decide_eq_true_eq, List.all_eq_true]
  constructor
  · rintro ⟨⟨⟨⟨⟨hinflight, hslots⟩, hfailed⟩, hgate⟩, hdrain⟩, hcalls⟩ a ha
    have hcall : ∀ {id call}, c.calls.get? id = some call → call.runnable = false := fun h =>
      hcalls _ (OrdMap.get?_eq_some_iff.1 h)
    cases a with
    | permit id => simp [step, Semaphore.resume, hinflight]
    | slot id => simp [step, Semaphore.resume, hslots]
    | sendFailed id => simp [step, hfailed]
    | writer outcome => simp [step, hgate]
    | drainResumed outcome | drainRejected => rcases hdrain with h | h <;> simp [step, h]
    -- a call that is not runnable has neither an abort waiting nor a turn of `collect()`
    | abortMicrotask id =>
      cases h : c.calls.get? id with
      | none => simp [step, h]
      | some call =>
        have hrun := hcall h
        simp only [Call.runnable, Bool.or_eq_false_iff, Option.isSome_eq_false_iff,
          Option.isNone_iff_eq_none] at hrun
        simp [step, h, hrun.1]
    | collectStep id =>
      cases h : c.calls.get? id with
      | none => simp [step, h]
      | some call =>
        have hrun := hcall h
        simp only [Call.runnable, Bool.or_eq_false_iff] at hrun
        cases call with
        | read stream =>
          have hnone := Option.isSome_eq_false_iff.1 hrun.2
          simp [step, h, Option.isNone_iff_eq_none.1 hnone]
        | unary deferred abortListener | hello deferred | subscribe stream => simp [step, h]
    | append req signal | stats signal | read req signal | subscribe req signal | close
    | closeStream id | next id | collect id | abort id reason | data chunk | socketError err
    | socketClose | drained => cases ha
  · intro h
    -- conversely, each part of the check is one continuation that cannot run
    have hresume : ∀ {ω : Type} (s : Semaphore ω) (key : ω → ℤ),
        (∀ id, s.resume (fun w => key w = id) = none) → s.granted = [] := fun s key hnone => by
      by_contra hne
      obtain ⟨w, hw⟩ := List.exists_mem_of_ne_nil _ hne
      have := Semaphore.resume_isSome (p := fun w' => key w' = key w) hw (decide_eq_true rfl)
      rw [hnone] at this
      cases this
    refine ⟨⟨⟨⟨⟨hresume c.inflight Sender.id fun id => ?_,
      hresume c.queueSlots (fun p => p.1.id) fun id => ?_⟩, ?_⟩, ?_⟩, ?_⟩, fun e he => ?_⟩
    · exact Option.map_eq_none_iff.1 (h (.permit id) rfl)
    · exact Option.map_eq_none_iff.1 (h (.slot id) rfl)
    · by_contra hne
      obtain ⟨s, hs⟩ := List.exists_mem_of_ne_nil _ hne
      have := List.find?_eq_none.1 (Option.map_eq_none_iff.1 (h (.sendFailed s.1.id) rfl)) s hs
      exact this (decide_eq_true rfl)
    · have := h (.writer (.returned true)) rfl
      by_contra hne
      simp [step, Bool.not_eq_false _ ▸ hne] at this
    · have h₁ := h (.drainResumed (.returned true)) rfl
      have h₂ := h .drainRejected rfl
      cases hdrain : c.drain <;> simp [step, hdrain] at h₁ h₂ ⊢
    · have hget := OrdMap.get?_eq_some_iff.2 he
      have h₁ := h (.abortMicrotask e.1) rfl
      have h₂ := h (.collectStep e.1) rfl
      simp only [step, hget] at h₁ h₂
      unfold Call.runnable
      rw [Bool.or_eq_false_iff]
      constructor
      · cases hm : e.2.abortMicrotask with
        | none => rfl
        | some reason => simp [hm] at h₁
      · cases hcall : e.2 with
        | read stream =>
          rw [hcall] at h₂
          have hnone : stream.collectStep = none := Option.map_eq_none_iff.1 h₂
          simp only [hnone, Option.isSome_none]
        | unary deferred abortListener | hello deferred | subscribe stream => rfl

instance (c : Conn cfg) : Decidable (Quiescent c) := decidable_of_iff _ quiescent_iff

/-! ### Who wakes a send function -/

/-- On a dead connection a pending request has a send function between `acquire` and the code after
it, and a permit is free or on its way. -/
def Woken (c : Conn cfg) : Prop :=
  c.dead = true → ∀ id, c.pending.has id = true →
    (∃ s ∈ c.inflight.users, s.id = id) ∧ 0 < c.inflight.floating

/-- A stream is opened on a dead connection only while it is not starved. -/
def OpensUnstarved (c : Conn cfg) (a : Action) : Prop :=
  a.opensStream = true → c.dead = true → c.starved = false

end Conn

/-- The moves of steps that are `Conn.OpensUnstarved`. -/
def Guard.unstarved : Guard where
  cancelParked := True
  openStarved := False

namespace Conn

instance (c : Conn cfg) (a : Action) : Decidable (OpensUnstarved c a) :=
  inferInstanceAs (Decidable (_ → _ → _))

theorem OpensUnstarved.allowed {c : Conn cfg} {a : Action} (h : OpensUnstarved c a) :
    Allowed .unstarved c a where
  openStarved hopens hdead hstarved :=
    absurd ((h hopens hdead).symm.trans hstarved) Bool.noConfusion
  cancelParked _ _ _ := trivial

namespace Woken

variable {c : Conn cfg}

theorem of_alive (h : c.dead = false) : Woken c := fun hdead =>
  absurd (h.symm.trans hdead) Bool.noConfusion

theorem congr {c' : Conn cfg} (h : Woken c) (hdead : c'.dead = c.dead)
    (hpending : c'.pending = c.pending) (hinflight : c'.inflight = c.inflight) : Woken c' := by
  intro hd id hid
  rw [hinflight]
  exact h (hdead ▸ hd) id (hpending ▸ hid)

/-- A pending entry goes, and with it maybe a permit comes back. -/
theorem finalize (h : Woken c) (id : ℤ) : Woken (c.finalize id) := by
  cases entry : c.pending.get? id with
  | none => rwa [finalize_of_none entry]
  | some e =>
    rw [finalize_of_some entry]
    intro hdead id' hid'
    have hmem := (OrdMap.mem_keys_delete.1 (OrdMap.has_iff.1 hid')).2
    obtain ⟨⟨s, hs, heq⟩, hpos⟩ := h hdead id' (OrdMap.has_iff.2 hmem)
    simp only
    split_ifs
    · exact ⟨⟨s, Semaphore.mem_users_release.2 hs, heq⟩, by rw [Semaphore.floating_release]; omega⟩
    · exact ⟨⟨s, hs, heq⟩, hpos⟩

/-- A send function that finds nothing to do gives its permit back. -/
theorem dropPermit (h : Woken c) {s : Sender} {p : Sender → Bool} {inflight : Semaphore Sender}
    (resume : c.inflight.resume p = some (s, inflight)) :
    c.dead = true → ∀ id, id ≠ s.id → c.pending.has id = true →
      (∃ s ∈ inflight.release.users, s.id = id) ∧ 0 < inflight.release.floating := by
  intro hdead id hne hid
  obtain ⟨⟨s', hs', heq⟩, -⟩ := h hdead id hid
  have hmem := (Semaphore.users_of_resume resume).mem_iff.1 hs'
  rcases List.mem_cons.1 hmem with rfl | hmem
  · exact absurd heq.symm hne
  · exact ⟨⟨s', Semaphore.mem_users_release.2 hmem, heq⟩, by rw [Semaphore.floating_release]; omega⟩

theorem failConnection (c : Conn cfg) (err : Err) (h : c.dead = false) :
    Woken (c.failConnection err) := by
  rw [failConnection_of_alive err h]
  intro _ id hid
  cases hid

/-- Every move keeps the senders of a dead connection awake, as long as none opens a stream on a
starved one. -/
theorem move {c' : Conn cfg} (h : Woken c) (hm : Move .unstarved c c') : Woken c' := by
  cases hm with
  | register alive | acquire alive | keepPermit alive | enqueue alive
  | slotPush alive | write alive | spend alive | jam alive => exact of_alive alive
  | @cancel id e frame f alive entry request ends parked =>
    obtain ⟨_, _, heq⟩ := exists_finalize (c.pushCancel frame) id
    rw [heq]
    exact of_alive alive
  | @openStream type call s hasType fresh id_eq handles starved =>
    -- a stream opened on a dead connection still finds a permit, so that its send function runs and
    -- fails
    intro hdead id hid
    have hfloating : 0 < c.inflight.floating := by
      have := mt (starved hdead) not_false
      simp only [Conn.starved, decide_eq_true_eq] at this
      omega
    refine ⟨?_, lt_of_lt_of_eq hfloating (Semaphore.floating_acquire _ s).symm⟩
    rcases OrdMap.mem_keys_set.1 (OrdMap.has_iff.1 hid) with rfl | hmem
    · exact ⟨s, Semaphore.mem_users_acquire.2 (.inl rfl), id_eq⟩
    · obtain ⟨⟨s', hs', heq⟩, -⟩ := h hdead id (OrdMap.has_iff.2 hmem)
      exact ⟨s', Semaphore.mem_users_acquire.2 (.inr hs'), heq⟩
  | settle => exact (h.finalize _).congr rfl rfl rfl
  | deliver | consume | slotDrop | takeFailed | gate | drain | destroy | refuse =>
    exact h.congr rfl rfl rfl
  | @dropPermit s p inflight resume gone =>
    -- the sender that resumes is not that of a pending request
    intro hdead id hid
    refine h.dropPermit resume hdead id ?_ hid
    rintro rfl
    have : c.pending.has s.id = true := hid
    rw [OrdMap.has, gone] at this
    cases this
  | @failPermit s e p inflight f resume entry dead ends =>
    have hentry : ({ c with inflight := inflight.release } : Conn cfg).pending.get? s.id = some e :=
      entry
    rw [finalize_of_some hentry]
    intro hdead id hid
    obtain ⟨hne, hmem⟩ := OrdMap.mem_keys_delete.1 (OrdMap.has_iff.1 hid)
    obtain ⟨⟨s', hs', heq⟩, hpos⟩ := h.dropPermit resume hdead id hne (OrdMap.has_iff.2 hmem)
    simp only [settle, update, record]
    split_ifs
    · exact ⟨⟨s', Semaphore.mem_users_release.2 hs', heq⟩,
        by rw [Semaphore.floating_release]; omega⟩
    · exact ⟨⟨s', hs', heq⟩, hpos⟩
  | throw alive => exact failConnection _ _ alive
  | die alive => exact failConnection _ _ alive

/-- When no continuation can run, nobody has a permit to run on with, so nothing is pending. -/
theorem pending_empty (h : Woken c) (hdead : c.dead = true) (hquiet : Quiescent c) (id : ℤ) :
    c.pending.has id = false := by
  by_contra hne
  obtain ⟨⟨s, hs, -⟩, hpos⟩ := h hdead id (by simpa using hne)
  have hgranted : c.inflight.granted = [] := by
    have := quiescent_iff.2 hquiet
    simp only [quiescent, Bool.and_eq_true, List.isEmpty_iff] at this
    exact this.1.1.1.1.1
  rw [Semaphore.users, hgranted, List.append_nil] at hs
  have hpermits := c.inflight.permits_eq_zero (List.ne_nil_of_mem hs)
  rw [Semaphore.floating, hpermits, hgranted] at hpos
  cases hpos

end Woken

/-- If streams are opened on a dead connection only while it is not starved, no request is left
hanging on it. -/
theorem settled_of_quiescent {as : List Action} {c : Conn cfg}
    (h : (connection cfg).RunWith OpensUnstarved (init cfg) as c) (hdead : c.dead = true)
    (hquiet : Quiescent c) :
    (∀ id, c.pending.has id = false) ∧
      ∀ id call, c.calls.get? id = some call → call.terminal = true := by
  have hrun := h.mono fun c a (ha : OpensUnstarved c a) => ha.allowed
  have hwoken : Woken c := invariant_of_run hrun (Woken.of_alive rfl)
    (fun c a hw => by cases a <;> exact hw.congr rfl rfl rfl) fun _ hw hm => hw.move hm
  have hpending := hwoken.pending_empty hdead hquiet
  refine ⟨hpending, fun id call hcall => ?_⟩
  by_contra hopen
  have hhas := (consistent_of_run h).pending_of_open id call hcall (.inl (by simpa using hopen))
  rw [hpending id] at hhas
  cases hhas

end Conn

end

/-! ### A read that hangs -/

namespace Conn

section

attribute [local instance] utf8Codec

/-- The connection dies while a stats request holds the permit; then a read is opened. -/
def hangActions : List Action :=
  connectActions ++ [.stats .none, .permit 2, .slot 2, .writer (.returned true), .socketClose,
    .writer (.returned true), readAll]

/-- The read is pending for good: nothing can run, and it has no outcome. -/
theorem read_hangs : 1 ≤ onePermit.maxInflightRequests ∧
    ∃ c, (connection onePermit).Run (init onePermit) hangActions c ∧ c.dead = true ∧ Quiescent c ∧
      c.pending.has 3 = true ∧ ∃ call, c.calls.get? 3 = some call ∧ call.terminal = false := by
  have hexec : ((connection onePermit).exec (init onePermit) hangActions).any (fun c =>
      c.dead && c.quiescent && c.pending.has 3 &&
        (c.calls.get? 3).any fun call => !call.terminal) = true := by decide +kernel
  obtain ⟨c, hrun, hc⟩ := Machine.exists_run_of_exec hexec
  simp only [Bool.and_eq_true, Option.any_eq_true, Bool.not_eq_true'] at hc
  exact ⟨le_rfl, c, hrun, hc.1.1.1, quiescent_iff.1 hc.1.1.2, hc.1.2, hc.2⟩

/-- With the permit free at the death, a read opened later fails. -/
theorem read_fails : ∃ c, (connection onePermit).RunWith OpensUnstarved (init onePermit)
    (connectActions ++ [.socketClose, .writer (.returned true), readAll, .permit 2]) c ∧
      (∀ id, c.pending.has id = false) ∧
        ∀ id call, c.calls.get? id = some call → call.terminal = true := by
  have hexec : (((connection onePermit).restrict fun c a => decide (OpensUnstarved c a)).exec
      (init onePermit) (connectActions ++ [.socketClose, .writer (.returned true), readAll,
        .permit 2])).any (fun c => c.dead && c.quiescent) = true := by decide +kernel
  obtain ⟨c, hrun, hc⟩ := Machine.exists_runWith_of_exec
    (fun _ _ => of_decide_eq_true) hexec
  simp only [Bool.and_eq_true] at hc
  exact ⟨c, hrun, settled_of_quiescent hrun hc.1 (quiescent_iff.1 hc.2)⟩

end

end Conn

end Tephra
