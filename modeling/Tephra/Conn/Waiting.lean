import Tephra.Conn.Order
import Tephra.Conn.Budget
import Tephra.Conn.Death
import Tephra.Options

/-!
# What an idle connection waits for

When no continuation can run, an alive connection waits for its socket or for its peer, and never
for itself.

* `Attended` : the writer of an alive connection is at its gate, about to run on, or waits for
  `drain`; every step keeps this.
* `Placed` : a pending request without a permit lines up for one, and one with a permit has its
  frame in the line for a slot or in the outbound queue, or had it there.
* `sent_or_waiting` : so, unless the socket is full, every request with a permit is on the wire once
  nothing can run, and a request waits for a permit only while all of them are held by such
  requests.
-/

namespace Tephra

open Lib

section

variable [TextCodec] {cfg : Config}

namespace Conn

variable {c c' : Conn cfg}

/-! ### The writer -/

/-- There is a writer that will notice the next frame, or the connection is dead. -/
def Attended (c : Conn cfg) : Prop :=
  c.dead = true ∨ c.writerGate.waiter = true ∨ c.writerGate.resumed = true ∨ c.drain ≠ .idle

theorem Attended.signal (h : c.Attended) (hdead : c'.dead = c.dead) (hdrain : c'.drain = c.drain)
    (hgate : c'.writerGate = c.writerGate.signal) : c'.Attended := by
  unfold Attended
  rw [hdead, hdrain, hgate, Gate.signal]
  rcases h with h | h | h | h
  · exact .inl h
  · rw [if_pos h]
    exact .inr (.inr (.inl rfl))
  · split_ifs
    · exact .inr (.inr (.inl rfl))
    · exact .inr (.inr (.inl h))
  · exact .inr (.inr (.inr h))

theorem attended_waitGate (c : Conn cfg) : c.waitGate.Attended := by
  unfold Attended waitGate Gate.wait
  split_ifs
  · exact .inr (.inr (.inl rfl))
  · exact .inr (.inl rfl)

/-- A turn of the writer ends at the gate, at `drain`, or with the death of the connection. -/
theorem attended_runWriter (c : Conn cfg) (outcome : WriteOutcome) :
    (c.runWriter outcome).Attended := by
  unfold runWriter
  split_ifs with hdead
  · exact .inl hdead
  · exact attended_waitGate c
  · cases outcome with
    | threw reason => exact .inl (dead_failConnection _ _)
    | returned ok =>
      cases ok with
      | true => exact attended_waitGate _
      | false => exact .inr (.inr (.inr (by simp)))

theorem Attended.aside (h : c.Attended) (ha : Aside c c') : c'.Attended := by
  cases ha with
  | update | settle | spend | refuse | receive | takeFailed | destroy => exact h
  | finalize id =>
    obtain ⟨_, _, heq⟩ := c.exists_finalize id
    rw [heq]
    exact h
  | fail | drainRejected => exact .inl (dead_failConnection _ _)
  | pushCancel => exact h.signal rfl rfl rfl
  | rejectDrain =>
    unfold Conn.rejectDrain
    split
    · exact .inr (.inr (.inr (by simp)))
    · exact h
  | drained => exact .inr (.inr (.inr (by simp)))
  | writer outcome | drainResumed outcome => exact attended_runWriter _ outcome

theorem Attended.asides (h : c.Attended) (ha : Asides c c') : c'.Attended := by
  induction ha with
  | refl => exact h
  | tail _ ha ih => exact ih.aside ha

theorem Attended.step {a : Action} (h : c.Attended) (hstep : c.step a = some c') :
    c'.Attended := by
  have hunary : ∀ (kind : Outgoing) (expect : Expect) (signal : Signal),
      (c.unary kind expect signal).Attended := fun kind expect signal => by
    rcases unary_cases c kind expect signal with ha | ⟨call, c₁, ha, heq | ⟨-, heq⟩⟩
    · exact h.asides ha
    · have h₁ : c₁.Attended := Attended.asides (c := c.register _ call) h ha
      rw [heq]
      exact h₁
    · rw [heq]
      exact Attended.asides (c := c.register _ call) h ha
  -- only what reaches for the wire can leave a request unattended
  cases hsends : a.sends with
  | false => exact h.asides (asides_of_step hsends hstep)
  | true =>
    cases taken_of_step hstep with
    | append req signal | stats signal => exact hunary _ _ _
    | read req signal | subscribe req signal => exact h
    | @permit id s inflight resume =>
      unfold permitGranted
      split
      · exact h
      · split_ifs
        · exact Attended.asides (c := { c with inflight := inflight.release }) h
            (.sendFailed _ s _)
        · split
          · exact Attended.asides (c := { c with
              inflight := inflight
              pending := c.pending.modify s.id fun entry => { entry with permit := true } }) h
              (.sendFailed _ s _)
          · exact h
    | slot resume =>
      unfold slotGranted
      split_ifs
      · exact h
      · exact h.signal rfl rfl rfl
    | close | closeStream | next | collect | abortStream | abortUnary | data | socketError
    | socketClose | drained | sendFailed | writer | drainResumed | drainRejected | abortMicrotask
    | collectStep => cases hsends

/-! ### Where pending requests are -/

/-- Where the requests are that are pending on an alive connection. -/
structure Placed (c : Conn cfg) : Prop where
  /-- Without a permit they line up for one. -/
  waits : c.dead = false → ∀ id e, c.pending.get? id = some e → e.permit = false →
    ∃ s ∈ c.inflight.line, s.id = id
  /-- With a permit they have sent their frame, or it lines up for a slot. -/
  sent : c.dead = false → ∀ id e, c.pending.get? id = some e → e.permit = true →
    (∃ p ∈ c.queueSlots.line, p.2.id = id) ∨ ∃ f ∈ c.wire.pushedOutbound, f.id = id

theorem placed_init (cfg : Config) : Placed (init cfg) := by
  have hentry : ∀ id e, (init cfg).pending.get? id = some e → id = 1 ∧ e.permit = false :=
    fun id e he => by
      have he : ((Conn.new cfg).register .hello (.hello .pending)).pending.get? id = some e := he
      rcases get?_register he with he | ⟨hid, he⟩
      · cases he
      · exact ⟨hid, he⟩
  refine ⟨fun _ id e he _ => ?_, fun _ id e he hpermit => ?_⟩
  · refine ⟨{ id := 1, type := .hello, outgoing := .hello cfg.authToken }, ?_,
      (hentry id e he).1.symm⟩
    rw [show (init cfg).inflight = (Semaphore.new cfg.maxInflightRequests).acquire
      { id := 1, type := .hello, outgoing := .hello cfg.authToken } from rfl,
      Semaphore.line_acquire]
    exact List.mem_append_right _ (List.mem_singleton_self _)
  · cases (hentry id e he).2.symm.trans hpermit

/-- With cancels that fit, every step keeps the requests in their places. -/
theorem Placed.step (hmax : 24 ≤ cfg.maxFrameLen) {a : Action} (h : Placed c) (hc : Consistent c)
    (hstep : c.step a = some c') : Placed c' := by
  have halive : c'.dead = false → c.dead = false := fun halive => by
    by_contra hdead
    have : c'.dead = true := keeps_of_moves (I := fun c => c.dead = true)
      (moves_of_step hc (.all c a) hstep) (hc.receive a) (by
        cases a <;> exact Bool.eq_true_of_not_eq_false hdead) fun _ hi hm => dead_of_move hm hi
    cases halive.symm.trans this
  -- whoever has another id stays in the line
  have hrest : ∀ {s s' : Sender} {l₁ l₂ : List Sender}, c.inflight.line = l₁ ++ s :: l₂ →
      s' ∈ c.inflight.line → s'.id ≠ s.id → s' ∈ l₁ ++ l₂ := fun {s s'} _ _ hline hs' hne => by
    rw [hline, List.mem_append, List.mem_cons] at hs'
    rw [List.mem_append]
    exact hs'.imp_right fun hs' => hs'.resolve_left fun heq => hne (congrArg Sender.id heq)
  cases sends_of_step hstep with
  | rests rests =>
    refine ⟨fun hdead id e he hpermit => ?_, fun hdead id e he hpermit => ?_⟩
    · rw [rests.inflight]
      exact h.waits (halive hdead) id e (rests.pending id e he) hpermit
    · rw [rests.slots, rests.pushed]
      exact h.sent (halive hdead) id e (rests.pending id e he) hpermit
  | jams asked unfit => exact absurd hmax (Nat.not_le_of_lt unfit)
  | @enters _ s asked id_eq inflight slots pushed pending =>
    refine ⟨fun hdead id e he hpermit => ?_, fun hdead id e he hpermit => ?_⟩
    · rw [inflight]
      rcases pending id e he with he | ⟨rfl, -⟩
      · obtain ⟨s', hs', hid⟩ := h.waits (halive hdead) id e he hpermit
        exact ⟨s', List.mem_append_left _ hs', hid⟩
      · exact ⟨s, List.mem_append_right _ (List.mem_singleton_self s), rfl⟩
    · rw [slots, pushed]
      rcases pending id e he with he | ⟨-, he⟩
      · exact h.sent (halive hdead) id e he hpermit
      · cases he.symm.trans hpermit
  | @lines s frame l₁ l₂ requestId kind line inflight turn slots pushed alive pending =>
    refine ⟨fun hdead id e he hpermit => ?_, fun hdead id e he hpermit => ?_⟩
    all_goals
      rw [pending] at he
      rcases OrdMap.get?_modify_eq_some.1 he with ⟨rfl, e₀, he₀, rfl⟩ | ⟨hne, he⟩
    · cases hpermit
    · obtain ⟨s', hs', rfl⟩ := h.waits (halive hdead) id e he hpermit
      exact ⟨s', inflight ▸ hrest line hs' hne, rfl⟩
    · rw [slots]
      exact .inl ⟨(s, frame), List.mem_append_right _ (List.mem_singleton_self _), requestId⟩
    · rw [slots, pushed]
      rcases h.sent (halive hdead) id e he hpermit with ⟨p, hp, hid⟩ | hf
      · exact .inl ⟨p, List.mem_append_left _ hp, hid⟩
      · exact .inr hf
  | @lapses s l₁ l₂ line inflight slots pushed gone pending =>
    refine ⟨fun hdead id e he hpermit => ?_, fun hdead id e he hpermit => ?_⟩
    · obtain ⟨s', hs', rfl⟩ := h.waits (halive hdead) id e (pending id e he) hpermit
      refine ⟨s', inflight ▸ hrest line hs' fun heq => ?_, rfl⟩
      rw [heq, gone] at he
      cases he
    · rw [slots, pushed]
      exact h.sent (halive hdead) id e (pending id e he) hpermit
  | @pushes s frame l₁ l₂ line slots turn inflight pushed pending =>
    refine ⟨fun hdead id e he hpermit => ?_, fun hdead id e he hpermit => ?_⟩
    all_goals rw [pending] at he
    · rw [inflight]
      exact h.waits (halive hdead) id e he hpermit
    · rw [slots, pushed]
      rcases h.sent (halive hdead) id e he hpermit with ⟨p, hp, hid⟩ | ⟨f, hf, hid⟩
      · rw [line] at hp
        rcases List.mem_append.1 hp with hp | hp
        · exact .inl ⟨p, List.mem_append_left _ hp, hid⟩
        · rcases List.mem_cons.1 hp with rfl | hp
          · exact .inr ⟨frame, List.mem_append_right _ (List.mem_singleton_self _), hid⟩
          · exact .inl ⟨p, List.mem_append_right _ hp, hid⟩
      · exact .inr ⟨f, List.mem_append_left _ hf, hid⟩
  | drops line slots inflight pushed dead pending =>
    refine ⟨fun hdead => ?_, fun hdead => ?_⟩
    all_goals cases dead.symm.trans (halive hdead)

/-- **A connection never waits for itself.**  Whatever the options are, as long as cancels fit in a
frame, take any state of an alive connection in which no continuation can run and the writer does
not wait for `drain`: both queues and the line for a slot are empty; every pending request with a
permit is on the wire; and a request is without a permit only when all of them are with requests on
the wire. -/
theorem sent_or_waiting (options : ClientOptions) (hmax : 24 ≤ (resolveConfig options).maxFrameLen)
    {c : Conn (resolveConfig options).toConfig} {as : List Action}
    (h : (connection (resolveConfig options).toConfig).Run (init _) as c) (halive : c.dead = false)
    (hquiet : Quiescent c) (hdrain : c.drain ≠ .listening) :
    c.priority = [] ∧ c.outbound = [] ∧ c.queueSlots.line = [] ∧
      ∀ id e, c.pending.get? id = some e →
        (e.permit = true → ∃ f ∈ c.wire.written, f.isCancel = false ∧ f.id = id) ∧
          (e.permit = false → (∃ s ∈ c.inflight.waiters, s.id = id) ∧
            c.permitsHeld = (resolveConfig options).maxInflightRequests) := by
  have hplaced : Consistent c ∧ Placed c ∧ c.Attended := h.invariant
    (I := fun c => Consistent c ∧ Placed c ∧ c.Attended)
    ⟨.init _, placed_init _, .inr (.inl rfl)⟩
    fun _ _ _ ⟨hc, hp, hat⟩ _ hstep => ⟨hc.step hstep, hp.step hmax hc hstep, hat.step hstep⟩
  obtain ⟨-, hplaced, hattended⟩ := hplaced
  have hwriting := writing_of_run h
  have hbudget : Budget c := invariant_of_run (allowed_of_run h) Budget.new
    (fun c a h => by cases a <;> exact h.congr rfl rfl rfl) Budget.move
  have hq := quiescent_iff.2 hquiet
  simp only [quiescent, Bool.and_eq_true, List.isEmpty_iff, Bool.not_eq_true', Bool.or_eq_true,
    decide_eq_true_eq] at hq
  obtain ⟨⟨⟨⟨⟨hinflight, hslots⟩, -⟩, hresumed⟩, hidle⟩, -⟩ := hq
  -- the writer sleeps at its gate, so there is nothing to write
  have hwaiter : c.writerGate.waiter = true := by
    rcases hattended with hdead | hwaiter | hres | hne
    · cases halive.symm.trans hdead
    · exact hwaiter
    · cases hresumed.symm.trans hres
    · exact absurd (hidle.resolve_right hdrain) hne
  obtain ⟨hpriority, houtbound⟩ := hwriting.asleep hwaiter
  -- all slots are free, so nobody waits for one
  have hfree := hbudget.slots halive
  rw [Semaphore.floating, hslots, houtbound] at hfree
  simp only [List.length_nil, Nat.add_zero] at hfree
  have hline : c.queueSlots.line = [] := by
    rw [Semaphore.line, hslots, List.nil_append]
    by_contra hne
    have := c.queueSlots.permits_eq_zero hne
    have := (resolveConfig_pos options).2.1
    omega
  refine ⟨hpriority, houtbound, hline, fun id e he => ⟨fun hpermit => ?_, fun hpermit => ?_⟩⟩
  · rcases hplaced.sent halive id e he hpermit with ⟨p, hp, -⟩ | ⟨f, hf, hid⟩
    · rw [hline] at hp
      cases hp
    · rw [hwriting.fifo.outbound, show c.wire.outbound = [] from houtbound, List.append_nil] at hf
      obtain ⟨hmem, hcancel⟩ := List.mem_filter.1 hf
      exact ⟨f, hmem, by simpa using hcancel, hid⟩
  · obtain ⟨s, hs, hid⟩ := hplaced.waits halive id e he hpermit
    rw [Semaphore.line, hinflight, List.nil_append] at hs
    refine ⟨⟨s, hs, hid⟩, ?_⟩
    have hpermits := hbudget.permits halive
    have hnone := c.inflight.permits_eq_zero (List.ne_nil_of_mem hs)
    rw [Semaphore.floating, hinflight, hnone] at hpermits
    simpa using hpermits

end Conn

end

namespace Conn

section

attribute [local instance] utf8Codec

/-- Options for one request at a time. -/
def oneAtATime : ClientOptions where
  bulkConnections := none
  maxInflightRequests := some (.finite 1)
  requestQueueDepth := some (.finite 1)
  maxFrameLen := some (.finite 1000)
  tls := none
  authToken := none
  connectTimeout := none

/-- With one permit, a read waits while a stats request is on the wire. -/
theorem read_waits :
    ∃ c, (connection (resolveConfig oneAtATime).toConfig).Run (init _)
      (connectActions ++ [.stats .none, .permit 2, readAll, .slot 2, .writer (.returned true)]) c ∧
      c.pending.keys = [2, 3] ∧ c.priority = [] ∧ c.outbound = [] ∧ c.queueSlots.line = [] ∧
      ∀ id e, c.pending.get? id = some e →
        (e.permit = true → ∃ f ∈ c.wire.written, f.isCancel = false ∧ f.id = id) ∧
          (e.permit = false → (∃ s ∈ c.inflight.waiters, s.id = id) ∧
            c.permitsHeld = (resolveConfig oneAtATime).maxInflightRequests) := by
  have hexec : ((connection (resolveConfig oneAtATime).toConfig).exec (init _)
      (connectActions ++ [.stats .none, .permit 2, readAll, .slot 2, .writer (.returned true)])).any
      (fun c => !c.dead && c.quiescent && decide (c.drain ≠ .listening) &&
        decide (c.pending.keys = [2, 3])) = true := by decide +kernel
  obtain ⟨c, hrun, hc⟩ := Machine.exists_run_of_exec hexec
  simp only [Bool.and_eq_true, Bool.not_eq_true', decide_eq_true_eq] at hc
  have hmax : 24 ≤ (resolveConfig oneAtATime).maxFrameLen := by decide +kernel
  exact ⟨c, hrun, hc.2, sent_or_waiting oneAtATime hmax hrun hc.1.1.1 (quiescent_iff.1 hc.1.1.2)
    hc.1.2⟩

end

end Conn

end Tephra
