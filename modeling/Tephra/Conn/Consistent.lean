import Tephra.Conn.Moves

/-!
# How the parts of a connection fit together

`Consistent` relates the parts of the state of a connection to each other: pending entries to the
objects of their requests, send functions to the entries they will find, ids to the counter.  Every
move keeps it (`Consistent.moves`).
-/

namespace Tephra

open Lib

variable [TextCodec]

variable {cfg : Config}

namespace Conn

/-- How the parts of a connection fit together. -/
structure Consistent (c : Conn cfg) : Prop where
  /-- Ids count from 1. -/
  counter : 0 ≤ c.idCounter
  calls_le : ∀ id call, c.calls.get? id = some call → 0 < id ∧ id ≤ c.idCounter
  /-- A pending entry has an object of its type. -/
  entry_call : ∀ id e, c.pending.get? id = some e →
    ∃ call, c.calls.get? id = some call ∧ call.hasType e.type = true
  closed_of_terminal : ∀ id call, c.calls.get? id = some call → call.terminal = true →
    call.closed = true
  /-- A request without an outcome is pending. -/
  pending_of_open : ∀ id call, c.calls.get? id = some call →
    call.terminal = false ∨ call.closed = false → c.pending.has id = true
  senders_le : ∀ s ∈ c.inflight.users, s.id ≤ c.idCounter
  /-- A request has one send function. -/
  senders_nodup : (c.inflight.users.map Sender.id).Nodup
  /-- The entry of a request that waits for its permit does not hold one. -/
  sender_entry : ∀ s ∈ c.inflight.users, ∀ e, c.pending.get? s.id = some e →
    e.permit = false ∧ s.type.handles e.type = true
  slots_le : ∀ p ∈ c.queueSlots.users, p.1.id ≤ c.idCounter
  slot_entry : ∀ p ∈ c.queueSlots.users, ∀ e, c.pending.get? p.1.id = some e →
    p.1.type.handles e.type = true
  parked_le : ∀ id, c.parked id = true → id ≤ c.idCounter
  failed_le : ∀ p ∈ c.failedSends, p.1.id ≤ c.idCounter
  failed_entry : ∀ p ∈ c.failedSends, ∀ e, c.pending.get? p.1.id = some e →
    p.1.type.handles e.type = true

namespace Consistent

variable {c : Conn cfg}

theorem pending_le (h : Consistent c) {id : ℤ} {e : Pending} (he : c.pending.get? id = some e) :
    0 < id ∧ id ≤ c.idCounter := by
  obtain ⟨call, hcall, -⟩ := h.entry_call id e he
  exact h.calls_le id call hcall

theorem pending_new (h : Consistent c) {id : ℤ} (hid : c.idCounter < id) :
    c.pending.get? id = none := by
  by_contra hne
  obtain ⟨e, he⟩ := Option.ne_none_iff_exists'.1 hne
  have := (h.pending_le he).2
  omega

theorem calls_new (h : Consistent c) {id : ℤ} (hid : c.idCounter < id) :
    c.calls.get? id = none := by
  by_contra hne
  obtain ⟨call, hcall⟩ := Option.ne_none_iff_exists'.1 hne
  have := (h.calls_le id call hcall).2
  omega

theorem new : Consistent (Conn.new cfg) where
  counter := le_rfl
  calls_le _ _ h := by cases h
  entry_call _ _ h := by cases h
  closed_of_terminal _ _ h := by cases h
  pending_of_open _ _ h := by cases h
  senders_le _ h := by cases h
  senders_nodup := List.nodup_nil
  sender_entry _ h := by cases h
  slots_le _ h := by cases h
  slot_entry _ h := by cases h
  parked_le _ h := by cases h
  failed_le _ h := by cases h
  failed_entry _ h := by cases h

theorem congr {c' : Conn cfg} (h : Consistent c) (hpending : c'.pending = c.pending)
    (hinflight : c'.inflight = c.inflight) (hslots : c'.queueSlots = c.queueSlots)
    (hcounter : c'.idCounter = c.idCounter) (hcalls : c'.calls = c.calls)
    (hfailed : c'.failedSends = c.failedSends)
    (hparked : ∀ id, c'.parked id = true → c.parked id = true) : Consistent c' := by
  have hle : ∀ id, c'.parked id = true → id ≤ c'.idCounter := fun id hp =>
    hcounter ▸ h.parked_le id (hparked id hp)
  obtain ⟨⟩ := c
  obtain ⟨⟩ := c'
  simp only at hpending hinflight hslots hcounter hcalls hfailed
  subst hpending hinflight hslots hcounter hcalls hfailed
  exact ⟨h.counter, h.calls_le, h.entry_call, h.closed_of_terminal, h.pending_of_open,
    h.senders_le, h.senders_nodup, h.sender_entry, h.slots_le, h.slot_entry, hle, h.failed_le,
    h.failed_entry⟩

theorem nextId (h : Consistent c) : Consistent c.nextId where
  counter := Int.le_add_one h.counter
  calls_le id call hcall :=
    ⟨(h.calls_le id call hcall).1, Int.le_add_one (h.calls_le id call hcall).2⟩
  entry_call := h.entry_call
  closed_of_terminal := h.closed_of_terminal
  pending_of_open := h.pending_of_open
  senders_le s hs := Int.le_add_one (h.senders_le s hs)
  senders_nodup := h.senders_nodup
  sender_entry := h.sender_entry
  slots_le p hp := Int.le_add_one (h.slots_le p hp)
  slot_entry := h.slot_entry
  parked_le id hp := Int.le_add_one (h.parked_le id hp)
  failed_le p hp := Int.le_add_one (h.failed_le p hp)
  failed_entry := h.failed_entry

theorem register (h : Consistent c) {type : PendingType} {call : Call}
    (hasType : call.hasType type = true) (fresh : call.settled = false) :
    Consistent (c.register type call) := by
  have hn := h.nextId
  have hpending : ∀ id, (c.register type call).pending.get? id =
      if id = c.idCounter + 1 then some { type := type, permit := false }
      else c.pending.get? id := fun id => OrdMap.get?_set _ _ _ _
  have hcalls : ∀ id, (c.register type call).calls.get? id =
      if id = c.idCounter + 1 then some call else c.calls.get? id :=
    fun id => OrdMap.get?_set _ _ _ _
  -- nobody has the new id yet
  have hold : ∀ {id : ℤ}, id ≤ c.idCounter →
      (c.register type call).pending.get? id = c.pending.get? id := fun {id} hle => by
    rw [hpending, if_neg (by omega)]
  refine ⟨hn.counter, fun id call' hcall => ?_, fun id e he => ?_, fun id call' hcall hterm => ?_,
    fun id call' hcall hopen => ?_, hn.senders_le, hn.senders_nodup, fun s hs e he => ?_,
    hn.slots_le, fun p hp e he => ?_, hn.parked_le, hn.failed_le, fun p hp e he => ?_⟩
  · rw [hcalls] at hcall
    split_ifs at hcall with heq
    · exact heq ▸ ⟨Int.lt_add_one_of_le h.counter, le_rfl⟩
    · exact hn.calls_le id call' hcall
  · rw [hpending] at he
    rw [hcalls]
    split_ifs at he with heq
    · cases he
      exact ⟨call, if_pos heq, hasType⟩
    · rw [if_neg heq]
      exact h.entry_call id e he
  · rw [hcalls] at hcall
    split_ifs at hcall with heq
    · cases hcall
      rw [Call.settled_of_terminal hterm] at fresh
      cases fresh
    · exact h.closed_of_terminal id call' hcall hterm
  · rw [hcalls] at hcall
    rw [OrdMap.has, hpending]
    split_ifs at hcall ⊢ with heq
    · rfl
    · exact h.pending_of_open id call' hcall hopen
  · rw [hold (h.senders_le s hs)] at he
    exact h.sender_entry s hs e he
  · rw [hold (h.slots_le p hp)] at he
    exact h.slot_entry p hp e he
  · rw [hold (h.failed_le p hp)] at he
    exact h.failed_entry p hp e he

theorem inflight (h : Consistent c) {inflight : Semaphore Sender} {l : List Sender}
    (hperm : c.inflight.users.Perm (l ++ inflight.users)) :
    Consistent { c with inflight := inflight } := by
  have hmem : ∀ s ∈ inflight.users, s ∈ c.inflight.users := fun s hs =>
    hperm.mem_iff.2 (List.mem_append_right _ hs)
  have hnodup := (hperm.map Sender.id).nodup_iff.1 h.senders_nodup
  rw [List.map_append] at hnodup
  exact ⟨h.counter, h.calls_le, h.entry_call, h.closed_of_terminal, h.pending_of_open,
    fun s hs => h.senders_le s (hmem s hs), hnodup.of_append_right,
    fun s hs => h.sender_entry s (hmem s hs), h.slots_le, h.slot_entry, h.parked_le, h.failed_le,
    h.failed_entry⟩

theorem acquire (h : Consistent c) {s : Sender} (id_le : s.id ≤ c.idCounter)
    (new : ∀ s' ∈ c.inflight.users, s'.id ≠ s.id)
    (entry : ∀ e, c.pending.get? s.id = some e → e.permit = false ∧ s.type.handles e.type = true) :
    Consistent (c.acquire s) := by
  have hperm := c.inflight.users_acquire s
  have hmem : ∀ s', s' ∈ (c.inflight.acquire s).users ↔ s' = s ∨ s' ∈ c.inflight.users :=
    fun s' => Semaphore.mem_users_acquire
  refine ⟨h.counter, h.calls_le, h.entry_call, h.closed_of_terminal, h.pending_of_open,
    fun s' hs' => ?_, ?_, fun s' hs' e he => ?_, h.slots_le, h.slot_entry, h.parked_le, h.failed_le,
    h.failed_entry⟩
  · rcases (hmem s').1 hs' with rfl | hs'
    · exact id_le
    · exact h.senders_le s' hs'
  · refine (hperm.map Sender.id).nodup_iff.2 (List.nodup_cons.2 ⟨?_, h.senders_nodup⟩)
    rintro hin
    obtain ⟨s', hs', hid⟩ := List.mem_map.1 hin
    exact new s' hs' hid
  · rcases (hmem s').1 hs' with rfl | hs'
    · exact entry e he
    · exact h.sender_entry s' hs' e he

theorem queueSlots (h : Consistent c) (queueSlots : Semaphore (Sender × Frame cfg))
    (hmem : ∀ p ∈ queueSlots.users, p ∈ c.queueSlots.users) :
    Consistent { c with queueSlots := queueSlots } := by
  refine ⟨h.counter, h.calls_le, h.entry_call, h.closed_of_terminal, h.pending_of_open,
    h.senders_le, h.senders_nodup, h.sender_entry, fun p hp => h.slots_le p (hmem p hp),
    fun p hp => h.slot_entry p (hmem p hp), fun id hp => ?_, h.failed_le, h.failed_entry⟩
  refine h.parked_le id (parked_iff.2 ((parked_iff.1 hp).imp_left ?_))
  rintro ⟨p, hp, hid⟩
  exact ⟨p, hmem p hp, hid⟩

theorem update (h : Consistent c) {id : ℤ} {f : Call → Call}
    (keeps : ∀ call, c.calls.get? id = some call → call.Keeps (f call)) :
    Consistent (c.update id f) := by
  have hcalls : ∀ id' call', (c.update id f).calls.get? id' = some call' →
      ∃ call, c.calls.get? id' = some call ∧ call.Keeps call' := by
    intro id' call' hcall
    rcases OrdMap.get?_modify_eq_some.1 hcall with ⟨rfl, call, hcall', rfl⟩ | ⟨-, hcall'⟩
    · exact ⟨call, hcall', keeps call hcall'⟩
    · exact ⟨call', hcall', .refl call'⟩
  refine ⟨h.counter, fun id' call' hcall => ?_, fun id' e he => ?_, fun id' call' hcall hterm => ?_,
    fun id' call' hcall hopen => ?_, h.senders_le, h.senders_nodup, h.sender_entry, h.slots_le,
    h.slot_entry, h.parked_le, h.failed_le, h.failed_entry⟩
  · obtain ⟨call, hcall', -⟩ := hcalls id' call' hcall
    exact h.calls_le id' call hcall'
  · obtain ⟨call, hcall, htype⟩ := h.entry_call id' e he
    rw [show (c.update id f).calls = c.calls.modify id f from rfl, OrdMap.get?_modify]
    split_ifs with heq
    · rw [hcall]
      exact ⟨f call, rfl, ((keeps call (heq ▸ hcall)).hasType _).trans htype⟩
    · exact ⟨call, hcall, htype⟩
  · obtain ⟨call, hcall', hkeeps⟩ := hcalls id' call' hcall
    exact hkeeps.closed (h.closed_of_terminal id' call hcall' (hkeeps.terminal ▸ hterm))
  · obtain ⟨call, hcall', hkeeps⟩ := hcalls id' call' hcall
    refine h.pending_of_open id' call hcall'
      (hopen.imp (fun ht => hkeeps.terminal ▸ ht) fun hc => ?_)
    exact Bool.eq_false_iff.2 fun hc' => Bool.false_ne_true (hc.symm.trans (hkeeps.closed hc'))

theorem settle (h : Consistent c) {id : ℤ} {e : Pending} {f : Call → Call}
    (entry : c.pending.get? id = some e)
    (ends : ∀ call, c.calls.get? id = some call → call.Ends (f call)) :
    Consistent ((c.finalize id).settle id f) := by
  rw [finalize_of_some entry]
  have husers : ∀ s, s ∈ (if e.permit then c.inflight.release else c.inflight).users ↔
      s ∈ c.inflight.users := fun s => by
    split_ifs
    · exact Semaphore.mem_users_release
    · rfl
  refine ⟨h.counter, fun id' call' hcall => ?_, fun id' e' he' => ?_,
    fun id' call' hcall hterm => ?_, fun id' call' hcall hopen => ?_,
    fun s hs => h.senders_le s ((husers s).1 hs), ?_,
    fun s hs e' he' => h.sender_entry s ((husers s).1 hs) e' (OrdMap.get?_delete_eq_some.1 he').2,
    h.slots_le, fun p hp e' he' => h.slot_entry p hp e' (OrdMap.get?_delete_eq_some.1 he').2,
    h.parked_le, h.failed_le,
    fun p hp e' he' => h.failed_entry p hp e' (OrdMap.get?_delete_eq_some.1 he').2⟩
  · rcases OrdMap.get?_modify_eq_some.1 hcall with ⟨rfl, call, hcall', -⟩ | ⟨-, hcall'⟩
    · exact h.calls_le id' call hcall'
    · exact h.calls_le id' call' hcall'
  · obtain ⟨hne, he'⟩ := OrdMap.get?_delete_eq_some.1 he'
    obtain ⟨call, hcall, htype⟩ := h.entry_call id' e' he'
    exact ⟨call, (OrdMap.get?_modify_of_ne f hne).trans hcall, htype⟩
  · rcases OrdMap.get?_modify_eq_some.1 hcall with ⟨-, call, hcall', rfl⟩ | ⟨-, hcall'⟩
    · exact (ends call hcall').closed
    · exact h.closed_of_terminal id' call' hcall' hterm
  · rcases OrdMap.get?_modify_eq_some.1 hcall with ⟨-, call, hcall', rfl⟩ | ⟨hne, hcall'⟩
    · -- a call with its outcome is neither open nor unsettled
      rw [(ends call hcall').terminal, (ends call hcall').closed] at hopen
      simp at hopen
    · show (c.pending.delete id).has id' = true
      rw [OrdMap.has, OrdMap.get?_delete_of_ne hne]
      exact h.pending_of_open id' call' hcall' hopen
  · show ((if e.permit then c.inflight.release else c.inflight).users.map Sender.id).Nodup
    split_ifs
    · exact ((c.inflight.users_release).map Sender.id).nodup_iff.2 h.senders_nodup
    · exact h.senders_nodup

theorem failConnection (h : Consistent c) (err : Err) : Consistent (c.failConnection err) := by
  cases hdead : c.dead with
  | true => rwa [failConnection_of_dead err hdead]
  | false =>
    have hcalls := calls_failConnection err hdead
    have hget : ∀ {id : ℤ} {call' : Call}, (c.failConnection err).calls.get? id = some call' →
        ∃ call, c.calls.get? id = some call ∧
          (call.Ends call' ∨ c.pending.has id = false ∧ call' = call) := by
      intro id call' hcall
      rw [hcalls] at hcall
      split_ifs at hcall with hp
      · obtain ⟨call, hcall', rfl⟩ := Option.map_eq_some_iff.1 hcall
        exact ⟨call, hcall', .inl (Call.ends_reject err call)⟩
      · exact ⟨call', hcall, .inr ⟨Bool.eq_false_iff.2 hp, rfl⟩⟩
    have hparked := parked_failConnection c err
    rw [failConnection_of_alive err hdead] at hget hparked ⊢
    refine ⟨h.counter, fun id call' hcall => ?_, fun id e he => (by cases he),
      fun id call' hcall hterm => ?_, fun id call' hcall hopen => ?_, h.senders_le,
      h.senders_nodup, fun s hs e he => (by cases he),
      fun p hp => h.slots_le p (Semaphore.mem_users_drainWaiters.1 hp),
      fun p hp e he => (by cases he), fun id hp => h.parked_le id ((hparked id).symm.trans hp),
      h.failed_le, fun p hp e he => (by cases he)⟩
    · obtain ⟨call, hcall', -⟩ := hget hcall
      exact h.calls_le id call hcall'
    · obtain ⟨call, hcall', hends | ⟨-, rfl⟩⟩ := hget hcall
      · exact hends.closed
      · exact h.closed_of_terminal id call' hcall' hterm
    · obtain ⟨call, hcall', hends | ⟨hnot, rfl⟩⟩ := hget hcall
      · rw [hends.terminal, hends.closed] at hopen
        simp at hopen
      · rw [h.pending_of_open id call' hcall' hopen] at hnot
        cases hnot

/-- No frame is parked in an outbound queue that was handed over. -/
theorem handOver (h : Consistent c) : Consistent c.handOver := by
  refine h.congr rfl rfl rfl rfl rfl rfl fun id hp => parked_iff.2 ?_
  rcases parked_iff.1 hp with hslot | ⟨frame, hframe, -⟩
  · exact .inl hslot
  · cases hframe

theorem resume_release (h : Consistent c) {s : Sender} {p : Sender → Bool}
    {inflight : Semaphore Sender} (resume : c.inflight.resume p = some (s, inflight)) :
    Consistent { c with inflight := inflight.release } :=
  h.inflight (l := [s]) ((Semaphore.users_of_resume resume).trans
    (inflight.users_release.symm.cons s))

/-- The entry of a request gets its permit, and its sender no longer waits. -/
theorem keepPermit (h : Consistent c) {s : Sender} {p : Sender → Bool}
    {inflight : Semaphore Sender} (resume : c.inflight.resume p = some (s, inflight)) :
    Consistent { c with
      inflight := inflight
      pending := c.pending.modify s.id fun entry => { entry with permit := true } } := by
  have hperm := Semaphore.users_of_resume resume
  have hi := h.inflight (l := [s]) hperm
  -- the entry keeps its type, and every other entry is as it was
  have hpending : ∀ {id : ℤ} {e : Pending},
      (c.pending.modify s.id fun entry => { entry with permit := true }).get? id = some e →
        ∃ e', c.pending.get? id = some e' ∧ e.type = e'.type ∧ (id ≠ s.id → e = e') := by
    intro id e he
    rcases OrdMap.get?_modify_eq_some.1 he with ⟨rfl, e', he', rfl⟩ | ⟨-, he'⟩
    · exact ⟨e', he', rfl, fun hne => absurd rfl hne⟩
    · exact ⟨e, he', rfl, fun _ => rfl⟩
  refine ⟨h.counter, h.calls_le, fun id e he => ?_, h.closed_of_terminal,
    fun id call hcall hopen => ?_, hi.senders_le, hi.senders_nodup, fun s' hs' e he => ?_,
    h.slots_le, fun q hq e he => ?_, h.parked_le, h.failed_le, fun q hq e he => ?_⟩
  · obtain ⟨e', he', htype, -⟩ := hpending he
    rw [htype]
    exact h.entry_call id e' he'
  · rw [OrdMap.has_iff, OrdMap.keys_modify, ← OrdMap.has_iff]
    exact h.pending_of_open id call hcall hopen
  · -- the other senders have other ids
    have hne : s'.id ≠ s.id := by
      have hnodup := (hperm.map Sender.id).nodup_iff.1 h.senders_nodup
      rw [List.map_cons, List.nodup_cons] at hnodup
      exact fun heq => hnodup.1 (heq ▸ List.mem_map.2 ⟨s', hs', rfl⟩)
    obtain ⟨e', he', -, heq⟩ := hpending he
    rw [heq hne]
    exact hi.sender_entry s' hs' e' he'
  · obtain ⟨e', he', htype, -⟩ := hpending he
    rw [htype]
    exact h.slot_entry q hq e' he'
  · obtain ⟨e', he', htype, -⟩ := hpending he
    rw [htype]
    exact h.failed_entry q hq e' he'

theorem enqueue (h : Consistent c) {s : Sender} {e : Pending} {frame : Frame cfg}
    (entry : c.pending.get? s.id = some e) (handles : s.type.handles e.type = true)
    (requestId : frame.request.requestId = s.id) : Consistent (c.enqueue s frame) := by
  have hmem : ∀ p, p ∈ (c.queueSlots.acquire (s, frame)).users ↔
      p = (s, frame) ∨ p ∈ c.queueSlots.users := fun p => Semaphore.mem_users_acquire
  refine ⟨h.counter, h.calls_le, h.entry_call, h.closed_of_terminal, h.pending_of_open,
    h.senders_le, h.senders_nodup, h.sender_entry, fun p hp => ?_, fun p hp e' he' => ?_,
    fun id hid => ?_, h.failed_le, h.failed_entry⟩
  · rcases (hmem p).1 hp with rfl | hp
    · exact (h.pending_le entry).2
    · exact h.slots_le p hp
  · rcases (hmem p).1 hp with rfl | hp
    · cases entry.symm.trans he'
      exact handles
    · exact h.slot_entry p hp e' he'
  · rcases parked_iff.1 hid with ⟨p, hp, rfl⟩ | hout
    · rcases (hmem p).1 hp with rfl | hp
      · exact requestId ▸ (h.pending_le entry).2
      · exact h.parked_le _ (parked_iff.2 (.inl ⟨p, hp, rfl⟩))
    · exact h.parked_le id (parked_iff.2 (.inr hout))

theorem slotPush (h : Consistent c) {s : Sender} {frame : Frame cfg}
    {p : Sender × Frame cfg → Bool} {queueSlots : Semaphore (Sender × Frame cfg)}
    (resume : c.queueSlots.resume p = some ((s, frame), queueSlots)) :
    Consistent ({ c with
      queueSlots := queueSlots
      outbound := c.outbound ++ [frame]
      writerGate := c.writerGate.signal }.record (.outbound frame)) := by
  have hperm := Semaphore.users_of_resume resume
  have hslots := h.queueSlots queueSlots fun q hq =>
    hperm.mem_iff.2 (List.mem_cons_of_mem _ hq)
  refine ⟨h.counter, h.calls_le, h.entry_call, h.closed_of_terminal, h.pending_of_open,
    h.senders_le, h.senders_nodup, h.sender_entry, hslots.slots_le, hslots.slot_entry,
    fun id hid => ?_, h.failed_le, h.failed_entry⟩
  rcases parked_iff.1 hid with ⟨q, hq, rfl⟩ | ⟨f, hf, rfl⟩
  · exact hslots.parked_le _ (parked_iff.2 (.inl ⟨q, hq, rfl⟩))
  · rcases List.mem_append.1 hf with hf | hf
    · exact h.parked_le _ (parked_iff.2 (.inr ⟨f, hf, rfl⟩))
    · rw [List.mem_singleton.1 hf]
      exact h.parked_le _
        (parked_iff.2 (.inl ⟨(s, frame), hperm.mem_iff.2 List.mem_cons_self, rfl⟩))

theorem slotDrop (h : Consistent c) {s : Sender} {frame : Frame cfg} {err : Err}
    {p : Sender × Frame cfg → Bool} {queueSlots : Semaphore (Sender × Frame cfg)}
    (resume : c.queueSlots.resume p = some ((s, frame), queueSlots)) :
    Consistent { c with
      queueSlots := queueSlots.release
      failedSends := c.failedSends ++ [(s, err)] } := by
  have hperm := Semaphore.users_of_resume resume
  have hmem : ∀ q ∈ queueSlots.release.users, q ∈ c.queueSlots.users := fun q hq =>
    hperm.mem_iff.2 (List.mem_cons_of_mem _ (Semaphore.mem_users_release.1 hq))
  have hs : (s, frame) ∈ c.queueSlots.users := hperm.mem_iff.2 List.mem_cons_self
  have hq := h.queueSlots _ hmem
  refine ⟨h.counter, h.calls_le, h.entry_call, h.closed_of_terminal, h.pending_of_open,
    h.senders_le, h.senders_nodup, h.sender_entry, hq.slots_le, hq.slot_entry, hq.parked_le,
    fun q hq => ?_, fun q hq e he => ?_⟩
  · rcases List.mem_append.1 hq with hq | hq
    · exact h.failed_le q hq
    · rw [List.mem_singleton.1 hq]
      exact h.slots_le _ hs
  · rcases List.mem_append.1 hq with hq | hq
    · exact h.failed_entry q hq e he
    · rw [List.mem_singleton.1 hq] at he ⊢
      exact h.slot_entry _ hs e he

/-- Every move keeps the parts of a connection fitting together. -/
theorem move {g : Guard} {c' : Conn cfg} (h : Consistent c) (hm : Move g c c') :
    Consistent c' := by
  cases hm with
  | register alive hasType fresh => exact h.register hasType fresh
  | acquire alive id_le new entry => exact h.acquire id_le new entry
  | openStream hasType fresh id_eq handles starved =>
    -- the request that is made has no sender yet
    refine (h.register hasType fresh).acquire (le_of_eq id_eq) (fun s' hs' => ?_) fun e he => ?_
    · have := h.senders_le s' hs'
      omega
    · rw [id_eq] at he
      cases (OrdMap.get?_set_self _ _ _).symm.trans he
      exact ⟨rfl, handles⟩
  | cancel alive entry request ends parked =>
    exact (h.nextId.congr rfl rfl rfl rfl rfl rfl fun _ hp => hp :
      Consistent (c.pushCancel _)).settle entry ends
  | settle entry ends => exact h.settle entry ends
  | deliver entry keeps _ => exact h.update keeps
  | consume extends_ => exact h.update fun call hcall => (extends_ call hcall).keeps
  | dropPermit resume gone => exact h.resume_release resume
  | failPermit resume entry dead ends => exact (h.resume_release resume).settle entry ends
  | keepPermit alive resume entry => exact h.keepPermit resume
  | enqueue alive entry requestId kind handles => exact h.enqueue entry handles requestId
  | slotPush alive resume => exact h.slotPush resume
  | slotDrop dead resume => exact h.slotDrop resume
  | takeFailed sublist =>
    exact ⟨h.counter, h.calls_le, h.entry_call, h.closed_of_terminal, h.pending_of_open,
      h.senders_le, h.senders_nodup, h.sender_entry, h.slots_le, h.slot_entry, h.parked_le,
      fun p hp => h.failed_le p (sublist.subset hp),
      fun p hp => h.failed_entry p (sublist.subset hp)⟩
  | write alive => exact h.handOver.queueSlots _ fun q hq => Semaphore.mem_users_releaseN.1 hq
  | gate waiter | drain | destroy | refuse dead =>
    exact h.congr rfl rfl rfl rfl rfl rfl fun _ hp => hp
  | throw alive => exact h.handOver.failConnection _
  | die alive => exact h.failConnection _
  | spend alive unfit => exact h.nextId
  | jam alive unfit => exact h.update fun call _ => call.keeps_markClosed

theorem moves {g : Guard} {c' : Conn cfg} (h : Consistent c) (hm : Moves g c c') :
    Consistent c' := by
  induction hm with
  | refl => exact h
  | tail _ hm ih => exact ih.move hm

end Consistent

end Conn

end Tephra
