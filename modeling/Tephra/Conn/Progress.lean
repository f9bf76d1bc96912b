import Tephra.Conn.Death
import Tephra.Lib.Rank

/-!
# A connection comes to rest

A continuation of a connection often makes others runnable: a permit that is given back wakes a
sender, a frame that is queued wakes the writer, an abort that is due queues a cancel.  This does
not go round in circles.  `Conn.rank` counts what is left to do, so that every continuation lowers
it.

* `Conn.rank_lt_of_step` : a continuation lowers the rank, in whatever state.
* `Conn.continuations_end` : a connection that is left alone comes to rest, in whatever order its
  continuations run, after no more of them than the rank.
-/

namespace Tephra

open Lib

/-! ### What is left to do in the parts -/

/-- How many turns of `collect()` a promise it waits on is good for, besides those for buffered
items. -/
def NextResult.turns {α : Type} : NextResult α → ℕ
  | item _ => 2
  | _ => 1

theorem NextResult.turns_pos {α : Type} (result : NextResult α) : 0 < result.turns := by
  cases result <;> exact Nat.succ_pos _

/-- As much for a promise of a sink, by its number. -/
def Sink.turns {α : Type} (s : Sink α) (k : ℕ) : ℕ := s.promises[k]?.elim 0 NextResult.turns

/-- How many turns of `collect()` are left at most. -/
def ReadStream.turns (s : ReadStream) : ℕ :=
  match s.collector with
  | some (.awaiting k _) => s.base.sink.queue.length + s.base.sink.turns k
  | _ => 0

/-- What is left to do for a call: its abort, which may queue a cancel, and its collector. -/
def Call.rank (call : Call) : ℕ :=
  3 * call.abortMicrotask.isSome.toNat +
    match call with
    | .read stream => stream.turns
    | _ => 0

/-- What is left to do at a gate. -/
def Gate.rank (g : Gate) : ℕ := 2 * g.signalled.toNat + g.resumed.toNat

/-- What is left to do about `drain`. -/
def Drain.rank : Drain → ℕ
  | .idle | .listening => 0
  | .resumed | .rejected _ => 1

theorem Gate.rank_signal_le (g : Gate) : g.signal.rank ≤ g.rank + 2 := by
  unfold signal
  split_ifs with hwaiter
  · simp only [rank, Bool.toNat_true]
    omega
  · simp only [rank, Bool.toNat_true]
    omega

theorem Gate.rank_wait_le (g : Gate) : g.wait.rank ≤ g.rank := by
  unfold wait
  split_ifs with hsignalled
  · simp only [rank, hsignalled, Bool.toNat_true, Bool.toNat_false]
    omega
  · exact le_rfl

/-- A sink that ends has as much for a collector as before. -/
structure Sink.Quiets {α : Type} (s s' : Sink α) : Prop where
  queue : s'.queue = s.queue
  turns : ∀ k, s'.turns k ≤ s.turns k

namespace Sink

variable {α : Type} {s : Sink α}

theorem Quiets.settleWaiting (s s₁ : Sink α) (hqueue : s₁.queue = s.queue)
    (hpromises : s₁.promises = s.promises) (result : NextResult α) (hresult : result.turns = 1) :
    s.Quiets (s₁.settleWaiting result) := by
  unfold Sink.settleWaiting
  split
  · refine ⟨hqueue, fun j => ?_⟩
    simp only [Sink.turns, hpromises, List.getElem?_set]
    split_ifs with hj hlt
    · subst hj
      rw [List.getElem?_eq_getElem hlt, Option.elim_some, Option.elim_some, hresult]
      exact NextResult.turns_pos _
    · exact Nat.zero_le _
    · exact le_rfl
  · exact ⟨hqueue, fun j => by rw [Sink.turns, Sink.turns, hpromises]⟩

theorem turns_last {s' : Sink α} {result : NextResult α}
    (hpromises : s'.promises = s.promises ++ [result]) :
    s'.turns s.promises.length = result.turns := by
  rw [Sink.turns, hpromises, List.getElem?_append_right le_rfl, Nat.sub_self]
  rfl

theorem turns_next (s : Sink α) :
    s.next.queue.length + s.next.turns s.promises.length < s.queue.length + 2 := by
  unfold next
  split
  · rename_i item queue hqueue
    rw [turns_last rfl, hqueue, List.length_cons]
    exact Nat.lt_succ_self _
  · rename_i hqueue
    rw [hqueue]
    split_ifs
    · split <;> rw [turns_last rfl] <;> exact Nat.one_lt_two
    · rw [turns_last rfl]
      exact Nat.one_lt_two
    · rw [turns_last rfl]
      exact Nat.one_lt_two

theorem quiets_fail (err : Err) (s : Sink α) : s.Quiets (s.fail err) := by
  unfold fail
  split_ifs
  · exact ⟨rfl, fun _ => le_rfl⟩
  · exact .settleWaiting s { s with terminalError := some err, done := true } rfl rfl
      (.failed err) rfl

end Sink

namespace ReadStream

theorem turns_lt_of_collectStep {s s' : ReadStream} (h : s.collectStep = some s') :
    s'.turns < s.turns := by
  unfold collectStep at h
  split at h
  · rename_i k events hcollector
    have hturns : s.turns = s.base.sink.queue.length + s.base.sink.turns k := by
      rw [turns, hcollector]
    rw [Sink.turns] at hturns
    split at h
    · -- the event is taken, and the next promise is for a buffered event or for what comes
      rename_i event hpromise
      cases h
      rw [hturns, hpromise]
      exact s.base.sink.turns_next
    · rename_i hpromise
      cases h
      rw [hturns, hpromise]
      exact Nat.succ_pos _
    · rename_i reason hpromise
      cases h
      rw [hturns, hpromise]
      exact Nat.succ_pos _
    · cases h
  · cases h

end ReadStream

namespace Call

/-- What a connection does to the sink and the flags of a stream leaves it no more to do. -/
theorem rank_mapBase_le (f : ∀ {α : Type}, BaseStream α → BaseStream α)
    (hsink : ∀ {α : Type} (b : BaseStream α), b.sink.Quiets (f b).sink)
    (hmicrotask : ∀ {α : Type} (b : BaseStream α),
      (f b).abortMicrotask.isSome.toNat ≤ b.abortMicrotask.isSome.toNat) (call : Call) :
    (call.mapBase f).rank ≤ call.rank := by
  cases call with
  | unary deferred abortListener | hello deferred => exact le_rfl
  | read stream =>
    refine Nat.add_le_add (Nat.mul_le_mul_left 3 (hmicrotask stream.base)) ?_
    obtain ⟨hqueue, hturns⟩ := hsink stream.base
    show ReadStream.turns { stream with base := f stream.base } ≤ stream.turns
    unfold ReadStream.turns
    split
    · rename_i hcollector
      simp only at hcollector
      rw [hqueue, hcollector]
      exact Nat.add_le_add_left (hturns _) _
    · exact Nat.zero_le _
  | subscribe stream => exact Nat.add_le_add (Nat.mul_le_mul_left 3 (hmicrotask stream)) le_rfl

theorem rank_reject_le (err : Err) (call : Call) : (call.reject err).rank ≤ call.rank := by
  cases call with
  | unary deferred abortListener | hello deferred => exact le_rfl
  | read stream =>
    exact rank_mapBase_le (·.failWith err) (fun b => b.sink.quiets_fail err) (fun _ => le_rfl)
      (read stream)
  | subscribe stream =>
    exact rank_mapBase_le (·.failWith err) (fun b => b.sink.quiets_fail err) (fun _ => le_rfl)
      (subscribe stream)

theorem rank_markClosed_le (call : Call) : (call.mapBase BaseStream.markClosed).rank ≤ call.rank :=
  rank_mapBase_le BaseStream.markClosed (fun _ => ⟨rfl, fun _ => le_rfl⟩) (fun _ => le_rfl) call

theorem rank_ending_le {ending : ∀ {α : Type}, Sink α → Sink α}
    (hend : ∀ {α : Type} (s : Sink α), s.Quiets (ending s)) (call : Call) :
    (call.mapBase fun b => { b with sink := ending b.sink }).rank ≤ call.rank :=
  rank_mapBase_le (fun b => { b with sink := ending b.sink }) (fun b => hend b.sink)
    (fun _ => le_rfl) call

theorem rank_takeMicrotask {call : Call} {reason : Reason} (h : call.abortMicrotask = some reason) :
    (call.mapBase BaseStream.takeMicrotask).rank + 3 = call.rank := by
  cases call with
  | unary deferred abortListener | hello deferred => cases h
  | read stream =>
    have hbase : stream.base.abortMicrotask = some reason := h
    simp only [rank, mapBase, abortMicrotask, BaseStream.takeMicrotask, hbase, Option.isSome_none,
      Option.isSome_some, Bool.toNat_false, Bool.toNat_true, ReadStream.turns]
    omega
  | subscribe stream =>
    have hbase : stream.abortMicrotask = some reason := h
    simp only [rank, mapBase, abortMicrotask, BaseStream.takeMicrotask, hbase, Option.isSome_none,
      Option.isSome_some, Bool.toNat_false, Bool.toNat_true]

end Call

section

variable [TextCodec] {cfg : Config}

namespace Conn

/-! ### What is left to do on a connection -/

/-- What is left to do.  A sender between `acquire` and the code after it is worth more than what it
becomes: a frame that asks for a slot, then a failure or a frame that wakes the writer.  An alive
connection may die, which wakes the writer, too. -/
def rank (c : Conn cfg) : ℕ :=
  3 * (!c.dead).toNat + 4 * c.inflight.users.length + 3 * c.queueSlots.users.length +
    c.failedSends.length + c.writerGate.rank + c.drain.rank + c.calls.sum Call.rank

variable {c c' : Conn cfg} {id : ℤ}

theorem rank_update_le {f : Call → Call}
    (h : ∀ call, c.calls.get? id = some call → (f call).rank ≤ call.rank) :
    (c.update id f).rank ≤ c.rank :=
  Nat.add_le_add_left (OrdMap.sum_modify_le h) _

theorem rank_settle_le {f : Call → Call} (h : ∀ call, (f call).rank ≤ call.rank) :
    (c.settle id f).rank ≤ c.rank := by
  show (c.update id f).rank ≤ c.rank
  exact rank_update_le fun call _ => h call

theorem rank_release (c : Conn cfg) : c.release.rank = c.rank := by
  simp only [rank, release, c.inflight.users_release.length_eq]

theorem rank_finalize (c : Conn cfg) (id : ℤ) : (c.finalize id).rank = c.rank := by
  cases entry : c.pending.get? id with
  | none => rw [finalize_of_none entry]
  | some e =>
    rw [finalize_of_some entry]
    split_ifs
    · exact rank_release c
    · rfl

theorem rank_failConnection_le (c : Conn cfg) (err : Err) :
    (c.failConnection err).rank ≤ c.rank := by
  rcases Bool.eq_false_or_eq_true c.dead with hdead | halive
  · rw [failConnection_of_dead err hdead]
  · have hgate := c.writerGate.rank_signal_le
    have hcalls := OrdMap.sum_foldl_modify_le (Call.rank_reject_le err) c.pending.keys c.calls
    rw [failConnection_of_alive err halive]
    simp only [rank, halive, c.queueSlots.users_drainWaiters.length_eq, Bool.not_false,
      Bool.not_true,
      Bool.toNat_false, Bool.toNat_true]
    omega

theorem rank_cancel_le (c : Conn cfg) (id : ℤ) : (c.cancel id).1.rank ≤ c.rank + 2 := by
  rcases cancel_cases c id with ⟨-, heq⟩ | ⟨-, err, -, heq⟩ | ⟨-, frame, -, heq⟩
  · rw [heq]
    exact (rank_finalize c id).le.trans (Nat.le_add_right _ _)
  · rw [heq]
    exact Nat.le_add_right _ _
  · rw [heq]
    refine (rank_finalize (c.pushCancel frame) id).le.trans ?_
    have hgate := c.writerGate.rank_signal_le
    simp only [rank, pushCancel, nextId, record]
    omega

theorem rank_endStream_le {ending : ∀ {α : Type}, Sink α → Sink α}
    (hend : ∀ {α : Type} (s : Sink α), s.Quiets (ending s)) (c : Conn cfg) (id : ℤ) :
    (c.endStream id ending).rank ≤ c.rank + 2 := by
  unfold endStream
  split
  · exact Nat.le_add_right _ _
  split_ifs
  · exact Nat.le_add_right _ _
  have hmark : (c.update id (Call.mapBase BaseStream.markClosed)).rank ≤ c.rank :=
    rank_update_le fun call _ => call.rank_markClosed_le
  have hcancel : ((c.update id (Call.mapBase BaseStream.markClosed)).cancelStream id).1.rank ≤
      c.rank + 2 := by
    unfold cancelStream
    split_ifs
    · exact hmark.trans (Nat.le_add_right _ _)
    · exact (rank_cancel_le _ _).trans (Nat.add_le_add_right hmark 2)
  split
  · rename_i heq
    rwa [heq] at hcancel
  · rename_i heq
    rw [heq] at hcancel
    exact (rank_settle_le (Call.rank_ending_le hend)).trans hcancel

theorem rank_sendFailed_le (c : Conn cfg) (s : Sender) (err : Err) :
    (c.sendFailed s err).rank ≤ c.rank := by
  unfold sendFailed
  split
  · exact le_rfl
  · have hfinal := (rank_finalize c s.id).le
    split_ifs
    · exact (rank_settle_le (Call.rank_reject_le _)).trans hfinal
    · exact hfinal

theorem rank_permitGranted_le (c : Conn cfg) (s : Sender) :
    (c.permitGranted s).rank ≤ c.rank + 3 := by
  unfold permitGranted
  split
  · exact (rank_release c).le.trans (Nat.le_add_right _ _)
  split_ifs
  · exact (rank_sendFailed_le _ s _).trans ((rank_release c).le.trans (Nat.le_add_right _ _))
  split
  · exact (rank_sendFailed_le _ s _).trans (Nat.le_add_right _ _)
  · rename_i frame _
    have hlength := (c.queueSlots.users_acquire (s, frame)).length_eq
    rw [List.length_cons] at hlength
    simp only [rank, enqueue, hlength]
    omega

theorem rank_slotGranted_le (c : Conn cfg) (s : Sender) (frame : Frame cfg) :
    (c.slotGranted s frame).rank ≤ c.rank + 2 := by
  unfold slotGranted
  split_ifs
  · have hlength := c.queueSlots.users_release.length_eq
    simp only [rank, hlength, List.length_append, List.length_singleton]
    omega
  · have hgate := c.writerGate.rank_signal_le
    simp only [rank, record]
    omega

theorem rank_waitGate_le (c : Conn cfg) : c.waitGate.rank ≤ c.rank := by
  have hgate := c.writerGate.rank_wait_le
  simp only [rank, waitGate]
  omega

theorem rank_runWriter_le (c : Conn cfg) (outcome : WriteOutcome) :
    (c.runWriter outcome).rank ≤ c.rank := by
  unfold runWriter
  split_ifs
  · exact le_rfl
  · exact rank_waitGate_le c
  cases outcome with
  | threw reason => exact rank_failConnection_le _ _
  | returned ok =>
    have hwrite : ∀ n, ({ c with
        priority := []
        outbound := []
        queueSlots := c.queueSlots.releaseN n } : Conn cfg).rank = c.rank := fun n => by
      simp only [rank, (c.queueSlots.users_releaseN n).length_eq]
    cases ok with
    | true => exact (rank_waitGate_le _).trans (hwrite c.outbound.length).le
    | false =>
      refine le_trans ?_ (hwrite c.outbound.length).le
      simp only [Bool.false_eq_true, if_false, rank, record, Drain.rank]
      omega

/-! ### Continuations -/

/-- Every continuation lowers the rank. -/
theorem rank_lt_of_step {a : Action} (ha : a.isContinuation = true) (hstep : c.step a = some c') :
    c'.rank < c.rank := by
  cases taken_of_step hstep with
  -- one sender less has a permit to run on with, which pays for what it does
  | @permit id s inflight resume =>
    have hlength := (Semaphore.users_of_resume resume).length_eq
    have hle := rank_permitGranted_le { c with inflight := inflight } s
    refine lt_of_le_of_lt hle ?_
    rw [List.length_cons] at hlength
    simp only [rank, hlength]
    omega
  | @slot id s frame queueSlots resume =>
    have hlength := (Semaphore.users_of_resume resume).length_eq
    have hle := rank_slotGranted_le { c with queueSlots := queueSlots } s frame
    refine lt_of_le_of_lt hle ?_
    rw [List.length_cons] at hlength
    simp only [rank, hlength]
    omega
  | @sendFailed id s err found =>
    have hmem := List.mem_of_find?_eq_some found
    have hlength := List.length_eraseP_of_mem hmem (List.find?_some found)
    have hpos := List.length_pos_of_mem hmem
    refine lt_of_le_of_lt (rank_sendFailed_le _ s err) ?_
    simp only [rank, hlength]
    omega
  | writer outcome resumed =>
    refine lt_of_le_of_lt (rank_runWriter_le _ outcome) ?_
    simp only [rank, Gate.rank, resumed, Bool.toNat_true, Bool.toNat_false]
    omega
  | drainResumed outcome drain =>
    refine lt_of_le_of_lt (rank_runWriter_le _ outcome) ?_
    simp only [rank, drain, Drain.rank]
    omega
  | drainRejected drain =>
    refine lt_of_le_of_lt (rank_failConnection_le _ _) ?_
    simp only [rank, drain, Drain.rank]
    omega
  | @abortMicrotask id reason call found microtask =>
    have hsum := OrdMap.sum_modify Call.rank (Call.mapBase BaseStream.takeMicrotask) found
    have hrank := Call.rank_takeMicrotask microtask
    refine lt_of_le_of_lt (rank_endStream_le (fun s => s.quiets_fail _) _ id) ?_
    simp only [rank, update]
    omega
  -- the collector has one promise less to take in
  | @collectStep id stream stream' found turn =>
    have hsum := OrdMap.sum_modify Call.rank (fun _ => .read stream') found
    have hturns := ReadStream.turns_lt_of_collectStep turn
    have hmicrotask : stream'.base.abortMicrotask = stream.base.abortMicrotask := by
      unfold ReadStream.collectStep at turn
      split at turn
      · split at turn <;> cases turn <;> rfl
      · cases turn
    have hrank : (Call.read stream').rank < (Call.read stream).rank := by
      simp only [Call.rank, Call.abortMicrotask, hmicrotask]
      omega
    simp only [rank, update]
    omega
  -- the other steps are no continuations
  | append | stats | read | subscribe | close | closeStream | next | collect | abortStream
  | abortUnary | data | socketError | socketClose | drained => cases ha

/-- The continuations of a connection lower its rank. -/
theorem lowers_rank (cfg : Config) :
    (connection cfg).Lowers (fun a => a.isContinuation = true) rank :=
  fun _ _ _ => rank_lt_of_step

/-- **A connection that is left alone comes to rest**: its continuations, in whatever order, are no
more than the rank, and they can run until none is left. -/
theorem continuations_end (c : Conn cfg) :
    (∀ as c', (connection cfg).RunWith (fun _ a => a.isContinuation = true) c as c' →
      as.length ≤ c.rank) ∧
    ∃ as c', (connection cfg).RunWith (fun _ a => a.isContinuation = true) c as c' ∧ c'.Quiescent :=
  ⟨fun _ _ hrun => (Nat.le_add_right _ _).trans ((lowers_rank cfg).length_le hrun),
    (lowers_rank cfg).exists_idle c⟩

end Conn

end

end Tephra
