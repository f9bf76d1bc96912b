import Tephra.Conn.Sending
import Tephra.Conn.Transit
import Tephra.Conn.CancelOrder
import Tephra.Conn.Writer

/-!
# The order of the requests on the wire

Whoever lines up for a permit or for a slot gets it in turn, and code that waits on a promise runs
on in the order in which the promises were resolved.  So requests reach the socket in the order of
their calls, whatever comes in between; and in whatever order they run on, none is sent twice.

* `lineup` : the ids of the requests that were sent or are on their way, front first.
* `lineup_of_step` : a step lets ids out of the line-up or takes in the next id at its end.
* `sent_in_order` : with `InTurn`, the line-up is in the order of the ids.
* `sent_once` : without it, no two frames on the wire have the same id.
-/

namespace Tephra

open Lib

section

variable [TextCodec] {cfg : Config}

/-- The id of the request in a frame. -/
def Frame.id (frame : Frame cfg) : ℤ := frame.request.requestId

namespace Conn

variable {c c' : Conn cfg}

/-- The requests pushed to the outbound queue, then those that line up for a slot, then those that
line up for a permit. -/
def lineup (c : Conn cfg) : List ℤ :=
  c.wire.pushedOutbound.map Frame.id ++
    (c.queueSlots.line.map (fun p => p.2.id) ++ c.inflight.line.map Sender.id)

/-- After `acquire` code runs on in the order in which the permits were granted. -/
def InTurn (c : Conn cfg) : Action → Prop
  | .permit id => (c.inflight.granted.head?.any fun s => s.id = id) = true
  | .slot id => (c.queueSlots.granted.head?.any fun p => p.1.id = id) = true
  | _ => True

instance (c : Conn cfg) (a : Action) : Decidable (InTurn c a) := by
  cases a <;> unfold InTurn <;> infer_instance

/-- The next id may line up; other than that a step only lets ids out, and in turn it leaves the
others where they are. -/
theorem lineup_of_step {a : Action} (hstep : c.step a = some c') : ∃ new : List ℤ,
    new.Sublist [c.idCounter + 1] ∧ c'.lineup.Subperm (c.lineup ++ new) ∧
      (InTurn c a → c'.lineup.Sublist (c.lineup ++ new)) := by
  have hold : ∀ {l : List ℤ}, l.Sublist [c.idCounter + 1] → c'.lineup.Sublist (c.lineup ++ l) →
      ∃ new : List ℤ, new.Sublist [c.idCounter + 1] ∧ c'.lineup.Subperm (c.lineup ++ new) ∧
        (InTurn c a → c'.lineup.Sublist (c.lineup ++ new)) := fun hnew hsub =>
    ⟨_, hnew, hsub.subperm, fun _ => hsub⟩
  have hsame : c'.lineup = c.lineup → c'.lineup.Sublist (c.lineup ++ []) := fun h => by
    rw [h, List.append_nil]
  -- an id changes lines or leaves; only the request that is entered brings a new one
  cases sends_of_step hstep with
  | rests rests =>
    refine hold (List.nil_sublist _) (hsame ?_)
    rw [lineup, rests.pushed, rests.slots, rests.inflight, lineup]
  | jams asked unfit inflight slots pushed =>
    refine hold (List.nil_sublist _) (hsame ?_)
    rw [lineup, pushed, slots, inflight, lineup]
  | @enters _ s asked id_eq inflight slots pushed pending =>
    refine hold (List.Sublist.refl _) ?_
    rw [lineup, pushed, slots, inflight, lineup, List.map_append, List.append_assoc,
      List.append_assoc, ← id_eq]
    exact List.Sublist.refl _
  | @lines s frame l₁ l₂ requestId kind line inflight turn slots pushed alive pending =>
    have hid : Frame.id frame = s.id := requestId
    refine ⟨[], List.nil_sublist _, List.Perm.subperm ?_, fun hturn => hsame ?_⟩
    · rw [lineup, pushed, slots, inflight, List.append_nil, lineup, line]
      simp only [List.map_append, List.map_cons, List.map_nil, hid, List.append_assoc,
        List.singleton_append]
      exact (List.perm_middle.symm.append_left _).append_left _
    · -- the first in one line becomes the last in the other
      rw [turn hturn] at line inflight
      rw [lineup, pushed, slots, inflight, lineup, line]
      simp only [List.map_append, List.map_cons, List.map_nil, hid, List.append_assoc,
        List.singleton_append, List.nil_append]
  | lapses line inflight slots pushed gone pending =>
    refine hold (List.nil_sublist _) ?_
    rw [lineup, pushed, slots, inflight, List.append_nil, lineup, line]
    exact (((List.sublist_cons_self _ _).append_left _).map _ |>.append_left _).append_left _
  | @pushes s frame l₁ l₂ line slots turn inflight pushed pending =>
    refine ⟨[], List.nil_sublist _, List.Perm.subperm ?_, fun hturn => hsame ?_⟩
    · rw [lineup, pushed, slots, inflight, List.append_nil, lineup, line]
      simp only [List.map_append, List.map_cons, List.map_nil, List.append_assoc,
        List.cons_append, List.nil_append]
      exact List.perm_middle.symm.append_left _
    · rw [turn hturn] at line slots
      rw [lineup, pushed, slots, inflight, lineup, line]
      simp only [List.map_append, List.map_cons, List.map_nil, List.append_assoc,
        List.cons_append, List.nil_append]
  | drops line slots inflight pushed dead pending =>
    refine hold (List.nil_sublist _) ?_
    rw [lineup, pushed, slots, inflight, List.append_nil, lineup, line]
    exact ((((List.sublist_cons_self _ _).append_left _).map _).append_right _).append_left _

theorem lineup_init (cfg : Config) : (init cfg).lineup = [1] := by
  rw [lineup, show (init cfg).inflight = (Semaphore.new cfg.maxInflightRequests).acquire
    { id := 1, type := .hello, outgoing := .hello cfg.authToken } from rfl, Semaphore.line_acquire]
  rfl

theorem lineup_le {ok : Conn cfg → Action → Prop} {as : List Action}
    (h : (connection cfg).RunWith ok (init cfg) as c) : ∀ id ∈ c.lineup, id ≤ c.idCounter := by
  have hc := consistent_of_run h
  intro id hid
  simp only [lineup, List.mem_append, List.mem_map] at hid
  rcases hid with ⟨f, hf, rfl⟩ | ⟨p, hp, rfl⟩ | ⟨s, hs, rfl⟩
  · exact pushed_le_of_run h f hf
  · exact hc.parked_le _ (parked_iff.2 (.inl ⟨p, Semaphore.mem_line.1 hp, rfl⟩))
  · exact hc.senders_le s (Semaphore.mem_line.1 hs)

theorem lineup_nodup {as : List Action} (h : (connection cfg).Run (init cfg) as c) :
    c.lineup.Nodup := by
  induction h with
  | start => rw [lineup_init]; exact List.nodup_singleton _
  | @snoc as a c c' hrun _ hstep ih =>
    obtain ⟨new, hnew, hsub, -⟩ := lineup_of_step hstep
    obtain ⟨l, hperm, hsub⟩ := hsub
    refine hperm.nodup_iff.1 (hsub.nodup (List.nodup_append'.2 ⟨ih, ?_, fun id hid hmem => ?_⟩))
    · exact hnew.nodup (List.nodup_singleton _)
    · have := lineup_le hrun id hid
      have := List.mem_singleton.1 (hnew.subset hmem)
      omega

theorem lineup_sorted {as : List Action} (h : (connection cfg).RunWith InTurn (init cfg) as c) :
    c.lineup.Pairwise (· < ·) := by
  induction h with
  | start => rw [lineup_init]; exact List.pairwise_singleton _ _
  | @snoc as a c c' hrun hturn hstep ih =>
    obtain ⟨new, hnew, -, hsub⟩ := lineup_of_step hstep
    refine (List.pairwise_append.2 ⟨ih, ?_, fun id hid id' hid' => ?_⟩).sublist (hsub hturn)
    · exact (List.pairwise_singleton _ _).sublist hnew
    · have := lineup_le hrun id hid
      have := List.mem_singleton.1 (hnew.subset hid')
      omega

/-- Requests go to the socket in the order of their calls: the ids of the request frames written, of
those in the outbound queue, of those that wait for a slot and of the requests that wait for a
permit are in order, whatever is cancelled, answered or fails in between. -/
theorem sent_in_order {as : List Action}
    (h : (connection cfg).RunWith InTurn (init cfg) as c) :
    (((c.wire.written.filter fun frame => !frame.isCancel) ++ c.outbound).map Frame.id ++
      (c.queueSlots.line.map (fun p => p.2.id) ++ c.inflight.line.map Sender.id)).Pairwise
        (· < ·) := by
  have hsorted := lineup_sorted h
  rwa [lineup, (writing_of_run h.run).fifo.outbound] at hsorted

/-! ### Cancels -/

/-- Cancels have ids of their own. -/
structure CancelIds (c : Conn cfg) : Prop where
  sorted : (c.wire.pushedPriority.map Frame.id).Pairwise (· < ·)
  gone : ∀ f ∈ c.wire.pushedPriority, Gone c f.id
  requests_le : ∀ f ∈ c.wire.pushedOutbound, f.id ≤ c.idCounter
  apart : ∀ f ∈ c.wire.pushedPriority, ∀ f' ∈ c.wire.pushedOutbound, f.id ≠ f'.id

theorem gone_pushCancel (hc : Consistent c) {id : ℤ} {frame : Frame cfg} {f : Call → Call}
    (hid : frame.id = c.idCounter + 1) :
    Gone (((c.pushCancel frame).finalize id).settle id f) frame.id := by
  have hpush : Gone (c.pushCancel frame) frame.id := by
    refine ⟨hid.le, hc.pending_new (by omega), fun p hp heq => ?_⟩
    have := hc.parked_le _ (parked_iff.2 (.inl ⟨p, hp, heq⟩))
    omega
  have hfinalize := hpush.finalize id
  exact ⟨hfinalize.le, hfinalize.pending, hfinalize.slots⟩

theorem CancelIds.move {g : Guard} (hc : Consistent c) (h : CancelIds c) (hm : Move g c c') :
    CancelIds c' := by
  have hgone : ∀ f ∈ c.wire.pushedPriority, Gone c' f.id := fun f hf => (h.gone f hf).move hm
  have hcounter : c.idCounter ≤ c'.idCounter := by
    rcases issued_of_move hm with ⟨heq, -⟩ | ⟨heq, -⟩ <;> omega
  -- a frame that is pushed to the outbound queue had a slot
  have hpushed : ∀ f' ∈ c'.wire.pushedOutbound, f' ∈ c.wire.pushedOutbound ∨
      ∃ s, (s, f') ∈ c.queueSlots.users := by
    cases wire_of_move hm with
    | same wire | write alive wire | priority alive entry gone request counter slots parked wire =>
      rw [wire]
      exact fun f' hf' => .inl hf'
    | @outbound s frame alive slot wire =>
      rw [wire]
      intro f' hf'
      rcases List.mem_append.1 hf' with hf' | hf'
      · exact .inl hf'
      · exact .inr ⟨s, List.mem_singleton.1 hf' ▸ slot⟩
  have hle : ∀ f' ∈ c'.wire.pushedOutbound, f'.id ≤ c.idCounter := fun f' hf' => by
    rcases hpushed f' hf' with hf' | ⟨s, hs⟩
    · exact h.requests_le f' hf'
    · exact hc.parked_le _ (parked_iff.2 (.inl ⟨_, hs, rfl⟩))
  have hapart : ∀ f ∈ c.wire.pushedPriority, ∀ f' ∈ c'.wire.pushedOutbound, f.id ≠ f'.id := by
    intro f hf f' hf'
    rcases hpushed f' hf' with hf' | ⟨s, hs⟩
    · exact h.apart f hf f' hf'
    · exact ((h.gone f hf).slots _ hs).symm
  have hle' : ∀ f' ∈ c'.wire.pushedOutbound, f'.id ≤ c'.idCounter := fun f' hf' =>
    (hle f' hf').trans hcounter
  have hkeep : c'.wire.pushedPriority = c.wire.pushedPriority → CancelIds c' := fun heq =>
    ⟨heq ▸ h.sorted, heq ▸ hgone, hle', heq ▸ hapart⟩
  cases hm with
  | @cancel id e frame f alive entry request ends parked =>
    have hid : frame.id = c.idCounter + 1 := congrArg WireRequest.requestId request
    have hwire : (((c.pushCancel frame).finalize id).settle id f).wire =
        c.wire.pushPriority frame := by
      simp only [wire_settle, wire_finalize, wire_pushCancel]
    have hmem : ∀ f' ∈ (c.wire.pushPriority frame).pushedPriority,
        f' ∈ c.wire.pushedPriority ∨ f' = frame := fun f' hf' =>
      (List.mem_append.1 hf').imp_right List.mem_singleton.1
    refine ⟨?_, fun f' hf' => ?_, hle', fun f' hf' f'' hf'' => ?_⟩
    · rw [hwire, Wire.pushPriority, List.map_append]
      refine List.pairwise_append.2
        ⟨h.sorted, List.pairwise_singleton _ _, fun id hid id' hid' => ?_⟩
      obtain ⟨f', hf', rfl⟩ := List.mem_map.1 hid
      have := (h.gone f' hf').le
      rw [List.mem_singleton.1 hid']
      omega
    · rw [hwire] at hf'
      rcases hmem f' hf' with hf' | rfl
      · exact hgone f' hf'
      · exact gone_pushCancel hc hid
    · rw [hwire] at hf'
      rcases hmem f' hf' with hf' | rfl
      · exact hapart f' hf' f'' hf''
      · have := hle f'' hf''
        omega
  | register | openStream | spend | refuse | slotPush | write =>
    exact hkeep (flatMap_log rfl (by simp [Effect.pushedPriority]))
  | acquire | deliver | consume | dropPermit | keepPermit | enqueue | slotDrop | takeFailed | gate
  | drain | destroy | jam => exact hkeep rfl
  | settle => exact hkeep (by simp only [wire_settle, wire_finalize])
  | failPermit =>
    refine hkeep ?_
    simp only [wire_settle, wire_finalize]
    rfl
  | throw =>
    refine hkeep ?_
    rw [wire_failConnection, wire_handOver]
    rfl
  | die => exact hkeep (by rw [wire_failConnection])

/-- No two frames handed to the socket have the same id: every request and every cancel is sent at
most once. -/
theorem sent_once {as : List Action} (h : (connection cfg).Run (init cfg) as c) :
    (c.wire.written.map Frame.id).Nodup := by
  have hcancels : CancelIds c := invariant_of_run (allowed_of_run h)
    ⟨.nil, fun _ hf => (by cases hf), fun _ hf => (by cases hf), fun _ hf => (by cases hf)⟩
    (fun c a hi => by
      cases a <;> exact ⟨hi.sorted, fun f hf => (by
        obtain ⟨hle, hpending, hslots⟩ := hi.gone f hf
        exact ⟨hle, hpending, hslots⟩), hi.requests_le, hi.apart⟩)
    CancelIds.move
  have hfifo := (writing_of_run h).fifo
  have hrequests : (c.wire.pushedOutbound.map Frame.id).Nodup :=
    (List.nodup_append'.1 (lineup_nodup h)).1
  have hall : ((c.wire.pushedPriority ++ c.wire.pushedOutbound).map Frame.id).Nodup := by
    rw [List.map_append]
    refine List.nodup_append'.2 ⟨hcancels.sorted.imp fun hlt => hlt.ne, hrequests, ?_⟩
    intro id hid hid'
    obtain ⟨f, hf, rfl⟩ := List.mem_map.1 hid
    obtain ⟨f', hf', heq⟩ := List.mem_map.1 hid'
    exact hcancels.apart f hf f' hf' heq.symm
  -- what is written is among what was pushed
  refine (List.Perm.nodup_iff ((List.filter_append_perm Frame.isCancel c.wire.written).map _)).1 ?_
  refine hall.sublist (List.Sublist.map _ ?_)
  rw [hfifo.priority, hfifo.outbound]
  exact (List.sublist_append_left _ _).append (List.sublist_append_left _ _)

end Conn

end

namespace Conn

section

attribute [local instance] utf8Codec

/-- While an append waits for a permit, a read is closed after its frame was queued. -/
def queueActions : List Action :=
  connectActions ++ [.stats .none, readAll, .append (.ok { events := [], condition := none }) .none,
    .permit 2, .permit 3, .slot 2, .slot 3, .closeStream 3, .writer (.returned true), .permit 4]

/-- The cancel is written before the two requests, and these in the order of their calls; the append
has its permit now and waits for a slot. -/
theorem queue_in_order : ∃ c,
    (connection twoPermits).RunWith InTurn (init twoPermits) queueActions c ∧
    c.wire.written.map Frame.id = [1, 5, 2, 3] ∧
      c.queueSlots.line.map (fun p => p.2.id) = [4] ∧
      (((c.wire.written.filter fun frame => !frame.isCancel) ++ c.outbound).map Frame.id ++
        (c.queueSlots.line.map (fun p => p.2.id) ++ c.inflight.line.map Sender.id)).Pairwise
          (· < ·) := by
  have hexec : (((connection twoPermits).restrict fun c a => decide (InTurn c a)).exec
      (init twoPermits) queueActions).any (fun c =>
        decide (c.wire.written.map Frame.id = [1, 5, 2, 3] ∧
        c.queueSlots.line.map (fun p => p.2.id) = [4])) = true := by decide +kernel
  obtain ⟨c, hrun, hc⟩ := Machine.exists_runWith_of_exec (fun _ _ => of_decide_eq_true) hexec
  obtain ⟨hwritten, hslots⟩ := of_decide_eq_true hc
  exact ⟨c, hrun, hwritten, hslots, sent_in_order hrun⟩

/-- When the send function of the read runs on first, the read is written first, and still nothing
is written twice. -/
theorem queue_once : ∃ c, (connection twoPermits).Run (init twoPermits)
    (connectActions ++ [.stats .none, readAll, .permit 3, .slot 3, .permit 2, .slot 2,
      .writer (.returned true)]) c ∧ c.wire.written.map Frame.id = [1, 3, 2] ∧
      (c.wire.written.map Frame.id).Nodup := by
  have hexec : ((connection twoPermits).exec (init twoPermits)
      (connectActions ++ [.stats .none, readAll, .permit 3, .slot 3, .permit 2, .slot 2,
        .writer (.returned true)])).any
      (fun c => decide (c.wire.written.map Frame.id = [1, 3, 2])) = true := by decide +kernel
  obtain ⟨c, hrun, hc⟩ := Machine.exists_run_of_exec hexec
  exact ⟨c, hrun, of_decide_eq_true hc, sent_once hrun⟩

end

end Conn

end Tephra
