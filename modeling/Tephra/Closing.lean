import Tephra.Connect
import Tephra.Lanes

/-!
# Closing a client

`Client.close` kills all connections at once.  What was pending fails, nothing is written to any
socket after it, and every later call is refused without doing anything.

* `Closed.run` : a closed connection stays dead, its socket destroyed, and nothing more is written.
* `lanesDo_of_closed` : a closed client makes no requests.
* `close_for_good` : what is left after `close`.
-/

namespace Tephra

open Lib

section

variable [TextCodec] {cfg : Config}

/-! ### A connection that makes no requests -/

namespace Conn

variable {c c' : Conn cfg}

theorem pending_of_step {a : Action} (hnone : a.outgoing? = none) (hstep : c.step a = some c')
    {id : ℤ} (h : c.pending.get? id = none) : c'.pending.get? id = none := by
  have hsub : (∀ e, c'.pending.get? id = some e → c.pending.get? id = some e) →
      c'.pending.get? id = none := fun hsub => by
    cases h' : c'.pending.get? id with
    | none => rfl
    | some e => cases h.symm.trans (hsub e h')
  cases sends_of_step hstep with
  | rests rests => exact hsub (rests.pending id)
  | enters asked => cases hnone.symm.trans asked
  | jams asked =>
    rw [hnone] at asked
    cases asked
  | lines requestId kind line inflight turn slots pushed alive pending =>
    rw [pending, OrdMap.get?_modify, h]
    split_ifs <;> rfl
  | lapses line inflight slots pushed gone pending => exact hsub (pending id)
  | pushes line slots turn inflight pushed pending
  | drops line slots inflight pushed dead pending => rwa [pending]

/-- What is left of a connection that was closed. -/
structure Closed (c c' : Conn cfg) : Prop where
  dead : c'.dead = true
  destroyed : c'.destroyed = true
  writes : c'.wire.writes = c.wire.writes

theorem closed_close (c : Conn cfg) : Closed c c.close where
  dead := dead_failConnection _ _
  destroyed := rfl
  writes := by
    have hfail : (c.failConnection (.conn "connection closed")).wire = c.wire :=
      wire_failConnection c _
    exact congrArg Wire.writes hfail

theorem Closed.run {c₀ : Conn cfg} (h : Closed c₀ c) (hc : Consistent c) {as : List Action}
    (hrun : (connection cfg).Run c as c') : Closed c₀ c' := by
  have hkeeps : Consistent c' ∧ c'.dead = true ∧ c'.destroyed = true :=
    hrun.invariant (I := fun c => Consistent c ∧ c.dead = true ∧ c.destroyed = true)
      ⟨hc, h.dead, h.destroyed⟩ fun c a c' hi _ hstep =>
        ⟨hi.1.step hstep, dead_of_step hi.1 hstep hi.2.1, destroyed_of_step hi.1 hstep hi.2.2⟩
  exact ⟨hkeeps.2.1, hkeeps.2.2, (writes_of_dead hrun hc h.dead).trans h.writes⟩

/-- What was pending when a live connection was closed has failed. -/
theorem failedWith_close {as : List Action} (h : (connection cfg).Run (init cfg) as c)
    (halive : c.dead = false) {id : ℤ} {e : Pending} (entry : c.pending.get? id = some e) :
    ∃ call, c.close.calls.get? id = some call ∧ call.FailedWith (.conn "connection closed") := by
  obtain ⟨call, hcall, -⟩ := (consistent_of_run h).entry_call id e entry
  have hhas : c.pending.has id = true := by rw [OrdMap.has, entry]; rfl
  refine ⟨call.reject (.conn "connection closed"), ?_,
    Call.failedWith_reject (unended_of_run h id call hhas hcall)⟩
  show (c.failConnection _).calls.get? id = _
  rw [calls_failConnection _ halive, if_pos hhas, hcall]
  rfl

end Conn

/-! ### A closed client -/

namespace Client

variable {cl₀ cl cl' cl'' : Client cfg} {lane : Lane}

theorem call_of_closed (h : cl.closed = true) (call : ClientCall) :
    cl.call call = (cl, .error .closed) := by
  cases call with
  | append | stats =>
    simp only [Client.call, append, stats, unary, h, if_true]
  | read | readBack | subscribe =>
    simp only [Client.call, read, readBack, subscribe, stream, h, if_true]

theorem close_of_closed (h : cl.closed = true) : cl.close = cl := by
  rw [close, if_pos h]

theorem closed_close (cl : Client cfg) : cl.close.closed = true := by
  unfold close
  split_ifs with h
  · exact h
  · rfl

/-- A closed client makes no requests, and stays closed. -/
theorem lanesDo_of_closed {as : List ClientAction} (hclosed : cl.closed = true)
    (h : (client cfg).Run cl as cl') :
    cl'.closed = true ∧ LanesDo (fun _ a => a.outgoing? = none) cl cl' := by
  induction h with
  | start => exact ⟨hclosed, .refl cl⟩
  | @snoc as a cl₁ cl₂ _ _ hstep ih =>
    obtain ⟨hclosed₁, hdo⟩ := ih
    cases a with
    | call call =>
      have heq : (cl₁.call call).1 = cl₂ := Option.some.inj hstep
      rw [call_of_closed hclosed₁] at heq
      exact heq ▸ ⟨hclosed₁, hdo⟩
    | close =>
      have heq : cl₁.close = cl₂ := Option.some.inj hstep
      rw [close_of_closed hclosed₁] at heq
      exact heq ▸ ⟨hclosed₁, hdo⟩
    | lane lane a =>
      have hset : ∀ (lane : Lane) (c : Conn cfg), (cl₁.setLane lane c).closed = cl₁.closed :=
        fun lane c => by cases lane <;> rfl
      refine ⟨?_, hdo.trans (lanesDo_lane Action.outgoing?_of_not_isCall hstep)⟩
      have hstep' : cl₁.step (.lane lane a) = some cl₂ := hstep
      simp only [step] at hstep'
      split_ifs at hstep'
      obtain ⟨c, hc, h⟩ := Option.bind_eq_some_iff.1 hstep'
      obtain ⟨c', -, rfl⟩ := Option.map_eq_some_iff.1 h
      exact (hset lane c').trans hclosed₁

theorem lane?_close (h : cl.closed = false) (lane : Lane) :
    cl.close.lane? lane = (cl.lane? lane).map Conn.close := by
  rw [close, if_neg (Bool.eq_false_iff.1 h)]
  cases lane with
  | control => rfl
  | bulk i => exact List.getElem?_map

theorem lane_close {c c' : Conn cfg} {as : List Action}
    (hc : ∃ as, (connection cfg).Run (Conn.init cfg) as c)
    (hrun : (connection cfg).RunWith (fun _ a => a.outgoing? = none) c.close as c') :
    Conn.Closed c c' ∧ (c.dead = false → (∀ id, c'.pending.get? id = none) ∧
      (∀ id call, c'.calls.get? id = some call → call.terminal = true) ∧
      (∀ id e, c.pending.get? id = some e → ∃ call,
        c'.calls.get? id = some call ∧ call.FailedWith (.conn "connection closed"))) := by
  obtain ⟨as₀, hrun₀⟩ := hc
  have hclose : (connection cfg).Run (Conn.init cfg) (as₀ ++ [.close]) c.close :=
    hrun₀.snoc trivial rfl
  refine ⟨c.closed_close.run (Conn.consistent_of_run hclose) hrun.run, fun halive => ?_⟩
  -- nothing is registered on a dead connection
  have hempty : ∀ id, c'.pending.get? id = none := by
    refine hrun.invariant (I := fun c => ∀ id, c.pending.get? id = none) (fun id => ?_)
      fun c a c' hi hnone hstep id => Conn.pending_of_step hnone hstep (hi id)
    show (c.failConnection _).pending.get? id = none
    rw [Conn.failConnection_of_alive _ halive]
    rfl
  refine ⟨hempty, fun id call hcall => ?_, fun id e entry => ?_⟩
  · by_contra hopen
    have hhas := (Conn.consistent_of_run (hclose.trans hrun.run)).pending_of_open id call hcall
      (.inl (Bool.eq_false_iff.2 hopen))
    rw [OrdMap.has, hempty id] at hhas
    cases hhas
  · obtain ⟨call, hcall, hfailed⟩ := Conn.failedWith_close hrun₀ halive entry
    have hgone : c.close.pending.has id = false := by
      show (c.failConnection _).pending.has id = false
      rw [Conn.failConnection_of_alive _ halive]
      rfl
    have hdead : c.close.dead = false → 24 ≤ cfg.maxFrameLen := fun h => by
      cases c.closed_close.dead.symm.trans h
    obtain ⟨call', hcall', hext⟩ :=
      Conn.extends_of_run hdead (Conn.consistent_of_run hclose) hgone hcall hrun.run
    exact ⟨call', hcall', hfailed.extends_ hext⟩

/-- **Closed for good.**  After `close`, whatever the connections still do: every call is refused
and changes nothing, and so does closing again; every connection is dead and its socket destroyed,
and nothing more was written to it.  On a connection that was alive nothing is ever pending again,
every request it ever had is settled, and those that were pending have failed. -/
theorem close_for_good {as as' : List ClientAction} (hconn : cl₀.Connected)
    (h : (client cfg).Run cl₀ as cl) (hopen : cl.closed = false)
    (h' : (client cfg).Run cl.close as' cl') :
    (∀ call, cl'.call call = (cl', .error .closed)) ∧ cl'.close = cl' ∧
      ∀ lane c', cl'.lane? lane = some c' → ∃ c, cl.lane? lane = some c ∧
        c'.dead = true ∧ c'.destroyed = true ∧ c'.wire.writes = c.wire.writes ∧
        (c.dead = false → (∀ id, c'.pending.get? id = none) ∧
          (∀ id call, c'.calls.get? id = some call → call.terminal = true) ∧
          (∀ id e, c.pending.get? id = some e → ∃ call,
            c'.calls.get? id = some call ∧ call.FailedWith (.conn "connection closed"))) := by
  obtain ⟨hclosed, hdo⟩ := lanesDo_of_closed cl.closed_close h'
  refine ⟨call_of_closed hclosed, close_of_closed hclosed, fun lane c' hc' => ?_⟩
  obtain ⟨c₁, as₁, hc₁, hrun₁⟩ := hdo.exists_run hc'
  rw [lane?_close hopen] at hc₁
  obtain ⟨c, hc, rfl⟩ := Option.map_eq_some_iff.1 hc₁
  obtain ⟨hleft, hsettled⟩ := lane_close (lane_of_run hconn h hc) hrun₁
  exact ⟨c, hc, hleft.dead, hleft.destroyed, hleft.writes, hsettled⟩

end Client

end

namespace Client

section

open Conn (onePermit)

attribute [local instance] utf8Codec

/-- A stats request is pending when the client is closed; then its control connection still runs. -/
def statsClosed (c : Conn onePermit) : Bool :=
  ((client onePermit).exec (ofBulkTwo c) [.call (.stats .none)]).any fun cl =>
    cl.closed = false ∧ cl.control.dead = false ∧
      (cl.control.pending.get? 2).isSome ∧
        ((client onePermit).exec cl.close [.lane .control (.permit 2)]).isSome

/-- It fails with the error of the close. -/
theorem stats_closed : ∃ cl₀ cl cl' : Client onePermit, cl₀.Connected ∧
    (client onePermit).Run cl₀ [.call (.stats .none)] cl ∧
      (client onePermit).Run cl.close [.lane .control (.permit 2)] cl' ∧
      cl'.control.pending.get? 2 = none ∧ ∃ call, cl'.control.calls.get? 2 = some call ∧
        call.FailedWith (.conn "connection closed") := by
  obtain ⟨c, hconn, -, hq⟩ := exists_ofBulkTwo (q := statsClosed) (by decide +kernel)
  obtain ⟨cl, hrun, hq⟩ := Machine.exists_run_of_exec hq
  obtain ⟨hopen, halive, hpending, hexec⟩ := of_decide_eq_true hq
  obtain ⟨e, entry⟩ := Option.isSome_iff_exists.1 hpending
  obtain ⟨cl', hexec⟩ := Option.isSome_iff_exists.1 hexec
  have hrun' := Machine.run_of_exec hexec
  obtain ⟨-, -, hlanes⟩ := close_for_good hconn hrun hopen hrun'
  obtain ⟨c', hc', -, -, -, hsettled⟩ := hlanes .control _ rfl
  cases hc'
  obtain ⟨hempty, -, hfailed⟩ := hsettled halive
  exact ⟨_, cl, cl', hconn, hrun, hrun', hempty 2, hfailed 2 e entry⟩

end

end Client

end Tephra
