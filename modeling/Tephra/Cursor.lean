import Tephra.Client
import Tephra.Conn.Death
import Tephra.Conn.Transit
import Tephra.Proto.RoundTrip

/-!
# Cursors and limits

A cursor (`after` or `before`) and a limit go from a caller of the client to the wire: a default for
one that is left out, `BigInt` of a limit, the struct of the request, its bytes.  Nothing checks
their range, and `varintBig` writes a bigint modulo `2 ^ 64`.

* `cursor_received` : what a server reads off the frame of a call: its cursor and limit modulo
  `2 ^ 64`, which are the caller's own when these are below `2 ^ 64` and not negative.
* `cursor_wrapped` : the guard of an append after position −1 arrives as one after the last position
  there is.
-/

namespace Tephra

open Lib

/-- The cursor and the limit a caller passes. -/
def ClientCall.cursor? : ClientCall → Option (ℤ × Option Limit)
  | .append _ condition _ => condition.map fun condition => (condition.after, none)
  | .stats _ => none
  | .read _ after limit _ => some (after.getD Position.zero, limit)
  | .readBack _ before limit _ => some (before.getD Position.max, limit)
  | .subscribe _ after _ => some (after.getD Position.zero, none)

/-- The cursor and the limit of a request. -/
def RequestKind.cursor? : RequestKind → Option (ℤ × Option ℤ)
  | .append req => req.condition.map fun condition => (condition.after, .none)
  | .read req => some (req.after, req.limit)
  | .subscribe req => some (req.after, .none)
  | _ => .none

section

variable [TextCodec]

theorem RequestKind.cursor?_received (kind : RequestKind) :
    kind.received.cursor? =
      kind.cursor?.map fun cursor => (receivedBigInt cursor.1, cursor.2.map receivedBigInt) := by
  cases kind with
  | append req =>
    simp only [received, cursor?, WireAppendRequest.received, Option.map_map]
    rfl
  | read req | subscribe req => rfl
  | cancel req | hello req | stats | none => rfl

variable {cfg : Config}

theorem Frame.decodeRequest_drop (frame : Frame cfg) (hlen : frame.bytes.length ≤ maxArrayLength) :
    decodeRequest (frame.bytes.drop 4) = .ok frame.request.received := by
  obtain ⟨-, hlength, hdrop⟩ := writeFrame_eq_ok frame.encoded
  rw [hdrop]
  exact decodeRequest_encodeRequest_received _ (by omega)

namespace Client

variable {cl₀ cl cl' cl'' : Client cfg} {lane : Lane} {id : ℤ} {after : ℤ} {limit : Option Limit}

/-- A call that is not refused makes a request with the cursor and limit it was given. -/
theorem carries_call {call : ClientCall} (hcursor : call.cursor? = some (after, limit))
    (hlanes : ∀ lane c, cl.lane? lane = some c → ∃ as, (connection cfg).Run (Conn.init cfg) as c)
    (h : cl.call call = (cl', .ok (lane, id))) :
    ∃ limit' kind c, toBigIntLimit limit = .ok limit' ∧ kind.cursor? = some (after, limit') ∧
      cl'.lane? lane = some c ∧ c.Carries id kind := by
  cases call with
  | stats signal => cases hcursor
  | append events condition signal =>
    obtain ⟨condition, rfl, heq⟩ := Option.map_eq_some_iff.1 hcursor
    cases heq
    simp only [Client.call, append] at h
    obtain ⟨halive, rfl, rfl, hcontrol⟩ := unary_eq_ok h
    obtain ⟨as, hrun⟩ := hlanes .control _ rfl
    exact ⟨none, _, _, rfl, rfl, congrArg some hcontrol,
      Conn.carries_unary hrun halive rfl _ signal⟩
  | read query after' limit' signal | readBack query after' limit' signal =>
    cases hcursor
    simp only [Client.call, read, readBack] at h
    obtain ⟨c, limit', hc, hlimit, rfl, hc'⟩ := stream_eq_ok h
    obtain ⟨as, hrun⟩ := hlanes lane c hc
    exact ⟨limit', _, _, hlimit, rfl, hc', Conn.carries_stream hrun rfl _ _⟩
  | subscribe query after' signal =>
    cases hcursor
    simp only [Client.call, subscribe] at h
    obtain ⟨c, limit', hc, hlimit, rfl, hc'⟩ := stream_eq_ok h
    cases hlimit
    obtain ⟨as, hrun⟩ := hlanes lane c hc
    exact ⟨none, _, _, rfl, rfl, hc', Conn.carries_stream hrun rfl _ _⟩

/-- **Cursors and limits as they arrive.**  A call that is not refused gets a handle, and every
frame that is ever queued for it decodes to a request with its cursor and limit modulo `2 ^ 64`: the
very ones the caller passed, if they are unsigned 64-bit integers. -/
theorem cursor_received {call : ClientCall} {as as' : List ClientAction} {c : Conn cfg}
    {frame : Frame cfg} (hconn : cl₀.Connected) (hrun : (client cfg).Run cl₀ as cl)
    (hcursor : call.cursor? = some (after, limit)) (hcall : cl.call call = (cl', .ok (lane, id)))
    (hrun' : (client cfg).Run cl' as' cl'') (hlane : cl''.lane? lane = some c)
    (hframe : frame ∈ c.wire.pushedOutbound) (hid : frame.request.requestId = id)
    (hlen : frame.bytes.length ≤ maxArrayLength) :
    ∃ limit' request, toBigIntLimit limit = .ok limit' ∧
      decodeRequest (frame.bytes.drop 4) = .ok request ∧ request.requestId = receivedBigInt id ∧
      request.kind.cursor? = some (receivedBigInt after, limit'.map receivedBigInt) ∧
      (IsU64 after → (∀ v, limit' = some v → IsU64 v) →
        request.kind.cursor? = some (after, limit')) := by
  obtain ⟨limit', kind, c₁, hlimit, hkind, hc₁, hcarries⟩ :=
    carries_call hcursor (fun lane c hc => lane_of_run hconn hrun hc) hcall
  -- until the frame is queued, the connection of the call runs by itself
  have hstep : (client cfg).step cl (.call call) = some cl' :=
    congrArg (fun p : Client cfg × Except Err Handle => some p.1) hcall
  obtain ⟨as₁, hrun₁⟩ := lane_of_run hconn (hrun.snoc trivial hstep) hc₁
  have hruns := lanesRun_of_run hrun' lane
  rw [hc₁, hlane] at hruns
  cases hruns with
  | some hruns =>
    obtain ⟨as₂, hrun₂⟩ := hruns
    have hpushed := (Conn.carries_of_run (Conn.consistent_of_run hrun₁) hcarries hrun₂).pushed frame
      hframe hid
    have hreceived : frame.request.received.kind.cursor? =
        some (receivedBigInt after, limit'.map receivedBigInt) := by
      rw [WireRequest.received, RequestKind.cursor?_received, hpushed, hkind]
      rfl
    refine ⟨limit', _, hlimit, frame.decodeRequest_drop hlen, by rw [← hid]; rfl, hreceived, ?_⟩
    intro hafter hlimits
    rw [hreceived, hafter.received]
    cases limit' with
    | none => rfl
    | some v => rw [Option.map_some, (hlimits v rfl).received]

end Client

end

namespace Client

section

open Conn (onePermit connectActions)

attribute [local instance] utf8Codec

/-- A client without bulk connections. -/
def ofControl (c : Conn onePermit) : Client onePermit :=
  { control := c, bulk := [], nextBulk := 0, closed := false }

theorem connected_ofControl {as : List Action} {c : Conn onePermit}
    (hrun : (connection onePermit).Run (Conn.init onePermit) as c)
    (hhello : c.calls.get? 1 = some (.hello (.resolved ()))) : (ofControl c).Connected := by
  refine ⟨fun lane c' hc' => ?_, rfl, rfl⟩
  cases lane with
  | control =>
    cases hc'
    exact ⟨⟨as, hrun⟩, hhello⟩
  | bulk i => cases hc'

/-- The frame of request 2 is queued. -/
def queueing : List ClientAction := [.lane .control (.permit 2), .lane .control (.slot 2)]

/-- Whether a call on a new client is given request 2, and its queued frame carries a cursor and a
limit. -/
def queues (call : ClientCall) (cursor : ℤ × Option ℤ) (c : Conn onePermit) : Bool :=
  c.calls.get? 1 = some (.hello (.resolved ())) ∧
    ((ofControl c).call call).2.toOption = some (.control, 2) ∧
    ((client onePermit).exec ((ofControl c).call call).1 queueing).any fun cl =>
      cl.control.wire.pushedOutbound.any fun frame =>
        frame.request.requestId = 2 ∧ frame.bytes.length ≤ maxArrayLength ∧
          frame.request.kind.cursor? = some cursor

theorem exists_queued {call : ClientCall} {cursor : ℤ × Option ℤ}
    (h : ((connection onePermit).exec (Conn.init onePermit) connectActions).any
      (queues call cursor) =
      true) :
    ∃ (cl cl' cl'' : Client onePermit) (frame : Frame onePermit), cl.Connected ∧
      cl.call call = (cl', .ok (.control, 2)) ∧ (client onePermit).Run cl' queueing cl'' ∧
      frame ∈ cl''.control.wire.pushedOutbound ∧ frame.request.requestId = 2 ∧
      frame.bytes.length ≤ maxArrayLength ∧ frame.request.kind.cursor? = some cursor := by
  obtain ⟨c, hrun, hq⟩ := Machine.exists_run_of_exec h
  obtain ⟨hhello, hcall, hexec⟩ := of_decide_eq_true hq
  obtain ⟨cl'', hrun', hframes⟩ := Machine.exists_run_of_exec hexec
  obtain ⟨frame, hframe, hq'⟩ := List.any_eq_true.1 hframes
  obtain ⟨hid, hlen, hcursor⟩ := of_decide_eq_true hq'
  exact ⟨ofControl c, _, cl'', frame, connected_ofControl hrun hhello,
    Prod.ext rfl (eq_ok_of_toOption hcall), hrun', hframe, hid, hlen, hcursor⟩

/-- An append guarded by everything after position −1. -/
def guardedAppend : ClientCall :=
  .append [] (some (AppendCondition.create Query.all (-1) none)) .none

/-- The guard of an append after position −1, which is to cover the whole log, arrives as one after
the last position there is. -/
theorem cursor_wrapped : guardedAppend.cursor? = some (-1, none) ∧
    ∃ (cl cl' cl'' : Client onePermit) (frame : Frame onePermit) (request : WireRequest),
      cl.Connected ∧ cl.call guardedAppend = (cl', .ok (.control, 2)) ∧
      (client onePermit).Run cl' queueing cl'' ∧ frame ∈ cl''.control.wire.pushedOutbound ∧
      frame.request.requestId = 2 ∧ decodeRequest (frame.bytes.drop 4) = .ok request ∧
      request.kind.cursor? = some (Position.max, none) := by
  have hexec : ((connection onePermit).exec (Conn.init onePermit) connectActions).any
      (queues guardedAppend (-1, none)) = true := by decide +kernel
  obtain ⟨cl, cl', cl'', frame, hconn, hcall, hrun, hframe, hid, hlen, hcursor⟩ :=
    exists_queued hexec
  refine ⟨rfl, cl, cl', cl'', frame, _, hconn, hcall, hrun, hframe, hid,
    frame.decodeRequest_drop hlen, ?_⟩
  rw [WireRequest.received, RequestKind.cursor?_received, hcursor]
  rfl

/-- A read of the three events after position 7. -/
def readThree : ClientCall := .read Query.all (some 7) (some (.number (some 3))) .none

/-- It arrives as that. -/
theorem cursor_kept : ∃ (cl cl' cl'' : Client onePermit) (frame : Frame onePermit)
    (request : WireRequest), cl.Connected ∧ cl.call readThree = (cl', .ok (.control, 2)) ∧
      (client onePermit).Run cl' queueing cl'' ∧ frame ∈ cl''.control.wire.pushedOutbound ∧
      frame.request.requestId = 2 ∧ decodeRequest (frame.bytes.drop 4) = .ok request ∧
      request.kind.cursor? = some (7, some 3) := by
  have hexec : ((connection onePermit).exec (Conn.init onePermit) connectActions).any
      (queues readThree (7, some 3)) = true := by decide +kernel
  obtain ⟨cl, cl', cl'', frame, hconn, hcall, hrun, hframe, hid, hlen, -⟩ := exists_queued hexec
  obtain ⟨limit, request, hlimit, hdecode, -, -, hexact⟩ :=
    cursor_received hconn .start rfl hcall hrun rfl hframe hid hlen
  cases hlimit
  have hrange : ∀ v, some (3 : ℤ) = some v → IsU64 v := by
    rintro v ⟨⟩
    decide
  exact ⟨cl, cl', cl'', frame, request, hconn, hcall, hrun, hframe, hid, hdecode,
    hexact (by decide) hrange⟩

end

end Client

end Tephra
