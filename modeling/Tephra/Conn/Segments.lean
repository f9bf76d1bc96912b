import Tephra.Conn.Sending
import Tephra.Conn.Delivery

/-!
# How the socket cuts the stream

A socket hands over the bytes of its peer in chunks of its own choosing.  Without an oversized
prefix among them, the connection ends up in the same state however they are cut: the same requests
are answered, the same cancels are queued, and if a body violates the protocol the connection dies
of the same error, with the same requests pending.

* `Spent` : once a connection is dead nothing is pending; routing keeps this.
* `routeAll_append` : routing goes on where it stopped, also after a death.
* `routeAll_behind` : routing does not look at the decoder.
* `foldl_onData` : what any chunks do, in terms of their concatenation.
* `segmentation` : so all cuts of a stream lead to the same state.
-/

namespace Tephra

open Lib

section

variable [TextCodec] {cfg : Config}

namespace Conn

variable {c c' : Conn cfg}

/-! ### After a death -/

/-- If the connection is dead nothing is pending. -/
def Spent (c : Conn cfg) : Prop := c.dead = true → c.pending = .empty

namespace Spent

theorem of_alive (h : c.dead = false) : c.Spent := fun hdead =>
  absurd (h.symm.trans hdead) Bool.noConfusion

theorem failConnection (h : c.Spent) (err : Err) : (c.failConnection err).Spent := by
  rcases Bool.eq_false_or_eq_true c.dead with hdead | halive
  · rwa [failConnection_of_dead err hdead]
  · rw [failConnection_of_alive err halive]
    exact fun _ => rfl

theorem runWriter (h : c.Spent) (outcome : WriteOutcome) : (c.runWriter outcome).Spent := by
  unfold Conn.runWriter
  split_ifs
  · exact h
  · exact h
  · cases outcome with
    | threw reason => exact failConnection (c := c.handOver) h _
    | returned ok => cases ok <;> exact h

theorem aside (h : c.Spent) (ha : Aside c c') : c'.Spent := by
  cases ha with
  | update | settle | spend | pushCancel | refuse | receive | takeFailed | drained | destroy =>
    exact h
  | finalize id =>
    intro hdead
    cases entry : c.pending.get? id with
    | none =>
      rw [finalize_of_none entry] at hdead ⊢
      exact h hdead
    | some e =>
      rw [finalize_of_some entry] at hdead
      rw [h hdead] at entry
      cases entry
  | fail err => exact h.failConnection err
  | rejectDrain =>
    unfold Conn.rejectDrain
    split <;> exact h
  | writer outcome =>
    exact runWriter (c := { c with writerGate := { c.writerGate with resumed := false } }) h outcome
  | drainResumed outcome => exact runWriter (c := { c with drain := .idle }) h outcome
  | drainRejected err => exact failConnection (c := { c with drain := .idle }) h err

theorem asides (h : c.Spent) (ha : Asides c c') : c'.Spent := by
  induction ha with
  | refl => exact h
  | tail _ ha ih => exact ih.aside ha

theorem route (h : c.Spent) (body : Bytes) : (c.route body).1.Spent := by
  unfold Conn.route
  split
  · exact h
  · exact h.asides (.routeResponse c _)

theorem route_eq (h : c.Spent) (hdead : c.dead = true) (body : Bytes) : (c.route body).1 = c := by
  unfold Conn.route
  split
  · rfl
  · rename_i response _
    have hroutes := routes_routeResponse c response
    have hnone : ∀ {id : ℤ} {e : Pending}, c.pending.get? id ≠ some e := fun {id e} he => by
      rw [h hdead] at he
      cases he
    generalize c.routeResponse response = r at hroutes ⊢
    cases hroutes with
    | unattributed => exact failConnection_of_dead _ hdead
    | ignored | gone => rfl
    | settle id_ne entry | deliver id_ne entry | violate id_ne entry => exact absurd entry hnone

theorem routeAll_eq (h : c.Spent) (hdead : c.dead = true) (bodies : List Bytes) :
    c.routeAll bodies = c := by
  induction bodies with
  | nil => rfl
  | cons body bodies ih =>
    have hroute := h.route_eq hdead body
    rw [Conn.routeAll]
    split
    · rename_i heq
      rw [heq] at hroute
      simp only at hroute
      rw [hroute, failConnection_of_dead _ hdead]
    · rename_i heq
      rw [heq] at hroute
      simp only at hroute
      rw [hroute, ih]

end Spent

/-- Routing goes on where it stopped. -/
theorem routeAll_append (h : c.Spent) (bodies bodies' : List Bytes) :
    c.routeAll (bodies ++ bodies') = (c.routeAll bodies).routeAll bodies' := by
  induction bodies generalizing c with
  | nil => rfl
  | cons body bodies ih =>
    have hspent := h.route body
    rw [List.cons_append, routeAll, routeAll]
    cases hroute : c.route body with
    | mk c₁ thrown =>
      rw [hroute] at hspent
      cases thrown with
      | some err =>
        exact ((hspent.failConnection _).routeAll_eq (dead_failConnection _ _) bodies').symm
      | none => exact ih hspent

/-! ### Routing does not look at the decoder -/

/-- The connection behind another decoder and socket. -/
def behind (c : Conn cfg) (decoder : FrameDecoder) (destroyed : Bool) : Conn cfg :=
  { c with decoder := decoder, destroyed := destroyed }

section

variable (decoder : FrameDecoder) (destroyed : Bool)

theorem finalize_behind (c : Conn cfg) (id : ℤ) :
    (c.behind decoder destroyed).finalize id = (c.finalize id).behind decoder destroyed := by
  have heq : (c.behind decoder destroyed).pending = c.pending := rfl
  cases entry : c.pending.get? id with
  | none => rw [finalize_of_none entry, finalize_of_none (heq ▸ entry)]
  | some e =>
    rw [finalize_of_some entry, finalize_of_some (heq ▸ entry)]
    rfl

theorem failConnection_behind (c : Conn cfg) (err : Err) :
    (c.behind decoder destroyed).failConnection err =
      (c.failConnection err).behind decoder destroyed := by
  rcases Bool.eq_false_or_eq_true c.dead with hdead | halive
  · rw [failConnection_of_dead err hdead]
    exact failConnection_of_dead err hdead
  · rw [failConnection_of_alive err halive]
    exact failConnection_of_alive (c := c.behind decoder destroyed) err halive

theorem cancel_behind (c : Conn cfg) (id : ℤ) :
    (c.behind decoder destroyed).cancel id =
      ((c.cancel id).1.behind decoder destroyed, (c.cancel id).2) := by
  have hid : (c.behind decoder destroyed).nextId.idCounter = c.idCounter + 1 := rfl
  rcases cancel_cases c id with
    ⟨hdead, heq⟩ | ⟨halive, err, hunfit, heq⟩ | ⟨halive, frame, hframe, heq⟩
  · have hsend : (c.behind decoder destroyed).dead = true := hdead
    rw [heq]
    rw [cancel, sendCancel, if_pos hsend]
    exact Prod.ext (finalize_behind decoder destroyed c id) rfl
  · have hsend : ¬ (c.behind decoder destroyed).dead = true := Bool.eq_false_iff.1 halive
    rw [heq]
    simp only [cancel, sendCancel, if_neg hsend, hid, hunfit]
    rfl
  · have hsend : ¬ (c.behind decoder destroyed).dead = true := Bool.eq_false_iff.1 halive
    rw [heq]
    simp only [cancel, sendCancel, if_neg hsend, hid, hframe]
    exact Prod.ext (finalize_behind decoder destroyed (c.pushCancel frame) id) rfl

theorem abortStream_behind (c : Conn cfg) (id : ℤ) (err : Err) :
    (c.behind decoder destroyed).abortStream id err =
      ((c.abortStream id err).1.behind decoder destroyed, (c.abortStream id err).2) := by
  have hpending : (c.behind decoder destroyed).pending = c.pending := rfl
  unfold abortStream
  rw [hpending, cancel_behind]
  cases c.pending.has id with
  | false => rfl
  | true =>
    simp only [if_true]
    cases c.cancel id with
    | mk c₁ thrown => cases thrown <;> rfl

theorem routeResponse_behind (c : Conn cfg) (response : WireResponse) :
    (c.behind decoder destroyed).routeResponse response =
      ((c.routeResponse response).1.behind decoder destroyed, (c.routeResponse response).2) := by
  have hpending : (c.behind decoder destroyed).pending = c.pending := rfl
  unfold routeResponse
  simp only [hpending, finalize_behind, failConnection_behind]
  split_ifs
  · cases response.kind <;> rfl
  · cases c.pending.get? response.requestId with
    | none => rfl
    | some e =>
      obtain ⟨type, permit⟩ := e
      cases type with
      | hello | unary expect => rfl
      | read =>
        simp only [routeRead, finalize_behind, abortStream_behind]
        cases response.kind with
        | readEvents res =>
          simp only
          cases res.events.mapM sequencedFromWire <;> rfl
        | append res | readEnd res | error error | caughtUp res | stats res | helloAck ack | none =>
          rfl
      | subscribe =>
        simp only [routeSubscribe, finalize_behind, abortStream_behind]
        cases response.kind with
        | readEvents res =>
          simp only
          cases res.events.mapM sequencedFromWire <;> rfl
        | append res | readEnd res | error error | caughtUp res | stats res | helloAck ack | none =>
          rfl

theorem routeAll_behind (c : Conn cfg) (bodies : List Bytes) :
    (c.behind decoder destroyed).routeAll bodies =
      (c.routeAll bodies).behind decoder destroyed := by
  induction bodies generalizing c with
  | nil => rfl
  | cons body bodies ih =>
    have hroute : (c.behind decoder destroyed).route body =
        ((c.route body).1.behind decoder destroyed, (c.route body).2) := by
      unfold route
      cases decodeResponse body with
      | error err => rfl
      | ok response => exact routeResponse_behind decoder destroyed c response
    rw [routeAll, routeAll, hroute]
    cases c.route body with
    | mk c₁ thrown =>
      cases thrown with
      | some err => exact failConnection_behind decoder destroyed c₁ _
      | none => exact ih c₁

end

/-! ### Chunks -/

theorem destroyed_onData (c : Conn cfg) (chunk : Bytes) :
    (c.onData chunk).destroyed = c.destroyed := by
  unfold onData
  split
  · rename_i decoder err _
    have heq := failConnection_behind decoder c.destroyed c
      (.connCause "framing error" (asError (.error err) "framing error"))
    exact (congrArg Conn.destroyed heq).trans rfl
  · rename_i decoder frames _
    have heq := routeAll_behind decoder c.destroyed c frames
    exact (congrArg Conn.destroyed heq).trans rfl

/-- A chunk without an oversized prefix: its frames are routed, and the rest is kept. -/
theorem onData_eq {chunk : Bytes}
    (h : ((frames c.decoder.maxFrameLen).parse (c.decoder.buffer ++ chunk)).bad = false) :
    c.onData chunk =
      (c.routeAll ((frames c.decoder.maxFrameLen).parse (c.decoder.buffer ++ chunk)).values).behind
        { c.decoder with
          buffer := ((frames c.decoder.maxFrameLen).parse (c.decoder.buffer ++ chunk)).rest }
        c.destroyed := by
  rw [onData, FrameDecoder.push_of_not_bad h]
  exact routeAll_behind _ _ c _

/-- What any chunks do, in terms of their concatenation. -/
theorem foldl_onData (hspent : c.Spent)
    (hmore : frameHead c.decoder.maxFrameLen c.decoder.buffer = .more) {chunks : List Bytes}
    (h : ((frames c.decoder.maxFrameLen).parse (c.decoder.buffer ++ chunks.flatten)).bad = false) :
    chunks.foldl onData c =
      (c.routeAll
        ((frames c.decoder.maxFrameLen).parse (c.decoder.buffer ++ chunks.flatten)).values).behind
        { c.decoder with
          buffer := ((frames c.decoder.maxFrameLen).parse
            (c.decoder.buffer ++ chunks.flatten)).rest }
        c.destroyed := by
  induction chunks generalizing c with
  | nil =>
    have hparse : (frames c.decoder.maxFrameLen).parse c.decoder.buffer =
        ⟨[], c.decoder.buffer, false⟩ :=
      Splitter.parse_more hmore
    rw [List.flatten_nil, List.append_nil, hparse]
    rfl
  | cons chunk chunks ih =>
    rw [List.flatten_cons, ← List.append_assoc] at h ⊢
    have hfirst := Splitter.not_bad_of_append h
    have hrest := Splitter.head_rest (S := frames c.decoder.maxFrameLen) (c.decoder.buffer ++ chunk)
    rw [hfirst] at hrest
    rw [Splitter.parse_append _ hfirst] at h ⊢
    have hspent' : (c.onData chunk).Spent := hspent.asides (.onData c chunk)
    rw [List.foldl_cons]
    rw [onData_eq hfirst] at hspent' ⊢
    rw [ih hspent' hrest h]
    simp only [Parsed.values, Parsed.prepend, List.map_append]
    rw [routeAll_append hspent, routeAll_behind]
    rfl

/-- **How the socket cuts the stream does not matter**: in every state of an alive connection, two
ways of cutting the same bytes into chunks lead to the same state, whatever the frames in them are,
as long as none of them has an oversized prefix. -/
theorem segmentation {as : List Action} (h : (connection cfg).Run (init cfg) as c)
    (halive : c.dead = false) (hopen : c.destroyed = false) {chunks chunks' : List Bytes}
    (hbytes : chunks.flatten = chunks'.flatten)
    (hwhole : hasOversized cfg.maxFrameLen (c.decoder.buffer ++ chunks.flatten) = false) :
    ∃ c', (connection cfg).exec c (chunks.map .data) = some c' ∧
      (connection cfg).exec c (chunks'.map .data) = some c' := by
  obtain ⟨hmax, hmore⟩ := incomplete_of_run h
  have hfold : ∀ chunks : List Bytes,
      (connection cfg).exec c (chunks.map .data) = some (chunks.foldl onData c) := fun chunks => by
    clear hbytes hwhole hmore halive h hmax
    induction chunks generalizing c with
    | nil => rfl
    | cons chunk chunks ih =>
      have hstep : (connection cfg).step c (.data chunk) = some (c.onData chunk) :=
        if_neg (Bool.eq_false_iff.1 hopen)
      rw [List.map_cons, Machine.exec, hstep]
      exact ih ((destroyed_onData c chunk).trans hopen)
  refine ⟨_, hfold chunks, (hfold chunks').trans (congrArg some ?_)⟩
  rw [← hmax] at hmore hwhole
  rw [foldl_onData (.of_alive halive) (hmore halive) hwhole,
    foldl_onData (.of_alive halive) (hmore halive) (hbytes ▸ hwhole), hbytes]

end Conn

end

namespace Conn

section

attribute [local instance] utf8Codec

/-- The answer to a stats request, and then a body that is no response. -/
def brokenStream : Bytes := [0, 0, 0, 4, 8, 2, 58, 0, 0, 0, 0, 1, 10, 0, 0]

/-- In one chunk or cut inside both frames: the request is answered and then the connection dies. -/
theorem broken_segments : ∃ c c', (connection onePermit).Run (init onePermit)
    (connectActions ++ [.stats .none]) c ∧ c'.dead = true ∧
      c'.calls.get? 2 ≠ c.calls.get? 2 ∧
      (connection onePermit).exec c [.data brokenStream] = some c' ∧
        (connection onePermit).exec c
          [.data [0, 0, 0, 4, 8], .data [2, 58, 0, 0, 0], .data [0, 1, 10, 0, 0]] = some c' := by
  have hexec : ((connection onePermit).exec (init onePermit) (connectActions ++ [.stats .none])).any
      (fun c => !c.dead && !c.destroyed && decide (c.decoder.buffer = []) &&
        ((connection onePermit).exec c [.data brokenStream]).any fun c' =>
          c'.dead && decide (c'.calls.get? 2 ≠ c.calls.get? 2)) = true := by decide +kernel
  obtain ⟨c, hrun, hc⟩ := Machine.exists_run_of_exec hexec
  simp only [Bool.and_eq_true, Bool.not_eq_true', decide_eq_true_eq, Option.any_eq_true] at hc
  obtain ⟨⟨⟨halive, hopen⟩, hbuffer⟩, c', hwhole, hdead, hcalls⟩ := hc
  have hcut : [brokenStream].flatten =
      [[0, 0, 0, 4, 8], [2, 58, 0, 0, 0], [0, 1, 10, 0, 0]].flatten := rfl
  obtain ⟨c'', h, h'⟩ := segmentation hrun halive hopen hcut (by rw [hbuffer]; decide +kernel)
  cases h.symm.trans hwhole
  exact ⟨c, c', hrun, hdead, hcalls, h, h'⟩

end

end Conn

end Tephra
