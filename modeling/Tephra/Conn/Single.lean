import Tephra.Conn.Request

/-!
# A connection does to a request what happens to it

* `request_of_step` : a step is for each request what `happenings` says.
* `request_of_run` : a run is for each request its `story`.

Nothing is assumed about sizes: a cancel that does not fit a frame jams its request.
-/

namespace Tephra

open Lib

variable [TextCodec] {cfg : Config}

namespace Request

variable {q : Request}

omit [TextCodec] in
theorem settle_update (q : Request) (f f' : Call → Call) (cancelled : Bool) :
    (q.update f).settle f' cancelled = q.settle (f' ∘ f) cancelled := by
  simp only [update, settle, View.deliver, View.finish, Option.map_map]

omit [TextCodec] in
theorem settle_congr {call : Call} (hcall : q.view.call = some call) {f f' : Call → Call}
    (h : f call = f' call) {cancelled : Bool} : q.settle f cancelled = q.settle f' cancelled := by
  simp only [settle, View.finish, hcall, Option.map_some, h]

omit [TextCodec] in
theorem update_eq_self {call : Call} (hcall : q.view.call = some call) {f : Call → Call}
    (h : f call = call) : q.update f = q := by
  obtain ⟨⟨pending, _⟩, cancels⟩ := q
  cases hcall
  simp only [update, View.deliver, Option.map_some, h]

omit [TextCodec] in
theorem foldl_react_eq_self {hs : List Happening} (h : ∀ h ∈ hs, q.react h = q) :
    hs.foldl react q = q := by
  induction hs with
  | nil => rfl
  | cons x hs ih =>
    rw [List.foldl_cons, h x List.mem_cons_self]
    exact ih fun y hy => h y (List.mem_cons_of_mem _ hy)

omit [TextCodec] in
/-- Once a request is closed, closing it again changes nothing. -/
theorem react_close_of_closed (h : q.closed = true) (alive : Bool) :
    q.react (.close alive) = q := by
  rw [react, if_pos h]

omit [TextCodec] in
theorem react_abort_of_closed (h : q.closed = true) (err : Err) (alive : Bool) :
    q.react (.abort err alive) = q := by
  rw [react, if_pos h]

end Request

namespace Conn

variable {c c' : Conn cfg} {id : ℤ}

/-! ### Pieces of steps -/

theorem cancelCount_append {l : List (Effect cfg)} (hlog : c'.log = c.log ++ l)
    (hl : ∀ effect ∈ l, effect.pushedPriority = []) (t : ℤ) :
    c'.cancelCount t = c.cancelCount t := by
  rw [cancelCount, flatMap_log hlog hl, cancelCount]

theorem request_congr {t : ℤ} (hpending : c'.pending.get? t = c.pending.get? t)
    (hcalls : c'.calls.get? t = c.calls.get? t) (hcount : c'.cancelCount t = c.cancelCount t) :
    c'.request t = c.request t := by
  simp only [request, view, hpending, hcalls, hcount]

theorem request_update (c : Conn cfg) (id t : ℤ) (f : Call → Call) :
    (c.update id f).request t = if id = t then (c.request t).update f else c.request t := by
  split_ifs with hid
  · subst hid
    simp only [request, Request.update, View.deliver, view, update, OrdMap.get?_modify_self]
    rfl
  · exact request_congr rfl (OrdMap.get?_modify_of_ne _ (Ne.symm hid)) rfl

theorem request_settle {e : Pending} (entry : c.pending.get? id = some e) (f : Call → Call)
    (t : ℤ) :
    ((c.finalize id).settle id f).request t =
      if id = t then (c.request t).settle f false else c.request t := by
  have hchanges := changes_settle entry f
  have hcount : ((c.finalize id).settle id f).cancelCount t = c.cancelCount t := by
    obtain ⟨_, _, hfinal⟩ := c.exists_finalize id
    rw [hfinal]
    exact cancelCount_append rfl (by simp [Effect.pushedPriority]) t
  rw [request, hcount]
  split_ifs with hid
  · rw [← hid, hchanges.self]
    rfl
  · rw [hchanges.other t (Ne.symm hid)]
    rfl

theorem request_pushCancel {frame : Frame cfg}
    (request : frame.request.kind = .cancel { target := id }) (t : ℤ) :
    (c.pushCancel frame).request t =
      { view := (c.request t).view
        cancels := (c.request t).cancels + (decide (id = t)).toNat } := by
  have hcount : (c.pushCancel frame).cancelCount t = c.cancelCount t + (decide (id = t)).toNat := by
    have hlog : (c.pushCancel frame).log = c.log ++ [.issue (c.idCounter + 1), .priority frame] :=
      List.append_assoc _ _ _
    rw [cancelCount, hlog, List.flatMap_append, List.countP_append]
    simp [Effect.pushedPriority, cancelCount, request, Bool.toNat, List.countP_cons, cond_eq_ite]
  rw [Conn.request, hcount]
  rfl

theorem cancel_request {e : Pending} (entry : c.pending.get? id = some e) (f : Call → Call)
    (t : ℤ) :
    (c.canCancel id = true ∧ ∃ c₁, c.cancel id = (c₁, none) ∧ (c₁.settle id f).request t =
      if id = t then (c.request t).settle f (!c.dead) else c.request t) ∨
    c.canCancel id = false ∧ c.dead = false ∧ ∃ c₁ err, c.cancel id = (c₁, some err) ∧
      c₁.dead = false ∧ c₁.request t = c.request t := by
  rcases cancel_cases c id with
    ⟨hdead, heq⟩ | ⟨halive, err, hunfit, heq⟩ | ⟨halive, frame, hframe, heq⟩
  · refine .inl ⟨by rw [canCancel, hdead, Bool.true_or], _, heq, ?_⟩
    rw [request_settle entry, hdead, Bool.not_true]
  · refine .inr ⟨?_, halive, _, err, heq, halive, ?_⟩
    · rw [canCancel, halive, hunfit]
      rfl
    · exact request_congr rfl rfl (cancelCount_append rfl (by simp [Effect.pushedPriority]) t)
  · have hkind : frame.request.kind = .cancel { target := id } := by rw [makeFrame_eq_ok hframe]
    refine .inl ⟨by rw [canCancel, halive, hframe]; rfl, _, heq, ?_⟩
    rw [request_settle (c := c.pushCancel frame) entry, request_pushCancel hkind, halive]
    split_ifs with hid
    · simp only [Request.settle, hid, decide_true, Bool.toNat_false, Nat.add_zero, Bool.not_false]
    · simp only [hid, decide_false, Bool.toNat_false, Nat.add_zero]

theorem request_endStream {ending : ∀ {α : Type}, Sink α → Sink α} {h : Happening}
    (hc : Consistent c)
    (hstream : ∀ call, c.calls.get? id = some call → call.isStream = true)
    (hclosed : ∀ q : Request, q.closed = true → q.react h = q)
    (hopen : ∀ (q : Request) (call : Call), q.view.call = some call → call.isStream = true →
      q.closed = false → q.react h =
        q.settle ((Call.mapBase fun b => { b with sink := ending b.sink }) ∘
          Call.mapBase BaseStream.markClosed) (!c.dead)) (t : ℤ) :
    (c.endStream id ending).request t =
      if id = t then (c.request t).react (c.ending id h) else c.request t := by
  have hjam : ∀ q : Request, q.closed = true → q.react (c.ending id h) = q := fun q hq => by
    unfold Conn.ending
    split_ifs
    · exact hclosed q hq
    · rw [Request.react, if_pos hq]
  unfold endStream
  cases hcall : c.calls.get? id with
  | none =>
    have hq : (c.request id).closed = true := by
      simp only [Request.closed, request, view, hcall]
    split_ifs with hid
    · rw [← hid, hjam _ hq]
    · rfl
  | some call =>
    have hq : (c.request id).closed = call.closed := by
      simp only [Request.closed, request, view, hcall, hstream call hcall, if_true]
    simp only
    cases hcallClosed : call.closed with
    | true =>
      rw [if_pos rfl]
      split_ifs with hid
      · rw [← hid, hjam _ (hq.trans hcallClosed)]
      · rfl
    | false =>
      -- an open stream is pending
      have hhas := hc.pending_of_open id call hcall (.inr hcallClosed)
      obtain ⟨e, entry⟩ := OrdMap.exists_of_mem_keys (OrdMap.has_iff.1 hhas)
      have hhas' : (c.update id (Call.mapBase BaseStream.markClosed)).pending.has id = true := hhas
      have hupdate := request_update c id t (Call.mapBase BaseStream.markClosed)
      rw [if_neg Bool.false_ne_true, cancelStream, hhas']
      simp only [Bool.not_true, Bool.false_eq_true, if_false]
      rcases cancel_request (c := c.update id (Call.mapBase BaseStream.markClosed)) entry
          (Call.mapBase fun b => { b with sink := ending b.sink }) t with
        ⟨hcan, c₁, heq, hrequest⟩ | ⟨hcan, -, c₁, err, heq, -, hrequest⟩
      · have hcan' : c.canCancel id = true := hcan
        rw [heq]
        simp only [hrequest, hupdate]
        split_ifs with hid
        · subst hid
          rw [Conn.ending, hcan', if_pos rfl, hopen _ call hcall (hstream call hcall)
            (hq.trans hcallClosed), Request.settle_update]
          rfl
        · rfl
      · have hcan' : c.canCancel id = false := hcan
        rw [heq]
        simp only [hrequest, hupdate]
        split_ifs with hid
        · subst hid
          rw [Conn.ending, hcan', if_neg Bool.false_ne_true, Request.react, if_neg]
          rw [hq, hcallClosed]
          exact Bool.false_ne_true
        · rfl

theorem request_closeStream (hc : Consistent c)
    (hstream : ∀ call, c.calls.get? id = some call → call.isStream = true) (t : ℤ) :
    (c.closeStream id).request t =
      if id = t then (c.request t).react (c.ending id (.close !c.dead)) else c.request t := by
  refine request_endStream hc hstream (fun q hq => q.react_close_of_closed hq _)
    (fun q call hcall hs hq => ?_) t
  rw [Request.react, if_neg (by simp [hq])]
  refine Request.settle_congr hcall ?_
  cases call <;> rfl

theorem request_onAbort (hc : Consistent c)
    (hstream : ∀ call, c.calls.get? id = some call → call.isStream = true) (reason : Reason)
    (t : ℤ) :
    (c.onAbort id reason).request t =
      if id = t then (c.request t).react
        (c.ending id (.abort (asError reason "the operation was aborted") !c.dead))
      else c.request t := by
  refine request_endStream hc hstream (fun q hq => q.react_abort_of_closed hq _ _)
    (fun q call hcall hs hq => ?_) t
  rw [Request.react, if_neg (by simp [hq])]
  refine Request.settle_congr hcall ?_
  cases call with
  | read stream | subscribe stream => rfl
  | unary deferred abortListener | hello deferred => cases hs

theorem request_cancelUnary (hc : Consistent c) (id : ℤ) (err : Err)
    (hunary : ∀ call, c.calls.get? id = some call → call.isStream = false)
    (hhello : ∀ call, c.calls.get? id = some call → call.hasType .hello = false) (t : ℤ) :
    (c.cancelUnary id err).1.request t =
      if id = t then (c.request t).react (c.ending id (.abort err !c.dead)) else c.request t := by
  unfold cancelUnary
  cases entry : c.pending.get? id with
  | none =>
    -- a unary request without an entry is closed
    have hq : (c.request id).closed = true := by
      simp only [Request.closed, request, view, entry]
      cases hcall : c.calls.get? id with
      | none => rfl
      | some call => simp only [hunary call hcall, Bool.false_eq_true, if_false, Option.isNone_none]
    split_ifs with hid
    · rw [← hid, Conn.ending]
      split_ifs
      · rw [Request.react_abort_of_closed hq]
      · rw [Request.react, if_pos hq]
    · rfl
  | some e =>
    obtain ⟨call, hcall, htype⟩ := hc.entry_call id e entry
    have hq : (c.request id).closed = false := by
      simp only [Request.closed, request, view, entry, hcall, hunary call hcall, Bool.false_eq_true,
        if_false, Option.isNone_some]
    obtain ⟨expect, hexpect⟩ : ∃ expect, e.type = .unary expect := by
      have h₁ := hunary call hcall
      have h₂ := hhello call hcall
      cases call <;> cases he : e.type <;> simp_all [Call.hasType, Call.isStream]
    simp only [hexpect]
    rcases cancel_request entry (Call.reject err) t with
      ⟨hcan, c₁, heq, hrequest⟩ | ⟨hcan, -, c₁, err', heq, -, hrequest⟩
    · rw [heq]
      simp only [hrequest]
      split_ifs with hid
      · rw [← hid, Conn.ending, hcan, if_pos rfl, Request.react, if_neg (by simp [hq])]
      · rfl
    · rw [heq]
      simp only [hrequest]
      split_ifs with hid
      · -- a unary request is not jammed
        rw [← hid, Conn.ending, hcan, if_neg Bool.false_ne_true, Request.react,
          if_neg (by simp [hq])]
        refine (Request.update_eq_self hcall ?_).symm
        cases call with
        | unary deferred abortListener | hello deferred => rfl
        | read stream | subscribe stream => cases hunary _ hcall
      · rfl

theorem request_failConnection (c : Conn cfg) (err : Err) (t : ℤ) :
    (c.failConnection err).request t = (c.failing err).foldl Request.react (c.request t) := by
  cases hdead : c.dead with
  | true => rw [failConnection_of_dead err hdead, failing, hdead, if_pos rfl, List.foldl_nil]
  | false =>
    have hcalls := calls_failConnection err hdead t
    have hcount : (c.failConnection err).cancelCount t = c.cancelCount t := by
      refine cancelCount_append (l := .die err c.pending.keys :: c.pending.keys.map .settle) ?_ ?_ t
      · rw [failConnection_of_alive err hdead, List.append_assoc]
        rfl
      · intro effect heffect
        rcases List.mem_cons.1 heffect with rfl | heffect
        · rfl
        · obtain ⟨id, -, rfl⟩ := List.mem_map.1 heffect
          rfl
    have hpending : (c.failConnection err).pending.get? t = none := by
      rw [failConnection_of_alive err hdead]
      rfl
    rw [failing, hdead, if_neg Bool.false_ne_true, List.foldl_cons, List.foldl_nil, Request.react]
    simp only [request, view, hcount, hcalls, hpending]
    rcases Option.eq_none_or_eq_some (c.pending.get? t) with entry | ⟨e, entry⟩
    · simp only [OrdMap.has, entry, Option.isSome_none, Bool.false_eq_true, if_false,
        Option.isNone_none, if_true]
    · simp only [OrdMap.has, entry, Option.isSome_some, if_true, Option.isNone_some,
        Bool.false_eq_true, if_false, Request.settle, View.finish, Bool.toNat_false, Nat.add_zero]

theorem request_sendFailed (c : Conn cfg) (s : Sender) (err : Err)
    (hhandles : ∀ e, c.pending.get? s.id = some e → s.type.handles e.type = true) (t : ℤ) :
    (c.sendFailed s err).request t =
      (on s.id t [.sendFailed (asError (.error err) s.type.fallback)]).foldl Request.react
        (c.request t) := by
  rw [foldl_on, List.foldl_cons, List.foldl_nil]
  unfold sendFailed
  cases entry : c.pending.get? s.id with
  | none =>
    split_ifs with hid
    · rw [Request.react, if_pos]
      simp only [request, view, ← hid, entry, Option.isNone_none]
    · rfl
  | some e =>
    simp only [hhandles e entry, if_true, request_settle entry]
    split_ifs with hid
    · rw [Request.react, if_neg]
      simp only [request, view, ← hid, entry, Option.isNone_some, Bool.false_eq_true,
        not_false_eq_true]
    · rfl

/-! ### Routing -/

/-- What routing leaves of a request: it is `q`, or nothing has happened to it when the routing
throws. -/
def Routed (c : Conn cfg) (t : ℤ) (q : Request) : Conn cfg × Option Err → Prop
  | (c', none) => c'.request t = q
  | (c', some _) => c'.request t = c.request t ∧ c'.dead = c.dead

theorem routed_abortStream {e : Pending} (entry : c.pending.get? id = some e) (err : Err) (t : ℤ) :
    Routed c t (if id = t then (c.request t).settle (Call.reject err) (!c.dead) else c.request t)
      (c.abortStream id err) := by
  have hhas : c.pending.has id = true := by rw [OrdMap.has, entry]; rfl
  rw [abortStream, hhas]
  simp only [if_true]
  rcases cancel_request entry (Call.reject err) t with
    ⟨-, c₁, heq, hrequest⟩ | ⟨-, halive, c₁, err', heq, halive', hrequest⟩
  · rw [heq]
    exact hrequest
  · rw [heq]
    exact ⟨hrequest, halive'.trans halive.symm⟩

theorem routed_routeResponse (c : Conn cfg) (response : WireResponse) (t : ℤ) :
    Routed c t ((c.responseHappenings t response).foldl Request.react (c.request t))
      (c.routeResponse response) := by
  have hpending : ∀ {p}, c.pending.get? response.requestId = p → response.requestId = t →
      (c.request t).view.pending = p := fun hp hid => hid ▸ hp
  have hone : response.requestId ≠ 0 →
      (c.responseHappenings t response).foldl Request.react (c.request t) =
        if response.requestId = t then (c.request t).react (.response response !c.dead)
        else c.request t := fun hne => by
    rw [responseHappenings, if_neg hne, foldl_on, List.foldl_cons, List.foldl_nil]
  have hroutes := routes_routeResponse c response
  generalize c.routeResponse response = r at hroutes ⊢
  cases hroutes with
  | unattributed hzero hkind =>
    simp only [responseHappenings, if_pos hzero, hkind]
    exact request_failConnection c _ t
  | ignored hzero hkind =>
    have hnone : c.responseHappenings t response = [] := by
      rw [responseHappenings, if_pos hzero]
      split
      · exact absurd ‹_› (hkind _)
      · rfl
    rw [hnone]
    exact rfl
  | gone hne entry =>
    rw [hone hne]
    -- a response to a request that is gone
    split_ifs with hid
    · have hpending := hpending entry hid
      rw [Request.react, View.respond, Request.violatedBy, hpending]
      simp only [Option.any_none, Bool.and_false, Bool.toNat_false, Nat.add_zero]
      exact rfl
    · exact rfl
  | @settle e f hne entry hreaction =>
    have hviolates : violates e.type response.kind = false := by rw [violates_eq, hreaction]; rfl
    rw [hone hne]
    refine (request_settle entry _ t).trans ?_
    split_ifs with hid
    · rw [Request.react_response (hpending entry hid)
        (View.respond_of_pending (hpending entry hid) response), hviolates, hreaction,
        Bool.and_false]
      rfl
    · rfl
  | @deliver e f hne entry hreaction =>
    have hviolates : violates e.type response.kind = false := by rw [violates_eq, hreaction]; rfl
    rw [hone hne]
    refine (request_update c response.requestId t _).trans ?_
    split_ifs with hid
    · rw [Request.react_response (hpending entry hid)
        (View.respond_of_pending (hpending entry hid) response), hviolates, hreaction,
        Bool.and_false]
      rfl
    · rfl
  | @violate e err hne entry hreaction =>
    have hviolates : violates e.type response.kind = true := by rw [violates_eq, hreaction]; rfl
    rw [hone hne]
    have habort := routed_abortStream entry err t
    split_ifs at habort ⊢ with hid
    · rw [Request.react_response (hpending entry hid)
        (View.respond_of_pending (hpending entry hid) response), hviolates, hreaction,
        Bool.and_true]
      exact habort
    · exact habort

theorem request_routeAll (bodies : List Bytes) (t : ℤ) :
    (c.routeAll bodies).request t =
      (c.frameHappenings t bodies).foldl Request.react (c.request t) := by
  induction bodies generalizing c with
  | nil => rfl
  | cons body bodies ih =>
    rw [routeAll, frameHappenings, route]
    cases hdecode : decodeResponse body with
    | error e => exact request_failConnection c _ t
    | ok response =>
      have hrouted := routed_routeResponse c response t
      simp only
      cases hroute : c.routeResponse response with
      | mk c' thrown =>
        rw [hroute] at hrouted
        cases thrown with
        | some e =>
          obtain ⟨hrequest, hdead⟩ := hrouted
          simp only [request_failConnection, hrequest, failing, hdead]
        | none =>
          have hrequest : c'.request t = _ := hrouted
          simp only [ih, List.foldl_append, hrequest]

/-! ### Sending and writing -/

theorem request_register (hc : Consistent c) (type : PendingType) (call : Call) (t : ℤ) :
    (c.register type call).request t =
      (on (c.idCounter + 1) t [.opened type call]).foldl Request.react (c.request t) := by
  have hcount : (c.register type call).cancelCount t = c.cancelCount t :=
    cancelCount_append (l := [.issue (c.idCounter + 1)]) rfl (by simp [Effect.pushedPriority]) t
  rw [foldl_on, List.foldl_cons, List.foldl_nil]
  split_ifs with hid
  · subst hid
    have hnew := hc.calls_new (Int.lt_succ c.idCounter)
    have hcall : (c.register type call).calls.get? (c.idCounter + 1) = some call :=
      OrdMap.get?_set_self _ _ _
    have hpending : (c.register type call).pending.get? (c.idCounter + 1) =
        some { type := type, permit := false } := OrdMap.get?_set_self _ _ _
    simp only [request, view, hcount, hcall, hpending, Request.react, hnew, Option.isSome_none,
      Bool.false_eq_true, if_false]
  · exact request_congr (OrdMap.get?_set_of_ne _ (Ne.symm hid))
      (OrdMap.get?_set_of_ne _ (Ne.symm hid))
      hcount

theorem request_unary (hc : Consistent c) (kind : Outgoing) (expect : Expect) (signal : Signal)
    (t : ℤ) : (c.unary kind expect signal).request t =
      (c.unaryHappenings t expect signal).foldl Request.react (c.request t) := by
  unfold unary unaryHappenings
  rcases Bool.eq_false_or_eq_true c.dead with hdead | halive
  · rw [if_pos hdead, if_pos hdead]
    exact request_congr rfl rfl (cancelCount_append rfl (by simp [Effect.pushedPriority]) t)
  rw [if_neg (Bool.eq_false_iff.1 halive), if_neg (Bool.eq_false_iff.1 halive)]
  have hregister : ∀ listening, (c.register (.unary expect) (.unary .pending listening)).request t =
      _ := fun listening => request_register hc _ _ t
  cases signal with
  | none => exact hregister _
  | live => exact hregister _
  | aborted reason =>
    have hsignal : decide (Signal.aborted reason = .live) = false := by simp
    simp only [hsignal]
    generalize hc₁ : c.register (.unary expect) (.unary .pending false) = c₁
    have hcons : Consistent c₁ := hc₁ ▸ hc.register rfl rfl
    have hcall : c₁.calls.get? (c.idCounter + 1) = some (.unary .pending false) := by
      rw [← hc₁]
      exact OrdMap.get?_set_self _ _ _
    have hid : c₁.idCounter = c.idCounter + 1 := by rw [← hc₁]; rfl
    have hending : c₁.ending (c.idCounter + 1) (.abort (asError reason "the operation was aborted")
        !c₁.dead) = c.nextId.ending (c.idCounter + 1)
          (.abort (asError reason "the operation was aborted") true) := by
      rw [← hc₁, show (c.register (.unary expect) (.unary .pending false)).dead = false from halive]
      rfl
    have hcancel := request_cancelUnary hcons (c.idCounter + 1)
      (asError reason "the operation was aborted") (fun call h => by cases hcall.symm.trans h; rfl)
      (fun call h => by cases hcall.symm.trans h; rfl) t
    rw [hending, ← hc₁, hregister false, hc₁, foldl_on] at hcancel
    rw [hid, foldl_on]
    revert hcancel
    cases c₁.cancelUnary (c.idCounter + 1) (asError reason "the operation was aborted") with
    | mk c₂ thrown =>
      -- the send function starts afterwards, and changes nothing
      cases thrown <;>
      · intro hcancel
        refine Eq.trans hcancel ?_
        split_ifs <;> rfl

theorem request_permitGranted (hc : Consistent c) {s : Sender} {p : Sender → Bool}
    {inflight : Semaphore Sender} (resume : c.inflight.resume p = some (s, inflight)) (t : ℤ) :
    ({ c with inflight := inflight }.permitGranted s).request t =
      (on s.id t (c.permitHappenings s)).foldl Request.react (c.request t) := by
  have hs : s ∈ c.inflight.users :=
    (Semaphore.users_of_resume resume).mem_iff.2 List.mem_cons_self
  rw [foldl_on]
  unfold permitGranted
  simp only
  cases entry : c.pending.get? s.id with
  | none =>
    show c.request t = _
    split_ifs with hid
    · -- the request is gone
      have hpending : (c.request t).view.pending = none := hid ▸ entry
      refine (Request.foldl_react_eq_self fun h hmem => ?_).symm
      rcases mem_permitHappenings hmem with rfl | ⟨err, rfl⟩
      · rw [Request.react, hpending, Option.map_none]
        rw [← hpending]
      · rw [Request.react, hpending, Option.isNone_none, if_pos rfl]
    · rfl
  | some e =>
    have hhandles := (hc.sender_entry s hs e entry).2
    rcases Bool.eq_false_or_eq_true c.dead with hdead | halive
    · -- the permit is given back, and the sender fails with the connection
      have hfailed := request_sendFailed { c with inflight := inflight.release } s c.deadError
        (fun e' he' => by cases entry.symm.trans he'; exact hhandles) t
      rw [foldl_on] at hfailed
      simp only [permitHappenings, if_pos hdead]
      exact hfailed
    · -- the entry gets the permit, whether or not its frame can be made
      have hkeep : ({ c with
            inflight := inflight
            pending := c.pending.modify s.id fun entry => { entry with permit := true } } :
              Conn cfg).request t =
          if s.id = t then (c.request t).react .permit else c.request t := by
        split_ifs with hid
        · subst hid
          simp only [request, view, Request.react, OrdMap.get?_modify_self]
          rfl
        · exact request_congr (OrdMap.get?_modify_of_ne _ (Ne.symm hid)) rfl rfl
      have entry' : (c.pending.modify s.id fun entry => { entry with permit := true }).get? s.id =
          some { e with permit := true } := by rw [OrdMap.get?_modify_self, entry]; rfl
      simp only [permitHappenings, if_neg (Bool.eq_false_iff.1 halive), List.foldl_cons]
      cases hframe : s.outgoing.kind >>= fun kind =>
          makeFrame cfg { requestId := s.id, kind := kind } with
      | error err =>
        refine (request_sendFailed _ s _ (fun e' he' => ?_) t).trans ?_
        · cases entry'.symm.trans he'
          exact hhandles
        · rw [hkeep, foldl_on]
          split_ifs <;> rfl
      | ok frame => exact hkeep

theorem request_runWriter (c : Conn cfg) (outcome : WriteOutcome) (t : ℤ) :
    (c.runWriter outcome).request t =
      (c.writerHappenings outcome).foldl Request.react (c.request t) := by
  unfold runWriter writerHappenings
  by_cases hqueues : c.priority.length = 0 ∧ c.outbound.length = 0
  · rw [if_pos hqueues, if_pos hqueues]
    split_ifs <;> rfl
  rw [if_neg hqueues, if_neg hqueues]
  have hover : c.handOver.request t = c.request t :=
    request_congr rfl rfl (cancelCount_append rfl (by simp [Effect.pushedPriority]) t)
  cases outcome with
  | threw reason =>
    split_ifs with hdead
    · simp only [failing, if_pos hdead, List.foldl_nil]
    · refine (request_failConnection c.handOver _ t).trans ?_
      rw [hover]
      rfl
  | returned ok =>
    split_ifs
    · rfl
    · cases ok <;> exact hover

theorem request_rejectDrain (c : Conn cfg) (t : ℤ) : c.rejectDrain.request t = c.request t := by
  unfold rejectDrain
  split <;> rfl

/-! ### Steps and runs -/

theorem request_object {f : Call → Call} {h : Happening} (hreact : (c.request id).react h =
    (c.request id).update f) (t : ℤ) :
    (c.update id f).request t = (on id t [h]).foldl Request.react (c.request t) := by
  rw [request_update, foldl_on]
  split_ifs with hid
  · rw [← hid, List.foldl_cons, hreact, List.foldl_nil]
  · rfl

/-- A step does to each request what happens to it. -/
theorem request_of_step {a : Action} (hc : Consistent c) (hstep : c.step a = some c') (t : ℤ) :
    c'.request t = (c.happenings t a).foldl Request.react (c.request t) := by
  cases taken_of_step hstep with
  | append req signal | stats signal => exact request_unary hc _ _ _ t
  | read req signal | subscribe req signal => exact request_register hc _ _ t
  | close => exact request_failConnection c _ t
  | closeStream hcall hstream =>
    rw [request_closeStream hc (fun call' h => by cases hcall.symm.trans h; exact hstream),
      happenings, foldl_on]
    rfl
  | next => exact request_object rfl t
  | @collect id stream hcall hnone =>
    refine request_object ?_ t
    have hview : (c.request id).view.call = some (.read stream) := hcall
    simp only [Request.react, Request.update, View.deliver, hview, Option.map_some, Call.collect,
      if_pos hnone]
  | @abortStream id reason call hcall hlistening hstream =>
    -- the listener goes first
    have hc₁ : Consistent (c.update id Call.takeListener) :=
      hc.update fun call _ => (Call.extends_takeListener call).keeps
    rw [request_onAbort hc₁ (fun call' h => ?_), request_update, happenings, foldl_on]
    · split_ifs <;> rfl
    · cases (get?_update_self hcall _).symm.trans h
      cases call <;> first | rfl | cases hstream
  | @abortUnary id reason call hcall hlistening hunary =>
    have hc₁ : Consistent (c.update id Call.takeListener) :=
      hc.update fun call _ => (Call.extends_takeListener call).keeps
    have hget := get?_update_self hcall Call.takeListener
    rw [request_cancelUnary hc₁ id _ (fun call' h => ?_) (fun call' h => ?_), request_update,
      happenings, foldl_on]
    · split_ifs <;> rfl
    · cases hget.symm.trans h
      cases call <;> first | rfl | cases hunary
    · cases hget.symm.trans h
      cases call <;> first | rfl | cases hlistening
  | data chunk =>
    simp only [happenings, onData]
    cases c.decoder.push chunk with
    | mk decoder result =>
      cases result with
      | error err => exact request_failConnection _ _ t
      | ok frames => exact request_routeAll frames t
  | socketError err => exact (request_rejectDrain _ t).trans (request_failConnection c _ t)
  | socketClose => exact (request_rejectDrain _ t).trans (request_failConnection c _ t)
  | drained => rfl
  | @permit id s inflight hresume =>
    have hid : s.id = id := of_decide_eq_true (Semaphore.resume_eq_some hresume).1
    simp only [happenings, hresume]
    rw [request_permitGranted hc hresume t, hid]
  | slot =>
    unfold slotGranted
    split_ifs
    · rfl
    · exact request_congr rfl rfl (cancelCount_append rfl (by simp [Effect.pushedPriority]) t)
  | @sendFailed id s err hfound =>
    have hid : s.id = id := by simpa using List.find?_some hfound
    have hfailed := request_sendFailed { c with
        failedSends := c.failedSends.eraseP fun s => s.1.id = id } s err
      (fun e he => hc.failed_entry _ (List.mem_of_find?_eq_some hfound) e he) t
    rw [hid] at hfailed
    simp only [happenings, hfound]
    exact hfailed
  | writer outcome => exact request_runWriter _ outcome t
  | drainResumed outcome => exact request_runWriter _ outcome t
  | drainRejected hdrain =>
    simp only [happenings, hdrain]
    exact request_failConnection _ _ t
  | @abortMicrotask id reason call hcall hreason =>
    have hc₁ : Consistent (c.update id (Call.mapBase BaseStream.takeMicrotask)) :=
      hc.update fun call _ => (Call.extends_takeMicrotask call).keeps
    simp only [happenings, hcall, Option.bind_some, hreason]
    rw [request_onAbort hc₁ (fun call' h => ?_), request_update, foldl_on]
    · split_ifs <;> rfl
    · cases (get?_update_self hcall _).symm.trans h
      cases call <;> first | rfl | cases hreason
  | @collectStep id stream stream' hcall hturn =>
    refine request_object ?_ t
    have hview : (c.request id).view.call = some (.read stream) := hcall
    simp only [Request.react, Request.update, View.deliver, hview, Option.map_some,
      Call.collectStep,
      hturn, Option.getD_some]

theorem request_init (cfg : Config) (t : ℤ) :
    (init cfg).request t = (helloHappenings t).foldl Request.react .new :=
  request_register Consistent.new .hello (.hello .pending) t

/-- A run does to each request what its story says. -/
theorem request_of_run {ok : Conn cfg → Action → Prop} {as : List Action}
    (h : (connection cfg).RunWith ok (init cfg) as c) (t : ℤ) :
    c.request t = (story cfg t as).foldl Request.react .new := by
  rw [story, Request.foldl_react_new, List.foldl_append, ← request_init]
  exact h.view_eq (Consistent.init cfg) (fun _ _ _ hc _ hstep => hc.step hstep)
    fun _ _ _ hc hstep => request_of_step hc hstep t

theorem story_cases {ok : Conn cfg → Action → Prop} {as : List Action}
    (h : (connection cfg).RunWith ok (init cfg) as c) (t : ℤ) :
    story cfg t as = [] ∧ c.request t = .new ∨
      ∃ type call₀ rest, story cfg t as = .opened type call₀ :: rest ∧ type.Makes call₀ ∧
        c.request t = rest.foldl Request.react (Request.new.react (.opened type call₀)) ∧
        (c.calls.get? t).any (fun call => call.hasType type) = true := by
  have hrequest := request_of_run h t
  cases hstory : story cfg t as with
  | nil =>
    rw [hstory] at hrequest
    exact .inl ⟨rfl, hrequest⟩
  | cons x rest =>
    -- a story starts where the request is opened
    have hx : (!x.isOpened) = false := by
      have hhead := List.head?_dropWhile_not (fun h : Happening => !h.isOpened)
        (helloHappenings t ++
        (connection cfg).observe (fun c a => c.happenings t a) (init cfg) as)
      rw [show (_ : List Happening).dropWhile _ = x :: rest from hstory] at hhead
      simpa using hhead
    have hmem : x ∈ story cfg t as := by rw [hstory]; exact List.mem_cons_self
    cases x with
    | opened type call₀ =>
      have hmakes : type.Makes call₀ := by
        rcases meets_of_mem_story h hmem with heq | ⟨c₁, a, -, hmeets⟩
        · cases heq
          exact rfl
        · cases hmeets with
          | opened makes => exact makes
      rw [hstory, List.foldl_cons] at hrequest
      refine .inr ⟨type, call₀, rest, rfl, hmakes, hrequest, ?_⟩
      have htype : (Request.new.react (.opened type call₀)).view.call.any
          (fun call => call.hasType type) = true := hmakes.hasType
      have hlast := Request.hasType_foldl htype rest
      rwa [← hrequest] at hlast
    | permit | response response alive | close alive | abort err alive | jam | sendFailed err
    | died err
    | listener | microtask | next | collect | collectStep => cases hx

end Conn

end Tephra
