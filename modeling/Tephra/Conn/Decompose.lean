import Tephra.Conn.Consistent
import Tephra.Conn.Inversion

/-!
# Every step is a sequence of moves

`Allowed` is the condition on a state and an action under which the step makes only the critical
moves a guard allows; it reads off which requests the step would cancel (`cancelTargets`).

* `moves_of_step` : a step, after the decoder has taken in its data, is a sequence of moves.
* `invariant_of_run` : a property that every move keeps is an invariant of runs.
-/

namespace Tephra

open Lib

variable [TextCodec]

variable {cfg : Config}

namespace Conn

/-! ### What a step may do -/

/-- Whether a response violates the protocol of the stream it is for, so that the stream is
aborted. -/
def violates (type : PendingType) (kind : ResponseKind) : Bool :=
  match type, kind with
  | .read, .readEvents res => !(res.events.mapM sequencedFromWire).toBool
  | .read, .readEnd _ => false
  | .read, .error _ => false
  | .read, _ => true
  | .subscribe, .readEvents res => !(res.events.mapM sequencedFromWire).toBool
  | .subscribe, .caughtUp _ => false
  | .subscribe, .error _ => false
  | .subscribe, _ => true
  | _, _ => false

omit [TextCodec] in
theorem violates_eq (type : PendingType) (kind : ResponseKind) :
    violates type kind = (reaction type kind).violates := by
  cases type with
  | hello | unary expect => rfl
  | read | subscribe =>
    cases kind with
    | readEvents res =>
      simp only [violates, reaction]
      cases res.events.mapM sequencedFromWire <;> rfl
    | append res | readEnd res | error error | caughtUp res | stats res | helloAck ack | none => rfl

/-- Whether cancelling a request queues a cancel frame: it is pending on a connection that is alive,
and the frame fits. -/
def cancels (c : Conn cfg) (id : ℤ) : Bool :=
  !c.dead && c.pending.has id &&
    (makeFrame cfg { requestId := c.idCounter + 1, kind := .cancel { target := id } }).toBool

/-- The request cancelled when a stream is closed or its signal aborts. -/
def endTargets (c : Conn cfg) (id : ℤ) : List ℤ :=
  match c.calls.get? id with
  | some call => if !call.closed && c.cancels id then [id] else []
  | none => []

/-- The request cancelled when a frame is routed. -/
def frameTargets (c : Conn cfg) (body : Bytes) : List ℤ :=
  match decodeResponse body with
  | .ok response =>
    match c.pending.get? response.requestId with
    | some entry =>
      if violates entry.type response.kind && c.cancels response.requestId then
        [response.requestId]
      else []
    | none => []
  | .error _ => []

/-- The requests cancelled when the frames of a chunk are routed. -/
def routeTargets (c : Conn cfg) : List Bytes → List ℤ
  | [] => []
  | body :: bodies =>
    c.frameTargets body ++
      match c.route body with
      | (c, none) => c.routeTargets bodies
      | (_, some _) => []

/-- The requests a step cancels. -/
def cancelTargets (c : Conn cfg) : Action → List ℤ
  | .closeStream id => c.endTargets id
  | .abort id _ =>
    match c.calls.get? id with
    | some call =>
      if !call.listening then []
      else if call.isStream then c.endTargets id
      else if c.cancels id then [id] else []
    | none => []
  | .abortMicrotask id => c.endTargets id
  | .data chunk =>
    match c.decoder.push chunk with
    | (decoder, .ok frames) => { c with decoder := decoder }.routeTargets frames
    | (_, .error _) => []
  | _ => []

end Conn

/-- Whether an action opens a stream. -/
def Action.opensStream : Action → Bool
  | .read _ _ | .subscribe _ _ => true
  | _ => false

/-- A step makes only the critical moves that `g` allows. -/
structure Allowed (g : Guard) (c : Conn cfg) (a : Action) : Prop where
  openStarved : a.opensStream = true → c.dead = true → c.starved = true → g.openStarved
  cancelParked : ∀ id ∈ c.cancelTargets a, c.parked id = true → g.cancelParked

theorem Allowed.all (c : Conn cfg) (a : Action) : Allowed Guard.all c a :=
  ⟨fun _ _ _ => trivial, fun _ _ _ => trivial⟩

namespace Conn

/-! ### Pieces of steps -/

variable {g : Guard} {c : Conn cfg} {id : ℤ}

theorem finalize_update (c : Conn cfg) (id : ℤ) (f : Call → Call) :
    (c.update id f).finalize id = (c.finalize id).update id f := by
  cases h : c.pending.get? id with
  | none =>
    rw [finalize_of_none h, finalize_of_none (show (c.update id f).pending.get? id = none from h)]
  | some e =>
    rw [finalize_of_some h, finalize_of_some (show (c.update id f).pending.get? id = some e from h)]
    rfl

theorem settle_update (c : Conn cfg) (id : ℤ) (f f' : Call → Call) :
    (c.update id f).settle id f' = c.settle id (f' ∘ f) := by
  simp only [settle, update, record, OrdMap.modify_modify]

/-- How a cancel ends: on a dead connection nothing is sent, and otherwise either the frame does
not fit or it is queued. -/
theorem cancel_cases (c : Conn cfg) (id : ℤ) :
    c.dead = true ∧ c.cancel id = (c.finalize id, none) ∨
    (c.dead = false ∧ ∃ err,
      makeFrame cfg { requestId := c.idCounter + 1, kind := .cancel { target := id } } =
        .error err ∧
        c.cancel id = (c.nextId, some err)) ∨
    c.dead = false ∧ ∃ frame : Frame cfg,
      makeFrame cfg { requestId := c.idCounter + 1, kind := .cancel { target := id } } = .ok frame ∧
        c.cancel id = ((c.pushCancel frame).finalize id, none) := by
  cases hdead : c.dead with
  | true => exact .inl ⟨rfl, by rw [cancel, sendCancel, if_pos hdead]⟩
  | false =>
    have hid : c.nextId.idCounter = c.idCounter + 1 := rfl
    have hsend : ¬ c.dead = true := by simp [hdead]
    cases hframe : makeFrame cfg
        { requestId := c.idCounter + 1, kind := .cancel { target := id } } with
    | error err =>
      refine .inr (.inl ⟨rfl, err, rfl, ?_⟩)
      simp only [cancel, sendCancel, if_neg hsend, hid, hframe]
    | ok frame =>
      refine .inr (.inr ⟨rfl, frame, rfl, ?_⟩)
      simp only [cancel, sendCancel, if_neg hsend, hid, hframe]
      rfl

theorem cancels_of_ok {e : Pending} {frame : Frame cfg} (halive : c.dead = false)
    (entry : c.pending.get? id = some e)
    (hframe : makeFrame cfg { requestId := c.idCounter + 1, kind := .cancel { target := id } } =
      .ok frame) : c.cancels id = true := by
  rw [cancels, halive, OrdMap.has, entry, hframe]
  rfl

/-- Cancelling a pending request and giving its call an outcome. -/
theorem moves_cancel {e : Pending} {f : Call → Call} (entry : c.pending.get? id = some e)
    (ends : ∀ call, c.calls.get? id = some call → call.Ends (f call))
    (hparked : c.cancels id = true → c.parked id = true → g.cancelParked) :
    Moves g c (match c.cancel id with
      | (c, some _) => c
      | (c, none) => c.settle id f) := by
  rcases cancel_cases c id with ⟨-, hc⟩ | ⟨halive, err, hunfit, hc⟩ | ⟨halive, frame, hframe, hc⟩
  · rw [hc]
    exact .single (.settle entry ends)
  · rw [hc]
    exact .single (.spend halive hunfit)
  · rw [hc]
    exact .single (.cancel halive entry (makeFrame_eq_ok hframe) ends
      (hparked (cancels_of_ok halive entry hframe)))

theorem moves_endStream {ending : ∀ {α : Type}, Sink α → Sink α} (hc : Consistent c)
    (hend : ∀ {α : Type} (s : Sink α), (ending s).done = true)
    (hstream : ∀ call, c.calls.get? id = some call → call.isStream = true)
    (hparked : ∀ id' ∈ c.endTargets id, c.parked id' = true → g.cancelParked) :
    Moves g c (c.endStream id ending) := by
  unfold endStream
  cases hcall : c.calls.get? id with
  | none => exact .refl
  | some call =>
    simp only
    cases hclosed : call.closed with
    | true => rw [if_pos rfl]
    | false =>
      -- an open stream is pending
      have hhas := hc.pending_of_open id call hcall (.inr hclosed)
      obtain ⟨e, entry⟩ := OrdMap.exists_of_mem_keys (OrdMap.has_iff.1 hhas)
      have ends : ∀ call, c.calls.get? id = some call → call.Ends ((fun call : Call =>
          call.mapBase fun b => { b with sink := ending b.sink }) ∘
            Call.mapBase BaseStream.markClosed <| call) := fun call hcall =>
        Call.ends_ending hend (hstream call hcall)
      have htargets : c.cancels id = true → c.endTargets id = [id] := fun hcancels => by
        simp only [endTargets, hcall, hclosed, hcancels, Bool.not_false, Bool.and_self, if_true]
      have hhas' : (c.update id (Call.mapBase BaseStream.markClosed)).pending.has id = true := hhas
      rw [if_neg (by simp), cancelStream, hhas']
      simp only [Bool.not_true, Bool.false_eq_true, if_false]
      rcases cancel_cases (c.update id (Call.mapBase BaseStream.markClosed)) id with
        ⟨-, heq⟩ | ⟨halive, err, hunfit, heq⟩ | ⟨halive, frame, hframe, heq⟩
      · rw [heq, finalize_update]
        simp only [settle_update]
        exact .single (.settle entry ends)
      · rw [heq]
        exact .tail (.single (.jam halive hunfit)) (.spend halive hunfit)
      · rw [heq, show (c.update id (Call.mapBase BaseStream.markClosed)).pushCancel frame =
          (c.pushCancel frame).update id (Call.mapBase BaseStream.markClosed) from rfl,
          finalize_update]
        simp only [settle_update]
        have hcancels : c.cancels id = true := cancels_of_ok halive entry hframe
        exact .single (.cancel halive entry (makeFrame_eq_ok hframe) ends
          fun hp => hparked id (by rw [htargets hcancels]; exact List.mem_singleton_self id) hp)

theorem moves_cancelUnary {err : Err} (hc : Consistent c)
    (hunary : ∀ call, c.calls.get? id = some call → call.isStream = false)
    (hhello : ∀ call, c.calls.get? id = some call → call.hasType .hello = false)
    (hparked : c.cancels id = true → c.parked id = true → g.cancelParked) :
    Moves g c (c.cancelUnary id err).1 := by
  unfold cancelUnary
  cases entry : c.pending.get? id with
  | none => exact .refl
  | some e =>
    obtain ⟨call, hcall, htype⟩ := hc.entry_call id e entry
    have hexpect : ∃ expect, e.type = .unary expect := by
      have h₁ := hunary call hcall
      have h₂ := hhello call hcall
      cases call <;> cases he : e.type <;> simp_all [Call.hasType, Call.isStream]
    obtain ⟨expect, hexpect⟩ := hexpect
    have hmoves : Moves g c _ := moves_cancel (f := Call.reject err) entry
      (fun call _ => Call.ends_reject err call) hparked
    simp only [hexpect]
    revert hmoves
    cases c.cancel id with
    | mk c' thrown => cases thrown <;> exact fun h => h

theorem moves_abortStream {err : Err} {e : Pending} (entry : c.pending.get? id = some e)
    (hparked : c.cancels id = true → c.parked id = true → g.cancelParked) :
    Moves g c (c.abortStream id err).1 := by
  have hhas : c.pending.has id = true := by rw [OrdMap.has, entry]; rfl
  have hmoves : Moves g c _ := moves_cancel (f := Call.reject err) entry
    (fun call _ => Call.ends_reject err call) hparked
  rw [abortStream, hhas]
  simp only [if_true]
  revert hmoves
  cases c.cancel id with
  | mk c' thrown => cases thrown <;> exact fun h => h

theorem moves_failConnection (c : Conn cfg) (err : Err) : Moves g c (c.failConnection err) := by
  cases hdead : c.dead with
  | true => rw [failConnection_of_dead err hdead]
  | false => exact .single (.die hdead)

theorem moves_sendFailed {s : Sender} {err : Err}
    (hhandles : ∀ e, c.pending.get? s.id = some e → s.type.handles e.type = true) :
    Moves g c (c.sendFailed s err) := by
  unfold sendFailed
  cases entry : c.pending.get? s.id with
  | none => exact .refl
  | some e =>
    simp only [hhandles e entry, if_true]
    exact .single (.settle entry fun call _ => Call.ends_reject _ call)

theorem moves_permitGranted {s : Sender} {p : Sender → Bool} {inflight : Semaphore Sender}
    (hc : Consistent c) (resume : c.inflight.resume p = some (s, inflight)) :
    Moves g c ({ c with inflight := inflight }.permitGranted s) := by
  have hs : s ∈ c.inflight.users :=
    (Semaphore.users_of_resume resume).mem_iff.2 List.mem_cons_self
  unfold permitGranted
  simp only
  cases entry : c.pending.get? s.id with
  | none => exact .single (.dropPermit resume entry)
  | some e =>
    have hhandles := (hc.sender_entry s hs e entry).2
    rcases Bool.eq_false_or_eq_true c.dead with hdead | halive
    · simp only [hdead, if_true, sendFailed, release, entry, hhandles]
      rw [← hdead]
      exact .single (.failPermit (f := Call.reject _) resume entry hdead
        fun call _ => Call.ends_reject _ call)
    · simp only [if_neg (Bool.eq_false_iff.1 halive)]
      have hkeep : Move g c _ := .keepPermit halive resume entry
      have entry' : (c.pending.modify s.id fun entry => { entry with permit := true }).get? s.id =
          some { e with permit := true } := by rw [OrdMap.get?_modify_self, entry]; rfl
      cases hframe : s.outgoing.kind >>= fun kind =>
          makeFrame cfg { requestId := s.id, kind := kind } with
      | error err =>
        simp only [sendFailed, entry', hhandles, if_true]
        exact .tail (.single hkeep) (.settle (f := Call.reject _) entry'
          fun call _ => Call.ends_reject _ call)
      | ok frame =>
        obtain ⟨kind, hkind, hok⟩ := bind_eq_ok.1 hframe
        have hreq := makeFrame_eq_ok hok
        have hkinds : ∀ req, frame.request.kind ≠ .cancel req := fun req hcancel => by
          rw [hreq] at hcancel
          exact s.outgoing.kind_ne_cancel req (hkind.trans (congrArg _ hcancel))
        have hid : frame.request.requestId = s.id := by rw [hreq]
        refine .tail (.single hkeep) ?_
        exact Move.enqueue (s := s) (e := { e with permit := true }) halive entry' hid hkinds
          hhandles

theorem moves_slotGranted {s : Sender} {frame : Frame cfg} {p : Sender × Frame cfg → Bool}
    {queueSlots : Semaphore (Sender × Frame cfg)}
    (resume : c.queueSlots.resume p = some ((s, frame), queueSlots)) :
    Moves g c ({ c with queueSlots := queueSlots }.slotGranted s frame) := by
  unfold slotGranted
  rcases Bool.eq_false_or_eq_true c.dead with hdead | halive
  · rw [if_pos hdead]
    exact .single (.slotDrop hdead resume)
  · rw [if_neg (Bool.eq_false_iff.1 halive)]
    exact .single (.slotPush halive resume)

theorem moves_runWriter (c : Conn cfg) (outcome : WriteOutcome) :
    Moves g c (c.runWriter outcome) := by
  unfold runWriter
  rcases Bool.eq_false_or_eq_true c.dead with hdead | halive
  · rw [if_pos hdead]
  · rw [if_neg (Bool.eq_false_iff.1 halive)]
    by_cases hqueues : c.priority.length = 0 ∧ c.outbound.length = 0
    · rw [if_pos hqueues]
      exact .single (.gate fun _ => .inr
        ⟨List.length_eq_zero_iff.1 hqueues.1, List.length_eq_zero_iff.1 hqueues.2⟩)
    · rw [if_neg hqueues]
      cases outcome with
      | threw reason => exact .single (.throw halive)
      | returned ok =>
        have hwrite : Move g c c.write := .write halive
        cases ok with
        | true => exact .tail (.single hwrite) (.gate fun _ => .inr ⟨rfl, rfl⟩)
        | false => exact .tail (.single hwrite) .drain

theorem moves_rejectDrain (c : Conn cfg) : Moves g c c.rejectDrain := by
  unfold rejectDrain
  split
  · exact .single .drain
  · exact .refl

/-! ### Routing -/

theorem parked_cancel (c : Conn cfg) (id id' : ℤ) : (c.cancel id).1.parked id' = c.parked id' := by
  rcases cancel_cases c id with ⟨-, heq⟩ | ⟨-, err, -, heq⟩ | ⟨-, frame, -, heq⟩
  · rw [heq, parked_finalize]
  · rw [heq]; rfl
  · rw [heq, parked_finalize]; rfl

theorem parked_abortStream (c : Conn cfg) (id id' : ℤ) (err : Err) :
    (c.abortStream id err).1.parked id' = c.parked id' := by
  have hcancel := parked_cancel c id id'
  unfold abortStream
  split_ifs
  · revert hcancel
    cases c.cancel id with
    | mk c' thrown => cases thrown <;> exact fun h => h
  · rfl

theorem parked_routeResponse (c : Conn cfg) (response : WireResponse) (id : ℤ) :
    (c.routeResponse response).1.parked id = c.parked id := by
  have hroutes := routes_routeResponse c response
  generalize c.routeResponse response = r at hroutes ⊢
  cases hroutes with
  | unattributed => exact parked_failConnection c _ id
  | ignored | gone | deliver => rfl
  | settle => exact parked_finalize c _ id
  | violate => exact parked_abortStream c _ id _

theorem parked_route (c : Conn cfg) (body : Bytes) (id : ℤ) :
    (c.route body).1.parked id = c.parked id := by
  unfold route
  split
  · rfl
  · exact parked_routeResponse c _ id

theorem moves_routeResponse {response : WireResponse} (hc : Consistent c)
    (hparked : ∀ e, c.pending.get? response.requestId = some e →
      violates e.type response.kind = true → c.cancels response.requestId = true →
        c.parked response.requestId = true → g.cancelParked) :
    Moves g c (c.routeResponse response).1 := by
  have hroutes := routes_routeResponse c response
  generalize c.routeResponse response = r at hroutes ⊢
  cases hroutes with
  | unattributed => exact moves_failConnection c _
  | ignored | gone => exact .refl
  | settle hid entry hreaction =>
    -- the call has the type of the entry, so the outcome fits it
    obtain ⟨call, hcall, htype⟩ := hc.entry_call _ _ entry
    refine .single (.settle entry fun call' hcall' => ?_)
    cases hcall.symm.trans hcall'
    exact ends_of_reaction hreaction call htype
  | deliver hid entry hreaction =>
    exact .single (.deliver entry (fun call _ => (keeps_of_reaction hreaction call).1)
      fun call _ => (keeps_of_reaction hreaction call).2)
  | violate hid entry hreaction =>
    exact moves_abortStream entry (hparked _ entry (by rw [violates_eq, hreaction]; rfl))

theorem moves_route {body : Bytes} (hc : Consistent c)
    (hparked : ∀ id ∈ c.frameTargets body, c.parked id = true → g.cancelParked) :
    Moves g c (c.route body).1 := by
  unfold route
  cases hdecode : decodeResponse body with
  | error err => exact .refl
  | ok response =>
    refine moves_routeResponse hc fun e entry hviolates hcancels => hparked _ ?_
    simp only [frameTargets, hdecode, entry, hviolates, hcancels, Bool.and_self, if_true,
      List.mem_singleton]

theorem moves_routeAll {bodies : List Bytes} (hc : Consistent c)
    (hparked : ∀ id ∈ c.routeTargets bodies, c.parked id = true → g.cancelParked) :
    Moves g c (c.routeAll bodies) := by
  induction bodies generalizing c with
  | nil => exact .refl
  | cons body bodies ih =>
    have hhead : Moves g c (c.route body).1 := moves_route hc fun id hid =>
      hparked id (List.mem_append_left _ hid)
    rw [routeAll]
    rw [routeTargets] at hparked
    cases hroute : c.route body with
    | mk c₁ thrown =>
      have hqueue := parked_route c body
      rw [hroute] at hhead hparked hqueue
      cases thrown with
      | some err => exact hhead.trans (moves_failConnection c₁ _)
      | none =>
        refine hhead.trans (ih (hc.moves hhead) fun id hid hp => ?_)
        exact hparked id (List.mem_append_right _ hid) ((hqueue id).symm.trans hp)

/-! ### Every step is a sequence of moves -/

/-- The decoder takes in the data of a step; everything else is left to the moves. -/
def receive (c : Conn cfg) : Action → Conn cfg
  | .data chunk => { c with decoder := (c.decoder.push chunk).1 }
  | _ => c

theorem Consistent.receive (hc : Consistent c) (a : Action) : Consistent (c.receive a) := by
  cases a <;> exact hc.congr rfl rfl rfl rfl rfl rfl fun _ hp => hp

theorem endTargets_update {f : Call → Call} (hf : ∀ call : Call, (f call).closed = call.closed) :
    (c.update id f).endTargets id = c.endTargets id := by
  have hget : (c.update id f).calls.get? id = (c.calls.get? id).map f :=
    OrdMap.get?_modify_self _ _ _
  unfold endTargets
  rw [hget]
  cases c.calls.get? id with
  | none => rfl
  | some call => simp only [Option.map_some, hf]; rfl

theorem moves_unary {kind : Outgoing} {expect : Expect} {signal : Signal} (hc : Consistent c) :
    Moves g c (c.unary kind expect signal) := by
  unfold unary
  rcases Bool.eq_false_or_eq_true c.dead with hdead | halive
  · rw [if_pos hdead]
    exact .single (.refuse hdead)
  rw [if_neg (Bool.eq_false_iff.1 halive)]
  have hregister : ∀ listening, Move g c
      (c.register (.unary expect) (.unary .pending listening)) := fun _ => .register halive rfl rfl
  have hentry : ∀ listening, (c.register (.unary expect) (.unary .pending listening)).pending.get?
      (c.idCounter + 1) = some { type := .unary expect, permit := false } := fun _ =>
    OrdMap.get?_set_self _ _ _
  have hnew : ∀ s ∈ c.inflight.users, s.id ≠ c.idCounter + 1 := fun s hs => by
    have := hc.senders_le s hs
    omega
  -- without an abort the send function starts at once
  have hsend : ∀ listening, Moves g c ((c.register (.unary expect)
      (.unary .pending listening)).sendUnaryRequest (c.idCounter + 1) kind) := fun listening => by
    refine .tail (.single (hregister listening)) (.acquire halive le_rfl hnew fun e he => ?_)
    cases (hentry listening).symm.trans he
    exact ⟨rfl, rfl⟩
  cases signal with
  | none => exact hsend false
  | live => exact hsend true
  | aborted reason =>
    -- a frame with the new id cannot be parked yet
    have hparked : (c.register (.unary expect) (.unary .pending false)).parked (c.idCounter + 1) =
        true → g.cancelParked := fun hp => by
      have := hc.parked_le _ hp
      omega
    have hsignal : decide (Signal.aborted reason = .live) = false := by simp
    simp only [hsignal, cancelUnary]
    rw [show (c.register (.unary expect) (.unary .pending false)).idCounter = c.idCounter + 1
      from rfl, hentry false]
    simp only
    rcases cancel_cases (c.register (.unary expect) (.unary .pending false)) (c.idCounter + 1) with
      ⟨hdead, -⟩ | ⟨halive', err, hunfit, heq⟩ | ⟨halive', frame, hframe, heq⟩
    · cases halive.symm.trans hdead
    · rw [heq]
      exact .tail (.single (hregister false)) (.spend halive' hunfit)
    · rw [heq]
      have hcancel : Move g _ _ := .cancel (f := Call.reject
        (asError reason "the operation was aborted")) halive' (hentry false)
        (makeFrame_eq_ok hframe)
        (fun call _ => Call.ends_reject _ call) hparked
      have hfinal := finalize_of_some (c := (c.register (.unary expect)
        (.unary .pending false)).pushCancel frame) (hentry false)
      rw [hfinal] at hcancel ⊢
      refine .tail (.tail (.single (hregister false)) hcancel)
        (.acquire halive (Int.le_add_one le_rfl) hnew fun e he => ?_)
      cases (OrdMap.get?_delete_self _ _).symm.trans he

theorem get?_update_self {call : Call} (hcall : c.calls.get? id = some call) (f : Call → Call) :
    (c.update id f).calls.get? id = some (f call) := by
  rw [show (c.update id f).calls = c.calls.modify id f from rfl, OrdMap.get?_modify_self, hcall,
    Option.map_some]

/-- Every step is a sequence of moves. -/
theorem moves_of_step {a : Action} {c' : Conn cfg} (hc : Consistent c) (hallowed : Allowed g c a)
    (hstep : c.step a = some c') : Moves g (c.receive a) c' := by
  obtain ⟨hstarved, hparked⟩ := hallowed
  have hfinish : ∀ {α : Type} (s : Sink α), s.finish.done = true := fun s => s.done_finish
  have hfail : ∀ (err : Err) {α : Type} (s : Sink α), (s.fail err).done = true :=
    fun err _ s => s.done_fail err
  have hupdate : ∀ {f : Call → Call}, (∀ call : Call, call.Extends (f call)) → ∀ id,
      Move g c (c.update id f) := fun hf id => .consume fun call _ => hf call
  cases taken_of_step hstep with
  | append req signal | stats signal => exact moves_unary hc
  | read req signal | subscribe req signal =>
    exact .single (.openStream rfl rfl rfl rfl fun hdead hs => hstarved rfl hdead hs)
  | close => exact .tail (moves_failConnection c _) .destroy
  | closeStream hcall hstream =>
    exact moves_endStream hc hfinish (fun call' h => by cases hcall.symm.trans h; exact hstream)
      hparked
  | next => exact .single (hupdate Call.extends_next _)
  | collect hcall =>
    refine .single (.consume fun call h => ?_)
    cases hcall.symm.trans h
    exact ⟨rfl, Sink.extends_next _, rfl⟩
  -- the listener is taken off first, and then the stream is ended
  | @abortStream id reason call hcall hlistening hstream =>
    have htake := hupdate Call.extends_takeListener id
    simp only [cancelTargets, hcall, hlistening, hstream, Bool.not_true, Bool.false_eq_true,
      if_true, if_false] at hparked
    refine (Relation.ReflTransGen.single htake).trans
      (moves_endStream (hc.move htake) (hfail _) (fun call' h => ?_) fun id' hid' => ?_)
    · cases (get?_update_self hcall _).symm.trans h
      cases call <;> first | rfl | cases hstream
    · rw [endTargets_update fun call => by cases call <;> rfl] at hid'
      exact hparked id' hid'
  | @abortUnary id reason call hcall hlistening hunary =>
    have htake := hupdate Call.extends_takeListener id
    have hget := get?_update_self hcall Call.takeListener
    simp only [cancelTargets, hcall, hlistening, hunary, Bool.not_true, Bool.false_eq_true,
      if_false] at hparked
    refine (Relation.ReflTransGen.single htake).trans
      (moves_cancelUnary (hc.move htake) (fun call' h => ?_) (fun call' h => ?_) fun hcancels => ?_)
    · cases hget.symm.trans h
      cases call <;> first | rfl | cases hunary
    · cases hget.symm.trans h
      cases call <;> first | rfl | cases hlistening
    · have hcancels' : c.cancels id = true := hcancels
      refine hparked id ?_
      simp only [hcancels', if_true, List.mem_singleton]
  -- the decoder has the chunk already; its frames are routed, or the push threw
  | data chunk =>
    simp only [cancelTargets] at hparked
    simp only [receive, onData]
    have hc₁ := hc.receive (.data chunk)
    simp only [receive] at hc₁
    cases hpush : c.decoder.push chunk with
    | mk decoder result =>
      rw [hpush] at hparked hc₁
      cases result with
      | error err => exact moves_failConnection _ _
      | ok frames => exact moves_routeAll hc₁ hparked
  | socketError err => exact (moves_failConnection c _).trans (moves_rejectDrain _)
  | socketClose => exact .tail ((moves_failConnection c _).trans (moves_rejectDrain _)) .destroy
  | drained => exact .single .drain
  | permit hresume => exact moves_permitGranted hc hresume
  | slot hresume => exact moves_slotGranted hresume
  | sendFailed hfound =>
    refine .head (.takeFailed List.eraseP_sublist) (moves_sendFailed fun e he => ?_)
    exact hc.failed_entry _ (List.mem_of_find?_eq_some hfound) e he
  | writer outcome =>
    have hgate : Move g c { c with writerGate := { c.writerGate with resumed := false } } :=
      .gate .inl
    exact .head hgate (moves_runWriter _ outcome)
  | drainResumed outcome =>
    have hdrain : Move g c { c with drain := .idle } := .drain
    exact .head hdrain (moves_runWriter _ outcome)
  | drainRejected => exact .head .drain (moves_failConnection _ _)
  | @abortMicrotask id reason call hcall hreason =>
    have htake := hupdate Call.extends_takeMicrotask id
    refine (Relation.ReflTransGen.single htake).trans
      (moves_endStream (hc.move htake) (hfail _) (fun call' h => ?_) fun id' hid' => ?_)
    · cases (get?_update_self hcall _).symm.trans h
      cases call <;> first | rfl | cases hreason
    · rw [endTargets_update fun call => by cases call <;> rfl] at hid'
      exact hparked id' hid'
  | collectStep hcall hturn =>
    refine .single (.consume fun call h => ?_)
    cases hcall.symm.trans h
    exact ReadStream.extends_of_collectStep hturn

/-! ### Runs -/

theorem moves_init (cfg : Config) : Moves g (Conn.new cfg) (init cfg) := by
  have hregister : Move g (Conn.new cfg) ((Conn.new cfg).register .hello (.hello .pending)) :=
    .register rfl rfl rfl
  refine .tail (.single hregister)
    (.acquire rfl le_rfl (fun s hs => (by cases hs)) fun e he => ?_)
  cases (OrdMap.get?_set_self (Conn.new cfg).pending _ _).symm.trans he
  exact ⟨rfl, rfl⟩

theorem Consistent.init (cfg : Config) : Consistent (init cfg) :=
  Consistent.new.moves (g := .all) (moves_init cfg)

theorem Consistent.step {a : Action} {c' : Conn cfg} (hc : Consistent c)
    (hstep : c.step a = some c') : Consistent c' :=
  (hc.receive a).moves (moves_of_step hc (.all c a) hstep)

theorem keeps_of_moves {I : Conn cfg → Prop} {c' : Conn cfg} (hm : Moves g c c')
    (hc : Consistent c) (hi : I c)
    (move : ∀ {c c'}, Consistent c → I c → Move g c c' → I c') : I c' := by
  induction hm with
  | refl => exact hi
  | tail hm hmove ih => exact move (hc.moves hm) ih hmove

theorem keeps_of_run {I : Conn cfg → Prop} {as : List Action} {c' : Conn cfg}
    (h : (connection cfg).RunWith (Allowed g) c as c') (hc : Consistent c) (hi : I c)
    (receive : ∀ c a, I c → I (c.receive a))
    (move : ∀ {c c'}, Consistent c → I c → Move g c c' → I c') : I c' := by
  refine (h.invariant (I := fun c => Consistent c ∧ I c) ⟨hc, hi⟩ ?_).2
  intro c a c' ⟨hc, hi⟩ hallowed hstep
  refine ⟨hc.step hstep, ?_⟩
  exact keeps_of_moves (moves_of_step hc hallowed hstep) (hc.receive a) (receive c a hi) move

/-- A property of the new connection that every move keeps holds after every run. -/
theorem invariant_of_run {I : Conn cfg → Prop} {as : List Action}
    (h : (connection cfg).RunWith (Allowed g) (init cfg) as c) (new : I (Conn.new cfg))
    (receive : ∀ c a, I c → I (c.receive a))
    (move : ∀ {c c'}, Consistent c → I c → Move g c c' → I c') : I c :=
  keeps_of_run h (.init cfg) (keeps_of_moves (moves_init cfg) .new new move) receive move

theorem consistent_of_run {ok : Conn cfg → Action → Prop} {as : List Action}
    (h : (connection cfg).RunWith ok (init cfg) as c) : Consistent c :=
  h.invariant (.init cfg) fun _ _ _ hc _ hstep => hc.step hstep

theorem allowed_of_run {as : List Action} {c' : Conn cfg} (h : (connection cfg).Run c as c') :
    (connection cfg).RunWith (Allowed .all) c as c' :=
  h.mono fun c a _ => .all c a

end Conn

end Tephra
