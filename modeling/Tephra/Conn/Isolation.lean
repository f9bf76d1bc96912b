import Tephra.Conn.Settlement
import Tephra.Lib.Demux

/-!
# Requests do not see each other's responses

What routing can change about a request is its `View`: the pending entry and the object of the
caller.  `View.respond` is what a response makes of the view of its own request, with no connection
around it.

* `changes_routeResponse` : routing a response is that for its request, and nothing for the others.
* `issued_of_run` : ids count up from 1, so no two requests have the same.
* `isolated` : a request gets from a sequence of frames what it gets from its own frames.
-/

namespace Tephra

open Lib

section

variable [TextCodec] {cfg : Config}

/-- What routing can change about a request. -/
structure View where
  pending : Option Pending
  call : Option Call
  deriving DecidableEq, Repr

namespace View

/-- The request gets its outcome. -/
def finish (v : View) (f : Call → Call) : View := { pending := none, call := v.call.map f }

/-- The request takes something in. -/
def deliver (v : View) (f : Call → Call) : View := { v with call := v.call.map f }

/-- What a response makes of a pending read. -/
def respondRead (v : View) (kind : ResponseKind) : View :=
  match kind with
  | .readEvents res =>
    match res.events.mapM sequencedFromWire with
    | .error e => v.finish (Call.reject (asError (.error e) "protocol error"))
    | .ok mapped => v.deliver fun call => mapped.foldl (fun call e => call.deliverRead e) call
  | .readEnd res => v.finish (Call.endWith res.watermark)
  | .error error => v.finish (Call.reject (serverErrorFromWire error))
  | kind => v.finish (Call.reject (.protocol s!"unexpected {kind.name} response for a read"))

/-- What a response makes of a pending subscription. -/
def respondSubscribe (v : View) (kind : ResponseKind) : View :=
  match kind with
  | .readEvents res =>
    match res.events.mapM sequencedFromWire with
    | .error e => v.finish (Call.reject (asError (.error e) "protocol error"))
    | .ok mapped =>
      v.deliver fun call => mapped.foldl (fun call e => call.deliverSubscribe (.event e)) call
  | .caughtUp res => v.deliver (Call.deliverSubscribe (.caughtUp res.watermark))
  | .error error => v.finish (Call.reject (serverErrorFromWire error))
  | kind =>
    v.finish (Call.reject (.protocol s!"unexpected {kind.name} response for a subscription"))

/-- What a response makes of its request. -/
def respond (v : View) (response : WireResponse) : View :=
  match v.pending with
  | none => v
  | some entry =>
    match entry.type with
    | .hello => v.finish (Call.settleHello (Conn.helloOutcome response.kind))
    | .unary expect => v.finish (Call.settleUnary (Conn.unaryOutcome expect response.kind))
    | .read => v.respondRead response.kind
    | .subscribe => v.respondSubscribe response.kind

omit [TextCodec] in
theorem respond_of_pending {v : View} {e : Pending} (entry : v.pending = some e)
    (response : WireResponse) : v.respond response =
      match Conn.reaction e.type response.kind with
      | .settle f => v.finish f
      | .deliver f => v.deliver f
      | .violate err => v.finish (Call.reject err) := by
  rw [respond, entry]
  obtain ⟨type, permit⟩ := e
  cases type with
  | hello | unary expect => rfl
  | read =>
    simp only [respondRead]
    cases response.kind with
    | readEvents res =>
      simp only [Conn.reaction]
      cases res.events.mapM sequencedFromWire <;> rfl
    | append res | readEnd res | error error | caughtUp res | stats res | helloAck ack | none => rfl
  | subscribe =>
    simp only [respondSubscribe]
    cases response.kind with
    | readEvents res =>
      simp only [Conn.reaction]
      cases res.events.mapM sequencedFromWire <;> rfl
    | append res | readEnd res | error error | caughtUp res | stats res | helloAck ack | none => rfl

end View

namespace Conn

variable {c c' : Conn cfg} {id : ℤ}

/-- The view of a request. -/
def view (c : Conn cfg) (id : ℤ) : View where
  pending := c.pending.get? id
  call := c.calls.get? id

/-- Connections and responses, as components by request id. -/
def requests (cfg : Config) : Demux (Conn cfg) WireResponse ℤ View where
  view := view
  key := WireResponse.requestId
  respond := View.respond

/-! ### One response -/

/-- Only the view of one request changes, and the connection lives or is dead as before. -/
structure Changes (c c' : Conn cfg) (id : ℤ) (v : View) : Prop where
  dead : c'.dead = c.dead
  self : c'.view id = v
  other : ∀ id', id' ≠ id → c'.view id' = c.view id'
  senders : ∀ s ∈ c'.inflight.users, s ∈ c.inflight.users

theorem Changes.refl (c : Conn cfg) (id : ℤ) : Changes c c id (c.view id) :=
  ⟨rfl, rfl, fun _ _ => rfl, fun _ hs => hs⟩

theorem Changes.congr {c₁ : Conn cfg} {v : View} (h : Changes c₁ c' id v)
    (hdead : c₁.dead = c.dead) (hpending : c₁.pending = c.pending) (hcalls : c₁.calls = c.calls)
    (hinflight : c₁.inflight = c.inflight) : Changes c c' id v where
  dead := h.dead.trans hdead
  self := h.self
  other id' hne := (h.other id' hne).trans (by simp only [view, hpending, hcalls])
  senders s hs := hinflight ▸ h.senders s hs

theorem changes_update (c : Conn cfg) (id : ℤ) (f : Call → Call) :
    Changes c (c.update id f) id ((c.view id).deliver f) where
  dead := rfl
  self := by simp only [view, update, OrdMap.get?_modify_self, View.deliver]
  other id' hne := by simp only [view, update, OrdMap.get?_modify_of_ne f hne]
  senders _ hs := hs

theorem changes_settle {e : Pending} (entry : c.pending.get? id = some e) (f : Call → Call) :
    Changes c ((c.finalize id).settle id f) id ((c.view id).finish f) := by
  rw [finalize_of_some entry]
  refine ⟨rfl, ?_, fun id' hne => ?_, fun s hs => ?_⟩
  · simp only [view, settle, update, record, OrdMap.get?_modify_self, OrdMap.get?_delete_self,
      View.finish]
  · simp only [view, settle, update, record, OrdMap.get?_modify_of_ne f hne,
      OrdMap.get?_delete_of_ne hne]
  · simp only [settle, update, record] at hs
    split_ifs at hs
    · exact Semaphore.mem_users_release.1 hs
    · exact hs

theorem changes_abortStream (hmax : 24 ≤ cfg.maxFrameLen) {e : Pending}
    (entry : c.pending.get? id = some e) (err : Err) :
    ∃ c', c.abortStream id err = (c', none) ∧
      Changes c c' id ((c.view id).finish (Call.reject err)) := by
  have hhas : c.pending.has id = true := by rw [OrdMap.has, entry]; rfl
  rw [abortStream, hhas]
  simp only [if_true]
  rcases cancel_cases c id with ⟨-, heq⟩ | ⟨-, err, hunfit, -⟩ | ⟨-, frame, -, heq⟩
  · rw [heq]
    exact ⟨_, rfl, changes_settle entry _⟩
  · obtain ⟨frame, hframe⟩ := exists_cancelFrame hmax (c.idCounter + 1) id
    cases hframe.symm.trans hunfit
  · rw [heq]
    exact ⟨_, rfl, (changes_settle (c := c.pushCancel frame) entry _).congr rfl rfl rfl rfl⟩

/-- Routing a response, when a cancel that it causes fits. -/
theorem changes_routeResponse {response : WireResponse} (hid : response.requestId ≠ 0)
    (hmax : ∀ e, c.pending.get? response.requestId = some e →
      violates e.type response.kind = true → 24 ≤ cfg.maxFrameLen) :
    ∃ c', c.routeResponse response = (c', none) ∧
      Changes c c' response.requestId ((c.view response.requestId).respond response) := by
  have hpending : ∀ {p}, c.pending.get? response.requestId = p →
      (c.view response.requestId).pending = p := fun hp => hp
  have hroutes := routes_routeResponse c response
  generalize c.routeResponse response = r at hroutes ⊢
  cases hroutes with
  | unattributed hzero | ignored hzero => exact absurd hzero hid
  | gone _ entry =>
    rw [View.respond, hpending entry]
    exact ⟨c, rfl, .refl c _⟩
  | settle _ entry hreaction =>
    rw [View.respond_of_pending (hpending entry), hreaction]
    exact ⟨_, rfl, changes_settle entry _⟩
  | deliver _ entry hreaction =>
    rw [View.respond_of_pending (hpending entry), hreaction]
    exact ⟨_, rfl, changes_update c _ _⟩
  | violate _ entry hreaction =>
    rw [View.respond_of_pending (hpending entry), hreaction]
    exact changes_abortStream (hmax _ entry (by rw [violates_eq, hreaction]; rfl)) entry _

theorem Changes.step {response : WireResponse}
    (h : Changes c c' response.requestId ((c.view response.requestId).respond response)) :
    (requests cfg).Step c response c' := by
  intro id
  show c'.view id = if id = response.requestId then (c.view id).respond response else c.view id
  split_ifs with hid
  · rw [hid]; exact h.self
  · exact h.other id hid

/-! ### Many frames -/

/-- The response in a frame, if it is accepted and for a request. -/
def response? (body : Bytes) : Option WireResponse :=
  match decodeResponse body with
  | .ok response => if response.requestId = 0 then none else some response
  | .error _ => none

theorem response?_eq_some {body : Bytes} {response : WireResponse}
    (h : response? body = some response) :
    decodeResponse body = .ok response ∧ response.requestId ≠ 0 := by
  unfold response? at h
  split at h
  · rename_i hdecode
    split_ifs at h with hid
    cases h
    exact ⟨hdecode, hid⟩
  · cases h

/-- Routing accepted frames goes through the responses in them, one by one. -/
theorem steps_of_routeAll (hmax : 24 ≤ cfg.maxFrameLen) {bodies : List Bytes}
    {responses : List WireResponse}
    (h : List.Forall₂ (fun body response => response? body = some response) bodies responses) :
    (c.routeAll bodies).dead = c.dead ∧ (requests cfg).Steps c responses (c.routeAll bodies) := by
  induction h generalizing c with
  | nil => exact ⟨rfl, .nil c⟩
  | @cons body response bodies responses hbody _ ih =>
    obtain ⟨hdecode, hid⟩ := response?_eq_some hbody
    obtain ⟨c', hroute, hchanges⟩ := changes_routeResponse (c := c) hid fun _ _ _ => hmax
    have hrouteAll : c.routeAll (body :: bodies) = c'.routeAll bodies := by
      rw [routeAll, route, hdecode]
      simp only [hroute]
    obtain ⟨hdead, hsteps⟩ := ih (c := c')
    rw [hrouteAll]
    exact ⟨hdead.trans hchanges.dead, .cons hchanges.step hsteps⟩

/-- Whether a frame is for request `id`. -/
def addressedTo (id : ℤ) (body : Bytes) : Bool :=
  (response? body).any fun response => response.requestId = id

theorem forall₂_addressedTo {bodies : List Bytes} {responses : List WireResponse}
    (h : List.Forall₂ (fun body response => response? body = some response) bodies responses)
    (id : ℤ) :
    List.Forall₂ (fun body response => response? body = some response)
      (bodies.filter (addressedTo id))
      (responses.filter fun response => response.requestId = id) := by
  induction h with
  | nil => exact .nil
  | @cons body response bodies responses hbody hrest ih =>
    have haddressed : addressedTo id body = decide (response.requestId = id) := by
      rw [addressedTo, hbody]; rfl
    rw [List.filter_cons, List.filter_cons, haddressed]
    split_ifs
    · exact .cons hbody ih
    · exact ih

end Conn

/-! ### Ids -/

/-- The id an effect issues. -/
def Effect.issued : Effect cfg → List ℤ
  | .issue id => [id]
  | _ => []

namespace Conn

variable {c c' : Conn cfg} {id : ℤ}

/-- The ids issued so far, to requests and cancels. -/
def issued (c : Conn cfg) : List ℤ := c.log.flatMap Effect.issued

theorem issued_of_move {g : Guard} (hm : Move g c c') :
    c'.idCounter = c.idCounter ∧ c'.issued = c.issued ∨
      c'.idCounter = c.idCounter + 1 ∧ c'.issued = c.issued ++ [c.idCounter + 1] := by
  -- what a move does besides issuing an id issues none
  have hsettle : ∀ {c₁ : Conn cfg} {id : ℤ} {f : Call → Call},
      ((c₁.finalize id).settle id f).idCounter = c₁.idCounter ∧
        ((c₁.finalize id).settle id f).issued = c₁.issued := fun {c₁ id f} => by
    obtain ⟨_, _, hfinal⟩ := c₁.exists_finalize id
    rw [hfinal]
    exact ⟨rfl, flatMap_log rfl (by simp [Effect.issued])⟩
  have hdeath : ∀ (c₁ : Conn cfg) (err : Err), c₁.dead = false →
      (c₁.failConnection err).idCounter = c₁.idCounter ∧
        (c₁.failConnection err).issued = c₁.issued := fun c₁ err halive => by
    rw [failConnection_of_alive err halive]
    refine ⟨rfl, flatMap_log (List.append_assoc _ _ _) fun effect heffect => ?_⟩
    rcases List.mem_cons.1 heffect with rfl | heffect
    · rfl
    · obtain ⟨id, -, rfl⟩ := List.mem_map.1 heffect
      rfl
  have hissue : ∀ {l : List (Effect cfg)}, (∀ effect ∈ l, effect.issued = []) →
      (c.log ++ (.issue (c.idCounter + 1) :: l)).flatMap Effect.issued =
        c.issued ++ [c.idCounter + 1] := fun hl => by
    rw [List.flatMap_append, List.flatMap_cons, List.flatMap_eq_nil_iff.2 hl, List.append_nil]
    rfl
  cases hm with
  | register | openStream | spend => exact .inr ⟨rfl, hissue (by simp)⟩
  | @cancel id e frame =>
    refine .inr ⟨hsettle.1, hsettle.2.trans ?_⟩
    have hlog : (c.pushCancel frame).log = c.log ++ [.issue (c.idCounter + 1), .priority frame] :=
      List.append_assoc _ _ _
    rw [Conn.issued, hlog]
    exact hissue (by simp [Effect.issued])
  | settle | failPermit => exact .inl hsettle
  | acquire | deliver | consume | dropPermit | keepPermit | enqueue | slotDrop | takeFailed | gate
  | drain | destroy | jam => exact .inl ⟨rfl, rfl⟩
  | slotPush | write | refuse => exact .inl ⟨rfl, flatMap_log rfl (by simp [Effect.issued])⟩
  | throw alive =>
    obtain ⟨hcounter, hissued⟩ := hdeath c.handOver _ alive
    exact .inl ⟨hcounter, hissued.trans (flatMap_log rfl (by simp [Effect.issued]))⟩
  | die alive => exact .inl (hdeath c _ alive)

/-- Ids are issued in order, and the counter is the last one. -/
def IssuedInOrder (c : Conn cfg) : Prop :=
  0 ≤ c.idCounter ∧ (∀ id, id ∈ c.issued ↔ 0 < id ∧ id ≤ c.idCounter) ∧
    c.issued.Pairwise (· < ·)

theorem issued_of_run {as : List Action} (h : (connection cfg).Run (init cfg) as c) :
    IssuedInOrder c := by
  refine invariant_of_run (allowed_of_run h) (I := IssuedInOrder) ?_
    (fun c a hi => by cases a <;> exact hi) ?_
  · refine ⟨le_rfl, fun id => ?_, .nil⟩
    exact iff_of_false (fun hid => (by cases hid)) fun hid => absurd hid.1 (not_lt_of_ge hid.2)
  · rintro c c' - ⟨hpos, hmem, hpair⟩ hm
    rcases issued_of_move hm with ⟨hcounter, hissued⟩ | ⟨hcounter, hissued⟩
    · rw [IssuedInOrder, hcounter, hissued]
      exact ⟨hpos, hmem, hpair⟩
    · rw [IssuedInOrder, hcounter, hissued]
      refine ⟨by omega, fun id => ?_,
        List.pairwise_append.2 ⟨hpair, List.pairwise_singleton _ _, ?_⟩⟩
      · rw [List.mem_append, hmem, List.mem_singleton]
        omega
      · intro id hid id' hid'
        rw [List.mem_singleton.1 hid']
        have := (hmem id).1 hid
        omega

/-- The 64-bit forms of ids below `2 ^ 64` differ as the ids do. -/
theorem nodup_u64 (h : IssuedInOrder c) (hlt : c.idCounter < 2 ^ 64) :
    (c.issued.map u64).Nodup := by
  refine List.Nodup.map_on (fun x hx y hy heq => ?_) (h.2.2.imp ne_of_lt)
  have hx' := (h.2.1 x).1 hx
  have hy' := (h.2.1 y).1 hy
  rw [← u64_of_lt hx'.1.le (by omega), heq, u64_of_lt hy'.1.le (by omega)]

/-- With cancels that fit: after a sequence of accepted frames for any requests, the connection
lives as before and every request is in the state in which its own frames leave it; a frame changes
nothing about requests with another id; and no two requests or cancels have the same id, nor the
same 64-bit form of it as long as there are fewer than `2 ^ 64`. -/
theorem isolated (hmax : 24 ≤ cfg.maxFrameLen) {as : List Action}
    (h : (connection cfg).Run (init cfg) as c) :
    (∀ bodies : List Bytes, (∀ body ∈ bodies, (response? body).isSome = true) →
        (c.routeAll bodies).dead = c.dead ∧
          ∀ r, (c.routeAll bodies).view r = (c.routeAll (bodies.filter (addressedTo r))).view r) ∧
      (∀ body, (response? body).isSome = true → ∀ r, addressedTo r body = false →
        (c.route body).1.view r = c.view r) ∧
      (∀ id call, c.calls.get? id = some call → id ∈ c.issued) ∧ c.issued.Nodup ∧
      (c.idCounter < 2 ^ 64 → (c.issued.map u64).Nodup) := by
  have hissued := issued_of_run h
  refine ⟨fun bodies hbodies => ?_, fun body hbody r hr => ?_, fun id call hcall => ?_,
    hissued.2.2.imp ne_of_lt, nodup_u64 hissued⟩
  · -- every frame of the sequence is one response
    obtain ⟨responses, hresponses⟩ : ∃ responses,
        List.Forall₂ (fun body response => response? body = some response) bodies responses := by
      induction bodies with
      | nil => exact ⟨[], .nil⟩
      | cons body bodies ih =>
        obtain ⟨responses, hrest⟩ := ih fun b hb => hbodies b (List.mem_cons_of_mem _ hb)
        obtain ⟨response, hresponse⟩ := Option.isSome_iff_exists.1 (hbodies body List.mem_cons_self)
        exact ⟨response :: responses, .cons hresponse hrest⟩
    obtain ⟨hdead, hsteps⟩ := steps_of_routeAll (c := c) hmax hresponses
    refine ⟨hdead, fun r => ?_⟩
    exact Demux.view_filter hsteps (steps_of_routeAll hmax (forall₂_addressedTo hresponses r)).2
  · obtain ⟨response, hresponse⟩ := Option.isSome_iff_exists.1 hbody
    obtain ⟨hdecode, hid⟩ := response?_eq_some hresponse
    obtain ⟨c', hroute, hchanges⟩ := changes_routeResponse (c := c) hid fun _ _ _ => hmax
    rw [addressedTo, hresponse, Option.any_some, decide_eq_false_iff_not] at hr
    rw [route, hdecode]
    simp only [hroute]
    exact hchanges.other r (Ne.symm hr)
  · exact (hissued.2.1 id).2 ((consistent_of_run h).calls_le id call hcall)

end Conn

end

namespace Conn

section

attribute [local instance] utf8Codec

/-- For two reads: an event with no event in it, the end of the other one, and an end for a request
that was never issued. -/
def crossedBodies : List Bytes :=
  [[8, 3, 26, 4, 10, 2, 8, 7], [8, 2, 34, 2, 8, 8], [8, 9, 34, 2, 8, 8]]

/-- One read is aborted and the other ends, and neither sees the frames of the other. -/
theorem isolated_reads : ∃ c, (connection onePermit).Run (init onePermit)
    (connectActions ++ [readAll, readAll]) c ∧
      (c.routeAll crossedBodies).view 2 = (c.routeAll [[8, 2, 34, 2, 8, 8]]).view 2 ∧
      (c.routeAll crossedBodies).view 3 = (c.routeAll [[8, 3, 26, 4, 10, 2, 8, 7]]).view 3 := by
  have hexec : ((connection onePermit).exec (init onePermit)
      (connectActions ++ [readAll, readAll])).any (fun _ => true) = true := by decide +kernel
  obtain ⟨c, hrun, -⟩ := Machine.exists_run_of_exec hexec
  have hall := ((isolated (by decide) hrun).1 crossedBodies (by decide +kernel)).2
  refine ⟨c, hrun, (hall 2).trans ?_, (hall 3).trans ?_⟩
  · rw [show crossedBodies.filter (addressedTo 2) = [[8, 2, 34, 2, 8, 8]] by decide +kernel]
  · rw [show crossedBodies.filter (addressedTo 3) = [[8, 3, 26, 4, 10, 2, 8, 7]] by decide +kernel]

end

end Conn

end Tephra
