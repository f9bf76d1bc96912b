import Tephra.Conn.Single

/-!
# One cancel at most

A stream may be closed and aborted many times, by its caller, its signal and the connection, and
its responses may come at any time in between.  What ends a request is the first thing in its story
that can (`Happening.ends`), and a cancel is queued if that is a close, an abort or a violation of
the protocol, on a connection that is alive (`Happening.cancels`).

* `Request.Open.run` : what a sequence of happenings makes of an open request.
* `cancelled_once` : how many cancels were queued for each request, at any time of a run.
-/

namespace Tephra

open Lib

/-- Whether a response finishes its request: any response does with a unary request or a hello, and
with a stream an error or the end of the read. -/
def finalizes (type : PendingType) (kind : ResponseKind) : Bool :=
  match type, kind with
  | .unary _, _ => true
  | .hello, _ => true
  | .read, .readEnd _ => true
  | .read, .error _ => true
  | .subscribe, .error _ => true
  | _, _ => false

theorem finalizes_eq (type : PendingType) (kind : ResponseKind) :
    finalizes type kind = (Conn.reaction type kind).finalizes := by
  cases type with
  | hello | unary expect => rfl
  | read | subscribe =>
    cases kind with
    | readEvents res =>
      simp only [finalizes, Conn.reaction]
      cases res.events.mapM sequencedFromWire <;> rfl
    | append res | readEnd res | error error | caughtUp res | stats res | helloAck ack | none => rfl

namespace Happening

/-- Whether this ends an open request of a type. -/
def ends (type : PendingType) : Happening → Bool
  | .response res _ => finalizes type res.kind || Conn.violates type res.kind
  | .close _ => true
  | .abort _ _ => true
  | .sendFailed _ => true
  | .died _ => true
  | _ => false

/-- Whether a cancel is queued when this ends a request of a type. -/
def cancels (type : PendingType) : Happening → Bool
  | .response res alive => alive && Conn.violates type res.kind
  | .close alive => alive
  | .abort _ alive => alive
  | _ => false

end Happening

namespace Request

variable {q : Request} {type : PendingType} {h : Happening}

/-- A request of a type is open. -/
structure Open (q : Request) (type : PendingType) : Prop where
  entry : ∃ e, q.view.pending = some e ∧ e.type = type
  call : ∃ call, q.view.call = some call ∧ call.hasType type = true ∧ call.settled = false
  cancels_eq : q.cancels = 0

theorem open_opened {call : Call} (hmakes : type.Makes call) :
    (new.react (.opened type call)).Open type where
  entry := ⟨_, rfl, rfl⟩
  call := ⟨_, rfl, hmakes.hasType, hmakes.settled⟩
  cancels_eq := rfl

namespace Open

theorem closed_eq_false (hq : q.Open type) : q.closed = false := by
  obtain ⟨⟨e, entry, -⟩, ⟨call, hcall, -, hsettled⟩, -⟩ := hq
  simp only [closed, hcall, entry, Option.isNone_some]
  split_ifs with hstream
  · by_contra hclosed
    rw [Call.settled_of_closed (by simpa using hclosed) hstream] at hsettled
    cases hsettled
  · rfl

/-- The object of a request changes, but not whether it is settled. -/
theorem update (hq : q.Open type) {f : Call → Call}
    (keeps : ∀ call : Call, call.Keeps (f call) ∧ (f call).settled = call.settled) :
    (q.update f).Open type := by
  obtain ⟨hentry, ⟨call, hcall, htype, hsettled⟩, hcancels⟩ := hq
  refine ⟨hentry, ⟨f call, ?_, ((keeps call).1.hasType type).trans htype,
    (keeps call).2.trans hsettled⟩, hcancels⟩
  simp only [Request.update, View.deliver, hcall, Option.map_some]

theorem settle (hq : q.Open type) {f : Call → Call} (cancelled : Bool)
    (closed : ∀ call : Call, call.hasType type = true → (f call).closed = true) :
    (q.settle f cancelled).Over cancelled.toNat := by
  obtain ⟨-, ⟨call, hcall, htype, -⟩, hcancels⟩ := hq
  refine ⟨rfl, ⟨f call, ?_, closed call htype⟩, ?_⟩
  · simp only [Request.settle, View.finish, hcall, Option.map_some]
  · rw [Request.settle, hcancels, Nat.zero_add]

theorem respond (hq : q.Open type) (response : WireResponse) (alive : Bool) :
    if (Happening.response response alive).ends type = true then
      (q.react (.response response alive)).Over
        ((Happening.response response alive).cancels type).toNat
    else (q.react (.response response alive)).Open type := by
  obtain ⟨e, entry, rfl⟩ := hq.entry
  rw [react_response entry (View.respond_of_pending entry response), Happening.ends,
    Happening.cancels,
    finalizes_eq, Conn.violates_eq]
  cases hreaction : Conn.reaction e.type response.kind with
  | settle f =>
    exact hq.settle (alive && false) fun call htype =>
      (Conn.ends_of_reaction hreaction call htype).closed
  | deliver f =>
    have hopen : (q.update f).Open e.type := hq.update (Conn.keeps_of_reaction hreaction)
    simp only [Conn.Reaction.violates, Bool.and_false]
    exact hopen
  | violate err =>
    exact hq.settle (alive && true) fun call _ => (Call.ends_reject err call).closed

theorem react (hq : q.Open type) (hjam : h ≠ .jam) :
    if h.ends type = true then (q.react h).Over (h.cancels type).toNat
    else (q.react h).Open type := by
  -- what ends a request cancels it exactly when it also asks the connection to
  obtain ⟨e, entry, -⟩ := hq.entry
  obtain ⟨call, hcall, -, -⟩ := hq.call
  have hclosed : ¬ q.closed = true := by rw [hq.closed_eq_false]; exact Bool.false_ne_true
  have hreject : ∀ (err : Err) (cancelled : Bool),
      (q.settle (Call.reject err) cancelled).Over cancelled.toNat := fun err cancelled =>
    hq.settle cancelled fun call _ => (Call.ends_reject err call).closed
  have huses : ∀ {h : Happening} {f : Call → Call}, h.use? = some f → (q.react h).Open type :=
    fun huse => by
      rw [react_of_use huse]
      exact hq.update fun call => ⟨(Happening.extends_of_use huse call).keeps,
        (Happening.extends_of_use huse call).settled⟩
  cases h with
  | opened type' call' =>
    show (q.react (.opened type' call')).Open type
    rwa [Request.react, hcall, Option.isSome_some, if_pos rfl]
  | permit =>
    obtain ⟨htype, hcall', hcancels⟩ := hq
    refine ⟨?_, hcall', hcancels⟩
    obtain ⟨e', entry', rfl⟩ := htype
    exact ⟨{ e' with permit := true }, by rw [Request.react, entry']; rfl, rfl⟩
  | response response alive => exact hq.respond response alive
  | close alive =>
    show (q.react (.close alive)).Over alive.toNat
    rw [Request.react, if_neg hclosed]
    refine hq.settle alive fun call _ => ?_
    cases call <;> rfl
  | abort err alive =>
    show (q.react (.abort err alive)).Over alive.toNat
    rw [Request.react, if_neg hclosed]
    exact hreject err alive
  | jam => exact absurd rfl hjam
  | sendFailed err | died err =>
    show Over _ 0
    rw [Request.react, entry, Option.isNone_some, if_neg Bool.false_ne_true]
    exact hreject err false
  | listener | microtask | next | collect | collectStep => exact huses rfl

/-- A request is over from the first thing on that ends it. -/
theorem run (hq : q.Open type) {hs : List Happening} (hjam : ∀ h ∈ hs, h ≠ .jam) :
    (hs.find? (Happening.ends type) = none → (hs.foldl Request.react q).Open type) ∧
      ∀ h, hs.find? (Happening.ends type) = some h →
        (hs.foldl Request.react q).Over (h.cancels type).toNat := by
  induction hs generalizing q with
  | nil => exact ⟨fun _ => hq, fun h hfind => by cases hfind⟩
  | cons x hs ih =>
    have hreact := hq.react (hjam x List.mem_cons_self)
    rw [List.find?_cons, List.foldl_cons]
    cases hends : x.ends type with
    | true =>
      rw [hends, if_pos rfl] at hreact
      refine ⟨fun hfind => (by cases hfind), fun h hfind => ?_⟩
      cases hfind
      exact hreact.foldl hs
    | false =>
      rw [hends, if_neg Bool.false_ne_true] at hreact
      exact ih hreact fun h hh => hjam h (List.mem_cons_of_mem _ hh)

end Open

end Request

section

variable [TextCodec] {cfg : Config} {c : Conn cfg}

namespace Conn

/-- With cancels that fit, at any time of a run: as long as nothing has ended a request it is
pending and no cancel was queued for it; once something has, the request is gone, and exactly one
cancel was queued for it if that was a close, an abort or a violation of the protocol on a
connection that was alive, and none otherwise.  For ids that belong to no request there are no
cancels. -/
theorem cancelled_once (hmax : 24 ≤ cfg.maxFrameLen) {as : List Action}
    (h : (connection cfg).Run (init cfg) as c) :
    (∀ t, c.calls.get? t = none → c.cancelCount t = 0) ∧
      ∀ t call, c.calls.get? t = some call → ∃ type call₀ rest,
        story cfg t as = .opened type call₀ :: rest ∧ call.hasType type = true ∧
          (rest.find? (Happening.ends type) = none →
            c.pending.has t = true ∧ c.cancelCount t = 0) ∧
          ∀ x, rest.find? (Happening.ends type) = some x →
            c.pending.has t = false ∧ c.cancelCount t = if x.cancels type then 1 else 0 := by
  have hrun : ∀ {t : ℤ} {type : PendingType} {call₀ : Call} {rest : List Happening},
      story cfg t as = .opened type call₀ :: rest → type.Makes call₀ →
      c.request t = rest.foldl Request.react (Request.new.react (.opened type call₀)) →
      (rest.find? (Happening.ends type) = none → (c.request t).Open type) ∧
        ∀ x, rest.find? (Happening.ends type) = some x →
          (c.request t).Over (x.cancels type).toNat := fun {t} _ _ _ hstory hmakes hrequest => by
    rw [hrequest]
    -- a cancel that fits never jams
    refine (Request.open_opened hmakes).run fun x hx => ?_
    rintro rfl
    have hmem : Happening.jam ∈ story cfg t as := by
      rw [hstory]
      exact List.mem_cons_of_mem _ hx
    rcases meets_of_mem_story h hmem with heq | ⟨c₁, a, -, hmeets⟩
    · cases heq
    · cases hmeets with
      | jam unfit => exact absurd hmax (Nat.not_le_of_lt unfit)
  refine ⟨fun t hnone => ?_, fun t call hcall => ?_⟩
  · rcases story_cases h t with ⟨-, hrequest⟩ | ⟨type, call₀, rest, -, -, -, htype⟩
    · exact congrArg Request.cancels hrequest
    · -- a request that was made has an object
      rw [hnone] at htype
      cases htype
  · rcases story_cases h t with ⟨-, hrequest⟩ | ⟨type, call₀, rest, hstory, hmakes, hrequest, htype⟩
    · have hnone : c.calls.get? t = none := congrArg (fun q => q.view.call) hrequest
      cases hcall.symm.trans hnone
    obtain ⟨hopen, hover⟩ := hrun hstory hmakes hrequest
    have hpending : ∀ {p}, (c.request t).view.pending = p → c.pending.has t = p.isSome :=
      fun hp => congrArg Option.isSome hp
    rw [hcall] at htype
    refine ⟨type, call₀, rest, hstory, htype, fun hfind => ?_, fun x hfind => ?_⟩
    · obtain ⟨e, entry, -⟩ := (hopen hfind).entry
      exact ⟨hpending entry, (hopen hfind).cancels_eq⟩
    · refine ⟨hpending (hover x hfind).gone, (hover x hfind).cancels_eq.trans ?_⟩
      cases x.cancels type <;> rfl

end Conn

end

namespace Conn

section

attribute [local instance] utf8Codec

/-- A read is sent and closed twice, and its end comes too late. -/
def closedTwice : List Action :=
  connectActions ++ [readAll, .permit 2, .closeStream 2, .closeStream 2,
    .data [0, 0, 0, 6, 8, 2, 34, 2, 8, 8]]

/-- What happens to the read. -/
def closedTwiceStory : List Happening :=
  [.permit, .close true, .close true,
    .response { requestId := 2, kind := .readEnd { watermark := 8 } } true]

/-- One cancel is queued for it. -/
theorem cancelled_read : ∃ c, (connection onePermit).Run (init onePermit) closedTwice c ∧
    c.pending.has 2 = false ∧ c.cancelCount 2 = 1 := by
  have hexec : ((connection onePermit).exec (init onePermit) closedTwice).any (fun c =>
      (c.calls.get? 2).isSome) = true := by decide +kernel
  obtain ⟨c, hrun, hc⟩ := Machine.exists_run_of_exec hexec
  obtain ⟨call, hcall⟩ := Option.isSome_iff_exists.1 hc
  have hstory : story onePermit 2 closedTwice =
      .opened .read (.read (.new .none)) :: closedTwiceStory := by decide +kernel
  obtain ⟨type, call₀, rest, hrest, -, -, hended⟩ :=
    (cancelled_once (by decide) hrun).2 2 call hcall
  cases hstory.symm.trans hrest
  exact ⟨c, hrun, hended (.close true) (by decide)⟩

end

end Conn

end Tephra
