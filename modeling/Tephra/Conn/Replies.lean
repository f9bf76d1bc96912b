import Tephra.Conn.Channel

/-!
# What the caller of a request is told

An append, a stats call and the hello are answered once, through a deferred.  An `Inquiry` is one of
these kinds of requests: where its deferred is and what it makes of a response.

* `Inquiry.run` : the deferred is that of the last thing in the life of the request.
* `request_answered` : what a caller is told, in any run.
-/

namespace Tephra

open Lib

variable {α : Type}

/-- A deferred with this outcome, none while it is open. -/
def Deferred.of : Option (Except Err α) → Deferred α
  | none => pending
  | some (.ok value) => resolved value
  | some (.error err) => rejected err

/-- A kind of request with a deferred. -/
structure Inquiry (α : Type) where
  type : PendingType
  /-- The deferred of its objects. -/
  deferred? : Call → Option (Deferred α)
  /-- What a response comes to. -/
  outcome : ResponseKind → Except Err α
  makes : ∀ {call}, type.Makes call → deferred? call = some .pending
  terminal : ∀ {call d}, deferred? call = some d → call.terminal = d.settled
  /-- It is no stream. -/
  mapBase : ∀ {call d}, deferred? call = some d → call.isStream = false ∧
    ∀ f : ∀ {β : Type}, BaseStream β → BaseStream β, call.mapBase f = call
  use : ∀ {h : Happening} {f call d}, h.use? = some f → deferred? call = some d →
    deferred? (f call) = some d
  reject : ∀ {call} (err : Err), deferred? call = some .pending →
    deferred? (call.reject err) = some (.rejected err)
  settle : ∀ kind, ∃ f, Conn.reaction type kind = .settle f ∧
    ∀ call, deferred? call = some .pending → deferred? (f call) = some (.of (some (outcome kind)))

namespace Inquiry

variable (p : Inquiry α) {q : Request} {h : Happening}
  {result : Option (Except Err α)}

/-- How a request is answered when it is settled by what happens to it. -/
def answer : Happening → Option (Except Err α)
  | .response res _ => some (p.outcome res.kind)
  | .abort err _ | .sendFailed err | .died err => some (.error err)
  | .opened _ _ | .permit | .close _ | .jam | .listener | .microtask | .next | .collect
  | .collectStep => none

/-- A request is told nothing while it is pending, and then what the last thing in its life says. A
response is its own. -/
def Answered (d : Deferred α) (t : ℤ) (pending : Bool) (life : List Happening) : Prop :=
  if pending then d = .pending
  else ∃ h outcome, life.getLast? = some h ∧ p.answer h = some outcome ∧ d = .of (some outcome) ∧
    ∀ response alive, h = .response response alive → response.requestId = t

/-- The deferred of a request. -/
def Holds (q : Request) (d : Deferred α) : Prop :=
  ∃ call, q.view.call = some call ∧ p.deferred? call = some d

/-- The request is pending, and its deferred open. -/
structure Open (q : Request) : Prop where
  entry : ∃ e, q.view.pending = some e ∧ e.type = p.type
  holds : p.Holds q .pending

/-- The request is over, and answered so. -/
structure Closed (q : Request) (result : Option (Except Err α)) : Prop where
  isOver : ∃ n, q.Over n
  holds : p.Holds q (.of result)

variable {p}

/-! ### One thing that happens -/

theorem Holds.use {d : Deferred α} (hq : p.Holds q d) {f : Call → Call} (huse : h.use? = some f) :
    p.Holds (q.react h) d := by
  obtain ⟨call, hcall, hd⟩ := hq
  refine ⟨f call, ?_, p.use huse hd⟩
  simp only [Request.react_of_use huse, Request.update, View.deliver, hcall, Option.map_some]

theorem Closed.foldl (hq : p.Closed q result) (hs : List Happening) :
    p.Closed (hs.foldl Request.react q) result := by
  induction hs generalizing q with
  | nil => exact hq
  | cons h hs ih =>
    refine ih ?_
    obtain ⟨⟨n, hover⟩, hholds⟩ := hq
    refine ⟨⟨n, hover.react h⟩, ?_⟩
    cases huse : h.use? with
    | none => rwa [hover.react_eq_self huse]
    | some f => exact hholds.use huse

theorem Open.settle (hq : p.Open q) {f : Call → Call} {n : ℕ}
    (heq : q.react h = { view := q.view.finish f, cancels := n })
    (hf : ∀ call, p.deferred? call = some .pending → p.deferred? (f call) = some (.of result)) :
    p.Closed (q.react h) result := by
  obtain ⟨call, hcall, hd⟩ := hq.holds
  have hcall' : (q.react h).view.call = some (f call) := by
    simp only [heq, View.finish, hcall, Option.map_some]
  have hclosed : (f call).closed = true := by
    have hstream := (p.mapBase (hf call hd)).1
    revert hstream
    generalize f call = call'
    intro hstream
    cases call' with
    | unary deferred abortListener | hello deferred => rfl
    | read stream | subscribe stream => cases hstream
  refine ⟨⟨n, ?_, ⟨_, hcall', hclosed⟩, ?_⟩, f call, hcall', hf call hd⟩
  · rw [heq]; rfl
  · rw [heq]

theorem Open.react (hq : p.Open q) (h : Happening) :
    p.Open (q.react h) ∨ p.Closed (q.react h) (p.answer h) := by
  obtain ⟨e, entry, htype⟩ := hq.entry
  obtain ⟨call, hcall, hd⟩ := hq.holds
  obtain ⟨hstream, hbase⟩ := p.mapBase hd
  have hclosed : ¬ q.closed = true := by
    simp only [Request.closed, hcall, hstream, entry, Option.isNone_some, Bool.false_eq_true,
      if_false, not_false_eq_true]
  have hsame : q.react h = q → p.Open (q.react h) := fun heq => by rwa [heq]
  have hfail : ∀ (err : Err) (n : ℕ), p.answer h = some (.error err) →
      q.react h = { view := q.view.finish (Call.reject err), cancels := n } →
      p.Closed (q.react h) (p.answer h) := fun err n hanswer heq =>
    hq.settle heq fun call hd => by
      rw [hanswer]
      exact p.reject err hd
  have huse : ∀ f, h.use? = some f → p.Open (q.react h) := fun f hf =>
    ⟨⟨e, by rw [Request.react_of_use hf]; exact entry, htype⟩, hq.holds.use hf⟩
  -- a response, the consumer, the signal or a failure answers; the rest changes nothing about it
  cases h with
  | opened type call' =>
    exact .inl (hsame (by rw [Request.react, hcall, Option.isSome_some, if_pos rfl]))
  | permit =>
    exact .inl ⟨⟨{ e with permit := true }, by rw [Request.react, entry]; rfl, htype⟩, hq.holds⟩
  | response response alive =>
    have hreact := Request.react_response entry (View.respond_of_pending entry response) alive
    obtain ⟨f, hreaction, hf⟩ := p.settle response.kind
    rw [htype, hreaction] at hreact
    exact .inr (hq.settle hreact hf)
  | close alive =>
    refine .inr (hq.settle (f := Call.mapBase BaseStream.finishClean) (n := q.cancels + alive.toNat)
      (by rw [Request.react, if_neg hclosed]; rfl) fun call hd => ?_)
    rw [(p.mapBase hd).2]
    exact hd
  | abort err alive =>
    refine .inr (hfail err (q.cancels + alive.toNat) rfl ?_)
    rw [Request.react, if_neg hclosed]
    rfl
  | jam =>
    refine .inl (hsame ?_)
    rw [Request.react, if_neg hclosed]
    exact Request.update_eq_self hcall (hbase _)
  | sendFailed err | died err =>
    refine .inr (hfail err (q.cancels + 0) rfl ?_)
    rw [Request.react, entry, Option.isNone_some, if_neg Bool.false_ne_true]
    rfl
  | listener | microtask | next | collect | collectStep => exact .inl (huse _ rfl)

/-! ### The life of a request -/

theorem Open.new {call : Call} (hmakes : p.type.Makes call) :
    p.Open (Request.new.react (.opened p.type call)) where
  entry := ⟨_, rfl, rfl⟩
  holds := ⟨call, rfl, p.makes hmakes⟩

/-- A request is open, or the last thing in its life has answered it. -/
theorem run (hq : p.Open q) (hs : List Happening) :
    p.Open (hs.foldl Request.react q) ∨
      p.Closed (hs.foldl Request.react q) ((q.life hs).getLast?.bind p.answer) := by
  refine Request.life_cases (P := fun q _ => p.Open q)
    (E := fun q l => p.Closed q (l.getLast?.bind p.answer))
    (fun q l hq => ?_) (fun q l h hq => ?_) (fun q l hs hq => hq.foldl hs) hq hs
  · obtain ⟨e, entry, -⟩ := hq.entry
    exact ⟨e, entry⟩
  · rw [List.getLast?_concat, Option.bind_some]
    rcases hq.react h with hopen | hclosed
    · exact .inl hopen
    · obtain ⟨n, hover⟩ := hclosed.isOver
      exact .inr ⟨hover.gone, hclosed⟩

end Inquiry

/-! ### Unary requests and the hello -/

/-- Unary requests that expect a reply. -/
def unaryInquiry (expect : Expect) : Inquiry Reply where
  type := .unary expect
  deferred?
    | .unary deferred _ => some deferred
    | _ => none
  outcome := Conn.unaryOutcome expect
  makes h := by obtain ⟨abortListener, rfl⟩ := h; rfl
  terminal {call d} h := by
    cases call with
    | unary deferred abortListener => cases h; rfl
    | hello deferred | read stream | subscribe stream => cases h
  mapBase {call d} h := by cases call <;> first | exact ⟨rfl, fun _ => rfl⟩ | cases h
  use {h f call d} huse hd := by
    cases call with
    | unary deferred abortListener => cases h <;> cases huse <;> exact hd
    | hello deferred | read stream | subscribe stream => cases hd
  reject {call} err h := by cases call <;> cases h; rfl
  settle kind := ⟨_, rfl, fun call h => by
    cases call with
    | unary deferred abortListener =>
      cases h
      simp only [Call.settleUnary]
      cases Conn.unaryOutcome expect kind <;> rfl
    | hello deferred | read stream | subscribe stream => cases h⟩

/-- The hello. -/
def helloInquiry : Inquiry Unit where
  type := .hello
  deferred?
    | .hello deferred => some deferred
    | _ => none
  outcome := Conn.helloOutcome
  makes h := by cases h; rfl
  terminal {call d} h := by
    cases call with
    | hello deferred => cases h; rfl
    | unary deferred abortListener | read stream | subscribe stream => cases h
  mapBase {call d} h := by cases call <;> first | exact ⟨rfl, fun _ => rfl⟩ | cases h
  use {h f call d} huse hd := by
    cases call with
    | hello deferred => cases h <;> cases huse <;> exact hd
    | unary deferred abortListener | read stream | subscribe stream => cases hd
  reject {call} err h := by cases call <;> cases h; rfl
  settle kind := ⟨_, rfl, fun call h => by
    cases call with
    | hello deferred =>
      cases h
      simp only [Call.settleHello]
      cases Conn.helloOutcome kind <;> rfl
    | unary deferred abortListener | read stream | subscribe stream => cases h⟩

theorem Request.life_begins (q : Request) (hs : List Happening) : q.life hs <+: hs := by
  induction hs generalizing q with
  | nil => exact List.prefix_rfl
  | cons h hs ih =>
    rw [life]
    by_cases hgone : (q.react h).view.pending.isNone = true
    · rw [if_pos hgone]
      exact List.cons_prefix_cons.2 ⟨rfl, List.nil_prefix⟩
    · rw [if_neg hgone]
      exact List.cons_prefix_cons.2 ⟨rfl, ih _⟩

namespace Conn

section

variable [TextCodec] {cfg : Config} {c : Conn cfg} {t : ℤ} {as : List Action}

/-! ### Runs -/

variable {a : Action} {h : Happening}

/-- What makes something happen to request `t`: a response comes in a chunk and has its id, and only
its consumer closes it. -/
def CausedBy (t : ℤ) (a : Action) : Happening → Prop
  | .response response _ => response.requestId = t ∧ ∃ chunk, a = .data chunk
  | .close _ => a = .closeStream t
  | _ => True

theorem causedBy_failing {err : Err} (hmem : h ∈ c.failing err) : CausedBy t a h := by
  unfold failing at hmem
  split_ifs at hmem
  · cases hmem
  · rw [List.mem_singleton.1 hmem]
    trivial

theorem causedBy_ending {id : ℤ} (hh : CausedBy t a h) : CausedBy t a (c.ending id h) := by
  unfold ending
  split_ifs
  · exact hh
  · trivial

theorem causedBy_frames {chunk : Bytes} (bodies : List Bytes) (c : Conn cfg)
    (hmem : h ∈ c.frameHappenings t bodies) : CausedBy t (.data chunk) h := by
  induction bodies generalizing c with
  | nil => cases hmem
  | cons body bodies ih =>
    rw [frameHappenings] at hmem
    split at hmem
    · exact causedBy_failing hmem
    split at hmem
    · exact causedBy_failing hmem
    rcases List.mem_append.1 hmem with hmem | hmem
    · unfold responseHappenings at hmem
      split_ifs at hmem
      · split at hmem
        · exact causedBy_failing hmem
        · cases hmem
      · obtain ⟨hid, hmem⟩ := mem_on.1 hmem
        rw [List.mem_singleton.1 hmem]
        exact ⟨hid, chunk, rfl⟩
    · exact ih _ hmem

theorem causedBy_unary {expect : Expect} {signal : Signal}
    (hmem : h ∈ c.unaryHappenings t expect signal) : CausedBy t a h := by
  unfold unaryHappenings at hmem
  split_ifs at hmem
  · cases hmem
  rcases List.mem_cons.1 (mem_on.1 hmem).2 with rfl | hmem
  · trivial
  cases signal with
  | none | live => cases hmem
  | aborted reason =>
    rw [List.mem_singleton.1 hmem]
    exact causedBy_ending trivial

theorem causedBy_writer {outcome : WriteOutcome} (hmem : h ∈ c.writerHappenings outcome) :
    CausedBy t a h := by
  unfold writerHappenings at hmem
  split_ifs at hmem
  · cases hmem
  cases outcome with
  | threw reason => exact causedBy_failing hmem
  | returned ok => cases hmem

theorem causedBy_of_mem (hmem : h ∈ c.happenings t a) : CausedBy t a h := by
  cases a with
  | data chunk =>
    simp only [happenings] at hmem
    split at hmem
    · exact causedBy_failing hmem
    · exact causedBy_frames _ _ hmem
  | append req signal | stats signal => exact causedBy_unary hmem
  | read req signal | subscribe req signal | next id | collect id | collectStep id =>
    rw [List.mem_singleton.1 (mem_on.1 hmem).2]
    trivial
  | close | socketError err | socketClose => exact causedBy_failing hmem
  | closeStream id =>
    obtain ⟨hid, hending⟩ := mem_on.1 hmem
    rw [List.mem_singleton.1 hending]
    exact causedBy_ending (congrArg Action.closeStream hid)
  -- an abort takes the listener off before it ends the request
  | abort id reason =>
    rcases List.mem_cons.1 (mem_on.1 hmem).2 with hlistener | hending
    · rw [hlistener]
      trivial
    · rw [List.mem_singleton.1 hending]
      exact causedBy_ending trivial
  | drained | slot id => cases hmem
  | permit id =>
    simp only [happenings] at hmem
    split at hmem
    · rcases mem_permitHappenings (mem_on.1 hmem).2 with rfl | ⟨err, rfl⟩ <;> trivial
    · cases hmem
  | sendFailed id =>
    simp only [happenings] at hmem
    split at hmem
    · rw [List.mem_singleton.1 (mem_on.1 hmem).2]
      trivial
    · cases hmem
  | writer outcome | drainResumed outcome => exact causedBy_writer hmem
  | drainRejected =>
    simp only [happenings] at hmem
    split at hmem
    · exact causedBy_failing hmem
    · cases hmem
  | abortMicrotask id =>
    simp only [happenings] at hmem
    split at hmem
    · rcases List.mem_cons.1 (mem_on.1 hmem).2 with rfl | hmem
      · trivial
      · rw [List.mem_singleton.1 hmem]
        exact causedBy_ending trivial
    · cases hmem

/-- A response that happens to a request has its id and comes in a chunk. -/
theorem of_mem_response {response : WireResponse} {alive : Bool}
    (hmem : .response response alive ∈ c.happenings t a) :
    response.requestId = t ∧ ∃ chunk, a = .data chunk := causedBy_of_mem hmem

theorem of_mem_close {alive : Bool} (hmem : .close alive ∈ c.happenings t a) : a = .closeStream t :=
  causedBy_of_mem hmem

theorem requestId_of_mem_story (h : (connection cfg).Run (init cfg) as c) {response : WireResponse}
    {alive : Bool} (hmem : .response response alive ∈ story cfg t as) : response.requestId = t := by
  rcases List.mem_append.1 ((List.dropWhile_sublist _).subset hmem) with hmem | hmem
  · cases List.mem_singleton.1 (mem_on.1 hmem).2
  · refine h.forall_mem_observe (P := fun h => ∀ response alive, h = .response response alive →
      response.requestId = t) (fun c a _ h hh response alive heq => ?_) _ hmem _ _ rfl
    exact (of_mem_response (heq ▸ hh)).1

theorem mem_story_of_mem_life {x : Happening} (hmem : x ∈ life cfg t as) : x ∈ story cfg t as := by
  rw [life] at hmem
  split at hmem
  · cases hmem
  · rename_i h rest hstory
    rw [hstory]
    exact List.mem_cons_of_mem _ ((Request.life_begins _ _).subset hmem)

/-- A request of a connection is answered once, by the last thing in its life. -/
theorem answered_of_run {α : Type} (p : Inquiry α) (h : (connection cfg).Run (init cfg) as c)
    {call : Call} (hcall : c.calls.get? t = some call) {d : Deferred α}
    (hd : p.deferred? call = some d)
    {call₀ : Call} {rest : List Happening} (hstory : story cfg t as = .opened p.type call₀ :: rest)
    (hmakes : p.type.Makes call₀)
    (hrequest : c.request t = rest.foldl Request.react (Request.new.react (.opened p.type call₀))) :
    p.Answered d t (c.pending.has t) (life cfg t as) := by
  have hview : (c.request t).view.call = some call := hcall
  have hlife : life cfg t as = (Request.new.react (.opened p.type call₀)).life rest := by
    rw [life, hstory]
  rcases p.run (Inquiry.Open.new hmakes) rest with hopen | hclosed
  · rw [← hrequest] at hopen
    obtain ⟨⟨e, entry, -⟩, call', hcall', hd'⟩ := hopen
    cases hview.symm.trans hcall'
    cases hd.symm.trans hd'
    have hpending : c.pending.has t = true := by
      rw [OrdMap.has, show c.pending.get? t = some e from entry]
      rfl
    rw [hpending, Inquiry.Answered, if_pos rfl]
  · rw [← hrequest, ← hlife] at hclosed
    obtain ⟨⟨n, hover⟩, call', hcall', hd'⟩ := hclosed
    cases hview.symm.trans hcall'
    have hresult := Option.some.inj (hd.symm.trans hd')
    have hpending : c.pending.has t = false := by
      rw [OrdMap.has, show c.pending.get? t = none from hover.gone]
      rfl
    -- a request that is not pending has its outcome
    have hsettled : d.settled = true := by
      rw [← p.terminal hd]
      by_contra hopen
      have hhas := (consistent_of_run h).pending_of_open t call hcall
        (.inl (Bool.eq_false_of_not_eq_true hopen))
      rw [hpending] at hhas
      cases hhas
    rw [hpending, Inquiry.Answered, if_neg Bool.false_ne_true]
    cases hbind : (life cfg t as).getLast?.bind p.answer with
    | none =>
      rw [hresult, hbind] at hsettled
      cases hsettled
    | some outcome =>
      obtain ⟨x, hlast, hanswer⟩ := Option.bind_eq_some_iff.1 hbind
      refine ⟨x, outcome, hlast, hanswer, by rw [hresult, hbind], ?_⟩
      rintro response alive rfl
      exact requestId_of_mem_story h (mem_story_of_mem_life (List.mem_of_getLast? hlast))

/-- **A caller is told once, and what the server said.**  In every run, an append or a stats call,
or the hello, is told nothing while it is pending.  Then it is told what the last thing in its life
says: its own response, or what it failed with. -/
theorem request_answered (h : (connection cfg).Run (init cfg) as c) (t : ℤ) :
    (∀ deferred abortListener, c.calls.get? t = some (.unary deferred abortListener) →
      ∃ expect call₀, (story cfg t as).head? = some (.opened (.unary expect) call₀) ∧
        (unaryInquiry expect).Answered deferred t (c.pending.has t) (life cfg t as)) ∧
    ∀ deferred, c.calls.get? t = some (.hello deferred) →
      helloInquiry.Answered deferred t (c.pending.has t) (life cfg t as) := by
  rcases story_cases h t with
    ⟨-, hrequest⟩ | ⟨type, call₀, rest, hstory, hmakes, hrequest, hhas⟩
  · have hnone : c.calls.get? t = none := congrArg (fun q => q.view.call) hrequest
    constructor
    · intro deferred abortListener hcall
      cases hcall.symm.trans hnone
    · intro deferred hcall
      cases hcall.symm.trans hnone
  constructor
  · intro deferred abortListener hcall
    rw [hcall, Option.any_some] at hhas
    cases type with
    | unary expect =>
      refine ⟨expect, call₀, by rw [hstory]; rfl, ?_⟩
      exact answered_of_run (unaryInquiry expect) h hcall rfl hstory hmakes hrequest
    | hello | read | subscribe => cases hhas
  · intro deferred hcall
    rw [hcall, Option.any_some] at hhas
    cases type with
    | hello => exact answered_of_run helloInquiry h hcall rfl hstory hmakes hrequest
    | unary expect | read | subscribe => cases hhas

end

section

attribute [local instance] utf8Codec

/-- An append is sent and answered, and then another answer comes. -/
def appending : List Action :=
  connectActions ++ [.append (.ok { events := [], condition := none }) .none, .permit 2, .slot 2,
    .writer (.returned true), .data [0, 0, 0, 8, 8, 2, 18, 4, 8, 3, 16, 4],
    .data [0, 0, 0, 8, 8, 2, 18, 4, 8, 5, 16, 6]]

/-- The reply that counts. -/
def appendReply : Reply := .append { first := 3, last := 4 }

/-- The first answer is the one that counts. -/
theorem append_answered : ∃ c, (connection onePermit).Run (init onePermit) appending c ∧
    c.calls.get? 2 = some (.unary (.resolved appendReply) false) ∧
      ∃ expect call₀, (story onePermit 2 appending).head? = some (.opened (.unary expect) call₀) ∧
        (unaryInquiry expect).Answered (.resolved appendReply) 2 (c.pending.has 2)
          (life onePermit 2 appending) := by
  have hexec : ((connection onePermit).exec (init onePermit) appending).any (fun c =>
      c.calls.get? 2 = some (.unary (.resolved appendReply) false)) = true := by decide +kernel
  obtain ⟨c, hrun, hc⟩ := Machine.exists_run_of_exec hexec
  have hcall := of_decide_eq_true hc
  exact ⟨c, hrun, hcall, (request_answered hrun 2).1 _ _ hcall⟩

end

end Conn

end Tephra
