import Tephra.Client
import Tephra.Conn.Death
import Tephra.Conn.Single
import Tephra.Transport

/-!
# Connecting

`Conn.connect` dials a socket, makes a connection of it and waits for the answer to its hello.  Only
the dial is given the signal: what aborts during the hello is not noticed.

* `Connecting.Doomed` : a connect that is going to be rejected, with its socket gone; every step
  keeps this.
* `Connecting.abort_rejects` : where the signal aborts in time, that is before the socket is
  ready or when the connect is to be rejected anyway, the connect is rejected.
* `Connecting.Sound.step_abort_of_not_inTime` : where it does not, nothing but the signal changes.
-/

namespace Tephra

open Lib

/-- What `connect` waits for. -/
inductive ConnectPhase
  /-- `await dialSocket(…)`. -/
  | dialing
  /-- `await conn.hello(…)`. -/
  | greeting
  /-- `await conn.close()`, to throw the error of the hello then. -/
  | closing (err : Err)
  | settled
  deriving DecidableEq, Repr

/-- How often a connect that fails still runs on. -/
def ConnectPhase.left : ConnectPhase → ℕ
  | greeting => 2
  | dialing | closing _ => 1
  | settled => 0

section

variable [TextCodec]

/-- A call to `Conn.connect`. -/
structure Connecting (cfg : ResolvedConfig) where
  signal : Signal
  dial : Dial
  /-- The connection, once it is made. -/
  conn : Option (Conn cfg.toConfig)
  phase : ConnectPhase
  /-- The promise returned, which is resolved with the connection. -/
  promise : Deferred Unit
  /-- Whether the signal aborted while the promise was open. -/
  abortedEarly : Bool

/-- The steps of a connect. -/
inductive ConnectAction
  /-- An event of the socket, for the dial. -/
  | socket (event : SocketEvent)
  /-- The socket closes before there is a connection to listen to it. -/
  | socketClose
  | abort (reason : Reason)
  /-- The promise that `connect` waits for is settled, and it runs on. -/
  | resume
  /-- The connection does something. -/
  | conn (a : Action)

/-- Whether a step is a continuation that was waiting to run. -/
def ConnectAction.isContinuation : ConnectAction → Bool
  | resume => true
  | conn a => a.isContinuation
  | _ => false

namespace Connecting

variable {cfg : ResolvedConfig}

/-- `connect`, up to its first `await`. -/
def start (cfg : ResolvedConfig) (host : JsString) (port : JsNumber) (signal : Signal)
    (thrown : Option DialThrow) : Connecting cfg where
  signal := signal
  dial := dialSocket host port cfg signal thrown
  conn := none
  phase := .dialing
  promise := .pending
  abortedEarly :=
    match signal with
    | .aborted _ => true
    | _ => false

/-- The promise of the hello, once it is sent. -/
def hello? (s : Connecting cfg) : Option (Deferred Unit) :=
  s.conn.bind fun c =>
    match c.calls.get? 1 with
    | some (.hello deferred) => some deferred
    | _ => none

/-- `connect` throws. -/
def reject (s : Connecting cfg) (err : Err) : Connecting cfg :=
  { s with phase := .settled, promise := s.promise.reject err }

/-- `connect` after an `await`, if what it waits for is settled. -/
def resume (s : Connecting cfg) : Option (Connecting cfg) :=
  match s.phase with
  | .dialing =>
    match s.dial.promise with
    | .pending => none
    | .rejected err => some (s.reject err)
    | .resolved () =>
      some { s with
        phase := .greeting
        conn := some { Conn.init cfg.toConfig with destroyed := s.dial.destroyed } }
  | .greeting =>
    match s.hello? with
    | some (.resolved ()) => some { s with phase := .settled, promise := s.promise.resolve () }
    | some (.rejected err) => some { s with phase := .closing err, conn := s.conn.map Conn.close }
    | _ => none
  | .closing err => some (s.reject err)
  | .settled => none

/-- A step, if it can be taken.  Nobody makes requests on a connection before `connect` returns
it. -/
def step (s : Connecting cfg) : ConnectAction → Option (Connecting cfg)
  | .socket event =>
    if s.dial.socket.isSome then some { s with dial := s.dial.onEvent event } else none
  | .socketClose =>
    if s.dial.socket.isSome && s.conn.isNone then
      some { s with dial := { s.dial with destroyed := true } }
    else none
  | .abort reason =>
    if s.signal = .live then
      some { s with
        signal := .aborted reason
        dial := s.dial.signalAborts reason
        abortedEarly := s.promise = .pending }
    else none
  | .resume => s.resume
  | .conn a =>
    if a.isCall && s.promise ≠ .resolved () then none
    else s.conn.bind fun c => (c.step a).map fun c' => { s with conn := some c' }

/-- The socket is destroyed, if one was made. -/
def SocketGone (s : Connecting cfg) : Prop :=
  s.dial.socket.isSome = true → s.dial.destroyed = true ∨ s.conn.any (·.destroyed) = true

/-- No continuation can run. -/
def Quiescent (s : Connecting cfg) : Prop :=
  ∀ a : ConnectAction, a.isContinuation = true → s.step a = none

/-- The promise is rejected, and the socket is destroyed. -/
def Rejected (s : Connecting cfg) : Prop := (∃ err, s.promise = .rejected err) ∧ s.SocketGone

/-- An abort would be in time: the socket is not ready yet, or dialling has failed and the socket is
destroyed, or the hello has failed. -/
def InTime (s : Connecting cfg) : Prop :=
  s.dial.promise = .pending ∨ ((∃ err, s.dial.promise = .rejected err) ∧ s.SocketGone) ∨
    ∃ err, s.hello? = some (.rejected err)

/-- If this is an abort of a connect that is not settled yet, it is in time. -/
def AbortsInTime (s : Connecting cfg) (a : ConnectAction) : Prop :=
  ∀ reason, a = .abort reason → s.promise = .pending → s.InTime

end Connecting

/-- A connect as an event machine. -/
def connecting (cfg : ResolvedConfig) : Machine (Connecting cfg) ConnectAction where
  step := Connecting.step

/-! ### The hello of a connection -/

/-- A request is a hello with this promise, and is pending as long as that is open. -/
structure Request.Greets (q : Request) (deferred : Deferred Unit) : Prop where
  call : q.view.call = some (.hello deferred)
  pending : deferred = .pending ∨ q.view.pending = none

omit [TextCodec] in
theorem Call.eq_hello {call : Call} (h : call.hasType .hello = true) :
    ∃ deferred, call = .hello deferred := by
  cases call with
  | hello deferred => exact ⟨deferred, rfl⟩
  | unary deferred abortListener | read stream | subscribe stream => cases h

omit [TextCodec] in
/-- A hello whose promise is settled keeps it, whatever happens. -/
theorem Request.Greets.react_of_gone {q : Request} {deferred : Deferred Unit}
    (hq : q.Greets deferred) (hgone : q.view.pending = none) (h : Happening) :
    (q.react h).Greets deferred ∧ (q.react h).view.pending = none := by
  have hover : q.Over q.cancels := ⟨hgone, ⟨_, hq.call, rfl⟩, rfl⟩
  cases huse : h.use? with
  | none =>
    rw [hover.react_eq_self huse]
    exact ⟨hq, hgone⟩
  | some f =>
    have hkeep : f (.hello deferred) = .hello deferred := by
      have hext := Happening.extends_of_use huse (.hello deferred)
      obtain ⟨deferred', hf⟩ := Call.eq_hello ((hext.keeps.hasType .hello).trans rfl)
      rw [hf] at hext ⊢
      rw [show deferred' = deferred from hext]
    rw [react_of_use huse]
    refine ⟨⟨?_, .inr hgone⟩, hgone⟩
    show q.view.call.map f = _
    rw [hq.call, Option.map_some, hkeep]

omit [TextCodec] in
/-- A hello that is open stays so, or its promise is settled and it is no longer pending. -/
theorem Request.Greets.react_of_open {q : Request} (hq : q.Greets .pending) {e : Pending}
    (entry : q.view.pending = some e) (h : Happening) :
    ∃ deferred, (q.react h).Greets deferred := by
  have hclosed : ¬ q.closed = true := by
    simp only [closed, hq.call, entry, Call.isStream, Option.isNone_some, Bool.false_eq_true,
      if_false, not_false_eq_true]
  have hnone : ¬ q.view.pending.isNone = true := by simp [entry]
  -- the request gets its outcome
  have hfinish : ∀ (f : Call → Call) (n : ℕ),
      (∀ call, (f call).hasType .hello = call.hasType .hello) →
      ∃ deferred, Request.Greets ⟨q.view.finish f, n⟩ deferred := by
    intro f n hf
    obtain ⟨deferred, hcall⟩ := Call.eq_hello ((hf (.hello .pending)).trans rfl)
    refine ⟨deferred, ?_, .inr rfl⟩
    show q.view.call.map f = _
    rw [hq.call, Option.map_some, hcall]
  -- its object changes, and stays open
  have hdeliver : ∀ (f : Call → Call) (n : ℕ), (∀ call : Call, call.Keeps (f call)) →
      ∃ deferred, Request.Greets ⟨q.view.deliver f, n⟩ deferred := by
    intro f n hf
    have hkeeps := hf (.hello .pending)
    obtain ⟨deferred, hcall⟩ := Call.eq_hello ((hkeeps.hasType .hello).trans rfl)
    refine ⟨deferred, ?_, .inl ?_⟩
    · show q.view.call.map f = _
      rw [hq.call, Option.map_some, hcall]
    · have hterminal := hkeeps.terminal
      rw [hcall] at hterminal
      cases deferred with
      | pending => rfl
      | resolved _ | rejected _ => cases hterminal
  have huses : ∀ {h : Happening} {f : Call → Call}, h.use? = some f →
      ∃ deferred, (q.react h).Greets deferred := by
    intro h f huse
    rw [react_of_use huse]
    exact hdeliver f _ fun call => (Happening.extends_of_use huse call).keeps
  cases h with
  | opened type call =>
    rw [react, hq.call, Option.isSome_some, if_pos rfl]
    exact ⟨.pending, hq⟩
  | permit => exact ⟨.pending, hq.call, .inl rfl⟩
  | response response alive =>
    rw [react_response entry (View.respond_of_pending entry response)]
    cases hreaction : Conn.reaction e.type response.kind with
    | settle f => exact hfinish f _ fun call => Conn.hasType_of_reaction hreaction call .hello
    | deliver f => exact hdeliver f _ fun call => (Conn.keeps_of_reaction hreaction call).1
    | violate err => exact hfinish _ _ fun call => (Call.ends_reject err call).hasType .hello
  | close alive =>
    rw [react, if_neg hclosed]
    exact hfinish _ _ fun call => by cases call <;> rfl
  | abort err alive =>
    rw [react, if_neg hclosed]
    exact hfinish _ _ fun call => (Call.ends_reject err call).hasType .hello
  | jam =>
    rw [react, if_neg hclosed]
    exact hdeliver _ _ fun call => Call.keeps_markClosed call
  | sendFailed err | died err =>
    rw [react, if_neg hnone]
    exact hfinish _ _ fun call => (Call.ends_reject err call).hasType .hello
  | listener | microtask | next | collect | collectStep => exact huses rfl

omit [TextCodec] in
/-- Whatever happens to it a hello stays one, and its promise is settled once. -/
theorem Request.Greets.foldl {q : Request} {deferred : Deferred Unit} (hq : q.Greets deferred)
    (hs : List Happening) : ∃ deferred', (hs.foldl Request.react q).Greets deferred' ∧
      (deferred ≠ .pending → deferred' = deferred) := by
  induction hs generalizing q deferred with
  | nil => exact ⟨deferred, hq, fun _ => rfl⟩
  | cons h hs ih =>
    rw [List.foldl_cons]
    cases entry : q.view.pending with
    | none =>
      obtain ⟨deferred', hq', heq⟩ := ih (hq.react_of_gone entry h).1
      exact ⟨deferred', hq', heq⟩
    | some e =>
      rcases hq.pending with rfl | hgone
      · obtain ⟨deferred', hq'⟩ := hq.react_of_open entry h
        obtain ⟨deferred'', hq'', -⟩ := ih hq'
        exact ⟨deferred'', hq'', fun h => absurd rfl h⟩
      · cases entry.symm.trans hgone

namespace Conn

variable {cfg : Config} {c c' : Conn cfg} {deferred : Deferred Unit}

theorem greets_of_step {a : Action} (hc : Consistent c) (hstep : c.step a = some c')
    (hq : (c.request 1).Greets deferred) :
    ∃ deferred', (c'.request 1).Greets deferred' ∧
      (deferred ≠ .pending → deferred' = deferred) := by
  rw [request_of_step hc hstep]
  exact hq.foldl _

/-- A socket that is gone does not come back. -/
theorem destroyed_of_step {a : Action} (hc : Consistent c) (hstep : c.step a = some c')
    (h : c.destroyed = true) : c'.destroyed = true := by
  have hfinalize : ∀ {c₁ : Conn cfg} {id : ℤ} {f : Call → Call}, c₁.destroyed = true →
      ((c₁.finalize id).settle id f).destroyed = true := fun {c₁ id f} h₁ => by
    obtain ⟨_, _, hfinal⟩ := c₁.exists_finalize id
    rw [hfinal]
    exact h₁
  have hfail : ∀ {c₁ : Conn cfg} {err : Err}, c₁.destroyed = true →
      (c₁.failConnection err).destroyed = true := fun {c₁ err} h₁ => by
    rcases Bool.eq_false_or_eq_true c₁.dead with hdead | halive
    · rwa [failConnection_of_dead err hdead]
    · rw [failConnection_of_alive err halive]
      exact h₁
  have hreceive : (c.receive a).destroyed = true := by cases a <;> exact h
  refine keeps_of_moves (I := fun c => c.destroyed = true) (moves_of_step hc (.all c a) hstep)
    (hc.receive a) hreceive ?_
  intro c₁ c₂ _ h₁ hm
  cases hm with
  | cancel | settle | failPermit => exact hfinalize h₁
  | throw | die => exact hfail h₁
  | destroy => rfl
  | register | acquire | openStream | deliver | consume | dropPermit | keepPermit | enqueue
  | slotPush | slotDrop | takeFailed | write | gate | drain | refuse | spend | jam => exact h₁

theorem greets_init (cfg : Config) : ((init cfg).request 1).Greets .pending := by
  rw [request_init]
  exact ⟨rfl, .inl rfl⟩

end Conn

namespace Connecting

variable {cfg : ResolvedConfig} {s s' : Connecting cfg} {a : ConnectAction}

/-! ### What every connect keeps -/

/-- The phases of a connect, with what it has by then. -/
inductive Stage (s : Connecting cfg) : ConnectPhase → Prop
  | dialing (conn : s.conn = none) (promise : s.promise = .pending) : Stage s .dialing
  | greeting {c : Conn cfg.toConfig} {deferred : Deferred Unit}
      (dialled : s.dial.promise = .resolved ()) (conn : s.conn = some c)
      (greets : (c.request 1).Greets deferred) (promise : s.promise = .pending) : Stage s .greeting
  | closing {c : Conn cfg.toConfig} {err : Err} (conn : s.conn = some c)
      (destroyed : c.destroyed = true) (promise : s.promise = .pending) : Stage s (.closing err)
  | settled (promise : s.promise ≠ .pending) : Stage s .settled

/-- What holds of every connect. -/
structure Sound (s : Connecting cfg) : Prop where
  dial : s.dial.Ok s.signal
  consistent : ∀ c, s.conn = some c → c.Consistent
  stage : Stage s s.phase

theorem sound_start (host : JsString) (port : JsNumber) (signal : Signal)
    (thrown : Option DialThrow) : (start cfg host port signal thrown).Sound where
  dial := Dial.ok_dialSocket host port cfg signal thrown
  consistent _ h := by cases h
  stage := .dialing rfl rfl

theorem hello?_eq {c : Conn cfg.toConfig} {deferred : Deferred Unit} (conn : s.conn = some c)
    (greets : (c.request 1).Greets deferred) : s.hello? = some deferred := by
  have hcall : c.calls.get? 1 = some (.hello deferred) := greets.call
  rw [hello?, conn, Option.bind_some, hcall]

/-- What `connect` does after an `await`. -/
inductive Resumes (s : Connecting cfg) : Connecting cfg → Prop
  | dialFailed {err : Err} (phase : s.phase = .dialing) (dialled : s.dial.promise = .rejected err) :
      Resumes s (s.reject err)
  | connected (phase : s.phase = .dialing) (dialled : s.dial.promise = .resolved ()) :
      Resumes s { s with
        phase := .greeting
        conn := some { Conn.init cfg.toConfig with destroyed := s.dial.destroyed } }
  | greeted (phase : s.phase = .greeting) (hello : s.hello? = some (.resolved ())) :
      Resumes s { s with phase := .settled, promise := s.promise.resolve () }
  | refused {err : Err} (phase : s.phase = .greeting) (hello : s.hello? = some (.rejected err)) :
      Resumes s { s with phase := .closing err, conn := s.conn.map Conn.close }
  | closed {err : Err} (phase : s.phase = .closing err) : Resumes s (s.reject err)

theorem resumes_of_resume (h : s.resume = some s') : s.Resumes s' := by
  rw [resume] at h
  cases hphase : s.phase with
  | dialing =>
    rw [hphase] at h
    cases hdial : s.dial.promise <;> simp only [hdial] at h <;> cases h
    · exact .connected hphase hdial
    · exact .dialFailed hphase hdial
  | greeting =>
    rw [hphase] at h
    rcases hhello : s.hello? with _ | _ | _ | err <;> simp only [hhello] at h <;> cases h
    · exact .greeted hphase hhello
    · exact .refused hphase hhello
  | closing err =>
    rw [hphase] at h
    cases h
    exact .closed hphase
  | settled =>
    rw [hphase] at h
    cases h

/-- What a step does. -/
inductive Steps (s : Connecting cfg) : ConnectAction → Connecting cfg → Prop
  | socket (event : SocketEvent) : Steps s (.socket event) { s with dial := s.dial.onEvent event }
  | socketClose : Steps s .socketClose { s with dial := { s.dial with destroyed := true } }
  | abort (reason : Reason) (live : s.signal = .live) : Steps s (.abort reason)
      { s with
        signal := .aborted reason
        dial := s.dial.signalAborts reason
        abortedEarly := s.promise = .pending }
  | resume {s' : Connecting cfg} (resumes : s.Resumes s') : Steps s .resume s'
  | conn {c c' : Conn cfg.toConfig} {b : Action} (conn : s.conn = some c)
      (step : c.step b = some c') : Steps s (.conn b) { s with conn := some c' }

theorem steps_of_step (h : s.step a = some s') : s.Steps a s' := by
  cases a with
  | socket event =>
    obtain ⟨-, ⟨⟩⟩ := Option.ite_none_right_eq_some.1 h
    exact .socket event
  | socketClose =>
    obtain ⟨-, ⟨⟩⟩ := Option.ite_none_right_eq_some.1 h
    exact .socketClose
  | abort reason =>
    obtain ⟨hlive, ⟨⟩⟩ := Option.ite_none_right_eq_some.1 h
    exact .abort reason hlive
  | resume => exact .resume (resumes_of_resume h)
  | conn b =>
    obtain ⟨-, h⟩ := Option.ite_none_left_eq_some.1 h
    obtain ⟨c, hconn, h⟩ := Option.bind_eq_some_iff.1 h
    obtain ⟨c', hstep, rfl⟩ := Option.map_eq_some_iff.1 h
    exact .conn hconn hstep

theorem Stage.congr {phase : ConnectPhase} (h : Stage s phase) (hd : s.dial.Later s'.dial)
    (hconn : s'.conn = s.conn) (hpromise : s'.promise = s.promise) : Stage s' phase := by
  cases h with
  | dialing conn promise => exact .dialing (hconn.trans conn) (hpromise.trans promise)
  | greeting dialled conn greets promise =>
    refine .greeting ?_ (hconn.trans conn) greets (hpromise.trans promise)
    exact (hd.promise (by simp [dialled])).trans dialled
  | closing conn destroyed promise =>
    exact .closing (hconn.trans conn) destroyed (hpromise.trans promise)
  | settled promise => exact .settled (hpromise ▸ promise)

theorem Sound.resume (hs : s.Sound) (h : s.Resumes s') : s'.Sound := by
  have hstage := hs.stage
  cases h with
  | dialFailed phase _ | closed phase =>
    exact ⟨hs.dial, hs.consistent, .settled (Deferred.reject_ne_pending _ _)⟩
  | connected phase dialled =>
    rw [phase] at hstage
    obtain ⟨_, promise⟩ := hstage
    refine ⟨hs.dial, fun c hc => ?_, .greeting dialled rfl (Conn.greets_init _) promise⟩
    cases hc
    exact (Conn.Consistent.init cfg.toConfig).congr rfl rfl rfl rfl rfl rfl fun _ hp => hp
  | greeted phase hello =>
    exact ⟨hs.dial, hs.consistent, .settled (Deferred.resolve_ne_pending _ _)⟩
  | refused phase hello =>
    rw [phase] at hstage
    cases hstage with
    | @greeting c _ dialled conn greets promise =>
      refine ⟨hs.dial, fun c' hc => ?_, .closing (c := c.close) ?_ rfl promise⟩
      · obtain ⟨c₀, hc₀, rfl⟩ := Option.map_eq_some_iff.1 hc
        exact (hs.consistent c₀ hc₀).step (a := .close) rfl
      · show s.conn.map Conn.close = _
        rw [conn, Option.map_some]

theorem Stage.conn {phase : ConnectPhase} {c c' : Conn cfg.toConfig} {b : Action}
    (h : Stage s phase) (conn : s.conn = some c) (hc : c.Consistent) (hstep : c.step b = some c') :
    Stage { s with conn := some c' } phase := by
  cases h with
  | dialing conn' promise => cases conn.symm.trans conn'
  | greeting dialled conn' greets promise =>
    cases conn.symm.trans conn'
    obtain ⟨deferred, greets', -⟩ := Conn.greets_of_step hc hstep greets
    exact .greeting dialled rfl greets' promise
  | closing conn' destroyed promise =>
    cases conn.symm.trans conn'
    exact .closing rfl (Conn.destroyed_of_step hc hstep destroyed) promise
  | settled promise => exact .settled promise

theorem Sound.step (hs : s.Sound) (hstep : s.step a = some s') : s'.Sound := by
  cases steps_of_step hstep with
  | socket event =>
    exact ⟨hs.dial.onEvent event, hs.consistent,
      hs.stage.congr (s.dial.later_onEvent event) rfl rfl⟩
  | socketClose =>
    exact ⟨⟨hs.dial.unsettled, hs.dial.hears, hs.dial.deaf⟩, hs.consistent,
      hs.stage.congr ⟨fun _ => rfl, fun _ => rfl, rfl⟩ rfl rfl⟩
  | abort reason =>
    exact ⟨hs.dial.signalAborts reason, hs.consistent,
      hs.stage.congr (s.dial.later_signalAborts reason) rfl rfl⟩
  | resume resumes => exact hs.resume resumes
  | conn conn hc' =>
    have hc := hs.consistent _ conn
    refine ⟨hs.dial, fun c₁ h => ?_, hs.stage.conn conn hc hc'⟩
    cases h
    exact hc.step hc'

/-! ### A connect that is going to be rejected -/

/-- A connect that is going to be rejected, or is. -/
inductive Doomed (s : Connecting cfg) : ConnectPhase → Prop
  | dialing {err : Err} (promise : s.promise = .pending) (dialled : s.dial.promise = .rejected err)
      (gone : s.SocketGone) : Doomed s .dialing
  | greeting {c : Conn cfg.toConfig} {err : Err} (promise : s.promise = .pending)
      (conn : s.conn = some c) (greets : (c.request 1).Greets (.rejected err)) : Doomed s .greeting
  | closing {c : Conn cfg.toConfig} {err : Err} (promise : s.promise = .pending)
      (conn : s.conn = some c) (destroyed : c.destroyed = true) : Doomed s (.closing err)
  | rejected {err : Err} (promise : s.promise = .rejected err) (gone : s.SocketGone) :
      Doomed s .settled

theorem SocketGone.congr (h : s.SocketGone) (hd : s.dial.Later s'.dial) (hconn : s'.conn = s.conn) :
    s'.SocketGone := by
  intro hsocket
  rw [hd.socket] at hsocket
  rw [hconn]
  exact (h hsocket).imp_left hd.destroyed

/-- A step that leaves the connection alone keeps a connect doomed. -/
theorem Doomed.congr {phase : ConnectPhase} (h : Doomed s phase) (hd : s.dial.Later s'.dial)
    (hconn : s'.conn = s.conn) (hpromise : s'.promise = s.promise) : Doomed s' phase := by
  cases h with
  | dialing promise dialled gone =>
    exact .dialing (hpromise.trans promise) ((hd.promise (by simp [dialled])).trans dialled)
      (gone.congr hd hconn)
  | greeting promise conn greets =>
    exact .greeting (hpromise.trans promise) (hconn.trans conn) greets
  | closing promise conn destroyed =>
    exact .closing (hpromise.trans promise) (hconn.trans conn) destroyed
  | rejected promise gone => exact .rejected (hpromise.trans promise) (gone.congr hd hconn)

theorem SocketGone.conn {c c' : Conn cfg.toConfig} {b : Action} (h : s.SocketGone)
    (conn : s.conn = some c) (hc : c.Consistent) (hstep : c.step b = some c') :
    SocketGone { s with conn := some c' } := by
  intro hsocket
  refine (h hsocket).imp_right fun hany => ?_
  rw [conn, Option.any_some] at hany
  exact Conn.destroyed_of_step hc hstep hany

theorem Doomed.conn {phase : ConnectPhase} {c c' : Conn cfg.toConfig} {b : Action}
    (h : Doomed s phase) (conn : s.conn = some c) (hc : c.Consistent) (hstep : c.step b = some c') :
    Doomed { s with conn := some c' } phase := by
  cases h with
  | dialing promise dialled gone => exact .dialing promise dialled (gone.conn conn hc hstep)
  | greeting promise conn' greets =>
    cases conn.symm.trans conn'
    obtain ⟨deferred, greets', heq⟩ := Conn.greets_of_step hc hstep greets
    exact .greeting promise rfl (heq (by nofun) ▸ greets')
  | closing promise conn' destroyed =>
    cases conn.symm.trans conn'
    exact .closing promise rfl (Conn.destroyed_of_step hc hstep destroyed)
  | rejected promise gone => exact .rejected promise (gone.conn conn hc hstep)

theorem promise_reject (promise : s.promise = .pending) (err : Err) :
    (s.reject err).promise = .rejected err := by
  show s.promise.reject err = _
  rw [promise]
  rfl

theorem Doomed.resume (h : Doomed s s.phase) (hr : s.Resumes s') : Doomed s' s'.phase := by
  cases hr with
  | dialFailed phase dialled =>
    rw [phase] at h
    cases h with
    | dialing promise _ gone => exact .rejected (promise_reject promise _) gone
  | connected phase dialled =>
    rw [phase] at h
    cases h with
    | dialing _ hrejected => cases dialled.symm.trans hrejected
  | greeted phase hello =>
    rw [phase] at h
    cases h with
    | greeting _ conn greets => cases hello.symm.trans (hello?_eq conn greets)
  | refused phase hello =>
    rw [phase] at h
    cases h with
    | @greeting c _ promise conn =>
      refine .closing (c := c.close) promise ?_ rfl
      show s.conn.map Conn.close = _
      rw [conn, Option.map_some]
  | closed phase =>
    rw [phase] at h
    cases h with
    | closing promise conn destroyed =>
      refine .rejected (promise_reject promise _) fun _ => .inr ?_
      show s.conn.any _ = true
      rw [conn]
      exact destroyed

theorem Doomed.step (h : Doomed s s.phase) (hs : s.Sound) (hstep : s.step a = some s') :
    Doomed s' s'.phase := by
  cases steps_of_step hstep with
  | socket event => exact h.congr (s.dial.later_onEvent event) rfl rfl
  | socketClose => exact h.congr ⟨fun _ => rfl, fun _ => rfl, rfl⟩ rfl rfl
  | abort reason => exact h.congr (s.dial.later_signalAborts reason) rfl rfl
  | resume resumes => exact h.resume resumes
  | conn conn hc' => exact h.conn conn (hs.consistent _ conn) hc'

theorem Doomed.promise_ne {phase : ConnectPhase} (h : Doomed s phase) :
    s.promise ≠ .resolved () := by
  cases h with
  | dialing promise | greeting promise | closing promise | rejected promise =>
    rw [promise]
    nofun

theorem Doomed.rejected_of_settled (h : Doomed s s.phase) (hphase : s.phase = .settled) :
    s.Rejected := by
  rw [hphase] at h
  cases h with
  | rejected promise gone => exact ⟨⟨_, promise⟩, gone⟩

theorem Doomed.exists_resume (h : Doomed s s.phase) (hphase : s.phase ≠ .settled) :
    ∃ s', s.resume = some s' ∧ s'.phase.left < s.phase.left := by
  rw [Connecting.resume]
  cases hp : s.phase with
  | dialing =>
    rw [hp] at h
    cases h with
    | @dialing err _ dialled => exact ⟨s.reject err, by rw [dialled], Nat.zero_lt_one⟩
  | greeting =>
    rw [hp] at h
    cases h with
    | @greeting _ err promise conn greets =>
      exact ⟨{ s with phase := .closing err, conn := s.conn.map Conn.close },
        by rw [hello?_eq conn greets], Nat.one_lt_two⟩
  | closing err => exact ⟨s.reject err, rfl, Nat.zero_lt_one⟩
  | settled => exact absurd hp hphase

theorem Doomed.exists_run (h : Doomed s s.phase) : ∃ n ≤ 2, ∃ s',
    (connecting cfg).Run s (List.replicate n .resume) s' ∧ s'.Rejected := by
  have hleft : ∃ n ≤ s.phase.left, ∃ s',
      (connecting cfg).Run s (List.replicate n .resume) s' ∧ s'.Rejected := by
    generalize hk : s.phase.left = k
    induction k using Nat.strong_induction_on generalizing s with
    | _ k ih =>
      by_cases hphase : s.phase = .settled
      · exact ⟨0, Nat.zero_le _, s, .start, h.rejected_of_settled hphase⟩
      · obtain ⟨s₁, hresume, hlt⟩ := h.exists_resume hphase
        obtain ⟨n, hn, s', hrun, hs'⟩ :=
          ih _ (hk ▸ hlt) (h.resume (resumes_of_resume hresume)) rfl
        refine ⟨n + 1, by omega, s', ?_, hs'⟩
        rw [List.replicate_succ]
        exact .cons trivial hresume hrun
  obtain ⟨n, hn, hrun⟩ := hleft
  refine ⟨n, hn.trans ?_, hrun⟩
  cases s.phase <;> simp [ConnectPhase.left]

/-! ### The signal aborts -/

theorem Sound.doomed_of_abort {reason : Reason} (hs : s.Sound) (hin : s.InTime)
    (promise : s.promise = .pending) (hstep : s.step (.abort reason) = some s') :
    Doomed s' s'.phase := by
  obtain ⟨hlive, ⟨⟩⟩ := Option.ite_none_right_eq_some.1 hstep
  have hd := s.dial.later_signalAborts reason
  have hstage := hs.stage
  show Doomed _ s.phase
  cases hp : s.phase with
  | dialing =>
    rw [hp] at hstage
    cases hstage with
    | dialing conn =>
      -- the dial hears the abort, or it has failed already
      rcases hin with hopen | ⟨⟨err, hrejected⟩, gone⟩ | ⟨err, hhello⟩
      · obtain ⟨hrejected, hgone⟩ := (hlive ▸ hs.dial).rejected_of_abort hopen reason
        exact .dialing promise hrejected fun _ => .inl hgone
      · exact .dialing promise ((hd.promise (by simp [hrejected])).trans hrejected)
          (gone.congr hd rfl)
      · rw [hello?, conn] at hhello
        cases hhello
  | greeting =>
    rw [hp] at hstage
    cases hstage with
    | greeting dialled conn greets =>
      -- the dial is over, so only a hello that has failed is in time
      rcases hin with hopen | ⟨⟨err, hrejected⟩, -⟩ | ⟨err, hhello⟩
      · cases hopen.symm.trans dialled
      · cases hrejected.symm.trans dialled
      · cases hhello.symm.trans (hello?_eq conn greets)
        exact .greeting promise conn greets
  | closing err =>
    rw [hp] at hstage
    cases hstage with
    | closing conn destroyed => exact .closing promise conn destroyed
  | settled =>
    rw [hp] at hstage
    cases hstage with
    | settled hne => exact absurd promise hne

/-- An abort that is not in time goes unnoticed. -/
theorem Sound.step_abort_of_not_inTime {reason : Reason} (hs : s.Sound) (hlate : ¬ s.InTime)
    (hstep : s.step (.abort reason) = some s') :
    s' = { s with signal := .aborted reason, abortedEarly := s.promise = .pending } := by
  cases steps_of_step hstep with
  | abort _ _ => rw [hs.dial.signalAborts_of_ne fun h => hlate (.inl h)]

theorem abortedEarly_of_step (ha : ∀ reason, a ≠ .abort reason) (hstep : s.step a = some s') :
    s'.abortedEarly = s.abortedEarly := by
  cases steps_of_step hstep with
  | abort reason => exact absurd rfl (ha reason)
  | socket event | socketClose | conn conn hc' => rfl
  | resume resumes => cases resumes <;> rfl

theorem doomed_start {host : JsString} {port : JsNumber} {signal : Signal}
    {thrown : Option DialThrow} (h : (start cfg host port signal thrown).abortedEarly = true) :
    Doomed (start cfg host port signal thrown) .dialing := by
  cases signal with
  | none | live => cases h
  | aborted reason => exact .dialing rfl rfl fun h => (by cases h)

section

variable {host : JsString} {port : JsNumber} {signal : Signal} {thrown : Option DialThrow}
  {as : List ConnectAction}

theorem sound_of_run {ok : Connecting cfg → ConnectAction → Prop}
    (h : (connecting cfg).RunWith ok (start cfg host port signal thrown) as s) : s.Sound :=
  h.invariant (sound_start host port signal thrown) fun _ _ _ hs _ hstep => hs.step hstep

theorem doomed_of_run
    (h : (connecting cfg).RunWith AbortsInTime (start cfg host port signal thrown) as s)
    (habort : s.abortedEarly = true) : Doomed s s.phase := by
  induction h with
  | start => exact doomed_start habort
  | @snoc as a s s' hrun hin hstep ih =>
    have hs := sound_of_run hrun
    by_cases ha : ∃ reason, a = .abort reason
    · obtain ⟨reason, rfl⟩ := ha
      have hpromise : s.promise = .pending := by
        have hsteps : s.Steps (.abort reason) s' := steps_of_step hstep
        cases hsteps with
        | abort => exact of_decide_eq_true habort
      exact hs.doomed_of_abort (hin reason rfl hpromise) hpromise hstep
    · rw [not_exists] at ha
      exact (ih ((abortedEarly_of_step ha hstep).symm.trans habort)).step hs hstep

/-- Where the signal aborts in time, if at all, an abort before the settlement means that `connect`
does not resolve; once nothing can run it has rejected and its socket is destroyed, and for that it
runs on twice at most. -/
theorem abort_rejects
    (h : (connecting cfg).RunWith AbortsInTime (start cfg host port signal thrown) as s)
    (habort : s.abortedEarly = true) :
    s.promise ≠ .resolved () ∧ (s.Quiescent → s.Rejected) ∧
      ∃ n ≤ 2, ∃ s', (connecting cfg).Run s (List.replicate n .resume) s' ∧ s'.Rejected := by
  have hdoomed := doomed_of_run h habort
  refine ⟨hdoomed.promise_ne, fun hquiet => ?_, hdoomed.exists_run⟩
  by_contra hpending
  obtain ⟨s', hresume, -⟩ :=
    hdoomed.exists_resume fun hphase => hpending (hdoomed.rejected_of_settled hphase)
  cases hresume.symm.trans (hquiet .resume rfl)

end

/-! ### An abort during the hello -/

theorem quiescent_of (hresume : s.resume = none) (hconn : ∀ c, s.conn = some c → c.Quiescent) :
    s.Quiescent := by
  intro a ha
  cases a with
  | resume => exact hresume
  | conn b =>
    have hb : b.isContinuation = true := ha
    simp only [Connecting.step, ite_eq_left_iff, Option.bind_eq_none_iff, Option.map_eq_none_iff]
    exact fun _ c hc => hconn c hc b hb
  | socket event | socketClose | abort reason => cases ha

end Connecting

end

namespace Connecting

section

attribute [local instance] utf8Codec

/-- A configuration with a single permit. -/
def onePermit : ResolvedConfig :=
  { Conn.onePermit with bulkConnections := 1, tls := none, connectTimeout := none }

/-- The socket is ready and the hello is written, with the signal aborting in between. -/
def lateAbort : List ConnectAction :=
  [.socket (.ready .connect), .resume, .conn (.permit 1), .conn (.slot 1), .abort .undefined,
    .conn (.writer (.returned true))]

/-- Nothing can run, and the connect is still open; when the server accepts the hello, it is
resolved. -/
theorem abort_unnoticed : ∃ s s' : Connecting onePermit,
    (connecting onePermit).Run (start onePermit (js "h") (.finite 9000) .live none) lateAbort s ∧
      s.abortedEarly = true ∧ s.Quiescent ∧ s.promise = .pending ∧
      (connecting onePermit).Run s [.conn (.data Conn.helloAckFrame), .resume] s' ∧
      s'.promise = .resolved () ∧ (s'.conn.any fun c => !c.dead && !c.destroyed) = true := by
  have hexec : ((connecting onePermit).exec (start onePermit (js "h") (.finite 9000) .live none)
      lateAbort).any (fun s => s.abortedEarly && s.resume.isNone && s.conn.all Conn.quiescent &&
        decide (s.promise = .pending) &&
        ((connecting onePermit).exec s [.conn (.data Conn.helloAckFrame), .resume]).any fun s' =>
          decide (s'.promise = .resolved ()) && s'.conn.any fun c => !c.dead && !c.destroyed) =
      true := by decide +kernel
  obtain ⟨s, hrun, hs⟩ := Machine.exists_run_of_exec hexec
  simp only [Bool.and_eq_true, Option.isNone_iff_eq_none, Option.all_eq_true,
    decide_eq_true_eq] at hs
  obtain ⟨⟨⟨⟨hearly, hresume⟩, hconn⟩, hpending⟩, hexec'⟩ := hs
  obtain ⟨s', hrun', hs'⟩ := Machine.exists_run_of_exec hexec'
  simp only [Bool.and_eq_true, decide_eq_true_eq] at hs'
  exact ⟨s, s', hrun, hearly, quiescent_of hresume fun c hc => Conn.quiescent_iff.1 (hconn c hc),
    hpending, hrun', hs'⟩

/-- An abort while the socket is being dialled rejects the connect. -/
theorem rejected_of_early_abort : ∃ s : Connecting onePermit,
    (connecting onePermit).RunWith AbortsInTime
        (start onePermit (js "h") (.finite 9000) .live none) [.abort .undefined] s ∧
      s.abortedEarly = true ∧ s.promise ≠ .resolved () ∧ (s.Quiescent → s.Rejected) ∧
      ∃ n ≤ 2, ∃ s', (connecting onePermit).Run s (List.replicate n .resume) s' ∧ s'.Rejected := by
  have hrun : (connecting onePermit).RunWith AbortsInTime
      (start onePermit (js "h") (.finite 9000) .live none) [.abort .undefined] _ :=
    .single (fun _ _ _ => .inl rfl) rfl
  exact ⟨_, hrun, rfl, abort_rejects hrun rfl⟩

end

end Connecting

end Tephra
