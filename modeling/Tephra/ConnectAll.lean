import Tephra.Address
import Tephra.Conn.Replies
import Tephra.Connect
import Tephra.Dialing
import Tephra.Lanes

/-!
# Connecting a client

`Client.connect` dials all its connections at once and waits for every one.  If any fails, the
others are closed and it rejects with the first failure, in the order of the connections.

* `Connecting.Kept` : what every connect of the pool keeps.
* `ClientConnecting.Held` : what the connect of a client keeps.
* `connect_all_or_nothing` : what comes of connecting a client.
-/

namespace Tephra

open Lib

/-- What `Client.connect` waits for. -/
inductive ClientConnectPhase
  /-- `await Promise.allSettled(dials)`. -/
  | dialing
  /-- `await Promise.all(…)`, to throw the failure then. -/
  | closing (failure : Err)
  | settled
  deriving DecidableEq, Repr

section

variable [TextCodec]

/-- A call to `Client.connect`. -/
structure ClientConnecting (cfg : ResolvedConfig) where
  signal : Signal
  /-- The connects of its connections, the control connection first. -/
  dials : List (Connecting cfg)
  phase : ClientConnectPhase
  /-- The promise returned, which is resolved with the client. -/
  promise : Deferred Unit

/-- The steps of connecting a client. -/
inductive ClientConnectAction
  /-- One of the connects does something of its own. -/
  | dial (i : ℕ) (a : ConnectAction)
  /-- The signal, which all of them are given, aborts. -/
  | abort (reason : Reason)
  /-- The promise that `connect` waits for is settled, and it runs on. -/
  | resume

/-- Whether a step of a connect is taken by others: the signal aborts, or there is a request. -/
def ConnectAction.isOthers : ConnectAction → Bool
  | .abort _ => true
  | .conn a => a.isCall
  | _ => false

/-- Whether a step makes a request. -/
def ConnectAction.asks : ConnectAction → Bool
  | .conn a => a.outgoing?.isSome
  | _ => false

omit [TextCodec] in
theorem ConnectAction.asks_of_not_isOthers {a : ConnectAction} (h : a.isOthers = false) :
    a.asks = false := by
  cases a with
  | conn a => rw [asks, a.outgoing?_of_not_isCall h]; rfl
  | socket | socketClose | abort | resume => rfl

/-- The reason of a rejected promise. -/
def Deferred.reason? {α : Type} : Deferred α → Option Err
  | rejected err => some err
  | _ => none

/-- The connection is closed, if it was made. -/
def Connecting.closed {cfg : ResolvedConfig} (d : Connecting cfg) : Connecting cfg :=
  if d.promise = .resolved () then { d with conn := d.conn.map Conn.close } else d

namespace ClientConnecting

variable {cfg : ResolvedConfig}

/-- `connect` once its arguments are checked, up to its first `await`. -/
def start (cfg : ResolvedConfig) (host : JsString) (port : JsNumber) (signal : Signal)
    (thrown : ℕ → Option DialThrow) : ClientConnecting cfg where
  signal := signal
  dials := (List.range (cfg.bulkConnections + 1)).map fun i =>
    Connecting.start cfg host port signal (thrown i)
  phase := .dialing
  promise := .pending

/-- The promises that `connect` waits for. -/
def promises (s : ClientConnecting cfg) : List (Deferred Unit) := s.dials.map (·.promise)

/-- The first failure. -/
def failure? (s : ClientConnecting cfg) : Option Err := s.promises.findSome? Deferred.reason?

/-- The connections that were made. -/
def conns (s : ClientConnecting cfg) : List (Conn cfg.toConfig) :=
  s.dials.filterMap fun d => if d.promise = .resolved () then d.conn else none

/-- The client that `connect` returns. -/
def client? (s : ClientConnecting cfg) : Option (Client cfg.toConfig) :=
  match s.conns with
  | control :: bulk => some { control := control, bulk := bulk, nextBulk := 0, closed := false }
  | [] => none

/-- `connect` after an `await`, if what it waits for is settled. -/
def resume (s : ClientConnecting cfg) : Option (ClientConnecting cfg) :=
  match s.phase with
  | .dialing =>
    if s.promises.all Deferred.settled then
      match s.failure? with
      | some failure => some { s with phase := .closing failure, dials := s.dials.map .closed }
      | none => some { s with phase := .settled, promise := s.promise.resolve () }
    else none
  | .closing failure => some { s with phase := .settled, promise := s.promise.reject failure }
  | .settled => none

/-- A step, if it can be taken.  Nobody makes requests before `connect` returns the client. -/
def step (s : ClientConnecting cfg) : ClientConnectAction → Option (ClientConnecting cfg)
  | .dial i a =>
    if a.isOthers then none
    else s.dials[i]?.bind fun d => (d.step a).map fun d' => { s with dials := s.dials.set i d' }
  | .abort reason =>
    if s.signal = .live then
      some { s with
        signal := .aborted reason
        dials := s.dials.map fun d => (d.step (.abort reason)).getD d }
    else none
  | .resume => s.resume

end ClientConnecting

/-- Connecting a client as an event machine. -/
def clientConnecting (cfg : ResolvedConfig) :
    Machine (ClientConnecting cfg) ClientConnectAction where
  step := ClientConnecting.step

/-- `Client.connect`, up to its first `await`. -/
def Client.connect (addr : JsString) (options : ClientOptions) (signal : Signal)
    (thrown : ℕ → Option DialThrow) : Except Err (ClientConnecting (resolveConfig options)) :=
  (parseAddress addr).map fun address =>
    .start (resolveConfig options) address.host address.port signal thrown

/-! ### A connection whose socket is gone -/

namespace Conn

variable {cfg : Config} {c c' : Conn cfg}

/-- The hello of a connection is not accepted. -/
def Unaccepted (q : Request) : Prop :=
  helloInquiry.Open q ∨ ∃ result, helloInquiry.Closed q result ∧ result ≠ some (.ok ())

omit [TextCodec] in
theorem Unaccepted.react {q : Request} (hq : Unaccepted q) {h : Happening}
    (hresponse : ∀ response alive, h ≠ .response response alive) : Unaccepted (q.react h) := by
  rcases hq with hopen | ⟨result, hclosed, hne⟩
  · refine (hopen.react h).imp_right fun hclosed => ⟨_, hclosed, ?_⟩
    cases h with
    | response response alive => exact absurd rfl (hresponse response alive)
    | opened type call | permit | close alive | abort err alive | jam | sendFailed err | died err
    | listener | microtask | next | collect | collectStep => nofun
  · exact .inr ⟨result, hclosed.foldl [h], hne⟩

omit [TextCodec] in
theorem Unaccepted.foldl {q : Request} (hq : Unaccepted q) {hs : List Happening}
    (hresponse : ∀ response alive, .response response alive ∉ hs) :
    Unaccepted (hs.foldl Request.react q) := by
  induction hs generalizing q with
  | nil => exact hq
  | cons h hs ih =>
    refine ih (hq.react fun response alive heq => hresponse response alive ?_)
      fun response alive hmem =>
      hresponse response alive (List.mem_cons_of_mem _ hmem)
    rw [heq]
    exact List.mem_cons_self

omit [TextCodec] in
theorem Unaccepted.ne {q : Request} (hq : Unaccepted q) :
    q.view.call ≠ some (.hello (.resolved ())) := by
  intro hcall
  rcases hq with ⟨-, call, hcall', hd⟩ | ⟨result, ⟨-, call, hcall', hd⟩, hne⟩
  · cases hcall.symm.trans hcall'
    cases hd
  · cases hcall.symm.trans hcall'
    rcases result with _ | err | value
    · cases hd
    · cases hd
    · exact hne rfl

theorem unaccepted_of_run {as : List Action}
    (h : (connection cfg).Run { init cfg with destroyed := true } as c) :
    c.calls.get? 1 ≠ some (.hello (.resolved ())) := by
  have hinv : Consistent c ∧ c.destroyed = true ∧ Unaccepted (c.request 1) := by
    refine h.invariant (I := fun c => Consistent c ∧ c.destroyed = true ∧ Unaccepted (c.request 1))
      ⟨?_, rfl, .inl ?_⟩ ?_
    · exact (Consistent.init cfg).congr rfl rfl rfl rfl rfl rfl fun _ hp => hp
    · show helloInquiry.Open ((init cfg).request 1)
      rw [request_init]
      exact Inquiry.Open.new rfl
    · rintro c a c' ⟨hc, hgone, hq⟩ - hstep
      have hstep' : c.step a = some c' := hstep
      refine ⟨hc.step hstep', destroyed_of_step hc hstep' hgone, ?_⟩
      rw [request_of_step hc hstep']
      refine hq.foldl fun response alive hmem => ?_
      obtain ⟨-, chunk, rfl⟩ := of_mem_response hmem
      rw [Conn.step, if_pos hgone] at hstep'
      cases hstep'
  exact hinv.2.2.ne

end Conn

/-! ### One connect of the pool -/

namespace Connecting

variable {cfg : ResolvedConfig} {d d' : Connecting cfg} {thrown : Option DialThrow}

/-- The socket of a connect is destroyed, if it was made, unless setting its timeout threw. -/
def Released (d : Connecting cfg) (thrown : Option DialThrow) : Prop :=
  d.SocketGone ∨ ∃ err, thrown = some (.setTimeout err)

/-- What every connect keeps. -/
structure Kept (d : Connecting cfg) (thrown : Option DialThrow) : Prop where
  sound : d.Sound
  tidy : d.dial.Tidy thrown
  released : ∀ err, d.promise = .rejected err → d.Released thrown
  /-- Its connection has run since it was made, and nobody has made a request. -/
  ran : ∀ c, d.conn = some c → ∃ destroyed as,
    (connection cfg.toConfig).RunWith (fun _ a => a.outgoing? = none)
      { Conn.init cfg.toConfig with destroyed := destroyed } as c
  /-- Its hello was accepted. -/
  accepted : d.promise = .resolved () →
    ∃ c, d.conn = some c ∧ (c.request 1).Greets (.resolved ())

theorem kept_start (host : JsString) (port : JsNumber) (signal : Signal)
    (thrown : Option DialThrow) : (start cfg host port signal thrown).Kept thrown where
  sound := sound_start host port signal thrown
  tidy := Dial.tidy_dialSocket host port cfg signal thrown
  released _ h := by cases h
  ran _ h := by cases h
  accepted h := by cases h

theorem Kept.congr (hd : d.Kept thrown) (hsound : d'.Sound) (htidy : d'.dial.Tidy thrown)
    (hlater : d.dial.Later d'.dial) (hconn : d'.conn = d.conn) (hpromise : d'.promise = d.promise) :
    d'.Kept thrown where
  sound := hsound
  tidy := htidy
  released err h :=
    (hd.released err (hpromise.symm.trans h)).imp_left fun hgone => hgone.congr hlater hconn
  ran c h := hd.ran c (hconn.symm.trans h)
  accepted h := by
    obtain ⟨c, hc, hgreets⟩ := hd.accepted (hpromise.symm.trans h)
    exact ⟨c, hconn.trans hc, hgreets⟩

theorem Kept.conn (hd : d.Kept thrown) {c c' : Conn cfg.toConfig} {a : Action}
    (hc : d.conn = some c) (hnone : a.outgoing? = none) (hstep : c.step a = some c') :
    Kept { d with conn := some c' } thrown where
  sound := by
    refine ⟨hd.sound.dial, fun c₁ h => ?_,
      hd.sound.stage.conn hc (hd.sound.consistent c hc) hstep⟩
    cases h
    exact (hd.sound.consistent c hc).step hstep
  tidy := hd.tidy
  released err h :=
    (hd.released err h).imp_left fun hgone => hgone.conn hc (hd.sound.consistent c hc) hstep
  ran c₁ h := by
    cases h
    obtain ⟨destroyed, as, hrun⟩ := hd.ran c hc
    exact ⟨destroyed, as ++ [a], hrun.snoc hnone hstep⟩
  accepted h := by
    obtain ⟨c₁, hc₁, hgreets⟩ := hd.accepted h
    cases hc.symm.trans hc₁
    obtain ⟨deferred, hgreets', heq⟩ :=
      Conn.greets_of_step (hd.sound.consistent c hc) hstep hgreets
    cases heq nofun
    exact ⟨c', rfl, hgreets'⟩

theorem Kept.resume (hd : d.Kept thrown) (hresumes : d.Resumes d') : d'.Kept thrown := by
  have hsound := hd.sound.resume hresumes
  have hstage := hd.sound.stage
  cases hresumes with
  -- the dial failed, and its socket is gone unless setting the timeout threw
  | @dialFailed err phase dialled =>
    rw [phase] at hstage
    cases hstage with
    | dialing conn promise =>
      refine ⟨hsound, hd.tidy, fun _ _ => ?_, hd.ran, fun h => ?_⟩
      · by_cases hsocket : d.dial.socket.isSome = true
        · exact (hd.tidy err dialled hsocket).imp_left fun hgone _ => .inl hgone
        · exact .inl fun h => absurd h hsocket
      · rw [promise_reject promise] at h
        cases h
  | connected phase dialled =>
    rw [phase] at hstage
    cases hstage with
    | dialing conn promise =>
      refine ⟨hsound, hd.tidy, fun err h => ?_, fun c h => ?_, fun h => ?_⟩
      · rw [show d.promise = .rejected err from h] at promise
        cases promise
      · cases h
        exact ⟨_, [], .start⟩
      · rw [show d.promise = .resolved () from h] at promise
        cases promise
  | greeted phase hello =>
    rw [phase] at hstage
    cases hstage with
    | greeting dialled conn greets promise =>
      cases hello.symm.trans (hello?_eq conn greets)
      refine ⟨hsound, hd.tidy, fun err h => ?_, hd.ran, fun _ => ⟨_, conn, greets⟩⟩
      have h' : d.promise.resolve () = .rejected err := h
      rw [promise] at h'
      cases h'
  -- the hello failed, and the connection is closed
  | @refused err phase hello =>
    rw [phase] at hstage
    cases hstage with
    | @greeting c _ dialled conn greets promise =>
      have hclosed := hd.conn conn (a := .close) rfl rfl
      rw [show some c.close = d.conn.map Conn.close by rw [conn, Option.map_some]] at hclosed
      exact ⟨hsound, hclosed.tidy, hclosed.released, hclosed.ran, hclosed.accepted⟩
  | @closed err phase =>
    rw [phase] at hstage
    cases hstage with
    | closing conn destroyed promise =>
      refine ⟨hsound, hd.tidy, fun _ _ => .inl fun _ => .inr ?_, hd.ran, fun h => ?_⟩
      · show d.conn.any _ = true
        rw [conn]
        exact destroyed
      · rw [promise_reject promise] at h
        cases h

theorem Kept.step (hd : d.Kept thrown) {a : ConnectAction} (hasks : a.asks = false)
    (hstep : d.step a = some d') : d'.Kept thrown := by
  have hsound := hd.sound.step hstep
  cases steps_of_step hstep with
  | socket event =>
    exact hd.congr hsound (hd.tidy.onEvent hd.sound.dial event) (d.dial.later_onEvent event) rfl rfl
  | socketClose =>
    exact hd.congr hsound (fun err h hsocket => .inl rfl) ⟨fun _ => rfl, fun _ => rfl, rfl⟩ rfl rfl
  | abort reason =>
    exact hd.congr hsound (hd.tidy.signalAborts hd.sound.dial reason)
      (d.dial.later_signalAborts reason) rfl rfl
  | resume resumes => exact hd.resume resumes
  | conn conn hc' =>
    exact hd.conn conn (Option.not_isSome_iff_eq_none.1 (Bool.eq_false_iff.1 hasks)) hc'

/-- A promise that is settled stays so, and a socket that is gone then does not come back. -/
theorem Sound.settled_step (hd : d.Sound) (hsettled : d.promise ≠ .pending) {a : ConnectAction}
    (hstep : d.step a = some d') : d'.promise = d.promise ∧ (d.SocketGone → d'.SocketGone) := by
  cases steps_of_step hstep with
  | socket event => exact ⟨rfl, fun hgone => hgone.congr (d.dial.later_onEvent event) rfl⟩
  | socketClose => exact ⟨rfl, fun hgone => hgone.congr ⟨fun _ => rfl, fun _ => rfl, rfl⟩ rfl⟩
  | abort reason =>
    exact ⟨rfl, fun hgone => hgone.congr (d.dial.later_signalAborts reason) rfl⟩
  | conn conn hc' => exact ⟨rfl, fun hgone => hgone.conn conn (hd.consistent _ conn) hc'⟩
  | resume resumes =>
    -- it does not run on any more
    have hstage := hd.stage
    cases resumes with
    | dialFailed phase | connected phase | greeted phase | refused phase | closed phase =>
      rw [phase] at hstage
      cases hstage
      exact absurd ‹d.promise = .pending› hsettled

theorem promise_closed (d : Connecting cfg) : d.closed.promise = d.promise := by
  unfold closed
  split_ifs <;> rfl

theorem Kept.closed (hd : d.Kept thrown) : d.closed.Kept thrown := by
  unfold Connecting.closed
  split_ifs with hresolved
  · obtain ⟨c, hc, -⟩ := hd.accepted hresolved
    have hclosed := hd.conn hc (a := .close) rfl rfl
    rwa [show some c.close = d.conn.map Conn.close by rw [hc, Option.map_some]] at hclosed
  · exact hd

theorem Kept.released_closed (hd : d.Kept thrown) (hsettled : d.promise.settled = true) :
    d.closed.Released thrown := by
  unfold Connecting.closed
  cases hpromise : d.promise with
  | pending =>
    rw [hpromise] at hsettled
    cases hsettled
  | rejected err =>
    rw [if_neg nofun]
    exact hd.released err hpromise
  | resolved value =>
    obtain ⟨c, hc, -⟩ := hd.accepted hpromise
    rw [if_pos rfl]
    refine .inl fun _ => .inr ?_
    show (d.conn.map Conn.close).any _ = true
    rw [hc]
    rfl

/-- The connection of a connect that was resolved is one that has run since it was made. -/
theorem Kept.connected (hd : d.Kept thrown) (hresolved : d.promise = .resolved ()) :
    ∃ c, d.conn = some c ∧ c.Connected ∧ c.Fresh := by
  obtain ⟨c, hc, hgreets⟩ := hd.accepted hresolved
  obtain ⟨destroyed, as, hrun⟩ := hd.ran c hc
  cases destroyed with
  | false => exact ⟨c, hc, ⟨⟨as, hrun.run⟩, hgreets.call⟩, as, hrun⟩
  | true => exact absurd hgreets.call (Conn.unaccepted_of_run hrun.run)

end Connecting

/-! ### The connect of a client -/

namespace ClientConnecting

variable {cfg : ResolvedConfig} {s s' : ClientConnecting cfg} {thrown : ℕ → Option DialThrow}

/-- Every connect is over, this is the first failure, and no socket is left. -/
structure Failed (s : ClientConnecting cfg) (thrown : ℕ → Option DialThrow) (failure : Err) :
    Prop where
  settled : s.promises.all Deferred.settled = true
  failure : s.failure? = some failure
  released : ∀ (i : ℕ) (d : Connecting cfg), s.dials[i]? = some d → d.Released (thrown i)

/-- Every connect is over, and none has failed. -/
structure Succeeded (s : ClientConnecting cfg) : Prop where
  settled : s.promises.all Deferred.settled = true
  failure : s.failure? = none

/-- What is known of the connect of a client in a phase. -/
def Stage (s : ClientConnecting cfg) (thrown : ℕ → Option DialThrow) : ClientConnectPhase → Prop
  | .dialing => s.promise = .pending
  | .closing failure => s.promise = .pending ∧ s.Failed thrown failure
  | .settled => s.promise = .resolved () ∧ s.Succeeded ∨
      ∃ failure, s.promise = .rejected failure ∧ s.Failed thrown failure

/-- What the connect of a client keeps. -/
structure Held (s : ClientConnecting cfg) (thrown : ℕ → Option DialThrow) : Prop where
  kept : ∀ (i : ℕ) (d : Connecting cfg), s.dials[i]? = some d → d.Kept (thrown i)
  length : s.dials.length = cfg.bulkConnections + 1
  stage : s.Stage thrown s.phase

theorem held_start (host : JsString) (port : JsNumber) (signal : Signal)
    (thrown : ℕ → Option DialThrow) : (start cfg host port signal thrown).Held thrown where
  kept i d h := by
    simp only [start, List.getElem?_map, Option.map_eq_some_iff] at h
    obtain ⟨j, hj, rfl⟩ := h
    obtain ⟨hlt, heq⟩ := List.getElem?_eq_some_iff.1 hj
    rw [List.getElem_range] at heq
    subst heq
    exact Connecting.kept_start _ _ _ _
  length := by rw [start, List.length_map, List.length_range]
  stage := rfl

/-- The connects of the pool go on, each by itself. -/
structure GoesOn (s s' : ClientConnecting cfg) : Prop where
  phase : s'.phase = s.phase
  promise : s'.promise = s.promise
  length : s'.dials.length = s.dials.length
  dials : ∀ (i : ℕ) (d' : Connecting cfg), s'.dials[i]? = some d' →
    ∃ d : Connecting cfg, s.dials[i]? = some d ∧
      (d' = d ∨ ∃ a : ConnectAction, a.asks = false ∧ d.step a = some d')

/-- A step is one of the connects of the pool, or `connect` runs on. -/
theorem goesOn_of_step {a : ClientConnectAction} (h : s.step a = some s') :
    s.GoesOn s' ∨ s.resume = some s' := by
  cases a with
  | resume => exact .inr h
  | dial i a =>
    obtain ⟨hothers, h⟩ := Option.ite_none_left_eq_some.1 h
    have hasks := ConnectAction.asks_of_not_isOthers (Bool.eq_false_iff.2 hothers)
    obtain ⟨d, hd, h⟩ := Option.bind_eq_some_iff.1 h
    obtain ⟨d', hstep, rfl⟩ := Option.map_eq_some_iff.1 h
    refine .inl ⟨rfl, rfl, List.length_set, fun j e h => ?_⟩
    rw [List.getElem?_set] at h
    split_ifs at h with hij hlt
    · cases h
      exact ⟨d, hij ▸ hd, .inr ⟨a, hasks, hstep⟩⟩
    · exact ⟨e, h, .inl rfl⟩
  | abort reason =>
    obtain ⟨-, ⟨⟩⟩ := Option.ite_none_right_eq_some.1 h
    refine .inl ⟨rfl, rfl, List.length_map _, fun j e h => ?_⟩
    obtain ⟨d, hd, rfl⟩ := Option.map_eq_some_iff.1 (List.getElem?_map.symm.trans h)
    refine ⟨d, hd, ?_⟩
    cases hstep : d.step (.abort reason) with
    | none => exact .inl rfl
    | some d' => exact .inr ⟨_, rfl, hstep⟩

theorem settled_of_mem (h : s.promises.all Deferred.settled = true) {i : ℕ} {d : Connecting cfg}
    (hd : s.dials[i]? = some d) : d.promise.settled = true :=
  List.all_eq_true.1 h _ (List.mem_map_of_mem (List.mem_of_getElem? hd))

theorem GoesOn.promises_eq (h : s.GoesOn s') (hs : s.Held thrown)
    (hsettled : s.promises.all Deferred.settled = true) : s'.promises = s.promises := by
  refine List.ext_getElem? fun i => ?_
  rw [promises, promises, List.getElem?_map, List.getElem?_map]
  cases hd' : s'.dials[i]? with
  | none =>
    rw [List.getElem?_eq_none_iff, h.length, ← List.getElem?_eq_none_iff] at hd'
    rw [hd']
  | some d' =>
    obtain ⟨d, hd, hstep⟩ := h.dials i d' hd'
    rw [hd, Option.map_some, Option.map_some]
    rcases hstep with rfl | ⟨a, hasks, hstep⟩
    · rfl
    · have hne : d.promise ≠ .pending := by
        intro heq
        have := settled_of_mem hsettled hd
        rw [heq] at this
        cases this
      rw [((hs.kept i d hd).sound.settled_step hne hstep).1]

theorem failure?_congr (h : s'.promises = s.promises) : s'.failure? = s.failure? := by
  rw [failure?, failure?, h]

theorem Failed.goesOn {failure : Err} (hs : s.Failed thrown failure) (hheld : s.Held thrown)
    (h : s.GoesOn s') : s'.Failed thrown failure := by
  have hpromises := h.promises_eq hheld hs.settled
  refine ⟨by rw [hpromises]; exact hs.settled, (failure?_congr hpromises).trans hs.failure,
    fun i d' hd' => ?_⟩
  obtain ⟨d, hd, hstep⟩ := h.dials i d' hd'
  rcases hstep with rfl | ⟨a, hasks, hstep⟩
  · exact hs.released i d' hd
  · have hne : d.promise ≠ .pending := by
      intro heq
      have := settled_of_mem hs.settled hd
      rw [heq] at this
      cases this
    exact (hs.released i d hd).imp_left ((hheld.kept i d hd).sound.settled_step hne hstep).2

theorem Succeeded.goesOn (hs : s.Succeeded) (hheld : s.Held thrown) (h : s.GoesOn s') :
    s'.Succeeded := by
  have hpromises := h.promises_eq hheld hs.settled
  exact ⟨by rw [hpromises]; exact hs.settled, (failure?_congr hpromises).trans hs.failure⟩

theorem Held.goesOn (hs : s.Held thrown) (h : s.GoesOn s') : s'.Held thrown where
  kept i d' hd' := by
    obtain ⟨d, hd, hstep⟩ := h.dials i d' hd'
    rcases hstep with rfl | ⟨a, hasks, hstep⟩
    · exact hs.kept i d' hd
    · exact (hs.kept i d hd).step hasks hstep
  length := h.length.trans hs.length
  stage := by
    have hstage := hs.stage
    rw [h.phase]
    cases hphase : s.phase with
    | dialing =>
      rw [hphase] at hstage
      exact h.promise.trans hstage
    | closing failure =>
      rw [hphase] at hstage
      exact ⟨h.promise.trans hstage.1, hstage.2.goesOn hs h⟩
    | settled =>
      rw [hphase] at hstage
      rcases hstage with ⟨hresolved, hall⟩ | ⟨failure, hrejected, hfailed⟩
      · exact .inl ⟨h.promise.trans hresolved, hall.goesOn hs h⟩
      · exact .inr ⟨failure, h.promise.trans hrejected, hfailed.goesOn hs h⟩

/-- Closing the connections does not change what the promises were settled with. -/
theorem promises_closed (s : ClientConnecting cfg) (phase : ClientConnectPhase) :
    promises { s with phase := phase, dials := s.dials.map .closed } = s.promises := by
  rw [promises, promises, List.map_map]
  exact List.map_congr_left fun d _ => d.promise_closed

theorem Held.resume (hs : s.Held thrown) (h : s.resume = some s') : s'.Held thrown := by
  have hstage := hs.stage
  rw [ClientConnecting.resume] at h
  cases hphase : s.phase with
  | dialing =>
    rw [hphase] at h hstage
    obtain ⟨hsettled, h⟩ := Option.ite_none_right_eq_some.1 h
    cases hfailure : s.failure? with
    | none =>
      simp only [hfailure] at h
      cases h
      refine ⟨hs.kept, hs.length, .inl ⟨?_, hsettled, hfailure⟩⟩
      show s.promise.resolve () = _
      rw [show s.promise = .pending from hstage]
      rfl
    | some failure =>
      simp only [hfailure] at h
      cases h
      -- a connect failed: all connections are closed, which changes no promise
      have hpromises := s.promises_closed (.closing failure)
      have hclosed : ∀ (i : ℕ) (d : Connecting cfg), (s.dials.map .closed)[i]? = some d →
          ∃ d₀ : Connecting cfg, s.dials[i]? = some d₀ ∧ d = d₀.closed := fun i d h => by
        obtain ⟨d₀, hd₀, rfl⟩ := Option.map_eq_some_iff.1 (List.getElem?_map.symm.trans h)
        exact ⟨d₀, hd₀, rfl⟩
      refine ⟨fun i d hd => ?_, (List.length_map _).trans hs.length, hstage,
        by rw [hpromises]; exact hsettled, (failure?_congr hpromises).trans hfailure,
        fun i d hd => ?_⟩
      · obtain ⟨d₀, hd₀, rfl⟩ := hclosed i d hd
        exact (hs.kept i d₀ hd₀).closed
      · obtain ⟨d₀, hd₀, rfl⟩ := hclosed i d hd
        exact (hs.kept i d₀ hd₀).released_closed (settled_of_mem hsettled hd₀)
  | closing failure =>
    rw [hphase] at h hstage
    cases h
    refine ⟨hs.kept, hs.length, .inr ⟨failure, ?_, hstage.2.settled, hstage.2.failure,
      hstage.2.released⟩⟩
    show s.promise.reject failure = _
    rw [hstage.1]
    rfl
  | settled =>
    rw [hphase] at h
    cases h

theorem held_of_run {host : JsString} {port : JsNumber} {signal : Signal}
    {as : List ClientConnectAction}
    (h : (clientConnecting cfg).Run (start cfg host port signal thrown) as s) : s.Held thrown := by
  refine h.invariant (I := fun s => s.Held thrown) (held_start host port signal thrown)
    fun s a s' hs _ hstep => ?_
  rcases goesOn_of_step hstep with hgoes | hresume
  · exact hs.goesOn hgoes
  · exact hs.resume hresume

/-! ### The client -/

theorem Succeeded.resolved (hs : s.Succeeded) {i : ℕ} {d : Connecting cfg}
    (hd : s.dials[i]? = some d) : d.promise = .resolved () := by
  have hsettled := settled_of_mem hs.settled hd
  have hnone : Deferred.reason? d.promise = none :=
    List.findSome?_eq_none_iff.1 hs.failure _ (List.mem_map_of_mem (List.mem_of_getElem? hd))
  cases hpromise : d.promise with
  | pending => rw [hpromise] at hsettled; cases hsettled
  | rejected err => rw [hpromise] at hnone; cases hnone
  | resolved value => rfl

/-- The connections of the client are those of the pool, in order. -/
theorem Succeeded.conns (hs : s.Succeeded) (hheld : s.Held thrown) :
    s.conns.length = s.dials.length ∧ ∀ c ∈ s.conns, c.Connected ∧ c.Fresh := by
  have hconn : ∀ d ∈ s.dials, ∃ c, (if d.promise = .resolved () then d.conn else none) = some c ∧
      c.Connected ∧ c.Fresh := fun d hmem => by
    obtain ⟨i, hd⟩ := List.mem_iff_getElem?.1 hmem
    have hresolved := hs.resolved hd
    obtain ⟨c, hc, hconnected⟩ := (hheld.kept i d hd).connected hresolved
    exact ⟨c, by rw [if_pos hresolved, hc], hconnected⟩
  refine ⟨?_, fun c hc => ?_⟩
  · rw [ClientConnecting.conns, List.length_filterMap_eq_countP, List.countP_eq_length]
    intro d hmem
    obtain ⟨c, hc, -⟩ := hconn d hmem
    rw [hc]
    rfl
  · obtain ⟨d, hmem, hd⟩ := List.mem_filterMap.1 hc
    obtain ⟨c', hc', hconnected⟩ := hconn d hmem
    cases hd.symm.trans hc'
    exact hconnected

theorem Succeeded.client (hs : s.Succeeded) (hheld : s.Held thrown) :
    ∃ cl, s.client? = some cl ∧ cl.Connected ∧ cl.Fresh ∧
      cl.bulk.length = cfg.bulkConnections := by
  obtain ⟨hlength, hconnected⟩ := hs.conns hheld
  rw [hheld.length] at hlength
  cases hconns : s.conns with
  | nil =>
    rw [hconns] at hlength
    cases hlength
  | cons control bulk =>
    rw [hconns] at hlength hconnected
    have hmem : ∀ lane c,
        Client.lane? { control, bulk, nextBulk := 0, closed := false } lane = some c →
          c ∈ control :: bulk := fun lane c hc => by
      cases lane with
      | control => cases hc; exact List.mem_cons_self
      | bulk i => exact List.mem_cons_of_mem _ (List.mem_of_getElem? hc)
    exact ⟨_, by rw [client?, hconns],
      ⟨fun lane c hc => (hconnected c (hmem lane c hc)).1, rfl, rfl⟩,
      fun lane c hc => (hconnected c (hmem lane c hc)).2, Nat.succ.inj hlength⟩

theorem Held.exists_run (hs : s.Held thrown) (hsettled : s.promises.all Deferred.settled = true) :
    ∃ n ≤ 2, ∃ s', (clientConnecting cfg).Run s (List.replicate n .resume) s' ∧
      s'.promise ≠ .pending := by
  have hclosing : ∀ {s : ClientConnecting cfg} {failure : Err}, s.phase = .closing failure →
      ∃ s', s.resume = some s' ∧ s'.promise ≠ .pending := fun {s failure} hphase => by
    rw [ClientConnecting.resume, hphase]
    exact ⟨_, rfl, Deferred.reject_ne_pending _ _⟩
  cases hphase : s.phase with
  | dialing =>
    cases hfailure : s.failure? with
    | none =>
      refine ⟨1, by omega, { s with phase := .settled, promise := s.promise.resolve () },
        .single trivial ?_, Deferred.resolve_ne_pending _ _⟩
      show s.resume = _
      simp only [ClientConnecting.resume, hphase, hsettled, if_true, hfailure]
    | some failure =>
      -- one step closes the connections, the next one rejects
      have hfirst : (clientConnecting cfg).step s .resume =
          some { s with phase := .closing failure, dials := s.dials.map .closed } := by
        show s.resume = _
        simp only [ClientConnecting.resume, hphase, hsettled, if_true, hfailure]
      obtain ⟨s', hresume, hne⟩ := hclosing
        (s := { s with phase := .closing failure, dials := s.dials.map .closed }) rfl
      have hsecond : (clientConnecting cfg).step
          { s with phase := .closing failure, dials := s.dials.map .closed } .resume = some s' :=
        hresume
      exact ⟨2, le_rfl, s', .cons trivial hfirst (.single trivial hsecond), hne⟩
  | closing failure =>
    obtain ⟨s', hresume, hne⟩ := hclosing hphase
    exact ⟨1, by omega, s', .single trivial hresume, hne⟩
  | settled =>
    refine ⟨0, Nat.zero_le _, s, .start, ?_⟩
    have hstage := hs.stage
    rw [hphase] at hstage
    rcases hstage with ⟨hpromise, -⟩ | ⟨failure, hpromise, -⟩ <;> rw [hpromise] <;> nofun

end ClientConnecting

namespace Client

/-- **All or nothing.**  In whatever order the connects of a client go on: if `connect` resolves,
the client has a control connection and as many bulk connections as configured, each with its hello
accepted and nothing else asked for.  If it rejects, it is with the failure of the first connection
that failed, every connect is over, and no socket is left open, unless setting its timeout threw.
And it does settle, once every connect has. -/
theorem connect_all_or_nothing {addr : JsString} {options : ClientOptions} {signal : Signal}
    {thrown : ℕ → Option DialThrow} {s₀ s : ClientConnecting (resolveConfig options)}
    (hconnect : connect addr options signal thrown = .ok s₀) {as : List ClientConnectAction}
    (h : (clientConnecting (resolveConfig options)).Run s₀ as s) :
    (s.promise = .resolved () → ∃ cl, s.client? = some cl ∧ cl.Connected ∧ cl.Fresh ∧
      cl.bulk.length = (resolveConfig options).bulkConnections) ∧
    (∀ err, s.promise = .rejected err → s.failure? = some err ∧
      ∀ i d, s.dials[i]? = some d → d.promise.settled = true ∧
        (d.SocketGone ∨ ∃ err, thrown i = some (.setTimeout err))) ∧
    ((∀ d ∈ s.dials, d.promise.settled = true) → ∃ n ≤ 2, ∃ s',
      (clientConnecting (resolveConfig options)).Run s (List.replicate n .resume) s' ∧
        s'.promise ≠ .pending) := by
  have hheld : s.Held thrown := by
    rw [connect] at hconnect
    cases haddress : parseAddress addr with
    | error err =>
      rw [haddress] at hconnect
      cases hconnect
    | ok address =>
      rw [haddress] at hconnect
      cases hconnect
      exact ClientConnecting.held_of_run h
  -- the promise is settled in the last phase only
  have hstage := hheld.stage
  refine ⟨fun hresolved => ?_, fun err hrejected => ?_, fun hsettled => hheld.exists_run ?_⟩
  · cases hphase : s.phase with
    | dialing =>
      rw [hphase] at hstage
      cases hresolved.symm.trans hstage
    | closing failure =>
      rw [hphase] at hstage
      cases hresolved.symm.trans hstage.1
    | settled =>
      rw [hphase] at hstage
      rcases hstage with ⟨-, hsucceeded⟩ | ⟨failure, hrejected, -⟩
      · exact hsucceeded.client hheld
      · cases hresolved.symm.trans hrejected
  · cases hphase : s.phase with
    | dialing =>
      rw [hphase] at hstage
      cases hrejected.symm.trans hstage
    | closing failure =>
      rw [hphase] at hstage
      cases hrejected.symm.trans hstage.1
    | settled =>
      rw [hphase] at hstage
      rcases hstage with ⟨hresolved, -⟩ | ⟨failure, hrejected', hfailed⟩
      · cases hrejected.symm.trans hresolved
      · cases hrejected.symm.trans hrejected'
        exact ⟨hfailed.failure, fun i d hd =>
          ⟨ClientConnecting.settled_of_mem hfailed.settled hd, hfailed.released i d hd⟩⟩
  · rw [ClientConnecting.promises, List.all_map, List.all_eq_true]
    exact hsettled

end Client

end

namespace Client

section

attribute [local instance] utf8Codec

/-- A control connection and one bulk connection. -/
def oneBulk : ClientOptions where
  bulkConnections := some (.finite 1)
  maxInflightRequests := none
  requestQueueDepth := none
  maxFrameLen := none
  tls := none
  authToken := none
  connectTimeout := none

/-- The error of the bulk connection. -/
def refusedErr : Err := .native "Error" (js "connect ECONNREFUSED")

/-- The control connection is made, and the bulk connection is refused. -/
def halfConnected : List ClientConnectAction :=
  [.dial 0 (.socket (.ready .connect)), .dial 0 .resume, .dial 0 (.conn (.permit 1)),
    .dial 0 (.conn (.slot 1)), .dial 0 (.conn (.writer (.returned true))),
    .dial 0 (.conn (.data Conn.helloAckFrame)), .dial 0 .resume,
    .dial 1 (.socket (.error refusedErr)), .dial 1 .resume, .resume, .resume]

/-- The control connection is closed again. -/
theorem half_connected : ∃ s₀ s : ClientConnecting (resolveConfig oneBulk),
    connect (js "h") oneBulk .none (fun _ => none) = .ok s₀ ∧
      (clientConnecting (resolveConfig oneBulk)).Run s₀ halfConnected s ∧
        s.promise = .rejected refusedErr ∧ s.failure? = some refusedErr ∧
          ∀ (i : ℕ) d, s.dials[i]? = some d → d.promise.settled = true ∧ d.SocketGone := by
  have haddress : parseAddress (js "h") = .ok { host := js "h", port := defaultPort } := by
    decide +kernel
  have hconnect : connect (js "h") oneBulk .none (fun _ => none) =
      .ok (.start (resolveConfig oneBulk) (js "h") defaultPort .none fun _ => none) := by
    rw [connect, haddress]
    rfl
  have hexec : ((clientConnecting (resolveConfig oneBulk)).exec
      (.start (resolveConfig oneBulk) (js "h") defaultPort .none fun _ => none) halfConnected).any
        (fun s => s.promise = .rejected refusedErr) = true := by decide +kernel
  obtain ⟨s, hrun, hs⟩ := Machine.exists_run_of_exec hexec
  have hrejected := of_decide_eq_true hs
  obtain ⟨hfailure, hdials⟩ := (connect_all_or_nothing hconnect hrun).2.1 _ hrejected
  refine ⟨_, s, hconnect, hrun, hrejected, hfailure, fun i d hd => ⟨(hdials i d hd).1, ?_⟩⟩
  rcases (hdials i d hd).2 with hgone | ⟨err, herr⟩
  · exact hgone
  · cases herr

end

end Client

end Tephra
