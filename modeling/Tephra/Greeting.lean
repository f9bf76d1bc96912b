import Tephra.ConnectAll

/-!
# The hello comes first

Nothing stops a connection from sending a cancel before the hello, or requests in its stead: a
cancel overtakes what is queued.  But `Client.connect` hands out a connection only once its hello is
accepted, and a server that answers what it was sent accepts it only after it was written.

* `Request.Greeting` : a connection on which nobody makes requests has its hello, and never cancels
  it.
* `Conn.Greeted` : a connection that `connect` hands out: the hello is all that was written.
* `hello_first` : so the first thing a server reads from a client is the hello, whatever the client
  does then.
-/

namespace Tephra

open Lib

/-! ### Nobody makes requests -/

/-- Whether this can happen to a request that nobody holds. -/
def Happening.isInternal : Happening → Bool
  | permit | response _ _ | sendFailed _ | died _ => true
  | _ => false

/-- A request that is the hello, or was not made. -/
structure Request.Greeting (q : Request) : Prop where
  entry : ∀ e, q.view.pending = some e → e.type = .hello
  call : ∀ call, q.view.call = some call → call.hasType .hello = true
  uncancelled : q.cancels = 0

namespace Request.Greeting

variable {q : Request}

theorem new : Request.new.Greeting where
  entry e h := by cases h
  call call h := by cases h
  uncancelled := rfl

theorem settle (hq : q.Greeting) {f : Call → Call} {n : ℕ} (hn : n = 0)
    (hf : ∀ call, (f call).hasType .hello = call.hasType .hello) :
    Request.Greeting { view := q.view.finish f, cancels := q.cancels + n } where
  entry e h := by cases h
  call call' h := by
    obtain ⟨call, hcall, rfl⟩ := Option.map_eq_some_iff.1 h
    exact (hf call).trans (hq.call call hcall)
  uncancelled := by rw [hq.uncancelled, hn]

theorem react (hq : q.Greeting) {h : Happening} (hinternal : h.isInternal = true) :
    (q.react h).Greeting := by
  have hreject : ∀ (err : Err) (call : Call),
      (call.reject err).hasType .hello = call.hasType .hello := fun err call =>
    (Call.ends_reject err call).hasType .hello
  cases h with
  | permit =>
    refine ⟨fun e h => ?_, hq.call, hq.uncancelled⟩
    obtain ⟨e', entry, rfl⟩ := Option.map_eq_some_iff.1 h
    exact hq.entry e' entry
  | response response alive =>
    cases entry : q.view.pending with
    | none =>
      rw [Request.react, View.respond, violatedBy, entry]
      simp only [Option.any_none, Bool.and_false, Bool.toNat_false, Nat.add_zero]
      exact hq
    | some e =>
      have htype := hq.entry e entry
      have hresponds := View.respond_of_pending entry response
      rw [htype] at hresponds
      rw [react_response entry hresponds, htype]
      -- whatever the response is, it settles the hello
      have hviolates : Conn.violates .hello response.kind = false := Conn.violates_eq _ _
      have hreaction : Conn.reaction .hello response.kind =
          .settle (Call.settleHello (Conn.helloOutcome response.kind)) := rfl
      refine hq.settle (by rw [hviolates, Bool.and_false]; rfl) fun call => ?_
      exact Conn.hasType_of_reaction hreaction call .hello
  | sendFailed err | died err =>
    rw [Request.react]
    by_cases hnone : q.view.pending.isNone = true
    · rwa [if_pos hnone]
    · rw [if_neg hnone]
      exact hq.settle (n := false.toNat) rfl (hreject err)
  | opened type call | close alive | abort err alive | jam | listener | microtask | next | collect
  | collectStep => cases hinternal

theorem foldl (hq : q.Greeting) {hs : List Happening} (hinternal : ∀ h ∈ hs, h.isInternal = true) :
    (hs.foldl Request.react q).Greeting := by
  induction hs generalizing q with
  | nil => exact hq
  | cons h hs ih =>
    exact ih (hq.react (hinternal h List.mem_cons_self)) fun h' hh' =>
      hinternal h' (List.mem_cons_of_mem _ hh')

end Request.Greeting

section

variable [TextCodec] {cfg : Config}

namespace Conn

variable {c c' : Conn cfg} {t : ℤ} {a : Action} {h : Happening} {as : List Action}

theorem isInternal_of_mem_failing {err : Err} (hmem : h ∈ c.failing err) : h.isInternal = true := by
  unfold failing at hmem
  split_ifs at hmem
  · cases hmem
  · rw [List.mem_singleton.1 hmem]
    rfl

theorem isInternal_of_mem_frames {bodies : List Bytes} (hmem : h ∈ c.frameHappenings t bodies) :
    h.isInternal = true := by
  induction bodies generalizing c with
  | nil => cases hmem
  | cons body bodies ih =>
    rw [frameHappenings] at hmem
    split at hmem
    · exact isInternal_of_mem_failing hmem
    split at hmem
    · exact isInternal_of_mem_failing hmem
    rcases List.mem_append.1 hmem with hmem | hmem
    · unfold responseHappenings at hmem
      split_ifs at hmem
      · split at hmem
        · exact isInternal_of_mem_failing hmem
        · cases hmem
      · rw [List.mem_singleton.1 (mem_on.1 hmem).2]
        rfl
    · exact ih hmem

theorem isInternal_of_mem_writer {outcome : WriteOutcome} (hmem : h ∈ c.writerHappenings outcome) :
    h.isInternal = true := by
  unfold writerHappenings at hmem
  split_ifs at hmem
  · cases hmem
  · cases outcome with
    | threw reason => exact isInternal_of_mem_failing hmem
    | returned ok => cases hmem

/-- As long as nobody makes a request there is none to be closed or aborted, and no signal listens.
-/
theorem isInternal_of_mem (hq : ∀ t, (c.request t).Greeting) (hnone : a.outgoing? = none)
    (hstep : c.step a = some c') (hmem : h ∈ c.happenings t a) : h.isInternal = true := by
  have hcall : ∀ {id : ℤ} {call : Call}, c.calls.get? id = some call →
      ∃ deferred, call = .hello deferred := fun {id call} found =>
    Call.eq_hello ((hq id).call call found)
  cases taken_of_step hstep with
  | append | stats | read | subscribe => cases hnone
  | close | socketError | socketClose => exact isInternal_of_mem_failing hmem
  | closeStream found isStream | next found isStream | abortStream found listening isStream =>
    obtain ⟨deferred, rfl⟩ := hcall found
    cases isStream
  | collect found | collectStep found =>
    obtain ⟨deferred, heq⟩ := hcall found
    cases heq
  | abortUnary found listening =>
    obtain ⟨deferred, rfl⟩ := hcall found
    cases listening
  | abortMicrotask found microtask =>
    obtain ⟨deferred, rfl⟩ := hcall found
    cases microtask
  | data chunk =>
    simp only [happenings] at hmem
    split at hmem
    · exact isInternal_of_mem_failing hmem
    · exact isInternal_of_mem_frames hmem
  | drained | slot => cases hmem
  | permit resume =>
    simp only [happenings, resume] at hmem
    rcases mem_permitHappenings (mem_on.1 hmem).2 with rfl | ⟨err, rfl⟩ <;> rfl
  | sendFailed found =>
    simp only [happenings, found] at hmem
    rw [List.mem_singleton.1 (mem_on.1 hmem).2]
    rfl
  | writer outcome | drainResumed outcome => exact isInternal_of_mem_writer hmem
  | drainRejected drain =>
    simp only [happenings, drain] at hmem
    exact isInternal_of_mem_failing hmem

theorem greeting_of_run {ok : Conn cfg → Action → Prop} (hok : ∀ c a, ok c a → a.outgoing? = none)
    (h : (connection cfg).RunWith ok (init cfg) as c) : ∀ t, (c.request t).Greeting := by
  have hinv : Consistent c ∧ ∀ t, (c.request t).Greeting := by
    refine h.invariant (I := fun c => Consistent c ∧ ∀ t, (c.request t).Greeting)
      ⟨.init cfg, fun t => ?_⟩ ?_
    · rw [request_init, helloHappenings, foldl_on]
      split_ifs
      · exact ⟨fun e he => by cases he; rfl, fun call hcall => by cases hcall; rfl, rfl⟩
      · exact .new
    · rintro c a c' ⟨hc, hq⟩ ha hstep
      refine ⟨hc.step hstep, fun t => ?_⟩
      rw [request_of_step hc hstep]
      exact (hq t).foldl fun h hmem => isInternal_of_mem hq (hok c a ha) hstep hmem
  exact hinv.2

/-! ### What is written by then -/

theorem pushedPriority_eq_nil (hq : ∀ t, (c.request t).Greeting) (hfifo : c.wire.Fifo) :
    c.wire.pushedPriority = [] := by
  refine List.eq_nil_iff_forall_not_mem.2 fun frame hframe => ?_
  have hcancel : frame.isCancel = true := by
    rw [hfifo.priority] at hframe
    rcases List.mem_append.1 hframe with hwritten | hqueued
    · exact (List.mem_filter.1 hwritten).2
    · exact hfifo.priority_cancel frame hqueued
  unfold Frame.isCancel at hcancel
  split at hcancel
  · rename_i req hkind
    have hcount : c.cancelCount req.target = 0 := (hq req.target).uncancelled
    refine absurd (List.countP_eq_zero.1 hcount frame hframe) (not_not.2 ?_)
    exact decide_eq_true hkind
  · cases hcancel

theorem askedRequests_eq {ok : Conn cfg → Action → Prop} (hok : ∀ c a, ok c a → a.outgoing? = none)
    (h : (connection cfg).RunWith ok (init cfg) as c) :
    askedRequests cfg as = [Client.helloRequest cfg] := by
  have hnone : (connection cfg).observe asks (init cfg) as = [] := by
    refine List.eq_nil_iff_forall_not_mem.2 fun p hp => ?_
    refine h.forall_mem_observe (P := fun _ => False) (fun c a ha p hp => ?_) p hp
    unfold asks at hp
    rw [hok c a ha, Option.map_none, Option.toList_none, ite_self] at hp
    cases hp
  rw [askedRequests, asked, hnone]
  rfl

/-- As long as nobody makes a request, at most the hello is written. -/
theorem written_of_run {ok : Conn cfg → Action → Prop} (hok : ∀ c a, ok c a → a.outgoing? = none)
    (h : (connection cfg).RunWith ok (init cfg) as c) :
    c.wire.written = [] ∨ ∃ frame, c.wire.written = [frame] ∧
      frame.request = Client.helloRequest cfg := by
  have hfifo := (writing_of_run h.run).fifo
  have hpriority := pushedPriority_eq_nil (greeting_of_run hok h) hfifo
  rw [hfifo.priority] at hpriority
  have hrequests : c.wire.written.filter (fun frame => !frame.isCancel) = c.wire.written := by
    refine List.filter_eq_self.2 fun frame hframe => ?_
    have hnone := List.filter_eq_nil_iff.1 (List.append_eq_nil_iff.1 hpriority).1 frame hframe
    rw [Bool.not_eq_true] at hnone
    rw [hnone]
    rfl
  have hsubperm := (pushed_asked h.run).1
  rw [askedRequests_eq hok h, hfifo.outbound, hrequests, List.map_append] at hsubperm
  have hwritten : (c.wire.written.map Frame.request).Subperm [Client.helloRequest cfg] :=
    (List.sublist_append_left _ _).subperm.trans hsubperm
  cases heq : c.wire.written with
  | nil => exact .inl rfl
  | cons frame frames =>
    rw [heq, List.map_cons] at hwritten
    have hlength : frames.length = 0 := by
      have := hwritten.length_le
      simp only [List.length_cons, List.length_map, List.length_nil] at this
      omega
    refine .inr ⟨frame, by rw [List.length_eq_zero_iff.1 hlength], ?_⟩
    exact List.mem_singleton.1 (hwritten.subset List.mem_cons_self)

theorem written_of_step (hc : Consistent c) (hstep : c.step a = some c') :
    c.wire.written <+: c'.wire.written := by
  have hreceive : (c.receive a).wire = c.wire := by cases a <;> rfl
  refine keeps_of_moves (I := fun c' => c.wire.written <+: c'.wire.written)
    (moves_of_step hc (.all c a) hstep) (hc.receive a) (by rw [hreceive]) ?_
  intro c₁ c₂ _ hprefix hm
  cases wire_of_move hm with
  | same wire => rwa [wire]
  | outbound alive slot wire => rwa [wire]
  | priority alive entry gone request counter slots parked wire => rwa [wire]
  | write alive wire =>
    rw [wire, Wire.written_write]
    exact hprefix.trans (List.prefix_append _ _)

theorem written_prefix {ok : Conn cfg → Action → Prop} (hc : Consistent c)
    (h : (connection cfg).RunWith ok c as c') : c.wire.written <+: c'.wire.written :=
  h.rel hc (fun _ _ _ hc _ hstep => hc.step hstep) (fun _ => List.prefix_rfl)
    (fun _ _ _ h h' => h.trans h') fun _ _ _ hc _ hstep => written_of_step hc hstep

/-! ### The hello is accepted -/

/-- Whether a step is one of a server that does not speak before it is spoken to. -/
def spoken (c : Conn cfg) : Action → Bool
  | .data _ => !c.wire.written.isEmpty
  | _ => true

/-- Nobody makes a request, and the server does not speak first. -/
def Quiet (c : Conn cfg) (a : Action) : Prop := a.outgoing? = none ∧ c.spoken a = true

/-- A connection that `connect` may hand out. -/
def Greeted (c : Conn cfg) : Prop :=
  (∃ as, (connection cfg).RunWith Quiet (init cfg) as c) ∧
    c.calls.get? 1 = some (.hello (.resolved ()))

theorem written_of_accepted (h : (connection cfg).RunWith Quiet (init cfg) as c)
    (haccepted : c.calls.get? 1 = some (.hello (.resolved ()))) : c.wire.written ≠ [] := by
  have hinv : Consistent c ∧ (c.wire.written ≠ [] ∨ Unaccepted (c.request 1)) := by
    refine h.invariant
      (I := fun c => Consistent c ∧ (c.wire.written ≠ [] ∨ Unaccepted (c.request 1)))
      ⟨.init cfg, .inr (.inl ?_)⟩ ?_
    · show helloInquiry.Open ((init cfg).request 1)
      rw [request_init]
      exact Inquiry.Open.new rfl
    · rintro c a c' ⟨hc, hor⟩ ⟨-, hspoken⟩ hstep
      have hstep' : c.step a = some c' := hstep
      refine ⟨hc.step hstep', ?_⟩
      by_cases hwritten : c.wire.written = []
      · -- the step is not the data of a response
        refine .inr ?_
        rw [request_of_step hc hstep']
        refine (hor.resolve_left (not_not.2 hwritten)).foldl fun response alive hmem => ?_
        obtain ⟨-, chunk, rfl⟩ := of_mem_response hmem
        rw [spoken, hwritten] at hspoken
        cases hspoken
      · refine .inl fun hnil => hwritten ?_
        have hprefix := written_of_step hc hstep'
        rw [hnil] at hprefix
        exact List.prefix_nil.1 hprefix
  exact hinv.2.resolve_right fun hq => hq.ne haccepted

theorem Greeted.written (h : c.Greeted) :
    ∃ frame, c.wire.written = [frame] ∧ frame.request = Client.helloRequest cfg := by
  obtain ⟨⟨as, hrun⟩, haccepted⟩ := h
  exact (written_of_run (fun _ _ h => h.1) hrun).resolve_left (written_of_accepted hrun haccepted)

end Conn

/-! ### Connecting -/

namespace Connecting

variable {cfg : ResolvedConfig} {d d' : Connecting cfg} {thrown : Option DialThrow}

/-- Whether the server of a connect does not speak first in a step. -/
def spoken (d : Connecting cfg) : ConnectAction → Bool
  | .conn a => d.conn.all fun c => c.spoken a
  | _ => true

/-- The connection of a connect was quiet since it was made. -/
def WasQuiet (d : Connecting cfg) : Prop :=
  ∀ c, d.conn = some c → ∃ destroyed as,
    (connection cfg.toConfig).RunWith Conn.Quiet
      { Conn.init cfg.toConfig with destroyed := destroyed } as c

theorem WasQuiet.congr (hd : d.WasQuiet) (h : d'.conn = d.conn) : d'.WasQuiet := fun c hc =>
  hd c (h.symm.trans hc)

theorem WasQuiet.close (hd : d.WasQuiet) (h : d'.conn = d.conn.map Conn.close) : d'.WasQuiet := by
  intro c hc
  rw [h] at hc
  obtain ⟨c₀, hc₀, rfl⟩ := Option.map_eq_some_iff.1 hc
  obtain ⟨destroyed, as, hrun⟩ := hd c₀ hc₀
  have hquiet : c₀.Quiet .close := ⟨rfl, rfl⟩
  exact ⟨destroyed, as ++ [.close], hrun.snoc hquiet rfl⟩

theorem WasQuiet.step (hd : d.WasQuiet) {a : ConnectAction} (hasks : a.asks = false)
    (hspoken : d.spoken a = true) (hstep : d.step a = some d') : d'.WasQuiet := by
  cases steps_of_step hstep with
  | socket | socketClose | abort => exact hd.congr rfl
  | @conn c c' b hc hc' =>
    intro c₁ h
    cases h
    obtain ⟨destroyed, as, hrun⟩ := hd c hc
    have hquiet : c.Quiet b := by
      refine ⟨Option.not_isSome_iff_eq_none.1 (Bool.eq_false_iff.1 hasks), ?_⟩
      rw [spoken, hc] at hspoken
      exact hspoken
    exact ⟨destroyed, as ++ [b], hrun.snoc hquiet hc'⟩
  | resume resumes =>
    cases resumes with
    | dialFailed | greeted | closed => exact hd.congr rfl
    | refused => exact hd.close rfl
    | connected =>
      intro c h
      cases h
      exact ⟨_, [], .start⟩

theorem WasQuiet.closed (hd : d.WasQuiet) : d.closed.WasQuiet := by
  unfold Connecting.closed
  by_cases hresolved : d.promise = .resolved ()
  · rw [if_pos hresolved]
    exact hd.close rfl
  · rwa [if_neg hresolved]

/-- The connection of a connect that was resolved is one that `connect` may hand out. -/
theorem WasQuiet.greeted (hd : d.WasQuiet) (hkept : d.Kept thrown)
    (hresolved : d.promise = .resolved ()) {c : Conn cfg.toConfig} (hc : d.conn = some c) :
    c.Greeted := by
  obtain ⟨c', hc', hgreets⟩ := hkept.accepted hresolved
  cases hc.symm.trans hc'
  obtain ⟨destroyed, as, hrun⟩ := hd c hc
  cases destroyed with
  | false => exact ⟨⟨as, hrun⟩, hgreets.call⟩
  | true => exact absurd hgreets.call (Conn.unaccepted_of_run hrun.run)

end Connecting

namespace ClientConnecting

variable {cfg : ResolvedConfig} {s s' : ClientConnecting cfg} {thrown : ℕ → Option DialThrow}

/-- Whether no server speaks first in a step. -/
def spoken (s : ClientConnecting cfg) : ClientConnectAction → Bool
  | .dial i a => s.dials[i]?.all fun d => d.spoken a
  | _ => true

/-- All connections were quiet since they were made. -/
def WasQuiet (s : ClientConnecting cfg) : Prop := ∀ d ∈ s.dials, d.WasQuiet

theorem WasQuiet.resume (hs : s.WasQuiet) (h : s.resume = some s') : s'.WasQuiet := by
  rw [ClientConnecting.resume] at h
  cases hphase : s.phase with
  | dialing =>
    rw [hphase] at h
    obtain ⟨-, h⟩ := Option.ite_none_right_eq_some.1 h
    cases hfailure : s.failure? with
    | none =>
      simp only [hfailure] at h
      cases h
      exact hs
    | some failure =>
      simp only [hfailure] at h
      cases h
      intro d hd
      obtain ⟨d₀, hd₀, rfl⟩ := List.mem_map.1 hd
      exact (hs d₀ hd₀).closed
  | closing failure =>
    rw [hphase] at h
    cases h
    exact hs
  | settled =>
    rw [hphase] at h
    cases h

theorem WasQuiet.step (hs : s.WasQuiet) {a : ClientConnectAction} (hspoken : s.spoken a = true)
    (hstep : s.step a = some s') : s'.WasQuiet := by
  cases a with
  | resume => exact hs.resume hstep
  | dial i a =>
    obtain ⟨hothers, h⟩ := Option.ite_none_left_eq_some.1 hstep
    obtain ⟨d, hd, h⟩ := Option.bind_eq_some_iff.1 h
    obtain ⟨d', hstep', rfl⟩ := Option.map_eq_some_iff.1 h
    rw [spoken, hd] at hspoken
    intro e he
    rcases List.mem_or_eq_of_mem_set he with he | rfl
    · exact hs e he
    · exact (hs d (List.mem_of_getElem? hd)).step
        (ConnectAction.asks_of_not_isOthers (Bool.eq_false_iff.2 hothers)) hspoken hstep'
  | abort reason =>
    obtain ⟨-, ⟨⟩⟩ := Option.ite_none_right_eq_some.1 hstep
    intro e he
    obtain ⟨d, hd, rfl⟩ := List.mem_map.1 he
    cases hstep' : d.step (.abort reason) with
    | none => exact hs d hd
    | some d' => exact (hs d hd).step rfl rfl hstep'

theorem wasQuiet_of_run {host : JsString} {port : JsNumber} {signal : Signal}
    {as : List ClientConnectAction}
    (h : (clientConnecting cfg).RunWith (fun s a => s.spoken a = true)
      (start cfg host port signal thrown) as s) : s.WasQuiet := by
  refine h.invariant (I := fun s => s.WasQuiet) (fun d hd c hc => ?_)
    fun s a s' hs hspoken hstep => hs.step hspoken hstep
  obtain ⟨i, -, rfl⟩ := List.mem_map.1 hd
  cases hc

theorem mem_dials_of_lane {cl : Client cfg.toConfig} (hcl : s.client? = some cl) {lane : Lane}
    {c : Conn cfg.toConfig} (hc : cl.lane? lane = some c) :
    ∃ d ∈ s.dials, d.promise = .resolved () ∧ d.conn = some c := by
  have hmem : c ∈ s.conns := by
    unfold client? at hcl
    split at hcl
    · rename_i control bulk hconns
      cases hcl
      rw [hconns]
      cases lane with
      | control =>
        cases hc
        exact List.mem_cons_self
      | bulk i => exact List.mem_cons_of_mem _ (List.mem_of_getElem? hc)
    · cases hcl
  obtain ⟨d, hd, hd'⟩ := List.mem_filterMap.1 hmem
  obtain ⟨hresolved, hconn⟩ := Option.ite_none_right_eq_some.1 hd'
  exact ⟨d, hd, hresolved, hconn⟩

end ClientConnecting

namespace Client

/-- **The hello comes first.**  A client is connected, in whatever order its connects go on, to
servers that do not send anything before they are sent something.  Then, whatever is done with it,
the first request that the bytes written on any of its connections decode to is the hello of that
connection, with the protocol version and the credential of the client. -/
theorem hello_first {addr : JsString} {options : ClientOptions} {signal : Signal}
    {thrown : ℕ → Option DialThrow} {s₀ s : ClientConnecting (resolveConfig options)}
    {cl₀ cl : Client (resolveConfig options).toConfig} {lane : Lane}
    {c : Conn (resolveConfig options).toConfig} {as : List ClientConnectAction}
    {as' : List ClientAction} {chunks : List Bytes}
    (hconnect : connect addr options signal thrown = .ok s₀)
    (hconnecting : (clientConnecting (resolveConfig options)).RunWith
      (fun s a => s.spoken a = true) s₀ as s)
    (hcl₀ : s.client? = some cl₀)
    (h : (client (resolveConfig options).toConfig).Run cl₀ as' cl) (hc : cl.lane? lane = some c)
    (hmax : (resolveConfig options).maxFrameLen < 2 ^ 32)
    (hchunks : chunks.flatten = c.wire.bytes) :
    ∃ body bodies,
      (FrameDecoder.new (resolveConfig options).maxFrameLen).feed chunks = (body :: bodies, none) ∧
      decodeRequest body = .ok (helloRequest (resolveConfig options).toConfig).received := by
  obtain ⟨c₀, bs, hc₀, hrun⟩ := (lanesDo_of_run h).2.exists_run hc
  obtain ⟨d, hd, hresolved, hconn⟩ := ClientConnecting.mem_dials_of_lane hcl₀ hc₀
  -- the connection that was handed out had written its hello and nothing else
  have hgreeted : c₀.Greeted := by
    rw [connect] at hconnect
    cases haddress : parseAddress addr with
    | error err =>
      rw [haddress] at hconnect
      cases hconnect
    | ok address =>
      rw [haddress] at hconnect
      cases hconnect
      obtain ⟨i, hi⟩ := List.mem_iff_getElem?.1 hd
      have hkept := (ClientConnecting.held_of_run hconnecting.run).kept i d hi
      exact (ClientConnecting.wasQuiet_of_run hconnecting d hd).greeted hkept hresolved hconn
  obtain ⟨frame, hwritten, hrequest⟩ := hgreeted.written
  obtain ⟨⟨as₀, hrun₀⟩, -⟩ := hgreeted
  -- what was written stays in front
  have hprefix := Conn.written_prefix (Conn.consistent_of_run hrun₀) hrun
  rw [hwritten] at hprefix
  obtain ⟨frames, hframes⟩ := hprefix
  have hfeed := (Conn.writing_of_run (hrun₀.run.trans hrun.run)).fifo.feed hmax hchunks
  rw [← hframes, List.singleton_append, List.map_cons] at hfeed
  refine ⟨_, _, hfeed, ?_⟩
  rw [← hrequest]
  refine decodeRequest_encodeRequest_received _ ?_
  have hlen := (writeFrame_eq_ok frame.encoded).1
  have : 2 ^ 32 ≤ maxArrayLength := by decide
  omega

end Client

end

namespace Client

section

attribute [local instance] utf8Codec

/-- Nothing but a control connection. -/
def noBulk : ClientOptions := { oneBulk with bulkConnections := some (.finite 0) }

/-- The connection is made, and the hello is written and accepted. -/
def connectingOne : List ClientConnectAction :=
  [.dial 0 (.socket (.ready .connect)), .dial 0 .resume, .dial 0 (.conn (.permit 1)),
    .dial 0 (.conn (.slot 1)), .dial 0 (.conn (.writer (.returned true))),
    .dial 0 (.conn (.data Conn.helloAckFrame)), .dial 0 .resume, .resume]

/-- A read that is cancelled before it is sent. -/
def cancelledRead : List ClientAction :=
  [.call (.read Query.all none none (.aborted .undefined)), .lane .control (.abortMicrotask 2),
    .lane .control (.writer (.returned true))]

/-- The server reads the hello, and then a cancel of a request it never sees. -/
theorem hello_before_cancel : ∃ (s : ClientConnecting (resolveConfig noBulk))
    (cl₀ cl : Client (resolveConfig noBulk).toConfig),
    s.client? = some cl₀ ∧
      (client (resolveConfig noBulk).toConfig).Run cl₀ cancelledRead cl ∧
        (cl.control.wire.written.map Frame.isCancel) = [false, true] ∧ ∃ body bodies,
          (FrameDecoder.new (resolveConfig noBulk).maxFrameLen).feed [cl.control.wire.bytes] =
            (body :: bodies, none) ∧
          decodeRequest body = .ok (helloRequest (resolveConfig noBulk).toConfig).received := by
  have haddress : parseAddress (js "h") = .ok { host := js "h", port := defaultPort } := by
    decide +kernel
  have hconnect : connect (js "h") noBulk .none (fun _ => none) =
      .ok (.start (resolveConfig noBulk) (js "h") defaultPort .none fun _ => none) := by
    rw [connect, haddress]
    rfl
  have hexec : (((clientConnecting (resolveConfig noBulk)).restrict ClientConnecting.spoken).exec
      (.start (resolveConfig noBulk) (js "h") defaultPort .none fun _ => none) connectingOne).any
        (fun s => s.client?.any fun cl₀ =>
          ((client (resolveConfig noBulk).toConfig).exec cl₀ cancelledRead).any fun cl =>
            decide (cl.control.wire.written.map Frame.isCancel = [false, true])) = true := by
    decide +kernel
  have hspoken : ∀ (s : ClientConnecting (resolveConfig noBulk)) a,
      s.spoken a = true → s.spoken a = true := fun _ _ => id
  obtain ⟨s, hconnecting, hs⟩ := Machine.exists_runWith_of_exec hspoken hexec
  obtain ⟨cl₀, hcl₀, hcl⟩ := (Option.any_eq_true _ _).1 hs
  obtain ⟨cl, hrun, hwritten⟩ := Machine.exists_run_of_exec hcl
  have hlane : cl.lane? .control = some cl.control := rfl
  exact ⟨s, cl₀, cl, hcl₀, hrun, of_decide_eq_true hwritten,
    hello_first hconnect hconnecting hcl₀ hrun hlane (by decide) List.flatten_singleton⟩

end

end Client

end Tephra
