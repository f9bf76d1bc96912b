import Tephra.Conn.Order
import Tephra.Proto.Received

/-!
# What reaches the server

A server decodes the bytes it receives.  What comes out are the requests that were asked for, each
at most once, and in the order of their calls when code runs on in turn; and cancels.

* `asked` : the requests of a run and their ids: the hello, and the calls made before the connection
  died.
* `Genuine` : what lines up was asked for.
* `server_receives` : so a server reads requests that were asked for, as they arrive.
-/

namespace Tephra

open Lib

section

variable [TextCodec] {cfg : Config}

namespace Conn

variable {c c' : Conn cfg}

/-- The request that a call on a live connection makes, with its id. -/
def asks (c : Conn cfg) (a : Action) : List (ℤ × Outgoing) :=
  if c.dead then [] else (a.outgoing?.map fun o => (c.idCounter + 1, o)).toList

/-- The requests asked for while a connection performs some actions, the hello first. -/
def asked (cfg : Config) (as : List Action) : List (ℤ × Outgoing) :=
  (1, .hello cfg.authToken) :: (connection cfg).observe asks (init cfg) as

/-- Whether a request cancels another. -/
def isCancel (r : WireRequest) : Bool :=
  match r.kind with
  | .cancel _ => true
  | _ => false

/-- A request as it is encoded, if it can be converted. -/
def toRequest? (p : ℤ × Outgoing) : Option WireRequest :=
  p.2.kind.toOption.map fun kind => { requestId := p.1, kind := kind }

/-- The requests asked for, as they are encoded; those that cannot be converted are left out. -/
def askedRequests (cfg : Config) (as : List Action) : List WireRequest :=
  (asked cfg as).filterMap toRequest?

theorem asked_snoc {ok : Conn cfg → Action → Prop} {as : List Action} {a : Action}
    (h : (connection cfg).RunWith ok (init cfg) as c) (hstep : c.step a = some c') :
    asked cfg (as ++ [a]) = asked cfg as ++ c.asks a := by
  rw [asked, h.observe_snoc asks hstep, ← List.cons_append, asked]

theorem mem_askedRequests {as : List Action} {id : ℤ} {o : Outgoing} {kind : RequestKind}
    (h : (id, o) ∈ asked cfg as) (hkind : o.kind = .ok kind) :
    { requestId := id, kind := kind } ∈ askedRequests cfg as :=
  List.mem_filterMap.2 ⟨_, h, by rw [toRequest?, hkind]; rfl⟩

/-! ### Ids -/

theorem dead_of_step {a : Action} (hc : Consistent c) (hstep : c.step a = some c')
    (hdead : c.dead = true) : c'.dead = true := by
  have hreceive : (c.receive a).dead = c.dead := by cases a <;> rfl
  exact keeps_of_moves (I := fun c => c.dead = true) (moves_of_step hc (.all c a) hstep)
    (hc.receive a) (hreceive.trans hdead) fun _ h hm => dead_of_move hm h

theorem idCounter_le_unary (halive : c.dead = false) (kind : Outgoing) (expect : Expect)
    (signal : Signal) : c.idCounter + 1 ≤ (c.unary kind expect signal).idCounter := by
  unfold unary
  rw [if_neg (Bool.eq_false_iff.1 halive)]
  cases signal with
  | none | live => exact le_rfl
  | aborted reason =>
    have hcancel := idCounter_le_cancelUnary
      (c.register (.unary expect) (.unary .pending (decide (Signal.aborted reason = .live))))
      (c.idCounter + 1) (asError reason "the operation was aborted")
    simp only
    split
    · rename_i heq
      rw [show (c.register _ _).idCounter = c.idCounter + 1 from rfl] at heq hcancel
      rw [heq] at hcancel
      exact hcancel
    · rename_i heq
      rw [show (c.register _ _).idCounter = c.idCounter + 1 from rfl] at heq hcancel
      rw [heq] at hcancel
      exact hcancel

theorem le_of_mem_asks {a : Action} {p : ℤ × Outgoing} (hstep : c.step a = some c')
    (hp : p ∈ c.asks a) : p.1 = c.idCounter + 1 ∧ p.1 ≤ c'.idCounter := by
  unfold asks at hp
  split_ifs at hp with hdead
  · cases hp
  have halive := Bool.eq_false_iff.2 hdead
  obtain ⟨o, ho, rfl⟩ := Option.map_eq_some_iff.1 (Option.mem_toList.1 hp)
  refine ⟨rfl, ?_⟩
  cases taken_of_step hstep with
  | append req signal | stats signal => exact idCounter_le_unary halive _ _ _
  | read req signal | subscribe req signal => exact le_rfl
  | permit | slot | close | closeStream | next | collect | abortStream | abortUnary | data
  | socketError | socketClose | drained | sendFailed | writer | drainResumed | drainRejected
  | abortMicrotask | collectStep => cases ho

theorem asked_sorted {as : List Action} (h : (connection cfg).Run (init cfg) as c) :
    ((asked cfg as).map Prod.fst).Pairwise (· < ·) ∧
      ∀ p ∈ asked cfg as, p.1 ≤ c.idCounter := by
  induction h with
  | start =>
    refine ⟨List.pairwise_singleton _ _, fun p hp => ?_⟩
    rw [List.mem_singleton.1 hp]
    exact le_rfl
  | @snoc as a c c' hrun _ hstep ih =>
    obtain ⟨hsorted, hle⟩ := ih
    have hcounter := idCounter_le_of_step (consistent_of_run hrun) hstep
    rw [asked_snoc hrun hstep]
    constructor
    · rw [List.map_append]
      refine List.pairwise_append.2 ⟨hsorted, ?_, fun id hid id' hid' => ?_⟩
      · unfold asks
        split_ifs
        · exact .nil
        · cases a.outgoing? with
          | none => exact .nil
          | some o => exact List.pairwise_singleton _ _
      · obtain ⟨p, hp, rfl⟩ := List.mem_map.1 hid
        obtain ⟨q, hq, rfl⟩ := List.mem_map.1 hid'
        have := hle p hp
        have := (le_of_mem_asks hstep hq).1
        omega
    · intro p hp
      rcases List.mem_append.1 hp with hp | hp
      · exact (hle p hp).trans hcounter
      · exact (le_of_mem_asks hstep hp).2

/-- A request that comes earlier in a list of requests. -/
abbrev Earlier (r r' : WireRequest) : Prop := r.requestId < r'.requestId

instance : Std.Antisymm Earlier := ⟨fun _ _ h h' => absurd (h.trans h') (lt_irrefl _)⟩

theorem askedRequests_sorted {as : List Action} (h : (connection cfg).Run (init cfg) as c) :
    (askedRequests cfg as).Pairwise Earlier := by
  refine List.Pairwise.filterMap toRequest? (fun p q hlt r hr r' hr' => ?_)
    (List.pairwise_map.1 (asked_sorted h).1)
  obtain ⟨kind, -, rfl⟩ := Option.map_eq_some_iff.1 hr
  obtain ⟨kind', -, rfl⟩ := Option.map_eq_some_iff.1 hr'
  exact hlt

/-! ### What lines up -/

/-- What lines up was asked for. -/
structure Genuine (as : List Action) (c : Conn cfg) : Prop where
  senders : c.dead = false → ∀ s ∈ c.inflight.line, (s.id, s.outgoing) ∈ asked cfg as
  slots : ∀ p ∈ c.queueSlots.line, p.2.request ∈ askedRequests cfg as
  pushed : ∀ f ∈ c.wire.pushedOutbound, f.request ∈ askedRequests cfg as

theorem Genuine.init : Genuine [] (init cfg) := by
  refine ⟨fun _ s hs => ?_, fun p hp => (by cases hp), fun f hf => (by cases hf)⟩
  rw [show (Conn.init cfg).inflight = (Semaphore.new cfg.maxInflightRequests).acquire
    { id := 1, type := .hello, outgoing := .hello cfg.authToken } from rfl,
    Semaphore.line_acquire] at hs
  rw [List.mem_singleton.1 hs]
  exact List.mem_cons_self

theorem Genuine.step {as : List Action} {a : Action}
    (hrun : (connection cfg).Run (Conn.init cfg) as c) (h : Genuine as c)
    (hstep : c.step a = some c') : Genuine (as ++ [a]) c' := by
  have hasked := asked_snoc hrun hstep
  have hmem : ∀ {r}, r ∈ askedRequests cfg as → r ∈ askedRequests cfg (as ++ [a]) := fun hr => by
    rw [askedRequests, hasked, List.filterMap_append]
    exact List.mem_append_left _ hr
  have halive : c'.dead = false → c.dead = false := fun hdead' =>
    Bool.eq_false_iff.2 fun hdead =>
      Bool.eq_false_iff.1 hdead' (dead_of_step (consistent_of_run hrun) hstep hdead)
  have hsenders : c'.dead = false → ∀ s ∈ c.inflight.line,
      (s.id, s.outgoing) ∈ asked cfg (as ++ [a]) := fun hdead s hs => by
    rw [hasked]
    exact List.mem_append_left _ (h.senders (halive hdead) s hs)
  have hslots : ∀ p ∈ c.queueSlots.line, p.2.request ∈ askedRequests cfg (as ++ [a]) :=
    fun p hp => hmem (h.slots p hp)
  have hpushed : ∀ f ∈ c.wire.pushedOutbound, f.request ∈ askedRequests cfg (as ++ [a]) :=
    fun f hf => hmem (h.pushed f hf)
  -- what lines up after the step lined up before it or is the request that is entered
  cases sends_of_step hstep with
  | rests rests =>
    exact ⟨by rwa [rests.inflight], by rwa [rests.slots], by rwa [rests.pushed]⟩
  | jams asked unfit inflight slots pushed =>
    exact ⟨by rwa [inflight], by rwa [slots], by rwa [pushed]⟩
  | @enters _ s asks id_eq inflight slots pushed pending =>
    refine ⟨fun hdead s' hs' => ?_, by rwa [slots], by rwa [pushed]⟩
    rw [inflight] at hs'
    rcases List.mem_append.1 hs' with hs' | hs'
    · exact hsenders hdead s' hs'
    · rw [List.mem_singleton.1 hs', hasked, Conn.asks, if_neg (Bool.eq_false_iff.1 (halive hdead)),
        asks, id_eq]
      exact List.mem_append_right _ List.mem_cons_self
  | @lines s frame l₁ l₂ requestId kind line inflight turn slots pushed alive pending =>
    have hmid : s ∈ c.inflight.line := by
      rw [line]
      exact List.mem_append_right _ List.mem_cons_self
    refine ⟨fun hdead s' hs' => hsenders hdead s' ?_, fun p hp => ?_, by rwa [pushed]⟩
    · rw [inflight] at hs'
      rw [line]
      exact ((List.sublist_cons_self _ _).append_left _).subset hs'
    · rw [slots] at hp
      rcases List.mem_append.1 hp with hp | hp
      · exact hslots p hp
      · rw [List.mem_singleton.1 hp]
        have heq : frame.request = { requestId := s.id, kind := frame.request.kind } := by
          rw [← requestId]
        rw [heq]
        exact mem_askedRequests (hsenders alive s hmid) kind
  | lapses line inflight slots pushed gone pending =>
    refine ⟨fun hdead s' hs' => hsenders hdead s' ?_, by rwa [slots], by rwa [pushed]⟩
    rw [inflight] at hs'
    rw [line]
    exact ((List.sublist_cons_self _ _).append_left _).subset hs'
  | @pushes s frame l₁ l₂ line slots turn inflight pushed pending =>
    refine ⟨by rwa [inflight], fun p hp => hslots p ?_, fun f hf => ?_⟩
    · rw [slots] at hp
      rw [line]
      exact ((List.sublist_cons_self _ _).append_left _).subset hp
    · rw [pushed] at hf
      rcases List.mem_append.1 hf with hf | hf
      · exact hpushed f hf
      · rw [List.mem_singleton.1 hf]
        refine hslots (s, frame) ?_
        rw [line]
        exact List.mem_append_right _ List.mem_cons_self
  | drops line slots inflight pushed dead pending =>
    refine ⟨by rwa [inflight], fun p hp => hslots p ?_, by rwa [pushed]⟩
    rw [slots] at hp
    rw [line]
    exact ((List.sublist_cons_self _ _).append_left _).subset hp

theorem genuine_of_run {as : List Action} (h : (connection cfg).Run (init cfg) as c) :
    Genuine as c := by
  induction h with
  | start => exact .init
  | snoc hrun _ hstep ih => exact .step hrun ih hstep

/-- Pushed requests were asked for, none is pushed twice, and in turn they are pushed in the order
of their calls. -/
theorem pushed_asked {as : List Action} (h : (connection cfg).Run (init cfg) as c) :
    (c.wire.pushedOutbound.map Frame.request).Subperm (askedRequests cfg as) ∧
      ((connection cfg).RunWith InTurn (init cfg) as c →
        (c.wire.pushedOutbound.map Frame.request).Sublist (askedRequests cfg as)) := by
  have hids : c.wire.pushedOutbound.map Frame.id =
      (c.wire.pushedOutbound.map Frame.request).map WireRequest.requestId := by
    rw [List.map_map]
    rfl
  have hnodup : (c.wire.pushedOutbound.map Frame.request).Nodup := by
    have hlineup := (List.nodup_append'.1 (lineup_nodup h)).1
    rw [hids] at hlineup
    exact hlineup.of_map _
  have hsubset : c.wire.pushedOutbound.map Frame.request ⊆ askedRequests cfg as := fun r hr => by
    obtain ⟨f, hf, rfl⟩ := List.mem_map.1 hr
    exact (genuine_of_run h).pushed f hf
  have hsubperm := List.subperm_of_subset hnodup hsubset
  refine ⟨hsubperm, fun hturn => ?_⟩
  have hsorted := (List.pairwise_append.1 (lineup_sorted hturn)).1
  rw [hids] at hsorted
  exact List.sublist_of_subperm_of_pairwise hsubperm (r := Earlier)
    (List.pairwise_map (f := WireRequest.requestId).1 hsorted)
    (askedRequests_sorted h)

/-- **What the server reads.**  The bytes handed to the socket decode, however they are cut into
chunks, to whole frames and these to requests: what arrives are requests that were asked for, none
of them twice and in turn in the order of their calls, and cancels. -/
theorem server_receives {as : List Action} {chunks : List Bytes} (hmax : cfg.maxFrameLen < 2 ^ 32)
    (h : (connection cfg).Run (init cfg) as c) (hchunks : chunks.flatten = c.wire.bytes) :
    ∃ (bodies : List Bytes) (sent : List WireRequest),
      (FrameDecoder.new cfg.maxFrameLen).feed chunks = (bodies, none) ∧
      bodies.map decodeRequest = (sent.map fun r => .ok r.received) ∧
      (sent.filter fun r => !isCancel r).Subperm (askedRequests cfg as) ∧
      ((connection cfg).RunWith InTurn (init cfg) as c →
        (sent.filter fun r => !isCancel r).Sublist (askedRequests cfg as)) := by
  have hfifo := (writing_of_run h).fifo
  -- the requests written come before those that are still queued
  have hwritten : ((c.wire.written.map Frame.request).filter fun r => !isCancel r).Sublist
      (c.wire.pushedOutbound.map Frame.request) := by
    rw [List.filter_map, hfifo.outbound, List.map_append]
    exact List.sublist_append_left _ _
  obtain ⟨hsubperm, hsublist⟩ := pushed_asked h
  refine ⟨_, c.wire.written.map Frame.request, hfifo.feed hmax hchunks, ?_,
    hwritten.subperm.trans hsubperm, fun hturn => hwritten.trans (hsublist hturn)⟩
  rw [List.map_map, List.map_map]
  refine List.map_congr_left fun frame _ => decodeRequest_encodeRequest_received _ ?_
  have hlen := (writeFrame_eq_ok frame.encoded).1
  have : 2 ^ 32 ≤ maxArrayLength := by decide
  omega

end Conn

end

namespace Conn

section

attribute [local instance] utf8Codec

/-- The server reads three of the four requests asked for, in turn, and a cancel. -/
theorem queue_received : ∃ (c : Conn twoPermits) (bodies : List Bytes) (sent : List WireRequest),
    (connection twoPermits).RunWith InTurn (init twoPermits) queueActions c ∧
      (FrameDecoder.new twoPermits.maxFrameLen).feed [c.wire.bytes] = (bodies, none) ∧
      bodies.length = 4 ∧ bodies.map decodeRequest = (sent.map fun r => .ok r.received) ∧
      (askedRequests twoPermits queueActions).length = 4 ∧
      (sent.filter fun r => !isCancel r).Sublist (askedRequests twoPermits queueActions) := by
  have hexec : (((connection twoPermits).restrict fun c a => decide (InTurn c a)).exec
      (init twoPermits) queueActions).any (fun c => decide (((FrameDecoder.new
        twoPermits.maxFrameLen).feed [c.wire.bytes]).1.length = 4)) = true := by decide +kernel
  obtain ⟨c, hrun, hlen⟩ := Machine.exists_runWith_of_exec (fun _ _ => of_decide_eq_true) hexec
  obtain ⟨bodies, sent, hfeed, hdecode, -, hsublist⟩ :=
    server_receives (by decide) hrun.run List.flatten_singleton
  have hlen := of_decide_eq_true hlen
  rw [hfeed] at hlen
  exact ⟨c, bodies, sent, hrun, hfeed, hlen, hdecode, by decide +kernel, hsublist hrun⟩

end

end Conn

end Tephra
