import Tephra.Conn.Heard
import Tephra.Meaning

/-!
# A server at the other end

A call is encoded, framed, queued and written; a server reads it off the wire and does what it asks
for; the responses come back in any chunks, among those to others.

* `Service` : a server, by what it does with the demands it decodes.
* `Service.demand_eq` : it takes the call as it was meant.
* `Service.exists_life` : and what happens to the call are its responses.
-/

namespace Tephra

open Lib

section

variable [TextCodec] {cfg : Config}

namespace Conn

variable {c : Conn cfg} {t : ℤ}

/-! ### Calls -/

theorem request_new {as : List Action} (h : (connection cfg).Run (init cfg) as c)
    (ht : c.idCounter < t) : c.request t = .new := by
  rcases story_cases h t with ⟨-, hnew⟩ | ⟨_, _, _, -, -, -, hhas⟩
  · exact hnew
  · rw [(consistent_of_run h).calls_new ht] at hhas
    cases hhas

end Conn

/-- The type of the request of a call. -/
def ClientCall.type : ClientCall → PendingType
  | .append _ _ _ => .unary .append
  | .stats _ => .unary .stats
  | .read _ _ _ _ | .readBack _ _ _ _ => .read
  | .subscribe _ _ _ => .subscribe

/-- A call has just made its request on a connection. -/
structure Conn.Made (c : Conn cfg) (call : ClientCall) (id : ℤ) : Prop where
  ran : ∃ as, (connection cfg).Run (Conn.init cfg) as c
  /-- It is on its way. -/
  carries : ∃ kind, call.kind? = .ok kind ∧ c.Carries id kind
  /-- It is made, and maybe aborted already. -/
  request : ∃ (object : Call) (rest : List Happening), call.type.Makes object ∧
    (∀ h ∈ rest, h = .jam ∨ ∃ err alive, h = .abort err alive) ∧
    c.request id = rest.foldl Request.react (Request.new.react (.opened call.type object))
  pos : 0 < id
  le : id ≤ c.idCounter

namespace Client

variable {cl₀ cl cl' : Client cfg} {lane : Lane} {id : ℤ}

theorem made_unary {call : ClientCall} {as : List Action} {c : Conn cfg} {outgoing : Outgoing}
    {expect : Expect} {kind : RequestKind} (hrun : (connection cfg).Run (Conn.init cfg) as c)
    (halive : c.dead = false) (hkind : call.kind? = .ok kind) (houtgoing : outgoing.kind = .ok kind)
    (htype : call.type = .unary expect) (signal : Signal)
    (hran : ∃ as, (connection cfg).Run (Conn.init cfg) as (c.unary outgoing expect signal)) :
    (c.unary outgoing expect signal).Made call (c.idCounter + 1) where
  ran := hran
  carries := ⟨kind, hkind, Conn.carries_unary hrun halive houtgoing expect signal⟩
  request := by
    have hrequest := Conn.request_unary (Conn.consistent_of_run hrun) outgoing expect signal
      (c.idCounter + 1)
    rw [Conn.request_new hrun (by omega)] at hrequest
    unfold Conn.unaryHappenings at hrequest
    rw [if_neg (Bool.eq_false_iff.1 halive), on, if_pos rfl, List.foldl_cons] at hrequest
    rw [htype]
    refine ⟨_, _, ⟨_, rfl⟩, fun h hmem => ?_, hrequest⟩
    cases signal with
    | none | live => cases hmem
    | aborted reason =>
      rw [List.mem_singleton.1 hmem, Conn.ending]
      split_ifs
      · exact .inr ⟨_, _, rfl⟩
      · exact .inl rfl
  pos := by
    have := (Conn.consistent_of_run hrun).counter
    omega
  le := Conn.idCounter_le_unary halive outgoing expect signal

theorem made_stream {call : ClientCall} {as : List Action} {c : Conn cfg} {outgoing : Outgoing}
    {kind : RequestKind} {type : PendingType} {object : Call}
    (hrun : (connection cfg).Run (Conn.init cfg) as c) (hkind : call.kind? = .ok kind)
    (houtgoing : outgoing.kind = .ok kind) (htype : call.type = type) (hmakes : type.Makes object)
    (hran : ∃ as, (connection cfg).Run (Conn.init cfg) as
      ((c.register type object).sendStreamRequest (c.idCounter + 1) outgoing)) :
    ((c.register type object).sendStreamRequest (c.idCounter + 1) outgoing).Made call
      (c.idCounter + 1) where
  ran := hran
  carries := ⟨kind, hkind, Conn.carries_stream hrun houtgoing _ _⟩
  request := by
    have hrequest := Conn.request_register (Conn.consistent_of_run hrun) type object
      (c.idCounter + 1)
    rw [Conn.request_new hrun (by omega), on, if_pos rfl] at hrequest
    rw [htype]
    exact ⟨object, [], hmakes, fun h hmem => (by cases hmem), hrequest⟩
  pos := by
    have := (Conn.consistent_of_run hrun).counter
    omega
  le := le_rfl

/-- A call that is not refused makes its request on the connection of its handle. -/
theorem made_of_call {call : ClientCall} {as : List ClientAction} {c : Conn cfg}
    (hconn : cl₀.Connected) (hrun : (client cfg).Run cl₀ as cl)
    (hcall : cl.call call = (cl', .ok (lane, id))) (hc : cl'.lane? lane = some c) :
    c.Made call id := by
  have hstep : (client cfg).step cl (.call call) = some cl' :=
    congrArg (fun p : Client cfg × Except Err Handle => some p.1) hcall
  -- the call is the last step of a run of its connection
  have hran := lane_of_run hconn (hrun.snoc trivial hstep) hc
  have hlanes : ∀ lane c, cl.lane? lane = some c →
      ∃ as, (connection cfg).Run (Conn.init cfg) as c := fun lane c hc => lane_of_run hconn hrun hc
  cases call with
  | append events condition signal | stats signal =>
    simp only [Client.call, append, stats] at hcall
    obtain ⟨halive, rfl, rfl, hcontrol⟩ := unary_eq_ok hcall
    obtain ⟨as, hrun⟩ := hlanes .control _ rfl
    cases hc.symm.trans (congrArg some hcontrol)
    exact made_unary hrun halive rfl rfl rfl signal hran
  | read q after limit signal | readBack q after limit signal =>
    simp only [Client.call, read, readBack] at hcall
    obtain ⟨c₀, limit', hc₀, hlimit, rfl, hc'⟩ := stream_eq_ok hcall
    obtain ⟨as, hrun⟩ := hlanes lane c₀ hc₀
    cases hc.symm.trans hc'
    have hmakes : PendingType.read.Makes (.read (ReadStream.new signal)) := ⟨signal, rfl⟩
    refine made_stream hrun ?_ rfl rfl hmakes hran
    rw [ClientCall.kind?, hlimit]
    rfl
  | subscribe q after signal =>
    simp only [Client.call, subscribe] at hcall
    obtain ⟨c₀, limit', hc₀, hlimit, rfl, hc'⟩ := stream_eq_ok hcall
    obtain ⟨as, hrun⟩ := hlanes lane c₀ hc₀
    cases hc.symm.trans hc'
    have hmakes : PendingType.subscribe.Makes (.subscribe (BaseStream.new signal)) := ⟨signal, rfl⟩
    exact made_stream hrun rfl rfl rfl hmakes hran

end Client

/-! ### A server -/

/-- A server at the other end of connection `c`, which does with a demand what `serves` says.  It
has read request `id` off the wire, and answers it, among others. -/
structure Service (serves : Demand → List ResponseKind → Prop) (c : Conn cfg) (id : ℤ) where
  /-- What was written arrives in some chunks. -/
  chunks : List Bytes
  arrives : chunks.flatten = c.wire.bytes
  request : WireRequest
  decodes : ∃ body ∈ ((FrameDecoder.new cfg.maxFrameLen).feed chunks).1,
    decodeRequest body = .ok request
  requestId : request.requestId = id
  demand : Demand
  asks : request.kind.demand? = some demand
  /-- All its responses, and their frames. -/
  responses : List WireResponse
  written : List Bytes
  wellFormed : ∀ response ∈ responses, response.WellFormed
  writes : List.Forall₂ (fun response bytes =>
    writeFrame (encodeResponse response) cfg.maxFrameLen = .ok bytes) responses written
  served : serves demand (answersTo id responses)

namespace Conn

variable {c : Conn cfg}

theorem pushed_pos {as : List Action} (h : (connection cfg).Run (init cfg) as c) {f : Frame cfg}
    (hf : f ∈ c.wire.pushedOutbound) : 0 < f.request.requestId := by
  obtain ⟨⟨id, o⟩, hmem, hrequest⟩ := List.mem_filterMap.1 ((genuine_of_run h).pushed f hf)
  obtain ⟨kind, -, heq⟩ := Option.map_eq_some_iff.1 hrequest
  rw [← heq]
  rcases List.mem_cons.1 hmem with hhello | hmem
  · cases hhello
    exact Int.one_pos
  · have hlt := (List.pairwise_cons.1 (asked_sorted h).1).1 id (List.mem_map_of_mem hmem)
    exact Int.one_pos.trans hlt

end Conn

namespace Service

open Conn

variable {c₀ c : Conn cfg} {call : ClientCall} {id : ℤ}
variable {serves : Demand → List ResponseKind → Prop}

/-- The request that the server has read is that of a frame that was queued. -/
theorem exists_frame {as : List Action} (h : (connection cfg).Run (init cfg) as c)
    (hmax : cfg.maxFrameLen < 2 ^ 32) (hcounter : c.idCounter < 2 ^ 64)
    (srv : Service serves c id) :
    ∃ f ∈ c.wire.pushedOutbound, f.request.requestId = id ∧ f.request.received = srv.request := by
  have hfifo := (writing_of_run h).fifo
  obtain ⟨body, hbody, hdecode⟩ := srv.decodes
  rw [hfifo.feed hmax srv.arrives] at hbody
  obtain ⟨f, hf, rfl⟩ := List.mem_map.1 hbody
  have hlen : (encodeRequest f.request).length ≤ maxArrayLength := by
    have hlen := (writeFrame_eq_ok f.encoded).1
    have : 2 ^ 32 ≤ maxArrayLength := by decide
    omega
  rw [decodeRequest_encodeRequest_received f.request hlen] at hdecode
  have hreceived : f.request.received = srv.request := Except.ok.inj hdecode
  have hasks := srv.asks
  have hid := srv.requestId
  rw [← hreceived] at hasks hid
  -- what asks for something is no cancel
  have hpushed : f ∈ c.wire.pushedOutbound := by
    rw [hfifo.outbound]
    refine List.mem_append_left _ (List.mem_filter.2 ⟨hf, ?_⟩)
    unfold Frame.isCancel
    split
    · rename_i req hkind
      rw [WireRequest.received, hkind] at hasks
      cases hasks
    · rfl
  refine ⟨f, hpushed, ?_, hreceived⟩
  have hle := pushed_le_of_run h f hpushed
  have hpos := pushed_pos h hpushed
  rw [← hid]
  exact (u64_of_lt hpos.le (hle.trans_lt hcounter)).symm

/-- The server has read the request of the call, and takes it as it was meant. -/
theorem demand_eq {as : List Action} (hmade : c₀.Made call id)
    (h : (connection cfg).Run c₀ as c) (hclear : call.Clear) (hmax : cfg.maxFrameLen < 2 ^ 32)
    (hcounter : c.idCounter < 2 ^ 64) (srv : Service serves c id) :
    call.demand? = .ok srv.demand := by
  obtain ⟨as₀, hrun₀⟩ := hmade.ran
  obtain ⟨kind, hkind, hcarries⟩ := hmade.carries
  obtain ⟨f, hf, hid, hreceived⟩ := srv.exists_frame (hrun₀.trans h) hmax hcounter
  have hsame := (carries_of_run (consistent_of_run hrun₀) hcarries h).pushed f hf hid
  obtain ⟨demand, hdemand, hasked⟩ := demand_kind hkind
  have hasks := srv.asks
  rw [← hreceived, WireRequest.received, hsame, (hclear kind hkind).received, hasked] at hasks
  rw [hdemand, Option.some.inj hasks]

/-- What has become of a call: all that happened to it, of which the responses in its life are those
of the server from the first on. -/
theorem exists_life {as : List Action} (hmade : c₀.Made call id) (halive : c₀.dead = false)
    (h : (connection cfg).Run c₀ as c) (hmax : cfg.maxFrameLen < 2 ^ 32)
    (srv : Service serves c id)
    (hreceived : c₀.decoder.buffer ++ (received as).flatten <+: srv.written.flatten) :
    ∃ object hs, call.type.Makes object ∧
      c.request id = hs.foldl Request.react (Request.new.react (.opened call.type object)) ∧
      responsesIn ((Request.new.react (.opened call.type object)).life hs) <+:
        answersTo id srv.responses ∧
      ∀ alive, .close alive ∈ hs → .closeStream id ∈ as := by
  obtain ⟨as₀, hrun₀⟩ := hmade.ran
  obtain ⟨object, rest, hmakes, hrest, hrequest⟩ := hmade.request
  obtain ⟨future, hfuture⟩ := hreceived
  rw [List.append_assoc] at hfuture
  obtain ⟨hdecoder, -⟩ := incomplete_of_run hrun₀
  obtain ⟨hbad, hvalues⟩ := values_writeFrames hmax (List.forall₂_map_left_iff.2 srv.writes)
  rw [← hfuture, ← hdecoder] at hbad hvalues
  -- what the server writes is what is read
  have hdecodes : ∀ r ∈ srv.responses, decodeResponse (encodeResponse r) = .ok r := fun r hr => by
    refine decodeResponse_encodeResponse (srv.wellFormed r hr) ?_
    exact (length_le_of_written srv.writes r hr).trans (by unfold maxArrayLength; omega)
  -- the call itself brings no response
  have hnone : responsesIn rest = [] := responsesIn_eq_nil fun response alive hmem => by
    rcases hrest _ hmem with heq | ⟨err, alive', heq⟩ <;> cases heq
  have hstart : Heard c₀ id ((received as).flatten ++ future) srv.responses
      (Request.new.react (.opened call.type object)) rest :=
    ⟨hrequest, fun _ => ⟨[], srv.responses, rfl, ⟨hbad, hvalues⟩, hnone⟩,
      fun hdead => by cases halive.symm.trans hdead⟩
  have hheard := heard_of_run (consistent_of_run hrun₀) h halive hmade.pos hmade.le hdecodes rfl
    hstart
  refine ⟨object, _, hmakes, hheard.reacts, hheard.life, fun alive hmem => ?_⟩
  rcases List.mem_append.1 hmem with hmem | hmem
  · rcases hrest _ hmem with heq | ⟨err, alive', heq⟩ <;> cases heq
  · exact closed_of_mem_observe h hmem

end Service

end

end Tephra
