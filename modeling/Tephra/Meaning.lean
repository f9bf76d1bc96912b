import Tephra.Cursor
import Tephra.Lib.Clause

/-!
# What a call means

A call asks a server for something to do with the events of its log.  The public values say what,
and so does the request that arrives.

* `Demand` : what is asked for, whoever says so.
* `ClientCall.demand?` : of a call, by the documentation of the public types.
* `RequestKind.demand?` : of a request, by the comments of the schema.
* `meaning_kept` : the frame of a call decodes to a request for just what the call asks for.
-/

namespace Tephra

open Lib

/-! ### Selecting events -/

/-- The clause of a query item. -/
def QueryItem.clause (item : QueryItem) : Clause JsString :=
  { types := item.types, tags := item.tags }

/-- A query selects an event by the catch-all or by one of its items. -/
def Query.Selects (q : Query) (e : Event) : Prop :=
  q.matchAll = true ∨ ∃ item ∈ q.items, item.clause.Selects e.type e.tags

instance (q : Query) (e : Event) : Decidable (q.Selects e) := inferInstanceAs (Decidable (_ ∨ _))

/-- The clause of a wire query item. -/
def WireQueryItem.clause (item : WireQueryItem) : Clause JsString :=
  { types := item.types, tags := item.tags }

/-- A wire query selects an event by the catch-all or by one of its items. -/
def WireQuery.Selects (q : WireQuery) (e : Event) : Prop :=
  q.all = true ∨ ∃ item ∈ q.items, item.clause.Selects e.type e.tags

instance (q : WireQuery) (e : Event) : Decidable (q.Selects e) :=
  inferInstanceAs (Decidable (_ ∨ _))

theorem queryToWire_selects (q : Query) (e : Event) : (queryToWire q).Selects e ↔ q.Selects e := by
  unfold queryToWire
  by_cases hall : q.matchAll = true
  · rw [if_pos hall]
    exact iff_of_true (.inl rfl) (.inl hall)
  · rw [if_neg hall]
    constructor
    · rintro (h | ⟨item, hitem, h⟩)
      · cases h
      · obtain ⟨item', hitem', rfl⟩ := List.mem_map.1 hitem
        exact .inr ⟨item', hitem', h⟩
    · rintro (h | ⟨item, hitem, h⟩)
      · exact absurd h hall
      · exact .inr ⟨_, List.mem_map_of_mem hitem, h⟩

/-! ### Demands -/

/-- The events of a log that are after a position and selected. -/
def selectedAfter (selects : Event → Bool) (after : ℤ) (log : List SequencedEvent) :
    List SequencedEvent :=
  log.filter fun e => after < e.position && selects e.event

/-- The events of a log that are before a position and selected. -/
def selectedBefore (selects : Event → Bool) (before : ℤ) (log : List SequencedEvent) :
    List SequencedEvent :=
  log.filter fun e => e.position < before && selects e.event

/-- At most as many as a limit says. -/
def capped (limit : Option ℤ) (es : List SequencedEvent) : List SequencedEvent :=
  match limit with
  | none => es
  | some limit => es.take limit.toNat

/-- On which logs an append is refused: for an event after its boundary, or for one anywhere. -/
structure Refusal where
  conflict : List SequencedEvent → Bool
  alreadyExists : List SequencedEvent → Bool

/-- An append without condition is never refused. -/
def Refusal.never : Refusal where
  conflict _ := false
  alreadyExists _ := false

/-- What is asked for. -/
inductive Demand
  /-- To append events, unless that is refused. -/
  | append (events : List Event) (refusal : Refusal)
  | stats
  /-- To answer with these events, in this order. -/
  | read (answer : List SequencedEvent → List SequencedEvent)
  /-- To deliver these events, also while the log grows. -/
  | subscribe (covers : List SequencedEvent → List SequencedEvent)

/-! ### What a call asks for -/

/-- When a condition refuses an append. -/
def AppendCondition.refusal (condition : AppendCondition) : Refusal where
  conflict log := log.any fun e =>
    condition.after < e.position && condition.failIfEventsMatch.Selects e.event
  alreadyExists log := condition.failIfExists.any fun q => log.any fun e => q.Selects e.event

/-- What a call asks for, unless its limit is not an integer. -/
def ClientCall.demand? : ClientCall → Except Err Demand
  | .append events condition _ =>
    .ok (.append events ((condition.map AppendCondition.refusal).getD .never))
  | .stats _ => .ok .stats
  | .read q after limit _ =>
    (toBigIntLimit limit).map fun limit => .read fun log =>
      capped limit (selectedAfter (fun e => q.Selects e) (after.getD Position.zero) log)
  | .readBack q before limit _ =>
    (toBigIntLimit limit).map fun limit => .read fun log =>
      capped limit (selectedBefore (fun e => q.Selects e) (before.getD Position.max) log).reverse
  | .subscribe q after _ =>
    .ok (.subscribe (selectedAfter (fun e => q.Selects e) (after.getD Position.zero)))

/-- The answer to a call that reads. -/
def ClientCall.answer (call : ClientCall) (log : List SequencedEvent) : List SequencedEvent :=
  match call.demand? with
  | .ok (.read answer) => answer log
  | _ => []

/-! ### What a request asks for -/

/-- When a wire condition refuses an append. -/
def WireAppendCondition.refusal (condition : WireAppendCondition) : Refusal where
  conflict log := log.any fun e =>
    condition.after < e.position && condition.failIfEventsMatch.Selects e.event
  alreadyExists log := condition.failIfExists.any fun q => log.any fun e => q.Selects e.event

/-- The answer to a read. -/
def WireReadRequest.answer (req : WireReadRequest) (log : List SequencedEvent) :
    List SequencedEvent :=
  capped req.limit
    (if req.reverse then (selectedBefore (fun e => req.query.Selects e) req.after log).reverse
    else selectedAfter (fun e => req.query.Selects e) req.after log)

/-- The event that a server has for a wire event. -/
def WireEvent.stored (w : WireEvent) : Event := .fromServer w.type w.tags w.payload

/-- What a request asks for, if it is about the log. -/
def RequestKind.demand? : RequestKind → Option Demand
  | .append req => some (.append (req.events.map WireEvent.stored)
      ((req.condition.map WireAppendCondition.refusal).getD .never))
  | .stats => some .stats
  | .read req => some (.read req.answer)
  | .subscribe req =>
    some (.subscribe (selectedAfter (fun e => req.query.Selects e) req.after))
  | .cancel _ | .hello _ | .none => .none

/-! ### The request of a call -/

/-- The request a call makes. -/
def ClientCall.kind? : ClientCall → Except Err RequestKind
  | .append events condition _ => .ok (.append
      { events := events.map eventToWire, condition := condition.map conditionToWire })
  | .stats _ => .ok .stats
  | .read q after limit _ => (toBigIntLimit limit).map fun limit => .read
      { query := queryToWire q, after := after.getD Position.zero, limit := limit,
        reverse := false }
  | .readBack q before limit _ => (toBigIntLimit limit).map fun limit => .read
      { query := queryToWire q, after := before.getD Position.max, limit := limit, reverse := true }
  | .subscribe q after _ =>
    .ok (.subscribe { query := queryToWire q, after := after.getD Position.zero })

theorem decide_queryToWire_selects (q : Query) :
    (fun e => decide ((queryToWire q).Selects e)) = fun e => decide (q.Selects e) := by
  funext e
  exact decide_eq_decide.2 (queryToWire_selects q e)

theorem conditionToWire_refusal (condition : AppendCondition) :
    (conditionToWire condition).refusal = condition.refusal := by
  have hconflict : (conditionToWire condition).refusal.conflict = condition.refusal.conflict := by
    funext log
    refine congrArg (List.any log) (funext fun e => ?_)
    exact congrArg (decide (condition.after < e.position) && ·)
      (congrFun (decide_queryToWire_selects condition.failIfEventsMatch) e.event)
  have hexists : (conditionToWire condition).refusal.alreadyExists =
      condition.refusal.alreadyExists := by
    funext log
    simp only [WireAppendCondition.refusal, AppendCondition.refusal, conditionToWire,
      Option.any_map, queryToWire_selects]
  exact congrArg₂ Refusal.mk hconflict hexists

theorem demand_kind {call : ClientCall} {kind : RequestKind} (h : call.kind? = .ok kind) :
    ∃ demand, call.demand? = .ok demand ∧ kind.demand? = some demand := by
  cases call with
  | append events condition signal =>
    cases h
    refine ⟨_, rfl, congrArg some (congrArg₂ Demand.append ?_ ?_)⟩
    · rw [List.map_map]
      exact List.map_id events
    · rw [Option.map_map]
      exact congrArg (fun f : AppendCondition → Refusal => (condition.map f).getD .never)
        (funext conditionToWire_refusal)
  | stats signal =>
    cases h
    exact ⟨_, rfl, rfl⟩
  | read q after limit signal | readBack q after limit signal =>
    simp only [ClientCall.kind?] at h
    simp only [ClientCall.demand?]
    cases hlimit : toBigIntLimit limit with
    | error err =>
      rw [hlimit] at h
      cases h
    | ok limit' =>
      rw [hlimit] at h
      cases h
      refine ⟨_, rfl, congrArg some (congrArg Demand.read ?_)⟩
      -- the server reads the query as the client wrote it
      funext log
      simp only [WireReadRequest.answer, decide_queryToWire_selects]
      rfl
  | subscribe q after signal =>
    cases h
    refine ⟨_, rfl, congrArg some (congrArg Demand.subscribe ?_)⟩
    rw [decide_queryToWire_selects]

/-! ### What arrives -/

section

variable [TextCodec] {cfg : Config}

/-- What a server can make of a call arrives as it is: its strings survive the text codec, and its
cursor and limit are unsigned 64-bit integers. -/
def ClientCall.Clear (call : ClientCall) : Prop := ∀ kind, call.kind? = .ok kind → kind.WellFormed

theorem RequestKind.WellFormed.received {kind : RequestKind} (h : kind.WellFormed) :
    kind.received = kind := by
  have hrequest : WireRequest.WellFormed { requestId := 0, kind := kind } :=
    ⟨⟨le_rfl, by norm_num⟩, h⟩
  exact congrArg WireRequest.kind hrequest.received

namespace Client

variable {cl₀ cl cl' cl'' : Client cfg} {lane : Lane} {id : ℤ}

theorem carries_kind {call : ClientCall}
    (hlanes : ∀ lane c, cl.lane? lane = some c → ∃ as, (connection cfg).Run (Conn.init cfg) as c)
    (h : cl.call call = (cl', .ok (lane, id))) :
    ∃ kind c, call.kind? = .ok kind ∧ cl'.lane? lane = some c ∧ c.Carries id kind := by
  cases call with
  | append events condition signal | stats signal =>
    simp only [Client.call, append, stats] at h
    obtain ⟨halive, rfl, rfl, hcontrol⟩ := unary_eq_ok h
    obtain ⟨as, hrun⟩ := hlanes .control _ rfl
    exact ⟨_, _, rfl, congrArg some hcontrol, Conn.carries_unary hrun halive rfl _ signal⟩
  | read q after limit signal | readBack q after limit signal =>
    simp only [Client.call, read, readBack] at h
    obtain ⟨c, limit', hc, hlimit, rfl, hc'⟩ := stream_eq_ok h
    obtain ⟨as, hrun⟩ := hlanes lane c hc
    refine ⟨_, _, ?_, hc', Conn.carries_stream hrun rfl _ _⟩
    rw [ClientCall.kind?, hlimit]
    rfl
  | subscribe q after signal =>
    simp only [Client.call, subscribe] at h
    obtain ⟨c, limit', hc, hlimit, rfl, hc'⟩ := stream_eq_ok h
    obtain ⟨as, hrun⟩ := hlanes lane c hc
    exact ⟨_, _, rfl, hc', Conn.carries_stream hrun rfl _ _⟩

/-- **A call means the same to the server.**  In every run of a client, every frame that is ever
queued for a call decodes to its request as it arrives; and unless a string, cursor or limit of the
call is one that cannot arrive as it is, this request asks for the very thing the call asks for,
whatever the log. -/
theorem meaning_kept {call : ClientCall} {as as' : List ClientAction} {c : Conn cfg}
    {frame : Frame cfg} (hconn : cl₀.Connected) (hrun : (client cfg).Run cl₀ as cl)
    (hcall : cl.call call = (cl', .ok (lane, id))) (hrun' : (client cfg).Run cl' as' cl'')
    (hlane : cl''.lane? lane = some c) (hframe : frame ∈ c.wire.pushedOutbound)
    (hid : frame.request.requestId = id) (hlen : frame.bytes.length ≤ maxArrayLength) :
    ∃ kind demand, call.kind? = .ok kind ∧ call.demand? = .ok demand ∧
      decodeRequest (frame.bytes.drop 4) =
        .ok { requestId := receivedBigInt id, kind := kind.received } ∧
      (call.Clear → kind.received.demand? = some demand) := by
  obtain ⟨kind, c₁, hkind, hc₁, hcarries⟩ :=
    carries_kind (fun lane c hc => lane_of_run hconn hrun hc) hcall
  -- until the frame is queued, the connection of the call runs by itself
  have hstep : (client cfg).step cl (.call call) = some cl' :=
    congrArg (fun p : Client cfg × Except Err Handle => some p.1) hcall
  obtain ⟨as₁, hrun₁⟩ := lane_of_run hconn (hrun.snoc trivial hstep) hc₁
  have hruns := lanesRun_of_run hrun' lane
  rw [hc₁, hlane] at hruns
  cases hruns with
  | some hruns =>
    obtain ⟨as₂, hrun₂⟩ := hruns
    have hpushed := (Conn.carries_of_run (Conn.consistent_of_run hrun₁) hcarries hrun₂).pushed frame
      hframe hid
    obtain ⟨demand, hdemand, hasks⟩ := demand_kind hkind
    refine ⟨kind, demand, hkind, hdemand, ?_, ?_⟩
    · rw [frame.decodeRequest_drop hlen, WireRequest.received, hid, hpushed]
    · intro hclear
      rw [(hclear kind hkind).received]
      exact hasks

end Client

end

namespace Client

section

open Conn (onePermit connectActions)

attribute [local instance] utf8Codec

/-- The newest event with a tag. -/
def readNewest : ClientCall :=
  .readBack (Query.ofItems [{ types := [], tags := [js "a"] }]) none (some (.number (some 1))) .none

/-- An event with some tags. -/
def eventAt (position : ℤ) (tags : List JsString) : SequencedEvent :=
  { position := position, event := { type := js "order", tags := tags, payload := [] } }

/-- The frame of a call for the newest event with a tag decodes to a request for it. -/
theorem newest_asked : ∃ (cl cl' cl'' : Client onePermit) (frame : Frame onePermit)
    (request : WireRequest) (answer : List SequencedEvent → List SequencedEvent),
    cl.call readNewest = (cl', .ok (.control, 2)) ∧ (client onePermit).Run cl' queueing cl'' ∧
      frame ∈ cl''.control.wire.pushedOutbound ∧ frame.request.requestId = 2 ∧
      decodeRequest (frame.bytes.drop 4) = .ok request ∧
      request.kind.demand? = some (.read answer) ∧
      answer [eventAt 1 [js "a"], eventAt 2 [js "a", js "b"], eventAt 3 [js "b"]] =
        [eventAt 2 [js "a", js "b"]] := by
  have hexec : ((connection onePermit).exec (Conn.init onePermit) connectActions).any
      (queues readNewest (Position.max, some 1)) = true := by decide +kernel
  obtain ⟨cl, cl', cl'', frame, hconn, hcall, hrun, hframe, hid, hlen, -⟩ := exists_queued hexec
  obtain ⟨kind, demand, hkind, hdemand, hdecode, hasks⟩ :=
    meaning_kept hconn .start hcall hrun rfl hframe hid hlen
  cases hkind
  cases hdemand
  have hclear : readNewest.Clear := by
    intro kind hkind
    cases hkind
    refine ⟨fun item hitem => ?_, by decide, ?_⟩
    · rw [List.mem_singleton.1 hitem]
      exact ⟨by decide +kernel, by decide +kernel⟩
    · rintro limit ⟨⟩
      decide
  exact ⟨cl, cl', cl'', frame, _, _, hcall, hrun, hframe, hid, hdecode, hasks hclear, by decide⟩

end

end Client

end Tephra
