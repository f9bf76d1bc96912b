import Tephra.Meaning

/-!
# Queries find what was appended

An event and a query go to the server as strings that the text codec may change.  It changes them in
the same way, so that a query still finds what it is meant to find.

* `WireQuery.Selects.received` : a match is not lost on the way.
* `WireQuery.selects_received_iff` : none is gained either if all names arrive as they are.
* `found_iff` : from the arguments of `Event.create` and `QueryItem.of` to what a server decodes.
* `retry_refused` : so an append that is guarded by a key of its own event is not repeated.
-/

namespace Tephra

open Lib

/-- The events of a request. -/
def RequestKind.events : RequestKind → List WireEvent
  | .append req => req.events
  | .read _ | .subscribe _ | .cancel _ | .stats | .hello _ | .none => []

/-- The queries of a request. -/
def RequestKind.queries : RequestKind → List WireQuery
  | .append req => (req.condition.map fun condition =>
      condition.failIfEventsMatch :: condition.failIfExists.toList).getD []
  | .read req => [req.query]
  | .subscribe req => [req.query]
  | .cancel _ | .stats | .hello _ | .none => []

section

variable [TextCodec]

theorem RequestKind.events_received (kind : RequestKind) :
    kind.received.events = kind.events.map WireEvent.received := by
  cases kind <;> rfl

theorem RequestKind.queries_received (kind : RequestKind) :
    kind.received.queries = kind.queries.map WireQuery.received := by
  cases kind with
  | append req =>
    obtain ⟨events, condition⟩ := req
    cases condition with
    | none => rfl
    | some condition =>
      obtain ⟨query, after, failIfExists⟩ := condition
      cases failIfExists <;> rfl
  | read req | subscribe req | cancel req | hello req | stats | none => rfl

theorem WireQueryItem.clause_received (item : WireQueryItem) :
    item.received.clause = item.clause.rename receivedElement := rfl

theorem WireEvent.stored_received {w : WireEvent} (htype : w.type ≠ []) :
    w.received.stored.type = receivedElement w.type ∧
      w.received.stored.tags = w.stored.tags.map receivedElement :=
  ⟨if_neg htype, rfl⟩

/-- A match is not lost on the way. -/
theorem WireQuery.Selects.received {q : WireQuery} {w : WireEvent} (htype : w.type ≠ [])
    (h : q.Selects w.stored) : q.received.Selects w.received.stored := by
  obtain ⟨htype, htags⟩ := WireEvent.stored_received htype
  rcases h with hall | ⟨item, hitem, h⟩
  · exact .inl hall
  · refine .inr ⟨item.received, List.mem_map_of_mem hitem, ?_⟩
    rw [htype, htags, item.clause_received]
    exact h.rename receivedElement

/-- None is gained if all names arrive as they are. -/
theorem WireQuery.selects_received_iff {q : WireQuery} {w : WireEvent} (hq : q.WellFormed)
    (hw : w.WellFormed) : q.received.Selects w.received.stored ↔ q.Selects w.stored := by
  rw [hq.received, hw.received]

/-! ### From what a caller passes to what a server decodes -/

/-- Each of some items is made from the types and tags of a clause. -/
def MadeFrom (clauses : List (Clause JsString)) (items : List QueryItem) : Prop :=
  List.Forall₂ (fun c item => QueryItem.of c.types c.tags = .ok item) clauses items

omit [TextCodec] in
/-- Sorting tags changes nothing about what is asked for, and nothing about what an event has. -/
theorem selects_of_created {c : Clause JsString} {item : QueryItem} {type : JsString}
    {tags : List JsString} {payload : Bytes} {e : Event}
    (hitem : QueryItem.of c.types c.tags = .ok item)
    (hcreate : Event.create type tags payload = .ok e) :
    item.clause.Selects e.type e.tags ↔ c.Selects type tags := by
  obtain ⟨-, -, rfl⟩ := QueryItem.of_eq_ok.1 hitem
  obtain ⟨-, -, rfl⟩ := Event.create_eq_ok.1 hcreate
  refine (Clause.selects_congr (fun t => Iff.rfl) (fun t => ?_) (fun t => ?_)).symm
  · exact (List.perm_insertionSort (· ≤ ·) c.tags).mem_iff.symm
  · exact (List.perm_insertionSort (· ≤ ·) tags).mem_iff.symm

omit [TextCodec] in
/-- A query of created items selects a created event if one of the clauses asks for it. -/
theorem exists_selects_iff {clauses : List (Clause JsString)} {items : List QueryItem}
    {type : JsString} {tags : List JsString} {payload : Bytes} {e : Event}
    (hitems : MadeFrom clauses items) (hcreate : Event.create type tags payload = .ok e) :
    (queryToWire (Query.ofItems items)).Selects (eventToWire e).stored ↔
      ∃ c ∈ clauses, c.Selects type tags := by
  have hitem : (∃ item ∈ items, item.clause.Selects e.type e.tags) ↔
      ∃ c ∈ clauses, c.Selects type tags := by
    induction hitems with
    | nil => simp
    | cons hof _ ih =>
      simp only [List.exists_mem_cons_iff, ih, selects_of_created hof hcreate]
  rw [queryToWire_selects, ← hitem]
  constructor
  · rintro (h | h)
    · cases h
    · exact h
  · exact .inr

omit [TextCodec] in
theorem type_ne_nil_of_create {type : JsString} {tags : List JsString} {payload : Bytes} {e : Event}
    (hcreate : Event.create type tags payload = .ok e) : (eventToWire e).type ≠ [] := by
  obtain ⟨⟨hne, -⟩, -, heq⟩ := Event.create_eq_ok.1 hcreate
  rw [heq]
  exact hne

theorem wellFormed_of_create {type : JsString} {tags : List JsString} {payload : Bytes} {e : Event}
    (hcreate : Event.create type tags payload = .ok e)
    (hsurvives : ∀ name ∈ type :: tags, Survives name) : (eventToWire e).WellFormed := by
  obtain ⟨-, -, rfl⟩ := Event.create_eq_ok.1 hcreate
  obtain ⟨htype, htags⟩ := List.forall_mem_cons.1 hsurvives
  refine ⟨htype, ?_⟩
  intro tag htag
  exact htags tag ((List.perm_insertionSort (· ≤ ·) tags).mem_iff.1 htag)

theorem wellFormed_of_madeFrom {clauses : List (Clause JsString)} {items : List QueryItem}
    (hitems : MadeFrom clauses items)
    (hsurvives : ∀ name ∈ clauses.flatMap fun c => c.types ++ c.tags, Survives name) :
    (queryToWire (Query.ofItems items)).WellFormed := by
  have hall : ∀ item ∈ items, ∀ name ∈ item.types ++ item.tags, Survives name := by
    induction hitems with
    | nil => intro item hitem; cases hitem
    | cons hof _ ih =>
      rw [List.flatMap_cons, List.forall_mem_append] at hsurvives
      refine List.forall_mem_cons.2 ⟨?_, ih hsurvives.2⟩
      obtain ⟨-, -, rfl⟩ := QueryItem.of_eq_ok.1 hof
      intro name hname
      refine hsurvives.1 name (List.mem_append.2 ((List.mem_append.1 hname).imp id ?_))
      exact (List.perm_insertionSort (· ≤ ·) _).mem_iff.1
  intro item hitem
  obtain ⟨item', hitem', rfl⟩ := List.mem_map.1 hitem
  exact ⟨fun type htype => hall item' hitem' type (List.mem_append_left _ htype),
    fun tag htag => hall item' hitem' tag (List.mem_append_right _ htag)⟩

/-- **A query finds what was appended.**  Let an event and the items of a query be created from any
names, the event be sent in an append, and the query in a read, a subscription or a condition.  If
one of the items asks for the event, the query that the server decodes selects the event it decodes,
whatever the codec does to the names; if all names survive it, this is so only then. -/
theorem found_iff {clauses : List (Clause JsString)} {items : List QueryItem} {type : JsString}
    {tags : List JsString} {payload : Bytes} {e : Event} (hitems : MadeFrom clauses items)
    (hcreate : Event.create type tags payload = .ok e) (append request : WireRequest) (i j : ℕ)
    (hevent : append.kind.events[i]? = some (eventToWire e))
    (hquery : request.kind.queries[j]? = some (queryToWire (Query.ofItems items)))
    (hlen : (encodeRequest append).length ≤ maxArrayLength)
    (hlen' : (encodeRequest request).length ≤ maxArrayLength) :
    ∃ append' request' w q, decodeRequest (encodeRequest append) = .ok append' ∧
      append'.kind.events[i]? = some w ∧ decodeRequest (encodeRequest request) = .ok request' ∧
      request'.kind.queries[j]? = some q ∧
      ((∃ c ∈ clauses, c.Selects type tags) → q.Selects w.stored) ∧
      ((∀ name ∈ type :: tags ++ clauses.flatMap fun c => c.types ++ c.tags, Survives name) →
        q.Selects w.stored → ∃ c ∈ clauses, c.Selects type tags) := by
  refine ⟨append.received, request.received, (eventToWire e).received,
    (queryToWire (Query.ofItems items)).received, decodeRequest_encodeRequest_received append hlen,
    ?_, decodeRequest_encodeRequest_received request hlen', ?_, ?_, ?_⟩
  · rw [WireRequest.received, RequestKind.events_received, List.getElem?_map, hevent]
    rfl
  · rw [WireRequest.received, RequestKind.queries_received, List.getElem?_map, hquery]
    rfl
  · intro h
    exact ((exists_selects_iff hitems hcreate).2 h).received (type_ne_nil_of_create hcreate)
  · intro hsurvives h
    obtain ⟨hevent, hclauses⟩ := List.forall_mem_append.1 hsurvives
    rw [WireQuery.selects_received_iff (wellFormed_of_madeFrom hitems hclauses)
      (wellFormed_of_create hcreate hevent)] at h
    exact (exists_selects_iff hitems hcreate).1 h

end

section

attribute [local instance] utf8Codec

/-- A tag that is no Unicode text. -/
def loneTag : JsString := [0xd800]

/-- An append of an event with that tag. -/
def loneAppend : WireRequest where
  requestId := 2
  kind := .append
    { events := [{ type := js "order", tags := [loneTag], payload := [] }], condition := none }

/-- A read of all events with that tag. -/
def loneRead : WireRequest where
  requestId := 3
  kind := .read
    { query := { all := false, items := [{ types := [], tags := [loneTag] }] }
      after := 0
      limit := none
      reverse := false }

/-- The tag arrives as another, and the event is found all the same. -/
theorem found_lone : ¬Survives loneTag ∧
    ∃ append' request' w q, decodeRequest (encodeRequest loneAppend) = .ok append' ∧
      append'.kind.events[0]? = some w ∧ decodeRequest (encodeRequest loneRead) = .ok request' ∧
      request'.kind.queries[0]? = some q ∧ q.Selects w.stored := by
  have hitems :
      MadeFrom [{ types := [], tags := [loneTag] }] [{ types := [], tags := [loneTag] }] :=
    .cons (by decide) .nil
  have hcreate : Event.create (js "order") [loneTag] [] =
      .ok { type := js "order", tags := [loneTag], payload := [] } := by decide
  obtain ⟨append', request', w, q, happend, hw, hrequest, hq, hfound, -⟩ :=
    found_iff hitems hcreate loneAppend loneRead 0 0 rfl rfl (by decide +kernel) (by decide +kernel)
  exact ⟨by decide +kernel, append', request', w, q, happend, hw, hrequest, hq,
    hfound ⟨_, List.mem_singleton_self _, by decide⟩⟩

end

section

variable [TextCodec]

/-! ### Appends that guard themselves -/

theorem refusal_existsOnly (q : Query) :
    (conditionToWire (AppendCondition.existsOnly q)).received.refusal =
      { conflict := fun _ => false
        alreadyExists := fun log =>
          log.any fun e => (queryToWire q).received.Selects e.event } := by
  have hconflict : (conditionToWire (AppendCondition.existsOnly q)).received.refusal.conflict =
      fun _ => false := by
    funext log
    refine List.any_eq_false.2 fun e _ => ?_
    have hnone : ¬(queryToWire (Query.ofItems [])).received.Selects e.event := by
      rintro (h | ⟨item, hitem, -⟩)
      · cases h
      · cases hitem
    intro hselects
    exact hnone (of_decide_eq_true ((Bool.and_eq_true _ _).mp hselects).2)
  exact congrArg₂ Refusal.mk hconflict rfl

/-- **A retry is refused.**  Let an event have a key among its tags, and an append be guarded by the
existence of that key alone.  Where the event has arrived, on whatever log, this append is refused
because the event exists, and never for another reason, whatever the codec does to the key. -/
theorem retry_refused {type key : JsString} {tags : List JsString} {payload : Bytes} {e : Event}
    {item : QueryItem} (hcreate : Event.create type tags payload = .ok e) (hkey : key ∈ tags)
    (hitem : QueryItem.withTags [key] = .ok item) (first retry : WireRequest) (i : ℕ)
    (events : List WireEvent) (hfirst : first.kind.events[i]? = some (eventToWire e))
    (hretry : retry.kind = .append
      { events := events
        condition := some (conditionToWire (AppendCondition.existsOnly (Query.ofItems [item]))) })
    (hlen : (encodeRequest first).length ≤ maxArrayLength)
    (hlen' : (encodeRequest retry).length ≤ maxArrayLength) :
    ∃ first' retry' w events' refusal, decodeRequest (encodeRequest first) = .ok first' ∧
      first'.kind.events[i]? = some w ∧ decodeRequest (encodeRequest retry) = .ok retry' ∧
      retry'.kind.demand? = some (.append events' refusal) ∧
      ∀ log, refusal.conflict log = false ∧
        ((∃ s ∈ log, s.event = w.stored) → refusal.alreadyExists log = true) := by
  have hof : MadeFrom [{ types := [], tags := [key] }] [item] := .cons hitem .nil
  -- the key selects the event it was put on
  have hselects : (queryToWire (Query.ofItems [item])).Selects (eventToWire e).stored := by
    refine (exists_selects_iff hof hcreate).2 ⟨_, List.mem_singleton_self _, .inl rfl, ?_⟩
    intro tag htag
    rwa [List.mem_singleton.1 htag]
  refine ⟨first.received, retry.received, (eventToWire e).received,
    (events.map WireEvent.received).map WireEvent.stored,
    (conditionToWire (AppendCondition.existsOnly (Query.ofItems [item]))).received.refusal,
    decodeRequest_encodeRequest_received first hlen, ?_,
    decodeRequest_encodeRequest_received retry hlen', ?_, ?_⟩
  · rw [WireRequest.received, RequestKind.events_received, List.getElem?_map, hfirst]
    rfl
  · rw [WireRequest.received, hretry]
    rfl
  · intro log
    rw [refusal_existsOnly]
    refine ⟨rfl, ?_⟩
    rintro ⟨s, hs, hevent⟩
    refine List.any_eq_true.2 ⟨s, hs, decide_eq_true ?_⟩
    rw [hevent]
    exact hselects.received (type_ne_nil_of_create hcreate)

end

section

attribute [local instance] utf8Codec

/-- The append again, guarded by the tag. -/
def loneRetry : WireRequest where
  requestId := 4
  kind := .append
    { events := []
      condition := some (conditionToWire (AppendCondition.existsOnly
        (Query.ofItems [{ types := [], tags := [loneTag] }]))) }

/-- It is refused on every log with the event that arrived. -/
theorem retry_refused_lone : ∃ first' retry' w events' refusal,
    decodeRequest (encodeRequest loneAppend) = .ok first' ∧ first'.kind.events[0]? = some w ∧
      decodeRequest (encodeRequest loneRetry) = .ok retry' ∧
      retry'.kind.demand? = some (.append events' refusal) ∧
      ∀ before after position,
        refusal.alreadyExists (before ++ { position := position, event := w.stored } :: after) =
          true := by
  obtain ⟨first', retry', w, events', refusal, hfirst, hw, hretry, hdemand, hrefused⟩ :=
    retry_refused (by decide : Event.create (js "order") [loneTag] [] =
        .ok { type := js "order", tags := [loneTag], payload := [] })
      (List.mem_singleton_self _)
      (by decide : QueryItem.withTags [loneTag] = .ok { types := [], tags := [loneTag] })
      loneAppend loneRetry 0 [] rfl rfl (by decide +kernel) (by decide +kernel)
  refine ⟨first', retry', w, events', refusal, hfirst, hw, hretry, hdemand, ?_⟩
  intro before after position
  exact (hrefused _).2 ⟨_, List.mem_append_right before List.mem_cons_self, rfl⟩

end

end Tephra
