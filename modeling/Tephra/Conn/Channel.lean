import Tephra.Conn.Collected
import Tephra.SinkOrder

/-!
# What the consumer of a stream gets

Reads and subscriptions differ in what they take from a response, and in nothing else that a
consumer could notice.  A `Channel` is either kind of stream: where its sink is and what its items
are, with what the connection does to the sink.

* `Channel.Holds` : which items a sink has taken in and how it has ended, whoever asked for them.
* `Channel.run` : both are those of the life of its request.
* `stream_delivers` : what the consumer of a stream gets, in any run.
-/

namespace Tephra

open Lib

/-- The call that ends a sink, cleanly or with an error. -/
def SinkCall.ofEnded {α : Type} : Option Err → SinkCall α
  | none => finish
  | some err => fail err

theorem SinkCall.feed_ofEnded {α : Type} (f : Feed α (Option Err)) (ended : Option Err) :
    (ofEnded ended).feed f = f.close ended := by
  cases ended <;> rfl

/-- How a response ends a stream, if it does. -/
def Conn.endedBy (type : PendingType) (kind : ResponseKind) : Option (Option Err) :=
  match Conn.reaction type kind, kind with
  | .deliver _, _ => none
  | .violate err, _ => some (some err)
  | .settle _, .error error => some (some (serverErrorFromWire error))
  | .settle _, _ => some none

/-- How a stream ends when it is settled by what happens to it. -/
def Happening.ending (type : PendingType) : Happening → Option (Option Err)
  | .response res _ => Conn.endedBy type res.kind
  | .close _ => some none
  | .abort err _ | .sendFailed err | .died err => some (some err)
  | .opened _ _ | .permit | .jam | .listener | .microtask | .next | .collect | .collectStep => none

/-- A kind of stream. -/
structure Channel (α : Type) where
  type : PendingType
  /-- The sink of its objects. -/
  sink? : Call → Option (Sink α)
  /-- What it takes from a response. -/
  items : ResponseKind → List α
  makes : ∀ {call}, type.Makes call → sink? call = some .new
  stream : ∀ {call s}, sink? call = some s → call.isStream = true ∧ call.hasType type = true
  mapBase : ∀ {call s} {f : ∀ {β : Type}, BaseStream β → BaseStream β}
    {g : ∀ {β : Type}, Sink β → Sink β}, (∀ {β : Type} (b : BaseStream β), (f b).sink = g b.sink) →
      sink? call = some s → sink? (call.mapBase f) = some (g s)
  /-- Consumers only ask. -/
  use : ∀ {h : Happening} {f call s}, h.use? = some f → sink? call = some s →
    ∃ n, sink? (f call) = some (Sink.next^[n] s)
  deliver : ∀ {kind f call s}, Conn.reaction type kind = .deliver f → sink? call = some s →
    sink? (f call) = some ((items kind).foldl Sink.push s)
  settle : ∀ {kind f call s}, Conn.reaction type kind = .settle f → sink? call = some s →
    items kind = [] ∧ ∃ ended, Conn.endedBy type kind = some ended ∧
      sink? (f call) = some (s.call (.ofEnded ended))
  violate : ∀ {kind err}, Conn.reaction type kind = .violate err → items kind = []

/-- The life of a request is what happens until it is no longer pending: one that keeps `P` while it
is pending ends with `E`, which nothing changes any more. -/
theorem Request.life_cases {P E : Request → List Happening → Prop}
    (hpending : ∀ q l, P q l → ∃ e, q.view.pending = some e)
    (hreact : ∀ q l h, P q l →
      P (q.react h) (l ++ [h]) ∨ (q.react h).view.pending = none ∧ E (q.react h) (l ++ [h]))
    (hend : ∀ q l (hs : List Happening), E q l → E (hs.foldl react q) l) {q : Request} (hq : P q [])
    (hs : List Happening) :
    P (hs.foldl react q) (q.life hs) ∨ E (hs.foldl react q) (q.life hs) := by
  have hrun : ∀ l q, P q l →
      P (hs.foldl react q) (l ++ q.life hs) ∨ E (hs.foldl react q) (l ++ q.life hs) := by
    clear hq
    induction hs with
    | nil =>
      intro l q hq
      rw [life, List.append_nil]
      exact .inl hq
    | cons h hs ih =>
      intro l q hq
      rw [life, List.foldl_cons]
      rcases hreact q l h hq with hkeep | ⟨hgone, hended⟩
      · obtain ⟨e, entry⟩ := hpending _ _ hkeep
        rw [entry, Option.isNone_some, if_neg Bool.false_ne_true, List.append_cons]
        exact ih _ _ hkeep
      · rw [hgone, Option.isNone_none, if_pos rfl]
        exact .inr (hend _ _ hs hended)
  exact hrun [] q hq

namespace Channel

variable {α : Type} (ch : Channel α) {q : Request} {items : List α} {ended : Option (Option Err)}
  {h : Happening}

/-- What a stream takes from what happens to it. -/
def itemsOf : Happening → List α
  | .response response _ => ch.items response.kind
  | _ => []

/-- How a stream with this life has ended, none while it is pending. -/
def endedBy (pending : Bool) (life : List Happening) : Option (Option Err) :=
  if pending then none else life.getLast?.bind (Happening.ending ch.type)

/-- What the consumer of a stream with this life gets. -/
structure Delivers (s : Sink α) (pending : Bool) (life : List Happening) : Prop where
  /-- The items of the life, in order and each once: first those given out, then the others. -/
  items : s.promises.filterMap NextResult.value? ++ s.queue = life.flatMap ch.itemsOf
  done : s.done = !pending
  /-- What a promise can be settled with. -/
  promises : ∀ result ∈ s.promises, result = .pending ∧ pending = true ∨
    (∃ item, result = .item item) ∨ result = .failed alreadyIterated ∨
      ∃ ended, ch.endedBy pending life = some ended ∧ result = .ended ended
  /-- What the next call to `next()` gives, unless another one waits. -/
  next : s.waiting = none → s.next.promises = s.promises ++ [match s.queue with
    | item :: _ => .item item
    | [] => (ch.endedBy pending life).elim .pending .ended]

/-- The sink of a request has taken in these items, and has ended so or not. -/
def Holds (q : Request) (items : List α) (ended : Option (Option Err)) : Prop :=
  ∃ call s f, q.view.call = some call ∧ ch.sink? call = some s ∧ s.Refines f ∧
    f.items = items ∧ f.ending = ended

variable {ch}

/-! ### One thing that happens -/

theorem refines_push {s : Sink α} {f : Feed α (Option Err)} (h : s.Refines f) (hf : f.ending = none)
    (items : List α) : ∃ f', (items.foldl Sink.push s).Refines f' ∧ f'.items = f.items ++ items ∧
      f'.ending = none := by
  induction items generalizing s f with
  | nil => exact ⟨f, h, (List.append_nil _).symm, hf⟩
  | cons item items ih =>
    obtain ⟨hitems, hending, -⟩ := Feed.write_of_open item hf
    obtain ⟨f', h', hitems', hending'⟩ := ih (h.push item) hending
    exact ⟨f', h', by rw [hitems', hitems, List.append_assoc, List.singleton_append], hending'⟩

theorem refines_ask {s : Sink α} {f : Feed α (Option Err)} (h : s.Refines f) (n : ℕ) :
    ∃ f', (Sink.next^[n] s).Refines f' ∧ f'.items = f.items ∧ f'.ending = f.ending := by
  induction n generalizing s f with
  | zero => exact ⟨f, h, rfl, rfl⟩
  | succ n ih =>
    obtain ⟨f', h', hitems, hending⟩ := ih h.next
    exact ⟨f', h', hitems, hending⟩

theorem Holds.use (hq : ch.Holds q items ended) {f : Call → Call} (huse : h.use? = some f) :
    ch.Holds (q.react h) items ended := by
  obtain ⟨call, s, feed, hcall, hs, hrefines, hitems, hending⟩ := hq
  obtain ⟨n, hs'⟩ := ch.use huse hs
  obtain ⟨feed', hrefines', hitems', hending'⟩ := refines_ask hrefines n
  refine ⟨f call, _, feed', ?_, hs', hrefines', hitems'.trans hitems, hending'.trans hending⟩
  simp only [Request.react_of_use huse, Request.update, View.deliver, hcall, Option.map_some]

theorem Holds.over {n : ℕ} (hq : ch.Holds q items ended) (hover : q.Over n) (hs : List Happening) :
    ch.Holds (hs.foldl Request.react q) items ended := by
  induction hs generalizing q with
  | nil => exact hq
  | cons h hs ih =>
    refine ih ?_ (hover.react h)
    cases huse : h.use? with
    | none => rwa [hover.react_eq_self huse]
    | some f => exact hq.use huse

/-- A stream is pending and has taken in these items. -/
structure Flowing (ch : Channel α) (q : Request) (items : List α) : Prop where
  entry : ∃ e, q.view.pending = some e ∧ e.type = ch.type
  holds : ch.Holds q items none

/-- A stream with these items has ended with `h`. -/
structure Ended (ch : Channel α) (q : Request) (items : List α) (h : Happening) : Prop where
  isOver : ∃ n, q.Over n
  ended : ∃ ended, h.ending ch.type = some ended
  holds : ch.Holds q items (h.ending ch.type)

/-- What comes of a stream with these items when `h` happens. -/
def Proceeds (ch : Channel α) (q : Request) (items : List α) (h : Happening) : Prop :=
  ch.Flowing (q.react h) (items ++ ch.itemsOf h) ∨ ch.Ended (q.react h) (items ++ ch.itemsOf h) h

theorem Flowing.same (hq : ch.Flowing q items) (heq : q.react h = q) (hitems : ch.itemsOf h = []) :
    ch.Proceeds q items h := by
  refine .inl ?_
  rwa [heq, hitems, List.append_nil]

theorem Flowing.settle (hq : ch.Flowing q items) {f : Call → Call} {n : ℕ} {ended : Option Err}
    (heq : q.react h = { view := q.view.finish f, cancels := n }) (hitems : ch.itemsOf h = [])
    (hended : h.ending ch.type = some ended)
    (hf : ∀ call s, ch.sink? call = some s →
      (f call).closed = true ∧ ch.sink? (f call) = some (s.call (.ofEnded ended))) :
    ch.Proceeds q items h := by
  obtain ⟨call, s, feed, hcall, hs, hrefines, rfl, hending⟩ := hq.holds
  obtain ⟨hclosed, hs'⟩ := hf call s hs
  obtain ⟨hitems', hending', -⟩ := Feed.close_of_open ended hending
  have hcall' : (q.react h).view.call = some (f call) := by
    simp only [heq, View.finish, hcall, Option.map_some]
  refine .inr ⟨⟨n, by rw [heq]; rfl, ⟨_, hcall', hclosed⟩, by rw [heq]⟩, ⟨ended, hended⟩, _, _,
    feed.close ended, hcall', hs', ?_, ?_, ?_⟩
  · rw [← SinkCall.feed_ofEnded]
    exact hrefines.call _
  · rw [hitems', hitems, List.append_nil]
  · rw [hending', hended]

theorem Flowing.fail (hq : ch.Flowing q items) {e : Err} {n : ℕ}
    (heq : q.react h = { view := q.view.finish (Call.reject e), cancels := n })
    (hitems : ch.itemsOf h = []) (hended : h.ending ch.type = some (some e)) :
    ch.Proceeds q items h :=
  hq.settle heq hitems hended fun call s hs => by
    refine ⟨(Call.ends_reject e call).closed, ?_⟩
    have hsink := ch.mapBase (f := fun b => b.failWith e) (g := fun s => s.fail e)
      (fun _ => rfl) hs
    have hstream := (ch.stream hs).1
    cases call with
    | read stream | subscribe stream => exact hsink
    | unary deferred abortListener | hello deferred => cases hstream

theorem Flowing.respond (hq : ch.Flowing q items) (response : WireResponse) (alive : Bool) :
    ch.Proceeds q items (.response response alive) := by
  obtain ⟨e, entry, htype⟩ := hq.entry
  have hreact := Request.react_response entry (View.respond_of_pending entry response) alive
  rw [htype] at hreact
  have hended : (Happening.response response alive).ending ch.type =
      Conn.endedBy ch.type response.kind := rfl
  cases hreaction : Conn.reaction ch.type response.kind with
  | settle f =>
    rw [hreaction] at hreact
    obtain ⟨call₀, s₀, -, -, hs₀, -⟩ := hq.holds
    obtain ⟨hitems, ended, hkind, -⟩ := ch.settle hreaction hs₀
    refine hq.settle hreact hitems (hended.trans hkind) fun call s hs => ?_
    obtain ⟨-, ended', hkind', hs'⟩ := ch.settle hreaction hs
    cases hkind.symm.trans hkind'
    exact ⟨(Conn.ends_of_reaction hreaction call (ch.stream hs).2).closed, hs'⟩
  | deliver f =>
    rw [hreaction] at hreact
    obtain ⟨call, s, feed, hcall, hs, hrefines, rfl, hending⟩ := hq.holds
    obtain ⟨feed', hrefines', hitems', hending'⟩ :=
      refines_push hrefines hending (ch.items response.kind)
    refine .inl ⟨⟨e, by rw [hreact]; exact entry, htype⟩, f call, _, feed', ?_,
      ch.deliver hreaction hs, hrefines', hitems', hending'⟩
    simp only [hreact, View.deliver, hcall, Option.map_some]
  | violate err =>
    rw [hreaction] at hreact
    refine hq.fail hreact (ch.violate hreaction) ?_
    simp only [hended, Conn.endedBy, hreaction]

theorem Flowing.react (hq : ch.Flowing q items) (h : Happening) : ch.Proceeds q items h := by
  obtain ⟨e, entry, htype⟩ := hq.entry
  obtain ⟨call, s, feed, hcall, hs, hrefines, hfeed, hending⟩ := hq.holds
  have huse : ∀ f, h.use? = some f → ch.itemsOf h = [] → ch.Proceeds q items h :=
    fun f hf hitems => .inl ⟨⟨e, by rw [Request.react_of_use hf]; exact entry, htype⟩, by
      rw [hitems, List.append_nil]
      exact hq.holds.use hf⟩
  -- an end settles the stream, unless it counts as closed already
  cases h with
  | opened type call' =>
    exact hq.same (by rw [Request.react, hcall, Option.isSome_some, if_pos rfl]) rfl
  | permit =>
    refine .inl ⟨⟨{ e with permit := true }, by rw [Request.react, entry]; rfl, htype⟩, ?_⟩
    rw [show ch.itemsOf .permit = [] from rfl, List.append_nil]
    exact hq.holds
  | response response alive => exact hq.respond response alive
  | close alive =>
    by_cases hclosed : q.closed = true
    · exact hq.same (by rw [Request.react, if_pos hclosed]) rfl
    · refine hq.settle (f := Call.mapBase BaseStream.finishClean) (n := q.cancels + alive.toNat)
        (by rw [Request.react, if_neg hclosed]; rfl) rfl rfl fun call s hs => ⟨?_, ?_⟩
      · have hstream := (ch.stream hs).1
        cases call with
        | read stream | subscribe stream => rfl
        | unary deferred abortListener | hello deferred => cases hstream
      · exact ch.mapBase (g := Sink.finish) (fun _ => rfl) hs
  | abort err alive =>
    by_cases hclosed : q.closed = true
    · exact hq.same (by rw [Request.react, if_pos hclosed]) rfl
    · exact hq.fail (n := q.cancels + alive.toNat) (by rw [Request.react, if_neg hclosed]; rfl)
        rfl rfl
  | jam =>
    by_cases hclosed : q.closed = true
    · exact hq.same (by rw [Request.react, if_pos hclosed]) rfl
    · -- the stream counts as closed, but its sink is open
      have heq : q.react .jam = q.update (Call.mapBase BaseStream.markClosed) := by
        rw [Request.react, if_neg hclosed]
      refine .inl ⟨⟨e, by rw [heq]; exact entry, htype⟩, call.mapBase BaseStream.markClosed, s,
        feed, ?_, ch.mapBase (g := fun s => s) (fun _ => rfl) hs, hrefines,
        hfeed.trans (List.append_nil _).symm, hending⟩
      simp only [heq, Request.update, View.deliver, hcall, Option.map_some]
  | sendFailed err | died err =>
    refine hq.fail (e := err) (n := q.cancels + 0) ?_ rfl rfl
    rw [Request.react, entry, Option.isNone_some, if_neg Bool.false_ne_true]
    rfl
  | listener | microtask | next | collect | collectStep => exact huse _ rfl rfl

/-! ### The life of a stream -/

/-- A stream is pending with the items of its life, or has ended with the last thing in it. -/
theorem run (hq : ch.Flowing q []) (hs : List Happening) :
    ch.Flowing (hs.foldl Request.react q) ((q.life hs).flatMap ch.itemsOf) ∨
      ∃ h, (q.life hs).getLast? = some h ∧
        ch.Ended (hs.foldl Request.react q) ((q.life hs).flatMap ch.itemsOf) h := by
  have hflat : ∀ (l : List Happening) h,
      (l ++ [h]).flatMap ch.itemsOf = l.flatMap ch.itemsOf ++ ch.itemsOf h := fun l h => by
    rw [List.flatMap_append, List.flatMap_singleton]
  refine Request.life_cases (P := fun q l => ch.Flowing q (l.flatMap ch.itemsOf))
    (E := fun q l => ∃ h, l.getLast? = some h ∧ ch.Ended q (l.flatMap ch.itemsOf) h)
    (fun q l hq => ?_) (fun q l h hq => ?_) (fun q l hs hq => ?_) hq hs
  · obtain ⟨e, entry, -⟩ := hq.entry
    exact ⟨e, entry⟩
  · rw [hflat]
    rcases hq.react h with hflowing | hended
    · exact .inl hflowing
    · obtain ⟨n, hover⟩ := hended.isOver
      exact .inr ⟨hover.gone, h, List.getLast?_concat, hended⟩
  · obtain ⟨h, hlast, ⟨n, hover⟩, hsome, hholds⟩ := hq
    exact ⟨h, hlast, ⟨n, hover.foldl hs⟩, hsome, hholds.over hover hs⟩

theorem Flowing.new {call : Call} (hmakes : ch.type.Makes call) :
    ch.Flowing (Request.new.react (.opened ch.type call)) [] where
  entry := ⟨_, rfl, rfl⟩
  holds := ⟨call, .new, .empty, rfl, ch.makes hmakes, Sink.refines_new, rfl, rfl⟩

/-- What a sink has taken in and how it has ended is all that matters to its consumer. -/
theorem Holds.delivers {life : List Happening} {pending : Bool}
    (hq : ch.Holds q (life.flatMap ch.itemsOf) (ch.endedBy pending life))
    (hended : (ch.endedBy pending life).isSome = !pending) {call : Call} {s : Sink α}
    (hcall : q.view.call = some call) (hs : ch.sink? call = some s) :
    ch.Delivers s pending life := by
  obtain ⟨call', s', f, hcall', hs', hrefines, hitems, hending⟩ := hq
  cases hcall.symm.trans hcall'
  cases hs.symm.trans hs'
  refine ⟨hrefines.accepted.trans hitems, by rw [hrefines.done, hending, hended],
    fun result hmem => ?_, fun hw => ?_⟩
  · rcases hrefines.mem_promises hmem with ⟨rfl, hf⟩ | hitem | hturned | ⟨ended, hf, rfl⟩
    · refine .inl ⟨rfl, ?_⟩
      rw [← hending, hf, Option.isSome_none] at hended
      simpa using hended.symm
    · exact .inr (.inl hitem)
    · exact .inr (.inr (.inl hturned))
    · exact .inr (.inr (.inr ⟨ended, hending.symm.trans hf, rfl⟩))
  · rw [← hending]
    cases hqueue : s.queue with
    | cons item queue => rw [Sink.next_of_cons hqueue]
    | nil =>
      cases hf : f.ending with
      | some ended =>
        rw [(hrefines.next_ended hw hqueue hf).1]
        rfl
      | none =>
        rw [Sink.next_of_open hqueue (by rw [hrefines.done, hf]; rfl) hw]
        rfl

end Channel

/-! ### Reads and subscriptions -/

/-- The events of a batch. -/
def batchEvents (res : WireReadEvents) : List SequencedEvent :=
  (res.events.mapM sequencedFromWire).toOption.getD []

theorem batchEvents_of_ok {res : WireReadEvents} {mapped : List SequencedEvent}
    (h : res.events.mapM sequencedFromWire = .ok mapped) : batchEvents res = mapped := by
  rw [batchEvents, h]
  rfl

theorem batchEvents_of_error {res : WireReadEvents} {err : Err}
    (h : res.events.mapM sequencedFromWire = .error err) : batchEvents res = [] := by
  rw [batchEvents, h]
  rfl

theorem ReadStream.asks_collectStep (s : ReadStream) :
    ∃ n, (s.collectStep.getD s).base.sink = Sink.next^[n] s.base.sink := by
  unfold collectStep
  split
  · split
    · exact ⟨1, rfl⟩
    · exact ⟨0, rfl⟩
    · exact ⟨0, rfl⟩
    · exact ⟨0, rfl⟩
  · exact ⟨0, rfl⟩

theorem ReadStream.sink_deliverAll (events : List SequencedEvent) (s : ReadStream) :
    (events.foldl (fun s e => { s with base := s.base.deliverItem e }) s).base.sink =
      events.foldl Sink.push s.base.sink := by
  induction events generalizing s with
  | nil => rfl
  | cons e events ih => exact ih _

theorem Call.foldl_deliverSubscribe (events : List SequencedEvent) (s : SubscribeStream) :
    ∃ s' : SubscribeStream, events.foldl (fun call e => call.deliverSubscribe (.event e))
        (Call.subscribe s) = .subscribe s' ∧
      s'.sink = (events.map SubEvent.event).foldl Sink.push s.sink := by
  induction events generalizing s with
  | nil => exact ⟨s, rfl, rfl⟩
  | cons e events ih => exact ih _

/-- Reads. -/
def readChannel : Channel SequencedEvent where
  type := .read
  sink?
    | .read stream => some stream.base.sink
    | _ => none
  items
    | .readEvents res => batchEvents res
    | _ => []
  makes h := by obtain ⟨signal, rfl⟩ := h; rfl
  stream {call s} h := by cases call <;> first | exact ⟨rfl, rfl⟩ | cases h
  mapBase {call s f g} hf h := by
    cases call with
    | read stream => cases h; exact congrArg some (hf _)
    | unary deferred abortListener | hello deferred | subscribe stream => cases h
  use {h f call s} huse hs := by
    cases call with
    | read stream =>
      cases hs
      cases h <;> cases huse
      · exact ⟨0, rfl⟩
      · exact ⟨0, rfl⟩
      · exact ⟨1, rfl⟩
      · rw [Call.collect]
        split_ifs
        · exact ⟨1, rfl⟩
        · exact ⟨0, rfl⟩
      · rw [Call.collectStep]
        obtain ⟨n, hn⟩ := ReadStream.asks_collectStep stream
        exact ⟨n, congrArg some hn⟩
    | unary deferred abortListener | hello deferred | subscribe stream => cases hs
  deliver {kind f call s} h hs := by
    cases call with
    | read stream =>
      cases hs
      cases kind with
      | readEvents res =>
        simp only [Conn.reaction] at h
        cases hmapped : res.events.mapM sequencedFromWire with
        | error err => simp only [hmapped] at h; cases h
        | ok mapped =>
          simp only [hmapped] at h
          cases h
          have hsink := ReadStream.sink_deliverAll mapped stream
          rw [← batchEvents_of_ok hmapped] at hsink
          simp only [Conn.foldl_deliverRead, ← batchEvents_of_ok hmapped, hsink]
      | readEnd res | error error | append res | caughtUp res | stats res | helloAck ack | none =>
        cases h
    | unary deferred abortListener | hello deferred | subscribe stream => cases hs
  settle {kind f call s} h hs := by
    cases call with
    | read stream =>
      cases hs
      cases kind with
      | readEvents res =>
        simp only [Conn.reaction] at h
        split at h <;> cases h
      | readEnd res => cases h; exact ⟨rfl, none, rfl, rfl⟩
      | error error => cases h; exact ⟨rfl, some _, rfl, rfl⟩
      | append res | caughtUp res | stats res | helloAck ack | none => cases h
    | unary deferred abortListener | hello deferred | subscribe stream => cases hs
  violate {kind err} h := by
    cases kind with
    | readEvents res =>
      simp only [Conn.reaction] at h
      cases hmapped : res.events.mapM sequencedFromWire with
      | error err' => simp only [batchEvents_of_error hmapped]
      | ok mapped => simp only [hmapped] at h; cases h
    | readEnd res | error error | append res | caughtUp res | stats res | helloAck ack | none => rfl

/-- Subscriptions. -/
def subscribeChannel : Channel SubEvent where
  type := .subscribe
  sink?
    | .subscribe stream => some stream.sink
    | _ => none
  items
    | .readEvents res => (batchEvents res).map .event
    | .caughtUp res => [.caughtUp res.watermark]
    | _ => []
  makes h := by obtain ⟨signal, rfl⟩ := h; rfl
  stream {call s} h := by cases call <;> first | exact ⟨rfl, rfl⟩ | cases h
  mapBase {call s f g} hf h := by
    cases call with
    | subscribe stream => cases h; exact congrArg some (hf _)
    | unary deferred abortListener | hello deferred | read stream => cases h
  use {h f call s} huse hs := by
    cases call with
    | subscribe stream =>
      cases hs
      cases h <;> cases huse
      · exact ⟨0, rfl⟩
      · exact ⟨0, rfl⟩
      · exact ⟨1, rfl⟩
      -- only a read is collected
      · exact ⟨0, rfl⟩
      · exact ⟨0, rfl⟩
    | unary deferred abortListener | hello deferred | read stream => cases hs
  deliver {kind f call s} h hs := by
    cases call with
    | subscribe stream =>
      cases hs
      cases kind with
      | readEvents res =>
        simp only [Conn.reaction] at h
        cases hmapped : res.events.mapM sequencedFromWire with
        | error err => simp only [hmapped] at h; cases h
        | ok mapped =>
          simp only [hmapped] at h
          cases h
          obtain ⟨stream', hfold, hsink⟩ := Call.foldl_deliverSubscribe mapped stream
          simp only [hfold, hsink, batchEvents_of_ok hmapped]
      | caughtUp res => cases h; rfl
      | readEnd res | error error | append res | stats res | helloAck ack | none => cases h
    | unary deferred abortListener | hello deferred | read stream => cases hs
  settle {kind f call s} h hs := by
    cases call with
    | subscribe stream =>
      cases hs
      cases kind with
      | readEvents res =>
        simp only [Conn.reaction] at h
        split at h <;> cases h
      | error error => cases h; exact ⟨rfl, some _, rfl, rfl⟩
      | append res | readEnd res | caughtUp res | stats res | helloAck ack | none => cases h
    | unary deferred abortListener | hello deferred | read stream => cases hs
  violate {kind err} h := by
    cases kind with
    | readEvents res =>
      simp only [Conn.reaction] at h
      cases hmapped : res.events.mapM sequencedFromWire with
      | error err' => simp only [batchEvents_of_error hmapped, List.map_nil]
      | ok mapped => simp only [hmapped] at h; cases h
    | caughtUp res => cases h
    | readEnd res | error error | append res | stats res | helloAck ack | none => rfl

namespace Conn

section

variable [TextCodec] {cfg : Config} {c : Conn cfg} {t : ℤ} {as : List Action}

/-- A stream of a connection has the items of its life, whatever happens. -/
theorem delivers_of_run {α : Type} (ch : Channel α) (h : (connection cfg).Run (init cfg) as c)
    {call : Call} (hcall : c.calls.get? t = some call) {s : Sink α} (hs : ch.sink? call = some s)
    (htype : ∀ type, call.hasType type = true → type = ch.type) :
    ch.Delivers s (c.pending.has t) (life cfg t as) := by
  rcases story_cases h t with
    ⟨-, hrequest⟩ | ⟨type, call₀, rest, hstory, hmakes, hrequest, hhas⟩
  · have hnone : c.calls.get? t = none := congrArg (fun q => q.view.call) hrequest
    cases hcall.symm.trans hnone
  rw [hcall, Option.any_some] at hhas
  cases htype type hhas
  have hview : (c.request t).view.call = some call := hcall
  rw [life, hstory]
  simp only
  -- still open, or ended by the last thing of its life
  rcases Channel.run (Channel.Flowing.new hmakes) rest with hflowing | ⟨x, hlast, hended⟩
  · rw [← hrequest] at hflowing
    obtain ⟨e, entry, -⟩ := hflowing.entry
    have hpending : c.pending.has t = true := by
      rw [OrdMap.has, show c.pending.get? t = some e from entry]
      rfl
    rw [hpending]
    exact hflowing.holds.delivers rfl hview hs
  · rw [← hrequest] at hended
    obtain ⟨⟨n, hover⟩, ⟨ended, hsome⟩, hholds⟩ := hended
    have hpending : c.pending.has t = false := by
      rw [OrdMap.has, show c.pending.get? t = none from hover.gone]
      rfl
    rw [hpending]
    have hendedBy : ch.endedBy false ((Request.new.react (.opened ch.type call₀)).life rest) =
        x.ending ch.type := by
      rw [Channel.endedBy, if_neg Bool.false_ne_true, hlast, Option.bind_some]
    rw [← hendedBy] at hholds
    exact hholds.delivers (by rw [hendedBy, hsome]; rfl) hview hs

/-- **What a consumer gets.**  In every run, the consumer of a read or a subscription is given the
items of the life of the stream, in order and each once, and after them how it ended; nobody else's
doing adds, drops or reorders anything. -/
theorem stream_delivers (h : (connection cfg).Run (init cfg) as c) (t : ℤ) :
    (∀ stream, c.calls.get? t = some (.read stream) →
      readChannel.Delivers stream.base.sink (c.pending.has t) (life cfg t as)) ∧
    ∀ stream, c.calls.get? t = some (.subscribe stream) →
      subscribeChannel.Delivers stream.sink (c.pending.has t) (life cfg t as) := by
  constructor
  · intro stream hcall
    refine delivers_of_run readChannel h hcall rfl fun type htype => ?_
    cases type <;> first | rfl | cases htype
  · intro stream hcall
    refine delivers_of_run subscribeChannel h hcall rfl fun type htype => ?_
    cases type <;> first | rfl | cases htype

end

section

attribute [local instance] utf8Codec

/-- A consumer waits when the first of two events comes, and then the read ends. -/
def ordering : List Action :=
  connectActions ++ [readAll, .permit 2, .slot 2, .writer (.returned true), .next 2,
    .data (orderFrame ++ orderFrame), .data [0, 0, 0, 6, 8, 2, 34, 2, 8, 8]]

/-- It is given the first event; the second and then the end are left for it. -/
theorem order_delivers : ∃ c stream, (connection onePermit).Run (init onePermit) ordering c ∧
    c.calls.get? 2 = some (.read stream) ∧ c.pending.has 2 = false ∧
      readChannel.Delivers stream.base.sink false (life onePermit 2 ordering) ∧
        stream.base.sink.promises = orderCollected.map .item ∧
          stream.base.sink.queue = orderCollected := by
  have hexec : ((connection onePermit).exec (init onePermit) ordering).any (fun c =>
      !c.pending.has 2 && (c.calls.get? 2).any fun call => (readChannel.sink? call).any fun s =>
        s.promises = orderCollected.map .item && s.queue = orderCollected) = true := by
    decide +kernel
  obtain ⟨c, hrun, hc⟩ := Machine.exists_run_of_exec hexec
  rw [Bool.and_eq_true, Bool.not_eq_true'] at hc
  obtain ⟨hpending, hc⟩ := hc
  obtain ⟨call, hcall, hsink⟩ := (Option.any_eq_true _ _).1 hc
  cases call with
  | read stream =>
    have hdelivers := (stream_delivers hrun 2).1 stream hcall
    rw [hpending] at hdelivers
    obtain ⟨s, hs, hitems⟩ := (Option.any_eq_true _ _).1 hsink
    cases hs
    rw [Bool.and_eq_true, decide_eq_true_eq, decide_eq_true_eq] at hitems
    exact ⟨c, stream, hrun, hcall, hpending, hdelivers, hitems.1, hitems.2⟩
  | unary deferred abortListener | hello deferred | subscribe stream => cases hsink

end

end Conn

end Tephra
