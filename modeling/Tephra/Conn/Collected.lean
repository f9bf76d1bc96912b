import Tephra.Conn.Single
import Tephra.Conn.Delivery

/-!
# What a collected read resolves with

A read ends in five ways, and its collector sees only its sink: whether that is done, and whether
with an error.  A read that is closed while it is being collected looks to the collector like one
that has ended, with the events that came so far and no watermark.

* `Request.life` : what happens to a request while it is pending.
* `Request.Reading.react` : how a read goes on, or how it ends.
* `collected_iff` : a collector resolves with the events and the watermark of its read, unless the
  read was closed.
* `collected_truncated` : a read that is closed while it is being collected.
-/

namespace Tephra

open Lib

/-- The events that a read is given. -/
def Happening.events : Happening → List SequencedEvent
  | .response res _ =>
    match res.kind with
    | .readEvents batch => (batch.events.mapM sequencedFromWire).toOption.getD []
    | _ => []
  | _ => []

/-- The collected events and watermark are those of a read with this life: it ends with the
watermark, and what came before are the events. -/
def Complete (life : List Happening) (events : List SequencedEvent) (w : ℤ) : Prop :=
  ∃ pre response alive, life = pre ++ [.response response alive] ∧
    response.kind = .readEnd { watermark := w } ∧ events = pre.flatMap Happening.events

/-- The life of a read ends when the read is closed. -/
def EndsClosed (life : List Happening) : Prop := ∃ pre alive, life = pre ++ [.close alive]

/-- Whether a consumer asks stream `id` for an item by itself. -/
def Action.asksNext (id : ℤ) : Action → Bool
  | .next id' => id' = id
  | _ => false

/-- Whether a read was collected with this outcome. -/
def Call.collectedAs (events : List SequencedEvent) (w : ℤ) : Call → Bool
  | .read stream => stream.collector = some (.resolved events w)
  | _ => false

theorem Call.of_collectedAs {call : Call} {events : List SequencedEvent} {w : ℤ}
    (h : call.collectedAs events w = true) :
    ∃ stream, call = .read stream ∧ stream.collector = some (.resolved events w) := by
  cases call with
  | read stream => exact ⟨stream, rfl, of_decide_eq_true h⟩
  | unary deferred abortListener | hello deferred | subscribe stream => cases h

namespace Request

variable {q : Request} {taken : List SequencedEvent} {h : Happening}

/-- What happens to a request while it is pending, up to what settles it. -/
def life (q : Request) : List Happening → List Happening
  | [] => []
  | h :: hs => if (q.react h).view.pending.isNone then [h] else h :: (q.react h).life hs

/-! ### Consumers -/

/-- What its signal and its consumer do to a read, other than `next()`. -/
theorem took_of_use {s : ReadStream} {ending : Option ℤ} (htook : s.Took taken ending)
    (hnext : h ≠ .next) {f : Call → Call} (huse : h.use? = some f) :
    ∃ s', f (.read s) = .read s' ∧ s'.Took taken ending := by
  cases h with
  | listener => cases huse; exact ⟨_, rfl, htook.congr rfl rfl rfl⟩
  | microtask => cases huse; exact ⟨_, rfl, htook.congr rfl rfl rfl⟩
  | next => exact absurd rfl hnext
  | collect =>
    cases huse
    rw [Call.collect]
    split_ifs with hnone
    · exact ⟨_, rfl, htook.collect (Option.isNone_iff_eq_none.1 hnone)⟩
    · exact ⟨_, rfl, htook⟩
  | collectStep =>
    cases huse
    rw [Call.collectStep]
    cases hstep : s.collectStep with
    | none => exact ⟨_, rfl, htook⟩
    | some s' => exact ⟨_, rfl, htook.collectStep hstep⟩
  | opened type call | permit | response response alive | close alive | abort err alive | jam
  | sendFailed err | died err => cases huse

theorem barred_of_use {s : ReadStream} (hbarred : s.Barred) {f : Call → Call}
    (huse : h.use? = some f) : ∃ s', f (.read s) = .read s' ∧ s'.Barred := by
  have hcongr : ∀ s' : ReadStream, s'.base.sink = s.base.sink → s'.collector = s.collector →
      s'.Barred := fun s' hsink hcollector =>
    ⟨hsink ▸ hbarred.done, hsink ▸ hbarred.error, hsink ▸ hbarred.promises,
      hcollector ▸ hbarred.collector⟩
  cases h with
  | listener => cases huse; exact ⟨_, rfl, hcongr _ rfl rfl⟩
  | microtask => cases huse; exact ⟨_, rfl, hcongr _ rfl rfl⟩
  | next =>
    cases huse
    exact ⟨_, rfl, hbarred.next hbarred.collector⟩
  | collect =>
    cases huse
    rw [Call.collect]
    split_ifs
    · exact ⟨_, rfl, hbarred.next fun events w heq => by cases heq⟩
    · exact ⟨_, rfl, hbarred⟩
  | collectStep =>
    cases huse
    rw [Call.collectStep]
    cases hstep : s.collectStep with
    | none => exact ⟨_, rfl, hbarred⟩
    | some s' => exact ⟨_, rfl, hbarred.collectStep hstep⟩
  | opened type call | permit | response response alive | close alive | abort err alive | jam
  | sendFailed err | died err => cases huse

/-- A property of a read that its signal and its consumer keep holds for good once the read is
over. -/
theorem Over.read_foldl {P : ReadStream → Prop} {n : ℕ} (hq : q.Over n) {s : ReadStream}
    (hcall : q.view.call = some (.read s)) (hP : P s) (hs : List Happening)
    (huse : ∀ h ∈ hs, ∀ f, h.use? = some f → ∀ s, P s → ∃ s', f (.read s) = .read s' ∧ P s') :
    ∃ s', (hs.foldl Request.react q).view.call = some (.read s') ∧ P s' := by
  induction hs generalizing q s with
  | nil => exact ⟨s, hcall, hP⟩
  | cons h hs ih =>
    have huse' := fun x hx => huse x (List.mem_cons_of_mem _ hx)
    rw [List.foldl_cons]
    cases hf : h.use? with
    | none =>
      rw [hq.react_eq_self hf]
      exact ih hq hcall hP huse'
    | some f =>
      obtain ⟨s', heq, hP'⟩ := huse h List.mem_cons_self f hf s hP
      refine ih (hq.react h) ?_ hP' huse'
      simp only [react_of_use hf, update, View.deliver, hcall, Option.map_some, heq]

/-! ### Reads -/

/-- A read is pending and has taken in the events `taken`. -/
structure Reading (q : Request) (taken : List SequencedEvent) : Prop where
  entry : ∃ e, q.view.pending = some e ∧ e.type = .read
  stream : ∃ s, q.view.call = some (.read s) ∧ s.Took taken none

/-- A read that has taken in the events `taken` ends. -/
inductive Settles (q' : Request) (taken : List SequencedEvent) : Happening → Prop
  /-- It comes to its end. -/
  | ended {response : WireResponse} {alive : Bool} {w : ℤ} {s : ReadStream}
      (kind : response.kind = .readEnd { watermark := w })
      (call : q'.view.call = some (.read s)) (took : s.Took taken (some w)) :
      Settles q' taken (.response response alive)
  /-- It is closed. -/
  | closed (alive : Bool) : Settles q' taken (.close alive)
  /-- It fails. -/
  | failed {h : Happening} {s : ReadStream} (call : q'.view.call = some (.read s))
      (barred : s.Barred) : Settles q' taken h

theorem Reading.new (signal : Signal) :
    (new.react (.opened .read (.read (ReadStream.new signal)))).Reading [] where
  entry := ⟨_, rfl, rfl⟩
  stream := ⟨_, rfl, rfl, rfl, rfl, .idle rfl rfl rfl rfl⟩

/-- What comes of a read that has taken in the events `taken` when `h` happens: it goes on, with the
events it is given, or it ends. -/
def Proceeds (q' : Request) (taken : List SequencedEvent) (h : Happening) : Prop :=
  q'.view.pending.isNone = false ∧ q'.Reading (taken ++ h.events) ∨
    q'.view.pending.isNone = true ∧ (∃ n, q'.Over n) ∧ q'.Settles taken h

theorem Reading.update (hq : q.Reading taken) {f : Call → Call} (heq : q.react h = q.update f)
    (hf : ∀ s : ReadStream, s.Took taken none →
      ∃ s', f (.read s) = .read s' ∧ s'.Took (taken ++ h.events) none) :
    (q.react h).Proceeds taken h := by
  obtain ⟨⟨e, entry, htype⟩, s, hcall, htook⟩ := hq
  obtain ⟨s', hf, htook'⟩ := hf s htook
  rw [heq]
  refine .inl ⟨?_, ⟨e, entry, htype⟩, s', ?_, htook'⟩
  · rw [Request.update, View.deliver, entry, Option.isNone_some]
  · simp only [Request.update, View.deliver, hcall, Option.map_some, hf]

theorem Reading.same (hq : q.Reading taken) (heq : q.react h = q) (hevents : h.events = []) :
    (q.react h).Proceeds taken h := by
  obtain ⟨e, entry, -⟩ := hq.entry
  rw [heq]
  refine .inl ⟨by rw [entry, Option.isNone_some], ?_⟩
  rwa [hevents, List.append_nil]

theorem Reading.finish (hq : q.Reading taken) {f : Call → Call} {n : ℕ}
    (heq : q.react h = { view := q.view.finish f, cancels := n })
    (hf : ∀ s : ReadStream, s.Took taken none →
      ∃ s', f (.read s) = .read s' ∧ s'.base.closed = true ∧
      ((q.react h).view.call = some (.read s') → (q.react h).Settles taken h)) :
    (q.react h).Proceeds taken h := by
  obtain ⟨s, hcall, htook⟩ := hq.stream
  obtain ⟨s', hf, hclosed, hsettles⟩ := hf s htook
  have hcall' : (q.react h).view.call = some (.read s') := by
    simp only [heq, View.finish, hcall, Option.map_some, hf]
  refine .inr ⟨by rw [heq]; rfl, ⟨n, ?_, ⟨_, hcall', hclosed⟩, ?_⟩, hsettles hcall'⟩
  · rw [heq]; rfl
  · rw [heq]

theorem Reading.fail (hq : q.Reading taken) {err : Err} {n : ℕ}
    (heq : q.react h = { view := q.view.finish (Call.reject err), cancels := n }) :
    (q.react h).Proceeds taken h :=
  hq.finish heq fun _ htook => ⟨_, rfl, rfl, fun hcall => .failed hcall (htook.fail err)⟩

theorem Reading.respond (hq : q.Reading taken) (response : WireResponse) (alive : Bool) :
    (q.react (.response response alive)).Proceeds taken (.response response alive) := by
  obtain ⟨e, entry, htype⟩ := hq.entry
  have hrespond := View.respond_of_pending entry response
  rw [htype] at hrespond
  cases hkind : response.kind with
  | readEvents batch =>
    simp only [hkind, Conn.reaction] at hrespond
    cases hmapped : batch.events.mapM sequencedFromWire with
    | error err =>
      -- an event is missing in the batch
      simp only [hmapped] at hrespond
      exact hq.fail (react_response entry hrespond alive)
    | ok mapped =>
      simp only [hmapped] at hrespond
      have hviolates : Conn.violates e.type response.kind = false := by
        rw [htype, hkind]
        simp only [Conn.violates, hmapped]
        rfl
      have hevents : (Happening.response response alive).events = mapped := by
        simp only [Happening.events, hkind, hmapped]
        rfl
      refine hq.update (f := fun call => mapped.foldl (fun call e => call.deliverRead e) call) ?_
        fun s htook => ⟨_, Conn.foldl_deliverRead mapped s, ?_⟩
      · rw [react_response entry hrespond, hviolates, Bool.and_false]
        rfl
      · rw [hevents]
        exact htook.deliverAll mapped
  | readEnd res =>
    simp only [hkind, Conn.reaction] at hrespond
    exact hq.finish (react_response entry hrespond alive) fun s htook =>
      ⟨s.endWith res.watermark, rfl, rfl,
        fun hcall => .ended hkind hcall (htook.endWith res.watermark)⟩
  | error error | append res | caughtUp res | stats res | helloAck ack | none =>
    simp only [hkind, Conn.reaction] at hrespond
    exact hq.fail (react_response entry hrespond alive)

/-- A read goes on or ends, whatever happens other than a `next()`. -/
theorem Reading.react (hq : q.Reading taken) (hnext : h ≠ .next) :
    (q.react h).Proceeds taken h := by
  obtain ⟨e, entry, htype⟩ := hq.entry
  -- what its consumer and its signal do leaves the entry alone
  have huse : ∀ f, h.use? = some f → h.events = [] → (q.react h).Proceeds taken h :=
    fun f hf hevents => hq.update (react_of_use hf) fun s htook => by
      rw [hevents, List.append_nil]
      exact took_of_use htook hnext hf
  cases h with
  | opened type call =>
    obtain ⟨s, hcall, -⟩ := hq.stream
    refine hq.same ?_ rfl
    rw [Request.react, hcall, Option.isSome_some, if_pos rfl]
  | permit =>
    obtain ⟨s, hcall, htook⟩ := hq.stream
    refine .inl ⟨?_, ⟨{ e with permit := true }, ?_, htype⟩, s, hcall, ?_⟩
    · rw [Request.react, entry]; rfl
    · rw [Request.react, entry]; rfl
    · show s.Took (taken ++ []) none
      rwa [List.append_nil]
  | response response alive => exact hq.respond response alive
  | close alive =>
    by_cases hclosed : q.closed = true
    · exact hq.same (by rw [Request.react, if_pos hclosed]) rfl
    · have heq : q.react (.close alive) =
          { view := q.view.finish (Call.mapBase BaseStream.finishClean)
            cancels := q.cancels + alive.toNat } := by
        rw [Request.react, if_neg hclosed]
        rfl
      exact hq.finish heq fun _ _ => ⟨_, rfl, rfl, fun _ => .closed alive⟩
  | abort err alive =>
    by_cases hclosed : q.closed = true
    · exact hq.same (by rw [Request.react, if_pos hclosed]) rfl
    · have heq : q.react (.abort err alive) =
          { view := q.view.finish (Call.reject err), cancels := q.cancels + alive.toNat } := by
        rw [Request.react, if_neg hclosed]
        rfl
      exact hq.fail heq
  | jam =>
    by_cases hclosed : q.closed = true
    · exact hq.same (by rw [Request.react, if_pos hclosed]) rfl
    · -- the stream counts as closed, but its sink is open
      have heq : q.react .jam = q.update (Call.mapBase BaseStream.markClosed) := by
        rw [Request.react, if_neg hclosed]
      refine hq.update heq fun s htook => ⟨_, rfl, ?_⟩
      show ReadStream.Took _ (taken ++ []) none
      rw [List.append_nil]
      exact htook.congr rfl rfl rfl
  | sendFailed err | died err =>
    have heq : q.react (.died err) =
        { view := q.view.finish (Call.reject err), cancels := q.cancels + 0 } := by
      rw [Request.react, entry, Option.isNone_some, if_neg Bool.false_ne_true]
      rfl
    exact hq.fail heq
  | listener | microtask | next | collect | collectStep => exact huse _ rfl rfl

/-- A read is pending all the time, or its life ends with what settles it. -/
theorem Reading.run (hq : q.Reading taken) {hs : List Happening} (hnext : ∀ h ∈ hs, h ≠ .next) :
    (hs.foldl Request.react q).Reading (taken ++ hs.flatMap Happening.events) ∨
      ∃ pre h post q', hs = pre ++ h :: post ∧ q.life hs = pre ++ [h] ∧
        hs.foldl Request.react q = post.foldl Request.react q' ∧ (∃ n, q'.Over n) ∧
        q'.Settles (taken ++ pre.flatMap Happening.events) h := by
  induction hs generalizing q taken with
  | nil =>
    rw [List.flatMap_nil, List.append_nil]
    exact .inl hq
  | cons h hs ih =>
    rcases hq.react (hnext h List.mem_cons_self) with ⟨hsome, hreading⟩ | ⟨hnone, hover, hsettles⟩
    · rcases ih hreading fun x hx => hnext x (List.mem_cons_of_mem _ hx) with
        hopen | ⟨pre, x, post, q', rfl, hlife, hfold, hover, hsettles⟩
      · rw [List.append_assoc] at hopen
        exact .inl hopen
      · refine .inr ⟨h :: pre, x, post, q', rfl, ?_, hfold, hover, ?_⟩
        · rw [life, hsome, if_neg Bool.false_ne_true, hlife, List.cons_append]
        · rw [List.flatMap_cons, ← List.append_assoc]
          exact hsettles
    · refine .inr ⟨[], h, hs, _, rfl, ?_, rfl, hover, ?_⟩
      · rw [life, hnone, if_pos rfl, List.nil_append]
      · rw [List.flatMap_nil, List.append_nil]
        exact hsettles

end Request

section

variable [TextCodec] {cfg : Config} {c : Conn cfg}

namespace Conn

/-- What happens to request `t` in the course of a run while it is pending. -/
def life (cfg : Config) (t : ℤ) (as : List Action) : List Happening :=
  match story cfg t as with
  | [] => []
  | h :: rest => (Request.new.react h).life rest

/-- For a read with no other consumer than `collect()`: what the collector resolves with is complete
if and only if the read was not closed before it had ended. -/
theorem collected_iff {r : ℤ} {as : List Action}
    (h : (connection cfg).RunWith (fun _ a => a.asksNext r = false) (init cfg) as c)
    {stream : ReadStream} (hcall : c.calls.get? r = some (.read stream))
    {events : List SequencedEvent} {w : ℤ}
    (hresolved : stream.collector = some (.resolved events w)) :
    Complete (life cfg r as) events w ↔ ¬ EndsClosed (life cfg r as) := by
  rcases story_cases h r with ⟨-, hrequest⟩ | ⟨type, call₀, rest, hstory, hmakes, hrequest, htype⟩
  · have hnone : c.calls.get? r = none := congrArg (fun q => q.view.call) hrequest
    cases hcall.symm.trans hnone
  -- the request is a read from the start
  rw [hcall] at htype
  cases type with
  | unary expect | hello | subscribe => cases htype
  | read =>
    obtain ⟨signal, rfl⟩ := hmakes
    have hnext : ∀ x ∈ rest, x ≠ .next := fun x hx => by
      rintro rfl
      have hmem : Happening.next ∈ story cfg r as := by
        rw [hstory]
        exact List.mem_cons_of_mem _ hx
      rcases meets_of_mem_story h hmem with heq | ⟨c₁, a, hok, hmeets⟩
      · cases heq
      · cases hmeets with
        | next next =>
          rw [next, Action.asksNext, decide_eq_false_iff_not] at hok
          exact hok rfl
    have hview : (c.request r).view.call = some (.read stream) := hcall
    rw [life, hstory]
    simp only
    rcases (Request.Reading.new signal).run hnext with
      hreading | ⟨pre, x, post, q', rfl, hlife, hfold, ⟨n, hover⟩, hsettles⟩
    · -- the read is pending, and its collector has not resolved
      rw [← hrequest] at hreading
      obtain ⟨s, hs, htook⟩ := hreading.stream
      cases hview.symm.trans hs
      cases (htook.collector.2 events w hresolved).2
    · rw [hfold] at hrequest
      rw [hrequest] at hview
      have hpost : ∀ x ∈ post, x ≠ .next := fun x hx =>
        hnext x (List.mem_append_right _ (List.mem_cons_of_mem _ hx))
      rw [hlife]
      cases hsettles with
      | @ended response alive w' s kind hcall' htook =>
        obtain ⟨s', hs', htook'⟩ := hover.read_foldl hcall' htook post fun x hx f hf s hs =>
          Request.took_of_use hs (hpost x hx) hf
        cases hview.symm.trans hs'
        obtain ⟨hevents, hw⟩ := htook'.collector.2 events w hresolved
        cases hw
        refine iff_of_true ⟨pre, response, alive, rfl, kind, hevents⟩ ?_
        rintro ⟨pre', alive', heq⟩
        cases (List.append_inj' heq rfl).2
      | closed alive =>
        refine iff_of_false ?_ fun hnot => hnot ⟨pre, alive, rfl⟩
        rintro ⟨pre', response, alive', heq, -⟩
        cases (List.append_inj' heq rfl).2
      | @failed _ s hcall' hbarred =>
        obtain ⟨s', hs', hbarred'⟩ := hover.read_foldl hcall' hbarred post fun x _ f hf s hs =>
          Request.barred_of_use hs hf
        cases hview.symm.trans hs'
        exact absurd hresolved (hbarred'.collector events w)

end Conn

end

namespace Conn

section

attribute [local instance] utf8Codec

/-- The frame of an event for request 2. -/
def orderFrame : Bytes :=
  [0, 0, 0, 23, 8, 2, 26, 19, 10, 17, 8, 7, 18, 13, 10, 5, 111, 114, 100, 101, 114, 18, 1, 97,
    26, 1, 1]

/-- A read is collected, and its first event comes. -/
def collecting : List Action :=
  connectActions ++ [readAll, .permit 2, .slot 2, .writer (.returned true), .collect 2,
    .data orderFrame, .collectStep 2]

/-- The collected event. -/
def orderCollected : List SequencedEvent :=
  [{ position := 7, event := { type := js "order", tags := [js "a"], payload := [1] } }]

/-- Closed while it is being collected, a read resolves with the events so far and the watermark 0,
which the server did not send. -/
theorem collected_truncated : ∃ c stream,
    (connection onePermit).RunWith (fun _ a => a.asksNext 2 = false) (init onePermit)
      (collecting ++ [.closeStream 2, .collectStep 2]) c ∧
      c.calls.get? 2 = some (.read stream) ∧
      stream.collector = some (.resolved orderCollected 0) ∧
      ¬ Complete (life onePermit 2 (collecting ++ [.closeStream 2, .collectStep 2]))
        orderCollected 0 := by
  have hexec : (((connection onePermit).restrict fun _ a => decide (a.asksNext 2 = false)).exec
      (init onePermit) (collecting ++ [.closeStream 2, .collectStep 2])).any (fun c =>
        (c.calls.get? 2).any fun call => call.collectedAs orderCollected 0) = true := by
    decide +kernel
  obtain ⟨c, hrun, hc⟩ := Machine.exists_runWith_of_exec (fun _ _ => of_decide_eq_true) hexec
  obtain ⟨call, hcall, hcollected⟩ := (Option.any_eq_true _ _).1 hc
  obtain ⟨stream, rfl, hresolved⟩ := Call.of_collectedAs hcollected
  refine ⟨c, stream, hrun, hcall, hresolved, ?_⟩
  rintro ⟨pre, response, alive, hlife, -⟩
  have hlast : (life onePermit 2 (collecting ++ [.closeStream 2, .collectStep 2])).getLast? =
      some (.close true) := by decide +kernel
  rw [hlife, List.getLast?_concat] at hlast
  cases hlast

/-- Left alone, it resolves with the watermark of its end. -/
theorem collected_whole : ∃ c stream,
    (connection onePermit).RunWith (fun _ a => a.asksNext 2 = false) (init onePermit)
      (collecting ++ [.data [0, 0, 0, 6, 8, 2, 34, 2, 8, 8], .collectStep 2]) c ∧
      c.calls.get? 2 = some (.read stream) ∧
      stream.collector = some (.resolved orderCollected 8) ∧
      Complete (life onePermit 2
        (collecting ++ [.data [0, 0, 0, 6, 8, 2, 34, 2, 8, 8], .collectStep 2]))
        orderCollected 8 := by
  have hexec : (((connection onePermit).restrict fun _ a => decide (a.asksNext 2 = false)).exec
      (init onePermit)
      (collecting ++ [.data [0, 0, 0, 6, 8, 2, 34, 2, 8, 8], .collectStep 2])).any (fun c =>
        (c.calls.get? 2).any fun call => call.collectedAs orderCollected 8) = true := by
    decide +kernel
  obtain ⟨c, hrun, hc⟩ := Machine.exists_runWith_of_exec (fun _ _ => of_decide_eq_true) hexec
  obtain ⟨call, hcall, hcollected⟩ := (Option.any_eq_true _ _).1 hc
  obtain ⟨stream, rfl, hresolved⟩ := Call.of_collectedAs hcollected
  refine ⟨c, stream, hrun, hcall, hresolved, (collected_iff hrun hcall hresolved).2 ?_⟩
  rintro ⟨pre, alive, hlife⟩
  have hlast : (life onePermit 2 (collecting ++
      [.data [0, 0, 0, 6, 8, 2, 34, 2, 8, 8], .collectStep 2])).getLast? =
      some (.response { requestId := 2, kind := .readEnd { watermark := 8 } } true) := by
    decide +kernel
  rw [hlife, List.getLast?_concat] at hlast
  cases hlast

end

end Conn

end Tephra
