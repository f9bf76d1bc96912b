import Tephra.Conn.Apart
import Tephra.Conn.Memory
import Tephra.Collect

/-!
# Reads get their events

Reads share a connection: their responses come interleaved, framed and cut into chunks at any
place, while consumers and senders go on.

* `Incoming` : the bytes still to come complete what is buffered to the responses still to come.
* `Delivering` : what one read has taken in so far, and what is to come for it.
* `reads_delivered` : every read that is collected resolves with its own events and watermark.
-/

namespace Tephra

open Lib

section

variable [TextCodec] {cfg : Config}

/-- A response of a read without an error: a batch of events, all of them present, or the end. -/
def WireResponse.OfRead (response : WireResponse) : Prop :=
  match response.kind with
  | .readEvents res => ∀ e ∈ res.events, e.event.isSome
  | .readEnd _ => True
  | _ => False

/-- Responses that give read `r` these events, and then its end. -/
inductive Answer (r : ℤ) : List WireResponse → List SequencedEvent → ℤ → Prop
  | batch {res : WireReadEvents} {mapped events : List SequencedEvent} {rest : List WireResponse}
      {w : ℤ} (hmapped : res.events.mapM sequencedFromWire = .ok mapped)
      (hrest : Answer r rest events w) :
      Answer r ({ requestId := r, kind := .readEvents res } :: rest) (mapped ++ events) w
  | done (w : ℤ) : Answer r [{ requestId := r, kind := .readEnd { watermark := w } }] [] w

omit [TextCodec] in
theorem exists_answer (r w : ℤ) {batches : List WireReadEvents}
    (hpresent : ∀ res ∈ batches, ∀ e ∈ res.events, e.event.isSome) :
    ∃ events, (batches.flatMap WireReadEvents.events).mapM sequencedFromWire = .ok events ∧
      Answer r (batches.map (fun res => { requestId := r, kind := .readEvents res }) ++
        [{ requestId := r, kind := .readEnd { watermark := w } }]) events w := by
  induction batches with
  | nil => exact ⟨[], rfl, .done w⟩
  | cons res batches ih =>
    obtain ⟨events, hevents, hanswer⟩ := ih fun res' h => hpresent res' (List.mem_cons_of_mem _ h)
    obtain ⟨mapped, hmapped⟩ := mapM_sequencedFromWire (hpresent res List.mem_cons_self)
    refine ⟨mapped ++ events, ?_, .batch hmapped hanswer⟩
    rw [List.flatMap_cons, List.mapM_append, hmapped, hevents]
    rfl

namespace Conn

variable {c c' : Conn cfg} {r id : ℤ}

/-! ### Reads stay reads -/

/-- Whether a request is a read. -/
def reads (c : Conn cfg) (id : ℤ) : Bool := (c.calls.get? id).any fun call => call.hasType .read

theorem reads_of_move {g : Guard} (hc : Consistent c) (hm : Move g c c')
    (h : c.reads id = true) : c'.reads id = true := by
  obtain ⟨call, hcall, hread⟩ := (Option.any_eq_true _ _).1 h
  have hne : id ≠ c.idCounter + 1 := by
    have := (hc.calls_le id call hcall).2
    omega
  have hnew : ∀ (type : PendingType) (call' : Call), (c.register type call').reads id = true :=
    fun type call' => by
      rw [reads, show (c.register type call').calls.get? id = c.calls.get? id from
        OrdMap.get?_set_of_ne _ hne]
      exact h
  -- what replaces an object has its type
  have hmodify : ∀ {calls : OrdMap ℤ Call} {id' : ℤ} {f : Call → Call},
      calls.get? id = (if id = id' then (c.calls.get? id).map f else c.calls.get? id) →
      (∀ call, c.calls.get? id' = some call → ∀ type, (f call).hasType type = call.hasType type) →
      (calls.get? id).any (fun call => call.hasType .read) = true := fun {calls id' f} heq hf => by
    rw [heq]
    split_ifs with hid
    · subst hid
      rw [hcall, Option.map_some, Option.any_some, hf call hcall]
      exact hread
    · exact h
  have hsettle : ∀ {c₁ : Conn cfg} {id' : ℤ} {f : Call → Call}, c₁.calls = c.calls →
      (∀ call, c.calls.get? id' = some call → call.Ends (f call)) →
      ((c₁.finalize id').settle id' f).reads id = true := fun {c₁ id' f} heq hends => by
    obtain ⟨_, _, hfinal⟩ := c₁.exists_finalize id'
    rw [hfinal]
    refine hmodify ?_ fun call hcall => (hends call hcall).hasType
    simp only [settle, update, record, heq, OrdMap.get?_modify]
  have hdeath : ∀ (c₁ : Conn cfg) (err : Err), c₁.dead = false → c₁.calls = c.calls →
      (c₁.failConnection err).reads id = true := fun c₁ err halive heq => by
    rw [reads, calls_failConnection err halive, heq, hcall]
    split_ifs
    · exact ((Call.ends_reject err call).hasType .read).trans hread
    · exact hread
  cases hm with
  | @register type call' => exact hnew type call'
  | @openStream type call' => exact hnew type call'
  | cancel _ _ _ ends => exact hsettle rfl ends
  | settle _ ends => exact hsettle rfl ends
  | @failPermit s e p inflight f resume entry dead ends => exact hsettle rfl ends
  | deliver _ keeps =>
    exact hmodify (OrdMap.get?_modify _ _ _ _) fun call hcall => (keeps call hcall).hasType
  | consume extends_ =>
    exact hmodify (OrdMap.get?_modify _ _ _ _) fun call hcall => (extends_ call hcall).keeps.hasType
  | jam =>
    exact hmodify (OrdMap.get?_modify _ _ _ _) fun call _ type => by
      cases call <;> cases type <;> rfl
  | throw alive => exact hdeath c.handOver _ alive rfl
  | die alive => exact hdeath c _ alive rfl
  | acquire | dropPermit | keepPermit | enqueue | slotPush | slotDrop | takeFailed | write | gate
  | drain | destroy | refuse | spend => exact h

theorem Consistent.type_of_reads (hc : Consistent c) (h : c.reads id = true) {e : Pending}
    (entry : c.pending.get? id = some e) : e.type = .read := by
  obtain ⟨call, hcall, htype⟩ := hc.entry_call id e entry
  rw [reads, hcall, Option.any_some] at h
  cases call with
  | read stream =>
    cases hetype : e.type with
    | read => rfl
    | unary expect | hello | subscribe => rw [hetype] at htype; cases htype
  | unary deferred abortListener | hello deferred | subscribe stream => cases h

/-! ### One read -/

/-- Where read `r` is that has taken in `taken`, and has ended with `ending` if that is there. -/
structure Reading (c : Conn cfg) (r : ℤ) (taken : List SequencedEvent) (ending : Option ℤ) :
    Prop where
  stream : ∃ stream, c.calls.get? r = some (.read stream) ∧ stream.Took taken ending
  type : ending = none → (c.pending.get? r).map Pending.type = some .read
  senders : ∀ s ∈ c.inflight.users, s.id = r → s.Sendable cfg

/-- Read `r` is to get `events` and the watermark `w`, and the responses `rest` are to come. -/
inductive Delivering (c : Conn cfg) (r : ℤ) (rest : List WireResponse)
    (events : List SequencedEvent)
    (w : ℤ) : Prop
  | ongoing {taken todo : List SequencedEvent} (eq : events = taken ++ todo)
      (answer : Answer r (rest.filter fun response => response.requestId = r) todo w)
      (reading : Reading c r taken none)
  | ended (last : rest.filter (fun response => response.requestId = r) = [])
      (reading : Reading c r events (some w))

variable {rest : List WireResponse} {events taken : List SequencedEvent} {w : ℤ} {ending : Option ℤ}

theorem Reading.apart (h : Reading c r taken ending) (ha : Apart r c c') :
    Reading c' r taken ending where
  stream := by
    obtain ⟨stream, hstream, htook⟩ := h.stream
    exact ⟨stream, ha.call.trans hstream, htook⟩
  type hopen := ha.type.trans (h.type hopen)
  senders s hs hid := h.senders s (ha.senders s hs hid) hid

theorem Delivering.map {rest' : List WireResponse} (h : Delivering c r rest events w)
    (hrest : rest'.filter (fun response => response.requestId = r) =
      rest.filter fun response => response.requestId = r)
    (hreading : ∀ {taken ending}, Reading c r taken ending → Reading c' r taken ending) :
    Delivering c' r rest' events w := by
  cases h with
  | ongoing eq answer reading => exact .ongoing eq (hrest ▸ answer) (hreading reading)
  | ended last reading => exact .ended (hrest.trans last) (hreading reading)

theorem Delivering.senders (h : Delivering c r rest events w) :
    ∀ s ∈ c.inflight.users, s.id = r → s.Sendable cfg := by
  cases h with
  | ongoing eq answer reading => exact reading.senders
  | ended last reading => exact reading.senders

theorem Delivering.exists_stream (h : Delivering c r rest events w) :
    ∃ stream taken ending, c.calls.get? r = some (.read stream) ∧ stream.Took taken ending ∧
      (ending.isSome = true → taken = events ∧ ending = some w) := by
  cases h with
  | ongoing eq answer reading =>
    obtain ⟨stream, hstream, htook⟩ := reading.stream
    exact ⟨stream, _, _, hstream, htook, fun h => (by cases h)⟩
  | ended last reading =>
    obtain ⟨stream, hstream, htook⟩ := reading.stream
    exact ⟨stream, _, _, hstream, htook, fun _ => ⟨rfl, rfl⟩⟩

theorem Reading.other {v : View} (h : Reading c r taken ending) (hch : Changes c c' id v)
    (hne : r ≠ id) : Reading c' r taken ending where
  stream := by
    obtain ⟨stream, hstream, htook⟩ := h.stream
    exact ⟨stream, (congrArg View.call (hch.other r hne)).trans hstream, htook⟩
  type hopen := (congrArg (fun v : View => v.pending.map Pending.type) (hch.other r hne)).trans
    (h.type hopen)
  senders s hs hid := h.senders s (hch.senders s hs) hid

theorem Reading.collects {f : Call → Call} (h : Reading c r taken ending)
    (hf : ∀ stream, c.calls.get? r = some (.read stream) → stream.Took taken ending →
      ∃ stream', f (.read stream) = .read stream' ∧ stream'.Took taken ending) :
    Reading (c.update r f) r taken ending where
  stream := by
    obtain ⟨stream, hstream, htook⟩ := h.stream
    obtain ⟨stream', hf, htook'⟩ := hf stream hstream htook
    refine ⟨stream', ?_, htook'⟩
    rw [update, OrdMap.get?_modify_self, hstream, Option.map_some, hf]
  type := h.type
  senders := h.senders

/-! ### One response -/

omit [TextCodec] in
theorem foldl_deliverRead (mapped : List SequencedEvent) (stream : ReadStream) :
    mapped.foldl (fun (call : Call) e => call.deliverRead e) (.read stream) =
      Call.read (mapped.foldl (fun s e => { s with base := s.base.deliverItem e }) stream) := by
  induction mapped generalizing stream with
  | nil => rfl
  | cons e mapped ih => exact ih _

theorem respond_of_reading (h : Reading c r taken none) (response : WireResponse) :
    ∃ stream, stream.Took taken none ∧
      (c.view r).call = some (.read stream) ∧
      (c.view r).respond response = (c.view r).respondRead response.kind := by
  obtain ⟨stream, hstream, htook⟩ := h.stream
  obtain ⟨e, entry, htype⟩ := Option.map_eq_some_iff.1 (h.type rfl)
  refine ⟨stream, htook, hstream, ?_⟩
  simp only [View.respond, show (c.view r).pending = some e from entry, htype]

theorem Delivering.respond {response : WireResponse}
    (h : Delivering c r (response :: rest) events w)
    (hch : Changes c c' response.requestId ((c.view response.requestId).respond response)) :
    Delivering c' r rest events w := by
  by_cases hid : response.requestId = r
  · rw [hid] at hch
    have hself : (response :: rest).filter (fun response => response.requestId = r) =
        response :: rest.filter fun response => response.requestId = r :=
      List.filter_cons_of_pos (by simpa using hid)
    have hsenders : ∀ s ∈ c'.inflight.users, s.id = r → s.Sendable cfg := fun s hs =>
      h.senders s (hch.senders s hs)
    -- a request that has ended gets no more responses
    cases h with
    | ended last reading => rw [hself] at last; cases last
    | @ongoing taken todo eq answer reading =>
      rw [hself] at answer
      obtain ⟨stream, htook, hcall, hrespond⟩ := respond_of_reading reading response
      have hview := hch.self.trans hrespond
      generalize hrest : rest.filter (fun response => response.requestId = r) = own at answer
      cases answer with
      | @batch res mapped events' rest' _ hmapped hanswer =>
        simp only [View.respondRead, hmapped] at hview
        have htype : (c'.pending.get? r).map Pending.type = some .read :=
          (congrArg (fun v : View => v.pending.map Pending.type) hview).trans (reading.type rfl)
        have heq : events = taken ++ mapped ++ events' := by rw [eq, List.append_assoc]
        refine .ongoing heq (hrest ▸ hanswer)
          ⟨⟨_, ?_, htook.deliverAll mapped⟩, fun _ => htype, hsenders⟩
        refine (congrArg View.call hview).trans ?_
        rw [View.deliver, hcall, Option.map_some, foldl_deliverRead]
      | done w =>
        simp only [View.respondRead] at hview
        refine .ended hrest ⟨⟨stream.endWith w, ?_, ?_⟩, fun h => (by cases h), hsenders⟩
        · refine (congrArg View.call hview).trans ?_
          rw [View.finish, hcall]
          rfl
        · rw [eq, List.append_nil]
          exact htook.endWith w
  · exact h.map (List.filter_cons_of_neg (by simpa using hid)).symm fun reading =>
      reading.other hch (Ne.symm hid)

/-! ### Many responses -/

/-- A response that a connection can get for one of its reads. -/
structure Expected (c : Conn cfg) (response : WireResponse) : Prop where
  wellFormed : response.WellFormed
  length : (encodeResponse response).length ≤ maxArrayLength
  ofRead : response.OfRead
  reads : c.reads response.requestId = true

theorem Expected.moves {g : Guard} {response : WireResponse} (h : Expected c response)
    (hc : Consistent c) (hm : Moves g c c') : Expected c' response where
  wellFormed := h.wellFormed
  length := h.length
  ofRead := h.ofRead
  reads := keeps_of_moves hm hc (I := fun c => c.reads response.requestId = true) h.reads
    fun hc h hm => reads_of_move hc hm h

theorem changes_of_expected {response : WireResponse} (hc : Consistent c)
    (h : Expected c response) :
    ∃ c', c.route (encodeResponse response) = (c', none) ∧
      Changes c c' response.requestId ((c.view response.requestId).respond response) := by
  obtain ⟨call, hcall, -⟩ := (Option.any_eq_true _ _).1 h.reads
  have hpos := (hc.calls_le _ call hcall).1
  rw [route, decodeResponse_encodeResponse h.wellFormed h.length]
  refine changes_routeResponse (by omega) fun e entry hviolates => ?_
  rw [hc.type_of_reads h.reads entry] at hviolates
  have hof := h.ofRead
  unfold WireResponse.OfRead at hof
  cases hkind : response.kind with
  | readEvents res =>
    rw [hkind] at hof hviolates
    obtain ⟨mapped, hmapped⟩ := mapM_sequencedFromWire hof
    rw [violates, hmapped] at hviolates
    cases hviolates
  | readEnd res => rw [hkind] at hviolates; cases hviolates
  | append res | error res | caughtUp res | stats res | helloAck res | none =>
    rw [hkind] at hof
    cases hof

theorem delivering_routeAll {responses : List WireResponse} (hc : Consistent c)
    (alive : c.dead = false) (hexpected : ∀ response ∈ responses, Expected c response)
    (h : Delivering c r (responses ++ rest) events w) :
    (c.routeAll (responses.map encodeResponse)).dead = false ∧
      Delivering (c.routeAll (responses.map encodeResponse)) r rest events w := by
  induction responses generalizing c with
  | nil => exact ⟨alive, h⟩
  | cons response responses ih =>
    obtain ⟨c', hroute, hch⟩ := changes_of_expected hc (hexpected response List.mem_cons_self)
    have hmoves : Moves .all c (c.route (encodeResponse response)).1 :=
      moves_route hc fun _ _ _ => trivial
    rw [hroute] at hmoves
    have hrouteAll : c.routeAll ((response :: responses).map encodeResponse) =
        c'.routeAll (responses.map encodeResponse) := by
      rw [List.map_cons, routeAll, hroute]
    rw [hrouteAll]
    refine ih (hc.moves hmoves) (hch.dead.trans alive) (fun response' h' => ?_) (h.respond hch)
    exact (hexpected response' (List.mem_cons_of_mem _ h')).moves hc hmoves

/-! ### Chunks -/

/-- The bytes `future` complete what is buffered to the frames of the responses `rest`. -/
structure Incoming (d : FrameDecoder) (future : Bytes) (rest : List WireResponse) : Prop where
  bad : ((frames d.maxFrameLen).parse (d.buffer ++ future)).bad = false
  values : ((frames d.maxFrameLen).parse (d.buffer ++ future)).values = rest.map encodeResponse

theorem Incoming.push {d : FrameDecoder} {chunk future : Bytes}
    (h : Incoming d (chunk ++ future) rest) :
    ∃ d' responses rest', rest = responses ++ rest' ∧
      d.push chunk = (d', .ok (responses.map encodeResponse)) ∧ Incoming d' future rest' := by
  obtain ⟨hbad, hvalues⟩ := h
  rw [← List.append_assoc] at hbad hvalues
  have hchunk := Splitter.not_bad_of_append hbad
  rw [Splitter.parse_append future hchunk] at hbad hvalues
  have hsplit : ((frames d.maxFrameLen).parse (d.buffer ++ chunk)).values ++
      ((frames d.maxFrameLen).parse
        (((frames d.maxFrameLen).parse (d.buffer ++ chunk)).rest ++ future)).values =
      rest.map encodeResponse := by
    rw [← hvalues]
    simp only [Parsed.values, Parsed.prepend, List.map_append]
  obtain ⟨responses, rest', hrest, hnow, hlater⟩ := List.append_eq_map_iff.1 hsplit
  exact ⟨{ d with buffer := ((frames d.maxFrameLen).parse (d.buffer ++ chunk)).rest }, responses,
    rest', hrest, by rw [FrameDecoder.push_of_not_bad hchunk, hnow], ⟨hbad, hlater.symm⟩⟩

theorem maxFrameLen_of_step {a : Action} (hc : Consistent c) (hstep : c.step a = some c') :
    c'.decoder.maxFrameLen = c.decoder.maxFrameLen := by
  rw [decoder_of_step hc hstep]
  cases a with
  | data chunk => exact c.decoder.push_maxFrameLen chunk
  | append req signal | stats signal | read req signal | subscribe req signal | close
  | closeStream id | next id | collect id | abort id reason | socketError err | socketClose
  | drained | permit id | slot id | sendFailed id | writer outcome | drainResumed outcome
  | drainRejected | abortMicrotask id | collectStep id => rfl

/-- A step of which the connection does not die leaves no complete frame in the decoder. -/
theorem incomplete_of_step {a : Action} (hc : Consistent c)
    (hmore : c.dead = false → frameHead c.decoder.maxFrameLen c.decoder.buffer = .more)
    (hstep : c.step a = some c') (halive : c'.dead = false) :
    frameHead c.decoder.maxFrameLen c'.decoder.buffer = .more := by
  have hdead : c.dead = false := by
    by_contra hne
    rw [Bool.not_eq_false] at hne
    have hdead' := keeps_of_moves (moves_of_step hc (.all c a) hstep) (hc.receive a)
      (I := fun c => c.dead = true) (by cases a <;> exact hne) fun _ h hm => dead_of_move hm h
    cases halive.symm.trans hdead'
  have hdecoder := decoder_of_step hc hstep
  cases a with
  | data chunk =>
    have hrest := Splitter.head_rest (S := frames c.decoder.maxFrameLen) (c.decoder.buffer ++ chunk)
    cases hbad : ((frames c.decoder.maxFrameLen).parse (c.decoder.buffer ++ chunk)).bad with
    | true =>
      -- the push throws, and the connection is dead
      simp only [step, onData, FrameDecoder.push_of_bad hbad] at hstep
      split_ifs at hstep
      cases hstep
      cases halive.symm.trans (dead_failConnection _ _)
    | false =>
      rw [hbad, if_neg Bool.false_ne_true] at hrest
      simp only [receive, FrameDecoder.push_of_not_bad hbad] at hdecoder
      rw [hdecoder]
      exact hrest
  | append req signal | stats signal | read req signal | subscribe req signal | close
  | closeStream id | next id | collect id | abort id reason | socketError err | socketClose
  | drained | permit id | slot id | sendFailed id | writer outcome | drainResumed outcome
  | drainRejected | abortMicrotask id | collectStep id =>
    rw [hdecoder]
    exact hmore hdead

/-- The decoder of a connection that is alive holds no complete frame. -/
theorem incomplete_of_run {as : List Action} (h : (connection cfg).Run (init cfg) as c) :
    c.decoder.maxFrameLen = cfg.maxFrameLen ∧
      (c.dead = false → frameHead cfg.maxFrameLen c.decoder.buffer = .more) := by
  refine (h.invariant (I := fun c => Consistent c ∧ c.decoder.maxFrameLen = cfg.maxFrameLen ∧
    (c.dead = false → frameHead cfg.maxFrameLen c.decoder.buffer = .more))
    ⟨.init cfg, rfl, fun _ => rfl⟩ ?_).2
  rintro c a c' ⟨hc, hmax, hmore⟩ - hstep
  rw [← hmax] at hmore ⊢
  exact ⟨hc.step hstep, maxFrameLen_of_step hc hstep, incomplete_of_step hc hmore hstep⟩

/-! ### Steps and runs -/

/-- A connection on which read `r` is to get `events` and the watermark `w`, from the responses
`rest`, whose frames the bytes `future` complete. -/
structure Serving (c : Conn cfg) (future : Bytes) (rest : List WireResponse) (r : ℤ)
    (events : List SequencedEvent) (w : ℤ) : Prop where
  consistent : Consistent c
  alive : c.dead = false
  noFailed : NoFailedSends c
  incoming : Incoming c.decoder future rest
  expected : ∀ response ∈ rest, Expected c response
  delivering : Delivering c r rest events w

theorem Serving.data {chunk future : Bytes} (h : Serving c (chunk ++ future) rest r events w) :
    ∃ rest', rest' ⊆ rest ∧ Incoming (c.decoder.push chunk).1 future rest' ∧
      (c.onData chunk).dead = false ∧ Delivering (c.onData chunk) r rest' events w := by
  obtain ⟨d', responses, rest', rfl, hpush, hincoming⟩ := h.incoming.push
  have hc' : Consistent { c with decoder := d' } := h.consistent.congr rfl rfl rfl rfl rfl rfl
    fun _ hp => hp
  have hexpected : ∀ response ∈ responses, Expected { c with decoder := d' } response :=
    fun response hr => by
      obtain ⟨hwell, hlen, hof, hreads⟩ := h.expected response (List.mem_append_left _ hr)
      exact ⟨hwell, hlen, hof, hreads⟩
  have hdelivering : Delivering { c with decoder := d' } r (responses ++ rest') events w :=
    h.delivering.map rfl fun reading => reading.apart (.of_eq rfl rfl rfl rfl)
  have hdata : c.onData chunk =
      { c with decoder := d' }.routeAll (responses.map encodeResponse) := by
    rw [onData, hpush]
  rw [hdata, hpush]
  exact ⟨rest', List.subset_append_right _ _, hincoming,
    delivering_routeAll hc' h.alive hexpected hdelivering⟩

theorem Serving.collects {a : Action} {future : Bytes} (h : Serving c future rest r events w)
    (hcollects : a.collects r = true) (hstep : c.step a = some c') :
    c'.dead = false ∧ Delivering c' r rest events w := by
  have hupdate : ∀ {f : Call → Call}, (∀ taken ending stream, c.calls.get? r = some (.read stream) →
      stream.Took taken ending → ∃ stream', f (.read stream) = .read stream' ∧
        stream'.Took taken ending) → Delivering (c.update r f) r rest events w := fun hf =>
    h.delivering.map rfl fun reading => reading.collects (hf _ _)
  cases taken_of_step hstep with
  | @collect id stream hcall hnone =>
    obtain rfl : id = r := of_decide_eq_true hcollects
    refine ⟨h.alive, hupdate fun taken ending stream' hcall' htook => ⟨_, rfl, ?_⟩⟩
    cases hcall.symm.trans hcall'
    exact htook.collect (Option.isNone_iff_eq_none.1 hnone)
  | @collectStep id stream stream' hcall hturn =>
    obtain rfl : id = r := of_decide_eq_true hcollects
    refine ⟨h.alive, hupdate fun taken ending stream'' hcall' htook => ⟨_, rfl, ?_⟩⟩
    cases hcall.symm.trans hcall'
    exact htook.collectStep hturn
  | append req signal | stats signal | read req signal | subscribe req signal | close
  | closeStream | next | abortStream | abortUnary | data chunk | socketError err | socketClose
  | drained | permit | slot | sendFailed | writer outcome | drainResumed outcome
  | drainRejected | abortMicrotask => cases hcollects

theorem Serving.step {a : Action} {future : Bytes}
    (h : Serving c (a.chunk?.getD [] ++ future) rest r events w) (hfails : a.fails = false)
    (hdisturbs : a.disturbs r = false) (hstep : c.step a = some c') :
    ∃ rest', Serving c' future rest' r events w := by
  have hc := h.consistent
  have hmoves := moves_of_step hc (.all c a) hstep
  have hfailed : NoFailedSends c' := keeps_of_moves hmoves (hc.receive a)
    (by cases a <;> exact h.noFailed) fun _ h hm => h.move hm
  have hexpected : ∀ {response}, Expected c response → Expected c' response := fun hr => by
    refine Expected.moves (c := c.receive a) ?_ (hc.receive a) hmoves
    obtain ⟨hwell, hlen, hof, hreads⟩ := hr
    exact ⟨hwell, hlen, hof, by cases a <;> exact hreads⟩
  have hdecoder := decoder_of_step hc hstep
  suffices ∃ rest', rest' ⊆ rest ∧ Incoming c'.decoder future rest' ∧ c'.dead = false ∧
      Delivering c' r rest' events w by
    obtain ⟨rest', hsub, hincoming, halive, hdelivering⟩ := this
    exact ⟨rest', hc.step hstep, halive, hfailed, hincoming,
      fun response hr => hexpected (h.expected response (hsub hr)), hdelivering⟩
  cases hchunk : a.chunk? with
  | some chunk =>
    cases a with
    | data chunk =>
      simp only [Conn.step] at hstep
      split_ifs at hstep
      cases hstep
      rw [hdecoder]
      exact h.data
    | append req signal | stats signal | read req signal | subscribe req signal | close
    | closeStream id | next id | collect id | abort id reason | socketError err | socketClose
    | drained | permit id | slot id | sendFailed id | writer outcome | drainResumed outcome
    | drainRejected | abortMicrotask id | collectStep id => cases hchunk
  | none =>
    rw [hchunk] at h
    -- no data: the step is a turn of `collect()`, or leaves the read alone
    have hkeep : c'.decoder = c.decoder := by
      rw [hdecoder]
      cases a <;> first | rfl | cases hchunk
    refine ⟨rest, List.Subset.refl _, hkeep ▸ h.incoming, ?_⟩
    cases hcollects : a.collects r with
    | true => exact h.collects hcollects hstep
    | false =>
      obtain ⟨stream, -, -, hcall, -⟩ := h.delivering.exists_stream
      have hapart := apart_of_step h.alive h.noFailed (hc.calls_le r _ hcall).2 h.delivering.senders
        hchunk hfails hdisturbs hcollects hstep
      exact ⟨hapart.dead.trans h.alive, h.delivering.map rfl fun reading => reading.apart hapart⟩

/-- Whatever chunks the bytes come in, and whatever goes on meanwhile. -/
theorem Serving.run {as : List Action} {all : Bytes}
    (hrun : (connection cfg).RunWith (fun _ a => a.fails = false ∧ a.disturbs r = false) c as c')
    (h : Serving c all rest r events w) {future : Bytes}
    (hall : (received as).flatten ++ future = all) :
    ∃ rest', Serving c' future rest' r events w := by
  refine hrun.history (I := fun as c' => ∀ future, (received as).flatten ++ future = all →
    ∃ rest', Serving c' future rest' r events w) ?_ ?_ future hall
  · rintro future rfl
    exact ⟨rest, h⟩
  intro as c₁ a c₂ ih ⟨hfails, hdisturbs⟩ hstep future hall
  rw [received, List.filterMap_append, ← received, List.flatten_append, List.append_assoc] at hall
  obtain ⟨rest₁, h₁⟩ := ih _ hall
  have hchunk : ([a].filterMap Action.chunk?).flatten = a.chunk?.getD [] := by
    cases hchunk : a.chunk? <;> simp [hchunk]
  rw [hchunk] at h₁
  exact h₁.step hfails hdisturbs hstep

theorem exists_collectStep {stream stream' : ReadStream}
    (hcall : c.calls.get? r = some (.read stream))
    (hturn : stream.collectStep = some stream') :
    ∃ c', c.step (.collectStep r) = some c' ∧ c'.calls.get? r = some (.read stream') := by
  refine ⟨c.update r fun _ => .read stream', ?_, ?_⟩
  · simp only [Conn.step, hcall, hturn, Option.map_some]
  · rw [update, OrdMap.get?_modify_self, hcall, Option.map_some]

/-- A collector whose read has ended resolves within as many turns as there are events, and one. -/
theorem exists_collected {stream : ReadStream} (hcall : c.calls.get? r = some (.read stream))
    (htook : stream.Took events (some w)) (hcollector : stream.collector.isSome = true) :
    ∃ n c', n ≤ events.length - stream.collected + 1 ∧
      (connection cfg).Run c (List.replicate n (.collectStep r)) c' ∧
      ∃ stream', c'.calls.get? r = some (.read stream') ∧
        stream'.collector = some (.resolved events w) := by
  obtain ⟨k, hk⟩ : ∃ k, events.length - stream.collected = k := ⟨_, rfl⟩
  induction k generalizing c stream with
  | zero =>
    rcases htook.progress hcollector with hresolved | ⟨stream', hstep, hresolved | ⟨-, -, hlt⟩⟩
    · exact ⟨0, c, Nat.zero_le _, .start, stream, hcall, hresolved⟩
    · obtain ⟨c₁, hstep₁, hcall₁⟩ := exists_collectStep hcall hstep
      exact ⟨1, c₁, Nat.le_add_left _ _, .single trivial hstep₁, stream', hcall₁, hresolved⟩
    · omega
  | succ k ih =>
    rcases htook.progress hcollector with
      hresolved | ⟨stream', hstep, hresolved | ⟨hsome, hnext, -⟩⟩
    · exact ⟨0, c, Nat.zero_le _, .start, stream, hcall, hresolved⟩
    · obtain ⟨c₁, hstep₁, hcall₁⟩ := exists_collectStep hcall hstep
      exact ⟨1, c₁, Nat.le_add_left _ _, .single trivial hstep₁, stream', hcall₁, hresolved⟩
    · obtain ⟨c₁, hstep₁, hcall₁⟩ := exists_collectStep hcall hstep
      have htook' := htook.collectStep hstep
      obtain ⟨n, c', hn, hrun, hend⟩ := ih hcall₁ htook' hsome (by omega)
      refine ⟨n + 1, c', by omega, ?_, hend⟩
      rw [List.replicate_succ]
      exact .cons trivial hstep₁ hrun

/-! ### End to end -/

theorem length_le_of_written {responses : List WireResponse} {written : List Bytes}
    (h : List.Forall₂ (fun response bytes =>
      writeFrame (encodeResponse response) cfg.maxFrameLen = .ok bytes) responses written) :
    ∀ response ∈ responses, (encodeResponse response).length ≤ cfg.maxFrameLen := by
  induction h with
  | nil => exact fun _ h => (by cases h)
  | @cons response bytes responses written hbytes _ ih =>
    intro response' hmem
    rcases List.mem_cons.1 hmem with rfl | hmem
    · exact (writeFrame_eq_ok hbytes).1
    · exact ih response' hmem

/-- Read `r` is outstanding, with nothing taken in, and its request is sent or fits a frame. -/
structure Outstanding (c : Conn cfg) (r : ℤ) : Prop where
  stream : ∃ stream, c.calls.get? r = some (.read stream) ∧ stream.Untouched
  type : (c.pending.get? r).map Pending.type = some .read
  senders : ∀ s ∈ c.inflight.users, s.id = r → s.Sendable cfg

/-- The responses can be sent, and what is received of them is the beginning of their frames. -/
theorem Serving.start (hmax : cfg.maxFrameLen < 2 ^ 32) {as₀ : List Action}
    (h₀ : (connection cfg).Run (init cfg) as₀ c) (alive : c.dead = false)
    {responses : List WireResponse} {written : List Bytes}
    (hresponses : ∀ response ∈ responses,
      response.WellFormed ∧ response.OfRead ∧ c.reads response.requestId = true)
    (hwritten : List.Forall₂ (fun response bytes =>
      writeFrame (encodeResponse response) cfg.maxFrameLen = .ok bytes) responses written)
    (outstanding : Outstanding c r)
    (answer : Answer r (responses.filter fun response => response.requestId = r) events w)
    {future : Bytes} (hfuture : c.decoder.buffer ++ future = written.flatten) :
    Serving c future responses r events w := by
  obtain ⟨hdecoder, -⟩ := incomplete_of_run h₀
  obtain ⟨hbad, hvalues⟩ := values_writeFrames hmax (List.forall₂_map_left_iff.2 hwritten)
  obtain ⟨stream, hcall, huntouched⟩ := outstanding.stream
  refine ⟨consistent_of_run h₀, alive, ?_, ?_, fun response hmem => ?_, ?_⟩
  · exact invariant_of_run (allowed_of_run h₀) (I := NoFailedSends) (fun _ => rfl)
      (fun c a h => by cases a <;> exact h) fun _ h hm => h.move hm
  · rw [← hfuture, ← hdecoder] at hbad hvalues
    exact ⟨hbad, hvalues⟩
  · obtain ⟨hwell, hof, hreads⟩ := hresponses response hmem
    have hlen := length_le_of_written hwritten response hmem
    exact ⟨hwell, hlen.trans (by unfold maxArrayLength; omega), hof, hreads⟩
  · exact .ongoing rfl answer ⟨⟨stream, hcall, huntouched.took⟩, fun _ => outstanding.type,
      outstanding.senders⟩

theorem Serving.nil (h : Serving c [] rest r events w)
    (hmore : frameHead c.decoder.maxFrameLen c.decoder.buffer = .more) : rest = [] := by
  have hvalues := h.incoming.values
  rw [List.append_nil, Splitter.parse_more hmore] at hvalues
  exact List.map_eq_nil_iff.1 hvalues.symm

/-- Responses of reads arrive in any chunks on a connection that is alive and not failed from
outside, after what its decoder holds at first.  A read that is outstanding, is neither closed nor
aborted and has no other consumer than `collect()` never rejects and resolves with nothing but the
events of its own batches and its own watermark; and when all bytes are there, its collector has
resolved with them as soon as it has no more turn to take, after at most one turn for each event and
one. -/
theorem reads_delivered (hmax : cfg.maxFrameLen < 2 ^ 32) {as₀ as : List Action} {c₀ : Conn cfg}
    (h₀ : (connection cfg).Run (init cfg) as₀ c₀) (alive : c₀.dead = false)
    {responses : List WireResponse} {written : List Bytes}
    (hresponses : ∀ response ∈ responses,
      response.WellFormed ∧ response.OfRead ∧ c₀.reads response.requestId = true)
    (hwritten : List.Forall₂ (fun response bytes =>
      writeFrame (encodeResponse response) cfg.maxFrameLen = .ok bytes) responses written)
    {batches : List WireReadEvents} (outstanding : Outstanding c₀ r)
    (hown : responses.filter (fun response => response.requestId = r) =
      batches.map (fun res => { requestId := r, kind := .readEvents res }) ++
        [{ requestId := r, kind := .readEnd { watermark := w } }])
    (h : (connection cfg).RunWith (fun _ a => a.fails = false ∧ a.disturbs r = false) c₀ as c)
    (hbytes : c₀.decoder.buffer ++ (received as).flatten <+: written.flatten) :
    ∃ events stream, (batches.flatMap WireReadEvents.events).mapM sequencedFromWire = .ok events ∧
      c.calls.get? r = some (.read stream) ∧
      (∀ reason, stream.collector ≠ some (.rejected reason)) ∧
      (∀ events' w', stream.collector = some (.resolved events' w') → events' = events ∧ w' = w) ∧
      (c₀.decoder.buffer ++ (received as).flatten = written.flatten →
        stream.collector.isSome = true →
          (c.step (.collectStep r) = none → stream.collector = some (.resolved events w)) ∧
          ∃ n c', n ≤ events.length + 1 ∧
            (connection cfg).Run c (List.replicate n (.collectStep r)) c' ∧
            ∃ stream', c'.calls.get? r = some (.read stream') ∧
              stream'.collector = some (.resolved events w)) := by
  have hpresent : ∀ res ∈ batches, ∀ e ∈ res.events, e.event.isSome := fun res hres => by
    have hmem : (⟨r, .readEvents res⟩ : WireResponse) ∈
        responses.filter (fun response => response.requestId = r) := by
      rw [hown]
      exact List.mem_append_left _ (List.mem_map.2 ⟨res, hres, rfl⟩)
    exact (hresponses _ (List.mem_filter.1 hmem).1).2.1
  obtain ⟨events, hevents, hanswer⟩ := exists_answer r w hpresent
  -- `future` is what has not been delivered yet; the run consumes it
  obtain ⟨future, hfuture⟩ := hbytes
  rw [List.append_assoc] at hfuture
  have hserving := Serving.start hmax h₀ alive hresponses hwritten outstanding (hown ▸ hanswer)
    hfuture
  obtain ⟨rest, hend⟩ := hserving.run h rfl
  obtain ⟨stream, taken, ending, hcall, htook, hended⟩ := hend.delivering.exists_stream
  refine ⟨events, stream, hevents, hcall, htook.collector.1, fun events' w' hresolved => ?_,
    fun hall hcollector => ?_⟩
  · obtain ⟨htaken, hw'⟩ := htook.collector.2 events' w' hresolved
    obtain ⟨hevents', hw⟩ := hended (by rw [hw']; rfl)
    exact ⟨htaken.trans hevents', Option.some.inj (hw'.symm.trans hw)⟩
  · have hnil : future = [] := by
      -- with all bytes in, nothing of the stream is left, and the read has been ended
      rw [← List.append_assoc, hall] at hfuture
      exact List.append_right_eq_self.1 hfuture
    subst hnil
    obtain ⟨hdecoder, hmore⟩ := incomplete_of_run (h₀.trans h.run)
    have hrest := hend.nil (by rw [hdecoder]; exact hmore hend.alive)
    have htook' : stream.Took events (some w) := by
      rcases hend.delivering with ⟨_, answer, _⟩ | ⟨_, reading⟩
      · rw [hrest] at answer
        cases answer
      · obtain ⟨stream', hcall', htook'⟩ := reading.stream
        cases hcall.symm.trans hcall'
        exact htook'
    refine ⟨fun hstuck => ?_, ?_⟩
    · rcases htook'.progress hcollector with hresolved | ⟨stream', hturn, -⟩
      · exact hresolved
      · obtain ⟨c', hstep, -⟩ := exists_collectStep hcall hturn
        cases hstuck.symm.trans hstep
    · obtain ⟨n, c', hn, hturns⟩ := exists_collected hcall htook' hcollector
      exact ⟨n, c', by omega, hturns⟩

end Conn

end

/-- Whether a read is being collected, or was. -/
def Call.collecting : Call → Bool
  | .read stream => stream.collector.isSome
  | _ => false

namespace Conn

section

attribute [local instance] utf8Codec

/-- Two reads are opened on a connection with one permit, and the first is sent. -/
def twoReads : List Action :=
  connectActions ++ [readAll, readAll, .permit 2, .slot 2, .writer (.returned true)]

/-- An order. -/
def orderEvent : WireEvent := { type := js "order", tags := [js "a"], payload := [1] }

/-- An event for the first read, the end of the second, and the end of the first. -/
def twoReadsResponses : List WireResponse :=
  [{ requestId := 2,
     kind := .readEvents { events := [{ position := 7, event := some orderEvent }] } },
    { requestId := 3, kind := .readEnd { watermark := 9 } },
    { requestId := 2, kind := .readEnd { watermark := 8 } }]

/-- The first read is collected while the frames arrive, cut inside a prefix and a body. -/
def collectActions : List Action :=
  [.data [0, 0], .collect 2,
    .data
      [0, 23, 8, 2, 26, 19, 10, 17, 8, 7, 18, 13, 10, 5, 111, 114, 100, 101, 114, 18, 1, 97, 26],
    .data [1, 1, 0, 0, 0, 6, 8, 3, 34, 2, 8, 9, 0, 0, 0, 6, 8, 2, 34, 2, 8, 8]]

theorem twoReadsResponses_wellFormed : ∀ response ∈ twoReadsResponses,
    response.WellFormed ∧ response.OfRead := by
  have horder : orderEvent.WellFormed := ⟨by decide +kernel, by decide +kernel⟩
  intro response hresponse
  rcases List.mem_cons.1 hresponse with rfl | hresponse
  · refine ⟨⟨by decide, fun e he => ?_⟩, fun e he => ?_⟩
    · rw [List.mem_singleton.1 he]
      exact ⟨by decide, fun event hevent => by cases hevent; exact horder⟩
    · rw [List.mem_singleton.1 he]
      rfl
  · rcases List.mem_cons.1 hresponse with rfl | hresponse
    · exact ⟨⟨by decide, show IsU64 9 by decide⟩, trivial⟩
    · rw [List.mem_singleton.1 hresponse]
      exact ⟨⟨by decide, show IsU64 8 by decide⟩, trivial⟩

/-- The first read resolves with its event and its end. -/
theorem first_delivered : ∃ c₀ c, (connection onePermit).Run (init onePermit) twoReads c₀ ∧
    (connection onePermit).Run c₀ collectActions c ∧ ∃ n c',
      (connection onePermit).Run c (List.replicate n (.collectStep 2)) c' ∧
        ∃ stream, c'.calls.get? 2 = some (.read stream) ∧ stream.collector = some (.resolved
          [{ position := 7,
             event := { type := js "order", tags := [js "a"], payload := [1] } }] 8) := by
  have hexec : ((connection onePermit).exec (init onePermit) twoReads).any (fun c₀ =>
      !c₀.dead && c₀.reads 2 && c₀.reads 3 && c₀.decoder.buffer = [] &&
        c₀.calls.get? 2 = some (.read (.new .none)) &&
        (c₀.pending.get? 2).map Pending.type = some .read &&
        (c₀.inflight.users.all fun s => s.id ≠ 2) &&
        (((connection onePermit).restrict fun _ a => !a.fails && !a.disturbs 2).exec c₀
          collectActions).any fun c =>
            (c.calls.get? 2).any Call.collecting) = true := by
    decide +kernel
  obtain ⟨c₀, h₀, hc₀⟩ := Machine.exists_run_of_exec hexec
  simp only [Bool.and_eq_true, decide_eq_true_eq, Bool.not_eq_true'] at hc₀
  obtain ⟨⟨⟨⟨⟨⟨⟨alive, hread⟩, hread'⟩, hbuffer⟩, hcall⟩, htype⟩, hsenders⟩, hexec'⟩ := hc₀
  have hallowed : ∀ (_ : Conn onePermit) (a : Action),
      (!a.fails && !a.disturbs 2) = true → a.fails = false ∧ a.disturbs 2 = false :=
      fun _ a ha => by
    simpa using ha
  obtain ⟨c, h, hc⟩ := Machine.exists_runWith_of_exec hallowed hexec'
  have hwritten : List.Forall₂ (fun response bytes =>
      writeFrame (encodeResponse response) onePermit.maxFrameLen = .ok bytes) twoReadsResponses
      [[0, 0, 0, 23, 8, 2, 26, 19, 10, 17, 8, 7, 18, 13, 10, 5, 111, 114, 100, 101, 114, 18, 1, 97,
        26, 1, 1], [0, 0, 0, 6, 8, 3, 34, 2, 8, 9], [0, 0, 0, 6, 8, 2, 34, 2, 8, 8]] :=
    .cons (by decide +kernel) (.cons (by decide +kernel) (.cons (by decide +kernel) .nil))
  have houtstanding : Outstanding c₀ 2 :=
    ⟨⟨_, hcall, rfl, .inl ⟨rfl, rfl⟩⟩, htype, fun s hs hid => by
    have := List.all_eq_true.1 hsenders s hs
    simp only [decide_eq_true_eq] at this
    exact absurd hid this⟩
  have hreads : ∀ response ∈ twoReadsResponses, c₀.reads response.requestId = true := by
    intro response hresponse
    have hid : ∀ response ∈ twoReadsResponses, response.requestId = 2 ∨ response.requestId = 3 := by
      decide
    rcases hid response hresponse with hid | hid <;> rw [hid] <;> assumption
  have hown : twoReadsResponses.filter (fun response => response.requestId = 2) =
      [{ events := [{ position := 7, event := some orderEvent }] }].map
        (fun res : WireReadEvents => { requestId := 2, kind := .readEvents res }) ++
        [{ requestId := 2, kind := .readEnd { watermark := 8 } }] := rfl
  obtain ⟨events, stream, hevents, hcall', -, -, hall⟩ := reads_delivered (by decide) h₀ alive
    (fun response hr => ⟨(twoReadsResponses_wellFormed response hr).1,
      (twoReadsResponses_wellFormed response hr).2, hreads response hr⟩) hwritten
    houtstanding hown h
    (by rw [hbuffer]; decide +kernel)
  rw [hcall'] at hc
  obtain ⟨-, n, c', -, hrun, stream', hcall'', hresolved⟩ :=
    hall (by rw [hbuffer]; decide +kernel) hc
  cases hevents
  exact ⟨c₀, c, h₀, h.run, n, c', hrun, stream', hcall'', hresolved⟩

end

end Conn

end Tephra
