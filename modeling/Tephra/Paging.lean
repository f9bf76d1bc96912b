import Tephra.Lanes
import Tephra.Lib.Pages
import Tephra.Returns

/-!
# Reading page by page

A caller reads so many events, then again so many with the cursor at the last one it was given,
until it is given none.  Meanwhile events are appended, and the client does other things.

* `PageRead` : one read of a client, from its call until its consumer is told the end.
* `PagesRead` : such reads one after the other.
* `pages_complete` : what they give together is what one read without limit asks for, forwards of
  the log at the end and backwards of the log at the start.
-/

namespace Tephra

open Lib

/-- A read of at most `n` events. -/
def readPage (q : Query) (n : ℕ) (after : ℤ) : ClientCall :=
  .read q (some after) (some (.number (some n))) .none

/-- A read of at most `n` events backwards. -/
def readBackPage (q : Query) (n : ℕ) (before : ℤ) : ClientCall :=
  .readBack q (some before) (some (.number (some n))) .none

/-- The events a query selects. -/
def Query.selected (q : Query) (log : List SequencedEvent) : List SequencedEvent :=
  log.filter fun e => q.Selects e.event

section

variable {q : Query} {n : ℕ} {cursor : ℤ} {log : List SequencedEvent}

theorem selectedAfter_eq :
    selectedAfter (fun e => q.Selects e) cursor log =
      rest SequencedEvent.position cursor (q.selected log) :=
  (List.filter_filter ..).symm

theorem selectedBefore_eq :
    (selectedBefore (fun e => q.Selects e) cursor log).reverse =
      rest (fun e => OrderDual.toDual e.position) (OrderDual.toDual cursor)
        (q.selected log).reverse := by
  rw [rest, List.filter_reverse, Query.selected, List.filter_filter]
  rfl

theorem answer_readPage :
    (readPage q n cursor).answer log = page SequencedEvent.position n cursor (q.selected log) := by
  show capped (some (n : ℤ)) (selectedAfter (fun e => q.Selects e) cursor log) = _
  rw [selectedAfter_eq]
  rfl

theorem answer_readBackPage :
    (readBackPage q n cursor).answer log =
      page (fun e => OrderDual.toDual e.position) n (OrderDual.toDual cursor)
        (q.selected log).reverse := by
  show capped (some (n : ℤ)) (selectedBefore (fun e => q.Selects e) cursor log).reverse = _
  rw [selectedBefore_eq]
  rfl

theorem Query.selected_sorted (h : log.Pairwise fun e e' => e.position < e'.position) :
    (q.selected log).Pairwise fun e e' => e.position < e'.position := h.filter _

theorem Query.selected_reverse_sorted (h : log.Pairwise fun e e' => e.position < e'.position) :
    (q.selected log).reverse.Pairwise fun e e' =>
      OrderDual.toDual e.position < OrderDual.toDual e'.position :=
  List.pairwise_reverse.2 (h.filter _)

end

section

variable [TextCodec] {cfg : Config}

theorem clear_readPage {q : Query} {n : ℕ} {cursor : ℤ} (hquery : (queryToWire q).WellFormed)
    (hcursor : IsU64 cursor) (hlimit : n < 2 ^ 64) :
    (readPage q n cursor).Clear ∧ (readBackPage q n cursor).Clear := by
  have hnumber : ∀ limit : ℤ, some (n : ℤ) = some limit → IsU64 limit := by
    rintro limit ⟨⟩
    exact ⟨Int.natCast_nonneg n, by exact_mod_cast hlimit⟩
  constructor
  · rintro kind ⟨⟩
    exact ⟨hquery, hcursor, hnumber⟩
  · rintro kind ⟨⟩
    exact ⟨hquery, hcursor, hnumber⟩

/-- The events that a server sends have positions that arrive as they are. -/
theorem Service.isU64_of_mem_answer {c : Conn cfg} {id : ℤ} {log : List SequencedEvent}
    {call : ClientCall} (srv : Service (ReadServed log) c id) (h : call.demand? = .ok srv.demand)
    {e : SequencedEvent} (he : e ∈ call.answer log) : IsU64 e.position := by
  obtain ⟨answer, batches, watermark, hread, hflatten, hkinds⟩ := srv.served
  rw [hread] at h
  rw [ClientCall.answer, h] at he
  simp only [← hflatten] at he
  obtain ⟨es, hes, he⟩ := List.mem_flatten.1 he
  have hkind : eventsKind es ∈ answersTo id srv.responses := by
    rw [hkinds]
    exact List.mem_append_left _ (List.mem_map_of_mem hes)
  obtain ⟨response, hresponse, heq⟩ := List.mem_map.1 hkind
  have hwell := (srv.wellFormed response (List.mem_filter.1 hresponse).1).kind
  rw [heq] at hwell
  exact (hwell e.toWire (List.mem_map_of_mem he)).position

/-- A read in a run of a client, on a connection that is alive, to a server that answers it from the
log.  In the end its consumer, who has not closed the stream, is told the end, and by then it has
been given the page. -/
inductive PageRead (log : List SequencedEvent) (call : ClientCall) (cl cl' : Client cfg) :
    List SequencedEvent → Prop
  | told {cl₁ cl₂ : Client cfg} {as as' : List ClientAction} {lane : Lane} {id : ℤ}
      {c₀ c : Conn cfg} {stream : ReadStream} (before : (client cfg).Run cl as cl₁)
      (made : cl₁.call call = (cl₂, .ok (lane, id))) (start : cl₂.lane? lane = some c₀)
      (alive : c₀.dead = false) (after : (client cfg).Run cl₂ as' cl')
      (stop : cl'.lane? lane = some c) (counter : c.idCounter < 2 ^ 64)
      (srv : Service (ReadServed log) c id)
      (arrives : c₀.decoder.buffer ++ (received (lane.steps as')).flatten <+: srv.written.flatten)
      (returned : c.calls.get? id = some (.read stream))
      (finished : .finished ∈ stream.base.sink.promises) (kept : .closeStream id ∉ lane.steps as') :
      PageRead log call cl cl' (stream.base.sink.promises.filterMap NextResult.value?)

/-- Reads one after the other, each of which has the position of the last event before it as cursor,
with the log as it is at the time of each. -/
inductive PagesRead (call : ℤ → ClientCall) :
    Client cfg → ℤ → List (List SequencedEvent) → List (List SequencedEvent) → Prop
  | none {cl cursor} : PagesRead call cl cursor [] []
  | more {cl cl' cursor log logs page pages} : PageRead log (call cursor) cl cl' page →
      PagesRead call cl' ((page.getLast?.map SequencedEvent.position).getD cursor) logs pages →
      PagesRead call cl cursor (log :: logs) (page :: pages)

namespace Client

variable {cl₀ cl cl' : Client cfg} {call : ClientCall} {log page : List SequencedEvent}

omit [TextCodec] in
theorem received_filter (bs : List Action) :
    received (bs.filter fun a => !a.isCall) = received bs := by
  rw [received, List.filterMap_filter]
  refine List.filterMap_congr fun a _ => ?_
  cases a <;> rfl

theorem pageRead_eq (hconn : cl₀.Connected) (hmax : cfg.maxFrameLen < 2 ^ 32)
    {as : List ClientAction} (hrun : (client cfg).Run cl₀ as cl) (hclear : call.Clear)
    (h : PageRead log call cl cl' page) :
    page = call.answer log ∧ (∀ e ∈ page, IsU64 e.position) ∧
      ∃ as, (client cfg).Run cl₀ as cl' := by
  cases h with
  | @told cl₁ cl₂ _ _ _ id _ _ _ before made start alive after stop counter srv arrives returned
      finished kept =>
    have hmade := made_of_call hconn (hrun.trans before) made start
    obtain ⟨bs, hbs, hsteps⟩ := exists_steps after start stop
    rw [← hsteps, received_filter] at arrives
    have hkept : .closeStream id ∉ bs := by
      intro hmem
      rw [← hsteps] at kept
      exact kept (List.mem_filter.2 ⟨hmem, rfl⟩)
    obtain ⟨-, hall⟩ := srv.read_given hmade hclear alive hbs hmax counter arrives returned
    have hpage := hall finished hkept
    have hstep : (client cfg).step cl₁ (.call call) = some cl₂ :=
      congrArg (fun p : Client cfg × Except Err Handle => some p.1) made
    refine ⟨hpage, fun e he => ?_, _, ((hrun.trans before).snoc trivial hstep).trans after⟩
    rw [hpage] at he
    exact srv.isU64_of_mem_answer (srv.demand_eq hmade hbs hclear hmax counter) he

theorem pagesRead_eq {κ : Type} [LinearOrder κ] {f : ℤ → κ} {n : ℕ} {call : ℤ → ClientCall}
    {view : List SequencedEvent → List SequencedEvent} {cursor : ℤ}
    {logs pages : List (List SequencedEvent)} (hconn : cl₀.Connected)
    (hmax : cfg.maxFrameLen < 2 ^ 32) {as : List ClientAction} (hrun : (client cfg).Run cl₀ as cl)
    (hclear : ∀ cursor, IsU64 cursor → (call cursor).Clear)
    (hcall : ∀ cursor log,
      (call cursor).answer log = Lib.page (fun e => f e.position) n (f cursor) (view log))
    (hcursor : IsU64 cursor) (h : PagesRead call cl cursor logs pages) :
    pages = Lib.pages (fun e => f e.position) n (f cursor) (logs.map view) := by
  induction h generalizing as with
  | none => rfl
  | @more cl cl' cursor log logs page pages hread _ ih =>
    obtain ⟨hpage, hpositions, as', hrun'⟩ :=
      pageRead_eq hconn hmax hrun (hclear cursor hcursor) hread
    have hnext : IsU64 ((page.getLast?.map SequencedEvent.position).getD cursor) := by
      cases hlast : page.getLast? with
      | none => exact hcursor
      | some e => exact hpositions e (List.mem_of_getLast? hlast)
    rw [ih hrun' hnext, List.map_cons, Lib.pages, ← hcall, ← hpage]
    congr 2
    rw [nextCursor]
    cases page.getLast? <;> rfl

end Client

/-- **Page by page nothing is left out and nothing comes twice.**  A client makes reads of at most
`n` events, each after the last event that the one before gave, until one gives none.  Wherever the
log grew in between, they together give what one read without limit asks for on the log at the end.
Backwards, they give what one asks for on the log at the start. -/
theorem pages_complete {cl₀ cl : Client cfg} {as : List ClientAction} {q : Query} {n : ℕ}
    {cursor : ℤ} {log : List SequencedEvent} {logs pages : List (List SequencedEvent)}
    (hconn : cl₀.Connected) (hrun : (client cfg).Run cl₀ as cl) (hmax : cfg.maxFrameLen < 2 ^ 32)
    (hquery : (queryToWire q).WellFormed) (hcursor : IsU64 cursor) (hn : 0 < n)
    (hlimit : n < 2 ^ 64)
    (hsorted : ∀ l ∈ log :: logs, l.Pairwise fun e e' => e.position < e'.position)
    (hend : pages.getLast? = some []) :
    (PagesRead (readPage q n) cl cursor (logs ++ [log]) pages → (∀ l ∈ logs, l <+: log) →
      pages.flatten = (ClientCall.read q (some cursor) none .none).answer log) ∧
    (PagesRead (readBackPage q n) cl cursor (log :: logs) pages → (∀ l ∈ logs, log <+: l) →
      (∀ page ∈ pages.dropLast, page ≠ []) →
      pages.flatten = (ClientCall.readBack q (some cursor) none .none).answer log) := by
  constructor
  · intro hread hgrows
    have heq : pages = Lib.pages (fun e => id e.position) n (id cursor)
        ((logs ++ [log]).map q.selected) :=
      Client.pagesRead_eq hconn hmax hrun
        (fun cursor hcursor => (clear_readPage hquery hcursor hlimit).1)
        (fun _ _ => answer_readPage) hcursor hread
    rw [List.map_append] at heq
    rw [heq] at hend ⊢
    have hflatten := flatten_pages hn (Query.selected_sorted (hsorted log List.mem_cons_self))
      (fun l' hl' => ?_) hend
    · exact hflatten.trans selectedAfter_eq.symm
    · obtain ⟨l, hl, rfl⟩ := List.mem_map.1 hl'
      exact (hgrows l hl).filter _
  · intro hread hgrows hmore
    have heq : pages = Lib.pages (fun e => OrderDual.toDual e.position) n (OrderDual.toDual cursor)
        ((log :: logs).map fun log => (q.selected log).reverse) :=
      Client.pagesRead_eq hconn hmax hrun
        (fun cursor hcursor => (clear_readPage hquery hcursor hlimit).2)
        (fun _ _ => answer_readBackPage) hcursor hread
    have hsorted' : ∀ l ∈ log :: logs, (q.selected l).reverse.Pairwise fun e e' =>
        OrderDual.toDual e.position < OrderDual.toDual e'.position := fun l hl =>
      Query.selected_reverse_sorted (hsorted l hl)
    have hanswer : (ClientCall.readBack q (some cursor) none .none).answer log =
        rest (fun e => OrderDual.toDual e.position) (OrderDual.toDual cursor)
          (q.selected log).reverse := selectedBefore_eq
    rw [hanswer]
    rcases List.eq_nil_or_concat' logs with rfl | ⟨ls, last, rfl⟩
    · -- the first page is the last one
      rw [heq] at hend ⊢
      have hnone : ∀ l ∈ ([] : List (List SequencedEvent)), l <+: (q.selected log).reverse := nofun
      exact flatten_pages hn (hsorted' log List.mem_cons_self) hnone hend
    · -- there is a second page, so the first one is not empty
      have hfirst : Lib.page (fun e => OrderDual.toDual e.position) n (OrderDual.toDual cursor)
          (q.selected log).reverse ≠ [] := by
        refine hmore _ ?_
        rw [heq, List.map_cons, List.map_append, Lib.pages]
        rw [List.map_singleton, pages_concat, List.dropLast_cons_of_ne_nil (by simp)]
        exact List.mem_cons_self
      rw [List.map_cons, List.map_append] at heq
      rw [heq] at hend ⊢
      have hview : ∀ l' ∈ (q.selected last).reverse ::
          ls.map fun log => (q.selected log).reverse, ∃ l ∈ ls ++ [last],
            (q.selected l).reverse = l' := by
        intro l' hl'
        rcases List.mem_cons.1 hl' with rfl | hl'
        · exact ⟨last, by simp, rfl⟩
        · obtain ⟨l, hl, rfl⟩ := List.mem_map.1 hl'
          exact ⟨l, List.mem_append_left _ hl, rfl⟩
      refine flatten_pages_cons hn (fun l' hl' => ?_) (fun l' hl' => ?_) hfirst hend
      · obtain ⟨l, hl, rfl⟩ := hview l' hl'
        exact hsorted' l (List.mem_cons_of_mem _ hl)
      · obtain ⟨l, hl, rfl⟩ := hview l' hl'
        exact List.reverse_suffix.2 ((hgrows l hl).filter _)

end

namespace Client

section

open Conn (onePermit connectActions)

attribute [local instance] utf8Codec

/-- What a client without bulk connections comes to when it makes a read that is request `id`, and
then does these things: a server has read the request, and the consumer is told the end after the
page. -/
def afterPage (call : ClientCall) (id : ℤ) (request : WireRequest) (page : List SequencedEvent)
    (as : List ClientAction) (cl : Client onePermit) : Option (Client onePermit) :=
  if (cl.call call).2.toOption = some (.control, id) ∧ (cl.call call).1.control.dead = false ∧
      (cl.call call).1.control.decoder.buffer = [] then
    ((client onePermit).exec (cl.call call).1 as).filter fun cl' =>
      cl'.control.idCounter < 2 ^ 64 ∧
        (((FrameDecoder.new onePermit.maxFrameLen).feed [cl'.control.wire.bytes]).1.any fun body =>
          (decodeRequest body).toOption = some request) ∧
        (cl'.control.calls.get? id).any fun call => (readChannel.sink? call).any fun s =>
          .finished ∈ s.promises ∧ s.promises.filterMap NextResult.value? = page
  else none

/-- The events of a log at these positions, as a server sends them to request `id`, and the end. -/
def pageReplies (id : ℤ) (positions : List ℤ) : List WireResponse :=
  [{ requestId := id, kind := eventsKind (logAt positions) },
    { requestId := id, kind := .readEnd { watermark := 2 } }]

/-- Request `id` goes out, its frames come in at once, and the consumer asks twice. -/
def served (id : ℤ) (frames : List Bytes) : List ClientAction :=
  [.permit id, .slot id, .writer (.returned true), .data frames.flatten, .next id, .next id].map
    (.lane .control)

theorem pageRead_of_afterPage {call : ClientCall} {id : ℤ} {request : WireRequest}
    {positions : List ℤ} {frames : List Bytes} {cl cl' : Client onePermit}
    {log : List SequencedEvent} {answer : List SequencedEvent → List SequencedEvent}
    (h : afterPage call id request (logAt positions) (served id frames) cl = some cl')
    (hid : request.requestId = id) (hpos : IsU64 id)
    (hasks : request.kind.demand? = some (.read answer)) (hanswer : logAt positions = answer log)
    (hpositions : ∀ p ∈ positions, IsU64 p)
    (hwrites : List.Forall₂ (fun response bytes =>
      writeFrame (encodeResponse response) onePermit.maxFrameLen = .ok bytes)
      (pageReplies id positions) frames) :
    PageRead log call cl cl' (logAt positions) := by
  rw [afterPage] at h
  split_ifs at h with hstart
  obtain ⟨hhandle, halive, hbuffer⟩ := hstart
  obtain ⟨hexec, hend⟩ := Option.filter_eq_some_iff.1 h
  obtain ⟨hcounter, hbodies, hstream⟩ := of_decide_eq_true hend
  obtain ⟨body, hbody, hdecode⟩ := List.any_eq_true.1 hbodies
  obtain ⟨object, hget, hsink⟩ := (Option.any_eq_true _ _).1 hstream
  obtain ⟨s, hs, hfinished⟩ := (Option.any_eq_true _ _).1 hsink
  obtain ⟨hfinished, hpage⟩ := of_decide_eq_true hfinished
  have hmade : cl.call call = ((cl.call call).1, .ok (.control, id)) :=
    Prod.ext rfl (eq_ok_of_toOption hhandle)
  -- the server that sends what the check found
  let srv : Service (ReadServed log) cl'.control id :=
    { chunks := [cl'.control.wire.bytes]
      arrives := List.flatten_singleton
      request := request
      decodes := ⟨body, hbody, eq_ok_of_toOption (of_decide_eq_true hdecode)⟩
      requestId := hid
      demand := _
      asks := hasks
      responses := pageReplies id positions
      written := frames
      wellFormed := by
        intro response hmem
        rcases List.mem_cons.1 hmem with rfl | hmem
        · exact ⟨hpos, eventsKind_wellFormed hpositions⟩
        · rw [List.mem_singleton.1 hmem]
          exact ⟨hpos, show IsU64 2 by decide⟩
      writes := hwrites
      served := ⟨answer, [logAt positions], 2, rfl, by rw [List.flatten_singleton, hanswer],
        by simp [pageReplies, answersTo]⟩ }
  cases object with
  | read stream =>
    cases hs
    rw [← hpage]
    have harrives : (received (Lane.control.steps (served id frames))).flatten = frames.flatten :=
      List.flatten_singleton
    refine .told .start hmade rfl halive (Machine.run_of_exec hexec) rfl hcounter srv ?_ hget
      hfinished ?_
    · rw [hbuffer, List.nil_append, harrives]
    · intro hmem
      simp [served, Lane.steps, ClientAction.on?] at hmem
  | unary deferred abortListener | hello deferred | subscribe stream => cases hs

/-- The frame of the event at position `p` for request `id`. -/
def eventFrame (id p : UInt8) : Bytes :=
  [0, 0, 0, 17, 8, id, 26, 13, 10, 11, 8, p, 18, 7, 10, 5, 111, 114, 100, 101, 114]

/-- The frame without events. -/
def noneFrame (id : UInt8) : Bytes := [0, 0, 0, 4, 8, id, 26, 0]

/-- The frame of the end. -/
def endFrame (id : UInt8) : Bytes := [0, 0, 0, 6, 8, id, 34, 2, 8, 2]

/-- The request of a page. -/
def pageRequest (id after : ℤ) (reverse : Bool) : WireRequest where
  requestId := id
  kind := .read
    { query := queryToWire Query.all, after := after, limit := some 2, reverse := reverse }

/-- Three reads of two events at most: an event is appended after the first, and read by the second.
-/
def threePages (cl : Client onePermit) : Option (Client onePermit) :=
  ((afterPage (readPage Query.all 2 0) 2 (pageRequest 2 0 false) (logAt [1])
    (served 2 [eventFrame 2 1, endFrame 2]) cl).bind
  (afterPage (readPage Query.all 2 1) 3 (pageRequest 3 1 false) (logAt [2])
    (served 3 [eventFrame 3 2, endFrame 3]))).bind
  (afterPage (readPage Query.all 2 2) 4 (pageRequest 4 2 false) (logAt [])
    (served 4 [noneFrame 4, endFrame 4]))

/-- Two reads backwards: an event is appended after the first. -/
def twoPagesBack (cl : Client onePermit) : Option (Client onePermit) :=
  (afterPage (readBackPage Query.all 2 Position.max) 2 (pageRequest 2 Position.max true) (logAt [1])
    (served 2 [eventFrame 2 1, endFrame 2]) cl).bind
  (afterPage (readBackPage Query.all 2 1) 3 (pageRequest 3 1 true) (logAt [])
    (served 3 [noneFrame 3, endFrame 3]))

/-- Forwards the appended event is read too, backwards it is not. -/
theorem pages_three : ∃ cl : Client onePermit,
    (∃ pages, PagesRead (readPage Query.all 2) cl 0 [logAt [1], logAt [1, 2], logAt [1, 2]] pages ∧
      pages.flatten = logAt [1, 2]) ∧
    ∃ pages, PagesRead (readBackPage Query.all 2) cl Position.max [logAt [1], logAt [1, 2]] pages ∧
      pages.flatten = logAt [1] := by
  have hexec : ((connection onePermit).exec (Conn.init onePermit) connectActions).any (fun c =>
      c.calls.get? 1 = some (.hello (.resolved ())) ∧ (threePages (ofControl c)).isSome ∧
        (twoPagesBack (ofControl c)).isSome) = true := by decide +kernel
  obtain ⟨c, hrun, hc⟩ := Machine.exists_run_of_exec hexec
  obtain ⟨hhello, hthree, htwo⟩ := of_decide_eq_true hc
  have hconn := connected_ofControl hrun hhello
  have hquery : (queryToWire Query.all).WellFormed := fun item hitem => by cases hitem
  refine ⟨ofControl c, ?_, ?_⟩
  · obtain ⟨cl₃, hthree⟩ := Option.isSome_iff_exists.1 hthree
    obtain ⟨cl₂, htwo, h₃⟩ := Option.bind_eq_some_iff.1 hthree
    obtain ⟨cl₁, h₁, h₂⟩ := Option.bind_eq_some_iff.1 htwo
    have hfirst : PageRead (logAt [1]) (readPage Query.all 2 0) (ofControl c) cl₁ (logAt [1]) := by
      refine pageRead_of_afterPage h₁ rfl (by decide) rfl (by decide) (by decide) ?_
      exact .cons (by decide +kernel) (.cons (by decide +kernel) .nil)
    have hsecond : PageRead (logAt [1, 2]) (readPage Query.all 2 1) cl₁ cl₂ (logAt [2]) := by
      refine pageRead_of_afterPage h₂ rfl (by decide) rfl (by decide) (by decide) ?_
      exact .cons (by decide +kernel) (.cons (by decide +kernel) .nil)
    have hthird : PageRead (logAt [1, 2]) (readPage Query.all 2 2) cl₂ cl₃ (logAt []) := by
      refine pageRead_of_afterPage h₃ rfl (by decide) rfl (by decide) (by decide) ?_
      exact .cons (by decide +kernel) (.cons (by decide +kernel) .nil)
    have hread : PagesRead (readPage Query.all 2) (ofControl c) 0
        [logAt [1], logAt [1, 2], logAt [1, 2]] [logAt [1], logAt [2], logAt []] :=
      .more hfirst (.more hsecond (.more hthird .none))
    have hsorted : ∀ l ∈ [logAt [1, 2], logAt [1], logAt [1, 2]],
        l.Pairwise fun e e' => e.position < e'.position := by decide
    have hend : [logAt [1], logAt [2], logAt []].getLast? = some [] := rfl
    obtain ⟨hforward, -⟩ := pages_complete hconn .start (by decide) hquery
      (show IsU64 0 by decide) Nat.two_pos (by decide) hsorted hend
    exact ⟨_, hread, (hforward hread (by decide)).trans (by decide)⟩
  · obtain ⟨cl₂, htwo⟩ := Option.isSome_iff_exists.1 htwo
    obtain ⟨cl₁, h₁, h₂⟩ := Option.bind_eq_some_iff.1 htwo
    have hfirst : PageRead (logAt [1]) (readBackPage Query.all 2 Position.max) (ofControl c) cl₁
        (logAt [1]) := by
      refine pageRead_of_afterPage h₁ rfl (by decide) rfl (by decide) (by decide) ?_
      exact .cons (by decide +kernel) (.cons (by decide +kernel) .nil)
    have hsecond : PageRead (logAt [1, 2]) (readBackPage Query.all 2 1) cl₁ cl₂ (logAt []) := by
      refine pageRead_of_afterPage h₂ rfl (by decide) rfl (by decide) (by decide) ?_
      exact .cons (by decide +kernel) (.cons (by decide +kernel) .nil)
    have hread : PagesRead (readBackPage Query.all 2) (ofControl c) Position.max
        [logAt [1], logAt [1, 2]] [logAt [1], logAt []] :=
      .more hfirst (.more hsecond .none)
    have hsorted : ∀ l ∈ [logAt [1], logAt [1, 2]],
        l.Pairwise fun e e' => e.position < e'.position := by decide
    have hend : [logAt [1], logAt []].getLast? = some [] := rfl
    obtain ⟨-, hback⟩ := pages_complete hconn .start (by decide) hquery
      (show IsU64 Position.max by decide) Nat.two_pos (by decide) hsorted hend
    exact ⟨_, hread, (hback hread (by decide) (by decide)).trans (by decide)⟩

end

end Client

end Tephra
