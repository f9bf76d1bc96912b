import Tephra.Conn.Asked
import Tephra.Conn.Replies

/-!
# Hearing a server out

The frames that come in are responses to several requests.  A connection routes them in order, and
what happens to a request are the responses to it, among other things, until it is over.

* `heard_of_run` : the responses in the life of a request are the first of those to it.
* `Channel.told`, `Inquiry.resolved` : so what its consumer or caller is told is theirs.
-/

namespace Tephra

open Lib

/-! ### Responses -/

/-- The response among what happens to a request. -/
def Happening.responseKind? : Happening → Option ResponseKind
  | response res _ => some res.kind
  | _ => none

/-- The responses among what happens to a request. -/
def responsesIn (hs : List Happening) : List ResponseKind := hs.filterMap Happening.responseKind?

/-- The responses that answer request `t`. -/
def answersTo (t : ℤ) (responses : List WireResponse) : List ResponseKind :=
  (responses.filter fun response => response.requestId = t).map WireResponse.kind

theorem answersTo_append (t : ℤ) (rs rs' : List WireResponse) :
    answersTo t (rs ++ rs') = answersTo t rs ++ answersTo t rs' := by
  rw [answersTo, List.filter_append, List.map_append, answersTo, answersTo]

theorem answersTo_singleton (t : ℤ) (r : WireResponse) :
    answersTo t [r] = if r.requestId = t then [r.kind] else [] := by
  simp only [answersTo, List.filter_cons, List.filter_nil, decide_eq_true_eq]
  split_ifs <;> rfl

theorem responsesIn_append (hs hs' : List Happening) :
    responsesIn (hs ++ hs') = responsesIn hs ++ responsesIn hs' := List.filterMap_append ..

theorem responsesIn_eq_nil {hs : List Happening}
    (h : ∀ response alive, Happening.response response alive ∉ hs) : responsesIn hs = [] := by
  refine List.filterMap_eq_nil_iff.2 fun x hx => ?_
  cases x with
  | response response alive => exact absurd hx (h response alive)
  | opened type call | permit | close alive | abort err alive | jam | sendFailed err | died err
  | listener | microtask | next | collect | collectStep => rfl

namespace Request

variable {q : Request} {hs : List Happening}

/-- What happens to a request that is no longer pending is not part of its life. -/
theorem life_append_of_gone {e : Pending} (entry : q.view.pending = some e)
    (hgone : (hs.foldl react q).view.pending = none) (hs' : List Happening) :
    q.life (hs ++ hs') = q.life hs := by
  induction hs generalizing q e with
  | nil => cases entry.symm.trans hgone
  | cons h hs ih =>
    rw [List.cons_append, life, life]
    cases hpending : (q.react h).view.pending with
    | none => rfl
    | some e' => rw [ih hpending hgone]

end Request

/-! ### Streams -/

theorem Channel.flatMap_itemsOf {α : Type} (ch : Channel α) (hs : List Happening) :
    hs.flatMap ch.itemsOf = (responsesIn hs).flatMap ch.items := by
  induction hs with
  | nil => rfl
  | cons h hs ih =>
    rw [List.flatMap_cons, ih]
    cases h <;> rfl

/-- Whoever is told that a sequence is over has been given all of it. -/
theorem Sink.Refines.finished {α : Type} {s : Sink α} {f : Feed α (Option Err)} (h : s.Refines f)
    (hmem : .finished ∈ s.promises) : f.ending = some none ∧ s.queue = [] := by
  rw [h.promises] at hmem
  obtain ⟨x, hx, heq⟩ := List.mem_map.1 hmem
  cases x with
  | none => cases heq
  | some i =>
    have hasked := Feed.mem_asks.1 hx
    rw [NextResult.ofAsk] at heq
    rcases Nat.lt_or_ge i f.items.length with hlt | hge
    · rw [Feed.answer_of_lt hlt] at heq
      cases heq
    · rw [Feed.answer_of_le hge] at heq
      cases hending : f.ending with
      | none =>
        rw [hending] at heq
        cases heq
      | some ended =>
        rw [hending] at heq
        cases ended with
        | some err => cases heq
        | none =>
          refine ⟨rfl, ?_⟩
          rw [h.queue, Feed.unread]
          exact List.drop_eq_nil_of_le (hge.trans hasked.le)

/-- What the consumer of a stream is given or left, and when it is told that that is all. -/
theorem Channel.told {α : Type} {ch : Channel α} {object call : Call} {hs : List Happening}
    {q : Request} {s : Sink α} (hmakes : ch.type.Makes object)
    (hq : q = hs.foldl Request.react (Request.new.react (.opened ch.type object)))
    (hcall : q.view.call = some call) (hs' : ch.sink? call = some s) :
    s.accepted =
        (responsesIn ((Request.new.react (.opened ch.type object)).life hs)).flatMap ch.items ∧
      (.finished ∈ s.promises → s.queue = [] ∧
        ∃ h ∈ (Request.new.react (.opened ch.type object)).life hs,
          h.ending ch.type = some none) := by
  have hholds : ∀ {items ended}, ch.Holds q items ended →
      s.accepted = items ∧ (.finished ∈ s.promises → s.queue = [] ∧ ended = some none) := by
    rintro items ended ⟨call', s', f, hcall', hs'', hrefines, hitems, hending⟩
    cases hcall.symm.trans hcall'
    cases hs'.symm.trans hs''
    refine ⟨hrefines.accepted.trans hitems, fun hmem => ?_⟩
    obtain ⟨hended, hqueue⟩ := hrefines.finished hmem
    exact ⟨hqueue, hending.symm.trans hended⟩
  rw [← ch.flatMap_itemsOf]
  rcases Channel.run (Channel.Flowing.new hmakes) hs with hflowing | ⟨h, hlast, hended⟩
  · rw [← hq] at hflowing
    obtain ⟨haccepted, hfinished⟩ := hholds hflowing.holds
    refine ⟨haccepted, fun hmem => ?_⟩
    cases (hfinished hmem).2
  · rw [← hq] at hended
    obtain ⟨haccepted, hfinished⟩ := hholds hended.holds
    refine ⟨haccepted, fun hmem => ?_⟩
    obtain ⟨hqueue, hclean⟩ := hfinished hmem
    exact ⟨hqueue, h, List.mem_of_getLast? hlast, hclean⟩

/-- A stream ends cleanly only by a response or by its consumer. -/
theorem Happening.ending_eq_clean {h : Happening} {type : PendingType}
    (hclean : h.ending type = some none) :
    (∃ kind, h.responseKind? = some kind ∧ Conn.endedBy type kind = some none) ∨
      ∃ alive, h = .close alive := by
  cases h with
  | response response alive => exact .inl ⟨response.kind, rfl, hclean⟩
  | close alive => exact .inr ⟨alive, rfl⟩
  | opened type call | permit | abort err alive | jam | sendFailed err | died err | listener
  | microtask | next | collect | collectStep => cases hclean

theorem Conn.endedBy_readEvents {res : WireReadEvents} {type : PendingType}
    (htype : type = .read ∨ type = .subscribe) :
    Conn.endedBy type (.readEvents res) ≠ some none := by
  intro hclean
  cases hmapped : res.events.mapM sequencedFromWire with
  | error err =>
    rcases htype with rfl | rfl <;>
      simp only [Conn.endedBy, Conn.reaction, hmapped] at hclean <;> cases hclean
  | ok mapped =>
    rcases htype with rfl | rfl <;>
      simp only [Conn.endedBy, Conn.reaction, hmapped] at hclean <;> cases hclean

theorem Conn.endedBy_read {kind : ResponseKind} (hclean : Conn.endedBy .read kind = some none) :
    ∃ res, kind = .readEnd res := by
  cases kind with
  | readEnd res => exact ⟨res, rfl⟩
  | readEvents res => exact absurd hclean (Conn.endedBy_readEvents (.inl rfl))
  | append | caughtUp | error | stats | helloAck | none => cases hclean

theorem Conn.endedBy_subscribe {kind : ResponseKind} :
    Conn.endedBy .subscribe kind ≠ some none := by
  intro hclean
  cases kind with
  | readEvents res => exact Conn.endedBy_readEvents (.inr rfl) hclean
  | readEnd | append | caughtUp | error | stats | helloAck | none => cases hclean

/-! ### Requests with a deferred -/

/-- What resolves a request is a response in its life. -/
theorem Inquiry.resolved {α : Type} {p : Inquiry α} {object call : Call} {hs : List Happening}
    {q : Request} {value : α} (hmakes : p.type.Makes object)
    (hq : q = hs.foldl Request.react (Request.new.react (.opened p.type object)))
    (hcall : q.view.call = some call) (hd : p.deferred? call = some (.resolved value)) :
    ∃ kind ∈ responsesIn ((Request.new.react (.opened p.type object)).life hs),
      p.outcome kind = .ok value := by
  -- it is over, and only a response can have resolved it
  rcases Inquiry.run (Inquiry.Open.new hmakes) hs with hopen | hclosed
  · rw [← hq] at hopen
    obtain ⟨call', hcall', hd'⟩ := hopen.holds
    cases hcall.symm.trans hcall'
    cases hd.symm.trans hd'
  · rw [← hq] at hclosed
    obtain ⟨call', hcall', hd'⟩ := hclosed.holds
    cases hcall.symm.trans hcall'
    have hresult := Option.some.inj (hd.symm.trans hd')
    cases hlast : ((Request.new.react (.opened p.type object)).life hs).getLast? with
    | none =>
      rw [hlast] at hresult
      cases hresult
    | some h =>
      rw [hlast, Option.bind_some] at hresult
      have hmem := List.mem_of_getLast? hlast
      cases h with
      | response response alive =>
        refine ⟨response.kind, List.mem_filterMap.2 ⟨_, hmem, rfl⟩, ?_⟩
        rw [Inquiry.answer] at hresult
        cases houtcome : p.outcome response.kind with
        | ok value' =>
          rw [houtcome] at hresult
          cases hresult
          rfl
        | error err =>
          rw [houtcome] at hresult
          cases hresult
      | abort err alive | sendFailed err | died err | opened type call | permit | close alive | jam
      | listener | microtask | next | collect | collectStep => cases hresult

/-! ### Runs -/

section

variable [TextCodec] {cfg : Config}

namespace Conn

variable {c c' c₀ : Conn cfg} {t : ℤ}

theorem responsesIn_failing (c : Conn cfg) (err : Err) : responsesIn (c.failing err) = [] := by
  unfold failing
  split_ifs <;> rfl

/-- What the frames of some responses are for a request: the responses to it, up to one of which the
connection dies. -/
theorem responsesIn_frames {responses : List WireResponse} (ht : t ≠ 0)
    (hdecodes : ∀ r ∈ responses, decodeResponse (encodeResponse r) = .ok r) :
    responsesIn (c.frameHappenings t (responses.map encodeResponse)) <+: answersTo t responses ∧
      ((c.routeAll (responses.map encodeResponse)).dead = false →
        responsesIn (c.frameHappenings t (responses.map encodeResponse)) =
          answersTo t responses) := by
  induction responses generalizing c with
  | nil => exact ⟨List.prefix_rfl, fun _ => rfl⟩
  | cons r rs ih =>
    obtain ⟨hr, hrs⟩ := List.forall_mem_cons.1 hdecodes
    rw [List.map_cons, routeAll, route, hr, frameHappenings, hr]
    rcases hroute : c.routeResponse r with ⟨c', _ | e⟩
    · have hone : responsesIn (c.responseHappenings t r) = answersTo t [r] := by
        rw [responseHappenings, answersTo_singleton]
        by_cases hid : r.requestId = 0
        · rw [if_pos hid, if_neg fun hown => ht (hown.symm.trans hid)]
          split
          · exact responsesIn_failing _ _
          · rfl
        · rw [if_neg hid, on]
          split_ifs <;> rfl
      have hsplit : answersTo t (r :: rs) = answersTo t [r] ++ answersTo t rs :=
        answersTo_append t [r] rs
      simp only [hroute, responsesIn_append, hone, hsplit]
      obtain ⟨hbegins, hall⟩ := ih (c := c') hrs
      exact ⟨(List.prefix_append_right_inj _).2 hbegins, fun halive => by rw [hall halive]⟩
    · simp only [hroute]
      refine ⟨?_, fun halive => ?_⟩
      · rw [responsesIn_failing]
        exact List.nil_prefix
      · cases halive.symm.trans (dead_failConnection _ _)

/-- A request that was made on a live connection is not pending on the dead one. -/
theorem pending_of_dead {as : List Action} (hc₀ : Consistent c₀) (h : (connection cfg).Run c₀ as c)
    (halive : c₀.dead = false) (ht : t ≤ c₀.idCounter) (hdead : c.dead = true) :
    c.pending.get? t = none := by
  have hfinalize : ∀ {c : Conn cfg} {id : ℤ} {f : Call → Call},
      (c.dead = true → c.pending.get? t = none) →
      ((c.finalize id).settle id f).dead = true →
        ((c.finalize id).settle id f).pending.get? t = none := by
    intro c id f hgone hdead
    cases entry : c.pending.get? id with
    | none =>
      rw [finalize_of_none entry] at hdead ⊢
      exact hgone hdead
    | some e =>
      rw [finalize_of_some entry] at hdead ⊢
      refine (OrdMap.get?_delete _ _ _).trans ?_
      split_ifs
      · rfl
      · exact hgone hdead
  -- every move keeps it: no entry is made on a dead connection under an id that is taken
  refine (keeps_of_run (I := fun c => t ≤ c.idCounter ∧ (c.dead = true → c.pending.get? t = none))
    (allowed_of_run h) hc₀ ⟨ht, fun hdead => ?_⟩ (fun c a hi => ?_) ?_).2 hdead
  · cases halive.symm.trans hdead
  · cases a <;> exact hi
  rintro c c' - ⟨hle, hgone⟩ hm
  have hnew : ∀ {type : PendingType} {call : Call}, (c.register type call).dead = true →
      (c.register type call).pending.get? t = none := by
    intro type call hdead
    refine (OrdMap.get?_set_of_ne _ ?_).trans (hgone hdead)
    show t ≠ c.idCounter + 1
    omega
  have hfail : ∀ {c : Conn cfg} (err : Err), c.dead = false → t ≤ c.idCounter →
      t ≤ (c.failConnection err).idCounter ∧ ((c.failConnection err).dead = true →
        (c.failConnection err).pending.get? t = none) := by
    intro c err alive hle
    rw [failConnection_of_alive err alive]
    exact ⟨hle, fun _ => rfl⟩
  have hcount : ∀ (c : Conn cfg) (id : ℤ) (f : Call → Call),
      ((c.finalize id).settle id f).idCounter = c.idCounter := by
    intro c id f
    obtain ⟨_, _, heq⟩ := c.exists_finalize id
    rw [heq]
    rfl
  cases hm with
  | @register type call | @openStream type call =>
    exact ⟨hle.trans (Int.le_add_one le_rfl), @hnew type call⟩
  | @cancel id e frame f alive =>
    refine ⟨?_, hfinalize hgone⟩
    rw [hcount]
    exact hle.trans (Int.le_add_one le_rfl)
  | settle | failPermit => exact ⟨(hcount ..).symm ▸ hle, hfinalize hgone⟩
  | keepPermit alive => exact ⟨hle, fun hdead => by cases alive.symm.trans hdead⟩
  | throw alive | die alive => exact hfail _ alive hle
  | spend alive => exact ⟨hle.trans (Int.le_add_one le_rfl), hgone⟩
  | acquire | deliver | consume | dropPermit | enqueue | slotPush | slotDrop | takeFailed | write
  | gate | drain | destroy | refuse | jam => exact ⟨hle, hgone⟩

/-- What has been heard of the responses to a request: on a live connection those whose frames have
come; on a dead one some of them. -/
structure Heard (c : Conn cfg) (t : ℤ) (future : Bytes) (responses : List WireResponse)
    (q : Request) (hs : List Happening) : Prop where
  reacts : c.request t = hs.foldl Request.react q
  alive : c.dead = false → ∃ heard rest, responses = heard ++ rest ∧
    Incoming c.decoder future rest ∧ responsesIn hs = answersTo t heard
  dead : c.dead = true → responsesIn (q.life hs) <+: answersTo t responses

theorem Heard.life {future : Bytes} {responses : List WireResponse} {q : Request}
    {hs : List Happening} (h : Heard c t future responses q hs) :
    responsesIn (q.life hs) <+: answersTo t responses := by
  cases hdead : c.dead with
  | true => exact h.dead hdead
  | false =>
    obtain ⟨heard, rest, rfl, -, hheard⟩ := h.alive hdead
    rw [answersTo_append, ← hheard]
    exact ((q.life_begins hs).filterMap _).trans (List.prefix_append _ _)

theorem responses_of_step {a : Action} {rest : List WireResponse} {future : Bytes}
    (hc : Consistent c) (hstep : c.step a = some c') (ht : t ≠ 0)
    (hdecodes : ∀ r ∈ rest, decodeResponse (encodeResponse r) = .ok r)
    (hincoming : Incoming c.decoder (a.chunk?.getD [] ++ future) rest) :
    ∃ now rest', rest = now ++ rest' ∧ responsesIn (c.happenings t a) <+: answersTo t now ∧
      (c'.dead = false → Incoming c'.decoder future rest' ∧
        responsesIn (c.happenings t a) = answersTo t now) := by
  have hdecoder := decoder_of_step hc hstep
  cases hchunk : a.chunk? with
  | none =>
    -- without a chunk there is nothing to hear
    have hnone : responsesIn (c.happenings t a) = [] := by
      refine responsesIn_eq_nil fun response alive hmem => ?_
      obtain ⟨-, chunk, rfl⟩ := of_mem_response hmem
      cases hchunk
    have hsame : c'.decoder = c.decoder := by
      rw [hdecoder]
      cases a <;> first | rfl | cases hchunk
    rw [hchunk] at hincoming
    refine ⟨[], rest, rfl, ?_, fun _ => ⟨?_, hnone⟩⟩
    · rw [hnone]
      exact List.nil_prefix
    · rwa [hsame]
  | some chunk =>
    obtain rfl : a = .data chunk := by
      cases a <;> cases hchunk
      rfl
    have hchunk' : Incoming c.decoder (chunk ++ future) rest := hincoming
    -- the chunk completes some of the frames, which are routed
    obtain ⟨d, now, rest', rfl, hpush, hincoming'⟩ := hchunk'.push
    have hd : c'.decoder = d := by
      rw [hdecoder]
      show (c.decoder.push chunk).1 = d
      rw [hpush]
    have hroute : c' = { c with decoder := d }.routeAll (now.map encodeResponse) := by
      rw [Conn.step] at hstep
      split_ifs at hstep
      cases hstep
      rw [onData, hpush]
    have hhappen : c.happenings t (.data chunk) =
        { c with decoder := d }.frameHappenings t (now.map encodeResponse) := by
      rw [happenings, hpush]
    obtain ⟨hbegins, hall⟩ := responsesIn_frames (c := { c with decoder := d }) ht
      fun r hr => hdecodes r (List.mem_append_left _ hr)
    rw [← hroute] at hall
    rw [← hhappen] at hbegins hall
    refine ⟨now, rest', rfl, hbegins, fun halive => ⟨?_, hall halive⟩⟩
    rwa [hd]

/-- A step hears the responses that come with it; a request is over on a dead connection. -/
theorem Heard.step {a : Action} {future : Bytes} {responses : List WireResponse} {q : Request}
    {hs : List Happening} {e : Pending} (hc : Consistent c) (hstep : c.step a = some c')
    (ht : t ≠ 0) (hdecodes : ∀ r ∈ responses, decodeResponse (encodeResponse r) = .ok r)
    (entry : q.view.pending = some e) (hgone : c.dead = true → c.pending.get? t = none)
    (h : Heard c t (a.chunk?.getD [] ++ future) responses q hs) :
    Heard c' t future responses q (hs ++ c.happenings t a) := by
  have hreacts : c'.request t = (hs ++ c.happenings t a).foldl Request.react q := by
    rw [request_of_step hc hstep, h.reacts, List.foldl_append]
  by_cases hdead : c.dead = true
  · have hdead' := dead_of_step hc hstep hdead
    refine ⟨hreacts, fun halive => (by cases halive.symm.trans hdead'), fun _ => ?_⟩
    have hover : (hs.foldl Request.react q).view.pending = none := by
      rw [← h.reacts]
      exact hgone hdead
    rw [Request.life_append_of_gone entry hover]
    exact h.dead hdead
  · obtain ⟨heard, rest, rfl, hincoming, hheard⟩ := h.alive (Bool.eq_false_of_not_eq_true hdead)
    obtain ⟨now, rest', rfl, hbegins, hmore⟩ := responses_of_step hc hstep ht
      (fun r hr => hdecodes r (List.mem_append_right _ hr)) hincoming
    refine ⟨hreacts, fun halive => ?_, fun _ => ?_⟩
    · obtain ⟨hincoming', hnow⟩ := hmore halive
      refine ⟨heard ++ now, rest', (List.append_assoc _ _ _).symm, hincoming', ?_⟩
      rw [responsesIn_append, hheard, hnow, answersTo_append]
    · have hall : responsesIn (hs ++ c.happenings t a) <+:
          answersTo t (heard ++ (now ++ rest')) := by
        rw [responsesIn_append, hheard, answersTo_append, answersTo_append]
        exact (List.prefix_append_right_inj _).2 (hbegins.trans (List.prefix_append _ _))
      exact ((q.life_begins _).filterMap _).trans hall

/-- A run hears the responses whose frames come, in order. -/
theorem heard_of_run {as : List Action} {responses : List WireResponse} {future : Bytes}
    {q : Request} {hs : List Happening} {e : Pending} (hc₀ : Consistent c₀)
    (h : (connection cfg).Run c₀ as c) (halive : c₀.dead = false) (ht : 0 < t)
    (hle : t ≤ c₀.idCounter) (hdecodes : ∀ r ∈ responses, decodeResponse (encodeResponse r) = .ok r)
    (entry : q.view.pending = some e)
    (hstart : Heard c₀ t ((received as).flatten ++ future) responses q hs) :
    Heard c t future responses q
      (hs ++ (connection cfg).observe (fun c a => c.happenings t a) c₀ as) := by
  induction h generalizing future with
  | start => rwa [Machine.observe, List.append_nil]
  | @snoc as a c c' hrun _ hstep ih =>
    have hc : Consistent c := hrun.invariant hc₀ fun _ _ _ hc _ hstep => hc.step hstep
    have hchunk : ([a].filterMap Action.chunk?).flatten = a.chunk?.getD [] := by
      cases hchunk : a.chunk? <;> simp [hchunk]
    rw [received, List.filterMap_append, ← received, List.flatten_append, hchunk,
      List.append_assoc] at hstart
    rw [hrun.observe_snoc _ hstep, ← List.append_assoc]
    exact (ih hstart).step hc hstep ht.ne' hdecodes entry fun hdead =>
      pending_of_dead hc₀ hrun halive hle hdead

theorem closed_of_mem_observe {as : List Action} {alive : Bool} (h : (connection cfg).Run c₀ as c)
    (hmem : .close alive ∈ (connection cfg).observe (fun c a => c.happenings t a) c₀ as) :
    .closeStream t ∈ as := by
  induction h with
  | start => cases hmem
  | @snoc as a c c' hrun _ hstep ih =>
    rw [hrun.observe_snoc _ hstep] at hmem
    rcases List.mem_append.1 hmem with hmem | hmem
    · exact List.mem_append_left _ (ih hmem)
    · rw [of_mem_close hmem]
      exact List.mem_append_right _ List.mem_cons_self

end Conn

end

end Tephra
