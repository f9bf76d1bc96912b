import Tephra.Lib.Feed
import Tephra.Streams

/-!
# What a sink promises

The connection calls `push`, `finish` and `fail` of a sink and its consumer calls `next`, in any
order.  A sink is a feed: the items it takes in are those of the feed, the calls to `next` are its
asks, and a promise is settled with the answer.

* `Sink.Refines` : how the fields of a sink follow from the feed, kept by every call.
* `Sink.fifo` : what a consumer sees of a sink after any sequence of calls.
-/

namespace Tephra

open Lib

/-- The calls a sink gets. -/
inductive SinkCall (α : Type)
  | push (item : α)
  | finish
  | fail (err : Err)
  | next
  deriving DecidableEq, Repr

/-- The error of a `next()` that finds another one waiting. -/
def alreadyIterated : Err := .protocol "stream is already being iterated"

variable {α : Type}

namespace SinkCall

/-- How a call ends the sink: cleanly, or with an error. -/
def ending? : SinkCall α → Option (Option Err)
  | finish => some none
  | fail err => some (some err)
  | _ => none

/-- The item of a push. -/
def item? : SinkCall α → Option α
  | push item => some item
  | _ => none

/-- How the first call that ends the sink ends it. -/
def ending (calls : List (SinkCall α)) : Option (Option Err) := calls.findSome? ending?

/-- The items pushed before the sink is ended. -/
def pushed (calls : List (SinkCall α)) : List α :=
  (calls.takeWhile fun call => call.ending?.isNone).filterMap item?

/-- What a call does to a feed. -/
def feed (f : Feed α (Option Err)) : SinkCall α → Feed α (Option Err)
  | push item => f.write item
  | finish => f.close none
  | fail err => f.close (some err)
  | next => f.ask

theorem ending_append (calls calls' : List (SinkCall α)) :
    ending (calls ++ calls') = (ending calls).or (ending calls') :=
  List.findSome?_append

theorem pushed_snoc (calls : List (SinkCall α)) (call : SinkCall α) :
    pushed (calls ++ [call]) =
      pushed calls ++ if (ending calls).isNone then call.item?.toList else [] := by
  induction calls with
  | nil => cases call <;> rfl
  | cons c calls ih =>
    have hc : ∀ calls, pushed (c :: calls) =
        if c.ending?.isNone then c.item?.toList ++ pushed calls else [] := by
      intro calls
      cases c <;> rfl
    have hending : ending (c :: calls) = c.ending?.or (ending calls) := by cases c <;> rfl
    rw [List.cons_append, hc, hc, ih, hending]
    cases c.ending? with
    | none => simp
    | some ended => simp

theorem foldl_feed (calls : List (SinkCall α)) :
    (calls.foldl feed .empty).items = pushed calls ∧
      (calls.foldl feed .empty).ending = ending calls := by
  induction calls using List.reverseRecOn with
  | nil => exact ⟨rfl, rfl⟩
  | append_singleton calls call ih =>
    obtain ⟨hitems, hending⟩ := ih
    rw [List.foldl_append, List.foldl_cons, List.foldl_nil, pushed_snoc, ending_append]
    rw [← hitems, ← hending]
    generalize calls.foldl feed .empty = f
    cases hf : f.ending with
    | none =>
      cases call with
      | push item =>
        obtain ⟨hi, he, -⟩ := Feed.write_of_open item hf
        exact ⟨hi, he⟩
      | finish =>
        obtain ⟨hi, he, -⟩ := Feed.close_of_open (none : Option Err) hf
        exact ⟨hi.trans (List.append_nil _).symm, he⟩
      | fail err =>
        obtain ⟨hi, he, -⟩ := Feed.close_of_open (some err) hf
        exact ⟨hi.trans (List.append_nil _).symm, he⟩
      | next => exact ⟨(List.append_nil _).symm, hf⟩
    | some ended =>
      have hsome : f.ending.isSome = true := by rw [hf]; rfl
      have hsame : (feed f call).items = f.items ∧ (feed f call).ending = f.ending := by
        cases call with
        | push item => rw [feed, Feed.write_of_ended item hsome]; exact ⟨rfl, rfl⟩
        | finish | fail err => rw [feed, Feed.close_of_ended _ hsome]; exact ⟨rfl, rfl⟩
        | next => exact ⟨rfl, rfl⟩
      exact ⟨hsame.1.trans (List.append_nil _).symm, hsame.2.trans hf⟩

end SinkCall

namespace Sink

/-- A call. -/
def call (s : Sink α) : SinkCall α → Sink α
  | .push item => s.push item
  | .finish => s.finish
  | .fail err => s.fail err
  | .next => s.next

/-- Calls one after the other. -/
def calls (s : Sink α) (calls : List (SinkCall α)) : Sink α := calls.foldl call s

end Sink

/-- What a promise is settled with after the end. -/
def NextResult.ended : Option Err → NextResult α
  | none => finished
  | some err => failed err

/-- What becomes of the promise of an ask. -/
def NextResult.ofAsk (f : Feed α (Option Err)) : Option ℕ → NextResult α
  | none => failed alreadyIterated
  | some i =>
    match f.answer i with
    | none => pending
    | some (.inl value) => item value
    | some (.inr ended) => NextResult.ended ended

namespace Sink

/-- A sink is a feed. -/
structure Refines (s : Sink α) (f : Feed α (Option Err)) : Prop where
  queue : s.queue = f.unread
  done : s.done = f.ending.isSome
  terminalError : s.terminalError = f.ending.join
  promises : s.promises = f.asks.map (NextResult.ofAsk f)
  waiting : ∀ k, s.waiting = some k ↔
    f.waiting = true ∧ f.asks[k]? = some (some f.items.length)

theorem refines_new : (new : Sink α).Refines .empty := by
  refine ⟨rfl, rfl, rfl, rfl, fun k => ?_⟩
  exact iff_of_false (by intro h; cases h) fun h => by cases h.2

variable {s : Sink α} {f : Feed α (Option Err)}

/-- The ask that a consumer waits with is the one that has no answer. -/
theorem Refines.exists_waiting (h : s.Refines f) (hwaiting : f.waiting = true) :
    ∃ k, s.waiting = some k := by
  obtain ⟨-, hlt⟩ := Feed.waiting_iff.1 hwaiting
  obtain ⟨k, hk⟩ := List.mem_iff_getElem?.1 (Feed.mem_asks.2 hlt)
  exact ⟨k, (h.waiting k).2 ⟨hwaiting, hk⟩⟩

theorem Refines.waiting_eq_none (h : s.Refines f) : s.waiting = none ↔ f.waiting = false := by
  constructor
  · intro hnone
    by_contra hwaiting
    obtain ⟨k, hk⟩ := h.exists_waiting (by simpa using hwaiting)
    rw [hnone] at hk
    cases hk
  · intro hwaiting
    cases hk : s.waiting with
    | none => rfl
    | some k =>
      rw [((h.waiting k).1 hk).1] at hwaiting
      cases hwaiting

/-- With nobody waiting, every ask so far was for an item that is there. -/
theorem Refines.asked_le (h : s.Refines f) (hw : s.waiting = none) (hf : f.ending = none) :
    f.asked ≤ f.items.length := by
  have hwaiting := h.waiting_eq_none.1 hw
  rw [Bool.eq_false_iff, ne_eq, Feed.waiting_iff, not_and, Nat.not_lt] at hwaiting
  exact hwaiting hf

/-- Where a consumer waits, the others have their answers, and settling its promise is answering the
one ask. -/
theorem Refines.promises_set (h : s.Refines f) {f' : Feed α (Option Err)} {k : ℕ}
    {result : NextResult α} (hwaiting : s.waiting = some k) (hasks : f'.asks = f.asks)
    (hself : NextResult.ofAsk f' (some f.items.length) = result)
    (hother : ∀ i, i < f.asked → i ≠ f.items.length → f'.answer i = f.answer i) :
    s.promises.set k result = f'.asks.map (NextResult.ofAsk f') := by
  have hk := ((h.waiting k).1 hwaiting).2
  rw [h.promises, hasks]
  refine List.ext_getElem? fun j => ?_
  rw [List.getElem?_set, List.getElem?_map, List.getElem?_map, List.length_map]
  split_ifs with hj hlt
  · rw [← hj, hk, Option.map_some, hself]
  · rw [← hj, List.getElem?_eq_none (Nat.not_lt.1 hlt)]
    rfl
  · cases hask : f.asks[j]? with
    | none => rfl
    | some x =>
      cases x with
      | none => rfl
      | some i =>
        have hi : i ≠ f.items.length := by
          rintro rfl
          exact hj (Feed.eq_of_asks hk hask)
        have hlt := Feed.mem_asks.1 (List.mem_of_getElem? hask)
        simp only [Option.map_some, NextResult.ofAsk, hother i hlt hi]

theorem Refines.promises_same (h : s.Refines f) {f' : Feed α (Option Err)}
    (hasks : f'.asks = f.asks) (hsame : ∀ i, i < f.asked → f'.answer i = f.answer i) :
    s.promises = f'.asks.map (NextResult.ofAsk f') := by
  rw [h.promises, hasks]
  refine List.map_congr_left fun x hx => ?_
  cases x with
  | none => rfl
  | some i => simp only [NextResult.ofAsk, hsame i (Feed.mem_asks.1 hx)]

theorem Refines.push (h : s.Refines f) (item : α) : (s.push item).Refines (f.write item) := by
  cases hf : f.ending with
  | some ended =>
    have hsome : f.ending.isSome = true := by rw [hf]; rfl
    rw [Feed.write_of_ended item hsome, Sink.push, if_pos (by rw [h.done, hsome])]
    exact h
  | none =>
    have hdone : s.done = false := by rw [h.done, hf]; rfl
    obtain ⟨hitems, hending, hasks⟩ := Feed.write_of_open item hf
    have hasked : (f.write item).asked = f.asked := congrArg (fun l => l.reduceOption.length) hasks
    have hother : ∀ i, i ≠ f.items.length → (f.write item).answer i = f.answer i := by
      intro i hi
      simp only [Feed.answer, hitems, hending, hf]
      rcases Nat.lt_or_gt_of_ne hi with hlt | hgt
      · rw [List.getElem?_append_left hlt]
      · rw [List.getElem?_eq_none (by simp; omega), List.getElem?_eq_none (by omega)]
    have hself : NextResult.ofAsk (f.write item) (some f.items.length) = .item item := by
      simp [NextResult.ofAsk, Feed.answer, hitems]
    -- with the item at hand no ask is without an answer
    have hidle : (f.write item).waiting = false := by
      have hahead := f.ahead hf
      rw [Bool.eq_false_iff, ne_eq, Feed.waiting_iff, hitems, hasked, List.length_append]
      rintro ⟨-, hlt⟩
      exact absurd hlt (Nat.not_lt.2 hahead)
    have hnone : ∀ {s' : Sink α}, s'.waiting = none → ∀ k, s'.waiting = some k ↔
        (f.write item).waiting = true ∧
          (f.write item).asks[k]? = some (some (f.write item).items.length) := by
      intro s' hs' k
      rw [hs', hidle]
      exact iff_of_false (by intro h; cases h) fun h => by cases h.1
    cases hw : s.waiting with
    | some k =>
      obtain ⟨-, hlt⟩ := Feed.waiting_iff.1 ((h.waiting k).1 hw).1
      rw [Sink.push_of_waiting item hdone hw]
      refine ⟨?_, by rw [hending]; exact hdone, ?_,
        h.promises_set hw hasks hself fun i _ => hother i, hnone rfl⟩
      · show s.queue = _
        rw [h.queue, Feed.unread, Feed.unread, hitems, hasked, List.drop_of_length_le hlt.le,
          List.drop_of_length_le (by simp; omega)]
      · show s.terminalError = _
        rw [h.terminalError, hending, hf]
    | none =>
      have hle := h.asked_le hw hf
      rw [Sink.push_of_idle item hdone hw]
      refine ⟨?_, by rw [hending]; exact hdone, ?_,
        h.promises_same hasks fun i hi => hother i (by omega), hnone hw⟩
      · show s.queue ++ [item] = _
        rw [h.queue, Feed.unread, Feed.unread, hitems, hasked, List.drop_append_of_le_length hle]
      · show s.terminalError = _
        rw [h.terminalError, hending, hf]

theorem Refines.stop (h : s.Refines f) (ended : Option Err) (hf : f.ending = none) :
    ({ s with terminalError := ended, done := true }.settleWaiting (.ended ended)).Refines
      (f.close ended) := by
  obtain ⟨hitems, hending, hasks⟩ := Feed.close_of_open ended hf
  have hasked : (f.close ended).asked = f.asked := congrArg (fun l => l.reduceOption.length) hasks
  have hlt : ∀ i, i < f.items.length → (f.close ended).answer i = f.answer i := by
    intro i hi
    simp only [Feed.answer, hitems, List.getElem?_eq_getElem hi, Option.map_some, Option.some_or]
  have hself : NextResult.ofAsk (f.close ended) (some f.items.length) = .ended ended := by
    simp [NextResult.ofAsk, Feed.answer, hitems, hending]
  have hqueue : (f.close ended).unread = f.unread := by
    rw [Feed.unread, Feed.unread, hitems, hasked]
  have hnone : ∀ k, (none : Option ℕ) = some k ↔ (f.close ended).waiting = true ∧
      (f.close ended).asks[k]? = some (some (f.close ended).items.length) := by
    intro k
    refine iff_of_false (by intro h; cases h) fun h => ?_
    have hopen := (Feed.waiting_iff.1 h.1).1
    rw [hending] at hopen
    cases hopen
  rw [settleWaiting]
  cases hw : s.waiting with
  | some k =>
    simp only
    have hle : f.asked ≤ f.items.length + 1 := f.ahead hf
    exact ⟨h.queue.trans hqueue.symm, by rw [hending]; rfl, by rw [hending]; rfl,
      h.promises_set hw hasks hself fun i hi hne => hlt i (by omega), hnone⟩
  | none =>
    have hle := h.asked_le hw hf
    exact ⟨h.queue.trans hqueue.symm, by rw [hending]; rfl, by rw [hending]; rfl,
      h.promises_same hasks fun i hi => hlt i (by omega), hnone⟩

theorem Refines.finish (h : s.Refines f) : s.finish.Refines (f.close none) := by
  cases hf : f.ending with
  | some ended =>
    have hsome : f.ending.isSome = true := by rw [hf]; rfl
    rw [Feed.close_of_ended _ hsome, Sink.finish, if_pos (by rw [h.done, hsome])]
    exact h
  | none =>
    have herror : s.terminalError = none := by rw [h.terminalError, hf]; rfl
    rw [Sink.finish, if_neg (by simp [h.done, hf])]
    show (settleWaiting { s with terminalError := s.terminalError, done := true } _).Refines _
    rw [herror]
    exact h.stop none hf

theorem Refines.fail (h : s.Refines f) (err : Err) : (s.fail err).Refines (f.close (some err)) := by
  cases hf : f.ending with
  | some ended =>
    have hsome : f.ending.isSome = true := by rw [hf]; rfl
    rw [Feed.close_of_ended _ hsome, Sink.fail, if_pos (by rw [h.done, hsome])]
    exact h
  | none =>
    rw [Sink.fail, if_neg (by simp [h.done, hf])]
    exact h.stop (some err) hf

theorem Refines.next_turned_away (h : s.Refines f) {k : ℕ} (hw : s.waiting = some k) :
    s.next = { s with promises := s.promises ++ [.failed alreadyIterated] } ∧
      s.next.Refines f.ask := by
  have hwaiting := ((h.waiting k).1 hw).1
  obtain ⟨hf, hlt⟩ := Feed.waiting_iff.1 hwaiting
  obtain ⟨hasks, hasked⟩ := Feed.ask_of_waiting hwaiting
  have hqueue : s.queue = [] := by
    rw [h.queue, Feed.unread, List.drop_of_length_le hlt.le]
  have hnext : s.next = { s with promises := s.promises ++ [.failed alreadyIterated] } := by
    rw [Sink.next, hqueue]
    simp only [h.done, hf, hw, alreadyIterated, Option.isSome_none, Option.isSome_some,
      Bool.false_eq_true, if_false, if_true]
  refine ⟨hnext, ?_⟩
  rw [hnext]
  refine ⟨?_, h.done, h.terminalError, ?_, fun k' => ?_⟩
  · show s.queue = f.ask.items.drop f.ask.asked
    rw [hasked]
    exact h.queue
  · show s.promises ++ _ = _
    rw [h.promises, hasks, List.map_append]
    rfl
  · show s.waiting = some k' ↔ _
    have hwaiting' : f.ask.waiting = true := Feed.waiting_iff.2 ⟨hf, by rw [hasked]; exact hlt⟩
    have hitems : f.ask.items = f.items := rfl
    rw [h.waiting, hwaiting', hwaiting, hasks, hitems, List.getElem?_append]
    split_ifs with hlen
    · rfl
    · rw [List.getElem?_eq_none (Nat.not_lt.1 hlen), List.getElem?_singleton]
      split_ifs <;> simp

theorem Refines.promises_ask (h : s.Refines f) (hw : s.waiting = none) :
    f.ask.asks.map (NextResult.ofAsk f.ask) =
      s.promises ++ [NextResult.ofAsk f (some f.asked)] := by
  have hofAsk : NextResult.ofAsk f.ask = NextResult.ofAsk f := rfl
  rw [(Feed.ask_of_not_waiting (h.waiting_eq_none.1 hw)).1, hofAsk, List.map_append, ← h.promises]
  rfl

theorem Refines.next_item (h : s.Refines f) (hw : s.waiting = none) {item : α} {queue : List α}
    (hqueue : s.queue = item :: queue) : s.next.Refines f.ask := by
  obtain ⟨-, hasked⟩ := Feed.ask_of_not_waiting (h.waiting_eq_none.1 hw)
  have hunread : f.items.drop f.asked = item :: queue := h.queue.symm.trans hqueue
  have hlt : f.asked < f.items.length := by
    by_contra hle
    rw [List.drop_of_length_le (Nat.not_lt.1 hle)] at hunread
    cases hunread
  obtain ⟨hitem, hrest⟩ := List.cons_eq_cons.1 ((List.drop_eq_getElem_cons hlt).symm.trans hunread)
  rw [next_of_cons hqueue]
  refine ⟨?_, h.done, h.terminalError, ?_, fun k => ?_⟩
  · show queue = f.ask.items.drop f.ask.asked
    rw [hasked]
    exact hrest.symm
  · rw [h.promises_ask hw, NextResult.ofAsk, Feed.answer_of_lt hlt, hitem]
  · show s.waiting = some k ↔ _
    rw [hw]
    refine iff_of_false (by intro h; cases h) fun hk => ?_
    have hlt' := (Feed.waiting_iff.1 hk.1).2
    rw [hasked] at hlt'
    exact absurd hlt' (Nat.not_lt.2 hlt)

theorem Refines.length_le (h : s.Refines f) (hqueue : s.queue = []) : f.items.length ≤ f.asked :=
  List.drop_eq_nil_iff.1 (h.queue.symm.trans hqueue)

theorem Refines.unread_ask (h : s.Refines f) (hw : s.waiting = none) (hqueue : s.queue = []) :
    f.ask.unread = [] := by
  rw [Feed.unread, (Feed.ask_of_not_waiting (h.waiting_eq_none.1 hw)).2]
  exact List.drop_of_length_le (Nat.le_succ_of_le (h.length_le hqueue))

/-- After the end and the items, a call to `next()` is told of the end. -/
theorem Refines.next_ended (h : s.Refines f) (hw : s.waiting = none) (hqueue : s.queue = [])
    {ended : Option Err} (hf : f.ending = some ended) :
    s.next = { s with promises := s.promises ++ [.ended ended] } ∧ s.next.Refines f.ask := by
  have hnext : s.next = { s with promises := s.promises ++ [.ended ended] } := by
    have herror : s.terminalError = ended := by rw [h.terminalError, hf]; rfl
    rw [Sink.next, hqueue]
    simp only [h.done, hf, herror, Option.isSome_some, if_true]
    cases ended <;> rfl
  refine ⟨hnext, ?_⟩
  rw [hnext]
  refine ⟨hqueue.trans (h.unread_ask hw hqueue).symm, h.done, h.terminalError, ?_, fun k => ?_⟩
  · rw [h.promises_ask hw, NextResult.ofAsk, Feed.answer_of_le (h.length_le hqueue), hf]
    rfl
  · show s.waiting = some k ↔ _
    rw [hw]
    refine iff_of_false (by intro h; cases h) fun hk => ?_
    have hopen : f.ending = none := (Feed.waiting_iff.1 hk.1).1
    rw [hf] at hopen
    cases hopen

/-- Before the end, a call to `next()` waits for an item that is not there. -/
theorem Refines.next_open (h : s.Refines f) (hw : s.waiting = none) (hqueue : s.queue = [])
    (hf : f.ending = none) : s.next.Refines f.ask := by
  obtain ⟨hasks, hasked⟩ := Feed.ask_of_not_waiting (h.waiting_eq_none.1 hw)
  have hle := h.length_le hqueue
  have hlength : s.promises.length = f.asks.length := by rw [h.promises, List.length_map]
  have heq : f.asked = f.items.length := Nat.le_antisymm (h.asked_le hw hf) hle
  rw [next_of_open hqueue (by rw [h.done, hf]; rfl) hw]
  refine ⟨hqueue.trans (h.unread_ask hw hqueue).symm, h.done, h.terminalError, ?_, fun k => ?_⟩
  · rw [h.promises_ask hw, NextResult.ofAsk, Feed.answer_of_le hle, hf]
    rfl
  · -- the new ask is the one that waits
    have hwaiting : f.ask.waiting = true :=
      Feed.waiting_iff.2 ⟨hf, by rw [hasked]; exact Nat.lt_succ_of_le hle⟩
    have hlast : f.ask.asks[f.asks.length]? = some (some f.ask.items.length) := by
      rw [hasks, List.getElem?_append_right le_rfl, Nat.sub_self, heq]
      rfl
    show some s.promises.length = some k ↔ _
    rw [hlength, Option.some_inj]
    constructor
    · rintro rfl
      exact ⟨hwaiting, hlast⟩
    · rintro ⟨-, hk⟩
      exact Feed.eq_of_asks hlast hk

theorem Refines.next (h : s.Refines f) : s.next.Refines f.ask := by
  cases hw : s.waiting with
  | some k => exact (h.next_turned_away hw).2
  | none =>
    cases hqueue : s.queue with
    | cons item queue => exact h.next_item hw hqueue
    | nil =>
      cases hf : f.ending with
      | some ended => exact (h.next_ended hw hqueue hf).2
      | none => exact h.next_open hw hqueue hf

theorem Refines.call (h : s.Refines f) (c : SinkCall α) : (s.call c).Refines (c.feed f) := by
  cases c with
  | push item => exact h.push item
  | finish => exact h.finish
  | fail err => exact h.fail err
  | next => exact h.next

/-- **A sink is a feed**, after any calls. -/
theorem refines_calls (cs : List (SinkCall α)) :
    ((new : Sink α).calls cs).Refines (cs.foldl SinkCall.feed .empty) := by
  induction cs using List.reverseRecOn with
  | nil => exact refines_new
  | append_singleton cs c ih =>
    rw [calls, List.foldl_append, List.foldl_append]
    exact ih.call c

/-! ### What a consumer sees -/

theorem Refines.filterMap_promises (h : s.Refines f) :
    s.promises.filterMap NextResult.value? = f.items.take f.asked := by
  rw [← f.given_eq, h.promises, List.filterMap_map]
  refine List.filterMap_congr fun x hx => ?_
  cases x with
  | none => rfl
  | some i =>
    show (NextResult.ofAsk f (some i)).value? = f.items[i]?
    rw [NextResult.ofAsk, Feed.answer]
    cases f.items[i]? with
    | some item => rfl
    | none =>
      cases f.ending with
      | none => rfl
      | some ended => cases ended <;> rfl

theorem Refines.accepted (h : s.Refines f) : s.accepted = f.items := by
  rw [Sink.accepted, h.filterMap_promises, h.queue, Feed.unread, List.take_append_drop]

theorem ofAsk_feed (c : SinkCall α) (x : Option ℕ) (hsettled : NextResult.ofAsk f x ≠ .pending) :
    NextResult.ofAsk (c.feed f) x = NextResult.ofAsk f x := by
  cases x with
  | none => rfl
  | some i =>
    cases hanswer : f.answer i with
    | none => exact absurd (by rw [NextResult.ofAsk, hanswer]) hsettled
    | some answer =>
      have hkeep : (c.feed f).answer i = some answer := by
        cases c with
        | push item => exact Feed.answer_write item hanswer
        | finish => exact Feed.answer_close none hanswer
        | fail err => exact Feed.answer_close (some err) hanswer
        | next => exact hanswer
      rw [NextResult.ofAsk, NextResult.ofAsk, hanswer, hkeep]

theorem asks_feed (c : SinkCall α) : f.asks <+: (c.feed f).asks := by
  cases c with
  | push item =>
    rw [SinkCall.feed, Feed.write]
    split_ifs <;> exact List.prefix_rfl
  | finish | fail err =>
    rw [SinkCall.feed, Feed.close]
    split_ifs <;> exact List.prefix_rfl
  | next => exact List.prefix_append _ _

theorem Refines.promise_call (h : s.Refines f) (c : SinkCall α) {k : ℕ} {result : NextResult α}
    (hk : s.promises[k]? = some result) (hsettled : result ≠ .pending) :
    (s.call c).promises[k]? = some result := by
  rw [h.promises, List.getElem?_map] at hk
  obtain ⟨x, hx, rfl⟩ := Option.map_eq_some_iff.1 hk
  obtain ⟨asks, hasks⟩ := asks_feed (f := f) c
  have hlt := (List.getElem?_eq_some_iff.1 hx).1
  rw [(h.call c).promises, List.getElem?_map, ← hasks, List.getElem?_append_left hlt, hx,
    Option.map_some, ofAsk_feed c x hsettled]

theorem Refines.promise_calls (h : s.Refines f) (cs : List (SinkCall α)) {k : ℕ}
    {result : NextResult α} (hk : s.promises[k]? = some result) (hsettled : result ≠ .pending) :
    (s.calls cs).promises[k]? = some result := by
  induction cs generalizing s f with
  | nil => exact hk
  | cons c cs ih => exact ih (h.call c) (h.promise_call c hk hsettled)

theorem Refines.mem_promises (h : s.Refines f) {result : NextResult α}
    (hmem : result ∈ s.promises) :
    result = .pending ∧ f.ending = none ∨ (∃ item, result = .item item) ∨
      result = .failed alreadyIterated ∨
      ∃ ended, f.ending = some ended ∧ result = .ended ended := by
  rw [h.promises] at hmem
  obtain ⟨x, -, rfl⟩ := List.mem_map.1 hmem
  cases x with
  | none => exact .inr (.inr (.inl rfl))
  | some i =>
    rw [NextResult.ofAsk, Feed.answer]
    cases f.items[i]? with
    | some item => exact .inr (.inl ⟨item, rfl⟩)
    | none =>
      cases hf : f.ending with
      | none => exact .inl ⟨rfl, rfl⟩
      | some ended => exact .inr (.inr (.inr ⟨ended, rfl, rfl⟩))

/-- **First in, first out, until the end.**  After any calls: the items given out are the first of
those pushed before the end, in order and each once, and the others are buffered; a consumer that
waits has nothing to take, and another call to `next()` is turned away and changes nothing else; a
promise is settled once; after the end, whatever else is called, no promise is open; and `next()`
gives what is buffered and then the way the sink was ended first. -/
theorem fifo (cs : List (SinkCall α)) :
    let s := (new : Sink α).calls cs
    s.promises.filterMap NextResult.value? ++ s.queue = SinkCall.pushed cs ∧
      (∀ k, s.waiting = some k → s.queue = [] ∧ s.done = false ∧
        s.next = { s with promises := s.promises ++ [.failed alreadyIterated] }) ∧
      (∀ cs' (k : ℕ) (result : NextResult α), s.promises[k]? = some result → result ≠ .pending →
        (s.calls cs').promises[k]? = some result) ∧
      (∀ result ∈ s.promises, result = .pending ∨ (∃ item, result = .item item) ∨
        result = .failed alreadyIterated ∨
        ∃ ended, SinkCall.ending cs = some ended ∧ result = .ended ended) ∧
      (∀ ended, SinkCall.ending cs = some ended →
        s.waiting = none ∧ NextResult.pending ∉ s.promises) ∧
      (s.waiting = none → s.next.promises = s.promises ++ [match s.queue with
        | item :: _ => .item item
        | [] => (SinkCall.ending cs).elim .pending .ended]) := by
  intro s
  -- everything is read off the feed of the calls
  have h : s.Refines (cs.foldl SinkCall.feed .empty) := refines_calls cs
  obtain ⟨hitems, hending⟩ := SinkCall.foldl_feed cs
  generalize cs.foldl SinkCall.feed .empty = f at h hitems hending
  refine ⟨h.accepted.trans hitems, fun k hw => ?_, fun cs' k result => h.promise_calls cs',
    fun result hmem => ?_, fun ended hended => ?_, fun hw => ?_⟩
  · obtain ⟨hf, hlt⟩ := Feed.waiting_iff.1 ((h.waiting k).1 hw).1
    refine ⟨?_, by rw [h.done, hf]; rfl, (h.next_turned_away hw).1⟩
    rw [h.queue, Feed.unread, List.drop_of_length_le hlt.le]
  · rw [← hending]
    exact (h.mem_promises hmem).imp_left And.left
  · have hf : f.ending = some ended := hending.trans hended
    refine ⟨h.waiting_eq_none.2 (by rw [Feed.waiting, hf]; rfl), fun hmem => ?_⟩
    rcases h.mem_promises hmem with ⟨-, hopen⟩ | ⟨item, heq⟩ | heq | ⟨ended', -, heq⟩
    · rw [hf] at hopen
      cases hopen
    · cases heq
    · cases heq
    · cases ended' <;> cases heq
  · rw [← hending]
    -- what is buffered comes first, then how the sink was ended
    cases hqueue : s.queue with
    | cons item queue => rw [next_of_cons hqueue]
    | nil =>
      cases hf : f.ending with
      | some ended =>
        rw [(h.next_ended hw hqueue hf).1]
        rfl
      | none =>
        rw [next_of_open hqueue (by rw [h.done, hf]; rfl) hw]
        rfl

end Sink

end Tephra
