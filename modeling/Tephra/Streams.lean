import Tephra.Convert
import Tephra.Util

/-!
# Streams

`Sink`, `BaseStream`, `ReadStream` and `SubscribeStream` of `streams.ts`.  Every `next()` makes a
promise; a sink records what became of each of them in `promises`, in the order of the calls, and
`waiting` is the number of the one a consumer waits on.  The callback `onCancel` belongs to the
connection, so `close` and `onAbort` are completed there.

A call to `collect()` is the `collector` of a read: it waits on one of the sink's promises at a
time.  Any other consumer of a stream is a sequence of `next()` calls.
-/

namespace Tephra

/-- What became of a promise of `next()`. -/
inductive NextResult (α : Type)
  | pending
  /-- `{ value, done: false }`. -/
  | item (value : α)
  /-- `{ value: undefined, done: true }`. -/
  | finished
  | failed (reason : Err)
  deriving DecidableEq, Repr

/-- The item of a promise, if it has one. -/
def NextResult.value? {α : Type} : NextResult α → Option α
  | item value => some value
  | _ => none

/-! ### Sink -/

/-- `Sink`. -/
structure Sink (α : Type) where
  queue : List α
  terminalError : Option Err
  done : Bool
  /-- The promise a consumer waits on. -/
  waiting : Option ℕ
  /-- All promises made by `next()`. -/
  promises : List (NextResult α)
  deriving DecidableEq, Repr

namespace Sink

variable {α : Type}

/-- `new Sink()`. -/
def new : Sink α :=
  { queue := [], terminalError := none, done := false, waiting := none, promises := [] }

/-- Settle the promise a consumer waits on, if any. -/
def settleWaiting (s : Sink α) (result : NextResult α) : Sink α :=
  match s.waiting with
  | some k => { s with waiting := none, promises := s.promises.set k result }
  | none => s

/-- `push`. -/
def push (s : Sink α) (item : α) : Sink α :=
  if s.done then s
  else if s.waiting.isSome then s.settleWaiting (.item item)
  else { s with queue := s.queue ++ [item] }

/-- `finish`. -/
def finish (s : Sink α) : Sink α :=
  if s.done then s else { s with done := true }.settleWaiting .finished

/-- `fail`. -/
def fail (s : Sink α) (err : Err) : Sink α :=
  if s.done then s
  else { s with terminalError := some err, done := true }.settleWaiting (.failed err)

/-- `next`: the new promise is the last one. -/
def next (s : Sink α) : Sink α :=
  match s.queue with
  | item :: queue => { s with queue := queue, promises := s.promises ++ [.item item] }
  | [] =>
    if s.done then
      match s.terminalError with
      | some err => { s with promises := s.promises ++ [.failed err] }
      | none => { s with promises := s.promises ++ [.finished] }
    else if s.waiting.isSome then
      { s with
        promises := s.promises ++ [.failed (.protocol "stream is already being iterated")] }
    else { s with waiting := some s.promises.length, promises := s.promises ++ [.pending] }

/-- Every item taken in: those given to a consumer and those still buffered. -/
def accepted (s : Sink α) : List α := s.promises.filterMap NextResult.value? ++ s.queue

variable (s : Sink α)

@[simp] theorem done_settleWaiting (result : NextResult α) :
    (s.settleWaiting result).done = s.done := by
  unfold settleWaiting; split <;> rfl

@[simp] theorem done_finish : s.finish.done = true := by
  unfold finish
  split
  · assumption
  · rw [done_settleWaiting]

@[simp] theorem done_fail (err : Err) : (s.fail err).done = true := by
  unfold fail
  split
  · assumption
  · rw [done_settleWaiting]

@[simp] theorem done_push (item : α) : (s.push item).done = s.done := by
  unfold push
  split
  · rfl
  · split
    · rw [done_settleWaiting]
    · rfl

variable {s}

theorem push_of_waiting {k : ℕ} (item : α) (hdone : s.done = false)
    (hwaiting : s.waiting = some k) :
    s.push item = { s with waiting := none, promises := s.promises.set k (.item item) } := by
  rw [push, if_neg (by simp [hdone]), if_pos (by simp [hwaiting]), settleWaiting]
  simp only [hwaiting]

theorem push_of_idle (item : α) (hdone : s.done = false) (hwaiting : s.waiting = none) :
    s.push item = { s with queue := s.queue ++ [item] } := by
  rw [push, if_neg (by simp [hdone]), if_neg (by simp [hwaiting])]

theorem finish_of_waiting {k : ℕ} (hdone : s.done = false) (hwaiting : s.waiting = some k) :
    s.finish =
      { s with done := true, waiting := none, promises := s.promises.set k .finished } := by
  rw [finish, if_neg (by simp [hdone]), settleWaiting]
  simp only [hwaiting]

theorem finish_of_idle (hdone : s.done = false) (hwaiting : s.waiting = none) :
    s.finish = { s with done := true } := by
  rw [finish, if_neg (by simp [hdone]), settleWaiting]
  simp only [hwaiting]

theorem fail_of_open (err : Err) (hdone : s.done = false) :
    (s.fail err).terminalError = some err ∧
      ∀ p ∈ (s.fail err).promises, p ∈ s.promises ∨ p = .failed err := by
  rw [fail, if_neg (by simp [hdone]), settleWaiting]
  split
  · exact ⟨rfl, fun p hp => List.mem_or_eq_of_mem_set hp⟩
  · exact ⟨rfl, fun p hp => .inl hp⟩

theorem next_of_cons {item : α} {queue : List α} (hqueue : s.queue = item :: queue) :
    s.next = { s with queue := queue, promises := s.promises ++ [.item item] } := by
  rw [next]
  split
  · rename_i h
    cases hqueue.symm.trans h
    rfl
  · rename_i h
    cases hqueue.symm.trans h

theorem next_of_finished (hqueue : s.queue = []) (hdone : s.done = true)
    (herror : s.terminalError = none) :
    s.next = { s with promises := s.promises ++ [.finished] } := by
  rw [next]
  split
  · rename_i h
    cases hqueue.symm.trans h
  · simp only [hdone, if_true, herror]

theorem next_of_open (hqueue : s.queue = []) (hdone : s.done = false)
    (hwaiting : s.waiting = none) :
    s.next = { s with
      waiting := some s.promises.length
      promises := s.promises ++ [.pending] } := by
  rw [next]
  split
  · rename_i h
    cases hqueue.symm.trans h
  · rw [if_neg (by simp [hdone]), if_neg (by simp [hwaiting])]

/-- What a consumer can still see of a sink stays: how it ended, which items it took in, and what
became of the promises made so far. -/
structure Extends (s s' : Sink α) : Prop where
  done : s'.done = s.done
  terminalError : s'.terminalError = s.terminalError
  accepted : s'.accepted = s.accepted
  promises : s.promises <+: s'.promises

theorem Extends.refl (s : Sink α) : s.Extends s := ⟨rfl, rfl, rfl, List.prefix_rfl⟩

theorem Extends.trans {s' s'' : Sink α} (h : s.Extends s') (h' : s'.Extends s'') : s.Extends s'' :=
  ⟨h'.done.trans h.done, h'.terminalError.trans h.terminalError, h'.accepted.trans h.accepted,
    h.promises.trans h'.promises⟩

theorem extends_next (s : Sink α) : s.Extends s.next := by
  unfold next
  split
  · rename_i item queue h
    exact ⟨rfl, rfl, by simp [accepted, h, NextResult.value?], List.prefix_append _ _⟩
  · rename_i h
    split_ifs
    · split
      · exact ⟨rfl, rfl, by simp [accepted, NextResult.value?], List.prefix_append _ _⟩
      · exact ⟨rfl, rfl, by simp [accepted, NextResult.value?], List.prefix_append _ _⟩
    · exact ⟨rfl, rfl, by simp [accepted, NextResult.value?], List.prefix_append _ _⟩
    · exact ⟨rfl, rfl, by simp [accepted, NextResult.value?], List.prefix_append _ _⟩

end Sink

/-! ### Streams -/

/-- The signal an operation is given. -/
inductive Signal
  | none
  /-- One that may abort later. -/
  | live
  /-- One that has aborted already. -/
  | aborted (reason : Reason)
  deriving DecidableEq, Repr

/-- `BaseStream`. -/
structure BaseStream (α : Type) where
  sink : Sink α
  closed : Bool
  /-- Whether the stream listens to its signal. -/
  abortListener : Bool
  /-- The microtask that runs `onAbort` for a signal that had aborted already, with its reason. -/
  abortMicrotask : Option Reason
  deriving DecidableEq, Repr

namespace BaseStream

variable {α : Type}

/-- The constructor. -/
def new (signal : Signal) : BaseStream α where
  sink := Sink.new
  closed := false
  abortListener := signal = .live
  abortMicrotask :=
    match signal with
    | .aborted reason => some reason
    | _ => none

/-- `deliverItem`. -/
def deliverItem (b : BaseStream α) (item : α) : BaseStream α := { b with sink := b.sink.push item }

/-- `markClosed`, which also detaches the abort listener. -/
def markClosed (b : BaseStream α) : BaseStream α :=
  { b with closed := true, abortListener := false }

/-- `failWith`. -/
def failWith (b : BaseStream α) (err : Err) : BaseStream α :=
  { b.markClosed with sink := b.sink.fail err }

/-- `finishClean`. -/
def finishClean (b : BaseStream α) : BaseStream α := { b.markClosed with sink := b.sink.finish }

/-- `next()` of the iterator. -/
def next (b : BaseStream α) : BaseStream α := { b with sink := b.sink.next }

/-- The signal aborts, and the listener, which is called once, is gone. -/
def takeListener (b : BaseStream α) : BaseStream α := { b with abortListener := false }

/-- The microtask runs. -/
def takeMicrotask (b : BaseStream α) : BaseStream α := { b with abortMicrotask := none }

end BaseStream

/-- The state of a `collect()`. -/
inductive Collector
  /-- Waiting on a promise of the sink, with the events so far. -/
  | awaiting (promise : ℕ) (events : List SequencedEvent)
  | resolved (events : List SequencedEvent) (watermark : ℤ)
  | rejected (reason : Err)
  deriving DecidableEq, Repr

/-- `ReadStream`. -/
structure ReadStream where
  base : BaseStream SequencedEvent
  watermarkValue : Option ℤ
  collector : Option Collector
  deriving DecidableEq, Repr

namespace ReadStream

/-- The constructor. -/
def new (signal : Signal) : ReadStream :=
  { base := BaseStream.new signal, watermarkValue := none, collector := none }

/-- `endWith`. -/
def endWith (s : ReadStream) (watermark : ℤ) : ReadStream :=
  { s with base := s.base.finishClean, watermarkValue := some watermark }

/-- `collect`, up to its first `await`. -/
def collect (s : ReadStream) : ReadStream :=
  { s with
    base := s.base.next
    collector := some (.awaiting s.base.sink.promises.length []) }

/-- The rest of `collect`: one turn of its loop, once the promise it waits on is settled. -/
def collectStep (s : ReadStream) : Option ReadStream :=
  match s.collector with
  | some (.awaiting k events) =>
    match s.base.sink.promises[k]? with
    | some (.item event) =>
      some { s with
        base := s.base.next
        collector := some (.awaiting s.base.sink.promises.length (events ++ [event])) }
    | some .finished =>
      some { s with collector := some (.resolved events (s.watermarkValue.getD 0)) }
    | some (.failed reason) => some { s with collector := some (.rejected reason) }
    | _ => none
  | _ => none

theorem extends_of_collectStep {s s' : ReadStream} (h : s.collectStep = some s') :
    s'.base.closed = s.base.closed ∧ s.base.sink.Extends s'.base.sink ∧
      s'.watermarkValue = s.watermarkValue := by
  unfold collectStep at h
  split at h
  · split at h
    · cases h; exact ⟨rfl, Sink.extends_next _, rfl⟩
    · cases h; exact ⟨rfl, .refl _, rfl⟩
    · cases h; exact ⟨rfl, .refl _, rfl⟩
    · cases h
  · cases h

end ReadStream

/-- `SubscribeStream`. -/
abbrev SubscribeStream := BaseStream SubEvent

end Tephra
