import Tephra.Streams

/-!
# Collecting a read

A read whose only consumer is `collect()` goes through few states: nobody has asked yet, the
collector waits for an event or has one to take, it has seen the end, or it is resolved.

* `ReadStream.Took` : which events a read has taken in so far, and whether it has ended.
* `Took.deliver`, `Took.endWith`, `Took.collect`, `Took.collectStep` : what keeps this.
* `ReadStream.Barred` : a read that has failed: its collector does not resolve.
* `Took.progress` : once the read has ended, a collector comes to resolve with exactly these events.
-/

namespace Tephra

namespace ReadStream

/-- Where the collector of a read is that has taken in the events `taken`, and has ended with the
watermark `ending` if that is there. -/
inductive Collecting (s : ReadStream) (taken : List SequencedEvent) (ending : Option ℤ) : Prop
  /-- `collect()` was not called. -/
  | idle (collector : s.collector = none) (promises : s.base.sink.promises = [])
      (waiting : s.base.sink.waiting = none) (queue : s.base.sink.queue = taken)
  /-- It waits for an event to come. -/
  | waiting (isOpen : ending = none)
      (collector : s.collector = some (.awaiting taken.length taken))
      (promises : s.base.sink.promises = taken.map .item ++ [.pending])
      (waiting : s.base.sink.waiting = some taken.length) (queue : s.base.sink.queue = [])
  /-- An event is there for it. -/
  | item (events : List SequencedEvent) (e : SequencedEvent)
      (collector : s.collector = some (.awaiting events.length events))
      (promises : s.base.sink.promises = events.map .item ++ [.item e])
      (waiting : s.base.sink.waiting = none) (queue : taken = events ++ e :: s.base.sink.queue)
  /-- The end is there for it. -/
  | finished (ended : ending.isSome = true)
      (collector : s.collector = some (.awaiting taken.length taken))
      (promises : s.base.sink.promises = taken.map .item ++ [.finished])
      (waiting : s.base.sink.waiting = none) (queue : s.base.sink.queue = [])
  /-- It is resolved. -/
  | resolved {w : ℤ} (ended : ending = some w) (collector : s.collector = some (.resolved taken w))

/-- A read has taken in exactly the events `taken`, has ended with the watermark `ending` if that is
there, and has no other consumer than `collect()`. -/
structure Took (s : ReadStream) (taken : List SequencedEvent) (ending : Option ℤ) : Prop where
  watermark : s.watermarkValue = ending
  done : s.base.sink.done = ending.isSome
  error : s.base.sink.terminalError = none
  collecting : Collecting s taken ending

/-- A read that has taken in nothing, and that at most a `collect()` waits on. -/
def Untouched (s : ReadStream) : Prop :=
  s.watermarkValue = none ∧
    (s.collector = none ∧ s.base.sink = .new ∨
      s.collector = some (.awaiting 0 []) ∧ s.base.sink = Sink.new.next)

variable {s s' : ReadStream} {taken : List SequencedEvent} {ending : Option ℤ}

theorem Untouched.took (h : Untouched s) : Took s [] none := by
  obtain ⟨hwatermark, ⟨hcollector, hsink⟩ | ⟨hcollector, hsink⟩⟩ := h
  · exact ⟨hwatermark, by rw [hsink]; rfl, by rw [hsink]; rfl,
      .idle hcollector (by rw [hsink]; rfl) (by rw [hsink]; rfl) (by rw [hsink]; rfl)⟩
  · exact ⟨hwatermark, by rw [hsink]; rfl, by rw [hsink]; rfl,
      .waiting rfl hcollector (by rw [hsink]; rfl) (by rw [hsink]; rfl) (by rw [hsink]; rfl)⟩

/-! ### What the connection does -/

theorem set_waiting (taken : List SequencedEvent) (result : NextResult SequencedEvent) :
    (taken.map NextResult.item ++ [NextResult.pending]).set taken.length result =
      taken.map .item ++ [result] := by
  rw [List.set_append_right _ _ (by rw [List.length_map]), List.length_map, Nat.sub_self]
  rfl

/-- `deliverItem`. -/
theorem Took.deliver (h : Took s taken none) (e : SequencedEvent) :
    Took { s with base := s.base.deliverItem e } (taken ++ [e]) none := by
  obtain ⟨hwatermark, hdone, herror, hcollecting⟩ := h
  have hopen : s.base.sink.done = false := hdone
  cases hcollecting with
  | idle collector promises waiting queue =>
    -- nothing waits, so the event is queued
    have hpush := Sink.push_of_idle e hopen waiting
    refine ⟨hwatermark, (Sink.done_push _ _).trans hdone, ?_, .idle collector ?_ ?_ ?_⟩ <;>
      simp only [BaseStream.deliverItem, hpush]
    · exact herror
    · exact promises
    · exact waiting
    · rw [queue]
  | waiting isOpen collector promises waiting queue =>
    -- the promise that waits gets the event
    have hpush := Sink.push_of_waiting e hopen waiting
    refine ⟨hwatermark, (Sink.done_push _ _).trans hdone, ?_,
      .item taken e collector ?_ ?_ ?_⟩ <;>
      simp only [BaseStream.deliverItem, hpush]
    · exact herror
    · rw [promises, set_waiting]
    · rw [queue]
  | item events e' collector promises waiting queue =>
    have hpush := Sink.push_of_idle e hopen waiting
    refine ⟨hwatermark, (Sink.done_push _ _).trans hdone, ?_,
      .item events e' collector ?_ ?_ ?_⟩ <;>
      simp only [BaseStream.deliverItem, hpush]
    · exact herror
    · exact promises
    · exact waiting
    · rw [queue, List.append_assoc, List.cons_append]
  | finished ended => cases ended
  | resolved ended => cases ended

theorem Took.deliverAll (h : Took s taken none) (events : List SequencedEvent) :
    Took (events.foldl (fun s e => { s with base := s.base.deliverItem e }) s) (taken ++ events)
      none := by
  induction events generalizing s taken with
  | nil => rwa [List.append_nil]
  | cons e events ih =>
    rw [List.append_cons]
    exact ih (h.deliver e)

/-- `endWith`. -/
theorem Took.endWith (h : Took s taken none) (w : ℤ) : Took (s.endWith w) taken (some w) := by
  obtain ⟨hwatermark, hdone, herror, hcollecting⟩ := h
  have hopen : s.base.sink.done = false := hdone
  have hend : (s.endWith w).base.sink = s.base.sink.finish := rfl
  cases hcollecting with
  | idle collector promises waiting queue =>
    rw [Sink.finish_of_idle hopen waiting] at hend
    refine ⟨rfl, ?_, ?_, .idle collector ?_ ?_ ?_⟩ <;> rw [hend]
    · rfl
    · exact herror
    · exact promises
    · exact waiting
    · exact queue
  | waiting isOpen collector promises waiting queue =>
    rw [Sink.finish_of_waiting hopen waiting, promises, set_waiting] at hend
    refine ⟨rfl, ?_, ?_, .finished rfl collector ?_ ?_ ?_⟩ <;> rw [hend]
    · rfl
    · exact herror
    · exact queue
  | item events e collector promises waiting queue =>
    rw [Sink.finish_of_idle hopen waiting] at hend
    refine ⟨rfl, ?_, ?_, .item events e collector ?_ ?_ ?_⟩ <;> rw [hend]
    · rfl
    · exact herror
    · exact promises
    · exact waiting
    · exact queue
  | finished ended => cases ended
  | resolved ended => cases ended

/-! ### What the collector does -/

/-- A collector that has every promise so far as an event asks for the next. -/
theorem collecting_next (events : List SequencedEvent)
    (promises : s.base.sink.promises = events.map .item) (waiting : s.base.sink.waiting = none)
    (queue : taken = events ++ s.base.sink.queue) (done : s.base.sink.done = ending.isSome)
    (error : s.base.sink.terminalError = none) :
    Collecting { s with
      base := s.base.next
      collector := some (.awaiting s.base.sink.promises.length events) } taken ending := by
  have hlength : s.base.sink.promises.length = events.length := by rw [promises, List.length_map]
  rw [hlength]
  cases hqueue : s.base.sink.queue with
  | cons e rest =>
    have hnext := Sink.next_of_cons hqueue
    refine .item events e rfl ?_ ?_ ?_ <;> simp only [BaseStream.next, hnext]
    · rw [promises]
    · exact waiting
    · rw [queue, hqueue]
  | nil =>
    rw [hqueue, List.append_nil] at queue
    subst queue
    cases ending with
    | some w =>
      have hnext := Sink.next_of_finished hqueue done error
      refine .finished rfl rfl ?_ ?_ ?_ <;> simp only [BaseStream.next, hnext]
      · rw [promises]
      · exact waiting
      · exact hqueue
    | none =>
      have hnext := Sink.next_of_open hqueue done waiting
      refine .waiting rfl rfl ?_ ?_ ?_ <;> simp only [BaseStream.next, hnext]
      · rw [promises]
      · rw [hlength]
      · exact hqueue

theorem took_next (h : Took s taken ending) {collector : Collector}
    (collecting :
      Collecting { s with base := s.base.next, collector := some collector } taken ending) :
    Took { s with base := s.base.next, collector := some collector } taken ending :=
  have hnext := Sink.extends_next s.base.sink
  ⟨h.watermark, hnext.done.trans h.done, hnext.terminalError.trans h.error, collecting⟩

/-- `collect()`. -/
theorem Took.collect (h : Took s taken ending) (hnone : s.collector = none) :
    Took s.collect taken ending := by
  refine took_next h ?_
  cases h.collecting with
  | idle collector promises waiting queue =>
    exact collecting_next [] promises waiting queue.symm h.done h.error
  | waiting isOpen collector | item _ _ collector | finished ended collector
  | resolved ended collector =>
    cases hnone.symm.trans collector

theorem getElem?_awaited (events : List SequencedEvent) (result : NextResult SequencedEvent) :
    (events.map NextResult.item ++ [result])[events.length]? = some result := by
  rw [List.getElem?_append_right (by rw [List.length_map]), List.length_map, Nat.sub_self]
  rfl

/-- A turn of the collector. -/
theorem Took.collectStep (h : Took s taken ending) (hstep : s.collectStep = some s') :
    Took s' taken ending := by
  unfold ReadStream.collectStep at hstep
  cases h.collecting with
  | idle collector => rw [collector] at hstep; cases hstep
  | waiting isOpen collector promises =>
    simp only [collector, promises, getElem?_awaited] at hstep
    cases hstep
  | item events e collector promises waiting queue =>
    have hevents : s.base.sink.promises = (events ++ [e]).map .item := by
      rw [promises, List.map_append]; rfl
    simp only [collector, promises, getElem?_awaited] at hstep
    cases hstep
    rw [← promises]
    exact took_next h (collecting_next _ hevents waiting
      (by rw [queue, List.append_assoc]; rfl) h.done h.error)
  | finished ended collector promises waiting queue =>
    obtain ⟨w, rfl⟩ := Option.isSome_iff_exists.1 ended
    simp only [collector, promises, getElem?_awaited, h.watermark, Option.getD_some] at hstep
    cases hstep
    exact ⟨rfl, h.done, h.error, .resolved rfl rfl⟩
  | resolved ended collector => rw [collector] at hstep; cases hstep

/-- How many events the collector has. -/
def collected (s : ReadStream) : ℕ :=
  match s.collector with
  | some (.awaiting _ events) => events.length
  | _ => 0

/-- Once the read has ended, the collector is resolved with its events and watermark, or has a turn
to take: the last one, or one that takes an event. -/
theorem Took.progress {w : ℤ} (h : Took s taken (some w)) (hcollector : s.collector.isSome = true) :
    s.collector = some (.resolved taken w) ∨ ∃ s', s.collectStep = some s' ∧
      (s'.collector = some (.resolved taken w) ∨
        s'.collector.isSome = true ∧ s'.collected = s.collected + 1 ∧
          s.collected < taken.length) := by
  cases h.collecting with
  | idle collector => rw [collector] at hcollector; cases hcollector
  | waiting isOpen => cases isOpen
  | item events e collector promises waiting queue =>
    refine .inr ⟨{ s with
      base := s.base.next
      collector := some (.awaiting s.base.sink.promises.length (events ++ [e])) }, ?_,
      .inr ⟨rfl, ?_⟩⟩
    · rw [ReadStream.collectStep, collector]
      simp only [promises, getElem?_awaited]
    · have hlength := congrArg List.length queue
      rw [List.length_append, List.length_cons] at hlength
      simp only [collected, collector, List.length_append, List.length_singleton, true_and]
      omega
  | finished ended collector promises waiting queue =>
    refine .inr ⟨{ s with collector := some (.resolved taken w) }, ?_, .inl rfl⟩
    rw [ReadStream.collectStep, collector]
    simp only [promises, getElem?_awaited, h.watermark, Option.getD_some]
  | resolved ended collector => cases ended; exact .inl collector

/-- A collector is never rejected, and resolves with nothing but the events and the watermark of its
read. -/
theorem Took.collector (h : Took s taken ending) :
    (∀ reason, s.collector ≠ some (.rejected reason)) ∧
      ∀ events w, s.collector = some (.resolved events w) → events = taken ∧ ending = some w := by
  cases h.collecting with
  | idle collector | waiting isOpen collector | item _ _ collector | finished ended collector =>
    rw [collector]
    exact ⟨fun _ h => (by cases h), fun _ _ h => (by cases h)⟩
  | resolved ended collector =>
    rw [collector]
    refine ⟨fun _ h => (by cases h), fun events w' heq => ?_⟩
    cases heq
    exact ⟨rfl, ended⟩

theorem Took.congr (h : Took s taken ending) (hwatermark : s'.watermarkValue = s.watermarkValue)
    (hsink : s'.base.sink = s.base.sink) (hcollector : s'.collector = s.collector) :
    Took s' taken ending := by
  obtain ⟨⟨sink, closed, abortListener, abortMicrotask⟩, watermarkValue, collector⟩ := s
  obtain ⟨⟨sink', closed', abortListener', abortMicrotask'⟩, watermarkValue', collector'⟩ := s'
  simp only at hwatermark hsink hcollector
  subst hwatermark hsink hcollector
  refine ⟨h.watermark, h.done, h.error, ?_⟩
  cases h.collecting with
  | idle collector promises waiting queue => exact .idle collector promises waiting queue
  | waiting isOpen collector promises waiting queue =>
    exact .waiting isOpen collector promises waiting queue
  | item events e collector promises waiting queue =>
    exact .item events e collector promises waiting queue
  | finished ended collector promises waiting queue =>
    exact .finished ended collector promises waiting queue
  | resolved ended collector => exact .resolved ended collector

/-! ### Reads that fail -/

/-- A read has failed, and nothing will tell its collector that it ended. -/
structure Barred (s : ReadStream) : Prop where
  done : s.base.sink.done = true
  error : s.base.sink.terminalError.isSome = true
  promises : .finished ∉ s.base.sink.promises
  collector : ∀ events w, s.collector ≠ some (.resolved events w)

theorem Took.fail (h : Took s taken none) (err : Err) :
    Barred { s with base := s.base.failWith err } := by
  obtain ⟨herror, hpromises⟩ := Sink.fail_of_open err h.done
  have hfinished : .finished ∉ s.base.sink.promises := by
    cases h.collecting with
    | idle collector promises => simp [promises]
    | waiting isOpen collector promises => simp [promises]
    | item events e collector promises => simp [promises]
    | finished ended => cases ended
    | resolved ended => cases ended
  refine ⟨Sink.done_fail _ _, Option.isSome_iff_exists.2 ⟨err, herror⟩, fun hmem => ?_,
    fun events w hcollector => ?_⟩
  · rcases hpromises _ hmem with hmem | heq
    · exact hfinished hmem
    · cases heq
  · cases (h.collector.2 events w hcollector).2

theorem Barred.next (h : Barred s) {collector : Option Collector}
    (hcollector : ∀ events w, collector ≠ some (.resolved events w)) :
    Barred { s with base := s.base.next, collector := collector } := by
  have hnext := Sink.extends_next s.base.sink
  obtain ⟨err, herror⟩ := Option.isSome_iff_exists.1 h.error
  refine ⟨hnext.done.trans h.done, ?_, ?_, hcollector⟩
  · show s.base.sink.next.terminalError.isSome = true
    rw [hnext.terminalError]
    exact h.error
  · show .finished ∉ s.base.sink.next.promises
    have hold := h.promises
    rw [Sink.next]
    split
    · simpa using hold
    · simpa [h.done, herror] using hold

theorem Barred.collectStep (h : Barred s) (hstep : s.collectStep = some s') : Barred s' := by
  unfold ReadStream.collectStep at hstep
  split at hstep
  · split at hstep
    · cases hstep
      exact h.next fun events w heq => by cases heq
    · rename_i hpromise
      exact absurd (List.mem_of_getElem? hpromise) h.promises
    · cases hstep
      exact ⟨h.done, h.error, h.promises, fun events w heq => by cases heq⟩
    · cases hstep
  · cases hstep

end ReadStream

end Tephra
