import Tephra.Streams

/-!
# The objects behind pending requests

A pending entry refers to a deferred or to a stream, which the caller holds too: its `Call`.  The
first half has the operations the connection performs on it, by the type of the entry; the second
half says what they do to the questions that matter: whether the request has reached its outcome
(`settled`, `terminal`), and what a caller can still see of it (`Extends`).
-/

namespace Tephra

/-- What a unary request expects. -/
inductive Expect
  | append | stats
  deriving DecidableEq, Repr

/-- The name in the text of a protocol error. -/
def Expect.name : Expect → String
  | append => "append"
  | stats => "stats"

/-- The kinds of pending entries. -/
inductive PendingType
  | unary (expect : Expect)
  | hello
  | read
  | subscribe
  deriving DecidableEq, Repr

/-- What a unary request resolves with. -/
inductive Reply
  | append (res : WireAppendResponse)
  | stats (res : WireStatsResponse)
  deriving DecidableEq, Repr

/-- The object a caller holds for a request. -/
inductive Call
  | unary (deferred : Deferred Reply) (abortListener : Bool)
  | hello (deferred : Deferred Unit)
  | read (stream : ReadStream)
  | subscribe (stream : SubscribeStream)
  deriving DecidableEq, Repr

namespace Call

/-- Whether the request has reached its outcome: the deferred is settled, or the stream is closed
or its sink done. -/
def settled : Call → Bool
  | unary deferred _ => deferred.settled
  | hello deferred => deferred.settled
  | read stream => stream.base.closed || stream.base.sink.done
  | subscribe stream => stream.closed || stream.sink.done

/-- Whether the object belongs to an entry of a type. -/
def hasType : Call → PendingType → Bool
  | unary _ _, .unary _ => true
  | hello _, .hello => true
  | read _, .read => true
  | subscribe _, .subscribe => true
  | _, _ => false

/-- `closed`, of a stream. -/
def closed : Call → Bool
  | read stream => stream.base.closed
  | subscribe stream => stream.closed
  | _ => true

/-- Whether the object is a stream. -/
def isStream : Call → Bool
  | read _ => true
  | subscribe _ => true
  | _ => false

/-- Whether the object listens to its signal. -/
def listening : Call → Bool
  | unary _ abortListener => abortListener
  | read stream => stream.base.abortListener
  | subscribe stream => stream.abortListener
  | hello _ => false

/-- The reason of the queued abort microtask. -/
def abortMicrotask : Call → Option Reason
  | read stream => stream.base.abortMicrotask
  | subscribe stream => stream.abortMicrotask
  | _ => none

/-- Change a stream. -/
def mapBase (f : ∀ {α : Type}, BaseStream α → BaseStream α) : Call → Call
  | read stream => read { stream with base := f stream.base }
  | subscribe stream => subscribe (f stream)
  | call => call

/-- `deferred.reject(err)` or `stream.failWith(err)`. -/
def reject (err : Err) : Call → Call
  | unary deferred abortListener => unary (deferred.reject err) abortListener
  | hello deferred => hello (deferred.reject err)
  | call => call.mapBase (·.failWith err)

/-- Settle the deferred of a unary request. -/
def settleUnary (outcome : Except Err Reply) : Call → Call
  | unary deferred abortListener =>
    match outcome with
    | .ok reply => unary (deferred.resolve reply) abortListener
    | .error err => unary (deferred.reject err) abortListener
  | call => call

/-- Settle the deferred of a hello. -/
def settleHello (outcome : Except Err Unit) : Call → Call
  | hello deferred =>
    match outcome with
    | .ok () => hello (deferred.resolve ())
    | .error err => hello (deferred.reject err)
  | call => call

/-- `deliverItem`, of a read. -/
def deliverRead (item : SequencedEvent) : Call → Call
  | read stream => read { stream with base := stream.base.deliverItem item }
  | call => call

/-- `deliverItem`, of a subscription. -/
def deliverSubscribe (item : SubEvent) : Call → Call
  | subscribe stream => subscribe (stream.deliverItem item)
  | call => call

/-- The listener is called and gone. -/
def takeListener : Call → Call
  | unary deferred _ => unary deferred false
  | call => call.mapBase BaseStream.takeListener

/-- `endWith`, of a read. -/
def endWith (watermark : ℤ) : Call → Call
  | read stream => read (stream.endWith watermark)
  | call => call

/-! ### What the operations do -/

/-- Whether nothing further can happen to the outcome: the deferred is settled, or the sink done. -/
def terminal : Call → Bool
  | unary deferred _ => deferred.settled
  | hello deferred => deferred.settled
  | read stream => stream.base.sink.done
  | subscribe stream => stream.sink.done

/-- The request reaches its outcome. -/
structure Ends (call call' : Call) : Prop where
  terminal : call'.terminal = true
  closed : call'.closed = true
  hasType : ∀ type, call'.hasType type = call.hasType type

/-- Whether the outcome is reached stays as it was. -/
structure Keeps (call call' : Call) : Prop where
  terminal : call'.terminal = call.terminal
  closed : call.closed = true → call'.closed = true
  hasType : ∀ type, call'.hasType type = call.hasType type

/-- Nothing a caller can still see is taken away. -/
def Extends : Call → Call → Prop
  | unary deferred _, unary deferred' _ => deferred' = deferred
  | hello deferred, hello deferred' => deferred' = deferred
  | read stream, read stream' =>
    stream'.base.closed = stream.base.closed ∧ stream.base.sink.Extends stream'.base.sink ∧
      stream'.watermarkValue = stream.watermarkValue
  | subscribe stream, subscribe stream' =>
    stream'.closed = stream.closed ∧ stream.sink.Extends stream'.sink
  | _, _ => False

theorem settled_of_terminal {call : Call} (h : call.terminal = true) : call.settled = true := by
  cases call <;> simp_all [terminal, settled]

theorem terminal_eq_false {call : Call} (h : call.settled = false) : call.terminal = false :=
  Bool.eq_false_iff.2 fun hterm => by cases h.symm.trans (settled_of_terminal hterm)

theorem settled_of_closed {call : Call} (h : call.closed = true) (hs : call.isStream = true) :
    call.settled = true := by
  cases call <;> simp_all [closed, settled, isStream]

theorem Extends.refl (call : Call) : call.Extends call := by
  cases call with
  | unary deferred abortListener => rfl
  | hello deferred => rfl
  | read stream => exact ⟨rfl, .refl _, rfl⟩
  | subscribe stream => exact ⟨rfl, .refl _⟩

theorem Extends.trans {call call' call'' : Call} (h : call.Extends call')
    (h' : call'.Extends call'') : call.Extends call'' := by
  cases call <;> cases call' <;> cases call'' <;> simp only [Extends] at h h' ⊢
  · exact h'.trans h
  · exact h'.trans h
  · exact ⟨h'.1.trans h.1, h.2.1.trans h'.2.1, h'.2.2.trans h.2.2⟩
  · exact ⟨h'.1.trans h.1, h.2.trans h'.2⟩

theorem Extends.settled {call call' : Call} (h : call.Extends call') :
    call'.settled = call.settled := by
  cases call <;> cases call' <;> simp only [Extends] at h
  · exact congrArg Deferred.settled h
  · exact congrArg Deferred.settled h
  · simp only [Call.settled, h.1, h.2.1.done]
  · simp only [Call.settled, h.1, h.2.done]

theorem Extends.closed {call call' : Call} (h : call.Extends call') :
    call'.closed = call.closed := by
  cases call <;> cases call' <;> simp only [Extends] at h
  · rfl
  · rfl
  · exact h.1
  · exact h.1

theorem Keeps.refl (call : Call) : call.Keeps call := ⟨rfl, id, fun _ => rfl⟩

theorem Keeps.trans {call call' call'' : Call} (h : call.Keeps call') (h' : call'.Keeps call'') :
    call.Keeps call'' :=
  ⟨h'.terminal.trans h.terminal, fun hc => h'.closed (h.closed hc),
    fun type => (h'.hasType type).trans (h.hasType type)⟩

theorem Extends.keeps {call call' : Call} (h : call.Extends call') : call.Keeps call' := by
  cases call <;> cases call' <;> simp only [Extends] at h
  · subst h; exact ⟨rfl, id, fun type => by cases type <;> rfl⟩
  · subst h; exact ⟨rfl, id, fun type => by cases type <;> rfl⟩
  · exact ⟨h.2.1.done, fun hc => h.1.trans hc, fun type => by cases type <;> rfl⟩
  · exact ⟨h.2.done, fun hc => h.1.trans hc, fun type => by cases type <;> rfl⟩

theorem ends_reject (err : Err) (call : Call) : call.Ends (call.reject err) := by
  cases call with
  | unary deferred abortListener =>
    exact ⟨by cases deferred <;> rfl, rfl, fun type => by cases type <;> rfl⟩
  | hello deferred => exact ⟨by cases deferred <;> rfl, rfl, fun type => by cases type <;> rfl⟩
  | read stream => exact ⟨Sink.done_fail _ _, rfl, fun type => by cases type <;> rfl⟩
  | subscribe stream => exact ⟨Sink.done_fail _ _, rfl, fun type => by cases type <;> rfl⟩

theorem ends_settleUnary {outcome : Except Err Reply} {call : Call} {expect : Expect}
    (h : call.hasType (.unary expect) = true) : call.Ends (call.settleUnary outcome) := by
  cases call with
  | unary deferred abortListener =>
    cases outcome <;> cases deferred <;> exact ⟨rfl, rfl, fun type => by cases type <;> rfl⟩
  | hello deferred | read stream | subscribe stream => cases h

theorem ends_settleHello {outcome : Except Err Unit} {call : Call}
    (h : call.hasType .hello = true) : call.Ends (call.settleHello outcome) := by
  cases call with
  | hello deferred =>
    cases outcome <;> cases deferred <;> exact ⟨rfl, rfl, fun type => by cases type <;> rfl⟩
  | unary deferred abortListener | read stream | subscribe stream => cases h

theorem ends_endWith {watermark : ℤ} {call : Call} (h : call.hasType .read = true) :
    call.Ends (call.endWith watermark) := by
  cases call with
  | read stream => exact ⟨Sink.done_finish _, rfl, fun type => by cases type <;> rfl⟩
  | unary deferred abortListener | hello deferred | subscribe stream => cases h

theorem ends_ending {ending : ∀ {α : Type}, Sink α → Sink α} {call : Call}
    (hend : ∀ {α : Type} (s : Sink α), (ending s).done = true) (h : call.isStream = true) :
    call.Ends ((call.mapBase BaseStream.markClosed).mapBase
      fun b => { b with sink := ending b.sink }) := by
  cases call with
  | read stream => exact ⟨hend _, rfl, fun type => by cases type <;> rfl⟩
  | subscribe stream => exact ⟨hend _, rfl, fun type => by cases type <;> rfl⟩
  | unary deferred abortListener | hello deferred => cases h

theorem keeps_deliverRead (item : SequencedEvent) (call : Call) :
    call.Keeps (call.deliverRead item) ∧ (call.deliverRead item).settled = call.settled := by
  cases call with
  | read stream =>
    refine ⟨⟨Sink.done_push _ _, id, fun type => by cases type <;> rfl⟩, ?_⟩
    exact congrArg (_ || ·) (Sink.done_push _ _)
  | unary deferred abortListener | hello deferred | subscribe stream => exact ⟨.refl _, rfl⟩

theorem keeps_deliverSubscribe (item : SubEvent) (call : Call) :
    call.Keeps (call.deliverSubscribe item) ∧
      (call.deliverSubscribe item).settled = call.settled := by
  cases call with
  | subscribe stream =>
    refine ⟨⟨Sink.done_push _ _, id, fun type => by cases type <;> rfl⟩, ?_⟩
    exact congrArg (_ || ·) (Sink.done_push _ _)
  | unary deferred abortListener | hello deferred | read stream => exact ⟨.refl _, rfl⟩

theorem keeps_foldl {α : Type} {f : Call → α → Call}
    (h : ∀ call a, Keeps call (f call a) ∧ (f call a).settled = call.settled) (l : List α)
    (call : Call) : call.Keeps (l.foldl f call) ∧ (l.foldl f call).settled = call.settled := by
  induction l generalizing call with
  | nil => exact ⟨.refl _, rfl⟩
  | cons a l ih => exact ⟨(h call a).1.trans (ih _).1, (ih _).2.trans (h call a).2⟩

theorem keeps_markClosed (call : Call) : call.Keeps (call.mapBase BaseStream.markClosed) := by
  cases call with
  | read stream => exact ⟨rfl, fun _ => rfl, fun type => by cases type <;> rfl⟩
  | subscribe stream => exact ⟨rfl, fun _ => rfl, fun type => by cases type <;> rfl⟩
  | unary deferred abortListener | hello deferred => exact .refl _

theorem extends_next (call : Call) : call.Extends (call.mapBase BaseStream.next) := by
  cases call with
  | unary deferred abortListener => rfl
  | hello deferred => rfl
  | read stream => exact ⟨rfl, Sink.extends_next _, rfl⟩
  | subscribe stream => exact ⟨rfl, Sink.extends_next _⟩

theorem extends_takeListener (call : Call) : call.Extends call.takeListener := by
  cases call with
  | unary deferred abortListener => rfl
  | hello deferred => rfl
  | read stream => exact ⟨rfl, .refl _, rfl⟩
  | subscribe stream => exact ⟨rfl, .refl _⟩

theorem extends_takeMicrotask (call : Call) :
    call.Extends (call.mapBase BaseStream.takeMicrotask) := by
  cases call with
  | unary deferred abortListener => rfl
  | hello deferred => rfl
  | read stream => exact ⟨rfl, .refl _, rfl⟩
  | subscribe stream => exact ⟨rfl, .refl _⟩

/-! ### Failing -/

/-- The caller of a request sees it fail with `err`. -/
def FailedWith (err : Err) : Call → Prop
  | unary deferred _ => deferred = .rejected err
  | hello deferred => deferred = .rejected err
  | read stream =>
    stream.base.closed = true ∧ stream.base.sink.done = true ∧
      stream.base.sink.terminalError = some err
  | subscribe stream =>
    stream.closed = true ∧ stream.sink.done = true ∧ stream.sink.terminalError = some err

theorem failedWith_reject {call : Call} {err : Err} (h : call.terminal = false) :
    (call.reject err).FailedWith err := by
  have hfail : ∀ {α : Type} (s : Sink α), s.done = false →
      (s.fail err).terminalError = some err := by
    intro α s hs
    rw [Sink.fail, hs, if_neg Bool.false_ne_true, Sink.settleWaiting]
    split <;> rfl
  cases call with
  | unary deferred abortListener => cases deferred <;> first | rfl | cases h
  | hello deferred => cases deferred <;> first | rfl | cases h
  | read stream => exact ⟨rfl, Sink.done_fail _ _, hfail _ h⟩
  | subscribe stream => exact ⟨rfl, Sink.done_fail _ _, hfail _ h⟩

theorem FailedWith.extends_ {call call' : Call} {err : Err} (h : call.FailedWith err)
    (hext : call.Extends call') : call'.FailedWith err := by
  cases call <;> cases call' <;> simp only [Extends] at hext
  · exact hext.trans h
  · exact hext.trans h
  · exact ⟨hext.1.trans h.1, hext.2.1.done.trans h.2.1, hext.2.1.terminalError.trans h.2.2⟩
  · exact ⟨hext.1.trans h.1, hext.2.done.trans h.2.1, hext.2.terminalError.trans h.2.2⟩

theorem Ends.settled {call call' : Call} (h : call.Ends call') : call'.settled = true :=
  settled_of_terminal h.terminal

end Call

end Tephra
