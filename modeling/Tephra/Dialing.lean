import Tephra.Transport

/-!
# The first event decides a dial

What happens to a socket that is being dialled: its ready event, its error, its timeout and the
abort of the signal, in any order and any number.

* `Dial.Watching` : a dial that is open listens for all of them.
* `Dial.Closed` : one that is over listens for none, and its socket is gone if it failed.
* `dial_first` : the promise of a dial is settled by the first event that counts.
-/

namespace Tephra

/-- What happens while a socket is being dialled. -/
inductive DialEvent
  | socket (event : SocketEvent)
  | abort (reason : Reason)
  deriving DecidableEq, Repr

namespace Dial

/-- A thing that happens. -/
def happen (d : Dial) : DialEvent → Dial
  | .socket event => d.onEvent event
  | .abort reason => d.signalAborts reason

/-- What an event decides, of a dial that is open: other ready events do not count, nor do a timeout
that was not set and a signal that was not given. -/
def decision (cfg : ResolvedConfig) (signal : Signal) : DialEvent → Option (Except Err Unit)
  | .socket (.ready event) => if event = cfg.readyEvent then some (.ok ()) else none
  | .socket (.error err) => some (.error err)
  | .socket .timeout =>
    if cfg.connectTimeout.any (· ≠ .finite 0) then
      some (.error (.native "Error" (js "connect timed out")))
    else none
  | .abort reason =>
    if signal = .live then some (.error (asError reason "connect aborted")) else none

variable {d : Dial} {cfg : ResolvedConfig} {signal : Signal} {e : DialEvent}

/-- A dial that is open: everything that counts is listened for. -/
structure Watching (d : Dial) (cfg : ResolvedConfig) (signal : Signal) : Prop where
  promise : d.promise = .pending
  readyEvent : d.readyEvent = cfg.readyEvent
  settled : d.settled = false
  listening : d.listening = true
  abortListener : d.abortListener = decide (signal = .live)
  timer : d.timer = cfg.connectTimeout.any (· ≠ .finite 0)
  destroyed : d.destroyed = false

/-- A dial that is over, with no listener and no timer left. -/
structure Closed (d : Dial) (outcome : Except Err Unit) : Prop where
  promise : d.promise = match outcome with
    | .ok () => .resolved ()
    | .error err => .rejected err
  settled : d.settled = true
  listening : d.listening = false
  abortListener : d.abortListener = false
  timer : d.timer = false
  destroyed : d.destroyed = outcome.toBool.not

theorem Watching.fail (hd : d.Watching cfg signal) (err : Err) :
    (d.fail err).Closed (.error err) := by
  rw [Dial.fail, if_neg (by simp [hd.settled])]
  refine ⟨?_, rfl, rfl, rfl, rfl, rfl⟩
  show d.promise.reject err = _
  rw [hd.promise]
  rfl

theorem Watching.onReady (hd : d.Watching cfg signal) : d.onReady.Closed (.ok ()) := by
  rw [Dial.onReady, if_neg (by simp [hd.settled])]
  refine ⟨?_, rfl, rfl, rfl, rfl, hd.destroyed⟩
  show d.promise.resolve () = _
  rw [hd.promise]
  rfl

/-- An event that counts decides an open dial, and another one leaves it as it is. -/
theorem Watching.happen (hd : d.Watching cfg signal) (e : DialEvent) :
    match decision cfg signal e with
    | some outcome => (d.happen e).Closed outcome
    | none => d.happen e = d := by
  cases e with
  | socket event =>
    cases event with
    | ready event =>
      simp only [decision, Dial.happen, onEvent, hd.listening, hd.readyEvent, Bool.true_and,
        decide_eq_true_eq]
      split_ifs
      · exact hd.onReady
      · rfl
    | error err =>
      simp only [decision, Dial.happen, onEvent, hd.listening, if_true]
      exact hd.fail err
    | timeout =>
      simp only [decision, Dial.happen, onEvent, hd.timer]
      split_ifs
      · exact hd.fail _
      · rfl
  | abort reason =>
    simp only [decision, Dial.happen, signalAborts, hd.abortListener, decide_eq_true_eq]
    split_ifs
    · exact hd.fail _
    · rfl

theorem Closed.happen {outcome : Except Err Unit} (hd : d.Closed outcome) (e : DialEvent) :
    d.happen e = d := by
  cases e with
  | socket event =>
    cases event <;> simp [Dial.happen, onEvent, hd.listening, hd.timer]
  | abort reason => simp [Dial.happen, signalAborts, hd.abortListener]

theorem Closed.foldl {outcome : Except Err Unit} (hd : d.Closed outcome) (es : List DialEvent) :
    es.foldl Dial.happen d = d := by
  induction es with
  | nil => rfl
  | cons e es ih => rw [List.foldl_cons, hd.happen e, ih]

theorem Watching.foldl (hd : d.Watching cfg signal) (es : List DialEvent) :
    match es.findSome? (decision cfg signal) with
    | some outcome => (es.foldl Dial.happen d).Closed outcome
    | none => es.foldl Dial.happen d = d := by
  induction es with
  | nil => rfl
  | cons e es ih =>
    have hhappen := hd.happen e
    rw [List.findSome?_cons, List.foldl_cons]
    cases hdecision : decision cfg signal e with
    | none =>
      rw [hdecision] at hhappen
      simp only at hhappen ⊢
      rw [hhappen]
      exact ih
    | some outcome =>
      rw [hdecision] at hhappen
      simp only at hhappen ⊢
      rwa [hhappen.foldl es]

theorem watching_dialSocket {host : JsString} {port : JsNumber} {thrown : Option DialThrow}
    (h : (dialSocket host port cfg signal thrown).promise = .pending) :
    (dialSocket host port cfg signal thrown).Watching cfg signal := by
  unfold dialSocket at h ⊢
  cases htimeout : cfg.connectTimeout with
  | none =>
    cases signal with
    | aborted reason => cases h
    | none | live =>
      rcases thrown with _ | err | err
      · exact ⟨rfl, rfl, rfl, rfl, rfl, by simp [htimeout], rfl⟩
      · cases h
      · exact ⟨rfl, rfl, rfl, rfl, rfl, by simp [htimeout], rfl⟩
  | some timeout =>
    rw [htimeout] at h
    cases signal with
    | aborted reason => cases h
    | none | live =>
      rcases thrown with _ | err | err
      · exact ⟨rfl, rfl, rfl, rfl, rfl, by simp [htimeout], rfl⟩
      · cases h
      · cases h

theorem later_foldl (d : Dial) (es : List DialEvent) : d.Later (es.foldl Dial.happen d) := by
  induction es generalizing d with
  | nil => exact .refl d
  | cons e es ih =>
    have hhappen : d.Later (d.happen e) := by
      cases e with
      | socket event => exact d.later_onEvent event
      | abort reason => exact d.later_signalAborts reason
    have hrest := ih (d.happen e)
    refine ⟨fun hp => ?_, fun hgone => hrest.destroyed (hhappen.destroyed hgone),
      hrest.socket.trans hhappen.socket⟩
    have heq := hhappen.promise hp
    exact (hrest.promise (heq ▸ hp)).trans heq

/-- **The first event decides.**  Whatever happens to a socket that is being dialled, and in
whatever order: a dial that is rejected at once stays so.  The promise of any other is settled by
the first event that counts, and only by that; from then on nothing is listened for and no timer
runs, and the socket is destroyed if and only if the dial has failed. -/
theorem dial_first (host : JsString) (port : JsNumber) (cfg : ResolvedConfig) (signal : Signal)
    (thrown : Option DialThrow) (es : List DialEvent) :
    let d := dialSocket host port cfg signal thrown
    if d.promise = .pending then
      match es.findSome? (decision cfg signal) with
      | some outcome => (es.foldl Dial.happen d).Closed outcome
      | none => (es.foldl Dial.happen d).Watching cfg signal
    else (es.foldl Dial.happen d).promise = d.promise := by
  intro d
  split_ifs with hpending
  · have hwatching : d.Watching cfg signal := watching_dialSocket hpending
    have hfoldl := hwatching.foldl es
    cases hdecision : es.findSome? (decision cfg signal) with
    | some outcome =>
      rw [hdecision] at hfoldl
      exact hfoldl
    | none =>
      rw [hdecision] at hfoldl
      simp only at hfoldl ⊢
      rwa [hfoldl]
  · exact (d.later_foldl es).promise hpending

/-! ### Sockets that are left open -/

/-- The socket of a failed dial is destroyed, if it was made, unless setting its timeout threw. -/
def Tidy (d : Dial) (thrown : Option DialThrow) : Prop :=
  ∀ err, d.promise = .rejected err → d.socket.isSome = true →
    d.destroyed = true ∨ ∃ err, thrown = some (.setTimeout err)

variable {thrown : Option DialThrow}

theorem tidy_dialSocket (host : JsString) (port : JsNumber) (cfg : ResolvedConfig)
    (signal : Signal) (thrown : Option DialThrow) :
    (dialSocket host port cfg signal thrown).Tidy thrown := by
  intro err hrejected hsocket
  unfold dialSocket at hrejected hsocket
  generalize cfg.connectTimeout = timeout at hrejected hsocket
  cases signal with
  | aborted reason => cases hsocket
  | none | live =>
    rcases thrown with _ | err' | err'
    · cases hrejected
    · cases hsocket
    · exact .inr ⟨err', rfl⟩

/-- A dial that was over keeps what it was, and one that fails now destroys its socket. -/
theorem Tidy.of_later {d' : Dial} (hd : d.Tidy thrown) (hlater : d.Later d')
    (hfail : d.promise = .pending → ∀ err, d'.promise = .rejected err → d'.destroyed = true) :
    d'.Tidy thrown := by
  intro err hrejected hsocket
  by_cases hpending : d.promise = .pending
  · exact .inl (hfail hpending err hrejected)
  · rw [hlater.promise hpending] at hrejected
    rw [hlater.socket] at hsocket
    exact (hd err hrejected hsocket).imp_left hlater.destroyed

theorem destroyed_fail (hok : d.Ok signal) (hpending : d.promise = .pending) (err : Err) :
    (d.fail err).destroyed = true := by
  rw [Dial.fail, if_neg (by simp [hok.unsettled hpending])]

theorem Tidy.onEvent (hd : d.Tidy thrown) (hok : d.Ok signal) (event : SocketEvent) :
    (d.onEvent event).Tidy thrown := by
  refine hd.of_later (d.later_onEvent event) fun hpending err hrejected => ?_
  cases event with
  | ready event =>
    rw [Dial.onEvent] at hrejected
    split_ifs at hrejected
    · rw [Dial.onReady, if_neg (by simp [hok.unsettled hpending])] at hrejected
      rw [show _ = d.promise.resolve () from rfl, hpending] at hrejected
      cases hrejected
    · rw [hpending] at hrejected
      cases hrejected
  | error err' | timeout =>
    rw [Dial.onEvent] at hrejected ⊢
    split_ifs at hrejected ⊢
    · exact destroyed_fail hok hpending _
    · rw [hpending] at hrejected
      cases hrejected

theorem Tidy.signalAborts (hd : d.Tidy thrown) (hok : d.Ok signal) (reason : Reason) :
    (d.signalAborts reason).Tidy thrown := by
  refine hd.of_later (d.later_signalAborts reason) fun hpending err hrejected => ?_
  rw [Dial.signalAborts] at hrejected ⊢
  split_ifs at hrejected ⊢
  · exact destroyed_fail hok hpending _
  · rw [hpending] at hrejected
    cases hrejected

end Dial

end Tephra
