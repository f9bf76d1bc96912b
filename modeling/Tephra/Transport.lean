import Tephra.Options
import Tephra.Streams

/-!
# Opening a socket

`dialSocket` of `transport.ts`.  The promise it returns is settled by the first of the socket's
ready event, its error, a timeout and the abort of the signal; `cleanup` then takes all listeners
off the socket and the signal, so nothing that comes later is noticed.

* `Dial.Ok` : what the dial keeps: as long as its promise is open it listens to its signal, and not
  any longer.
* `Dial.Later` : its outcome is final.
-/

namespace Tephra

/-- The events a socket can be ready with. -/
inductive ReadyEvent
  | connect
  /-- The TLS session is negotiated. -/
  | secureConnect
  deriving DecidableEq, Repr

/-- `readyEvent`. -/
def ResolvedConfig.readyEvent (cfg : ResolvedConfig) : ReadyEvent :=
  match cfg.tls with
  | some _ => .secureConnect
  | none => .connect

/-- What `net.connect` or `tls.connect` is called with. -/
inductive SocketCall
  | net (host : JsString) (port : JsNumber)
  | tls (options : TlsOptions) (host : JsString) (port : JsNumber) (servername : JsString)
  deriving DecidableEq, Repr

/-- The call that makes the socket. -/
def ResolvedConfig.socketCall (cfg : ResolvedConfig) (host : JsString) (port : JsNumber) :
    SocketCall :=
  match cfg.tls with
  | some options => .tls options host port (options.servername.getD host)
  | none => .net host port

/-- The state of `dialSocket`. -/
structure Dial where
  /-- The call that made the socket, if it was made. -/
  socket : Option SocketCall
  readyEvent : ReadyEvent
  settled : Bool
  /-- Whether the listeners of the socket are installed. -/
  listening : Bool
  /-- Whether the listener of the signal is installed. -/
  abortListener : Bool
  /-- Whether the timeout of the socket is set. -/
  timer : Bool
  /-- Whether the socket is gone. -/
  destroyed : Bool
  /-- The promise returned, which is resolved with the socket. -/
  promise : Deferred Unit
  deriving DecidableEq, Repr

/-- A call of `dialSocket` that throws. -/
inductive DialThrow
  /-- The call that makes the socket. -/
  | connect (err : Err)
  /-- `socket.setTimeout`, which refuses some timeouts. -/
  | setTimeout (err : Err)
  deriving DecidableEq, Repr

/-- What happens to a socket that is being dialled. -/
inductive SocketEvent
  | ready (event : ReadyEvent)
  | error (err : Err)
  | timeout
  deriving DecidableEq, Repr

namespace Dial

/-- `cleanup`. -/
def cleanup (d : Dial) : Dial :=
  { d with timer := false, listening := false, abortListener := false }

/-- `fail`. -/
def fail (d : Dial) (err : Err) : Dial :=
  if d.settled then d
  else
    { { d with settled := true }.cleanup with
      destroyed := true
      promise := d.promise.reject err }

/-- `onReady`. -/
def onReady (d : Dial) : Dial :=
  if d.settled then d
  else { { d with settled := true }.cleanup with promise := d.promise.resolve () }

/-- `onAbort`. -/
def onAbort (d : Dial) (reason : Reason) : Dial := d.fail (asError reason "connect aborted")

/-- An event of the socket, which nobody may be listening to. -/
def onEvent (d : Dial) : SocketEvent → Dial
  | .ready event => if d.listening && event = d.readyEvent then d.onReady else d
  | .error err => if d.listening then d.fail err else d
  | .timeout => if d.timer then d.fail (.native "Error" (js "connect timed out")) else d

/-- The signal aborts. -/
def signalAborts (d : Dial) (reason : Reason) : Dial :=
  if d.abortListener then d.onAbort reason else d

end Dial

/-- `dialSocket`, with what throws in it.  What is thrown rejects the promise, and does no more. -/
def dialSocket (host : JsString) (port : JsNumber) (cfg : ResolvedConfig) (signal : Signal)
    (thrown : Option DialThrow) : Dial :=
  let unopened : Dial :=
    { socket := none
      readyEvent := cfg.readyEvent
      settled := false, listening := false, abortListener := false, timer := false
      destroyed := false, promise := .pending }
  let opened : Dial :=
    { unopened with socket := some (cfg.socketCall host port), listening := true }
  match signal, thrown, cfg.connectTimeout with
  | .aborted reason, _, _ =>
    { unopened with promise := .rejected (asError reason "connect aborted") }
  | _, some (.connect err), _ => { unopened with promise := .rejected err }
  | _, some (.setTimeout err), some _ => { opened with promise := .rejected err }
  | signal, _, timeout =>
    { opened with timer := timeout.any (· ≠ .finite 0), abortListener := signal = .live }

namespace Dial

/-- What a dial keeps, with the signal it was given. -/
structure Ok (d : Dial) (signal : Signal) : Prop where
  unsettled : d.promise = .pending → d.settled = false
  hears : d.promise = .pending → signal = .live → d.abortListener = true
  deaf : d.promise ≠ .pending → d.settled = true ∨ d.abortListener = false

variable {d : Dial} {signal : Signal}

theorem ok_dialSocket (host : JsString) (port : JsNumber) (cfg : ResolvedConfig) (signal : Signal)
    (thrown : Option DialThrow) : (dialSocket host port cfg signal thrown).Ok signal := by
  have hrejected : ∀ {d : Dial} {err : Err}, d.promise = .rejected err → d.abortListener = false →
      d.Ok signal := by
    intro d err hp hdeaf
    have hne : d.promise ≠ .pending := by simp [hp]
    exact ⟨fun h => absurd h hne, fun h => absurd h hne, fun _ => .inr hdeaf⟩
  have hopened : ∀ {d : Dial}, d.promise = .pending → d.settled = false →
      d.abortListener = decide (signal = .live) → d.Ok signal :=
    fun hp hsettled hlistener =>
      ⟨fun _ => hsettled, fun _ h => hlistener.trans (decide_eq_true h), fun h => absurd hp h⟩
  unfold dialSocket
  generalize cfg.connectTimeout = timeout
  cases signal with
  | aborted reason => exact hrejected rfl rfl
  | none | live =>
    rcases thrown with _ | err | err
    · exact hopened rfl rfl rfl
    · exact hrejected rfl rfl
    · cases timeout with
      | none => exact hopened rfl rfl rfl
      | some value => exact hrejected rfl rfl

theorem Ok.fail (h : d.Ok signal) (err : Err) : (d.fail err).Ok signal := by
  rw [Dial.fail]
  split_ifs with hsettled
  · exact h
  · have hp := Deferred.reject_ne_pending d.promise err
    exact ⟨fun h => absurd h hp, fun h => absurd h hp, fun _ => .inl rfl⟩

theorem Ok.onReady (h : d.Ok signal) : d.onReady.Ok signal := by
  rw [Dial.onReady]
  split_ifs with hsettled
  · exact h
  · have hp := Deferred.resolve_ne_pending d.promise ()
    exact ⟨fun h => absurd h hp, fun h => absurd h hp, fun _ => .inl rfl⟩

theorem Ok.onEvent (h : d.Ok signal) (event : SocketEvent) : (d.onEvent event).Ok signal := by
  cases event with
  | ready event =>
    rw [Dial.onEvent]
    split_ifs
    · exact h.onReady
    · exact h
  | error err | timeout =>
    rw [Dial.onEvent]
    split_ifs
    · exact h.fail _
    · exact h

theorem Ok.signalAborts (h : d.Ok signal) (reason : Reason) :
    (d.signalAborts reason).Ok (.aborted reason) := by
  have hsignal : ∀ {d : Dial}, d.Ok signal → d.Ok (.aborted reason) :=
    fun hd => ⟨hd.unsettled, fun _ hs => (by cases hs), hd.deaf⟩
  rw [Dial.signalAborts]
  split_ifs
  · exact hsignal (h.fail _)
  · exact hsignal h

/-- What never changes back: the promise once it is settled, and the socket once it is gone. -/
structure Later (d d' : Dial) : Prop where
  promise : d.promise ≠ .pending → d'.promise = d.promise
  destroyed : d.destroyed = true → d'.destroyed = true
  socket : d'.socket = d.socket

theorem Later.refl (d : Dial) : d.Later d := ⟨fun _ => rfl, fun h => h, rfl⟩

theorem later_fail (d : Dial) (err : Err) : d.Later (d.fail err) := by
  rw [Dial.fail]
  split_ifs
  · exact .refl d
  · exact ⟨fun hp => Deferred.reject_of_ne hp err, fun _ => rfl, rfl⟩

theorem later_onReady (d : Dial) : d.Later d.onReady := by
  rw [Dial.onReady]
  split_ifs
  · exact .refl d
  · exact ⟨fun hp => Deferred.resolve_of_ne hp (), fun h => h, rfl⟩

theorem later_onEvent (d : Dial) (event : SocketEvent) : d.Later (d.onEvent event) := by
  cases event with
  | ready event =>
    rw [Dial.onEvent]
    split_ifs
    · exact d.later_onReady
    · exact .refl d
  | error err | timeout =>
    rw [Dial.onEvent]
    split_ifs
    · exact d.later_fail _
    · exact .refl d

theorem later_signalAborts (d : Dial) (reason : Reason) : d.Later (d.signalAborts reason) := by
  rw [Dial.signalAborts]
  split_ifs
  · exact d.later_fail _
  · exact .refl d

theorem Ok.rejected_of_abort (h : d.Ok .live) (hopen : d.promise = .pending) (reason : Reason) :
    (d.signalAborts reason).promise = .rejected (asError reason "connect aborted") ∧
      (d.signalAborts reason).destroyed = true := by
  rw [Dial.signalAborts, if_pos (h.hears hopen rfl), Dial.onAbort, Dial.fail,
    if_neg (by simp [h.unsettled hopen])]
  refine ⟨?_, rfl⟩
  show d.promise.reject _ = _
  rw [hopen]
  rfl

/-- A dial that is over does not notice that its signal aborts. -/
theorem Ok.signalAborts_of_ne (h : d.Ok signal) (hdone : d.promise ≠ .pending) (reason : Reason) :
    d.signalAborts reason = d := by
  rw [Dial.signalAborts, Dial.onAbort, Dial.fail]
  rcases h.deaf hdone with hsettled | hdeaf
  · simp only [hsettled, if_true, ite_self]
  · simp only [hdeaf, Bool.false_eq_true, if_false]

end Dial

end Tephra
