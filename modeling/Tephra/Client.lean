import Tephra.Conn.Decompose
import Tephra.Convert

/-!
# The client

`Client` of `client.ts`: a control connection and a pool of bulk connections.  A call goes to one of
these, its lane, and what the caller gets is the object of its request there.

`Client.step` interleaves calls with the steps of the connections; `client cfg` is the event
machine.

* `lane_of_run` : in a run of a client every connection runs by itself, from where it was made.
-/

namespace Tephra

open Lib

/-- A limit as a caller gives it. -/
inductive Limit
  /-- A number, by the integer it is; none if it is not one. -/
  | number (value : Option ℤ)
  | bigint (value : ℤ)
  deriving DecidableEq, Repr

/-- `toBigIntLimit`. -/
def toBigIntLimit : Option Limit → Except Err (Option ℤ)
  | none => .ok none
  | some (.bigint value) => .ok (some value)
  | some (.number (some value)) => .ok (some value)
  | some (.number none) =>
    .error (.range "the number cannot be converted to a BigInt because it is not an integer")

/-- Which connection of a client. -/
inductive Lane
  | control
  | bulk (i : ℕ)
  deriving DecidableEq, Repr

/-- The calls that make a request.  Where an argument is left out, its default is used. -/
inductive ClientCall
  | append (events : List Event) (condition : Option AppendCondition) (signal : Signal)
  | stats (signal : Signal)
  | read (query : Query) (after : Option ℤ) (limit : Option Limit) (signal : Signal)
  | readBack (query : Query) (before : Option ℤ) (limit : Option Limit) (signal : Signal)
  | subscribe (query : Query) (after : Option ℤ) (signal : Signal)

section

variable [TextCodec]

/-- `Client`. -/
structure Client (cfg : Config) where
  control : Conn cfg
  bulk : List (Conn cfg)
  nextBulk : ℕ
  closed : Bool

/-- The object a call returns: the lane of its request, and its id there. -/
abbrev Handle := Lane × ℤ

namespace Client

variable {cfg : Config}

/-- The connection of a lane. -/
def lane? (cl : Client cfg) : Lane → Option (Conn cfg)
  | .control => some cl.control
  | .bulk i => cl.bulk[i]?

/-- Put a connection in its lane. -/
def setLane (cl : Client cfg) (lane : Lane) (c : Conn cfg) : Client cfg :=
  match lane with
  | .control => { cl with control := c }
  | .bulk i => { cl with bulk := cl.bulk.set i c }

/-- `pickBulk`. -/
def pickBulk (cl : Client cfg) : Client cfg × Lane × Conn cfg :=
  if h : cl.bulk.length = 0 then (cl, .control, cl.control)
  else
    ({ cl with nextBulk := (cl.nextBulk + 1) % cl.bulk.length },
      .bulk (cl.nextBulk % cl.bulk.length),
      cl.bulk.get ⟨cl.nextBulk % cl.bulk.length, Nat.mod_lt _ (Nat.pos_of_ne_zero h)⟩)

/-- A unary call on the control connection.  On a dead one it is rejected at once. -/
def unary (cl : Client cfg) (request : Conn cfg → Conn cfg) : Client cfg × Except Err Handle :=
  if cl.closed then (cl, .error .closed)
  else
    ({ cl with control := request cl.control },
      if cl.control.dead then .error cl.control.deadError
      else .ok (.control, cl.control.idCounter + 1))

/-- A call that opens a stream on a bulk connection, which is picked before the limit is
converted. -/
def stream (cl : Client cfg) (limit : Option Limit)
    (request : Conn cfg → Option ℤ → Conn cfg) : Client cfg × Except Err Handle :=
  if cl.closed then (cl, .error .closed)
  else
    match cl.pickBulk with
    | (cl, lane, c) =>
      match toBigIntLimit limit with
      | .error e => (cl, .error e)
      | .ok limit => (cl.setLane lane (request c limit), .ok (lane, c.idCounter + 1))

/-- `append`. -/
def append (cl : Client cfg) (events : List Event) (condition : Option AppendCondition)
    (signal : Signal) : Client cfg × Except Err Handle :=
  cl.unary fun c => c.append
    (.ok { events := events.map eventToWire, condition := condition.map conditionToWire }) signal

/-- `stats`. -/
def stats (cl : Client cfg) (signal : Signal) : Client cfg × Except Err Handle :=
  cl.unary fun c => c.stats signal

/-- `read`. -/
def read (cl : Client cfg) (query : Query) (after : Option ℤ) (limit : Option Limit)
    (signal : Signal) : Client cfg × Except Err Handle :=
  cl.stream limit fun c limit => c.read
    (.ok
      { query := queryToWire query, after := after.getD Position.zero, limit := limit
        reverse := false })
    signal

/-- `readBack`. -/
def readBack (cl : Client cfg) (query : Query) (before : Option ℤ) (limit : Option Limit)
    (signal : Signal) : Client cfg × Except Err Handle :=
  cl.stream limit fun c limit => c.read
    (.ok
      { query := queryToWire query, after := before.getD Position.max, limit := limit
        reverse := true })
    signal

/-- `subscribe`. -/
def subscribe (cl : Client cfg) (query : Query) (after : Option ℤ) (signal : Signal) :
    Client cfg × Except Err Handle :=
  cl.stream none fun c _ => c.subscribe
    (.ok { query := queryToWire query, after := after.getD Position.zero }) signal

/-- A call. -/
def call (cl : Client cfg) : ClientCall → Client cfg × Except Err Handle
  | .append events condition signal => cl.append events condition signal
  | .stats signal => cl.stats signal
  | .read query after limit signal => cl.read query after limit signal
  | .readBack query before limit signal => cl.readBack query before limit signal
  | .subscribe query after signal => cl.subscribe query after signal

/-- `close`. -/
def close (cl : Client cfg) : Client cfg :=
  if cl.closed then cl
  else { cl with closed := true, control := cl.control.close, bulk := cl.bulk.map Conn.close }

end Client

end

/-- Whether a step of a connection is a call of its client. -/
def Action.isCall : Action → Bool
  | .append _ _ | .stats _ | .read _ _ | .subscribe _ _ | .close => true
  | _ => false

/-- The steps of a client. -/
inductive ClientAction
  | call (call : ClientCall)
  | close
  /-- A connection does something of its own. -/
  | lane (lane : Lane) (a : Action)

section

variable [TextCodec] {cfg : Config}

/-- A step of a client, if it can be taken. -/
def Client.step (cl : Client cfg) : ClientAction → Option (Client cfg)
  | .call call => some (cl.call call).1
  | .close => some cl.close
  | .lane lane a =>
    if a.isCall then none
    else (cl.lane? lane).bind fun c => (c.step a).map fun c' => cl.setLane lane c'

/-- A client as an event machine. -/
def client (cfg : Config) : Machine (Client cfg) ClientAction where
  step := Client.step

/-- A connection that `connect` has returned: it has run so far, and its hello was accepted. -/
def Conn.Connected (c : Conn cfg) : Prop :=
  (∃ as, (connection cfg).Run (init cfg) as c) ∧ c.calls.get? 1 = some (.hello (.resolved ()))

namespace Client

variable {cl cl' : Client cfg}

/-- A client that `connect` has returned. -/
structure Connected (cl : Client cfg) : Prop where
  lanes : ∀ lane c, cl.lane? lane = some c → c.Connected
  nextBulk : cl.nextBulk = 0
  isOpen : cl.closed = false

/-! ### Lanes -/

theorem lane?_setLane (cl : Client cfg) (lane lane' : Lane) (c : Conn cfg) :
    (cl.setLane lane c).lane? lane' =
      if lane = lane' then (cl.lane? lane').map fun _ => c else cl.lane? lane' := by
  cases lane with
  | control =>
    cases lane' with
    | control => rfl
    | bulk j => rfl
  | bulk i =>
    cases lane' with
    | control => rfl
    | bulk j =>
      simp only [setLane, lane?, List.getElem?_set, Lane.bulk.injEq]
      split_ifs with hij hlt
      · rw [← hij, List.getElem?_eq_getElem hlt]; rfl
      · rw [← hij, List.getElem?_eq_none (Nat.le_of_not_lt hlt)]; rfl
      · rfl

theorem pickBulk_spec {cl₁ : Client cfg} {lane : Lane} {c : Conn cfg}
    (h : cl.pickBulk = (cl₁, lane, c)) :
    cl.lane? lane = some c ∧ ∀ lane', cl₁.lane? lane' = cl.lane? lane' := by
  unfold pickBulk at h
  split_ifs at h with hempty
  · cases h
    exact ⟨rfl, fun _ => rfl⟩
  · cases h
    refine ⟨List.getElem?_eq_getElem _, fun lane' => ?_⟩
    cases lane' <;> rfl

/-- Every connection of the client runs on. -/
def LanesRun (cl cl' : Client cfg) : Prop :=
  ∀ lane,
    Option.Rel (fun c c' => ∃ as, (connection cfg).Run c as c') (cl.lane? lane) (cl'.lane? lane)

theorem LanesRun.of_eq (h : ∀ lane, cl'.lane? lane = cl.lane? lane) : LanesRun cl cl' := by
  intro lane
  rw [h]
  cases cl.lane? lane with
  | none => exact .none
  | some c => exact .some ⟨[], .start⟩

theorem LanesRun.refl (cl : Client cfg) : LanesRun cl cl := .of_eq fun _ => rfl

theorem LanesRun.trans {cl'' : Client cfg} (h : LanesRun cl cl') (h' : LanesRun cl' cl'') :
    LanesRun cl cl'' := by
  intro lane
  have hl := h lane
  have hl' := h' lane
  generalize cl.lane? lane = o, cl'.lane? lane = o', cl''.lane? lane = o'' at hl hl' ⊢
  cases hl with
  | none => cases hl'; exact .none
  | some hrun =>
    cases hl' with
    | some hrun' =>
      obtain ⟨as, hrun⟩ := hrun
      obtain ⟨as', hrun'⟩ := hrun'
      exact .some ⟨as ++ as', hrun.trans hrun'⟩

theorem lanesRun_setLane {lane : Lane} {c c' : Conn cfg} {a : Action} (hc : cl.lane? lane = some c)
    (hstep : c.step a = some c') : LanesRun cl (cl.setLane lane c') := by
  intro lane'
  rw [lane?_setLane]
  split_ifs with hlane
  · subst hlane
    rw [hc]
    exact .some ⟨[a], .single trivial hstep⟩
  · exact LanesRun.refl cl lane'

/-! ### What a call does -/

variable {lane : Lane} {id : ℤ}

theorem unary_eq_ok {request : Conn cfg → Conn cfg} (h : cl.unary request = (cl', .ok (lane, id))) :
    cl.control.dead = false ∧ id = cl.control.idCounter + 1 ∧ lane = .control ∧
      cl'.control = request cl.control := by
  unfold unary at h
  split_ifs at h with _ hdead
  · cases h
  · cases h
  · cases h
    exact ⟨Bool.eq_false_of_not_eq_true hdead, rfl, rfl, rfl⟩

theorem stream_eq_ok {limit : Option Limit} {request : Conn cfg → Option ℤ → Conn cfg}
    (h : cl.stream limit request = (cl', .ok (lane, id))) :
    ∃ c limit', cl.lane? lane = some c ∧ toBigIntLimit limit = .ok limit' ∧
      id = c.idCounter + 1 ∧ cl'.lane? lane = some (request c limit') := by
  unfold stream at h
  split_ifs at h
  · cases h
  split at h
  rename_i cl₁ lane₁ c hpick
  obtain ⟨hc, hlanes⟩ := pickBulk_spec hpick
  split at h
  · cases h
  · rename_i limit' hlimit
    cases h
    refine ⟨c, limit', hc, hlimit, rfl, ?_⟩
    rw [lane?_setLane, if_pos rfl, hlanes, hc]
    rfl

theorem lanesRun_unary {request : Conn cfg → Conn cfg} {a : Action}
    (hstep : ∀ c : Conn cfg, c.step a = some (request c)) : LanesRun cl (cl.unary request).1 := by
  -- also a call that is rejected at once is a step of the connection
  have hcontrol : LanesRun cl (cl.setLane .control (request cl.control)) :=
    lanesRun_setLane rfl (hstep _)
  unfold unary
  split_ifs
  · exact .refl cl
  · exact hcontrol
  · exact hcontrol

theorem lanesRun_stream {limit : Option Limit} {request : Conn cfg → Option ℤ → Conn cfg}
    {a : Option ℤ → Action} (hstep : ∀ c limit, Conn.step c (a limit) = some (request c limit)) :
    LanesRun cl (cl.stream limit request).1 := by
  unfold stream
  split_ifs
  · exact .refl cl
  split
  rename_i cl₁ lane₁ c hpick
  obtain ⟨hc, hlanes⟩ := pickBulk_spec hpick
  have hpicked : LanesRun cl cl₁ := .of_eq hlanes
  split
  · exact hpicked
  · exact hpicked.trans (lanesRun_setLane (by rw [hlanes, hc]) (hstep _ _))

theorem lanesRun_call (call : ClientCall) : LanesRun cl (cl.call call).1 := by
  cases call with
  | append events condition signal => exact lanesRun_unary (a := .append _ signal) fun _ => rfl
  | stats signal => exact lanesRun_unary (a := .stats signal) fun _ => rfl
  | read query after limit signal | readBack query before limit signal =>
    exact lanesRun_stream (a := fun limit => .read (.ok { limit := limit, .. }) signal)
      fun _ _ => rfl
  | subscribe query after signal =>
    exact lanesRun_stream (a := fun _ => .subscribe _ signal) fun _ _ => rfl

theorem lanesRun_close : LanesRun cl cl.close := by
  have hclose : ∀ c : Conn cfg, ∃ as, (connection cfg).Run c as c.close := fun c =>
    ⟨[.close], .single trivial rfl⟩
  unfold close
  split_ifs
  · exact .refl cl
  intro lane
  cases lane with
  | control => exact .some (hclose _)
  | bulk i =>
    simp only [lane?, List.getElem?_map]
    cases cl.bulk[i]? with
    | none => exact .none
    | some c => exact .some (hclose c)

theorem lanesRun_step {a : ClientAction} (h : cl.step a = some cl') : LanesRun cl cl' := by
  cases a with
  | call call => cases h; exact lanesRun_call call
  | close => cases h; exact lanesRun_close
  | lane lane a =>
    simp only [step] at h
    split_ifs at h
    obtain ⟨c, hc, h⟩ := Option.bind_eq_some_iff.1 h
    obtain ⟨c', hstep, rfl⟩ := Option.map_eq_some_iff.1 h
    exact lanesRun_setLane hc hstep

theorem lanesRun_of_run {as : List ClientAction} (h : (client cfg).Run cl as cl') :
    LanesRun cl cl' :=
  h.rel (I := fun _ => True) trivial (fun _ _ _ _ _ _ => trivial) LanesRun.refl
    (fun _ _ _ => LanesRun.trans) fun _ _ _ _ _ hstep => lanesRun_step hstep

/-- A connection of a client has run ever since it was made. -/
theorem lane_of_run {as : List ClientAction} {c : Conn cfg} (hconn : cl.Connected)
    (h : (client cfg).Run cl as cl') (hc : cl'.lane? lane = some c) :
    ∃ as, (connection cfg).Run (Conn.init cfg) as c := by
  have hlane := lanesRun_of_run h lane
  rw [hc] at hlane
  generalize hc₀ : cl.lane? lane = o at hlane
  cases hlane with
  | some hrun =>
    obtain ⟨⟨as, hrun₀⟩, -⟩ := hconn.lanes lane _ hc₀
    obtain ⟨as', hrun⟩ := hrun
    exact ⟨as ++ as', hrun₀.trans hrun⟩

end Client

end

end Tephra
