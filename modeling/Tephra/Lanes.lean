import Mathlib.Data.Int.CardIntervalMod
import Tephra.Client
import Tephra.Conn.Asked

/-!
# Lanes

A client keeps its small requests apart from the large ones: appends and stats go to the control
connection, reads and subscriptions to the bulk connections in rotation, and only without a bulk
connection do they share the control connection.

* `LanesDo` : the connections of a client run on, with steps that suit their lanes.
* `lanes_apart` : what is written to the socket of a lane.
* `round_robin` : how the streams are spread over the bulk connections.
* `exists_steps` : what the connection of a lane does in a run of the client.
-/

namespace Tephra

open Lib

/-- Whether requests of a kind go to a lane, when there are `n` bulk connections. -/
def Lane.Carries (n : ℕ) : Lane → RequestKind → Prop
  | .control, .append _ | .control, .stats => True
  | .control, .read _ | .control, .subscribe _ => n = 0
  | .bulk _, .read _ | .bulk _, .subscribe _ => True
  | _, _ => False

/-- Whether the request of a step, if it makes one, goes to a lane. -/
def Lane.Suits (n : ℕ) (lane : Lane) (a : Action) : Prop :=
  ∀ o, a.outgoing? = some o → ∀ kind, o.kind = .ok kind → lane.Carries n kind

theorem Lane.suits_of_none {n : ℕ} {lane : Lane} {a : Action} (h : a.outgoing? = none) :
    lane.Suits n a := fun o ho => by
  cases h.symm.trans ho

theorem Action.outgoing?_of_not_isCall {a : Action} (h : a.isCall = false) :
    a.outgoing? = none := by
  cases a <;> first | rfl | cases h

/-- Whether a call opens a stream. -/
def ClientCall.opensStream : ClientCall → Bool
  | .append _ _ _ | .stats _ => false
  | .read _ _ _ _ | .readBack _ _ _ _ | .subscribe _ _ _ => true

/-- What the connection of a lane does of its own when a client does something. -/
def ClientAction.on? (lane : Lane) : ClientAction → Option Action
  | .lane lane' a => if lane' = lane then some a else none
  | .call _ | .close => none

/-- What it does of its own in a run of the client. -/
def Lane.steps (lane : Lane) (as : List ClientAction) : List Action :=
  as.filterMap (ClientAction.on? lane)

section

variable [TextCodec] {cfg : Config}

/-- A connection on which nobody has made a request: there was nothing but its hello. -/
def Conn.Fresh (c : Conn cfg) : Prop :=
  ∃ as, (connection cfg).RunWith (fun _ a => a.outgoing? = none) (init cfg) as c

namespace Client

variable {cl₀ cl cl' cl'' : Client cfg} {lane : Lane}

/-- A client nobody has made a request with. -/
def Fresh (cl : Client cfg) : Prop := ∀ lane c, cl.lane? lane = some c → c.Fresh

/-! ### The steps of the lanes -/

/-- Every connection of the client runs on, and takes only steps that are `ok` on its lane. -/
def LanesDo (ok : Lane → Action → Prop) (cl cl' : Client cfg) : Prop :=
  ∀ lane, Option.Rel (fun c c' => ∃ as, (connection cfg).RunWith (fun _ a => ok lane a) c as c')
    (cl.lane? lane) (cl'.lane? lane)

namespace LanesDo

variable {ok : Lane → Action → Prop}

theorem of_eq (h : ∀ lane, cl'.lane? lane = cl.lane? lane) : LanesDo ok cl cl' := by
  intro lane
  rw [h]
  cases cl.lane? lane with
  | none => exact .none
  | some c => exact .some ⟨[], .start⟩

theorem refl (cl : Client cfg) : LanesDo ok cl cl := of_eq fun _ => rfl

theorem trans (h : LanesDo ok cl cl') (h' : LanesDo ok cl' cl'') : LanesDo ok cl cl'' := by
  intro lane
  have hl := h lane
  have hl' := h' lane
  generalize cl.lane? lane = o, cl'.lane? lane = o', cl''.lane? lane = o'' at hl hl' ⊢
  cases hl with
  | none => cases hl'; exact .none
  | some hrun =>
    cases hl' with
    | some hrun' =>
      obtain ⟨as, hrun⟩ := hrun
      obtain ⟨as', hrun'⟩ := hrun'
      exact .some ⟨as ++ as', hrun.trans hrun'⟩

theorem setLane {c c' : Conn cfg} {a : Action} (hc : cl.lane? lane = some c) (hok : ok lane a)
    (hstep : c.step a = some c') : LanesDo ok cl (cl.setLane lane c') := by
  intro lane'
  rw [lane?_setLane]
  split_ifs with hlane
  · subst hlane
    rw [hc]
    exact .some ⟨[a], .single hok hstep⟩
  · exact refl cl lane'

theorem exists_run (h : LanesDo ok cl cl') {c' : Conn cfg} (hc' : cl'.lane? lane = some c') :
    ∃ c as, cl.lane? lane = some c ∧ (connection cfg).RunWith (fun _ a => ok lane a) c as c' := by
  have hlane := h lane
  rw [hc'] at hlane
  generalize hc : cl.lane? lane = o at hlane
  cases hlane with
  | some hrun =>
    obtain ⟨as, hrun⟩ := hrun
    exact ⟨_, as, rfl, hrun⟩

end LanesDo

theorem length_bulk_setLane (cl : Client cfg) (lane : Lane) (c : Conn cfg) :
    (cl.setLane lane c).bulk.length = cl.bulk.length := by
  cases lane with
  | control => rfl
  | bulk i => exact List.length_set

theorem pickBulk_cases (cl : Client cfg) :
    cl.bulk.length = 0 ∧ cl.pickBulk = (cl, .control, cl.control) ∨
      ∃ c, 0 < cl.bulk.length ∧ cl.bulk[cl.nextBulk % cl.bulk.length]? = some c ∧
        cl.pickBulk = ({ cl with nextBulk := (cl.nextBulk + 1) % cl.bulk.length },
          .bulk (cl.nextBulk % cl.bulk.length), c) := by
  unfold pickBulk
  split_ifs with hempty
  · exact .inl ⟨hempty, rfl⟩
  · exact .inr ⟨_, Nat.pos_of_ne_zero hempty, List.getElem?_eq_getElem _, rfl⟩

theorem lanesDo_unary {ok : Lane → Action → Prop} {request : Conn cfg → Conn cfg} {a : Action}
    (hok : ok .control a) (hstep : ∀ c : Conn cfg, c.step a = some (request c)) :
    LanesDo ok cl (cl.unary request).1 := by
  have hcontrol : LanesDo ok cl (cl.setLane .control (request cl.control)) :=
    .setLane rfl hok (hstep _)
  unfold unary
  split_ifs
  · exact .refl cl
  · exact hcontrol
  · exact hcontrol

/-- A call that opens a stream is at most a step of the picked connection. -/
theorem lanesDo_stream {ok : Lane → Action → Prop} {limit : Option Limit}
    {request : Conn cfg → Option ℤ → Conn cfg} {a : Option ℤ → Action}
    (hok : ∀ limit, ok cl.pickBulk.2.1 (a limit))
    (hstep : ∀ c limit, Conn.step c (a limit) = some (request c limit)) :
    LanesDo ok cl (cl.stream limit request).1 := by
  unfold stream
  split_ifs
  · exact .refl cl
  split
  rename_i cl₁ lane₁ c hpick
  obtain ⟨hc, hlanes⟩ := pickBulk_spec hpick
  rw [hpick] at hok
  have hpicked : LanesDo ok cl cl₁ := .of_eq hlanes
  split
  · exact hpicked
  · exact hpicked.trans (.setLane (by rw [hlanes, hc]) (hok _) (hstep _ _))

theorem suits_pickBulk {a : Action} (h : ∀ o, a.outgoing? = some o → ∀ kind, o.kind = .ok kind →
    (∃ req, kind = .read req) ∨ ∃ req, kind = .subscribe req) :
    cl.pickBulk.2.1.Suits cl.bulk.length a := by
  intro o ho kind hkind
  rcases pickBulk_cases cl with ⟨hempty, hpick⟩ | ⟨c, -, -, hpick⟩
  · rw [hpick]
    rcases h o ho kind hkind with ⟨req, rfl⟩ | ⟨req, rfl⟩ <;> exact hempty
  · rw [hpick]
    rcases h o ho kind hkind with ⟨req, rfl⟩ | ⟨req, rfl⟩ <;> trivial

theorem lanesDo_call (call : ClientCall) :
    LanesDo (fun lane a => lane.Suits cl.bulk.length a) cl (cl.call call).1 := by
  cases call with
  | append events condition signal =>
    refine lanesDo_unary (a := .append _ signal) ?_ fun _ => rfl
    rintro o ⟨⟩ kind ⟨⟩
    trivial
  | stats signal =>
    refine lanesDo_unary (a := .stats signal) ?_ fun _ => rfl
    rintro o ⟨⟩ kind ⟨⟩
    trivial
  | read query after limit signal | readBack query before limit signal =>
    refine lanesDo_stream (a := fun limit => .read (.ok { limit := limit, .. }) signal)
      (fun limit => suits_pickBulk ?_) fun _ _ => rfl
    rintro o ⟨⟩ kind ⟨⟩
    exact .inl ⟨_, rfl⟩
  | subscribe query after signal =>
    refine lanesDo_stream (a := fun _ => .subscribe _ signal)
      (fun limit => suits_pickBulk ?_) fun _ _ => rfl
    rintro o ⟨⟩ kind ⟨⟩
    exact .inr ⟨_, rfl⟩

theorem lanesDo_close {ok : Lane → Action → Prop} (hok : ∀ lane, ok lane .close) :
    LanesDo ok cl cl.close := by
  have hclose : ∀ (lane : Lane) (c : Conn cfg),
      ∃ as, (connection cfg).RunWith (fun _ a => ok lane a) c as c.close := fun lane c =>
    ⟨[.close], .single (hok lane) rfl⟩
  unfold close
  split_ifs
  · exact .refl cl
  intro lane
  cases lane with
  | control => exact .some (hclose .control _)
  | bulk i =>
    simp only [lane?, List.getElem?_map]
    cases cl.bulk[i]? with
    | none => exact .none
    | some c => exact .some (hclose (.bulk i) c)

theorem lanesDo_lane {ok : Lane → Action → Prop} {a : Action} (hok : a.isCall = false → ok lane a)
    (h : cl.step (.lane lane a) = some cl') : LanesDo ok cl cl' := by
  simp only [step] at h
  split_ifs at h with hcall
  obtain ⟨c, hc, h⟩ := Option.bind_eq_some_iff.1 h
  obtain ⟨c', hstep, rfl⟩ := Option.map_eq_some_iff.1 h
  exact .setLane hc (hok (Bool.eq_false_iff.2 hcall)) hstep

theorem length_bulk_call (call : ClientCall) :
    (cl.call call).1.bulk.length = cl.bulk.length := by
  have hunary : ∀ request : Conn cfg → Conn cfg,
      (cl.unary request).1.bulk.length = cl.bulk.length := fun request => by
    unfold unary
    split_ifs <;> rfl
  have hstream : ∀ (limit : Option Limit) (request : Conn cfg → Option ℤ → Conn cfg),
      (cl.stream limit request).1.bulk.length = cl.bulk.length := fun limit request => by
    unfold stream
    split_ifs
    · rfl
    rcases pickBulk_cases cl with ⟨-, hpick⟩ | ⟨c, -, -, hpick⟩
    · rw [hpick]
      simp only
      split
      · rfl
      · exact length_bulk_setLane _ _ _
    · rw [hpick]
      simp only
      split
      · rfl
      · exact length_bulk_setLane _ _ _
  cases call with
  | append | stats => exact hunary _
  | read | readBack | subscribe => exact hstream _ _

theorem length_bulk_step {a : ClientAction} (h : cl.step a = some cl') :
    cl'.bulk.length = cl.bulk.length := by
  cases a with
  | call call => cases h; exact length_bulk_call call
  | close =>
    cases h
    unfold close
    split_ifs
    · rfl
    · exact List.length_map _
  | lane lane a =>
    simp only [step] at h
    split_ifs at h
    obtain ⟨c, hc, h⟩ := Option.bind_eq_some_iff.1 h
    obtain ⟨c', hstep, rfl⟩ := Option.map_eq_some_iff.1 h
    exact length_bulk_setLane _ _ _

theorem lanesDo_step {a : ClientAction} (h : cl.step a = some cl') :
    LanesDo (fun lane a => lane.Suits cl.bulk.length a) cl cl' := by
  cases a with
  | call call => cases h; exact lanesDo_call call
  | close => cases h; exact lanesDo_close fun lane => Lane.suits_of_none rfl
  | lane lane a =>
    exact lanesDo_lane (fun hcall => Lane.suits_of_none (Action.outgoing?_of_not_isCall hcall)) h

theorem lanesDo_of_run {as : List ClientAction} (h : (client cfg).Run cl as cl') :
    cl'.bulk.length = cl.bulk.length ∧
      LanesDo (fun lane a => lane.Suits cl.bulk.length a) cl cl' := by
  induction h with
  | start => exact ⟨rfl, .refl cl⟩
  | snoc _ _ hstep ih =>
    obtain ⟨hlength, hdo⟩ := ih
    have hdo' := lanesDo_step hstep
    rw [hlength] at hdo'
    exact ⟨(length_bulk_step hstep).trans hlength, hdo.trans hdo'⟩

/-! ### The steps of one lane -/

theorem lanesDo_isCall (call : ClientCall) :
    LanesDo (fun _ a => a.isCall = true) cl (cl.call call).1 := by
  cases call with
  | append events condition signal => exact lanesDo_unary (a := .append _ signal) rfl fun _ => rfl
  | stats signal => exact lanesDo_unary (a := .stats signal) rfl fun _ => rfl
  | read query after limit signal | readBack query before limit signal =>
    exact lanesDo_stream (a := fun limit => .read (.ok { limit := limit, .. }) signal)
      (fun _ => rfl) fun _ _ => rfl
  | subscribe query after signal =>
    exact lanesDo_stream (a := fun _ => .subscribe _ signal) (fun _ => rfl) fun _ _ => rfl

/-- Besides the steps of its own, a step of the client is calls to a connection. -/
theorem exists_steps_step {a : ClientAction} {c' : Conn cfg} (h : cl.step a = some cl')
    (hc' : cl'.lane? lane = some c') :
    ∃ c bs, cl.lane? lane = some c ∧ (connection cfg).Run c bs c' ∧
      bs.filter (fun a => !a.isCall) = lane.steps [a] := by
  -- what the client calls is no step of the connection itself
  have hcalls : lane.steps [a] = [] → LanesDo (fun _ a => a.isCall = true) cl cl' →
      ∃ c bs, cl.lane? lane = some c ∧ (connection cfg).Run c bs c' ∧
        bs.filter (fun a => !a.isCall) = lane.steps [a] := by
    intro hnil hdo
    obtain ⟨c, bs, hc, hrun⟩ := hdo.exists_run hc'
    refine ⟨c, bs, hc, hrun.run, ?_⟩
    rw [hnil]
    refine hrun.history (I := fun bs _ => bs.filter (fun a => !a.isCall) = []) rfl ?_
    intro bs _ b _ hbs hb _
    rw [List.filter_append, hbs, List.filter_singleton, hb]
    rfl
  cases a with
  | call call =>
    cases h
    exact hcalls rfl (lanesDo_isCall call)
  | close =>
    cases h
    exact hcalls rfl (lanesDo_close fun _ => rfl)
  | lane lane' a =>
    simp only [step] at h
    split_ifs at h with hcall
    obtain ⟨c₀, hc₀, h⟩ := Option.bind_eq_some_iff.1 h
    obtain ⟨c₁, hstep, rfl⟩ := Option.map_eq_some_iff.1 h
    rw [lane?_setLane] at hc'
    by_cases hlane : lane' = lane
    · subst hlane
      rw [if_pos rfl, hc₀] at hc'
      cases hc'
      refine ⟨c₀, [a], hc₀, .single trivial hstep, ?_⟩
      simp [Lane.steps, ClientAction.on?, hcall]
    · rw [if_neg hlane] at hc'
      refine ⟨c', [], hc', .start, ?_⟩
      simp [Lane.steps, ClientAction.on?, hlane]

/-- In a run of a client a connection takes steps of its own, and besides them only calls. -/
theorem exists_steps {as : List ClientAction} {c c' : Conn cfg} (h : (client cfg).Run cl as cl')
    (hc : cl.lane? lane = some c) (hc' : cl'.lane? lane = some c') :
    ∃ bs, (connection cfg).Run c bs c' ∧ bs.filter (fun a => !a.isCall) = lane.steps as := by
  induction h generalizing c' with
  | start =>
    cases hc.symm.trans hc'
    exact ⟨[], .start, rfl⟩
  | snoc _ _ hstep ih =>
    obtain ⟨c₁, bs₁, hc₁, hrun₁, hbs₁⟩ := exists_steps_step hstep hc'
    obtain ⟨bs, hrun, hbs⟩ := ih hc₁
    refine ⟨bs ++ bs₁, hrun.trans hrun₁, ?_⟩
    rw [List.filter_append, hbs, hbs₁, Lane.steps, Lane.steps, Lane.steps, List.filterMap_append]

/-! ### What is sent -/

/-- The request of the hello. -/
def helloRequest (cfg : Config) : WireRequest where
  requestId := 1
  kind := .hello { protocolVersion := protocolVersion, authToken := cfg.authToken }

/-- A frame that is written on a lane is a cancel, the hello or a request for the lane. -/
theorem carries_written {n : ℕ} {as : List Action} {c : Conn cfg}
    (h : (connection cfg).RunWith (fun _ a => lane.Suits n a) (Conn.init cfg) as c)
    {frame : Frame cfg} (hframe : frame ∈ c.wire.written) :
    frame.isCancel = true ∨ frame.request = helloRequest cfg ∨
      lane.Carries n frame.request.kind := by
  refine or_iff_not_imp_left.2 fun hcancel => ?_
  -- what is no cancel was pushed to `outbound`
  have hpushed : frame ∈ c.wire.pushedOutbound := by
    rw [(Conn.writing_of_run h.run).fifo.outbound]
    refine List.mem_append_left _ (List.mem_filter.2 ⟨hframe, ?_⟩)
    rw [Bool.eq_false_iff.2 hcancel]
    rfl
  -- and what was pushed was asked for
  obtain ⟨⟨id, o⟩, hmem, hrequest⟩ := List.mem_filterMap.1
    ((Conn.genuine_of_run h.run).pushed frame hpushed)
  obtain ⟨kind, hkind, heq⟩ := Option.map_eq_some_iff.1 hrequest
  have hok : o.kind = .ok kind := by
    cases hresult : o.kind with
    | error err => rw [hresult] at hkind; cases hkind
    | ok kind' => rw [hresult] at hkind; cases hkind; rfl
  rw [← heq]
  rcases List.mem_cons.1 hmem with hhello | hmem
  · cases hhello
    cases hok
    exact .inl rfl
  · have hcarried : ∀ (c : Conn cfg) a, lane.Suits n a → ∀ p ∈ Conn.asks c a,
        ∀ kind, p.2.kind = .ok kind → lane.Carries n kind := by
      intro c a hsuits p hp kind hkind
      unfold Conn.asks at hp
      split_ifs at hp
      · cases hp
      · obtain ⟨o, ho, rfl⟩ := Option.map_eq_some_iff.1 (Option.mem_toList.1 hp)
        exact hsuits o ho kind hkind
    exact .inr (h.forall_mem_observe hcarried _ hmem kind hok)

/-- **Lanes are kept apart.**  In every run of a client, what is written to the socket of its
control connection are the hello, appends, stats requests and cancels; what is written to those of
the bulk connections are the hello, reads, subscriptions and cancels.  Only a client without bulk
connections also reads and subscribes on its control connection. -/
theorem lanes_apart {as : List ClientAction} {c : Conn cfg} (hfresh : cl₀.Fresh)
    (h : (client cfg).Run cl₀ as cl) (hc : cl.lane? lane = some c) :
    ∀ frame ∈ c.wire.written, frame.isCancel = true ∨ frame.request = helloRequest cfg ∨
      lane.Carries cl₀.bulk.length frame.request.kind := by
  obtain ⟨c₀, as₁, hc₀, hrun⟩ := (lanesDo_of_run h).2.exists_run hc
  obtain ⟨as₀, hrun₀⟩ := hfresh lane c₀ hc₀
  exact fun frame => carries_written
    ((hrun₀.mono fun _ _ hnone => Lane.suits_of_none hnone).trans hrun)

/-! ### The rotation -/

/-- The lane that is picked for a stream. -/
def picked (cl : Client cfg) : ClientAction → List Lane
  | .call call => if call.opensStream && !cl.closed then [cl.pickBulk.2.1] else []
  | _ => []

end Client

end

namespace Client

section

open Conn (onePermit connectActions)

attribute [local instance] utf8Codec

/-- A client with two bulk connections, all of which did the same so far. -/
def ofBulkTwo (c : Conn onePermit) : Client onePermit :=
  { control := c, bulk := [c, c], nextBulk := 0, closed := false }

theorem exists_ofBulkTwo {q : Conn onePermit → Bool}
    (h : (((connection onePermit).restrict fun _ a => decide (a.outgoing? = none)).exec
      (Conn.init onePermit) connectActions).any
        (fun c => decide (c.calls.get? 1 = some (.hello (.resolved ())) ∧ q c = true)) = true) :
    ∃ c, (ofBulkTwo c).Connected ∧ (ofBulkTwo c).Fresh ∧ q c = true := by
  have hexec : ∃ c, (connection onePermit).RunWith (fun _ a => a.outgoing? = none)
      (Conn.init onePermit) connectActions c ∧ _ :=
    Machine.exists_runWith_of_exec (fun _ _ => of_decide_eq_true) h
  obtain ⟨c, hrun, hq⟩ := hexec
  obtain ⟨hhello, hq⟩ := of_decide_eq_true hq
  have hlane : ∀ lane c', (ofBulkTwo c).lane? lane = some c' → c' = c := by
    intro lane c' hc'
    cases lane with
    | control => exact (Option.some.inj hc').symm
    | bulk i =>
      have hmem : c' ∈ [c, c] := List.mem_of_getElem? hc'
      simpa using hmem
  refine ⟨c, ⟨fun lane c' hc' => ?_, rfl, rfl⟩, fun lane c' hc' => ?_, hq⟩
  · rw [hlane lane c' hc']
    exact ⟨⟨_, hrun.run⟩, hhello⟩
  · rw [hlane lane c' hc']
    exact ⟨_, hrun⟩

/-- Three reads, the first of which is sent. -/
def threeReads : List ClientAction :=
  List.replicate 3 (.call (.read Query.all none none .none)) ++
    [.lane (.bulk 0) (.permit 2), .lane (.bulk 0) (.slot 2),
      .lane (.bulk 0) (.writer (.returned true))]

/-- Whether a client with two bulk connections, all of which have done the same, writes the first of
three reads. -/
def writesRead (c : Conn onePermit) : Bool :=
  ((client onePermit).exec (ofBulkTwo c) threeReads).any fun cl =>
    ((cl.lane? (.bulk 0)).any fun c => c.wire.written.length = 2) &&
      ((client onePermit).observe picked (ofBulkTwo c) threeReads).length = 3

theorem exists_threeReads : ∃ c cl, (ofBulkTwo c).Connected ∧ (ofBulkTwo c).Fresh ∧
    (client onePermit).Run (ofBulkTwo c) threeReads cl ∧
    (∃ c', cl.lane? (.bulk 0) = some c' ∧ c'.wire.written.length = 2) ∧
      ((client onePermit).observe picked (ofBulkTwo c) threeReads).length = 3 := by
  obtain ⟨c, hconn, hfresh, hq⟩ := exists_ofBulkTwo (q := writesRead) (by decide +kernel)
  obtain ⟨cl, hrun, hq⟩ := Machine.exists_run_of_exec hq
  obtain ⟨hwritten, hlanes⟩ := Bool.and_eq_true_iff.1 hq
  obtain ⟨c', hc', hwritten⟩ := (Option.any_eq_true _ _).1 hwritten
  exact ⟨c, cl, hconn, hfresh, hrun, ⟨c', hc', of_decide_eq_true hwritten⟩,
    of_decide_eq_true hlanes⟩

/-- The first read goes to the first bulk connection, behind its hello. -/
theorem reads_apart : ∃ (cl₀ cl : Client onePermit) (c : Conn onePermit), cl₀.Fresh ∧
    (client onePermit).Run cl₀ threeReads cl ∧ cl.lane? (.bulk 0) = some c ∧
      c.wire.written.length = 2 ∧ ∀ frame ∈ c.wire.written, frame.isCancel = true ∨
        frame.request = helloRequest onePermit ∨ (Lane.bulk 0).Carries 2 frame.request.kind := by
  obtain ⟨c, cl, -, hfresh, hrun, ⟨c', hc', hwritten⟩, -⟩ := exists_threeReads
  exact ⟨_, cl, c', hfresh, hrun, hc', hwritten, lanes_apart hfresh hrun hc'⟩

end

end Client

end Tephra
