import Tephra.Conn.Decompose

/-!
# Settling requests

A request is pending until it is settled, and settled once.  This needs cancel frames to fit: a
stream whose cancel is refused stays half closed.

* `exists_cancelFrame` : cancel frames take at most 24 bytes.
* `RequestMove` : what a move can do to one request.
* `Settling` : the invariant behind `settled_once`.
-/

namespace Tephra

open Lib

section

variable [TextCodec] {cfg : Config}

/-! ### Cancel frames fit -/

theorem exists_makeFrame {request : WireRequest}
    (h : (encodeRequest request).length ≤ cfg.maxFrameLen) :
    ∃ frame, makeFrame cfg request = .ok frame := by
  obtain ⟨bytes, hbytes⟩ := exists_writeFrame h
  unfold makeFrame
  split
  · exact ⟨_, rfl⟩
  · rename_i hthrow
    cases hbytes.symm.trans hthrow

theorem length_cancel_le (id target : ℤ) :
    (encodeRequest { requestId := id, kind := .cancel { target := target } }).length ≤ 24 := by
  have hid := Fields.length_uint64_le (show 1 < 16 by decide) id
  have htarget := Fields.length_uint64_le (show 1 < 16 by decide) target
  have hcancel := Fields.length_len_le (show 5 < 16 by decide)
    (show (Fields.uint64 1 target).length < 128 by omega)
  rw [encodeRequest_eq]
  simp only [requestKindBytes, encodeCancelRequest_eq, List.append_nil, List.length_append]
  omega

/-- A cancel frame fits whatever its ids. -/
theorem exists_cancelFrame (hmax : 24 ≤ cfg.maxFrameLen) (id target : ℤ) :
    ∃ frame, makeFrame cfg { requestId := id, kind := .cancel { target := target } } = .ok frame :=
  exists_makeFrame ((length_cancel_le id target).trans hmax)

/-- Whether an effect settles a request. -/
def Effect.settles (id : ℤ) : Effect cfg → Bool
  | .settle id' => id' = id
  | _ => false

/-- A death, with the requests pending then. -/
def Effect.death : Effect cfg → List (Err × List ℤ)
  | .die cause ids => [(cause, ids)]
  | _ => []

namespace Conn

variable {c c' : Conn cfg}

/-- The deaths of a connection, with the requests pending at each. -/
def deaths (c : Conn cfg) : List (Err × List ℤ) := c.log.flatMap Effect.death

/-- How often a request was settled. -/
def settlements (c : Conn cfg) (id : ℤ) : ℕ := c.log.countP (Effect.settles id)

/-! ### What a move does to one request -/

/-- What a move can do to one request. -/
inductive RequestMove (c c' : Conn cfg) (id : ℤ) : Prop
  /-- It is not concerned. -/
  | same (pending : c'.pending.has id = c.pending.has id)
      (calls : c'.calls.get? id = c.calls.get? id)
      (settlements : c'.settlements id = c.settlements id)
  /-- It is started. -/
  | start {call : Call} (new : c.calls.get? id = none) (pending : c'.pending.has id = true)
      (calls : c'.calls.get? id = some call) (fresh : call.settled = false)
      (settlements : c'.settlements id = c.settlements id)
  /-- It is pending and takes something in. -/
  | deliver {call call' : Call} (pending : c.pending.has id = true)
      (pending' : c'.pending.has id = true) (calls : c.calls.get? id = some call)
      (calls' : c'.calls.get? id = some call') (settled : call'.settled = call.settled)
      (settlements : c'.settlements id = c.settlements id)
  /-- Its caller looks at it. -/
  | consume {call call' : Call} (pending : c'.pending.has id = c.pending.has id)
      (calls : c.calls.get? id = some call) (calls' : c'.calls.get? id = some call')
      (extends_ : call.Extends call') (settlements : c'.settlements id = c.settlements id)
  /-- It is settled. -/
  | settle {call call' : Call} (pending : c.pending.has id = true)
      (pending' : c'.pending.has id = false) (calls : c.calls.get? id = some call)
      (calls' : c'.calls.get? id = some call') (ends : call.Ends call')
      (settlements : c'.settlements id = c.settlements id + 1)

theorem settlements_append {l : List (Effect cfg)} (hlog : c'.log = c.log ++ l) (id : ℤ)
    (hl : ∀ effect ∈ l, effect.settles id = false) : c'.settlements id = c.settlements id := by
  have hzero : l.countP (Effect.settles id) = 0 :=
    List.countP_eq_zero.2 fun effect heffect => by simp [hl effect heffect]
  rw [settlements, hlog, List.countP_append, hzero, Nat.add_zero, settlements]

theorem RequestMove.congr {c₁ : Conn cfg} {id : ℤ} (h : RequestMove c c₁ id)
    (hpending : c'.pending = c₁.pending) (hcalls : c'.calls = c₁.calls) (hlog : c'.log = c₁.log) :
    RequestMove c c' id := by
  have hset : c'.settlements id = c₁.settlements id := congrArg _ hlog
  cases h with
  | same pending calls settlements =>
    exact .same (hpending ▸ pending) (hcalls ▸ calls) (hset.trans settlements)
  | start new pending calls fresh settlements =>
    exact .start new (hpending ▸ pending) (hcalls ▸ calls) fresh (hset.trans settlements)
  | deliver pending pending' calls calls' settled settlements =>
    exact .deliver pending (hpending ▸ pending') calls (hcalls ▸ calls') settled
      (hset.trans settlements)
  | consume pending calls calls' extends_ settlements =>
    exact .consume (hpending ▸ pending) calls (hcalls ▸ calls') extends_ (hset.trans settlements)
  | settle pending pending' calls calls' ends settlements =>
    exact .settle pending (hpending ▸ pending') calls (hcalls ▸ calls') ends
      (hset.trans settlements)

/-- A new request is started, and the others are not concerned. -/
theorem request_of_register (hc : Consistent c) {type : PendingType} {call : Call}
    (fresh : call.settled = false) (id : ℤ) : RequestMove c (c.register type call) id := by
  have hlog : (c.register type call).log = c.log ++ [.issue (c.idCounter + 1)] := rfl
  have hset := settlements_append hlog id (by simp [Effect.settles])
  by_cases hid : id = c.idCounter + 1
  · subst hid
    refine .start (hc.calls_new (by omega)) ?_ (OrdMap.get?_set_self _ _ _) fresh hset
    rw [OrdMap.has_iff]
    exact OrdMap.mem_keys_set.2 (.inl rfl)
  · refine .same ?_ (OrdMap.get?_set_of_ne _ hid) hset
    rw [OrdMap.has, OrdMap.has]
    exact congrArg _ (OrdMap.get?_set_of_ne _ hid)

theorem request_of_settle (hc : Consistent c) (c₁ : Conn cfg) {id₁ : ℤ} {e : Pending}
    {f : Call → Call} {l : List (Effect cfg)} (hpending : c₁.pending = c.pending)
    (hcalls : c₁.calls = c.calls) (hlog : c₁.log = c.log ++ l)
    (hl : ∀ id, ∀ effect ∈ l, effect.settles id = false) (entry : c.pending.get? id₁ = some e)
    (ends : ∀ call, c.calls.get? id₁ = some call → call.Ends (f call)) (id : ℤ) :
    RequestMove c ((c₁.finalize id₁).settle id₁ f) id := by
  have hset := settlements_append hlog id (hl id)
  rw [finalize_of_some (hpending ▸ entry : c₁.pending.get? id₁ = some e)]
  by_cases hid : id = id₁
  · subst hid
    obtain ⟨call, hcall, -⟩ := hc.entry_call id e entry
    have hcall' : (c₁.calls.modify id f).get? id = some (f call) := by
      rw [OrdMap.get?_modify_self, hcalls, hcall]; rfl
    refine .settle ?_ ?_ hcall hcall' (ends call hcall) ?_
    · rw [OrdMap.has, entry]; rfl
    · show (c₁.pending.delete id).has id = false
      rw [OrdMap.has, OrdMap.get?_delete_self]; rfl
    · rw [← hset]
      simp only [settlements, settle, update, record, List.countP_append, List.countP_singleton,
        Effect.settles, decide_true, if_true]
  · refine .same ?_ ?_ ?_
    · show (c₁.pending.delete id₁).has id = c.pending.has id
      rw [OrdMap.has, OrdMap.get?_delete_of_ne hid, hpending, OrdMap.has]
    · show (c₁.calls.modify id₁ f).get? id = c.calls.get? id
      rw [OrdMap.get?_modify_of_ne f hid, hcalls]
    · rw [← hset]
      refine settlements_append rfl id fun effect heffect => ?_
      rw [List.mem_singleton.1 heffect]
      exact decide_eq_false (Ne.symm hid)

theorem request_of_failConnection (hc : Consistent c) (c₁ : Conn cfg) {l : List (Effect cfg)}
    (err : Err) (hdead : c₁.dead = false) (hpending : c₁.pending = c.pending)
    (hcalls : c₁.calls = c.calls) (hlog : c₁.log = c.log ++ l)
    (hl : ∀ id, ∀ effect ∈ l, effect.settles id = false) (id : ℤ) :
    RequestMove c (c₁.failConnection err) id := by
  have hset := settlements_append hlog id (hl id)
  have hcall := calls_failConnection err hdead id
  rw [hpending, hcalls] at hcall
  have hcount : (c₁.failConnection err).settlements id =
      c.settlements id + (c.pending.keys.count id) := by
    rw [← hset, ← hpending, failConnection_of_alive err hdead]
    simp only [settlements, List.countP_append, List.countP_singleton, Effect.settles,
      Bool.false_eq_true, if_false, List.countP_map, Nat.add_zero]
    rfl
  have hgone : (c₁.failConnection err).pending.has id = false := by
    rw [failConnection_of_alive err hdead]; rfl
  cases hhas : c.pending.has id with
  | true =>
    obtain ⟨e, entry⟩ := OrdMap.exists_of_mem_keys (OrdMap.has_iff.1 hhas)
    obtain ⟨call, hget, -⟩ := hc.entry_call id e entry
    rw [hhas, if_pos rfl, hget] at hcall
    refine .settle hhas hgone hget hcall (Call.ends_reject err call) ?_
    rw [hcount, List.count_eq_one_of_mem c.pending.nodup_keys (OrdMap.has_iff.1 hhas)]
  | false =>
    rw [hhas, if_neg Bool.false_ne_true] at hcall
    refine .same (hgone.trans hhas.symm) hcall ?_
    have hnot : id ∉ c.pending.keys := fun hmem => by
      rw [OrdMap.has_iff.2 hmem] at hhas; cases hhas
    rw [hcount, List.count_eq_zero_of_not_mem hnot, Nat.add_zero]

/-- Every move does one of these things to a request, unless it is a cancel that does not fit; a
dead connection sends none. -/
theorem request_of_move {g : Guard} (hmax : c.dead = false → 24 ≤ cfg.maxFrameLen)
    (hc : Consistent c) (hm : Move g c c') (id : ℤ) : RequestMove c c' id := by
  have hlog : c.log = c.log ++ [] := (List.append_nil _).symm
  have hnil : ∀ id, ∀ effect ∈ ([] : List (Effect cfg)), effect.settles id = false :=
    fun _ _ h => (by cases h)
  have hupdate : ∀ {id₁ : ℤ} {f : Call → Call}, id ≠ id₁ → RequestMove c (c.update id₁ f) id :=
    fun hne => .same rfl (OrdMap.get?_modify_of_ne _ hne) rfl
  have hcall : ∀ {id₁ : ℤ} {f : Call → Call} {call : Call}, c.calls.get? id₁ = some call →
      (c.update id₁ f).calls.get? id₁ = some (f call) := fun h => by
    rw [update, OrdMap.get?_modify_self, h]; rfl
  cases hm with
  | register alive hasType fresh => exact request_of_register hc fresh id
  | openStream hasType fresh =>
    exact (request_of_register hc fresh id).congr rfl rfl rfl
  | acquire | dropPermit | enqueue | slotDrop | takeFailed | gate | drain | destroy =>
    exact .same rfl rfl rfl
  | @cancel id₁ e frame f alive entry request ends =>
    exact request_of_settle hc (c.pushCancel frame) (l := [.issue _, .priority frame]) rfl rfl
      (List.append_assoc _ _ _) (by simp [Effect.settles]) entry ends id
  | settle entry ends => exact request_of_settle hc c rfl rfl hlog hnil entry ends id
  | @failPermit s e p inflight f resume entry dead ends =>
    exact request_of_settle hc { c with inflight := inflight.release } rfl rfl hlog hnil
      entry ends id
  | @deliver id₁ e f entry keeps settled =>
    -- another request is not concerned
    by_cases hid : id = id₁
    · subst hid
      obtain ⟨call, hget, -⟩ := hc.entry_call id e entry
      have hhas : c.pending.has id = true := by rw [OrdMap.has, entry]; rfl
      exact .deliver hhas hhas hget (hcall hget) (settled call hget) rfl
    · exact hupdate hid
  | @consume id₁ f extends_ =>
    by_cases hid : id = id₁
    · subst hid
      cases hget : c.calls.get? id with
      | none =>
        refine .same rfl ?_ rfl
        rw [update, OrdMap.get?_modify_self, hget]; rfl
      | some call => exact .consume rfl hget (hcall hget) (extends_ call hget) rfl
    · exact hupdate hid
  | @keepPermit s e p inflight alive resume entry =>
    refine .same ?_ rfl rfl
    show (c.pending.modify s.id _).has id = c.pending.has id
    rw [OrdMap.has, OrdMap.has, OrdMap.get?_modify]
    split_ifs <;> simp
  | slotPush | write | refuse | spend =>
    exact .same rfl rfl (settlements_append rfl id (by simp [Effect.settles]))
  | @throw err alive =>
    exact request_of_failConnection hc c.handOver err alive rfl rfl rfl
      (by simp [Effect.settles]) id
  | @die err alive => exact request_of_failConnection hc c err alive rfl rfl hlog hnil id
  | @jam id₁ err alive unfit =>
    -- a cancel fits, so that none can jam
    obtain ⟨frame, hframe⟩ := exists_cancelFrame (hmax alive) (c.idCounter + 1) id₁
    cases hframe.symm.trans unfit

/-! ### What is pending has no outcome -/

/-- A pending request has not reached its outcome, though the stream of a cancel that did not fit is
closed. -/
def Unended (c : Conn cfg) : Prop :=
  ∀ id call, c.pending.has id = true → c.calls.get? id = some call → call.terminal = false

theorem Unended.new : Unended (Conn.new cfg) := fun _ _ _ h => by cases h

theorem Unended.congr (h : Unended c)
    (hpending : ∀ id, c'.pending.has id = true → c.pending.has id = true)
    (hcalls : c'.calls = c.calls) : Unended c' :=
  fun id call hhas hcall => h id call (hpending id hhas) (hcalls ▸ hcall)

theorem Unended.update (h : Unended c) {id₁ : ℤ} {f : Call → Call}
    (keeps : ∀ call, c.calls.get? id₁ = some call → call.Keeps (f call)) :
    Unended (c.update id₁ f) := by
  intro id call' hhas hcall'
  rcases OrdMap.get?_modify_eq_some.1 hcall' with ⟨rfl, call, hcall, rfl⟩ | ⟨-, hcall⟩
  · exact (keeps call hcall).terminal.trans (h id call hhas hcall)
  · exact h id call' hhas hcall

theorem Unended.register (h : Unended c) {type : PendingType} {call : Call}
    (fresh : call.settled = false) : Unended (c.register type call) := by
  intro id call' hhas hcall'
  by_cases hid : id = c.idCounter + 1
  · subst hid
    cases (OrdMap.get?_set_self _ _ _).symm.trans hcall'
    exact Call.terminal_eq_false fresh
  · rw [OrdMap.has_iff] at hhas
    have hmem := (OrdMap.mem_keys_set.1 hhas).resolve_left hid
    exact h id call' (OrdMap.has_iff.2 hmem) ((OrdMap.get?_set_of_ne _ hid).symm.trans hcall')

theorem Unended.settle (h : Unended c) (id₁ : ℤ) (f : Call → Call) :
    Unended ((c.finalize id₁).settle id₁ f) := by
  intro id call hhas hcall
  have hold : id ≠ id₁ ∧ c.pending.has id = true := by
    cases entry : c.pending.get? id₁ with
    | none =>
      rw [finalize_of_none entry] at hhas
      refine ⟨?_, hhas⟩
      rintro rfl
      have hnone : c.pending.has id = false := by rw [OrdMap.has, entry]; rfl
      cases hnone.symm.trans hhas
    | some e =>
      rw [finalize_of_some entry] at hhas
      have hdelete : (c.pending.delete id₁).has id = true := hhas
      by_cases hid : id = id₁
      · subst hid
        rw [OrdMap.has, OrdMap.get?_delete_self] at hdelete
        cases hdelete
      · rw [OrdMap.has, OrdMap.get?_delete_of_ne hid] at hdelete
        exact ⟨hid, hdelete⟩
  refine h id call hold.2 ?_
  obtain ⟨_, _, hfinal⟩ := c.exists_finalize id₁
  rw [hfinal] at hcall
  exact (OrdMap.get?_modify_of_ne f hold.1).symm.trans hcall

theorem Unended.failConnection (h : Unended c) (err : Err) : Unended (c.failConnection err) := by
  by_cases hdead : c.dead = true
  · rwa [failConnection_of_dead err hdead]
  · intro id call hhas
    rw [failConnection_of_alive err (Bool.eq_false_iff.2 hdead)] at hhas
    cases hhas

theorem Unended.move {g : Guard} (h : Unended c) (hm : Move g c c') : Unended c' := by
  cases hm with
  | register alive hasType fresh => exact h.register fresh
  | openStream hasType fresh => exact (h.register fresh).congr (fun _ hhas => hhas) rfl
  | @cancel id₁ e frame =>
    have hpush : Unended (c.pushCancel frame) := h.congr (fun _ hhas => hhas) rfl
    exact hpush.settle _ _
  | settle => exact h.settle _ _
  | @failPermit s e p inflight =>
    have hrelease : Unended { c with inflight := inflight.release } :=
      h.congr (fun _ hhas => hhas) rfl
    exact hrelease.settle _ _
  | deliver entry keeps => exact h.update keeps
  | consume extends_ => exact h.update fun call hcall => (extends_ call hcall).keeps
  | jam => exact h.update fun call _ => call.keeps_markClosed
  | keepPermit alive resume =>
    refine h.congr (fun id hhas => ?_) rfl
    rwa [OrdMap.has_iff, OrdMap.keys_modify, ← OrdMap.has_iff] at hhas
  | throw alive =>
    have hover : Unended c.handOver := h.congr (fun _ hhas => hhas) rfl
    exact hover.failConnection _
  | die => exact h.failConnection _
  | acquire | dropPermit | enqueue | slotPush | slotDrop | takeFailed | write | gate | drain
  | destroy | refuse | spend => exact h.congr (fun _ hhas => hhas) rfl

theorem unended_of_run {as : List Action} (h : (connection cfg).Run (init cfg) as c) : Unended c :=
  invariant_of_run (allowed_of_run h) Unended.new
    (fun c a hu => by cases a <;> exact hu.congr (fun _ hhas => hhas) rfl) fun _ hu hm => hu.move hm

/-! ### Exactly once -/

/-- A request is pending while it is unsettled, and was settled once otherwise. -/
structure SettledOnce (c : Conn cfg) (id : ℤ) : Prop where
  pending_iff : ∀ call, c.calls.get? id = some call →
    (c.pending.has id = true ↔ call.settled = false)
  settlements_eq : c.settlements id = ((c.calls.get? id).any Call.settled).toNat

theorem SettledOnce.move {id : ℤ} (h : SettledOnce c id) (hm : RequestMove c c' id) :
    SettledOnce c' id := by
  obtain ⟨hpending, hset⟩ := h
  -- what the move does to this one request
  cases hm with
  | same pending calls settlements =>
    exact ⟨fun call hcall => pending ▸ hpending call (calls ▸ hcall),
      by rw [settlements, hset, calls]⟩
  | start new pending calls fresh settlements =>
    refine ⟨fun call hcall => ?_, ?_⟩
    · cases calls.symm.trans hcall
      exact iff_of_true pending fresh
    · rw [settlements, hset, new, calls, Option.any_some, fresh, Option.any_none]
  | deliver pending pending' calls calls' settled settlements =>
    refine ⟨fun call hcall => ?_, ?_⟩
    · cases calls'.symm.trans hcall
      exact iff_of_true pending' (settled.trans ((hpending _ calls).1 pending))
    · rw [settlements, hset, calls, calls', Option.any_some, Option.any_some, settled]
  | consume pending calls calls' extends_ settlements =>
    refine ⟨fun call hcall => ?_, ?_⟩
    · cases calls'.symm.trans hcall
      rw [pending, extends_.settled]
      exact hpending _ calls
    · rw [settlements, hset, calls, calls', Option.any_some, Option.any_some, extends_.settled]
  | settle pending pending' calls calls' ends settlements =>
    refine ⟨fun call hcall => ?_, ?_⟩
    · cases calls'.symm.trans hcall
      rw [pending', ends.settled]
      exact iff_of_false Bool.false_ne_true Bool.noConfusion
    · rw [settlements, hset, calls, calls', Option.any_some, Option.any_some, ends.settled,
        (hpending _ calls).1 pending]
      rfl

/-- Once a request is settled, its caller sees no more than what is buffered. -/
theorem RequestMove.extends_of_gone {id : ℤ} {call : Call} (hm : RequestMove c c' id)
    (hgone : c.pending.has id = false) (hcall : c.calls.get? id = some call) :
    c'.pending.has id = false ∧ ∃ call', c'.calls.get? id = some call' ∧ call.Extends call' := by
  cases hm with
  | same pending calls => exact ⟨pending.trans hgone, call, calls.trans hcall, .refl call⟩
  | start new => cases hcall.symm.trans new
  | consume pending calls calls' extends_ =>
    cases calls.symm.trans hcall
    exact ⟨pending.trans hgone, _, calls', extends_⟩
  | deliver pending | settle pending => cases hgone.symm.trans pending

/-- What was pending at the death has failed with its cause. -/
structure Died (c : Conn cfg) (cause : Err) (ids : List ℤ) : Prop where
  dead : c.dead = true
  deathCause : c.deathCause = some cause
  failed : ∀ id ∈ ids, c.pending.has id = false ∧
    ∃ call, c.calls.get? id = some call ∧ call.FailedWith cause

theorem Died.move {cause : Err} {ids : List ℤ} (h : Died c cause ids)
    (hreq : ∀ id, RequestMove c c' id) (hdead : c'.dead = true)
    (hcause : c'.deathCause = c.deathCause) : Died c' cause ids where
  dead := hdead
  deathCause := hcause.trans h.deathCause
  failed id hid := by
    obtain ⟨hgone, call, hcall, hfailed⟩ := h.failed id hid
    obtain ⟨hgone', call', hcall', hext⟩ := (hreq id).extends_of_gone hgone hcall
    exact ⟨hgone', call', hcall', hfailed.extends_ hext⟩

/-- A connection dies once, and then nothing is left of what was pending. -/
def Deaths (c : Conn cfg) : Prop :=
  c.dead = false ∧ c.deaths = [] ∨ ∃ cause ids, c.deaths = [(cause, ids)] ∧ Died c cause ids

/-- What the settling of requests keeps. -/
structure Settling (c : Conn cfg) : Prop where
  once : ∀ id, SettledOnce c id
  deaths : Deaths c

theorem Settling.new : Settling (Conn.new cfg) where
  once _ := ⟨fun _ h => (by cases h), rfl⟩
  deaths := .inl ⟨rfl, rfl⟩

theorem Deaths.keep (h : Deaths c) (hreq : ∀ id, RequestMove c c' id) (hdead : c'.dead = c.dead)
    (hcause : c'.deathCause = c.deathCause) (hdeaths : c'.deaths = c.deaths) : Deaths c' := by
  rcases h with ⟨halive, hnil⟩ | ⟨cause, ids, hone, hdied⟩
  · exact .inl ⟨hdead.trans halive, hdeaths.trans hnil⟩
  · exact .inr ⟨cause, ids, hdeaths.trans hone, hdied.move hreq (hdead.trans hdied.dead) hcause⟩

theorem Deaths.failConnection (hc : Consistent c) (h : Settling c) {err : Err}
    (alive : c.dead = false) : Deaths (c.failConnection err) := by
  have hcall := calls_failConnection err alive
  have hnil : c.deaths = [] := by
    rcases h.deaths with ⟨-, hnil⟩ | ⟨_, _, -, hdied⟩
    · exact hnil
    · cases alive.symm.trans hdied.dead
  have hdeaths : (c.failConnection err).deaths = [(err, c.pending.keys)] := by
    have hsettle :
        (c.pending.keys.map fun id => (.settle id : Effect cfg)).flatMap Effect.death = [] :=
      List.flatMap_eq_nil_iff.2 fun effect heffect => by
        obtain ⟨id, -, rfl⟩ := List.mem_map.1 heffect
        rfl
    rw [failConnection_of_alive err alive]
    simp only [deaths, List.flatMap_append, hsettle, List.flatMap_singleton, Effect.death]
    rw [show c.log.flatMap Effect.death = [] from hnil]
    rfl
  refine .inr ⟨err, c.pending.keys, hdeaths, dead_failConnection c err, ?_, fun id hid => ⟨?_, ?_⟩⟩
  · rw [failConnection_of_alive err alive]
  · rw [failConnection_of_alive err alive]; rfl
  · obtain ⟨e, entry⟩ := OrdMap.exists_of_mem_keys hid
    obtain ⟨call, hget, -⟩ := hc.entry_call id e entry
    have hhas := OrdMap.has_iff.2 hid
    rw [hcall, hhas, if_pos rfl, hget]
    have hopen := ((h.once id).pending_iff call hget).1 hhas
    exact ⟨_, rfl, Call.failedWith_reject (Call.terminal_eq_false hopen)⟩

theorem Settling.move {g : Guard} (hmax : 24 ≤ cfg.maxFrameLen) (hc : Consistent c)
    (h : Settling c) (hm : Move g c c') : Settling c' := by
  have hreq : ∀ id, RequestMove c c' id := request_of_move (fun _ => hmax) hc hm
  refine ⟨fun id => (h.once id).move (hreq id), ?_⟩
  have hkeep := h.deaths.keep hreq
  have hsettle : ∀ {c₁ : Conn cfg} {id : ℤ} {f : Call → Call},
      ((c₁.finalize id).settle id f).dead = c₁.dead ∧
        ((c₁.finalize id).settle id f).deathCause = c₁.deathCause ∧
        ((c₁.finalize id).settle id f).deaths = c₁.deaths := fun {c₁ id f} => by
    obtain ⟨_, _, hfinal⟩ := c₁.exists_finalize id
    rw [hfinal]
    exact ⟨rfl, rfl, flatMap_log rfl (by simp [Effect.death])⟩
  cases hm with
  | register | openStream | slotPush | refuse | spend | write =>
    exact hkeep rfl rfl (flatMap_log rfl (by simp [Effect.death]))
  | acquire | deliver | consume | dropPermit | keepPermit | enqueue | slotDrop | takeFailed | gate
  | drain | destroy | jam => exact hkeep rfl rfl rfl
  | @cancel id e frame =>
    have hpush : (c.pushCancel frame).deaths = c.deaths :=
      flatMap_log (List.append_assoc _ _ _) (by simp [Effect.death])
    exact hkeep hsettle.1 hsettle.2.1 (hsettle.2.2.trans hpush)
  | settle | failPermit => exact hkeep hsettle.1 hsettle.2.1 hsettle.2.2
  | throw alive =>
    -- the batch is handed over before the write throws
    have hover : Settling c.handOver := by
      have hreq' : ∀ id, RequestMove c c.handOver id := fun id =>
        .same rfl rfl (settlements_append rfl id (by simp [Effect.settles]))
      exact ⟨fun id => (h.once id).move (hreq' id),
        h.deaths.keep hreq' rfl rfl (flatMap_log rfl (by simp [Effect.death]))⟩
    exact Deaths.failConnection hc.handOver hover alive
  | die alive => exact Deaths.failConnection hc h alive

/-- Whatever happens after a request is gone, its caller sees no more than what is buffered. -/
theorem extends_of_run (hmax : c.dead = false → 24 ≤ cfg.maxFrameLen) (hc : Consistent c) {id : ℤ}
    {call : Call} (hgone : c.pending.has id = false) (hcall : c.calls.get? id = some call)
    {as : List Action} (hrun : (connection cfg).Run c as c') :
    ∃ call', c'.calls.get? id = some call' ∧ call.Extends call' := by
  have hkeeps := keeps_of_run (allowed_of_run hrun) hc
    (I := fun c' => (c'.dead = false → c.dead = false) ∧ c'.pending.has id = false ∧
      ∃ call', c'.calls.get? id = some call' ∧ call.Extends call')
    ⟨fun h => h, hgone, call, hcall, .refl call⟩ (fun c a hi => by cases a <;> exact hi) ?_
  · exact hkeeps.2.2
  rintro c₁ c₂ hc₁ ⟨halive₁, hgone₁, call₁, hcall₁, hext₁⟩ hm
  obtain ⟨hgone₂, call₂, hcall₂, hext₂⟩ :=
    (request_of_move (fun h => hmax (halive₁ h)) hc₁ hm id).extends_of_gone hgone₁ hcall₁
  refine ⟨fun halive => halive₁ ?_, hgone₂, call₂, hcall₂, hext₁.trans hext₂⟩
  exact Bool.eq_false_iff.2 fun hdead => by cases halive.symm.trans (dead_of_move hm hdead)

/-- With cancels that fit, at any time of a run: a request is pending exactly while it is unsettled;
it was settled once if it is settled, and never otherwise; a connection dies once, and everything
pending then has failed with `deathCause`; and whatever happens later, the caller of a settled
request sees no more of it than what is buffered. -/
theorem settled_once (hmax : 24 ≤ cfg.maxFrameLen) {as : List Action}
    (h : (connection cfg).Run (init cfg) as c) :
    (∀ id, c.pending.has id = true → ∃ call, c.calls.get? id = some call) ∧
      (∀ id call, c.calls.get? id = some call →
        (c.pending.has id = true ↔ call.settled = false) ∧
          c.settlements id = call.settled.toNat) ∧
      (c.dead = true → ∃ cause ids, c.deaths = [(cause, ids)] ∧ c.deathCause = some cause ∧
        ∀ id ∈ ids, ∃ call, c.calls.get? id = some call ∧ call.FailedWith cause) ∧
      ∀ id call, c.calls.get? id = some call → call.settled = true →
        ∀ (as' : List Action) (c' : Conn cfg), (connection cfg).Run c as' c' →
          ∃ call', c'.calls.get? id = some call' ∧ call.Extends call' := by
  have hc := consistent_of_run h
  have hsettling : Settling c := invariant_of_run (allowed_of_run h) Settling.new
    (fun c a hs => by
      cases a <;> exact ⟨fun id => ⟨(hs.once id).1, (hs.once id).2⟩,
        hs.deaths.keep (fun id => .same rfl rfl rfl) rfl rfl rfl⟩)
    (Settling.move hmax)
  refine ⟨fun id hid => ?_, fun id call hcall => ⟨(hsettling.once id).pending_iff call hcall, ?_⟩,
    fun hdead => ?_, fun id call hcall hsettled as' c' hrun => ?_⟩
  · obtain ⟨e, entry⟩ := OrdMap.exists_of_mem_keys (OrdMap.has_iff.1 hid)
    obtain ⟨call, hcall, -⟩ := hc.entry_call id e entry
    exact ⟨call, hcall⟩
  · rw [(hsettling.once id).settlements_eq, hcall, Option.any_some]
  · rcases hsettling.deaths with ⟨halive, -⟩ | ⟨cause, ids, hone, hdied⟩
    · cases hdead.symm.trans halive
    · exact ⟨cause, ids, hone, hdied.deathCause, fun id hid => (hdied.failed id hid).2⟩
  · have hgone : c.pending.has id = false := by
      -- a settled request is not pending, and only its consumer changes it from then on
      by_contra hne
      rw [((hsettling.once id).pending_iff call hcall).1 (by simpa using hne)] at hsettled
      cases hsettled
    exact extends_of_run (fun _ => hmax) hc hgone hcall hrun

end Conn

end

namespace Conn

section

attribute [local instance] utf8Codec

/-- A stats request and a read are pending when the socket closes, and fail with one cause. -/
theorem failed_at_death : ∃ c, (connection onePermit).Run (init onePermit)
    (connectActions ++ [.stats .none, .permit 2, readAll, .socketClose]) c ∧
      ∃ cause, c.deaths = [(cause, [2, 3])] ∧ c.deathCause = some cause ∧
        ∀ id ∈ [2, 3], ∃ call, c.calls.get? id = some call ∧ call.FailedWith cause := by
  have hexec : ((connection onePermit).exec (init onePermit)
      (connectActions ++ [.stats .none, .permit 2, readAll, .socketClose])).any (fun c =>
        c.dead && c.deaths.map Prod.snd = [[2, 3]]) = true := by decide +kernel
  obtain ⟨c, hrun, hc⟩ := Machine.exists_run_of_exec hexec
  simp only [Bool.and_eq_true, decide_eq_true_eq] at hc
  obtain ⟨cause, ids, hdeaths, hcause, hfailed⟩ :=
    (settled_once (by decide) hrun).2.2.1 hc.1
  have hids : ids = [2, 3] := by simpa [hdeaths] using hc.2
  exact ⟨c, hrun, cause, hids ▸ hdeaths, hcause, hids ▸ hfailed⟩

end

end Conn

end Tephra
