import Tephra.Conn.Log

/-!
# The writer loop

The writer takes what is in the two queues as one batch, cancels first, and sleeps at its gate when
there is nothing.

* `Wire.Fifo` : nothing is lost, repeated or reordered within a queue, and a write is a sequence of
  whole frames; everything that can happen to the frames keeps this.
* `Asleep` : the writer sleeps only while both queues are empty.
* `writer_loop` : both hold after every run, and the bytes written are read back as the requests.
-/

namespace Tephra

open Lib

section

variable [TextCodec] {cfg : Config}

/-- Whether a frame is a cancel. -/
def Frame.isCancel (frame : Frame cfg) : Bool :=
  match frame.request.kind with
  | .cancel _ => true
  | _ => false

theorem Frame.isCancel_of_kind {frame : Frame cfg} {req : WireCancelRequest}
    (h : frame.request.kind = .cancel req) : frame.isCancel = true := by
  rw [isCancel, h]

theorem Frame.not_isCancel {frame : Frame cfg} (h : ∀ req, frame.request.kind ≠ .cancel req) :
    frame.isCancel = false := by
  unfold isCancel
  split
  · rename_i req hkind
    exact absurd hkind (h req)
  · rfl

theorem concatFrames_eq (frames : List (Frame cfg)) :
    Conn.concatFrames frames = (frames.map Frame.bytes).flatten := by
  have hfold : ∀ (frames : List (Frame cfg)) (out : Bytes),
      frames.foldl (fun out frame => out ++ frame.bytes) out =
        out ++ (frames.map Frame.bytes).flatten := by
    intro frames
    induction frames with
    | nil => simp
    | cons frame frames ih =>
      intro out
      rw [List.foldl_cons, ih, List.map_cons, List.flatten_cons, List.append_assoc]
  unfold Conn.concatFrames
  split
  · simp
  · rw [hfold, List.nil_append]

/-! ### Order -/

namespace Wire

/-- Each queue is first in, first out, and every write is a sequence of whole frames. -/
structure Fifo (w : Wire cfg) : Prop where
  outbound : w.pushedOutbound = (w.written.filter fun frame => !frame.isCancel) ++ w.outbound
  priority : w.pushedPriority = w.written.filter Frame.isCancel ++ w.priority
  /-- The outbound queue has no cancels. -/
  outbound_request : ∀ frame ∈ w.outbound, frame.isCancel = false
  /-- The priority queue has cancels only. -/
  priority_cancel : ∀ frame ∈ w.priority, frame.isCancel = true
  aligned : ∀ p ∈ w.writes, p.2 = (p.1.map Frame.bytes).flatten

namespace Fifo

variable {w : Wire cfg} {frame : Frame cfg}

theorem pushOutbound (h : Fifo w) (hframe : frame.isCancel = false) :
    Fifo (w.pushOutbound frame) where
  outbound := by
    rw [show (w.pushOutbound frame).pushedOutbound = w.pushedOutbound ++ [frame] from rfl,
      h.outbound, List.append_assoc]
    rfl
  priority := h.priority
  outbound_request f hf := by
    rcases List.mem_append.1 hf with hf | hf
    · exact h.outbound_request f hf
    · rwa [List.mem_singleton.1 hf]
  priority_cancel := h.priority_cancel
  aligned := h.aligned

theorem pushPriority (h : Fifo w) (hframe : frame.isCancel = true) :
    Fifo (w.pushPriority frame) where
  outbound := h.outbound
  priority := by
    rw [show (w.pushPriority frame).pushedPriority = w.pushedPriority ++ [frame] from rfl,
      h.priority, List.append_assoc]
    rfl
  outbound_request := h.outbound_request
  priority_cancel f hf := by
    rcases List.mem_append.1 hf with hf | hf
    · exact h.priority_cancel f hf
    · rwa [List.mem_singleton.1 hf]
  aligned := h.aligned

theorem write (h : Fifo w) : Fifo w.write where
  outbound := by
    have hpriority : (w.priority.filter fun frame => !frame.isCancel) = [] :=
      List.filter_eq_nil_iff.2 fun f hf => by simp [h.priority_cancel f hf]
    have houtbound : (w.outbound.filter fun frame => !frame.isCancel) = w.outbound :=
      List.filter_eq_self.2 fun f hf => by simp [h.outbound_request f hf]
    rw [written_write, List.filter_append, List.filter_append, hpriority, houtbound]
    simpa [Wire.write] using h.outbound
  priority := by
    have hpriority : w.priority.filter Frame.isCancel = w.priority :=
      List.filter_eq_self.2 h.priority_cancel
    have houtbound : w.outbound.filter Frame.isCancel = [] :=
      List.filter_eq_nil_iff.2 fun f hf => by simp [h.outbound_request f hf]
    rw [written_write, List.filter_append, List.filter_append, hpriority, houtbound]
    simpa [Wire.write] using h.priority
  outbound_request _ hf := by cases hf
  priority_cancel _ hf := by cases hf
  aligned p hp := by
    rcases List.mem_append.1 hp with hp | hp
    · exact h.aligned p hp
    · rw [List.mem_singleton.1 hp]
      exact concatFrames_eq _

theorem bytes_eq (h : Fifo w) : w.bytes = (w.written.map Frame.bytes).flatten := by
  have haligned := h.aligned
  rw [bytes, written]
  generalize w.writes = writes at haligned ⊢
  induction writes with
  | nil => rfl
  | cons p writes ih =>
    rw [List.flatMap_cons, List.flatMap_cons, List.map_append, List.flatten_append,
      haligned p List.mem_cons_self, ih fun q hq => haligned q (List.mem_cons_of_mem _ hq)]

end Fifo

/-- Written frames are the encoded requests, whatever chunks the bytes arrive in. -/
theorem Fifo.feed {w : Wire cfg} (h : Fifo w) (hmax : cfg.maxFrameLen < 2 ^ 32)
    {chunks : List Bytes} (hchunks : chunks.flatten = w.bytes) :
    (FrameDecoder.new cfg.maxFrameLen).feed chunks =
      (w.written.map fun frame => encodeRequest frame.request, none) := by
  refine FrameDecoder.feed_writeFrames hmax ?_ (hchunks.trans h.bytes_eq)
  rw [List.forall₂_map_left_iff, List.forall₂_map_right_iff, List.forall₂_same]
  exact fun frame _ => frame.encoded

end Wire

/-! ### The gate -/

namespace Conn

variable {c c' : Conn cfg}

/-- The writer sleeps only while both queues are empty. -/
def Asleep (c : Conn cfg) : Prop :=
  c.writerGate.waiter = true → c.priority = [] ∧ c.outbound = []

theorem Asleep.of_signal (h : c.writerGate.waiter = false) : Asleep c := fun hw =>
  absurd (h.symm.trans hw) Bool.noConfusion

theorem Asleep.congr (h : Asleep c) (hgate : c'.writerGate = c.writerGate)
    (hpriority : c'.priority = c.priority) (hout : c'.outbound = c.outbound) : Asleep c' := by
  unfold Asleep
  rwa [hgate, hpriority, hout]

theorem Asleep.finalize (h : Asleep c) (id : ℤ) : Asleep (c.finalize id) := by
  obtain ⟨_, _, heq⟩ := c.exists_finalize id
  exact heq ▸ h.congr rfl rfl rfl

theorem Asleep.failConnection (h : Asleep c) (err : Err) : Asleep (c.failConnection err) := by
  rcases Bool.eq_false_or_eq_true c.dead with hdead | halive
  · rwa [failConnection_of_dead err hdead]
  · rw [failConnection_of_alive err halive]
    exact .of_signal (Gate.waiter_signal _)

theorem Asleep.move {g : Guard} (h : Asleep c) (hm : Move g c c') : Asleep c' := by
  cases hm with
  | register | acquire | openStream | deliver | consume | dropPermit | keepPermit | enqueue
  | slotDrop | takeFailed | drain | destroy | refuse | spend | jam => exact h.congr rfl rfl rfl
  | settle => exact (h.finalize _).congr rfl rfl rfl
  | @failPermit s e p inflight =>
    have hc : Asleep { c with inflight := inflight.release } := h.congr rfl rfl rfl
    exact (hc.finalize _).congr rfl rfl rfl
  | @cancel id e frame =>
    have hc : Asleep (c.pushCancel frame) := .of_signal (Gate.waiter_signal _)
    exact (hc.finalize _).congr rfl rfl rfl
  | slotPush => exact .of_signal (Gate.waiter_signal _)
  | write => exact fun _ => ⟨rfl, rfl⟩
  | gate waiter => exact fun hw => (waiter hw).elim h id
  | throw =>
    have hc : Asleep c.handOver := fun _ => ⟨rfl, rfl⟩
    exact hc.failConnection _
  | die => exact h.failConnection _

/-! ### Every run -/

/-- What the writer loop keeps. -/
structure Writing (c : Conn cfg) : Prop where
  fifo : c.wire.Fifo
  asleep : Asleep c
  slots : SlotsRequest c

theorem Writing.new : Writing (Conn.new cfg) where
  fifo :=
    { outbound := rfl
      priority := rfl
      outbound_request _ hf := by cases hf
      priority_cancel _ hf := by cases hf
      aligned _ hp := by cases hp }
  asleep _ := ⟨rfl, rfl⟩
  slots _ hp := by cases hp

theorem Writing.move {g : Guard} (h : Writing c) (hm : Move g c c') : Writing c' where
  fifo := by
    cases wire_of_move hm with
    | same wire => exact wire ▸ h.fifo
    | outbound alive slot wire =>
      exact wire ▸ h.fifo.pushOutbound (Frame.not_isCancel (h.slots _ slot))
    | priority alive entry gone request counter slots parked wire =>
      exact wire ▸ h.fifo.pushPriority
        (Frame.isCancel_of_kind (congrArg WireRequest.kind request))
    | write alive wire => exact wire ▸ h.fifo.write
  asleep := h.asleep.move hm
  slots := h.slots.move hm

theorem writing_of_run {as : List Action} (h : (connection cfg).Run (init cfg) as c) : Writing c :=
  invariant_of_run (allowed_of_run h) Writing.new
    (fun c a hw => by cases a <;> exact ⟨hw.fifo, hw.asleep, hw.slots⟩)
    fun _ hw hm => hw.move hm

theorem writes_of_dead {as : List Action} (h : (connection cfg).Run c as c') (hc : Consistent c)
    (hdead : c.dead = true) : c'.wire.writes = c.wire.writes := by
  have hkeeps : c'.dead = true ∧ c'.wire.writes = c.wire.writes := by
    refine keeps_of_run (allowed_of_run h) hc (I := fun c' => c'.dead = true ∧
      c'.wire.writes = c.wire.writes) ⟨hdead, rfl⟩ (fun c a hw => by cases a <;> exact hw) ?_
    rintro c₁ c₂ - ⟨hdead₁, heq⟩ hm
    exact ⟨dead_of_move hm hdead₁, by rw [(wire_of_move hm).of_dead hdead₁, heq]⟩
  exact hkeeps.2

/-- **The writer loop**: every write is a sequence of whole frames; each queue is written in order,
nothing twice and nothing left out; the writer sleeps only while both queues are empty; a dead
connection writes nothing more; and the bytes written are read back as the encoded requests. -/
theorem writer_loop {as : List Action} (h : (connection cfg).Run (init cfg) as c) :
    (∀ p ∈ c.wire.writes, p.2 = (p.1.map Frame.bytes).flatten) ∧
      c.wire.pushedOutbound =
        (c.wire.written.filter fun frame => !frame.isCancel) ++ c.outbound ∧
      c.wire.pushedPriority = c.wire.written.filter Frame.isCancel ++ c.priority ∧
      (c.writerGate.waiter = true → c.priority = [] ∧ c.outbound = []) ∧
      (c.dead = true → ∀ (as' : List Action) (c' : Conn cfg),
        (connection cfg).Run c as' c' → c'.wire.writes = c.wire.writes) ∧
      (cfg.maxFrameLen < 2 ^ 32 → ∀ chunks : List Bytes, chunks.flatten = c.wire.bytes →
        (FrameDecoder.new cfg.maxFrameLen).feed chunks =
          (c.wire.written.map fun frame => encodeRequest frame.request, none)) := by
  have hwriting := writing_of_run h
  refine ⟨hwriting.fifo.aligned, hwriting.fifo.outbound, hwriting.fifo.priority, hwriting.asleep,
    fun hdead as' c' h' => ?_, fun hmax chunks => hwriting.fifo.feed hmax⟩
  exact writes_of_dead h' (consistent_of_run h) hdead

end Conn

end

namespace Conn

section

attribute [local instance] utf8Codec

/-- The hello goes out in one write, and the server reads it back from any chunks. -/
theorem hello_written : ∃ c, (connection onePermit).Run (init onePermit)
    [.permit 1, .slot 1, .writer (.returned true)] c ∧ c.wire.writes.length = 1 ∧
      ∀ chunks : List Bytes, chunks.flatten = c.wire.bytes →
        (FrameDecoder.new onePermit.maxFrameLen).feed chunks =
          (c.wire.written.map fun frame => encodeRequest frame.request, none) := by
  have hexec : ((connection onePermit).exec (init onePermit)
      [.permit 1, .slot 1, .writer (.returned true)]).any
        (fun c => c.wire.writes.length = 1) = true := by decide +kernel
  obtain ⟨c, hrun, hc⟩ := Machine.exists_run_of_exec hexec
  exact ⟨c, hrun, of_decide_eq_true hc, (writer_loop hrun).2.2.2.2.2 (by decide)⟩

end

end Conn

end Tephra
