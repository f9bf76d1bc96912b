import Tephra.Conn.Decompose

/-!
# What a peer can make a connection retain

The decoder of a connection holds what the chunks received so far leave in it, whatever else
happens.  A push that throws keeps the whole buffer, and neither the failed connection nor its
socket stops the next chunk, so a peer that has sent an oversized prefix can go on filling it.

* `decoder_of_run` : the decoder after a run.
* `retained_iff` : when what is retained stays within one incomplete frame.
* `hoards` : a run that goes beyond.
-/

namespace Tephra

open Lib

section

variable [TextCodec] {cfg : Config}

/-- The chunks that were delivered. -/
def received (as : List Action) : List Bytes := as.filterMap Action.chunk?

omit [TextCodec] in
/-- The beginnings of a list are mapped to all beginnings of the result. -/
theorem exists_received_take (as : List Action) (k : ℕ) :
    ∃ as', as' <+: as ∧ received as' = (received as).take k := by
  induction as generalizing k with
  | nil => exact ⟨[], List.prefix_rfl, by simp [received]⟩
  | cons a as ih =>
    rcases hchunk : a.chunk? with _ | chunk
    · obtain ⟨as', hpre, heq⟩ := ih k
      refine ⟨a :: as', (List.prefix_cons_inj a).2 hpre, ?_⟩
      rw [received, List.filterMap_cons_none hchunk, received, List.filterMap_cons_none hchunk]
      exact heq
    · cases k with
      | zero => exact ⟨[], List.nil_prefix, rfl⟩
      | succ k =>
        obtain ⟨as', hpre, heq⟩ := ih k
        refine ⟨a :: as', (List.prefix_cons_inj a).2 hpre, ?_⟩
        rw [received, List.filterMap_cons_some hchunk, received, List.filterMap_cons_some hchunk,
          List.take_succ_cons]
        exact congrArg _ heq

namespace Conn

variable {c c' : Conn cfg}

theorem decoder_of_move {g : Guard} (hm : Move g c c') : c'.decoder = c.decoder := by
  have hfinalize : ∀ (c : Conn cfg) id, (c.finalize id).decoder = c.decoder := fun c id => by
    obtain ⟨_, _, heq⟩ := c.exists_finalize id
    rw [heq]
  have hdeath : ∀ (c : Conn cfg) err, (c.failConnection err).decoder = c.decoder := fun c err => by
    rcases Bool.eq_false_or_eq_true c.dead with hdead | halive
    · rw [failConnection_of_dead err hdead]
    · rw [failConnection_of_alive err halive]
  cases hm with
  | cancel | settle | failPermit => exact hfinalize _ _
  | throw | die => exact hdeath _ _
  | register | acquire | openStream | deliver | consume | dropPermit | keepPermit | enqueue
  | slotPush | slotDrop | takeFailed | write | gate | drain | destroy | refuse | spend | jam => rfl

theorem decoder_of_step {a : Action} (hc : Consistent c) (hstep : c.step a = some c') :
    c'.decoder = (c.receive a).decoder :=
  keeps_of_moves (moves_of_step hc (.all c a) hstep) (hc.receive a)
    (I := fun c' => c'.decoder = (c.receive a).decoder) rfl
    fun _ heq hm => (decoder_of_move hm).trans heq

/-- The decoder after a run has taken in the chunks delivered, and nothing else. -/
theorem decoder_of_run {as : List Action} (h : (connection cfg).Run (init cfg) as c) :
    c.decoder = (FrameDecoder.new cfg.maxFrameLen).pushAll (received as) := by
  refine (h.history (I := fun as c => Consistent c ∧
    c.decoder = (FrameDecoder.new cfg.maxFrameLen).pushAll (received as))
    ⟨.init cfg, rfl⟩ ?_).2
  rintro as c a c' ⟨hc, hdecoder⟩ - hstep
  refine ⟨hc.step hstep, ?_⟩
  rw [decoder_of_step hc hstep, received, List.filterMap_append, ← received]
  cases a with
  | data chunk =>
    simp only [receive, hdecoder, FrameDecoder.pushAll, List.filterMap_cons, Action.chunk?,
      List.filterMap_nil, List.foldl_append, List.foldl_cons, List.foldl_nil]
  | append req signal | stats signal | read req signal | subscribe req signal | close
  | closeStream id | next id | collect id | abort id reason | socketError err | socketClose
  | drained | permit id | slot id | sendFailed id | writer outcome | drainResumed outcome
  | drainRejected | abortMicrotask id | collectStep id =>
    simp only [receive, hdecoder, List.filterMap_cons, Action.chunk?, List.filterMap_nil,
      List.append_nil]

/-- At every point of a run the decoder retains at most a prefix and a body short of one byte,
exactly when the bytes received have no oversized prefix, or no more than that arrives from the end
of the last frame that was complete before the offending chunk. -/
theorem retained_iff {as : List Action} (h : (connection cfg).Run (init cfg) as c) :
    (∀ (as' : List Action) (c' : Conn cfg), as' <+: as → (connection cfg).Run (init cfg) as' c' →
        c'.decoder.buffer.length ≤ cfg.maxFrameLen + 3) ↔
      (hasOversized cfg.maxFrameLen (received as).flatten →
        (received as).flatten.length ≤
          lastFrameEnd cfg.maxFrameLen (received as) + (cfg.maxFrameLen + 3)) := by
  rw [← retained_iff_pushAll]
  constructor
  · intro hall k
    obtain ⟨as', ⟨rest, rfl⟩, heq⟩ := exists_received_take as k
    obtain ⟨c', hrun, -⟩ := h.exists_of_append
    rw [← heq, ← decoder_of_run hrun]
    exact hall as' c' (List.prefix_append _ _) hrun
  · intro hall as' c' hpre hrun
    have hprefix : received as' <+: received as := hpre.filterMap _
    rw [decoder_of_run hrun, List.prefix_iff_eq_take.1 hprefix]
    exact hall _

end Conn

end

namespace Conn

section

attribute [local instance] utf8Codec

/-- The prefix of a frame of 1024 bytes, and then 1000 more bytes. -/
def hoardActions : List Action :=
  connectActions ++ [.data [0, 0, 4, 0], .data (List.replicate 1000 0)]

/-- The oversized prefix fails the connection, and the chunk after it is retained on top. -/
theorem hoards : ∃ c, (connection onePermit).Run (init onePermit) hoardActions c ∧ c.dead = true ∧
    ¬ c.decoder.buffer.length ≤ onePermit.maxFrameLen + 3 := by
  have hexec : ((connection onePermit).exec (init onePermit) hoardActions).any (fun c =>
      c.dead ∧ ¬ c.decoder.buffer.length ≤ onePermit.maxFrameLen + 3) = true := by decide +kernel
  obtain ⟨c, hrun, hc⟩ := Machine.exists_run_of_exec hexec
  exact ⟨c, hrun, of_decide_eq_true hc⟩

/-- The hello ack in pieces: never more than a frame short of one byte is retained. -/
theorem retained_pieces : ∃ c, (connection onePermit).Run (init onePermit)
    [.data [0, 0], .data [0, 6, 8, 1, 66], .data [2, 8, 1, 0]] c ∧
      ∀ (as' : List Action) (c' : Conn onePermit),
        as' <+: [.data [0, 0], .data [0, 6, 8, 1, 66], .data [2, 8, 1, 0]] →
          (connection onePermit).Run (init onePermit) as' c' →
            c'.decoder.buffer.length ≤ onePermit.maxFrameLen + 3 := by
  have hexec : ((connection onePermit).exec (init onePermit)
      [.data [0, 0], .data [0, 6, 8, 1, 66], .data [2, 8, 1, 0]]).any (fun _ => true) = true := by
    decide +kernel
  obtain ⟨c, hrun, -⟩ := Machine.exists_run_of_exec hexec
  exact ⟨c, hrun, (retained_iff hrun).2 (by decide +kernel)⟩

end

end Conn

end Tephra
