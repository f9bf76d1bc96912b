import Tephra.Framing

/-!
# Frames in pieces

The outputs of `writeFrame`, one after the other, are cut into chunks and pushed into a fresh
`FrameDecoder`.

* `parse_take_writeFrames` : what the first bytes of such a stream split into.
* `FrameDecoder.push_writeFrames` : what one push yields and keeps.
* `framing_round_trip` : what all pushes yield, and that nothing is left.
-/

namespace Tephra

open Lib

/-- How many of some frames lie entirely within the first `n` bytes of their concatenation. -/
def completeFrames : List Bytes → ℕ → ℕ
  | [], _ => 0
  | frame :: written, n =>
    if frame.length ≤ n then completeFrames written (n - frame.length) + 1 else 0

/-- The bytes of the first `count` frames. -/
def framesEnd (written : List Bytes) (count : ℕ) : ℕ := (written.take count).flatten.length

theorem lt_completeFrames_iff {written : List Bytes} {i n : ℕ} :
    i < completeFrames written n ↔ i < written.length ∧ framesEnd written (i + 1) ≤ n := by
  induction written generalizing i n with
  | nil => simp [completeFrames]
  | cons frame written ih =>
    have hend : framesEnd (frame :: written) (i + 1) = frame.length + framesEnd written i := by
      simp [framesEnd]
    rw [completeFrames, hend, List.length_cons]
    split_ifs with h
    · cases i with
      | zero => simp [framesEnd, h]
      | succ i =>
        rw [Nat.add_lt_add_iff_right, ih]
        omega
    · omega

theorem completeFrames_le (written : List Bytes) (n : ℕ) :
    completeFrames written n ≤ written.length := by
  by_contra h
  exact absurd (lt_completeFrames_iff.1 (Nat.not_le.1 h)).1 (lt_irrefl _)

theorem completeFrames_length (written : List Bytes) :
    completeFrames written written.flatten.length = written.length := by
  induction written with
  | nil => rfl
  | cons frame written ih =>
    rw [completeFrames, List.flatten_cons, List.length_append, if_pos (Nat.le_add_right _ _),
      Nat.add_sub_cancel_left, ih, List.length_cons]

/-- **The first bytes of a stream of frames** split into the bodies of the complete frames, and
what is left is the beginning of the next. -/
theorem parse_take_writeFrames {maxFrameLen : ℕ} (hmax : maxFrameLen < 2 ^ 32)
    {bodies written : List Bytes}
    (h : List.Forall₂ (fun body bytes => writeFrame body maxFrameLen = .ok bytes) bodies written)
    (n : ℕ) :
    ((frames maxFrameLen).parse (written.flatten.take n)).bad = false ∧
      ((frames maxFrameLen).parse (written.flatten.take n)).values =
        bodies.take (completeFrames written n) ∧
      ((frames maxFrameLen).parse (written.flatten.take n)).rest =
        (written.flatten.take n).drop (framesEnd written (completeFrames written n)) := by
  -- on the frames; the cut moves with what is left of it
  induction h generalizing n with
  | nil =>
    have hnil : (frames maxFrameLen).parse [] = ⟨[], [], false⟩ := Splitter.parse_more rfl
    rw [List.flatten_nil, List.take_nil, hnil]
    exact ⟨rfl, rfl, rfl⟩
  | @cons body bytes bodies written hb _ ih =>
    have hbody : body.length < 2 ^ 32 := (writeFrame_eq_ok hb).1.trans_lt hmax
    have hhead := frameHead_writeFrame hb hbody written.flatten
    rw [List.flatten_cons, completeFrames]
    by_cases hn : bytes.length ≤ n
    · -- the first frame is before the cut
      obtain ⟨hbad, hvalues, hrest⟩ := ih (n - bytes.length)
      have htake : (bytes ++ written.flatten).take n =
          bytes ++ written.flatten.take (n - bytes.length) := by
        rw [List.take_append, List.take_of_length_le hn]
      have hend : framesEnd (bytes :: written) (completeFrames written (n - bytes.length) + 1) =
          bytes.length + framesEnd written (completeFrames written (n - bytes.length)) := by
        simp [framesEnd]
      have hparse := Splitter.parse_item (S := frames maxFrameLen)
        (frameHead_writeFrame hb hbody (written.flatten.take (n - bytes.length)))
      rw [List.drop_left' rfl] at hparse
      rw [htake, hparse, if_pos hn, hend]
      refine ⟨hbad, ?_, ?_⟩
      · simpa [Parsed.values, Parsed.cons] using hvalues
      · rw [← List.drop_drop, List.drop_left' rfl]
        exact hrest
    · -- the first frame is cut
      have hmore : (frames maxFrameLen).head ((bytes ++ written.flatten).take n) = .more :=
        Splitter.head_take_of_lt hhead (Nat.not_le.1 hn)
      rw [Splitter.parse_more hmore, if_neg hn]
      exact ⟨rfl, rfl, rfl⟩

namespace FrameDecoder

theorem buffer_pushAll_new {maxFrameLen : ℕ} {chunks : List Bytes}
    (h : ((frames maxFrameLen).parse chunks.flatten).bad = false) :
    (new maxFrameLen).pushAll chunks =
      { buffer := ((frames maxFrameLen).parse chunks.flatten).rest
        maxFrameLen := maxFrameLen } := by
  have hkeep : (frames maxFrameLen).keep [] chunks =
      ((frames maxFrameLen).parse chunks.flatten).rest :=
    Splitter.keep_of_not_bad chunks rfl h
  rw [pushAll_eq, FrameDecoder.mk.injEq]
  exact ⟨hkeep, rfl⟩

theorem push_pushAll_new {maxFrameLen : ℕ} {chunks : List Bytes} {chunk : Bytes}
    (h : ((frames maxFrameLen).parse (chunks.flatten ++ chunk)).bad = false) :
    ∃ yielded, (((new maxFrameLen).pushAll chunks).push chunk).2 = .ok yielded ∧
      ((frames maxFrameLen).parse (chunks.flatten ++ chunk)).values =
        ((frames maxFrameLen).parse chunks.flatten).values ++ yielded := by
  have hbefore := Splitter.not_bad_of_append h
  have happend := Splitter.parse_append chunk hbefore
  have hbad : ((frames maxFrameLen).parse
      (((frames maxFrameLen).parse chunks.flatten).rest ++ chunk)).bad = false := by
    rwa [happend] at h
  rw [buffer_pushAll_new hbefore]
  refine ⟨_, congrArg Prod.snd (push_of_not_bad hbad), ?_⟩
  rw [happend]
  simp only [Parsed.values, Parsed.prepend, List.map_append]

/-- One push, in a stream of written frames. -/
theorem push_writeFrames {maxFrameLen : ℕ} (hmax : maxFrameLen < 2 ^ 32)
    {bodies written before : List Bytes} {chunk rest : Bytes}
    (h : List.Forall₂ (fun body bytes => writeFrame body maxFrameLen = .ok bytes) bodies written)
    (hstream : before.flatten ++ chunk ++ rest = written.flatten) :
    let decoder := (new maxFrameLen).pushAll before
    let fed := before.flatten ++ chunk
    (decoder.push chunk).2 = .ok ((bodies.take (completeFrames written fed.length)).drop
        (completeFrames written before.flatten.length)) ∧
      (decoder.push chunk).1.buffer =
        fed.drop (framesEnd written (completeFrames written fed.length)) := by
  intro decoder fed
  have hfed : fed = written.flatten.take fed.length := by rw [← hstream, List.take_left' rfl]
  have hbefore : before.flatten = written.flatten.take before.flatten.length := by
    rw [← hstream, List.append_assoc, List.take_left' rfl]
  obtain ⟨hbad, hvalues, hrest⟩ := parse_take_writeFrames hmax h fed.length
  obtain ⟨-, hvalues', -⟩ := parse_take_writeFrames hmax h before.flatten.length
  rw [← hfed] at hbad hvalues hrest
  rw [← hbefore] at hvalues'
  constructor
  · obtain ⟨yielded, hpush, happend⟩ := push_pushAll_new hbad
    rw [hvalues, hvalues'] at happend
    have hcount : completeFrames written before.flatten.length ≤ bodies.length :=
      h.length_eq ▸ completeFrames_le _ _
    rw [hpush, happend, List.drop_left' (by rw [List.length_take]; omega)]
  · have hnext : (decoder.push chunk).1 = (new maxFrameLen).pushAll (before ++ [chunk]) := by
      simp only [decoder, pushAll, List.foldl_append, List.foldl_cons, List.foldl_nil]
    have hflat : (before ++ [chunk]).flatten = fed := by simp [fed]
    rw [hnext, buffer_pushAll_new (by rw [hflat]; exact hbad), hflat, hrest]

theorem hasPartial_writeFrames {maxFrameLen : ℕ} (hmax : maxFrameLen < 2 ^ 32)
    {bodies written chunks : List Bytes}
    (h : List.Forall₂ (fun body bytes => writeFrame body maxFrameLen = .ok bytes) bodies written)
    (hchunks : chunks.flatten = written.flatten) :
    ((new maxFrameLen).pushAll chunks).hasPartial = false := by
  obtain ⟨hbad, -, hrest⟩ := parse_take_writeFrames hmax h written.flatten.length
  rw [List.take_length, ← hchunks] at hbad hrest
  have hall : framesEnd written (completeFrames written written.flatten.length) =
      chunks.flatten.length := by
    rw [completeFrames_length, framesEnd, List.take_length, hchunks]
  rw [hchunks, hall, hchunks] at hrest
  rw [buffer_pushAll_new hbad, hasPartial, hchunks, hrest]
  simp

end FrameDecoder

theorem exists_writeFrames {maxFrameLen : ℕ} {bodies : List Bytes}
    (h : ∀ body ∈ bodies, body.length ≤ maxFrameLen) : ∃ written,
      List.Forall₂ (fun body bytes => writeFrame body maxFrameLen = .ok bytes) bodies written := by
  induction bodies with
  | nil => exact ⟨[], .nil⟩
  | cons body bodies ih =>
    obtain ⟨bytes, hb⟩ := exists_writeFrame (h body List.mem_cons_self)
    obtain ⟨written, hw⟩ := ih fun b hb => h b (List.mem_cons_of_mem _ hb)
    exact ⟨bytes :: written, .cons hb hw⟩

/-- **Framing round trip under any chunking**: the frames of any bodies, cut into any chunks.  No
push throws; over all pushes the bodies come out in order; each push yields the bodies of the frames
whose last byte it brought, and keeps what it has of the next frame; and nothing is left at the
end. -/
theorem framing_round_trip (maxFrameLen : ℕ) (hmax : maxFrameLen < 2 ^ 32) (bodies : List Bytes)
    (hbodies : ∀ body ∈ bodies, body.length ≤ maxFrameLen) :
    ∃ written,
      List.Forall₂ (fun body bytes => writeFrame body maxFrameLen = .ok bytes) bodies written ∧
      ∀ chunks : List Bytes, chunks.flatten = written.flatten →
        (FrameDecoder.new maxFrameLen).feed chunks = (bodies, none) ∧
        (∀ before chunk after, chunks = before ++ chunk :: after →
          let decoder := (FrameDecoder.new maxFrameLen).pushAll before
          let fed := before.flatten ++ chunk
          (decoder.push chunk).2 = .ok ((bodies.take (completeFrames written fed.length)).drop
              (completeFrames written before.flatten.length)) ∧
            (decoder.push chunk).1.buffer =
              fed.drop (framesEnd written (completeFrames written fed.length))) ∧
        ((FrameDecoder.new maxFrameLen).pushAll chunks).hasPartial = false := by
  obtain ⟨written, hwritten⟩ := exists_writeFrames hbodies
  refine ⟨written, hwritten, fun chunks hchunks =>
    ⟨FrameDecoder.feed_writeFrames hmax hwritten hchunks, ?_,
      FrameDecoder.hasPartial_writeFrames hmax hwritten hchunks⟩⟩
  intro before chunk after hsplit
  have hstream : before.flatten ++ chunk ++ after.flatten = written.flatten := by
    rw [← hchunks, hsplit, List.flatten_append, List.flatten_cons, List.append_assoc]
  exact FrameDecoder.push_writeFrames hmax hwritten hstream

/-- An empty body and a body of one byte, cut inside a prefix and between a prefix and its body. -/
theorem framing_round_trip_cut :
    (FrameDecoder.new 4).feed [[0, 0], [0, 0, 0, 0, 0, 1], [], [7]] = ([[], [7]], none) := by
  obtain ⟨written, hwritten, hchunks⟩ :=
    framing_round_trip 4 (by decide) [[], [7]] (by decide)
  cases hwritten with
  | cons hempty hwritten =>
    cases hwritten with
    | cons hone hwritten =>
      cases hwritten
      cases hempty
      cases hone
      exact (hchunks [[0, 0], [0, 0, 0, 0, 0, 1], [], [7]] rfl).1

end Tephra
