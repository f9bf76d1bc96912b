import Tephra.Framing
import Tephra.Options

/-!
# The length prefix

The prefix of a frame has 32 bits, and nothing keeps `maxFrameLen` below `2 ^ 32`.

* `push_writeFrame` : what a decoder makes of a frame whose length fits its prefix.
* `prefix_iff` : the prefix is the length of the body, and the decoder stays aligned, exactly when
  the body is shorter than `2 ^ 32` bytes.
-/

namespace Tephra

open Lib

/-- A decoder yields the body of a frame, and is as new. -/
theorem push_writeFrame {body frame : Bytes} {maxFrameLen : ℕ}
    (h : writeFrame body maxFrameLen = .ok frame) (hbody : body.length < 2 ^ 32) :
    (FrameDecoder.new maxFrameLen).push frame = (FrameDecoder.new maxFrameLen, .ok [body]) := by
  have hhead := frameHead_writeFrame h hbody []
  rw [List.append_nil] at hhead
  have hnil : (frames maxFrameLen).parse [] = ⟨[], [], false⟩ := Splitter.parse_more rfl
  have hparse : (frames maxFrameLen).parse frame = ⟨[(body, frame.length)], [], false⟩ := by
    rw [Splitter.parse_item hhead, List.drop_length, hnil]
    rfl
  rw [FrameDecoder.push_of_not_bad]
  · simp only [FrameDecoder.new, List.nil_append, hparse]
    rfl
  · simp only [FrameDecoder.new, List.nil_append, hparse]

theorem push_writeFrame_ne {body frame : Bytes} {maxFrameLen : ℕ}
    (h : writeFrame body maxFrameLen = .ok frame) (hbody : 2 ^ 32 ≤ body.length) :
    ((FrameDecoder.new maxFrameLen).push frame).2 ≠ .ok [body] := by
  have hread := readU32BE_writeFrame h []
  rw [List.append_nil] at hread
  intro hpush
  cases hbad : ((frames maxFrameLen).parse frame).bad with
  | true =>
    rw [FrameDecoder.push_of_bad hbad] at hpush
    cases hpush
  | false =>
    rw [FrameDecoder.push_of_not_bad hbad] at hpush
    have hvalues : ((frames maxFrameLen).parse frame).values = [body] := Except.ok.inj hpush
    cases hhead : (frames maxFrameLen).head frame with
    | more =>
      rw [Splitter.parse_more hhead] at hvalues
      cases hvalues
    | bad =>
      rw [Splitter.parse_bad hhead] at hvalues
      cases hvalues
    | item b n =>
      rw [Splitter.parse_item hhead] at hvalues
      obtain ⟨-, -, -, -, rfl⟩ := frameHead_item hhead
      have hfirst : (frame.drop 4).take (readU32BE frame 0) = body := (List.cons.inj hvalues).1
      have hlen := congrArg List.length hfirst
      have hlt : toUint32 body.length < 2 ^ 32 := Nat.mod_lt _ (by decide)
      rw [List.length_take, hread] at hlen
      omega

/-- **The length prefix never wraps** exactly for bodies of less than `2 ^ 32` bytes. -/
theorem prefix_iff (options : ClientOptions) (body frame : Bytes)
    (h : writeFrame body (resolveConfig options).maxFrameLen = .ok frame) :
    (readU32BE (frame.take 4) 0 = body.length ↔ body.length < 2 ^ 32) ∧
      ((FrameDecoder.new (resolveConfig options).maxFrameLen).push frame =
          (FrameDecoder.new (resolveConfig options).maxFrameLen, .ok [body]) ↔
        body.length < 2 ^ 32) := by
  have hread := readU32BE_writeFrame h []
  have hlen := (writeFrame_eq_ok h).2.1
  rw [List.append_nil] at hread
  rw [readU32BE_take le_rfl (by omega), hread]
  refine ⟨⟨fun hprefix => ?_, toUint32_of_lt⟩, fun hpush => ?_, push_writeFrame h⟩
  · rw [← hprefix]
    exact Nat.mod_lt _ (by decide)
  · by_contra hbody
    exact push_writeFrame_ne h (Nat.not_lt.1 hbody) (congrArg Prod.snd hpush)

/-- Options that allow frames of `2 ^ 33` bytes. -/
def largeFrames : ClientOptions where
  bulkConnections := none
  maxInflightRequests := none
  requestQueueDepth := none
  maxFrameLen := some (.finite (2 ^ 33))
  tls := none
  authToken := none
  connectTimeout := none

theorem maxFrameLen_largeFrames : (resolveConfig largeFrames).maxFrameLen = 2 ^ 33 := by
  have hfloor : ⌊(2 ^ 33 : ℚ)⌋ = 2 ^ 33 := by
    rw [show (2 ^ 33 : ℚ) = ((2 ^ 33 : ℤ) : ℚ) by norm_num, Int.floor_intCast]
  simp only [resolveConfig, largeFrames, positiveOr, floorOr, hfloor]
  norm_num
  rfl

/-- A body of `2 ^ 32` bytes is accepted, its prefix is zero, and it does not come back. -/
theorem prefix_wraps : ∃ body frame : Bytes, body.length = 2 ^ 32 ∧
    writeFrame body (resolveConfig largeFrames).maxFrameLen = .ok frame ∧
      readU32BE (frame.take 4) 0 = 0 ∧
      ((FrameDecoder.new (resolveConfig largeFrames).maxFrameLen).push frame).2 ≠ .ok [body] := by
  have hlength : (List.replicate (2 ^ 32) (0 : UInt8)).length = 2 ^ 32 := List.length_replicate
  generalize List.replicate (2 ^ 32) (0 : UInt8) = body at hlength
  have hle : body.length ≤ (resolveConfig largeFrames).maxFrameLen := by
    rw [maxFrameLen_largeFrames, hlength]
    norm_num
  obtain ⟨frame, hframe⟩ := exists_writeFrame hle
  have hread := readU32BE_writeFrame hframe []
  have hframeLength := (writeFrame_eq_ok hframe).2.1
  rw [List.append_nil] at hread
  refine ⟨body, frame, hlength, hframe, ?_, push_writeFrame_ne hframe hlength.ge⟩
  rw [readU32BE_take le_rfl (by omega), hread, hlength]
  rfl

/-- A body of one byte fits. -/
theorem prefix_one : readU32BE [0, 0, 0, 1] 0 = 1 ∧
    (FrameDecoder.new (resolveConfig largeFrames).maxFrameLen).push [0, 0, 0, 1, 7] =
      (FrameDecoder.new (resolveConfig largeFrames).maxFrameLen, .ok [[7]]) := by
  have hframe : writeFrame [7] (resolveConfig largeFrames).maxFrameLen = .ok [0, 0, 0, 1, 7] := by
    rw [maxFrameLen_largeFrames]
    rfl
  obtain ⟨hread, hpush⟩ := prefix_iff largeFrames [7] [0, 0, 0, 1, 7] hframe
  exact ⟨hread.2 (by decide), hpush.2 (by decide)⟩

end Tephra
