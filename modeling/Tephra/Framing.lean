import Tephra.Errors
import Tephra.Lib.Splitter

/-!
# Framing

`writeFrame` and `FrameDecoder` of `framing.ts`.  A push that throws leaves the whole input in the
decoder's buffer.  `FrameDecoder.push_eq` says what a push does in terms of the `Splitter` that
reads one length-prefixed frame off a stream.

* `chunking_iff` : when two ways of chunking a stream deliver the same frames, and when one
  delivers every frame before the first oversized prefix.
* `retained_iff_pushAll` : when the bytes a decoder retains stay within `maxFrameLen + 3`.
-/

namespace Tephra

open Lib

/-- `writeFrame`. -/
def writeFrame (body : Bytes) (maxFrameLen : ℕ) : Except Err Bytes :=
  if body.length > maxFrameLen then .error (.frameTooLarge body.length maxFrameLen)
  else
    let len := toUint32 body.length
    .ok (UInt8.ofNat ((len >>> 24) &&& 0xff) :: UInt8.ofNat ((len >>> 16) &&& 0xff) ::
      UInt8.ofNat ((len >>> 8) &&& 0xff) :: UInt8.ofNat (len &&& 0xff) :: body)

/-- `buf[i]`, for an index inside the array. -/
def byteAt (buf : Bytes) (i : ℕ) : ℕ := (buf.getD i 0).toNat

/-- `readU32BE`. -/
def readU32BE (buf : Bytes) (offset : ℕ) : ℕ :=
  byteAt buf offset * 0x1000000 +
    (byteAt buf (offset + 1) <<< 16 ||| byteAt buf (offset + 2) <<< 8 ||| byteAt buf (offset + 3))

/-- `concat`. -/
def concat (a b : Bytes) : Bytes := if a.length = 0 then b else a ++ b

@[simp] theorem concat_eq (a b : Bytes) : concat a b = a ++ b := by
  rw [concat]
  split_ifs with h
  · rw [List.length_eq_zero_iff.1 h, List.nil_append]
  · rfl

/-- `FrameDecoder`. -/
structure FrameDecoder where
  /-- Bytes not yet split into frames. -/
  buffer : Bytes
  /-- The largest body accepted. -/
  maxFrameLen : ℕ
  deriving DecidableEq, Repr

namespace FrameDecoder

/-- `new FrameDecoder(maxFrameLen)`. -/
def new (maxFrameLen : ℕ) : FrameDecoder := { buffer := [], maxFrameLen := maxFrameLen }

/-- The loop of `push` over a buffer, for at most `fuel` frames: the frames and the final offset. -/
def pushLoop (maxFrameLen : ℕ) (buffer : Bytes) :
    ℕ → ℕ → List Bytes → Except Err (List Bytes × ℕ)
  | 0, offset, frames => .ok (frames, offset)
  | fuel + 1, offset, frames =>
    if buffer.length - offset ≥ 4 then
      let len := readU32BE buffer offset
      if len > maxFrameLen then .error (.frameTooLarge len maxFrameLen)
      else if buffer.length - offset - 4 < len then .ok (frames, offset)
      else pushLoop maxFrameLen buffer fuel (offset + 4 + len)
        (frames ++ [(buffer.drop (offset + 4)).take len])
    else .ok (frames, offset)

/-- `push`: the decoder afterwards, and the frames or what is thrown.  The buffer is extended before
anything is checked, and only a push that returns cuts it. -/
def push (d : FrameDecoder) (chunk : Bytes) : FrameDecoder × Except Err (List Bytes) :=
  let buffer := concat d.buffer chunk
  match pushLoop d.maxFrameLen buffer (buffer.length + 1) 0 [] with
  | .error e => ({ d with buffer := buffer }, .error e)
  | .ok (frames, offset) =>
    ({ d with buffer := if offset = 0 then buffer else buffer.drop offset }, .ok frames)

/-- `hasPartial`. -/
def hasPartial (d : FrameDecoder) : Bool := d.buffer.length > 0

/-- Push chunks one after the other until one throws: the frames of all pushes, and what was
thrown. -/
def feed : FrameDecoder → List Bytes → List Bytes × Option Err
  | _, [] => ([], none)
  | d, chunk :: chunks =>
    match d.push chunk with
    | (_, .error e) => ([], some e)
    | (d, .ok frames) =>
      let r := feed d chunks
      (frames ++ r.1, r.2)

/-- Push chunks one after the other, going on after a push has thrown. -/
def pushAll (d : FrameDecoder) (chunks : List Bytes) : FrameDecoder :=
  chunks.foldl (fun d chunk => (d.push chunk).1) d

end FrameDecoder

/-! ### One frame at the front of a stream -/

theorem byteAt_lt (buf : Bytes) (i : ℕ) : byteAt buf i < 256 := (buf.getD i 0).toNat_lt

theorem byteAt_drop (buf : Bytes) (k i : ℕ) : byteAt (buf.drop k) i = byteAt buf (k + i) := by
  simp only [byteAt, List.getD_eq_getElem?_getD, List.getElem?_drop]

theorem byteAt_append_left {s : Bytes} (t : Bytes) {i : ℕ} (h : i < s.length) :
    byteAt (s ++ t) i = byteAt s i := by
  simp only [byteAt, List.getD_eq_getElem?_getD, List.getElem?_append_left h]

theorem readU32BE_drop (buf : Bytes) (k : ℕ) : readU32BE (buf.drop k) 0 = readU32BE buf k := by
  simp only [readU32BE, byteAt_drop, Nat.add_zero, Nat.zero_add]

theorem readU32BE_append {s : Bytes} (t : Bytes) (h : 4 ≤ s.length) :
    readU32BE (s ++ t) 0 = readU32BE s 0 := by
  simp only [readU32BE]
  rw [byteAt_append_left t (by omega), byteAt_append_left t (by omega),
    byteAt_append_left t (by omega), byteAt_append_left t (by omega)]

theorem readU32BE_take {s : Bytes} {n : ℕ} (h : 4 ≤ n) (hs : 4 ≤ s.length) :
    readU32BE (s.take n) 0 = readU32BE s 0 := by
  have hlen : 4 ≤ (s.take n).length := by rw [List.length_take]; omega
  rw [← readU32BE_append (s.drop n) hlen, List.take_append_drop]

/-- What the front of a stream of frames shows. -/
def frameHead (maxFrameLen : ℕ) (s : Bytes) : Verdict Bytes :=
  if s.length < 4 then .more
  else if readU32BE s 0 > maxFrameLen then .bad
  else if s.length - 4 < readU32BE s 0 then .more
  else .item ((s.drop 4).take (readU32BE s 0)) (4 + readU32BE s 0)

theorem frameHead_item {maxFrameLen : ℕ} {s b : Bytes} {n : ℕ}
    (h : frameHead maxFrameLen s = .item b n) :
    4 ≤ s.length ∧ readU32BE s 0 ≤ maxFrameLen ∧ n = 4 + readU32BE s 0 ∧ n ≤ s.length ∧
      b = (s.drop 4).take (readU32BE s 0) := by
  unfold frameHead at h
  split_ifs at h with h₁ h₂ h₃
  cases h
  exact ⟨by omega, by omega, rfl, by omega, rfl⟩

theorem frameHead_eq_item {maxFrameLen : ℕ} {s : Bytes} (h₁ : 4 + readU32BE s 0 ≤ s.length)
    (h₂ : readU32BE s 0 ≤ maxFrameLen) :
    frameHead maxFrameLen s =
      .item ((s.drop 4).take (readU32BE s 0)) (4 + readU32BE s 0) := by
  rw [frameHead, if_neg (by omega), if_neg (by omega), if_neg (by omega)]

theorem frameHead_eq_bad_iff {maxFrameLen : ℕ} {s : Bytes} :
    frameHead maxFrameLen s = .bad ↔ 4 ≤ s.length ∧ maxFrameLen < readU32BE s 0 := by
  unfold frameHead
  split_ifs with h₁ h₂ h₃
  · exact ⟨fun h => (by cases h), fun h => by omega⟩
  · exact ⟨fun _ => ⟨by omega, h₂⟩, fun _ => rfl⟩
  · exact ⟨fun h => (by cases h), fun h => by omega⟩
  · exact ⟨fun h => (by cases h), fun h => by omega⟩

/-- Length-prefixed frames as items of a stream; an oversized prefix is the error. -/
def frames (maxFrameLen : ℕ) : Splitter UInt8 Bytes where
  head := frameHead maxFrameLen
  header := 4
  item_bounds h := by
    obtain ⟨-, -, hn, hle, -⟩ := frameHead_item h
    exact ⟨by omega, hle⟩
  item_append t h := by
    obtain ⟨h4, hmax, hn, hle, hb⟩ := frameHead_item h
    have hread := readU32BE_append t h4
    rw [frameHead_eq_item (by rw [hread, List.length_append]; omega) (by rwa [hread]), hread, hn,
      hb,
      List.drop_append_of_le_length h4,
      List.take_append_of_le_length (by rw [List.length_drop]; omega)]
  item_take := fun {s _ n} h => by
    obtain ⟨h4, hmax, hn, hle, hb⟩ := frameHead_item h
    have hread : readU32BE (s.take n) 0 = readU32BE s 0 := readU32BE_take (by omega) h4
    rw [frameHead_eq_item (by rw [hread, List.length_take]; omega) (by rwa [hread]), hread, hn, hb,
      List.drop_take, List.take_take]
    congr 2
    omega
  bad_append t h := by
    obtain ⟨h4, hmax⟩ := frameHead_eq_bad_iff.1 h
    exact frameHead_eq_bad_iff.2 ⟨by rw [List.length_append]; omega, by rwa [readU32BE_append t h4]⟩
  bad_header h := by
    obtain ⟨h4, hmax⟩ := frameHead_eq_bad_iff.1 h
    refine ⟨h4, fun n hn => frameHead_eq_bad_iff.2 ⟨?_, by rwa [readU32BE_take hn h4]⟩⟩
    rw [List.length_take]
    omega
  header_pos := by decide

@[simp] theorem frames_head (maxFrameLen : ℕ) (s : Bytes) :
    (frames maxFrameLen).head s = frameHead maxFrameLen s := rfl

@[simp] theorem frames_header (maxFrameLen : ℕ) : (frames maxFrameLen).header = 4 := rfl

@[simp] theorem frameHead_nil (maxFrameLen : ℕ) : frameHead maxFrameLen [] = .more := rfl

/-- What waits for more input is shorter than a prefix and a body. -/
theorem length_le_of_more {maxFrameLen : ℕ} {s : Bytes} (h : frameHead maxFrameLen s = .more) :
    s.length ≤ maxFrameLen + 3 := by
  unfold frameHead at h
  split_ifs at h <;> omega

theorem or_bytes (a : ℕ) {b c : ℕ} (hb : b < 256) (hc : c < 256) :
    a <<< 16 ||| b <<< 8 ||| c = a * 65536 + b * 256 + c := by
  have h₁ := Nat.shiftLeft_add_eq_or_of_lt (i := 16) (b := b <<< 8)
    (by rw [Nat.shiftLeft_eq]; omega) a
  have h₂ := Nat.shiftLeft_add_eq_or_of_lt (i := 8) (b := c) (by omega) (a <<< 8 + b)
  have h₃ : (a <<< 8 + b) <<< 8 = a <<< 16 + b <<< 8 := by
    simp only [Nat.shiftLeft_eq]; ring
  rw [h₃] at h₂
  rw [← h₁, ← h₂]
  simp only [Nat.shiftLeft_eq]

theorem readU32BE_eq (s : Bytes) (offset : ℕ) :
    readU32BE s offset = byteAt s offset * 16777216 + (byteAt s (offset + 1) * 65536 +
      byteAt s (offset + 2) * 256 + byteAt s (offset + 3)) := by
  rw [readU32BE, or_bytes _ (byteAt_lt _ _) (byteAt_lt _ _)]

/-- The prefix of a written frame is the length of its body, as far as it goes into 32 bits. -/
theorem readU32BE_writeFrame {body bytes : Bytes} {maxFrameLen : ℕ}
    (h : writeFrame body maxFrameLen = .ok bytes) (t : Bytes) :
    readU32BE (bytes ++ t) 0 = toUint32 body.length := by
  unfold writeFrame at h
  split_ifs at h with hmax
  cases h
  have h0 := fun n : ℕ => Nat.and_two_pow_sub_one_eq_mod n 8
  simp only [Nat.reducePow, Nat.reduceSub] at h0
  have hlt : toUint32 body.length < 4294967296 := Nat.mod_lt _ (by decide)
  simp only [readU32BE_eq, byteAt, List.cons_append, List.getD_cons_zero, List.getD_cons_succ,
    UInt8.toNat_ofNat', Nat.shiftRight_eq_div_pow, Nat.reducePow, h0]
  omega

theorem writeFrame_eq_ok {body bytes : Bytes} {maxFrameLen : ℕ}
    (h : writeFrame body maxFrameLen = .ok bytes) :
    body.length ≤ maxFrameLen ∧ bytes.length = 4 + body.length ∧ bytes.drop 4 = body := by
  unfold writeFrame at h
  split_ifs at h with hmax
  cases h
  exact ⟨by omega, by simp only [List.length_cons]; omega, rfl⟩

theorem exists_writeFrame {body : Bytes} {maxFrameLen : ℕ} (h : body.length ≤ maxFrameLen) :
    ∃ bytes, writeFrame body maxFrameLen = .ok bytes := by
  rw [writeFrame, if_neg (by omega)]
  exact ⟨_, rfl⟩

/-- **A written frame is read back**, whatever follows it. -/
theorem frameHead_writeFrame {body bytes : Bytes} {maxFrameLen : ℕ}
    (h : writeFrame body maxFrameLen = .ok bytes) (hbody : body.length < 2 ^ 32) (t : Bytes) :
    frameHead maxFrameLen (bytes ++ t) = .item body bytes.length := by
  obtain ⟨hle, hlen, hdrop⟩ := writeFrame_eq_ok h
  have hread := readU32BE_writeFrame h t
  rw [toUint32_of_lt hbody] at hread
  rw [frameHead_eq_item (by rw [hread, List.length_append]; omega) (by rwa [hread]), hread,
    List.drop_append_of_le_length (by omega), hdrop, List.take_left' rfl, hlen]

/-- **A stream of written frames** followed by a rest splits into their bodies and the rest. -/
theorem parse_writeFrames {maxFrameLen : ℕ} (hmax : maxFrameLen < 2 ^ 32)
    {bodies : List Bytes} {written : List Bytes}
    (h : List.Forall₂ (fun body bytes => writeFrame body maxFrameLen = .ok bytes) bodies written)
    (t : Bytes) :
    (frames maxFrameLen).parse (written.flatten ++ t) =
      ((frames maxFrameLen).parse t).prepend (bodies.zip (written.map List.length)) := by
  induction h with
  | nil => rfl
  | @cons body bytes bodies written hb _ ih =>
    have hbody : body.length < 2 ^ 32 := (writeFrame_eq_ok hb).1.trans_lt hmax
    have hhead := frameHead_writeFrame hb hbody (written.flatten ++ t)
    rw [List.flatten_cons, List.append_assoc, Splitter.parse_item hhead, List.drop_left' rfl, ih]
    rfl

theorem values_writeFrames {maxFrameLen : ℕ} (hmax : maxFrameLen < 2 ^ 32)
    {bodies written : List Bytes}
    (h : List.Forall₂ (fun body bytes => writeFrame body maxFrameLen = .ok bytes) bodies written) :
    ((frames maxFrameLen).parse written.flatten).bad = false ∧
      ((frames maxFrameLen).parse written.flatten).values = bodies := by
  have hnil : (frames maxFrameLen).parse [] = ⟨[], [], false⟩ := Splitter.parse_more rfl
  have hparse := parse_writeFrames hmax h []
  rw [List.append_nil, hnil] at hparse
  rw [hparse]
  refine ⟨rfl, ?_⟩
  simp only [Parsed.values, Parsed.prepend, List.append_nil]
  exact List.map_fst_zip (by rw [List.length_map, h.length_eq])

/-! ### What a push does -/

namespace FrameDecoder

/-- A frame found by the loop is the first item from its offset on. -/
theorem parse_drop_item {maxFrameLen offset len : ℕ} {buffer : Bytes}
    (h4 : 4 ≤ buffer.length - offset) (hread : readU32BE buffer offset = len)
    (hmax : len ≤ maxFrameLen) (hbody : len ≤ buffer.length - offset - 4) :
    (frames maxFrameLen).parse (buffer.drop offset) =
      ((frames maxFrameLen).parse (buffer.drop (offset + 4 + len))).cons
        ((buffer.drop (offset + 4)).take len) (4 + len) := by
  have hlen : (buffer.drop offset).length = buffer.length - offset := List.length_drop
  have hread' : readU32BE (buffer.drop offset) 0 = len := by rw [readU32BE_drop, hread]
  have hitem : (frames maxFrameLen).head (buffer.drop offset) =
      .item (((buffer.drop offset).drop 4).take len) (4 + len) := by
    rw [frames_head, frameHead_eq_item (by omega) (by omega), hread']
  rw [Splitter.parse_item hitem, List.drop_drop, List.drop_drop, Nat.add_assoc]

theorem pushLoop_eq {maxFrameLen fuel offset : ℕ} {buffer : Bytes} {acc : List Bytes}
    (hfuel : buffer.length - offset < fuel) (hoffset : offset ≤ buffer.length) :
    pushLoop maxFrameLen buffer fuel offset acc =
      let p := (frames maxFrameLen).parse (buffer.drop offset)
      if p.bad then .error (.frameTooLarge (readU32BE p.rest 0) maxFrameLen)
      else .ok (acc ++ p.values, offset + p.size) := by
  induction fuel generalizing offset acc with
  | zero => omega
  | succ fuel ih =>
    have hlen : (buffer.drop offset).length = buffer.length - offset := List.length_drop
    obtain ⟨len, hread⟩ : ∃ len, readU32BE buffer offset = len := ⟨_, rfl⟩
    have hread' : readU32BE (buffer.drop offset) 0 = len := by rw [readU32BE_drop, hread]
    by_cases h4 : buffer.length - offset ≥ 4
    · by_cases hmax : len > maxFrameLen
      · -- an oversized prefix
        have hbad : (frames maxFrameLen).head (buffer.drop offset) = .bad :=
          frameHead_eq_bad_iff.2 ⟨by omega, by omega⟩
        rw [pushLoop, if_pos h4, hread, Splitter.parse_bad hbad]
        simp only [if_pos hmax, if_true, hread']
      · by_cases hbody : buffer.length - offset - 4 < len
        · -- a body that is not all there
          have hmore : (frames maxFrameLen).head (buffer.drop offset) = .more := by
            rw [frames_head, frameHead, if_neg (by omega), if_neg (by omega), if_pos (by omega)]
          rw [pushLoop, if_pos h4, hread, Splitter.parse_more hmore]
          simp only [if_neg hmax, if_pos hbody, Parsed.values, Parsed.size, List.map_nil,
            List.sum_nil, List.append_nil, Nat.add_zero, Bool.false_eq_true, if_false]
        · -- one frame, and the loop goes on behind it
          have hloop : pushLoop maxFrameLen buffer (fuel + 1) offset acc =
              pushLoop maxFrameLen buffer fuel (offset + 4 + len)
                (acc ++ [(buffer.drop (offset + 4)).take len]) := by
            rw [pushLoop, if_pos h4, hread]
            simp only [if_neg hmax, if_neg hbody]
          rw [hloop, ih (by omega) (by omega),
            parse_drop_item h4 hread (by omega) (by omega)]
          simp only [Parsed.cons, Parsed.values, Parsed.size, List.map_cons, List.sum_cons,
            List.append_assoc, List.singleton_append, Nat.add_assoc]
    · have hmore : (frames maxFrameLen).head (buffer.drop offset) = .more := by
        rw [frames_head, frameHead, if_pos (by omega)]
      rw [pushLoop, if_neg h4, Splitter.parse_more hmore]
      simp only [Parsed.values, Parsed.size, List.map_nil, List.sum_nil, List.append_nil,
        Nat.add_zero, Bool.false_eq_true, if_false]

/-- **What a push does**: it splits the buffer and the chunk, and either keeps the rest, or, at an
oversized prefix, throws and keeps everything. -/
theorem push_eq (d : FrameDecoder) (chunk : Bytes) :
    d.push chunk =
      let p := (frames d.maxFrameLen).parse (d.buffer ++ chunk)
      if p.bad then
        ({ d with buffer := d.buffer ++ chunk },
          .error (.frameTooLarge (readU32BE p.rest 0) d.maxFrameLen))
      else ({ d with buffer := p.rest }, .ok p.values) := by
  rw [push, concat_eq, pushLoop_eq (by omega) (Nat.zero_le _), List.drop_zero]
  cases hbad : ((frames d.maxFrameLen).parse (d.buffer ++ chunk)).bad with
  | true => simp only [hbad, if_true]
  | false =>
    simp only [hbad, Bool.false_eq_true, if_false, Nat.zero_add, List.nil_append]
    rw [Splitter.rest_eq_drop]
    split_ifs with h0
    · rw [h0, List.drop_zero]
    · rfl

theorem push_of_bad {d : FrameDecoder} {chunk : Bytes}
    (h : ((frames d.maxFrameLen).parse (d.buffer ++ chunk)).bad = true) :
    d.push chunk = ({ d with buffer := d.buffer ++ chunk }, .error (.frameTooLarge
      (readU32BE ((frames d.maxFrameLen).parse (d.buffer ++ chunk)).rest 0) d.maxFrameLen)) := by
  rw [push_eq]; simp only [h, if_true]

theorem push_of_not_bad {d : FrameDecoder} {chunk : Bytes}
    (h : ((frames d.maxFrameLen).parse (d.buffer ++ chunk)).bad = false) :
    d.push chunk = ({ d with buffer := ((frames d.maxFrameLen).parse (d.buffer ++ chunk)).rest },
      .ok ((frames d.maxFrameLen).parse (d.buffer ++ chunk)).values) := by
  rw [push_eq]; simp only [h, Bool.false_eq_true, if_false]

@[simp] theorem push_maxFrameLen (d : FrameDecoder) (chunk : Bytes) :
    (d.push chunk).1.maxFrameLen = d.maxFrameLen := by
  rw [push_eq]; dsimp only; split_ifs <;> rfl

theorem feed_eq (d : FrameDecoder) (chunks : List Bytes) :
    ((d.feed chunks).1, (d.feed chunks).2.isSome) =
      (frames d.maxFrameLen).feed d.buffer chunks := by
  induction chunks generalizing d with
  | nil => rfl
  | cons chunk chunks ih =>
    cases hbad : ((frames d.maxFrameLen).parse (d.buffer ++ chunk)).bad with
    | true => simp only [feed, push_of_bad hbad, Splitter.feed, hbad, if_true, Option.isSome_some]
    | false =>
      have hrest := ih { d with buffer := ((frames d.maxFrameLen).parse (d.buffer ++ chunk)).rest }
      simp only at hrest
      simp only [feed, push_of_not_bad hbad, Splitter.feed, hbad, Bool.false_eq_true, if_false,
        ← hrest]

theorem pushAll_eq (d : FrameDecoder) (chunks : List Bytes) :
    d.pushAll chunks = { d with buffer := (frames d.maxFrameLen).keep d.buffer chunks } := by
  induction chunks generalizing d with
  | nil => rfl
  | cons chunk chunks ih =>
    rw [pushAll, List.foldl_cons, ← pushAll, ih, Splitter.keep]
    cases hbad : ((frames d.maxFrameLen).parse (d.buffer ++ chunk)).bad with
    | true => simp only [push_of_bad hbad, if_true]
    | false => simp only [push_of_not_bad hbad, Bool.false_eq_true, if_false]

/-- A fresh decoder, as long as no oversized prefix is in the stream. -/
theorem feed_new_of_not_bad {maxFrameLen : ℕ} {chunks : List Bytes}
    (h : ((frames maxFrameLen).parse chunks.flatten).bad = false) :
    ((new maxFrameLen).feed chunks).1 = ((frames maxFrameLen).parse chunks.flatten).values ∧
      ((new maxFrameLen).feed chunks).2.isSome = false := by
  have hfeed := feed_eq (new maxFrameLen) chunks
  rw [Splitter.feed_of_not_bad chunks (by rfl) (by rfl) h] at hfeed
  exact Prod.mk.inj hfeed

/-- Written frames are read back, however the bytes are split into chunks. -/
theorem feed_writeFrames {maxFrameLen : ℕ} (hmax : maxFrameLen < 2 ^ 32)
    {bodies written chunks : List Bytes}
    (h : List.Forall₂ (fun body bytes => writeFrame body maxFrameLen = .ok bytes) bodies written)
    (hchunks : chunks.flatten = written.flatten) :
    (new maxFrameLen).feed chunks = (bodies, none) := by
  obtain ⟨hbad, hbodies⟩ := values_writeFrames hmax h
  rw [← hchunks] at hbad hbodies
  obtain ⟨hvalues, herror⟩ := feed_new_of_not_bad hbad
  exact Prod.ext (hvalues.trans hbodies)
    (Option.isNone_iff_eq_none.1 (Option.isSome_eq_false_iff.1 herror))

/-- A fresh decoder, when there is one: the frames that end at or before the start of the chunk
that completes it. -/
theorem feed_new_of_bad {maxFrameLen : ℕ} {chunks : List Bytes}
    (h : ((frames maxFrameLen).parse chunks.flatten).bad = true) :
    ((new maxFrameLen).feed chunks).1 = Splitter.endingBy
        (chunkStart 0 chunks (((frames maxFrameLen).parse chunks.flatten).size + 4)) 0
        ((frames maxFrameLen).parse chunks.flatten).items ∧
      ((new maxFrameLen).feed chunks).2.isSome = true := by
  have hfeed := feed_eq (new maxFrameLen) chunks
  rw [show (new maxFrameLen).buffer = [] from rfl, show (new maxFrameLen).maxFrameLen = maxFrameLen
    from rfl, Splitter.feed_nil_of_bad chunks (by rfl) h] at hfeed
  exact Prod.mk.inj hfeed

end FrameDecoder

/-! ### Chunks and frames -/

/-- Whether a stream has an oversized length prefix. -/
def hasOversized (maxFrameLen : ℕ) (stream : Bytes) : Bool :=
  ((frames maxFrameLen).parse stream).bad

/-- The complete frame bodies before the first oversized prefix of a stream. -/
def bodiesOf (maxFrameLen : ℕ) (stream : Bytes) : List Bytes :=
  ((frames maxFrameLen).parse stream).values

/-- Where the complete frames before the first oversized prefix end. -/
def frameEnds (maxFrameLen : ℕ) (stream : Bytes) : List ℕ :=
  Splitter.endsFrom 0 ((frames maxFrameLen).parse stream).items

/-- Where the chunk starts in which the oversized prefix becomes complete. -/
def offendingChunk (maxFrameLen : ℕ) (chunks : List Bytes) : ℕ :=
  chunkStart 0 chunks (((frames maxFrameLen).parse chunks.flatten).size + 4)

/-- Two chunkings of a stream deliver the same frames and agree on throwing exactly when no frame
ends after the start of the offending chunk of one of them only; and a chunking delivers every
frame before the oversized prefix exactly when all of them end by the start of its offending
chunk. -/
theorem chunking_iff (maxFrameLen : ℕ) (chunks chunks' : List Bytes)
    (h : chunks.flatten = chunks'.flatten) :
    ((((FrameDecoder.new maxFrameLen).feed chunks).1 =
          ((FrameDecoder.new maxFrameLen).feed chunks').1 ∧
        (((FrameDecoder.new maxFrameLen).feed chunks).2.isSome ↔
          ((FrameDecoder.new maxFrameLen).feed chunks').2.isSome)) ↔
      (hasOversized maxFrameLen chunks.flatten →
        ∀ e ∈ frameEnds maxFrameLen chunks.flatten,
          e ≤ offendingChunk maxFrameLen chunks ↔ e ≤ offendingChunk maxFrameLen chunks')) ∧
    (((FrameDecoder.new maxFrameLen).feed chunks).1 = bodiesOf maxFrameLen chunks.flatten ↔
      (hasOversized maxFrameLen chunks.flatten →
        ∀ e ∈ frameEnds maxFrameLen chunks.flatten, e ≤ offendingChunk maxFrameLen chunks)) := by
  unfold hasOversized bodiesOf frameEnds offendingChunk
  cases hbad : ((frames maxFrameLen).parse chunks.flatten).bad with
  | false =>
    obtain ⟨hbodies, hthrow⟩ := FrameDecoder.feed_new_of_not_bad hbad
    have hbad' : ((frames maxFrameLen).parse chunks'.flatten).bad = false := by rwa [← h]
    obtain ⟨hbodies', hthrow'⟩ := FrameDecoder.feed_new_of_not_bad hbad'
    simp only [hbodies, hthrow, hbodies', hthrow', h, and_self, Bool.false_eq_true,
      false_implies]
  | true =>
    obtain ⟨hbodies, hthrow⟩ := FrameDecoder.feed_new_of_bad hbad
    -- both readings throw, so only where the frames end matters
    have hbad' : ((frames maxFrameLen).parse chunks'.flatten).bad = true := by rwa [← h]
    obtain ⟨hbodies', hthrow'⟩ := FrameDecoder.feed_new_of_bad hbad'
    have hpos := Splitter.item_pos (S := frames maxFrameLen) chunks.flatten
    rw [hbodies, hthrow, hbodies', hthrow', ← h]
    refine ⟨?_, ?_⟩
    · rw [Splitter.endingBy_eq_iff hpos]
      exact ⟨fun h _ => h.1, fun h => ⟨h rfl, Iff.rfl⟩⟩
    · rw [Parsed.values, Splitter.endingBy_eq_map_iff hpos]
      exact ⟨fun h _ => h, fun h => h rfl⟩

/-- An empty frame and an oversized prefix: in two chunks the frame is delivered, in one it is
not. -/
theorem chunking_lost :
    [[0, 0, 0, 0, 0, 0, 0, 100]].flatten = ([[0, 0, 0, 0], [0, 0, 0, 100]] : List Bytes).flatten ∧
      ((FrameDecoder.new 4).feed [[0, 0, 0, 0, 0, 0, 0, 100]]).1 = [] ∧
      ((FrameDecoder.new 4).feed [[0, 0, 0, 0], [0, 0, 0, 100]]).1 = [[]] := by
  decide +kernel

/-- Two frames and an oversized prefix whose chunks differ inside the first frame only. -/
theorem chunking_iff_same :
    ((FrameDecoder.new 4).feed [[0, 0, 0], [1, 7, 0, 0, 0, 0], [0, 0, 0, 100]]).1 =
      ((FrameDecoder.new 4).feed [[0, 0, 0, 1, 7, 0, 0, 0, 0], [0, 0, 0, 100]]).1 :=
  ((chunking_iff 4 _ [[0, 0, 0, 1, 7, 0, 0, 0, 0], [0, 0, 0, 100]] rfl).1.2
    (by decide +kernel)).1

/-! ### What is retained -/

/-- Where the last frame ends that is complete by the start of the offending chunk. -/
def lastFrameEnd (maxFrameLen : ℕ) (chunks : List Bytes) : ℕ :=
  Splitter.lastEnd (offendingChunk maxFrameLen chunks) 0
    ((frames maxFrameLen).parse chunks.flatten).items

/-- Without an oversized prefix, what is retained is an incomplete frame. -/
theorem length_buffer_of_not_bad {maxFrameLen : ℕ} {chunks : List Bytes}
    (h : ((frames maxFrameLen).parse chunks.flatten).bad = false) :
    ((FrameDecoder.new maxFrameLen).pushAll chunks).buffer.length ≤ maxFrameLen + 3 := by
  rw [FrameDecoder.pushAll_eq]
  have hrest := Splitter.head_rest (S := frames maxFrameLen) chunks.flatten
  rw [h, if_neg Bool.false_ne_true] at hrest
  have hnil : (frames maxFrameLen).head [] = .more := rfl
  have hkeep := Splitter.keep_of_not_bad chunks hnil (by rwa [List.nil_append])
  rw [List.nil_append] at hkeep
  simp only [FrameDecoder.new, hkeep]
  exact length_le_of_more hrest

/-- With an oversized prefix, what is retained is everything from the end of the last frame. -/
theorem length_buffer_of_bad {maxFrameLen : ℕ} {chunks : List Bytes}
    (h : ((frames maxFrameLen).parse chunks.flatten).bad = true) :
    ((FrameDecoder.new maxFrameLen).pushAll chunks).buffer.length =
      chunks.flatten.length - lastFrameEnd maxFrameLen chunks := by
  have hnil : (frames maxFrameLen).head [] = .more := rfl
  have hkeep := Splitter.keep_of_bad chunks hnil 0 (by rwa [List.nil_append])
  simp only [List.nil_append, List.length_nil, Nat.zero_add, Nat.sub_zero, frames_header] at hkeep
  rw [FrameDecoder.pushAll_eq]
  simp only [FrameDecoder.new, hkeep, List.length_drop]
  rfl

theorem length_buffer_mono {maxFrameLen : ℕ} {chunks : List Bytes}
    (h : ((frames maxFrameLen).parse chunks.flatten).bad = true) (chunks' : List Bytes) :
    ((FrameDecoder.new maxFrameLen).pushAll chunks).buffer.length ≤
      ((FrameDecoder.new maxFrameLen).pushAll (chunks ++ chunks')).buffer.length := by
  have hbad := Splitter.bad_keep (S := frames maxFrameLen) [] chunks
  rw [List.nil_append, h] at hbad
  rw [FrameDecoder.pushAll_eq, FrameDecoder.pushAll_eq]
  simp only [FrameDecoder.new, Splitter.keep_append, Splitter.keep_of_bad_buf chunks' hbad,
    List.length_append]
  omega

/-- A decoder retains at most a prefix and a body short of one byte after every push exactly when
the stream has no oversized prefix, or no more than that arrives from the end of the last frame
that was complete before the offending chunk. -/
theorem retained_iff_pushAll (maxFrameLen : ℕ) (chunks : List Bytes) :
    (∀ k, ((FrameDecoder.new maxFrameLen).pushAll (chunks.take k)).buffer.length ≤
        maxFrameLen + 3) ↔
      (hasOversized maxFrameLen chunks.flatten →
        chunks.flatten.length ≤ lastFrameEnd maxFrameLen chunks + (maxFrameLen + 3)) := by
  constructor
  · intro hall hbad
    have hlast := hall chunks.length
    rw [List.take_length, length_buffer_of_bad hbad] at hlast
    omega
  · intro hlen k
    cases hk : ((frames maxFrameLen).parse (chunks.take k).flatten).bad with
    | false => exact length_buffer_of_not_bad hk
    | true =>
      have hsplit : (chunks.take k).flatten ++ (chunks.drop k).flatten = chunks.flatten := by
        rw [← List.flatten_append, List.take_append_drop]
      have hbad : hasOversized maxFrameLen chunks.flatten = true := by
        rw [hasOversized, ← hsplit, Splitter.parse_append_of_bad _ hk]
        exact hk
      have hmono := length_buffer_mono hk (chunks.drop k)
      rw [List.take_append_drop, length_buffer_of_bad hbad] at hmono
      have := hlen hbad
      omega

end Tephra
