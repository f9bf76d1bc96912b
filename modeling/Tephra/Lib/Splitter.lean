import Mathlib

/-!
# Splitting a stream into items, chunk by chunk

A `Splitter` looks at the front of a stream and sees a complete item, an error, or that it needs
more input.  Its laws say that a verdict does not change when more input arrives, that an item is
recognised from its own symbols alone, and that an error is recognised from a header of fixed
length.

* `Splitter.parse` : as much of a stream as is there, split; `parse_append` and
  `parse_append_of_bad` say how it extends when the stream does.
* `Splitter.feed` : the incremental version; it keeps the unparsed rest between chunks and stops
  at the first chunk with an error in it, *without* the items completed in that chunk.
  `feed_of_bad` says exactly which items that leaves: those ending at or before the start of the
  chunk that completes the bad header.  `feed_of_not_bad` is the case without an error, where the
  chunks do not matter.
* `Splitter.keep` : the buffer of the incremental version when chunks go on arriving after an
  error; `keep_of_bad` says what it holds then.
-/

namespace Lib

/-- What the front of a stream shows. -/
inductive Verdict (β : Type*)
  /-- Too short to tell. -/
  | more
  /-- No item starts here. -/
  | bad
  /-- An item, and how many symbols it takes. -/
  | item (b : β) (n : ℕ)

/-- A way of reading items off the front of a stream. -/
structure Splitter (α β : Type*) where
  /-- The verdict on the front of a stream. -/
  head : List α → Verdict β
  /-- The header an error is recognised from. -/
  header : ℕ
  /-- An item takes at least one symbol, and is there completely. -/
  item_bounds : ∀ {s b n}, head s = .item b n → 0 < n ∧ n ≤ s.length
  /-- More input does not change an item. -/
  item_append : ∀ {s b n} (t), head s = .item b n → head (s ++ t) = .item b n
  /-- An item is recognised from its own symbols. -/
  item_take : ∀ {s b n}, head s = .item b n → head (s.take n) = .item b n
  /-- More input does not repair an error. -/
  bad_append : ∀ {s} (t), head s = .bad → head (s ++ t) = .bad
  /-- An error is recognised when its header is there, not before. -/
  bad_header : ∀ {s}, head s = .bad → header ≤ s.length ∧ ∀ n, header ≤ n → head (s.take n) = .bad
  /-- The header is not empty. -/
  header_pos : 0 < header

/-- A stream split as far as possible. -/
structure Parsed (α β : Type*) where
  /-- Items with their lengths, in order. -/
  items : List (β × ℕ)
  /-- What is left. -/
  rest : List α
  /-- Whether the rest starts with an error (or is just incomplete). -/
  bad : Bool

namespace Parsed

variable {α β : Type*}

/-- Put an item in front. -/
def cons (b : β) (n : ℕ) (p : Parsed α β) : Parsed α β := { p with items := (b, n) :: p.items }

/-- Put items in front. -/
def prepend (l : List (β × ℕ)) (p : Parsed α β) : Parsed α β := { p with items := l ++ p.items }

/-- The items without their lengths. -/
def values (p : Parsed α β) : List β := p.items.map Prod.fst

/-- How many symbols the items take. -/
def size (p : Parsed α β) : ℕ := (p.items.map Prod.snd).sum

end Parsed

/-- The start of the chunk that holds symbol number `n` (counting from 1) of a chunked stream, for
chunks that start at offset `off`. -/
def chunkStart {α : Type*} : ℕ → List (List α) → ℕ → ℕ
  | off, [], _ => off
  | off, c :: cs, n => if n ≤ off + c.length then off else chunkStart (off + c.length) cs n

theorem le_chunkStart {α : Type*} (off : ℕ) (cs : List (List α)) (n : ℕ) :
    off ≤ chunkStart off cs n := by
  induction cs generalizing off with
  | nil => exact le_refl _
  | cons c cs ih =>
    simp only [chunkStart]
    split_ifs
    · exact le_refl _
    · exact le_trans (Nat.le_add_right _ _) (ih _)

namespace Splitter

variable {α β : Type*} (S : Splitter α β)

/-- Split with a bound on the number of items. -/
def parseAux : ℕ → List α → Parsed α β
  | 0, s => ⟨[], s, false⟩
  | fuel + 1, s =>
    match S.head s with
    | .more => ⟨[], s, false⟩
    | .bad => ⟨[], s, true⟩
    | .item b n => (parseAux fuel (s.drop n)).cons b n

/-- Split as much of `s` as is there.  The length of `s` bounds the number of items. -/
def parse (s : List α) : Parsed α β := S.parseAux (s.length + 1) s

/-- Feed chunks to a buffer until one shows an error: the items given, and whether it stopped. -/
def feed : List α → List (List α) → List β × Bool
  | _, [] => ([], false)
  | buf, c :: cs =>
    let p := S.parse (buf ++ c)
    if p.bad then ([], true) else
      let r := feed p.rest cs
      (p.values ++ r.1, r.2)

/-- The buffer after all chunks, when an error leaves the whole input in it. -/
def keep : List α → List (List α) → List α
  | buf, [] => buf
  | buf, c :: cs =>
    let p := S.parse (buf ++ c)
    keep (if p.bad then buf ++ c else p.rest) cs

variable {S}

theorem parseAux_fuel {s : List α} : ∀ {fuel fuel' : ℕ}, s.length < fuel → s.length < fuel' →
    S.parseAux fuel s = S.parseAux fuel' s := by
  intro fuel
  induction fuel generalizing s with
  | zero => intro _ h; omega
  | succ fuel ih =>
    intro fuel' h h'
    cases fuel' with
    | zero => omega
    | succ fuel' =>
      simp only [parseAux]
      cases hv : S.head s with
      | more => rfl
      | bad => rfl
      | item b n =>
        obtain ⟨hpos, hle⟩ := S.item_bounds hv
        have hd : (s.drop n).length < s.length := by simp; omega
        have hfuel : S.parseAux fuel (s.drop n) = S.parseAux fuel' (s.drop n) :=
          ih (by omega) (by omega)
        simp only [hfuel]

theorem parse_more {s : List α} (h : S.head s = .more) : S.parse s = ⟨[], s, false⟩ := by
  simp [parse, parseAux, h]

theorem parse_bad {s : List α} (h : S.head s = .bad) : S.parse s = ⟨[], s, true⟩ := by
  simp [parse, parseAux, h]

theorem parse_item {s : List α} {b : β} {n : ℕ} (h : S.head s = .item b n) :
    S.parse s = (S.parse (s.drop n)).cons b n := by
  obtain ⟨hpos, hle⟩ := S.item_bounds h
  have hd : (s.drop n).length < s.length := by rw [List.length_drop]; omega
  calc S.parse s = (S.parseAux s.length (s.drop n)).cons b n := by simp [parse, parseAux, h]
    _ = (S.parse (s.drop n)).cons b n := by rw [parse, parseAux_fuel hd (Nat.lt_succ_self _)]

/-- Induction along the items of a stream. -/
theorem parse_induction {P : List α → Prop} (more : ∀ s, S.head s = .more → P s)
    (bad : ∀ s, S.head s = .bad → P s)
    (item : ∀ s b n, S.head s = .item b n → P (s.drop n) → P s) (s : List α) : P s := by
  induction hl : s.length using Nat.strongRecOn generalizing s with
  | ind l ih =>
    cases hv : S.head s with
    | more => exact more s hv
    | bad => exact bad s hv
    | item b n =>
      obtain ⟨hpos, hle⟩ := S.item_bounds hv
      exact item s b n hv (ih _ (by simp; omega) _ rfl)

theorem head_rest (s : List α) :
    S.head (S.parse s).rest = if (S.parse s).bad then .bad else .more := by
  induction s using parse_induction (S := S) with
  | more s h => simp [parse_more h, h]
  | bad s h => simp [parse_bad h, h]
  | item s b n h ih => simpa [parse_item h, Parsed.cons] using ih

theorem rest_eq_drop (s : List α) : (S.parse s).rest = s.drop (S.parse s).size := by
  induction s using parse_induction (S := S) with
  | more s h => simp [parse_more h, Parsed.size]
  | bad s h => simp [parse_bad h, Parsed.size]
  | item s b n h ih =>
    simp only [parse_item h, Parsed.cons, Parsed.size, List.map_cons, List.sum_cons] at ih ⊢
    rw [ih, List.drop_drop]

theorem size_le (s : List α) : (S.parse s).size ≤ s.length := by
  induction s using parse_induction (S := S) with
  | more s h => simp [parse_more h, Parsed.size]
  | bad s h => simp [parse_bad h, Parsed.size]
  | item s b n h ih =>
    have := (S.item_bounds h).2
    simp only [parse_item h, Parsed.cons, Parsed.size, List.map_cons, List.sum_cons,
      List.length_drop] at ih ⊢
    omega

/-- **More input is split after what is there already**, as long as that shows no error. -/
theorem parse_append {s : List α} (t : List α) (h : (S.parse s).bad = false) :
    S.parse (s ++ t) = (S.parse ((S.parse s).rest ++ t)).prepend (S.parse s).items := by
  induction s using parse_induction (S := S) with
  | more s hv => simp [parse_more hv, Parsed.prepend]
  | bad s hv => simp [parse_bad hv] at h
  | item s b n hv ih =>
    rw [parse_item hv] at h ⊢
    rw [parse_item (S.item_append t hv), List.drop_append_of_le_length (S.item_bounds hv).2, ih h]
    rfl

theorem parse_append_of_bad {s : List α} (t : List α) (h : (S.parse s).bad = true) :
    S.parse (s ++ t) = { S.parse s with rest := (S.parse s).rest ++ t } := by
  induction s using parse_induction (S := S) with
  | more s hv => simp [parse_more hv] at h
  | bad s hv => simp [parse_bad hv, parse_bad (S.bad_append t hv)]
  | item s b n hv ih =>
    rw [parse_item hv] at h ⊢
    rw [parse_item (S.item_append t hv), List.drop_append_of_le_length (S.item_bounds hv).2, ih h]
    rfl

theorem not_bad_of_append {s t : List α} (h : (S.parse (s ++ t)).bad = false) :
    (S.parse s).bad = false := by
  by_contra hs
  rw [Bool.not_eq_false] at hs
  rw [parse_append_of_bad t hs] at h
  exact absurd hs (by simpa using h)

/-- Without an error in the stream, the chunks do not matter. -/
theorem feed_of_not_bad {buf : List α} (cs : List (List α)) (hb : (S.parse buf).bad = false)
    (hi : (S.parse buf).items = []) (h : (S.parse (buf ++ cs.flatten)).bad = false) :
    S.feed buf cs = ((S.parse (buf ++ cs.flatten)).values, false) := by
  induction cs generalizing buf with
  | nil => simp [feed, Parsed.values, hi]
  | cons c cs ih =>
    rw [List.flatten_cons, ← List.append_assoc] at h ⊢
    have hc := not_bad_of_append h
    have hrest := head_rest (S := S) (buf ++ c)
    rw [hc] at hrest
    have hr := parse_more hrest
    rw [parse_append _ hc] at h ⊢
    have h' : (S.parse ((S.parse (buf ++ c)).rest ++ cs.flatten)).bad = false := h
    simp only [feed, hc, Bool.false_eq_true, ↓reduceIte, ih (by rw [hr]) (by rw [hr]) h',
      Parsed.values, Parsed.prepend, List.map_append]

/-! ### The items before an error -/

/-- The items of `l` that end at or before `bound`, for a stream that starts at `base`. -/
def endingBy (bound : ℕ) : ℕ → List (β × ℕ) → List β
  | _, [] => []
  | base, (b, n) :: l =>
    if base + n ≤ bound then b :: endingBy bound (base + n) l else endingBy bound (base + n) l

/-- The end offsets of items, for a stream that starts at `base`. -/
def endsFrom : ℕ → List (β × ℕ) → List ℕ
  | _, [] => []
  | base, (_, n) :: l => (base + n) :: endsFrom (base + n) l

theorem lt_of_mem_endsFrom {base e : ℕ} {l : List (β × ℕ)} (hpos : ∀ i ∈ l, 0 < i.2)
    (h : e ∈ endsFrom base l) : base < e := by
  induction l generalizing base with
  | nil => cases h
  | cons i l ih =>
    have hi := hpos i List.mem_cons_self
    rcases List.mem_cons.1 h with rfl | h
    · omega
    · have := ih (fun j hj => hpos j (List.mem_cons_of_mem _ hj)) h
      omega

theorem le_of_mem_endsFrom {base e : ℕ} {l : List (β × ℕ)} (h : e ∈ endsFrom base l) :
    e ≤ base + (l.map Prod.snd).sum := by
  induction l generalizing base with
  | nil => cases h
  | cons i l ih =>
    simp only [List.map_cons, List.sum_cons]
    rcases List.mem_cons.1 h with rfl | h
    · omega
    · have := ih h
      omega

theorem endingBy_eq_nil {bound base : ℕ} {l : List (β × ℕ)} (h : ∀ e ∈ endsFrom base l, bound < e) :
    endingBy bound base l = [] := by
  induction l generalizing base with
  | nil => rfl
  | cons i l ih =>
    have hi := h (base + i.2) List.mem_cons_self
    rw [endingBy, if_neg (by omega)]
    exact ih fun e he => h e (List.mem_cons_of_mem _ he)

theorem endingBy_append_of_le {bound base : ℕ} {l : List (β × ℕ)} (l' : List (β × ℕ))
    (h : base + (l.map Prod.snd).sum ≤ bound) :
    endingBy bound base (l ++ l') =
      l.map Prod.fst ++ endingBy bound (base + (l.map Prod.snd).sum) l' := by
  induction l generalizing base with
  | nil => simp
  | cons i l ih =>
    simp only [List.map_cons, List.sum_cons] at h
    rw [List.cons_append, endingBy, if_pos (by omega), ih (by omega)]
    simp [Nat.add_assoc]

/-- Two bounds leave the same items exactly when they leave the same end offsets. -/
theorem endingBy_eq_iff {b₁ b₂ base : ℕ} {l : List (β × ℕ)} (hpos : ∀ i ∈ l, 0 < i.2) :
    endingBy b₁ base l = endingBy b₂ base l ↔ ∀ e ∈ endsFrom base l, (e ≤ b₁ ↔ e ≤ b₂) := by
  induction l generalizing base with
  | nil => simp [endingBy, endsFrom]
  | cons i l ih =>
    have hpos' : ∀ j ∈ l, 0 < j.2 := fun j hj => hpos j (List.mem_cons_of_mem _ hj)
    have hlater : ∀ {b : ℕ}, b < base + i.2 → endingBy b (base + i.2) l = [] := fun hb =>
      endingBy_eq_nil fun e he => hb.trans (lt_of_mem_endsFrom hpos' he)
    simp only [endingBy, endsFrom, List.forall_mem_cons]
    by_cases h₁ : base + i.2 ≤ b₁ <;> by_cases h₂ : base + i.2 ≤ b₂
    · simp [h₁, h₂, ih hpos']
    · simp [h₁, h₂, hlater (not_le.1 h₂)]
    · simp [h₁, h₂, hlater (not_le.1 h₁)]
    · simp [h₁, h₂, ih hpos']

/-- A bound leaves all items exactly when it leaves all end offsets. -/
theorem endingBy_eq_map_iff {bound base : ℕ} {l : List (β × ℕ)} (hpos : ∀ i ∈ l, 0 < i.2) :
    endingBy bound base l = l.map Prod.fst ↔ ∀ e ∈ endsFrom base l, e ≤ bound := by
  have hall : endingBy (base + (l.map Prod.snd).sum) base l = l.map Prod.fst := by
    have happend := endingBy_append_of_le (l := l) [] (le_refl (base + (l.map Prod.snd).sum))
    simpa [endingBy] using happend
  rw [← hall, endingBy_eq_iff hpos]
  exact forall₂_congr fun e he => by simp [le_of_mem_endsFrom he]

theorem item_pos (s : List α) : ∀ i ∈ (S.parse s).items, 0 < i.2 := by
  induction s using parse_induction (S := S) with
  | more s h => simp [parse_more h]
  | bad s h => simp [parse_bad h]
  | item s b n h ih =>
    rw [parse_item h]
    intro i hi
    rcases List.mem_cons.1 hi with rfl | hi
    · exact (S.item_bounds h).1
    · exact ih i hi

/-- Whether a prefix of a bad stream is bad depends on whether the bad header is in it. -/
theorem bad_take_iff {s : List α} (h : (S.parse s).bad = true) (n : ℕ) :
    (S.parse (s.take n)).bad = true ↔ (S.parse s).size + S.header ≤ n := by
  induction s using parse_induction (S := S) generalizing n with
  | more s hv => simp [parse_more hv] at h
  | bad s hv =>
    rw [parse_bad hv]
    simp only [Parsed.size, List.map_nil, List.sum_nil, Nat.zero_add]
    constructor
    · intro hb
      by_contra hn
      -- of a shorter header nothing bad can be said
      have hd := S.bad_header hv
      cases hv' : S.head (s.take n) with
      | more => simp [parse_more hv'] at hb
      | bad =>
        have := (S.bad_header hv').1
        simp only [List.length_take] at this
        omega
      | item b k =>
        have := S.item_append (s.drop n) hv'
        rw [List.take_append_drop, hv] at this
        cases this
    · intro hn
      -- the header is whole, and bad
      rw [parse_bad ((S.bad_header hv).2 n hn)]
  | item s b k hv ih =>
    rw [parse_item hv] at h ⊢
    obtain ⟨hpos, hle⟩ := S.item_bounds hv
    have hsize : ((S.parse (s.drop k)).cons b k).size = k + (S.parse (s.drop k)).size := by
      simp [Parsed.cons, Parsed.size]
    rw [hsize]
    by_cases hkn : k ≤ n
    · have hv' : S.head (s.take n) = .item b k := by
        have := S.item_append ((s.take n).drop k) (S.item_take hv)
        rwa [show s.take k = (s.take n).take k by rw [List.take_take, Nat.min_eq_left hkn],
          List.take_append_drop] at this
      rw [parse_item hv', List.drop_take]
      have := ih h (n - k)
      simp only [Parsed.cons] at this ⊢
      rw [this]
      omega
    · -- the first item is not complete, so nothing is
      have hm : S.head (s.take n) = .more := by
        cases hv' : S.head (s.take n) with
        | more => rfl
        | bad =>
          have := S.bad_append (s.drop n) hv'
          rw [List.take_append_drop, hv] at this
          cases this
        | item b' k' =>
          have h1 := S.item_append (s.drop n) hv'
          rw [List.take_append_drop, hv] at h1
          cases h1
          have := (S.item_bounds hv').2
          simp only [List.length_take] at this
          omega
      rw [parse_more hm]
      simp only [Bool.false_eq_true, false_iff]
      omega

/-- The symbols of an item without its last ones show nothing yet. -/
theorem head_take_of_lt {s : List α} {b : β} {n m : ℕ} (h : S.head s = .item b n) (hm : m < n) :
    S.head (s.take m) = .more := by
  cases hv : S.head (s.take m) with
  | more => rfl
  | bad =>
    have := S.bad_append (s.drop m) hv
    rw [List.take_append_drop, h] at this
    cases this
  | item b' n' =>
    have hbounds := S.item_bounds hv
    have := S.item_append (s.drop m) hv
    rw [List.take_append_drop, h] at this
    cases this
    rw [List.length_take] at hbounds
    omega

/-- No item of `buf ++ t` ends inside `buf` when `buf` alone shows none. -/
theorem lt_ends_of_more {buf t : List α} (h : S.head buf = .more) (base : ℕ) :
    ∀ e ∈ endsFrom base (S.parse (buf ++ t)).items, base + buf.length < e := by
  cases hv : S.head (buf ++ t) with
  | more => simp [parse_more hv, endsFrom]
  | bad => simp [parse_bad hv, endsFrom]
  | item b n =>
    have hn : buf.length < n := by
      by_contra hn
      have := S.item_take hv
      rw [List.take_append_of_le_length (by omega)] at this
      have := S.item_append (buf.drop n) this
      rw [List.take_append_drop, h] at this
      cases this
    rw [parse_item hv]
    intro e he
    rcases List.mem_cons.1 he with rfl | he
    · omega
    · have := lt_of_mem_endsFrom (item_pos (S := S) _) he
      omega

/-- The first chunk shows an error exactly when the bad header ends in it. -/
theorem bad_header_in_iff {buf c : List α} (cs : List (List α))
    (h : (S.parse (buf ++ c ++ cs.flatten)).bad = true) :
    (S.parse (buf ++ c)).bad = true ↔
      (S.parse (buf ++ c ++ cs.flatten)).size + S.header ≤ buf.length + c.length := by
  have := bad_take_iff h (buf ++ c).length
  rwa [List.take_left' rfl, List.length_append] at this

/-- Sizes and lengths add up when a chunk without an error is split off. -/
theorem size_split {buf c : List α} (cs : List (List α)) (hc : (S.parse (buf ++ c)).bad = false) :
    (S.parse (buf ++ c ++ cs.flatten)).size = (S.parse (buf ++ c)).size +
        (S.parse ((S.parse (buf ++ c)).rest ++ cs.flatten)).size ∧
      (S.parse (buf ++ c)).size + (S.parse (buf ++ c)).rest.length =
        buf.length + c.length := by
  constructor
  · rw [parse_append _ hc]; simp [Parsed.prepend, Parsed.size]
  · have := size_le (S := S) (buf ++ c)
    rw [rest_eq_drop, List.length_drop]
    simp only [List.length_append] at this ⊢
    omega

/-- **Which items a chunked run gives before it stops at an error**: those that end at or before
the start of the chunk that completes the bad header. -/
theorem feed_of_bad {buf : List α} (cs : List (List α)) (hb : S.head buf = .more) (base : ℕ)
    (h : (S.parse (buf ++ cs.flatten)).bad = true) :
    S.feed buf cs =
      (endingBy (chunkStart (base + buf.length) cs
          (base + (S.parse (buf ++ cs.flatten)).size + S.header))
        base (S.parse (buf ++ cs.flatten)).items, true) := by
  induction cs generalizing buf base with
  | nil => simp [parse_more hb] at h
  | cons c cs ih =>
    rw [List.flatten_cons, ← List.append_assoc] at h ⊢
    simp only [chunkStart, feed]
    by_cases hc : (S.parse (buf ++ c)).bad = true
    · -- this chunk completes the bad header, and all its items are lost
      have hN := (bad_header_in_iff cs h).1 hc
      rw [if_pos hc, if_pos (by omega), endingBy_eq_nil]
      rw [List.append_assoc]
      exact lt_ends_of_more hb base
    · -- it does not end here: what is split off is yielded, and the rest is fed on
      have hN := mt (bad_header_in_iff cs h).2 hc
      rw [if_neg hc, if_neg (by omega)]
      rw [Bool.not_eq_true] at hc
      have hrest := head_rest (S := S) (buf ++ c)
      rw [hc] at hrest
      obtain ⟨hsize, hlen⟩ := size_split cs hc
      have hsplit := parse_append cs.flatten hc
      have hbad' : (S.parse ((S.parse (buf ++ c)).rest ++ cs.flatten)).bad = true := by
        rw [hsplit] at h; exact h
      have hbase : base + (S.parse (buf ++ c)).size + (S.parse (buf ++ c)).rest.length =
          base + buf.length + c.length := by omega
      rw [ih hrest (base + (S.parse (buf ++ c)).size) hbad', hbase, hsize, ← Nat.add_assoc, hsplit]
      simp only [Parsed.prepend]
      rw [endingBy_append_of_le]
      · rfl
      · have := le_chunkStart (base + buf.length + c.length) cs
          (base + (S.parse (buf ++ c)).size +
            (S.parse ((S.parse (buf ++ c)).rest ++ cs.flatten)).size + S.header)
        have hs : ((S.parse (buf ++ c)).items.map Prod.snd).sum = (S.parse (buf ++ c)).size := rfl
        omega

/-! ### What is kept after an error -/

/-- The end of the last item that ends at or before `bound`, for a stream that starts at `base`;
`base` itself when there is none. -/
def lastEnd (bound : ℕ) : ℕ → List (β × ℕ) → ℕ
  | base, [] => base
  | base, (_, n) :: l => if base + n ≤ bound then lastEnd bound (base + n) l else base

theorem le_lastEnd (bound base : ℕ) (l : List (β × ℕ)) : base ≤ lastEnd bound base l := by
  induction l generalizing base with
  | nil => exact le_refl _
  | cons i l ih =>
    rw [lastEnd]
    split_ifs
    · exact le_trans (Nat.le_add_right _ _) (ih _)
    · exact le_refl _

theorem lastEnd_append_of_le {bound base : ℕ} {l l' : List (β × ℕ)}
    (h : base + (l.map Prod.snd).sum ≤ bound) :
    lastEnd bound base (l ++ l') = lastEnd bound (base + (l.map Prod.snd).sum) l' := by
  induction l generalizing base with
  | nil => simp
  | cons i l ih =>
    simp only [List.map_cons, List.sum_cons] at h
    rw [List.cons_append, lastEnd, if_pos (by omega), ih (by omega)]
    simp [Nat.add_assoc]

theorem lastEnd_eq_base {bound base : ℕ} {l : List (β × ℕ)}
    (h : ∀ e ∈ endsFrom base l, bound < e) : lastEnd bound base l = base := by
  cases l with
  | nil => rfl
  | cons i l =>
    have hi := h (base + i.2) List.mem_cons_self
    rw [lastEnd, if_neg (by omega)]

theorem keep_of_bad_buf {buf : List α} (cs : List (List α)) (h : (S.parse buf).bad = true) :
    S.keep buf cs = buf ++ cs.flatten := by
  induction cs generalizing buf with
  | nil => simp [keep]
  | cons c cs ih =>
    have hc : (S.parse (buf ++ c)).bad = true := by rw [parse_append_of_bad c h]; exact h
    simp only [keep, hc, ↓reduceIte, ih hc, List.flatten_cons, List.append_assoc]

theorem keep_of_not_bad {buf : List α} (cs : List (List α)) (hb : S.head buf = .more)
    (h : (S.parse (buf ++ cs.flatten)).bad = false) :
    S.keep buf cs = (S.parse (buf ++ cs.flatten)).rest := by
  induction cs generalizing buf with
  | nil => simp [keep, parse_more hb]
  | cons c cs ih =>
    rw [List.flatten_cons, ← List.append_assoc] at h ⊢
    have hc := not_bad_of_append h
    have hrest := head_rest (S := S) (buf ++ c)
    rw [hc] at hrest
    rw [parse_append _ hc] at h ⊢
    simp only [keep, hc, Bool.false_eq_true, ↓reduceIte]
    exact ih hrest h

/-- **What is kept once an error arrived**: everything from the end of the last item that ends at
or before the start of the chunk that completes the bad header. -/
theorem keep_of_bad {buf : List α} (cs : List (List α)) (hb : S.head buf = .more) (base : ℕ)
    (h : (S.parse (buf ++ cs.flatten)).bad = true) :
    S.keep buf cs = (buf ++ cs.flatten).drop
      (lastEnd (chunkStart (base + buf.length) cs
          (base + (S.parse (buf ++ cs.flatten)).size + S.header))
        base (S.parse (buf ++ cs.flatten)).items - base) := by
  induction cs generalizing buf base with
  | nil => simp [parse_more hb] at h
  | cons c cs ih =>
    rw [List.flatten_cons, ← List.append_assoc] at h ⊢
    simp only [keep]
    by_cases hc : (S.parse (buf ++ c)).bad = true
    · -- the bad header ends in this chunk, and everything from here on is kept
      have hN := (bad_header_in_iff cs h).1 hc
      rw [if_pos hc, keep_of_bad_buf cs hc, chunkStart, if_pos (by omega), lastEnd_eq_base]
      · simp
      · rw [List.append_assoc]
        exact lt_ends_of_more hb base
    · -- it does not, and the items of this chunk go
      have hN := mt (bad_header_in_iff cs h).2 hc
      rw [if_neg hc, chunkStart, if_neg (by omega)]
      rw [Bool.not_eq_true] at hc
      have hrest := head_rest (S := S) (buf ++ c)
      rw [hc] at hrest
      obtain ⟨hsize, hlen⟩ := size_split cs hc
      have hbad' : (S.parse ((S.parse (buf ++ c)).rest ++ cs.flatten)).bad = true := by
        rw [parse_append cs.flatten hc] at h; exact h
      have hbase : base + (S.parse (buf ++ c)).size + (S.parse (buf ++ c)).rest.length =
          base + buf.length + c.length := by omega
      have hdrop : (S.parse (buf ++ c)).rest ++ cs.flatten =
          (buf ++ c ++ cs.flatten).drop (S.parse (buf ++ c)).size := by
        rw [rest_eq_drop, List.drop_append_of_le_length (size_le _)]
      rw [ih hrest (base + (S.parse (buf ++ c)).size) hbad', hbase, hsize, ← Nat.add_assoc]
      set bound := chunkStart (base + buf.length + c.length) cs
        (base + (S.parse (buf ++ c)).size +
          (S.parse ((S.parse (buf ++ c)).rest ++ cs.flatten)).size + S.header) with hbound
      have hle : base + buf.length + c.length ≤ bound := le_chunkStart _ _ _
      have hs : ((S.parse (buf ++ c)).items.map Prod.snd).sum = (S.parse (buf ++ c)).size := rfl
      have hitems : (S.parse (buf ++ c ++ cs.flatten)).items = (S.parse (buf ++ c)).items ++
          (S.parse ((S.parse (buf ++ c)).rest ++ cs.flatten)).items := by
        rw [parse_append cs.flatten hc]; rfl
      rw [hitems, lastEnd_append_of_le (by omega), hs, hdrop, List.drop_drop]
      congr 1
      have := le_lastEnd bound (base + (S.parse (buf ++ c)).size)
        (S.parse ((buf ++ c ++ cs.flatten).drop (S.parse (buf ++ c)).size)).items
      omega

theorem keep_append (buf : List α) (cs ds : List (List α)) :
    S.keep buf (cs ++ ds) = S.keep (S.keep buf cs) ds := by
  induction cs generalizing buf with
  | nil => rfl
  | cons c cs ih => rw [List.cons_append, keep, keep, ih]

theorem bad_keep (buf : List α) (cs : List (List α)) :
    (S.parse (S.keep buf cs)).bad = (S.parse (buf ++ cs.flatten)).bad := by
  induction cs generalizing buf with
  | nil => simp [keep]
  | cons c cs ih =>
    rw [keep, ih, List.flatten_cons, ← List.append_assoc]
    cases hc : (S.parse (buf ++ c)).bad with
    | true => rw [if_pos rfl]
    | false => rw [if_neg Bool.false_ne_true, parse_append cs.flatten hc]; rfl

theorem feed_nil_of_bad (cs : List (List α)) (hnil : S.head [] = .more)
    (h : (S.parse cs.flatten).bad = true) :
    S.feed [] cs =
      (endingBy (chunkStart 0 cs ((S.parse cs.flatten).size + S.header)) 0
        (S.parse cs.flatten).items, true) := by
  simpa using feed_of_bad cs hnil 0 (by simpa using h)

end Splitter

end Lib
