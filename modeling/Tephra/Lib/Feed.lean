import Mathlib

/-!
# Feeds

A sequence that is written at one end and read at the other, until it ends.  A reader asks for one
item after the other; an ask that comes while an earlier one has no answer yet is turned away, and
the others are numbered in order.  Ask number `i` is for item number `i`, and if there is none, it
is told how the sequence ended.

* `Feed.given_eq` : what the asks were given are the first items, in order, each once.
* `Feed.answer_write`, `Feed.answer_close` : an answer does not change.
* `Feed.answer_of_lt`, `Feed.answer_of_le` : an answer is an item, or the end.
-/

namespace Lib

/-- What was written to a sequence, and what was asked of it. -/
structure Feed (α τ : Type*) where
  /-- The items written before the end. -/
  items : List α
  /-- How it ended. -/
  ending : Option τ
  /-- The number of every ask, none for those that were turned away. -/
  asks : List (Option ℕ)
  /-- The numbers are given out in order. -/
  numbered : asks.reduceOption = List.range asks.reduceOption.length
  /-- Before the end at most one ask is without an answer. -/
  ahead : ending = none → asks.reduceOption.length ≤ items.length + 1

namespace Feed

variable {α τ : Type*}

/-- Nothing was written and nothing asked. -/
def empty : Feed α τ where
  items := []
  ending := none
  asks := []
  numbered := rfl
  ahead _ := Nat.zero_le _

variable (f : Feed α τ)

/-- How many asks were numbered. -/
def asked : ℕ := f.asks.reduceOption.length

/-- The items that nobody has asked for yet. -/
def unread : List α := f.items.drop f.asked

/-- Whether an ask has no answer. -/
def waiting : Bool := f.ending.isNone && f.items.length < f.asked

theorem waiting_iff {f : Feed α τ} :
    f.waiting = true ↔ f.ending = none ∧ f.items.length < f.asked := by
  simp [waiting]

/-- The answer to an ask, once there is one. -/
def answer (i : ℕ) : Option (α ⊕ τ) := (f.items[i]?.map .inl).or (f.ending.map .inr)

/-- Write an item, before the end. -/
def write (a : α) : Feed α τ :=
  if f.ending.isSome then f
  else
    { f with
      items := f.items ++ [a]
      ahead := fun h => (f.ahead h).trans (by rw [List.length_append]; omega) }

/-- End the sequence, if it has not ended. -/
def close (t : τ) : Feed α τ :=
  if f.ending.isSome then f else { f with ending := some t, ahead := fun h => nomatch h }

/-- Ask for an item. -/
def ask : Feed α τ where
  items := f.items
  ending := f.ending
  asks := f.asks ++ [if f.waiting then none else some f.asked]
  numbered := by
    rw [List.reduceOption_append]
    split
    · simpa using f.numbered
    · rw [f.numbered]
      simp [asked, List.range_succ]
  ahead h := by
    have hahead := f.ahead h
    rw [List.reduceOption_append, List.length_append]
    split
    · simpa using hahead
    · rename_i hwaiting
      rw [waiting_iff, asked, not_and, Nat.not_lt] at hwaiting
      exact Nat.succ_le_succ (hwaiting h)

variable {f}

theorem write_of_open (a : α) (h : f.ending = none) :
    (f.write a).items = f.items ++ [a] ∧ (f.write a).ending = none ∧ (f.write a).asks = f.asks := by
  rw [write, if_neg (by simp [h])]
  exact ⟨rfl, h, rfl⟩

theorem write_of_ended (a : α) (h : f.ending.isSome = true) : f.write a = f := if_pos h

theorem close_of_open (t : τ) (h : f.ending = none) :
    (f.close t).items = f.items ∧ (f.close t).ending = some t ∧ (f.close t).asks = f.asks := by
  rw [close, if_neg (by simp [h])]
  exact ⟨rfl, rfl, rfl⟩

theorem close_of_ended (t : τ) (h : f.ending.isSome = true) : f.close t = f := if_pos h

theorem ask_of_waiting (h : f.waiting = true) :
    f.ask.asks = f.asks ++ [none] ∧ f.ask.asked = f.asked := by
  have hasks : f.ask.asks = f.asks ++ [none] := congrArg (fun x => f.asks ++ [x]) (if_pos h)
  refine ⟨hasks, ?_⟩
  rw [asked, hasks, List.reduceOption_append, List.length_append]
  rfl

theorem ask_of_not_waiting (h : f.waiting = false) :
    f.ask.asks = f.asks ++ [some f.asked] ∧ f.ask.asked = f.asked + 1 := by
  have hasks : f.ask.asks = f.asks ++ [some f.asked] :=
    congrArg (fun x => f.asks ++ [x]) (if_neg (by simp [h]))
  refine ⟨hasks, ?_⟩
  rw [asked, hasks, List.reduceOption_append, List.length_append]
  rfl

/-! ### Asks -/

theorem pairwise_asks (f : Feed α τ) :
    f.asks.Pairwise fun x y => ∀ i ∈ x, ∀ j ∈ y, i < j := by
  have h : f.asks.reduceOption.Pairwise (· < ·) := by
    rw [f.numbered]
    exact List.pairwise_lt_range
  rw [List.reduceOption, List.pairwise_filterMap] at h
  exact h

theorem eq_of_asks {k k' i : ℕ} (h : f.asks[k]? = some (some i))
    (h' : f.asks[k']? = some (some i)) : k = k' := by
  have hpair := List.pairwise_iff_getElem.1 f.pairwise_asks
  obtain ⟨hk, hi⟩ := List.getElem?_eq_some_iff.1 h
  obtain ⟨hk', hi'⟩ := List.getElem?_eq_some_iff.1 h'
  rcases Nat.lt_trichotomy k k' with hlt | heq | hlt
  · exact absurd (hpair k k' hk hk' hlt i (by rw [hi]; rfl) i (by rw [hi']; rfl)) (lt_irrefl i)
  · exact heq
  · exact absurd (hpair k' k hk' hk hlt i (by rw [hi']; rfl) i (by rw [hi]; rfl)) (lt_irrefl i)

theorem mem_asks {i : ℕ} : some i ∈ f.asks ↔ i < f.asked := by
  rw [← List.reduceOption_mem_iff, f.numbered, List.mem_range]
  rfl

/-- **In order, each once**: the asks were given the first items. -/
theorem given_eq (f : Feed α τ) :
    f.asks.filterMap (fun x => x.bind (f.items[·]?)) = f.items.take f.asked := by
  have htake : ∀ (l : List α) (n : ℕ), (List.range n).filterMap (l[·]?) = l.take n := by
    intro l n
    induction n with
    | zero => rfl
    | succ n ih =>
      rw [List.range_succ, List.filterMap_append, ih, List.take_add_one, List.filterMap_cons]
      cases l[n]? <;> rfl
  rw [← htake, asked, ← f.numbered, List.reduceOption, List.filterMap_filterMap]
  rfl

/-! ### Answers -/

theorem answer_of_lt {i : ℕ} (h : i < f.items.length) : f.answer i = some (.inl (f.items[i])) := by
  rw [answer, List.getElem?_eq_getElem h]
  rfl

theorem answer_of_le {i : ℕ} (h : f.items.length ≤ i) : f.answer i = f.ending.map .inr := by
  rw [answer, List.getElem?_eq_none h]
  rfl

/-- An answer stays when more is written. -/
theorem answer_write {i : ℕ} {x : α ⊕ τ} (a : α) (h : f.answer i = some x) :
    (f.write a).answer i = some x := by
  rw [write]
  split_ifs with hended
  · exact h
  · have hopen : f.ending = none := by simpa using hended
    rcases Nat.lt_or_ge i f.items.length with hlt | hge
    · rw [answer_of_lt hlt] at h
      simpa [answer, hlt, List.getElem?_append] using h
    · rw [answer_of_le hge, hopen] at h
      cases h

/-- An answer stays when the sequence ends. -/
theorem answer_close {i : ℕ} {x : α ⊕ τ} (t : τ) (h : f.answer i = some x) :
    (f.close t).answer i = some x := by
  rw [close]
  split_ifs with hended
  · exact h
  · have hopen : f.ending = none := by simpa using hended
    rcases Nat.lt_or_ge i f.items.length with hlt | hge
    · rw [answer_of_lt hlt] at h
      simpa [answer, hlt] using h
    · rw [answer_of_le hge, hopen] at h
      cases h

end Feed

end Lib
