import Mathlib.Data.List.Basic
import Mathlib.Order.Lattice

/-!
# Paging through a list

A list in increasing order of a key is read page by page: each page has at most so many of the
elements after a cursor, and the next cursor is the key of its last element.  In between the list
may grow at its end.

* `append_rest` : the first elements after a cursor, and what is after the last of them, are what
  was after the cursor.
* `pages_append_rest` : all pages, and what is after them in the end, are what is after the first
  cursor by then.
* `flatten_pages` : so after an empty page nothing was left out, and nothing came twice.
-/

namespace Lib

variable {α κ : Type*} [LinearOrder κ] {key : α → κ} {l p q : List α} {cursor : κ} {n : ℕ}

/-- What is after a cursor. -/
def rest (key : α → κ) (cursor : κ) (l : List α) : List α := l.filter fun a => cursor < key a

/-- A page. -/
def page (key : α → κ) (n : ℕ) (cursor : κ) (l : List α) : List α := (rest key cursor l).take n

/-- The cursor after a page. -/
def nextCursor (key : α → κ) (cursor : κ) (p : List α) : κ := (p.getLast?.map key).getD cursor

/-- The pages of a list, as it is at the time of each. -/
def pages (key : α → κ) (n : ℕ) : κ → List (List α) → List (List α)
  | _, [] => []
  | cursor, l :: ls =>
    page key n cursor l :: pages key n (nextCursor key cursor (page key n cursor l)) ls

/-- The cursor after all pages. -/
def lastCursor (key : α → κ) (n : ℕ) : κ → List (List α) → κ
  | cursor, [] => cursor
  | cursor, l :: ls => lastCursor key n (nextCursor key cursor (page key n cursor l)) ls

theorem pages_concat (ls : List (List α)) :
    pages key n cursor (ls ++ [l]) =
      pages key n cursor ls ++ [page key n (lastCursor key n cursor ls) l] := by
  induction ls generalizing cursor with
  | nil => rfl
  | cons l' ls ih => rw [List.cons_append, pages, ih, pages, lastCursor, List.cons_append]

theorem lt_key_of_mem_rest {a : α} (ha : a ∈ rest key cursor l) : cursor < key a :=
  of_decide_eq_true (List.mem_filter.1 ha).2

theorem rest_rest {cursor' : κ} (hle : cursor ≤ cursor') :
    rest key cursor' (rest key cursor l) = rest key cursor' l := by
  rw [rest, rest, List.filter_filter]
  refine List.filter_congr fun a _ => ?_
  by_cases hlt : cursor' < key a
  · simp [hlt, hle.trans_lt hlt]
  · simp [hlt]

theorem le_nextCursor (hp : ∀ a ∈ p, cursor < key a) : cursor ≤ nextCursor key cursor p := by
  rw [nextCursor]
  cases hlast : p.getLast? with
  | none => exact le_rfl
  | some a => exact (hp a (List.mem_of_getLast? hlast)).le

theorem le_lastCursor (n : ℕ) (cursor : κ) (ls : List (List α)) :
    cursor ≤ lastCursor key n cursor ls := by
  induction ls generalizing cursor with
  | nil => exact le_rfl
  | cons l ls ih =>
    rw [lastCursor]
    exact (le_nextCursor fun a ha => lt_key_of_mem_rest (List.mem_of_mem_take ha)).trans (ih _)

/-- What is after the last element of the first part of an increasing list is the second part. -/
theorem rest_nextCursor (hsorted : (p ++ q).Pairwise fun a b => key a < key b)
    (hcursor : ∀ a ∈ p ++ q, cursor < key a) :
    rest key (nextCursor key cursor p) (p ++ q) = q := by
  obtain ⟨hp, -, hpq⟩ := List.pairwise_append.1 hsorted
  rcases List.eq_nil_or_concat' p with rfl | ⟨p', b, rfl⟩
  · exact List.filter_eq_self.2 fun a ha => decide_eq_true (hcursor a ha)
  have hb : b ∈ p' ++ [b] := List.mem_append_right _ (List.mem_singleton_self b)
  have hnext : nextCursor key cursor (p' ++ [b]) = key b := by
    rw [nextCursor, List.getLast?_concat]
    rfl
  have hbefore : ∀ a ∈ p' ++ [b], ¬key b < key a := by
    intro a ha
    rcases List.mem_append.1 ha with ha | ha
    · exact ((List.pairwise_append.1 hp).2.2 a ha b (List.mem_singleton_self b)).not_gt
    · rw [List.mem_singleton.1 ha]
      exact lt_irrefl _
  rw [hnext, rest, List.filter_append,
    List.filter_eq_nil_iff.2 fun a ha => by simpa using hbefore a ha,
    List.filter_eq_self.2 fun a ha => decide_eq_true (hpq b hb a ha), List.nil_append]

/-- The first elements after a cursor, and what is after the last of them, are what was after the
cursor. -/
theorem append_rest (hsorted : l.Pairwise fun a b => key a < key b) (hp : p <+: rest key cursor l) :
    p ++ rest key (nextCursor key cursor p) l = rest key cursor l := by
  obtain ⟨q, hq⟩ := hp
  have hrest : (rest key cursor l).Pairwise fun a b => key a < key b := hsorted.filter _
  have hcursor : ∀ a ∈ p ++ q, cursor < key a := by
    intro a ha
    exact lt_key_of_mem_rest (hq ▸ ha)
  have hle : cursor ≤ nextCursor key cursor p :=
    le_nextCursor fun a ha => hcursor a (List.mem_append_left q ha)
  rw [← hq] at hrest
  have hnext := rest_nextCursor hrest hcursor
  rw [hq, rest_rest hle] at hnext
  rw [hnext, hq]

/-- All pages, and what is after them in the end, are what is after the first cursor, where this is
all that the list, as it is at the time of each, had after its cursor. -/
theorem pages_append_rest {ls : List (List α)} (hsorted : l.Pairwise fun a b => key a < key b)
    (hgrows : ∀ l' ∈ ls, ∀ c, cursor ≤ c → rest key c l' <+: rest key c l) :
    (pages key n cursor ls).flatten ++ rest key (lastCursor key n cursor ls) l =
      rest key cursor l := by
  induction ls generalizing cursor with
  | nil => rfl
  | cons l' ls ih =>
    obtain ⟨hl', hgrows⟩ := List.forall_mem_cons.1 hgrows
    have hpage : page key n cursor l' <+: rest key cursor l :=
      (List.take_prefix n _).trans (hl' cursor le_rfl)
    have hle : cursor ≤ nextCursor key cursor (page key n cursor l') :=
      le_nextCursor fun a ha => lt_key_of_mem_rest (List.mem_of_mem_take ha)
    rw [pages, lastCursor, List.flatten_cons, List.append_assoc,
      ih fun l' hmem c hc => hgrows l' hmem c (hle.trans hc)]
    exact append_rest hsorted hpage

theorem rest_of_getLast? {ls : List (List α)} (hn : 0 < n)
    (hend : (pages key n cursor (ls ++ [l])).getLast? = some []) :
    rest key (lastCursor key n cursor ls) l = [] ∧
      (pages key n cursor (ls ++ [l])).flatten = (pages key n cursor ls).flatten := by
  rw [pages_concat, List.getLast?_concat, Option.some.injEq] at hend
  refine ⟨?_, ?_⟩
  · rcases List.take_eq_nil_iff.1 hend with hzero | hnil
    · omega
    · exact hnil
  · rw [pages_concat, hend, List.flatten_append, List.flatten_singleton, List.append_nil]

/-- Where a list grows at its end and the last page is empty, nothing was left out and nothing came
twice. -/
theorem flatten_pages {ls : List (List α)} (hn : 0 < n)
    (hsorted : l.Pairwise fun a b => key a < key b) (hgrows : ∀ l' ∈ ls, l' <+: l)
    (hend : (pages key n cursor (ls ++ [l])).getLast? = some []) :
    (pages key n cursor (ls ++ [l])).flatten = rest key cursor l := by
  obtain ⟨hnil, hflatten⟩ := rest_of_getLast? hn hend
  have hpages : (pages key n cursor ls).flatten ++ rest key (lastCursor key n cursor ls) l =
      rest key cursor l := pages_append_rest hsorted fun l' hl' c _ => (hgrows l' hl').filter _
  rw [hnil, List.append_nil] at hpages
  rw [hflatten, hpages]

/-- What an increasing list has in front is not after the last element of a page of the others. -/
theorem rest_append_of_le (hsorted : (q ++ l).Pairwise fun a b => key a < key b)
    (hpage : page key n cursor l ≠ []) {c : κ}
    (hc : nextCursor key cursor (page key n cursor l) ≤ c) :
    rest key c (q ++ l) = rest key c l := by
  obtain ⟨p, b, hb⟩ := (List.eq_nil_or_concat' (page key n cursor l)).resolve_left hpage
  have hmem : b ∈ l := by
    have hmem : b ∈ page key n cursor l := hb ▸ List.mem_append_right p (List.mem_singleton_self b)
    exact List.mem_of_mem_filter (List.mem_of_mem_take hmem)
  rw [hb, nextCursor, List.getLast?_concat, Option.map_some, Option.getD_some] at hc
  rw [rest, List.filter_append, List.filter_eq_nil_iff.2, List.nil_append, rest]
  intro a ha
  have hlt := (List.pairwise_append.1 hsorted).2.2 a ha b hmem
  simpa using (hlt.trans_le hc).le

/-- Where it grows at its start instead, a first page that is not empty fixes what is read. -/
theorem flatten_pages_cons {ls : List (List α)} {last : List α} (hn : 0 < n)
    (hsorted : ∀ l' ∈ last :: ls, l'.Pairwise fun a b => key a < key b)
    (hgrows : ∀ l' ∈ last :: ls, l <:+ l') (hfirst : page key n cursor l ≠ [])
    (hend : (pages key n cursor (l :: ls ++ [last])).getLast? = some []) :
    (pages key n cursor (l :: ls ++ [last])).flatten = rest key cursor l := by
  have hsame : ∀ l' ∈ last :: ls, ∀ c, nextCursor key cursor (page key n cursor l) ≤ c →
      rest key c l' = rest key c l := by
    intro l' hl' c hc
    obtain ⟨new, rfl⟩ := hgrows l' hl'
    exact rest_append_of_le (hsorted _ hl') hfirst hc
  have hl : l.Pairwise fun a b => key a < key b :=
    (hsorted last List.mem_cons_self).sublist (hgrows last List.mem_cons_self).sublist
  obtain ⟨hnil, hflatten⟩ := rest_of_getLast? hn hend
  rw [lastCursor, hsame last List.mem_cons_self _ (le_lastCursor n _ ls)] at hnil
  have hpages : (pages key n (nextCursor key cursor (page key n cursor l)) ls).flatten ++
      rest key (lastCursor key n (nextCursor key cursor (page key n cursor l)) ls) l =
        rest key (nextCursor key cursor (page key n cursor l)) l :=
    pages_append_rest hl fun l' hl' c hc =>
      hsame l' (List.mem_cons_of_mem _ hl') c hc ▸ List.prefix_rfl
  rw [hnil, List.append_nil] at hpages
  rw [hflatten, pages, List.flatten_cons, hpages]
  exact append_rest hl (List.take_prefix n (rest key cursor l))

end Lib
