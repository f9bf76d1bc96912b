import Mathlib

/-!
# Demultiplexing

A state with one component for each key, and events that are each for one key: an event changes the
component of its key only, in a way that depends on nothing but that component.

* `Demux.view_of_steps` : after a sequence of events a component is what its own events make of it.
* `Demux.view_filter` : the events for other keys might as well not have come.
-/

namespace Lib

/-- Components of a state, and what an event does to the component of its key. -/
structure Demux (S E K V : Type*) where
  view : S → K → V
  key : E → K
  respond : V → E → V

namespace Demux

variable {S E K V : Type*} [DecidableEq K] (D : Demux S E K V)

/-- `t` is a state that event `e` may lead to from `s`. -/
def Step (s : S) (e : E) (t : S) : Prop :=
  ∀ k, D.view t k = if k = D.key e then D.respond (D.view s k) e else D.view s k

/-- `t` is a state that the events `es` may lead to from `s`. -/
inductive Steps : S → List E → S → Prop
  | nil (s : S) : Steps s [] s
  | cons {s t u : S} {e : E} {es : List E} : D.Step s e t → Steps t es u → Steps s (e :: es) u

variable {D}

theorem Step.self {s t : S} {e : E} (h : D.Step s e t) :
    D.view t (D.key e) = D.respond (D.view s (D.key e)) e := by
  rw [h, if_pos rfl]

theorem Step.other {s t : S} {e : E} {k : K} (h : D.Step s e t) (hk : k ≠ D.key e) :
    D.view t k = D.view s k := by
  rw [h, if_neg hk]

/-- A component is what its own events make of it. -/
theorem view_of_steps {s t : S} {es : List E} (h : D.Steps s es t) (k : K) :
    D.view t k = (es.filter fun e => D.key e = k).foldl D.respond (D.view s k) := by
  induction h with
  | nil s => rfl
  | @cons s t u e es hstep _ ih =>
    rw [ih]
    by_cases hk : D.key e = k
    · rw [List.filter_cons_of_pos (by simpa using hk), List.foldl_cons, ← hk, hstep.self]
    · rw [List.filter_cons_of_neg (by simpa using hk), hstep.other (Ne.symm hk)]

/-- Leaving out the events for other keys changes nothing for a key. -/
theorem view_filter {s t u : S} {es : List E} {k : K} (h : D.Steps s es t)
    (h' : D.Steps s (es.filter fun e => D.key e = k) u) : D.view t k = D.view u k := by
  rw [view_of_steps h, view_of_steps h', List.filter_filter]
  simp only [Bool.and_self]

end Demux

end Lib
