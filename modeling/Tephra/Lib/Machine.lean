import Mathlib

/-!
# Event machines

A program that reacts to events is a partial function `step : S → E → Option S`: an event that
cannot happen in a state has no successor.  Everything that is nondeterministic about such a
program (who is scheduled next, what the network delivers) is in the choice of the event.

* `Machine.Run M s es t` : the events `es`, in order, take `s` to `t`.
* `Machine.RunWith M ok s es t` : such a run all of whose steps satisfy `ok`, a condition on the
  state before the step and on the event.
* `RunWith.invariant`, `RunWith.history` : a property of the start that every step keeps holds at
  the end; the second may also read the events performed so far.
* `RunWith.rel` : a reflexive and transitive relation that contains every step contains the run.
* `Machine.observe` : what can be observed along a run; when a view of the state follows from the
  observations of one step, it follows from those of the run (`RunWith.view_eq`).
* `Machine.exec` : runs as a computation, for concrete traces; `exists_runWith_of_exec` reads a run
  off one.
-/

namespace Lib

/-- An event machine with states `S` and events `E`. -/
structure Machine (S E : Type*) where
  /-- `step s e` is the state after `e` happens in `s`, if it can happen there. -/
  step : S → E → Option S

namespace Machine

variable {S E : Type*} (M : Machine S E)

/-- The events `es` lead from `s` to the last index, and every step satisfies `ok`. -/
inductive RunWith (ok : S → E → Prop) (s : S) : List E → S → Prop
  | start : RunWith ok s [] s
  | snoc {es : List E} {e : E} {t u : S} :
      RunWith ok s es t → ok t e → M.step t e = some u → RunWith ok s (es ++ [e]) u

/-- The events `es` lead from `s` to the last index. -/
abbrev Run : S → List E → S → Prop := M.RunWith fun _ _ => True

/-- Perform a list of events. -/
def exec : S → List E → Option S
  | s, [] => some s
  | s, e :: es => (M.step s e).bind fun t => exec t es

/-- What is observed when a list of events happens, up to the first that cannot. -/
def observe {O : Type*} (out : S → E → List O) : S → List E → List O
  | _, [] => []
  | s, e :: es =>
    match M.step s e with
    | some t => out s e ++ observe out t es
    | none => []

variable {M} {ok : S → E → Prop}

namespace RunWith

theorem single {s t : S} {e : E} (hok : ok s e) (h : M.step s e = some t) :
    M.RunWith ok s [e] t :=
  .snoc .start hok h

theorem trans {s t u : S} {es fs : List E} (h : M.RunWith ok s es t)
    (h' : M.RunWith ok t fs u) : M.RunWith ok s (es ++ fs) u := by
  induction h' with
  | start => simpa using h
  | snoc _ hok hst ih => rw [← List.append_assoc]; exact .snoc ih hok hst

theorem cons {s t u : S} {e : E} {es : List E} (hok : ok s e) (h : M.step s e = some t)
    (h' : M.RunWith ok t es u) : M.RunWith ok s (e :: es) u :=
  (single hok h).trans h'

theorem mono {ok' : S → E → Prop} {s t : S} {es : List E} (h : M.RunWith ok s es t)
    (hok : ∀ s e, ok s e → ok' s e) : M.RunWith ok' s es t := by
  induction h with
  | start => exact .start
  | snoc _ ho hst ih => exact .snoc ih (hok _ _ ho) hst

theorem run {s t : S} {es : List E} (h : M.RunWith ok s es t) : M.Run s es t :=
  h.mono fun _ _ _ => trivial

/-- A run passes through a state after every prefix of its events. -/
theorem exists_of_append {s t : S} {es fs : List E} (h : M.RunWith ok s (es ++ fs) t) :
    ∃ u, M.RunWith ok s es u ∧ M.RunWith ok u fs t := by
  induction fs using List.reverseRecOn generalizing t with
  | nil => exact ⟨t, by rwa [List.append_nil] at h, .start⟩
  | append_singleton fs f ih =>
    rw [← List.append_assoc] at h
    generalize hes : es ++ fs ++ [f] = all at h
    cases h with
    | start => simp at hes
    | @snoc _ e t' _ hr hok hst =>
      obtain ⟨rfl, heq⟩ := List.append_inj' hes rfl
      cases heq
      obtain ⟨u, hu, hfs⟩ := ih hr
      exact ⟨u, hu, .snoc hfs hok hst⟩

/-- A property that holds at the start and that every step keeps holds at the end. -/
theorem invariant {I : S → Prop} {s t : S} {es : List E} (h : M.RunWith ok s es t) (h₀ : I s)
    (hstep : ∀ s e t, I s → ok s e → M.step s e = some t → I t) : I t := by
  induction h with
  | start => exact h₀
  | snoc _ hok hst ih => exact hstep _ _ _ ih hok hst

/-- As `invariant`, for a property that also reads the events performed so far. -/
theorem history {I : List E → S → Prop} {s t : S} {es : List E} (h : M.RunWith ok s es t)
    (h₀ : I [] s)
    (hstep : ∀ es s e t, I es s → ok s e → M.step s e = some t → I (es ++ [e]) t) : I es t := by
  induction h with
  | start => exact h₀
  | snoc _ hok hst ih => exact hstep _ _ _ _ ih hok hst

/-- Along a run that keeps an invariant `I`, a reflexive and transitive relation that contains
every step from an `I`-state relates the start to the end. -/
theorem rel {I : S → Prop} {R : S → S → Prop} {s t : S} {es : List E}
    (h : M.RunWith ok s es t) (h₀ : I s)
    (hI : ∀ s e t, I s → ok s e → M.step s e = some t → I t) (hrefl : ∀ s, R s s)
    (htrans : ∀ s t u, R s t → R t u → R s u)
    (hstep : ∀ s e t, I s → ok s e → M.step s e = some t → R s t) : R s t := by
  induction h with
  | start => exact hrefl s
  | snoc hr hok hst ih => exact htrans _ _ _ ih (hstep _ _ _ (hr.invariant h₀ hI) hok hst)

theorem observe_append {O : Type*} (out : S → E → List O) {s t : S} {es : List E}
    (h : M.RunWith ok s es t) (fs : List E) :
    M.observe out s (es ++ fs) = M.observe out s es ++ M.observe out t fs := by
  induction h generalizing fs with
  | start => rfl
  | @snoc es e t u _ _ hst ih =>
    have hone : ∀ fs, M.observe out t (e :: fs) = out t e ++ M.observe out u fs := fun fs => by
      rw [observe, hst]
    rw [List.append_assoc, List.singleton_append, ih, ih, hone, hone, observe, List.append_nil,
      List.append_assoc]

theorem observe_snoc {O : Type*} (out : S → E → List O) {s t u : S} {es : List E} {e : E}
    (h : M.RunWith ok s es t) (hst : M.step t e = some u) :
    M.observe out s (es ++ [e]) = M.observe out s es ++ out t e := by
  rw [h.observe_append, observe, hst]
  simp only [observe, List.append_nil]

/-- What holds of everything that a step allowed in the run puts out holds of what is observed. -/
theorem forall_mem_observe {O : Type*} {out : S → E → List O} {P : O → Prop} {s t : S} {es : List E}
    (h : M.RunWith ok s es t) (hout : ∀ s e, ok s e → ∀ o ∈ out s e, P o) :
    ∀ o ∈ M.observe out s es, P o := by
  induction h with
  | start => intro o ho; cases ho
  | snoc hr hok hst ih =>
    intro o ho
    rw [hr.observe_snoc out hst] at ho
    rcases List.mem_append.1 ho with ho | ho
    · exact ih o ho
    · exact hout _ _ hok o ho

/-- A view of the states that every step changes as its observations say is at the end what the
observations of the run make of it. -/
theorem view_eq {O V : Type*} {out : S → E → List O} {view : S → V} {react : V → O → V}
    {I : S → Prop} {s t : S} {es : List E} (h : M.RunWith ok s es t) (h₀ : I s)
    (hI : ∀ s e t, I s → ok s e → M.step s e = some t → I t)
    (hstep : ∀ s e t, I s → M.step s e = some t → view t = (out s e).foldl react (view s)) :
    view t = (M.observe out s es).foldl react (view s) := by
  induction h with
  | start => rfl
  | snoc hr hok hst ih =>
    rw [hr.observe_snoc out hst, List.foldl_append, ← ih, hstep _ _ _ (hr.invariant h₀ hI) hst]

end RunWith

/-- The machine that also refuses the steps that fail `p`. -/
def restrict (M : Machine S E) (p : S → E → Bool) : Machine S E where
  step s e := if p s e then M.step s e else none

theorem run_of_exec {s t : S} {es : List E} (h : M.exec s es = some t) : M.Run s es t := by
  induction es generalizing s with
  | nil => cases h; exact .start
  | cons e es ih =>
    simp only [exec, Option.bind_eq_some_iff] at h
    obtain ⟨u, hu, h⟩ := h
    exact .cons trivial hu (ih h)

theorem runWith_of_restrict {p : S → E → Bool} (hok : ∀ s e, p s e = true → ok s e) {s t : S}
    {es : List E} (h : (M.restrict p).Run s es t) : M.RunWith ok s es t := by
  induction h with
  | start => exact .start
  | @snoc es e t u _ _ hst ih =>
    simp only [restrict] at hst
    split_ifs at hst with hp
    exact .snoc ih (hok t e hp) hst

/-- A run read off a computation, with a property of its end. -/
theorem exists_runWith_of_exec {p : S → E → Bool} (hok : ∀ s e, p s e = true → ok s e) {s : S}
    {es : List E} {q : S → Bool} (h : ((M.restrict p).exec s es).any q = true) :
    ∃ t, M.RunWith ok s es t ∧ q t = true := by
  obtain ⟨t, ht, hq⟩ := (Option.any_eq_true _ _).1 h
  exact ⟨t, runWith_of_restrict hok (run_of_exec ht), hq⟩

theorem exists_run_of_exec {s : S} {es : List E} {q : S → Bool}
    (h : (M.exec s es).any q = true) : ∃ t, M.Run s es t ∧ q t = true := by
  obtain ⟨t, ht, hq⟩ := (Option.any_eq_true _ _).1 h
  exact ⟨t, run_of_exec ht, hq⟩

end Machine

end Lib
