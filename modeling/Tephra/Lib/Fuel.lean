import Mathlib

/-!
# Loops with fuel

A loop that might not end is written with a bound on its turns, its fuel, and throws when that is
used up.  It ends when it returns the same value however much more fuel there is.

* `Ends f a` : with enough fuel, `f` returns `a`.
* `Ends.bind`, `Ends.foldlM` : what is put together of computations that end does too.
-/

namespace Lib

namespace Fuel

universe u v

variable {ε : Type u} {α β : Type v}

/-- With enough fuel the computation returns `a`. -/
def Ends (f : ℕ → Except ε α) (a : α) : Prop := ∃ n, ∀ fuel, n ≤ fuel → f fuel = .ok a

theorem Ends.ok (a : α) : Ends (fun _ => (.ok a : Except ε α)) a := ⟨0, fun _ _ => rfl⟩

theorem Ends.bind {f : ℕ → Except ε α} {g : ℕ → α → Except ε β} {a : α} {b : β} (hf : Ends f a)
    (hg : Ends (fun fuel => g fuel a) b) : Ends (fun fuel => f fuel >>= g fuel) b := by
  obtain ⟨n, hn⟩ := hf
  obtain ⟨m, hm⟩ := hg
  refine ⟨max n m, fun fuel hfuel => ?_⟩
  show (f fuel >>= g fuel) = _
  rw [hn fuel (le_of_max_le_left hfuel)]
  exact hm fuel (le_of_max_le_right hfuel)

/-- A loop over a list ends when its body does, with the view of what `g` computes. -/
theorem Ends.foldlM {σ τ : Type v} {f : ℕ → σ → α → Except ε σ} {g : τ → α → τ} {view : τ → σ}
    (hf : ∀ t a, Ends (fun fuel => f fuel (view t) a) (view (g t a))) (t : τ) (as : List α) :
    Ends (fun fuel => as.foldlM (f fuel) (view t)) (view (as.foldl g t)) := by
  induction as generalizing t with
  | nil => exact .ok (view t)
  | cons a as ih =>
    simp only [List.foldlM_cons, List.foldl_cons]
    exact Ends.bind (hf t a) (ih (g t a))

end Fuel

end Lib
