import Tephra.Lib.Machine

/-!
# Ranks

Some events of a machine come from outside, and others are the machine's own: work that is left to
do.  A rank that each of these lowers is a bound on how long a machine can run by itself.

* `Machine.Lowers` : every event of a kind lowers the rank.
* `Lowers.length_le` : a run of such events is no longer than the rank of its start.
* `Lowers.exists_idle` : from every state such a run leads to one where none of them can happen.
-/

namespace Lib

namespace Machine

variable {S E : Type*}

/-- No event of a kind can happen. -/
def Idle (M : Machine S E) (own : E → Prop) (s : S) : Prop := ∀ e, own e → M.step s e = none

/-- Every event of a kind lowers the rank. -/
def Lowers (M : Machine S E) (own : E → Prop) (rank : S → ℕ) : Prop :=
  ∀ s e t, own e → M.step s e = some t → rank t < rank s

variable {M : Machine S E} {own : E → Prop} {rank : S → ℕ}

theorem Lowers.length_le (h : M.Lowers own rank) {s t : S} {es : List E}
    (hrun : M.RunWith (fun _ e => own e) s es t) : es.length + rank t ≤ rank s := by
  induction hrun with
  | start => simp
  | snoc hrun hown hstep ih =>
    have hlt := h _ _ _ hown hstep
    rw [List.length_append, List.length_singleton]
    omega

theorem Lowers.exists_idle (h : M.Lowers own rank) (s : S) :
    ∃ es t, M.RunWith (fun _ e => own e) s es t ∧ M.Idle own t := by
  induction hn : rank s using Nat.strong_induction_on generalizing s with
  | _ n ih =>
    by_cases hidle : M.Idle own s
    · exact ⟨[], s, .start, hidle⟩
    · obtain ⟨e, hown, hstep⟩ : ∃ e, own e ∧ M.step s e ≠ none := by
        simpa only [Idle, not_forall, exists_prop] using hidle
      obtain ⟨t, ht⟩ := Option.ne_none_iff_exists'.1 hstep
      obtain ⟨es, u, hrun, hu⟩ := ih _ (hn ▸ h _ _ _ hown ht) t rfl
      exact ⟨e :: es, u, .cons hown ht hrun, hu⟩

end Machine

end Lib
