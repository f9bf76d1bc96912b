import Tephra.Errors

/-!
# Async primitives

`Deferred`, `Semaphore` and `Gate` of `util.ts`.  A promise that is resolved does not run the code
waiting for it at once, so each primitive also records what is resolved but has not run yet: the
`granted` acquires of a semaphore, the `resumed` waiter of a gate.  Running one of these is a step
of its own.

The waiters of a semaphore carry a value of type `ω`: whatever the code after `acquire` needs.
That a semaphore with waiters has no free permit is a field.
-/

namespace Tephra

/-! ### Deferred -/

/-- A promise with its `resolve` and `reject`, by the state of the promise. -/
inductive Deferred (α : Type)
  | pending
  | resolved (value : α)
  | rejected (reason : Err)
  deriving DecidableEq, Repr

namespace Deferred

variable {α : Type}

/-- `resolve`: only the first settlement counts. -/
def resolve (d : Deferred α) (value : α) : Deferred α :=
  match d with
  | pending => resolved value
  | _ => d

/-- `reject`: only the first settlement counts. -/
def reject (d : Deferred α) (reason : Err) : Deferred α :=
  match d with
  | pending => rejected reason
  | _ => d

/-- Whether the promise is settled. -/
def settled : Deferred α → Bool
  | pending => false
  | _ => true

theorem resolve_ne_pending (d : Deferred α) (value : α) : d.resolve value ≠ pending := by
  cases d <;> nofun

theorem reject_ne_pending (d : Deferred α) (reason : Err) : d.reject reason ≠ pending := by
  cases d <;> nofun

theorem resolve_of_ne {d : Deferred α} (h : d ≠ pending) (value : α) : d.resolve value = d := by
  cases d with
  | pending => exact absurd rfl h
  | resolved _ | rejected _ => rfl

theorem reject_of_ne {d : Deferred α} (h : d ≠ pending) (reason : Err) : d.reject reason = d := by
  cases d with
  | pending => exact absurd rfl h
  | resolved _ | rejected _ => rfl

end Deferred

/-! ### Semaphore -/

/-- A counting semaphore with FIFO waiters. -/
structure Semaphore (ω : Type) where
  /-- Free permits. -/
  permits : ℕ
  /-- Acquires waiting for a permit, oldest first. -/
  waiters : List ω
  /-- Acquires that have a permit and have not run on yet. -/
  granted : List ω
  /-- Nobody waits while a permit is free. -/
  permits_eq_zero : waiters ≠ [] → permits = 0

namespace Semaphore

variable {ω : Type}

/-- `new Semaphore(permits)`. -/
def new (permits : ℕ) : Semaphore ω where
  permits := permits
  waiters := []
  granted := []
  permits_eq_zero h := absurd rfl h

/-- `acquire`. -/
def acquire (s : Semaphore ω) (w : ω) : Semaphore ω :=
  if h : s.permits > 0 then
    { s with
      permits := s.permits - 1
      granted := s.granted ++ [w]
      permits_eq_zero := fun hw => absurd (s.permits_eq_zero hw) (by omega) }
  else { s with waiters := s.waiters ++ [w], permits_eq_zero := fun _ => by omega }

/-- `release`: the oldest waiter gets the permit; without one it is free again. -/
def release (s : Semaphore ω) : Semaphore ω :=
  match h : s.waiters with
  | next :: waiters =>
    { s with
      waiters := waiters
      granted := s.granted ++ [next]
      permits_eq_zero := fun _ => s.permits_eq_zero (by simp [h]) }
  | [] => { s with permits := s.permits + 1, permits_eq_zero := fun hw => absurd h hw }

/-- `drainWaiters`: every waiter runs on, without a permit. -/
def drainWaiters (s : Semaphore ω) : Semaphore ω where
  permits := s.permits
  waiters := []
  granted := s.granted ++ s.waiters
  permits_eq_zero h := absurd rfl h

/-- `release`, `n` times. -/
def releaseN (s : Semaphore ω) (n : ℕ) : Semaphore ω := release^[n] s

/-- The first acquire with property `p` that may run on, taken out. -/
def resume (s : Semaphore ω) (p : ω → Bool) : Option (ω × Semaphore ω) :=
  (s.granted.find? p).map fun w => (w, { s with granted := s.granted.eraseP p })

/-- Permits that are free or granted to code that has not run on yet. -/
def floating (s : Semaphore ω) : ℕ := s.permits + s.granted.length

/-- Everyone between `acquire` and the code after it. -/
def users (s : Semaphore ω) : List ω := s.waiters ++ s.granted

/-- The same, in the order of their acquires as long as they run on in turn. -/
def line (s : Semaphore ω) : List ω := s.granted ++ s.waiters

variable {s : Semaphore ω} {w : ω}

theorem acquire_of_pos (h : 0 < s.permits) :
    (s.acquire w).permits = s.permits - 1 ∧ (s.acquire w).waiters = s.waiters ∧
      (s.acquire w).granted = s.granted ++ [w] := by
  rw [acquire, dif_pos h]
  exact ⟨rfl, rfl, rfl⟩

theorem acquire_of_zero (h : s.permits = 0) :
    (s.acquire w).permits = s.permits ∧ (s.acquire w).waiters = s.waiters ++ [w] ∧
      (s.acquire w).granted = s.granted := by
  rw [acquire, dif_neg (by omega)]
  exact ⟨rfl, rfl, rfl⟩

theorem release_of_nil (h : s.waiters = []) :
    s.release.permits = s.permits + 1 ∧ s.release.waiters = [] ∧ s.release.granted = s.granted := by
  unfold release
  split
  · rename_i hw; rw [h] at hw; cases hw
  · exact ⟨rfl, h, rfl⟩

theorem release_of_cons {ws : List ω} (h : s.waiters = w :: ws) :
    s.release.permits = s.permits ∧ s.release.waiters = ws ∧
      s.release.granted = s.granted ++ [w] := by
  unfold release
  split
  · rename_i hw
    rw [h] at hw
    cases hw
    exact ⟨rfl, rfl, rfl⟩
  · rename_i hw; rw [h] at hw; cases hw

@[simp] theorem floating_acquire (s : Semaphore ω) (w : ω) :
    (s.acquire w).floating = s.floating := by
  rcases Nat.eq_zero_or_pos s.permits with h | h
  · obtain ⟨hp, -, hg⟩ := acquire_of_zero (w := w) h
    rw [floating, hp, hg, floating]
  · obtain ⟨hp, -, hg⟩ := acquire_of_pos (w := w) h
    rw [floating, hp, hg, floating, List.length_append, List.length_singleton]
    omega

@[simp] theorem floating_release (s : Semaphore ω) : s.release.floating = s.floating + 1 := by
  cases h : s.waiters with
  | nil =>
    obtain ⟨hp, -, hg⟩ := release_of_nil h
    rw [floating, hp, hg, floating]
    omega
  | cons w ws =>
    obtain ⟨hp, -, hg⟩ := release_of_cons h
    rw [floating, hp, hg, floating, List.length_append, List.length_singleton]
    omega

theorem users_acquire (s : Semaphore ω) (w : ω) : (s.acquire w).users.Perm (w :: s.users) := by
  rcases Nat.eq_zero_or_pos s.permits with h | h
  · obtain ⟨-, hw, hg⟩ := acquire_of_zero (w := w) h
    rw [users, hw, hg, List.append_assoc, List.singleton_append]
    exact List.perm_middle
  · obtain ⟨-, hw, hg⟩ := acquire_of_pos (w := w) h
    rw [users, hw, hg, ← List.append_assoc]
    exact List.perm_append_singleton w _

theorem users_release (s : Semaphore ω) : s.release.users.Perm s.users := by
  cases h : s.waiters with
  | nil =>
    obtain ⟨-, hw, hg⟩ := release_of_nil h
    rw [users, users, hw, hg, h]
  | cons w ws =>
    obtain ⟨-, hw, hg⟩ := release_of_cons h
    rw [users, users, hw, hg, h, ← List.append_assoc]
    exact List.perm_append_singleton w _

theorem users_drainWaiters (s : Semaphore ω) : s.drainWaiters.users.Perm s.users :=
  (List.perm_append_comm : (s.granted ++ s.waiters).Perm (s.waiters ++ s.granted))

theorem mem_users_acquire {x : ω} : x ∈ (s.acquire w).users ↔ x = w ∨ x ∈ s.users := by
  rw [(users_acquire s w).mem_iff, List.mem_cons]

@[simp] theorem mem_users_release {x : ω} : x ∈ s.release.users ↔ x ∈ s.users :=
  (users_release s).mem_iff

@[simp] theorem mem_users_drainWaiters {x : ω} : x ∈ s.drainWaiters.users ↔ x ∈ s.users :=
  (users_drainWaiters s).mem_iff

@[simp] theorem releaseN_zero (s : Semaphore ω) : s.releaseN 0 = s := rfl

theorem releaseN_succ (s : Semaphore ω) (n : ℕ) : s.releaseN (n + 1) = (s.releaseN n).release :=
  Function.iterate_succ_apply' _ _ _

@[simp] theorem floating_releaseN (s : Semaphore ω) (n : ℕ) :
    (s.releaseN n).floating = s.floating + n := by
  induction n with
  | zero => rfl
  | succ n ih => rw [releaseN_succ, floating_release, ih, Nat.add_assoc]

theorem users_releaseN (s : Semaphore ω) (n : ℕ) : (s.releaseN n).users.Perm s.users := by
  induction n with
  | zero => rfl
  | succ n ih => rw [releaseN_succ]; exact (users_release _).trans ih

@[simp] theorem mem_users_releaseN {x : ω} {n : ℕ} : x ∈ (s.releaseN n).users ↔ x ∈ s.users :=
  (users_releaseN s n).mem_iff

theorem resume_eq_some {p : ω → Bool} {s' : Semaphore ω} (h : s.resume p = some (w, s')) :
    p w = true ∧ s'.permits = s.permits ∧ s'.waiters = s.waiters ∧
      ∃ l₁ l₂, s.granted = l₁ ++ w :: l₂ ∧ s'.granted = l₁ ++ l₂ := by
  simp only [resume, Option.map_eq_some_iff, Prod.mk.injEq] at h
  obtain ⟨w', hw, rfl, rfl⟩ := h
  refine ⟨List.find?_some hw, rfl, rfl, ?_⟩
  obtain ⟨hp, l₁, l₂, hl, hnot⟩ := List.find?_eq_some_iff_append.1 hw
  refine ⟨l₁, l₂, hl, ?_⟩
  have hnot' : ∀ a ∈ l₁, ¬ p a = true := fun a ha => by simpa using hnot a ha
  simp only [hl, List.eraseP_append_right _ hnot', List.eraseP_cons_of_pos hp]

theorem floating_resume {p : ω → Bool} {s' : Semaphore ω} (h : s.resume p = some (w, s')) :
    s'.floating + 1 = s.floating := by
  obtain ⟨-, hp, -, l₁, l₂, hl, hl'⟩ := resume_eq_some h
  simp only [floating, hp, hl, hl', List.length_append, List.length_cons]
  omega

theorem users_of_resume {p : ω → Bool} {s' : Semaphore ω} (h : s.resume p = some (w, s')) :
    s.users.Perm (w :: s'.users) := by
  obtain ⟨-, -, hw, l₁, l₂, hl, hl'⟩ := resume_eq_some h
  rw [users, users, hw, hl, hl', ← List.append_assoc, ← List.append_assoc]
  exact List.perm_middle

@[simp] theorem line_acquire (s : Semaphore ω) (w : ω) : (s.acquire w).line = s.line ++ [w] := by
  rcases Nat.eq_zero_or_pos s.permits with h | h
  · obtain ⟨-, hw, hg⟩ := acquire_of_zero (w := w) h
    rw [line, hw, hg, line, List.append_assoc]
  · have hnone : s.waiters = [] := by
      by_contra hne
      exact h.ne' (s.permits_eq_zero hne)
    obtain ⟨-, hw, hg⟩ := acquire_of_pos (w := w) h
    rw [line, hw, hg, line, hnone, List.append_nil, List.append_nil]

/-- A permit goes to the first of those that wait, right behind those that have one. -/
@[simp] theorem line_release (s : Semaphore ω) : s.release.line = s.line := by
  cases h : s.waiters with
  | nil =>
    obtain ⟨-, hw, hg⟩ := release_of_nil h
    rw [line, hw, hg, line, h]
  | cons w ws =>
    obtain ⟨-, hw, hg⟩ := release_of_cons h
    rw [line, hw, hg, line, h, List.append_assoc, List.singleton_append]

@[simp] theorem line_releaseN (s : Semaphore ω) (n : ℕ) : (s.releaseN n).line = s.line := by
  induction n with
  | zero => rfl
  | succ n ih => rw [releaseN_succ, line_release, ih]

@[simp] theorem line_drainWaiters (s : Semaphore ω) : s.drainWaiters.line = s.line :=
  List.append_nil _

theorem mem_line {x : ω} : x ∈ s.line ↔ x ∈ s.users := by
  rw [line, users, List.mem_append, List.mem_append, or_comm]

/-- Whoever runs on leaves the line, which closes up; in front of it is nobody that could have run
on instead. -/
theorem line_of_resume {p : ω → Bool} {s' : Semaphore ω} (h : s.resume p = some (w, s')) :
    ∃ l₁ l₂, s.line = l₁ ++ w :: l₂ ∧ s'.line = l₁ ++ l₂ ∧
      (s.granted.head?.any p = true → l₁ = []) := by
  simp only [resume, Option.map_eq_some_iff, Prod.mk.injEq] at h
  obtain ⟨w', hw, rfl, rfl⟩ := h
  obtain ⟨hp, l₁, l₂, hl, hnot⟩ := List.find?_eq_some_iff_append.1 hw
  have hnot' : ∀ a ∈ l₁, ¬ p a = true := fun a ha => by simpa using hnot a ha
  refine ⟨l₁, l₂ ++ s.waiters, ?_, ?_, fun hhead => ?_⟩
  · rw [line, hl, List.append_assoc, List.cons_append]
  · simp only [line, hl, List.eraseP_append_right _ hnot', List.eraseP_cons_of_pos hp,
      List.append_assoc]
  · cases l₁ with
    | nil => rfl
    | cons a l₁ =>
      rw [hl] at hhead
      exact absurd hhead (hnot' a List.mem_cons_self)

theorem resume_isSome {p : ω → Bool} (hw : w ∈ s.granted) (hp : p w = true) :
    (s.resume p).isSome = true := by
  rw [resume, Option.isSome_map, List.find?_isSome]
  exact ⟨w, hw, hp⟩

end Semaphore

/-! ### Gate -/

/-- A gate with at most one waiter. -/
structure Gate where
  /-- Whether someone waits. -/
  waiter : Bool
  /-- Whether a signal came while nobody waited. -/
  signalled : Bool
  /-- Whether the waiter was let through and has not run on yet. -/
  resumed : Bool
  deriving DecidableEq, Repr

namespace Gate

/-- `new Gate()`. -/
def new : Gate := { waiter := false, signalled := false, resumed := false }

/-- `signal`. -/
def signal (g : Gate) : Gate :=
  if g.waiter then { g with waiter := false, resumed := true } else { g with signalled := true }

/-- `wait`. -/
def wait (g : Gate) : Gate :=
  if g.signalled then { g with signalled := false, resumed := true } else { g with waiter := true }

@[simp] theorem waiter_signal (g : Gate) : g.signal.waiter = false := by
  unfold signal
  split
  · rfl
  · rename_i h; exact Bool.eq_false_iff.2 h

end Gate

end Tephra
