import Mathlib

/-!
# Insertion-ordered maps

`OrdMap κ α` is a finite map that remembers the order its keys were added in, as JavaScript's
`Map` does: setting a key that is present keeps its place, setting a new one appends it.  That
every key occurs once is a field of the structure.

Besides the usual `get?` equations, `countP` counts the values with a property and `sum` adds up a
number for each, and the `countP_*` and `sum_*` lemmas say how an update changes these; they are
what bookkeeping arguments ("as many permits are out as there are entries holding one") need.
-/

namespace Lib

/-- A finite map that remembers insertion order. -/
structure OrdMap (κ α : Type*) where
  /-- Keys with their values, oldest first. -/
  entries : List (κ × α)
  /-- Every key occurs once. -/
  nodup : (entries.map Prod.fst).Nodup

namespace OrdMap

variable {κ α : Type*}

/-- The map with no keys. -/
def empty : OrdMap κ α := ⟨[], by simp⟩

instance : Inhabited (OrdMap κ α) := ⟨empty⟩

/-- Keys, oldest first. -/
def keys (m : OrdMap κ α) : List κ := m.entries.map Prod.fst

/-- How many values satisfy `p`. -/
def countP (p : α → Bool) (m : OrdMap κ α) : ℕ := m.entries.countP fun e => p e.2

/-- The sum of `g` over all values. -/
def sum (g : α → ℕ) (m : OrdMap κ α) : ℕ := (m.entries.map fun e => g e.2).sum

variable [DecidableEq κ]

/-- The value at `k`. -/
def get? (m : OrdMap κ α) (k : κ) : Option α := (m.entries.find? fun e => e.1 = k).map Prod.snd

/-- Whether `k` is a key. -/
def has (m : OrdMap κ α) (k : κ) : Bool := (m.get? k).isSome

/-- Replace the value at `k`, if there is one. -/
def modify (m : OrdMap κ α) (k : κ) (f : α → α) : OrdMap κ α where
  entries := m.entries.map fun e => if e.1 = k then (e.1, f e.2) else e
  nodup := by
    have : ((m.entries.map fun e => if e.1 = k then (e.1, f e.2) else e).map Prod.fst) =
        m.entries.map Prod.fst := by
      rw [List.map_map]
      refine List.map_congr_left fun e _ => ?_
      simp only [Function.comp]
      split_ifs <;> rfl
    rw [this]
    exact m.nodup

/-- Remove `k`. -/
def delete (m : OrdMap κ α) (k : κ) : OrdMap κ α where
  entries := m.entries.filter fun e => e.1 ≠ k
  nodup := m.nodup.sublist (List.filter_sublist.map _)

theorem get?_eq_none_iff {m : OrdMap κ α} {k : κ} : m.get? k = none ↔ k ∉ m.keys := by
  simp only [get?, keys, Option.map_eq_none_iff, List.find?_eq_none, List.mem_map,
    decide_eq_true_eq]
  constructor
  · rintro h ⟨e, he, rfl⟩; exact h e he rfl
  · rintro h e he rfl; exact h ⟨e, he, rfl⟩

/-- Set `k` to `v`: in place when `k` is present, at the end when it is new. -/
def set (m : OrdMap κ α) (k : κ) (v : α) : OrdMap κ α :=
  if h : m.get? k = none then
    { entries := m.entries ++ [(k, v)]
      nodup := by
        rw [List.map_append, List.nodup_append]
        refine ⟨m.nodup, by simp, ?_⟩
        have hk : k ∉ m.entries.map Prod.fst := get?_eq_none_iff.1 h
        rintro a ha b hb rfl
        simp only [List.map_cons, List.map_nil, List.mem_singleton] at hb
        exact hk (hb ▸ ha) }
  else m.modify k fun _ => v

/-! ### What a lookup finds -/

theorem get?_eq_some_iff {m : OrdMap κ α} {k : κ} {v : α} :
    m.get? k = some v ↔ (k, v) ∈ m.entries := by
  obtain ⟨l, hl⟩ := m
  simp only [get?, Option.map_eq_some_iff]
  constructor
  · rintro ⟨e, he, rfl⟩
    have hk := List.find?_some he
    simp only [decide_eq_true_eq] at hk
    subst hk
    exact List.mem_of_find?_eq_some he
  · intro h
    refine ⟨(k, v), ?_, rfl⟩
    induction l with
    | nil => cases h
    | cons e l ih =>
      simp only [List.map_cons, List.nodup_cons] at hl
      rcases List.mem_cons.1 h with rfl | h
      · simp
      · have hne : e.1 ≠ k := by
          rintro rfl
          exact hl.1 (List.mem_map.2 ⟨_, h, rfl⟩)
        rw [List.find?_cons_of_neg (by simpa using hne)]
        exact ih hl.2 h

theorem has_iff {m : OrdMap κ α} {k : κ} : m.has k = true ↔ k ∈ m.keys := by
  rw [has, Option.isSome_iff_ne_none, ne_eq, get?_eq_none_iff, not_not]

theorem exists_of_mem_keys {m : OrdMap κ α} {k : κ} (h : k ∈ m.keys) : ∃ v, m.get? k = some v := by
  rwa [← has_iff, has, Option.isSome_iff_exists] at h

@[simp] theorem get?_empty (k : κ) : (empty : OrdMap κ α).get? k = none := rfl

omit [DecidableEq κ] in
@[simp] theorem keys_empty : (empty : OrdMap κ α).keys = [] := rfl

theorem get?_modify (m : OrdMap κ α) (k k' : κ) (f : α → α) :
    (m.modify k f).get? k' = if k' = k then (m.get? k').map f else m.get? k' := by
  obtain ⟨l, hl⟩ := m
  simp only [get?, modify]
  induction l with
  | nil => simp
  | cons e l ih =>
    have ih := ih (List.nodup_cons.1 hl).2
    simp only [List.map_cons, List.find?_cons]
    by_cases hek : e.1 = k
    · by_cases hk : k' = k
      · simp [hek, hk]
      · simp only [hek, ↓reduceIte, Ne.symm hk, decide_false]
        exact ih
    · by_cases hk' : e.1 = k'
      · have hne : k' ≠ k := fun h => hek (hk'.trans h)
        simp [hk', hne]
      · simp only [hek, ↓reduceIte, hk', decide_false]
        exact ih

@[simp] theorem get?_modify_self (m : OrdMap κ α) (k : κ) (f : α → α) :
    (m.modify k f).get? k = (m.get? k).map f := by
  simp [get?_modify]

theorem get?_modify_of_ne {m : OrdMap κ α} {k k' : κ} (f : α → α) (h : k' ≠ k) :
    (m.modify k f).get? k' = m.get? k' := by
  simp [get?_modify, h]

/-- What is found in a modified map is the modified value, or one of another key. -/
theorem get?_modify_eq_some {m : OrdMap κ α} {k k' : κ} {f : α → α} {v : α} :
    (m.modify k f).get? k' = some v ↔
      (k' = k ∧ ∃ w, m.get? k = some w ∧ f w = v) ∨ (k' ≠ k ∧ m.get? k' = some v) := by
  rw [get?_modify]
  split_ifs with h
  · simp [h]
  · simp [h]

theorem get?_set (m : OrdMap κ α) (k k' : κ) (v : α) :
    (m.set k v).get? k' = if k' = k then some v else m.get? k' := by
  by_cases h : m.get? k = none
  · rw [set, dif_pos h]
    simp only [get?, List.find?_append]
    by_cases hk : k' = k
    · subst hk
      simp only [get?, Option.map_eq_none_iff] at h
      simp [h]
    · simp [hk, Ne.symm hk]
  · rw [set, dif_neg h, get?_modify]
    split_ifs with hk
    · subst hk
      obtain ⟨w, hw⟩ := Option.ne_none_iff_exists'.1 h
      simp [hw]
    · rfl

@[simp] theorem get?_set_self (m : OrdMap κ α) (k : κ) (v : α) : (m.set k v).get? k = some v := by
  simp [get?_set]

theorem get?_set_of_ne {m : OrdMap κ α} {k k' : κ} (v : α) (h : k' ≠ k) :
    (m.set k v).get? k' = m.get? k' := by
  simp [get?_set, h]

theorem get?_delete (m : OrdMap κ α) (k k' : κ) :
    (m.delete k).get? k' = if k' = k then none else m.get? k' := by
  obtain ⟨l, hl⟩ := m
  simp only [get?, delete, List.find?_filter]
  split_ifs with h
  · subst h
    simp
  · congr 1
    refine congrArg (fun p => l.find? p) (funext fun e => ?_)
    by_cases he : e.1 = k'
    · simp [he, h]
    · simp [he]

@[simp] theorem get?_delete_self (m : OrdMap κ α) (k : κ) : (m.delete k).get? k = none := by
  simp [get?_delete]

theorem get?_delete_eq_some {m : OrdMap κ α} {k k' : κ} {v : α} :
    (m.delete k).get? k' = some v ↔ k' ≠ k ∧ m.get? k' = some v := by
  rw [get?_delete]
  split_ifs with h
  · simp [h]
  · simp [h]

theorem get?_delete_of_ne {m : OrdMap κ α} {k k' : κ} (h : k' ≠ k) :
    (m.delete k).get? k' = m.get? k' := by
  simp [get?_delete, h]

theorem modify_modify (m : OrdMap κ α) (k : κ) (f g : α → α) :
    (m.modify k f).modify k g = m.modify k (g ∘ f) := by
  simp only [modify, List.map_map]
  congr 1
  refine List.map_congr_left fun e _ => ?_
  by_cases h : e.1 = k <;> simp [h]

theorem get?_foldl_modify {ks : List κ} (h : ks.Nodup) (m : OrdMap κ α) (f : α → α) (k : κ) :
    (ks.foldl (fun m k => m.modify k f) m).get? k =
      if k ∈ ks then (m.get? k).map f else m.get? k := by
  induction ks generalizing m with
  | nil => simp
  | cons k' ks ih =>
    obtain ⟨hk', hks⟩ := List.nodup_cons.1 h
    rw [List.foldl_cons, ih hks]
    by_cases hk : k = k'
    · subst hk
      simp [hk']
    · rw [get?_modify_of_ne f hk]
      simp [hk]

omit [DecidableEq κ] in
theorem nodup_keys (m : OrdMap κ α) : m.keys.Nodup := m.nodup

/-! ### Keys -/

@[simp] theorem keys_modify (m : OrdMap κ α) (k : κ) (f : α → α) :
    (m.modify k f).keys = m.keys := by
  simp only [keys, modify, List.map_map]
  refine List.map_congr_left fun e _ => ?_
  simp only [Function.comp]
  split_ifs <;> rfl

theorem mem_keys_set {m : OrdMap κ α} {k k' : κ} {v : α} :
    k' ∈ (m.set k v).keys ↔ k' = k ∨ k' ∈ m.keys := by
  rw [← has_iff, ← has_iff, has, has, get?_set]
  split_ifs with h <;> simp [h]

theorem mem_keys_delete {m : OrdMap κ α} {k k' : κ} :
    k' ∈ (m.delete k).keys ↔ k' ≠ k ∧ k' ∈ m.keys := by
  rw [← has_iff, ← has_iff, has, has, get?_delete]
  split_ifs with h <;> simp [h]

/-! ### Counting values -/

omit [DecidableEq κ] in
@[simp] theorem countP_empty (p : α → Bool) : (empty : OrdMap κ α).countP p = 0 := rfl

theorem countP_delete {m : OrdMap κ α} {k : κ} {v : α} (p : α → Bool) (h : m.get? k = some v) :
    (m.delete k).countP p + (p v).toNat = m.countP p := by
  obtain ⟨l, hl⟩ := m
  rw [get?_eq_some_iff] at h
  simp only [countP, delete] at h ⊢
  induction l with
  | nil => cases h
  | cons e l ih =>
    simp only [List.map_cons, List.nodup_cons] at hl
    rcases List.mem_cons.1 h with rfl | h
    · -- the key is gone from the rest, so the filter keeps all of it
      have hkeep : (l.filter fun e => e.1 ≠ k) = l := by
        rw [List.filter_eq_self]
        intro e he
        simp only [ne_eq, decide_not, Bool.not_eq_eq_eq_not, Bool.not_true, decide_eq_false_iff_not]
        rintro rfl
        exact hl.1 (List.mem_map.2 ⟨e, he, rfl⟩)
      rw [List.filter_cons_of_neg (by simp), hkeep, List.countP_cons]
      cases p v <;> simp
    · have hne : e.1 ≠ k := by
        rintro rfl
        exact hl.1 (List.mem_map.2 ⟨_, h, rfl⟩)
      rw [List.filter_cons_of_pos (by simpa using hne), List.countP_cons, List.countP_cons]
      have := ih hl.2 h
      omega

theorem countP_modify {m : OrdMap κ α} {k : κ} {v : α} (p : α → Bool) (f : α → α)
    (h : m.get? k = some v) :
    (m.modify k f).countP p + (p v).toNat = m.countP p + (p (f v)).toNat := by
  obtain ⟨l, hl⟩ := m
  rw [get?_eq_some_iff] at h
  simp only [countP, modify] at h ⊢
  induction l with
  | nil => cases h
  | cons e l ih =>
    simp only [List.map_cons, List.nodup_cons] at hl
    simp only [List.map_cons, List.countP_cons]
    rcases List.mem_cons.1 h with rfl | h
    · have hkeep : (l.map fun e => if e.1 = k then (e.1, f e.2) else e) = l := by
        conv_rhs => rw [← List.map_id l]
        refine List.map_congr_left fun e he => ?_
        rw [if_neg]
        · rfl
        · rintro rfl
          exact hl.1 (List.mem_map.2 ⟨e, he, rfl⟩)
      rw [hkeep]
      cases p v <;> cases h₂ : p (f v) <;> simp [h₂]
    · have hne : e.1 ≠ k := by
        rintro rfl
        exact hl.1 (List.mem_map.2 ⟨_, h, rfl⟩)
      have := ih hl.2 h
      simp only [hne, ↓reduceIte]
      omega

theorem countP_set_of_none {m : OrdMap κ α} {k : κ} (v : α) (p : α → Bool) (h : m.get? k = none) :
    (m.set k v).countP p = m.countP p + (p v).toNat := by
  rw [set, dif_pos h]
  simp only [countP, List.countP_append, List.countP_cons, List.countP_nil]
  cases p v <;> simp

/-! ### Adding up values -/

theorem exists_entries_modify {m : OrdMap κ α} {k : κ} {v : α} (h : m.get? k = some v) :
    ∃ l₁ l₂, m.entries = l₁ ++ (k, v) :: l₂ ∧
      ∀ f, (m.modify k f).entries = l₁ ++ (k, f v) :: l₂ := by
  obtain ⟨l₁, l₂, hl⟩ := List.append_of_mem (get?_eq_some_iff.1 h)
  refine ⟨l₁, l₂, hl, fun f => ?_⟩
  have hnodup := m.nodup
  rw [hl, List.map_append, List.map_cons, List.nodup_append, List.nodup_cons] at hnodup
  obtain ⟨-, ⟨hk₂, -⟩, hk₁⟩ := hnodup
  have hkeep : ∀ l : List (κ × α), (∀ e ∈ l, e.1 ≠ k) →
      (l.map fun e => if e.1 = k then (e.1, f e.2) else e) = l := by
    intro l hne
    conv_rhs => rw [← List.map_id l]
    exact List.map_congr_left fun e he => if_neg (hne e he)
  have hl₁ := hkeep l₁ fun e he => hk₁ _ (List.mem_map_of_mem he) _ List.mem_cons_self
  have hl₂ := hkeep l₂ fun e he heq => hk₂ (List.mem_map.2 ⟨e, he, heq⟩)
  show m.entries.map (fun e => if e.1 = k then (e.1, f e.2) else e) = _
  rw [hl, List.map_append, List.map_cons, if_pos rfl, hl₁, hl₂]

theorem modify_of_none {m : OrdMap κ α} {k : κ} (f : α → α) (h : m.get? k = none) :
    m.modify k f = m := by
  obtain ⟨l, hl⟩ := m
  simp only [modify, mk.injEq]
  conv_rhs => rw [← List.map_id l]
  refine List.map_congr_left fun e he => if_neg ?_
  rintro rfl
  exact get?_eq_none_iff.1 h (List.mem_map_of_mem he)

theorem sum_modify {m : OrdMap κ α} {k : κ} {v : α} (g : α → ℕ) (f : α → α)
    (h : m.get? k = some v) : (m.modify k f).sum g + g v = m.sum g + g (f v) := by
  obtain ⟨l₁, l₂, hl, hmodify⟩ := exists_entries_modify h
  simp only [sum, hl, hmodify, List.map_append, List.map_cons, List.sum_append, List.sum_cons]
  omega

/-- A sum does not grow when a value is replaced by one that is no larger. -/
theorem sum_modify_le {m : OrdMap κ α} {k : κ} {g : α → ℕ} {f : α → α}
    (h : ∀ v, m.get? k = some v → g (f v) ≤ g v) : (m.modify k f).sum g ≤ m.sum g := by
  cases hk : m.get? k with
  | none => rw [modify_of_none f hk]
  | some v =>
    have hsum := sum_modify g f hk
    have hle := h v hk
    omega

theorem sum_foldl_modify_le {g : α → ℕ} {f : α → α} (h : ∀ v, g (f v) ≤ g v) (ks : List κ)
    (m : OrdMap κ α) : (ks.foldl (fun m k => m.modify k f) m).sum g ≤ m.sum g := by
  induction ks generalizing m with
  | nil => exact le_rfl
  | cons k ks ih => exact (ih _).trans (sum_modify_le fun v _ => h v)

end OrdMap

end Lib
