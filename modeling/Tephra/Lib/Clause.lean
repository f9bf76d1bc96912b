import Mathlib.Data.List.Basic

/-!
# Clauses over types and tags

Something has a type and some tags.  A clause asks for a type out of some (any, if it names none)
and for all of some tags.

* `Clause.Selects` : what a clause asks for.
* `selects_congr` : neither order nor repetition matters.
* `Selects.rename` : whoever renames types and tags on both sides loses no match.
-/

namespace Lib

/-- A clause. -/
structure Clause (ν : Type*) where
  types : List ν
  tags : List ν

namespace Clause

variable {ν μ : Type*} {c : Clause ν} {type : ν} {tags : List ν}

/-- What a clause asks for. -/
def Selects (c : Clause ν) (type : ν) (tags : List ν) : Prop :=
  (c.types = [] ∨ type ∈ c.types) ∧ ∀ tag ∈ c.tags, tag ∈ tags

instance [DecidableEq ν] : Decidable (c.Selects type tags) := inferInstanceAs (Decidable (_ ∧ _))

theorem selects_congr {types' ctags' tags' : List ν} (htypes : ∀ t, t ∈ c.types ↔ t ∈ types')
    (hctags : ∀ t, t ∈ c.tags ↔ t ∈ ctags') (htags : ∀ t, t ∈ tags ↔ t ∈ tags') :
    c.Selects type tags ↔ Selects { types := types', tags := ctags' } type tags' := by
  have hnil : c.types = [] ↔ types' = [] := by
    simp only [List.eq_nil_iff_forall_not_mem, htypes]
  simp only [Selects, hnil, htypes, hctags, htags]

/-- The clause after a renaming. -/
def rename (c : Clause ν) (f : ν → μ) : Clause μ := { types := c.types.map f, tags := c.tags.map f }

/-- A renaming loses no match. -/
theorem Selects.rename (h : c.Selects type tags) (f : ν → μ) :
    (c.rename f).Selects (f type) (tags.map f) := by
  obtain ⟨htype, htags⟩ := h
  refine ⟨htype.imp ?_ ?_, ?_⟩
  · intro hnil
    exact List.map_eq_nil_iff.2 hnil
  · intro hmem
    exact List.mem_map_of_mem hmem
  · intro tag htag
    obtain ⟨t, ht, rfl⟩ := List.mem_map.1 htag
    exact List.mem_map_of_mem (htags t ht)

end Clause

end Lib
