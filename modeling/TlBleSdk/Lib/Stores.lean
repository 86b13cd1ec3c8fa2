import Mathlib.Data.Set.Lattice
import Mathlib.Logic.Nontrivial.Defs

/-!
# What a change of a memory writes

`Writes f s` says that the change `f` writes the cells `s`, each with a value of its own, and keeps
all others. Changes compose, a sequence of stores writes what each of them writes, and
`Writes.agree_iff` says which cells are the same whatever the memory held before.
-/

namespace Stores

variable {ι β ω : Type*}

/-- The cells `s` get values that do not depend on the memory, and no other cell changes. -/
structure Writes (f : (ι → β) → ι → β) (s : Set ι) : Prop where
  written : ∀ i ∈ s, ∀ m m', f m i = f m' i
  kept : ∀ i ∉ s, ∀ m, f m i = m i

namespace Writes

variable {f g : (ι → β) → ι → β} {s t : Set ι}

theorem refl : Writes (fun m : ι → β => m) ∅ := ⟨fun _ hi => hi.elim, fun _ _ _ => rfl⟩

/-- What the second change writes covers what the first one wrote. -/
theorem comp (hg : Writes g t) (hf : Writes f s) : Writes (fun m => g (f m)) (s ∪ t) := by
  constructor
  · intro i hi m m'
    by_cases hit : i ∈ t
    · exact hg.written i hit _ _
    · rw [hg.kept i hit, hg.kept i hit]
      exact hf.written i (hi.resolve_right hit) _ _
  · intro i hi m
    rw [Set.mem_union, not_or] at hi
    rw [hg.kept i hi.2, hf.kept i hi.1]

/-- A sequence of stores. -/
theorem foldl {store : (ι → β) → ω → ι → β} {cells : ω → Set ι}
    (h : ∀ w, Writes (fun m => store m w) (cells w)) (ws : List ω) :
    Writes (fun m => ws.foldl store m) {i | ∃ w ∈ ws, i ∈ cells w} := by
  induction ws with
  | nil => simpa using refl
  | cons w ws ih =>
    have hcells : {i | ∃ v ∈ w :: ws, i ∈ cells v} = cells w ∪ {i | ∃ v ∈ ws, i ∈ cells v} := by
      ext i
      simp
    rw [hcells]
    exact ih.comp (h w)

/-- Only the cells that are written are the same behind the change of any two memories. -/
theorem agree_iff [Nontrivial β] (h : Writes f s) (t : Set ι) :
    (∀ m m', ∀ i ∈ t, f m i = f m' i) ↔ t ⊆ s := by
  constructor
  · intro hagree i hi
    by_contra his
    obtain ⟨x, y, hxy⟩ := exists_pair_ne β
    have heq := hagree (fun _ => x) (fun _ => y) i hi
    rw [h.kept i his, h.kept i his] at heq
    exact hxy heq
  · intro hts m m' i hi
    exact h.written i (hts hi) m m'

end Writes

end Stores
