import Mathlib.Data.List.Nodup
import Mathlib.Logic.Equiv.Basic
import Mathlib.Order.Lattice
import Mathlib.Tactic.Common

/-!
# Sorting in place by insertion

The element at the index `i` sinks into the sorted cells below it: it is swapped with its left
neighbour as long as that one is greater. Whatever loop does this, the first `n` cells are a
permutation of what they were, and after the elements have sunk one by one they are in order.
-/

namespace Sink

variable {α : Type*}

/-- The first `n` cells. -/
def cells (n : ℕ) (b : ℕ → α) : List α := (List.range n).map b

@[simp] theorem length_cells (n : ℕ) (b : ℕ → α) : (cells n b).length = n := by
  rw [cells, List.length_map, List.length_range]

/-- Two cells change places. -/
theorem cells_swap_perm (b : ℕ → α) {n i j : ℕ} (hi : i < n) (hj : j < n) :
    (cells n (b ∘ Equiv.swap i j)).Perm (cells n b) := by
  have hperm : ((List.range n).map (Equiv.swap i j)).Perm (List.range n) := by
    refine (List.perm_ext_iff_of_nodup (List.nodup_range.map (Equiv.swap i j).injective)
      List.nodup_range).2 fun k => ?_
    rw [List.mem_map, List.mem_range]
    constructor
    · rintro ⟨l, hl, rfl⟩
      rw [List.mem_range] at hl
      rw [Equiv.swap_apply_def]
      split
      · exact hj
      · split
        · exact hi
        · exact hl
    · intro hk
      refine ⟨Equiv.swap i j k, ?_, Equiv.swap_apply_self i j k⟩
      rw [List.mem_range, Equiv.swap_apply_def]
      split
      · exact hj
      · split
        · exact hi
        · exact hk
  rw [cells, ← List.map_map]
  exact hperm.map b

variable [LinearOrder α]

/-- The element at `i` sinks into the cells below it. -/
def sink (b : ℕ → α) : ℕ → ℕ → α
  | 0 => b
  | i + 1 => if b (i + 1) < b i then sink (b ∘ Equiv.swap i (i + 1)) i else b

/-- The first `n` cells are in order. -/
def Sorted (n : ℕ) (b : ℕ → α) : Prop := ∀ i j, i ≤ j → j < n → b i ≤ b j

theorem Sorted.pairwise_cells {n : ℕ} {b : ℕ → α} (h : Sorted n b) :
    (cells n b).Pairwise (· ≤ ·) := by
  rw [cells, List.pairwise_map]
  refine List.pairwise_lt_range.imp_of_mem fun {i j} _ hj hij => ?_
  exact h i j (Nat.le_of_lt hij) (List.mem_range.1 hj)

/-- The cells up to `n` are in order but for the one at `i`, which is less than those above it. -/
structure SortedBut (n i : ℕ) (b : ℕ → α) : Prop where
  sorted : ∀ j k, j ≤ k → k ≤ n → j ≠ i → k ≠ i → b j ≤ b k
  above : ∀ k, i < k → k ≤ n → b i ≤ b k

theorem SortedBut.of_sorted {n : ℕ} {b : ℕ → α} (h : Sorted n b) : SortedBut n n b where
  sorted := fun j k hjk hk _ hkn => h j k hjk (by omega)
  above := fun k hk hkn => absurd hk (Nat.not_lt_of_le hkn)

/-- The place of the element is found. -/
theorem SortedBut.sorted_of_le {n i : ℕ} {b : ℕ → α} (h : SortedBut n i b)
    (hbelow : ∀ j, j + 1 = i → b j ≤ b i) : Sorted (n + 1) b := by
  intro j k hjk hk
  by_cases hji : j = i
  · rcases Nat.eq_or_lt_of_le hjk with rfl | hlt
    · exact le_refl _
    · rw [hji]
      exact h.above k (hji ▸ hlt) (Nat.le_of_lt_succ hk)
  · by_cases hki : k = i
    · -- the cells below are not greater than the neighbour
      have hneighbour : b j ≤ b (i - 1) := h.sorted j (i - 1) (by omega) (by omega) hji (by omega)
      rw [hki]
      exact le_trans hneighbour (hbelow (i - 1) (by omega))
    · exact h.sorted j k hjk (Nat.le_of_lt_succ hk) hji hki

/-- The element and its left neighbour, which is greater, change places. -/
theorem SortedBut.swap {n i : ℕ} {b : ℕ → α} (h : SortedBut n (i + 1) b)
    (hlt : b (i + 1) < b i) : SortedBut n i (b ∘ Equiv.swap i (i + 1)) := by
  have hother : ∀ k, k ≠ i → k ≠ i + 1 → (b ∘ Equiv.swap i (i + 1)) k = b k := fun k hk hk' =>
    congrArg b (Equiv.swap_apply_of_ne_of_ne hk hk')
  have hleft : (b ∘ Equiv.swap i (i + 1)) i = b (i + 1) := congrArg b (Equiv.swap_apply_left ..)
  have hright : (b ∘ Equiv.swap i (i + 1)) (i + 1) = b i := congrArg b (Equiv.swap_apply_right ..)
  constructor
  case sorted =>
    intro j k hjk hk hji hki
    by_cases hj : j = i + 1
    · rw [hj, hright]
      by_cases hk' : k = i + 1
      · rw [hk', hright]
      · rw [hother k hki hk']
        exact h.sorted i k (by omega) hk (Nat.ne_of_lt (Nat.lt_succ_self i)) hk'
    · rw [hother j hji hj]
      by_cases hk' : k = i + 1
      · rw [hk', hright]
        exact h.sorted j i (by omega) (by omega) hj (Nat.ne_of_lt (Nat.lt_succ_self i))
      · rw [hother k hki hk']
        exact h.sorted j k hjk hk hj hk'
  case above =>
    intro k hk hkn
    rw [hleft]
    by_cases hk' : k = i + 1
    · rw [hk', hright]
      exact le_of_lt hlt
    · rw [hother k (by omega) hk']
      exact h.above k (by omega) hkn

theorem sink_sorted {n i : ℕ} {b : ℕ → α} (h : SortedBut n i b) (hi : i ≤ n) :
    Sorted (n + 1) (sink b i) := by
  induction i generalizing b with
  | zero => exact h.sorted_of_le fun j hj => absurd hj (Nat.succ_ne_zero j)
  | succ i ih =>
    rw [sink]
    split
    case isTrue hlt => exact ih (h.swap hlt) (by omega)
    case isFalse hge =>
      refine h.sorted_of_le fun j hj => ?_
      obtain rfl : j = i := Nat.succ.inj hj
      exact le_of_not_gt hge

theorem sink_perm (b : ℕ → α) {n i : ℕ} (hi : i < n) : (cells n (sink b i)).Perm (cells n b) := by
  induction i generalizing b with
  | zero => exact List.Perm.refl _
  | succ i ih =>
    rw [sink]
    split
    · exact (ih _ (by omega)).trans (cells_swap_perm b (by omega) hi)
    · exact List.Perm.refl _

/-- The cells above the element stay. -/
theorem sink_of_lt (b : ℕ → α) {i k : ℕ} (h : i < k) : sink b i k = b k := by
  induction i generalizing b with
  | zero => rfl
  | succ i ih =>
    rw [sink]
    split
    · rw [ih _ (by omega), Function.comp_apply, Equiv.swap_apply_of_ne_of_ne (by omega) (by omega)]
    · rfl

/-- The elements sink one by one. -/
def sinkAll (n : ℕ) (b : ℕ → α) : ℕ → α := (List.range n).foldl sink b

theorem sinkAll_succ (n : ℕ) (b : ℕ → α) : sinkAll (n + 1) b = sink (sinkAll n b) n := by
  rw [sinkAll, List.range_succ, List.foldl_append]
  rfl

theorem sinkAll_of_le (b : ℕ → α) {n k : ℕ} (h : n ≤ k) : sinkAll n b k = b k := by
  induction n with
  | zero => rfl
  | succ n ih => rw [sinkAll_succ, sink_of_lt _ h, ih (by omega)]

theorem sinkAll_sorted (n : ℕ) (b : ℕ → α) : Sorted n (sinkAll n b) := by
  induction n with
  | zero => exact fun _ j _ hj => absurd hj (Nat.not_lt_zero j)
  | succ n ih =>
    rw [sinkAll_succ]
    exact sink_sorted (SortedBut.of_sorted ih) (Nat.le_refl n)

theorem sinkAll_perm (b : ℕ → α) {n k : ℕ} (h : k ≤ n) :
    (cells n (sinkAll k b)).Perm (cells n b) := by
  induction k with
  | zero => exact List.Perm.refl _
  | succ k ih =>
    rw [sinkAll_succ]
    exact (sink_perm _ h).trans (ih (by omega))

end Sink
