import Mathlib.Data.List.Basic
import Mathlib.Logic.Function.Basic
import Mathlib.Tactic.Common

/-!
# Copying between cells of a memory

`Copies dst src n m m'` says that `m'` is `m` with the `n` cells `src i` copied to the cells
`dst i`. There is one such memory, so two ways of copying agree as soon as both copy. A copy is
made of parts, one behind the other, as long as the cells are `Apart`.
-/

namespace Copies

variable {α β : Type*}

/-- The cells that are written are different, and none of them is read. -/
structure Apart (dst src : ℕ → α) (n : ℕ) : Prop where
  distinct : ∀ i < n, ∀ j < n, dst i = dst j → i = j
  apart : ∀ i < n, ∀ j < n, dst i ≠ src j

/-- The cells `src i` are in the cells `dst i`, and the others are as before. -/
structure Copied (dst src : ℕ → α) (n : ℕ) (m m' : α → β) : Prop where
  copied : ∀ i < n, m' (dst i) = m (src i)
  kept : ∀ a, (∀ i < n, a ≠ dst i) → m' a = m a

variable {dst src : ℕ → α} {m m₁ m₂ : α → β}

/-- A part of cells that are apart. -/
theorem Apart.part {n a b : ℕ} (h : Apart dst src n) (hle : a + b ≤ n) :
    Apart (fun i => dst (a + i)) (fun i => src (a + i)) b := by
  constructor
  · intro i hi j hj heq
    have hij := h.distinct (a + i) (by omega) (a + j) (by omega) heq
    omega
  · intro i hi j hj
    exact h.apart (a + i) (by omega) (a + j) (by omega)

theorem Apart.mono {n k : ℕ} (h : Apart dst src n) (hle : k ≤ n) : Apart dst src k :=
  ⟨fun i hi j hj => h.distinct i (by omega) j (by omega),
    fun i hi j hj => h.apart i (by omega) j (by omega)⟩

namespace Copied

theorem zero (m : α → β) : Copied dst src 0 m m :=
  ⟨fun _ hi => absurd hi (Nat.not_lt_zero _), fun _ _ => rfl⟩

/-- A memory is copied to in one way only. -/
theorem unique {n : ℕ} (h₁ : Copied dst src n m m₁) (h₂ : Copied dst src n m m₂) : m₁ = m₂ := by
  funext a
  by_cases h : ∃ i < n, a = dst i
  · obtain ⟨i, hi, rfl⟩ := h
    rw [h₁.copied i hi, h₂.copied i hi]
  · have hout : ∀ i < n, a ≠ dst i := fun i hi ha => h ⟨i, hi, ha⟩
    rw [h₁.kept a hout, h₂.kept a hout]

/-- The first `a` cells are copied, then the `b` cells behind them. -/
theorem append {a b : ℕ} (hapart : Apart dst src (a + b)) (h₁ : Copied dst src a m m₁)
    (h₂ : Copied (fun i => dst (a + i)) (fun i => src (a + i)) b m₁ m₂) :
    Copied dst src (a + b) m m₂ := by
  constructor
  · intro i hi
    by_cases hlt : i < a
    · -- the second part is not at this cell
      rw [h₂.kept, h₁.copied i hlt]
      intro j hj heq
      have hij := hapart.distinct i hi (a + j) (by omega) heq
      omega
    · obtain ⟨j, rfl⟩ : ∃ j, i = a + j := ⟨i - a, by omega⟩
      -- the first part did not change what the second one reads
      rw [h₂.copied j (by omega), h₁.kept]
      intro k hk heq
      exact hapart.apart k (by omega) (a + j) hi heq.symm
  · intro c hc
    rw [h₂.kept c fun j hj => hc (a + j) (by omega), h₁.kept c fun i hi => hc i (by omega)]

/-- One cell. -/
theorem update [DecidableEq α] (m : α → β) :
    Copied dst src 1 m (Function.update m (dst 0) (m (src 0))) := by
  constructor
  · intro i hi
    obtain rfl : i = 0 := by omega
    exact Function.update_self ..
  · intro a ha
    exact Function.update_of_ne (ha 0 Nat.one_pos) ..

/-- A loop that copies a block of `b` cells in each of its `k` turns. -/
theorem foldl_range {step : (α → β) → ℕ → α → β} {b k : ℕ} (hapart : Apart dst src (b * k))
    (hstep : ∀ m i, i < k →
      Copied (fun j => dst (b * i + j)) (fun j => src (b * i + j)) b m (step m i)) (m : α → β) :
    Copied dst src (b * k) m ((List.range k).foldl step m) := by
  induction k with
  | zero => exact zero m
  | succ k ih =>
    rw [List.range_succ, List.foldl_append, List.foldl_cons, List.foldl_nil]
    rw [Nat.mul_succ] at hapart ⊢
    have hfirst := ih (hapart.mono (by omega)) fun m i hi => hstep m i (by omega)
    exact append hapart hfirst (hstep _ k (by omega))

/-- A loop that copies cell by cell. -/
theorem foldl_update [DecidableEq α] {n : ℕ} (hapart : Apart dst src n) (m : α → β) :
    Copied dst src n m
      ((List.range n).foldl (fun m i => Function.update m (dst i) (m (src i))) m) := by
  have hcells : Apart dst src (1 * n) := by rwa [Nat.one_mul]
  have hturn : ∀ m : α → β, ∀ i < n, Copied (fun j => dst (1 * i + j)) (fun j => src (1 * i + j)) 1
      m (Function.update m (dst i) (m (src i))) := by
    intro m i _
    rw [Nat.one_mul]
    exact @update _ _ (fun j => dst (i + j)) (fun j => src (i + j)) _ m
  have hloop := foldl_range hcells hturn m
  rwa [Nat.one_mul] at hloop

end Copied

/-! ## Values that are stored one after the other -/

section Stores

variable [DecidableEq α] {v : ℕ → β} {n : ℕ}

theorem foldl_update_of_ne {a : α} (h : ∀ i < n, a ≠ dst i) (m : α → β) :
    (List.range n).foldl (fun m i => Function.update m (dst i) (v i)) m a = m a := by
  induction n with
  | zero => rfl
  | succ n ih =>
    rw [List.range_succ, List.foldl_append, List.foldl_cons, List.foldl_nil,
      Function.update_of_ne (h n (Nat.lt_succ_self n))]
    exact ih fun i hi => h i (by omega)

theorem foldl_update_apply (hdst : ∀ i < n, ∀ j < n, dst i = dst j → i = j) {i : ℕ} (hi : i < n)
    (m : α → β) :
    (List.range n).foldl (fun m i => Function.update m (dst i) (v i)) m (dst i) = v i := by
  induction n with
  | zero => exact absurd hi (Nat.not_lt_zero i)
  | succ n ih =>
    rw [List.range_succ, List.foldl_append, List.foldl_cons, List.foldl_nil]
    by_cases hlast : i = n
    · rw [hlast]
      exact Function.update_self ..
    · rw [Function.update_of_ne fun heq => hlast (hdst i hi n (Nat.lt_succ_self n) heq)]
      exact ih (fun j hj k hk => hdst j (by omega) k (by omega)) (by omega)

/-- A counter that goes up with each value. -/
theorem foldl_counter (dst : ℕ → α) (m : α → β) (j : ℕ) :
    (List.range n).foldl (fun (m, j) k => (Function.update m (dst k) (v j), j + 1)) (m, j) =
      ((List.range n).foldl (fun m k => Function.update m (dst k) (v (j + k))) m, j + n) := by
  induction n with
  | zero => rfl
  | succ n ih =>
    rw [List.range_succ, List.foldl_append, List.foldl_append, ih]
    rfl

/-- A loop in a loop, whose counter is not set back for the next turn. -/
theorem foldl_foldl_counter (w : ℕ) (dst : ℕ → α) (m : α → β) :
    (List.range n).foldl (fun s i => (List.range w).foldl
      (fun (m, j) k => (Function.update m (dst (w * i + k)) (v j), j + 1)) s) (m, 0) =
      ((List.range (w * n)).foldl (fun m j => Function.update m (dst j) (v j)) m, w * n) := by
  induction n with
  | zero => rfl
  | succ n ih =>
    rw [List.range_succ, List.foldl_append, ih, List.foldl_cons, List.foldl_nil, foldl_counter,
      Nat.mul_succ, List.range_add, List.foldl_append, List.foldl_map]

end Stores

end Copies
