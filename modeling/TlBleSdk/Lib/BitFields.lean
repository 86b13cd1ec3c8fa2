import Mathlib.Data.Nat.Notation
import Mathlib.Tactic.Common

/-!
# Fields of a word

The field of `len` bits at the bit `lo` of a word: `get` reads it, `put` is the word with a value in
it and zeros around, and `mask` has its bits. Words are put together with `|||`, and a field of such
a word is what was put to it, or zero from what was put beside it.
-/

namespace BitFields

variable {n len len' lo lo' : ℕ}

/-- The bits of the field. -/
def mask (n lo len : ℕ) : BitVec n := (BitVec.allOnes len).setWidth n <<< lo

/-- The value of the field. -/
def get (w : BitVec n) (lo len : ℕ) : BitVec len := w.extractLsb' lo len

/-- The word with a value in the field. -/
def put (n : ℕ) (x : BitVec len) (lo : ℕ) : BitVec n := x.setWidth n <<< lo

@[simp] theorem getLsbD_mask (i : ℕ) :
    (mask n lo len).getLsbD i = (decide (i < n) && decide (lo ≤ i) && decide (i < lo + len)) := by
  simp only [mask, BitVec.getLsbD_shiftLeft, BitVec.getLsbD_setWidth, BitVec.getLsbD_allOnes]
  by_cases hn : i < n
  · by_cases hlo : lo ≤ i
    · have hless : i - lo < n := by omega
      have hiff : i - lo < len ↔ i < lo + len := by omega
      simp [hn, hlo, hless, hiff]
    · simp [hn, hlo, Nat.lt_of_not_le hlo]
  · simp [hn]

@[simp] theorem getElem_mask {i : ℕ} (hi : i < n) :
    (mask n lo len)[i] = (decide (lo ≤ i) && decide (i < lo + len)) := by
  rw [← BitVec.getLsbD_eq_getElem, getLsbD_mask]
  simp [hi]

/-! ## What is read -/

theorem get_or (a b : BitVec n) : get (a ||| b) lo len = get a lo len ||| get b lo len :=
  BitVec.extractLsb'_or

/-- The value that was put to the field. -/
@[simp] theorem get_put (h : lo + len ≤ n) (x : BitVec len) : get (put n x lo) lo len = x := by
  ext i hi
  have hlt : lo + i < n := by omega
  simp [get, put, hlt, BitVec.getLsbD_eq_getElem hi]

/-- A field beside the one that was put. -/
theorem get_put_of_disjoint (x : BitVec len) (h : lo' + len' ≤ lo ∨ lo + len ≤ lo') :
    get (put n x lo) lo' len' = BitVec.ofNat len' 0 := by
  ext i hi
  rcases h with hbelow | habove
  · have hlt : lo' + i < lo := by omega
    simp [get, put, hlt]
  · have hge : len ≤ lo' + i - lo := by omega
    simp [get, put, BitVec.getLsbD_of_ge x _ hge]

/-- No field stays when all bits are changed. -/
theorem get_not_ne (w : BitVec n) (hlen : 0 < len) (h : lo + len ≤ n) :
    get (~~~ w) lo len ≠ get w lo len := by
  intro heq
  have hbit := congrArg (fun v => v.getLsbD 0) heq
  have hlt : lo < n := by omega
  simp [get, hlen, hlt] at hbit

/-! ## Masks -/

/-- Mask and shift read the field. -/
theorem setWidth_and_mask (w : BitVec n) (lo len : ℕ) (h : lo + len ≤ n) :
    ((w &&& mask n lo len) >>> lo).setWidth len = get w lo len := by
  ext i hi
  have hlt : lo + i < n := by omega
  simp [get, hlt, hi]

/-- Shift and mask put the field. -/
theorem and_mask_put (x : BitVec len) : (x.setWidth n <<< lo) &&& mask n lo len = put n x lo := by
  ext i hi
  by_cases hlo : lo ≤ i
  · by_cases hlt : i < lo + len
    · simp [put, ← BitVec.getLsbD_eq_getElem, hi, hlo, hlt]
    · have hge : len ≤ i - lo := by omega
      simp [put, ← BitVec.getLsbD_eq_getElem, hi, hlt, BitVec.getLsbD_of_ge x _ hge]
  · simp [put, ← BitVec.getLsbD_eq_getElem, hlo, Nat.lt_of_not_le hlo]

/-- A bit is tested with its mask. -/
theorem and_mask_ne_zero_iff (w : BitVec n) (h : lo < n) :
    w &&& mask n lo 1 ≠ 0 ↔ get w lo 1 = 1 := by
  have hbit : get w lo 1 = BitVec.ofBool (w.getLsbD lo) := by
    ext i hi
    obtain rfl : i = 0 := by omega
    simp [get]
  -- the mask of one bit is a power of two
  have hmask : mask n lo 1 = BitVec.twoPow n lo := by
    ext i hi
    rw [← BitVec.getLsbD_eq_getElem, ← BitVec.getLsbD_eq_getElem, getLsbD_mask,
      BitVec.getLsbD_twoPow]
    by_cases heq : lo = i
    · subst heq
      simp [h]
    · have hno : ¬ (lo ≤ i ∧ i < lo + 1) := by omega
      simp [hi, heq]
      omega
  rw [hbit, hmask, BitVec.and_twoPow]
  cases w.getLsbD lo with
  | false => simp
  | true =>
    have hne : BitVec.twoPow n lo ≠ 0 := by
      intro hzero
      have hget := congrArg (fun v => v.getLsbD lo) hzero
      simp [h] at hget
    simpa using hne

/-- A field that is cleared. -/
theorem get_and_not_mask (w : BitVec n) (h : lo + len ≤ n) :
    get (w &&& ~~~ mask n lo len) lo len = BitVec.ofNat len 0 := by
  ext i hi
  have hlt : lo + i < n := by omega
  simp [get, hlt, hi]

/-- A field beside the one that is cleared. -/
theorem get_and_not_mask_of_disjoint (w : BitVec n) (h : lo' + len' ≤ lo ∨ lo + len ≤ lo')
    (hn : lo' + len' ≤ n) : get (w &&& ~~~ mask n lo len) lo' len' = get w lo' len' := by
  ext i hi
  have hlt : lo' + i < n := by omega
  rcases h with hbelow | habove
  · have hless : lo' + i < lo := by omega
    simp [get, hlt, Nat.not_le_of_lt hless]
  · have hge : lo + len ≤ lo' + i := by omega
    simp [get, hlt, Nat.not_lt_of_le hge]

end BitFields
