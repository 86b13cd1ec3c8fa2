import Mathlib.Algebra.Order.BigOperators.Group.List
import Mathlib.Algebra.Order.Ring.Int
import Mathlib.Data.List.Sort
import TlBleSdk.Lib.Sink

/-!
# The filter of the battery samples

`adc_sort_and_get_average_code` and `sd_adc_sort_and_get_average_code` of `battery_check.c`. Both
sort the samples in place and add up the middle half of them, each divided by the number of samples
in it. They differ in the type of the samples and in how many there are.

A type of C is the interval of its values, and a value that is assigned is taken modulo its length.
-/

namespace TlBleSdk.Common

open Sink

/-- A value of the integer type from `lo` on and below `hi`. -/
structure CInt (lo hi : ℤ) where
  val : ℤ
  mem : lo ≤ val ∧ val < hi

instance (lo hi : ℤ) : LinearOrder (CInt lo hi) :=
  @LinearOrder.lift' _ _ Int.instLinearOrder CInt.val fun ⟨_, _⟩ ⟨_, _⟩ h => by
    cases h
    rfl

/-- What is kept of a value that is assigned. -/
def wrap (lo hi x : ℤ) : ℤ := lo + (x - lo) % (hi - lo)

/-! ## Sorting -/

section sort

variable {α : Type*} [LT α] [DecidableLT α]

/-- The inner loop: the `j + 1` at which it ends, and the samples. The argument is `j + 1`, so it is
0 when `j` is -1. -/
def shiftSamples (temp : α) : ℕ → (ℕ → α) → ℕ × (ℕ → α)
  | 0, buffer => (0, buffer)
  | j + 1, buffer =>
    if buffer j > temp then shiftSamples temp j (Function.update buffer (j + 1) (buffer j))
    else (j + 1, buffer)

/-- A turn of the outer loop. -/
def sortTurn (buffer : ℕ → α) (i : ℕ) : ℕ → α :=
  if buffer i < buffer (i - 1) then
    let temp := buffer i
    let buffer := Function.update buffer i (buffer (i - 1))
    let (j, buffer) := shiftSamples temp i buffer
    Function.update buffer j temp
  else buffer

/-- The loop from 1 on. -/
def sortSamples (cnt : ℕ) (buffer : ℕ → α) : ℕ → α :=
  (List.range (cnt - 1)).foldl (fun buffer i => sortTurn buffer (i + 1)) buffer

end sort

/-! ## The average -/

variable {lo hi : ℤ}

/-- The loop over the middle half. The division is the one of C, towards zero. -/
def averageCode (cnt : ℕ) (buffer : ℕ → CInt lo hi) : ℤ :=
  (List.range (cnt - cnt / 4 - cnt / 4)).foldl
    (fun average i => wrap lo hi (average + (buffer (cnt / 4 + i)).val.tdiv (cnt / 2 : ℕ))) 0

/-- The samples after the sort, and the average that is returned. -/
def sortAndGetAverageCode (cnt : ℕ) (buffer : ℕ → CInt lo hi) : (ℕ → CInt lo hi) × ℤ :=
  let buffer := sortSamples cnt buffer
  (buffer, averageCode cnt buffer)

/-- `unsigned short`. -/
abbrev CUnsignedShort : Type := CInt 0 65536

/-- `signed int`. -/
abbrev CSignedInt : Type := CInt (-2147483648) 2147483648

/-- `adc_sort_and_get_average_code`. -/
def adcSortAndGetAverageCode (channelSampleBuffer : ℕ → CUnsignedShort) :
    (ℕ → CUnsignedShort) × ℤ :=
  sortAndGetAverageCode 8 channelSampleBuffer

/-- `sd_adc_sort_and_get_average_code`, with `SD_ADC_SAMPLE_CNT`. -/
def sdAdcSortAndGetAverageCode (sdAdcSampleCnt : ℕ) (sampleBuffer : ℕ → CSignedInt) :
    (ℕ → CSignedInt) × ℤ :=
  sortAndGetAverageCode sdAdcSampleCnt sampleBuffer

/-! ## What is asked of the filter -/

/-- The middle half of the samples, in order. -/
def middleHalf (cnt : ℕ) (buffer : ℕ → CInt lo hi) : List ℤ :=
  ((((cells cnt buffer).insertionSort (· ≤ ·)).drop (cnt / 4)).take (cnt / 2)).map CInt.val

/-- What is lost by dividing each sample of the middle half. -/
def lostByDivision (cnt : ℕ) (buffer : ℕ → CInt lo hi) : ℤ :=
  ((middleHalf cnt buffer).map fun x => x.tmod (cnt / 2 : ℕ)).sum

/-- Each sample of the middle half, divided by the number of them. -/
def dividedHalf (cnt : ℕ) (buffer : ℕ → CInt lo hi) : List ℤ :=
  (middleHalf cnt buffer).map fun x => x.tdiv (cnt / 2 : ℕ)

/-- The samples are sorted, and the result is the mean of the middle half up to less than one. -/
structure RobustMean (cnt : ℕ) (filter : (ℕ → CInt lo hi) → (ℕ → CInt lo hi) × ℤ)
    (buffer : ℕ → CInt lo hi) : Prop where
  sorted : Sorted cnt (filter buffer).1
  perm : (cells cnt (filter buffer).1).Perm (cells cnt buffer)
  kept : ∀ i, cnt ≤ i → (filter buffer).1 i = buffer i
  multiset : ∀ other, (cells cnt other).Perm (cells cnt buffer) →
    (filter other).2 = (filter buffer).2
  sum_eq : (filter buffer).2 = (dividedHalf cnt buffer).sum
  inType : ∀ k, lo ≤ ((dividedHalf cnt buffer).take k).sum ∧
    ((dividedHalf cnt buffer).take k).sum < hi
  near : |(middleHalf cnt buffer).sum - (cnt / 2 : ℕ) * (filter buffer).2| < (cnt / 2 : ℕ)
  ge_of_forall_ge : ∀ m, (∀ x ∈ middleHalf cnt buffer, m ≤ x) → m ≤ (filter buffer).2
  le_of_forall_le : ∀ m, (∀ x ∈ middleHalf cnt buffer, x ≤ m) → (filter buffer).2 ≤ m

/-! ## The loops of the sort -/

section sort

variable {α : Type*} [LinearOrder α]

/-- With `temp` in its place, each turn of the inner loop swaps it with its left neighbour. -/
theorem update_shiftSamples (temp : α) (j : ℕ) (buffer : ℕ → α) :
    Function.update (shiftSamples temp j buffer).2 (shiftSamples temp j buffer).1 temp =
      sink (Function.update buffer j temp) j := by
  induction j generalizing buffer with
  | zero => rfl
  | succ j ih =>
    have hplace : Function.update buffer (j + 1) temp (j + 1) = temp := Function.update_self ..
    have hleft : Function.update buffer (j + 1) temp j = buffer j :=
      Function.update_of_ne (Nat.ne_of_lt (Nat.lt_succ_self j)) ..
    rw [shiftSamples, sink, hplace, hleft]
    by_cases hlt : temp < buffer j
    · rw [if_pos hlt, if_pos hlt, ih]
      congr 1
      -- a copy to the right and `temp` in its place are a swap
      funext k
      rw [Function.comp_apply, Equiv.swap_apply_def]
      by_cases hk : k = j
      · rw [hk, Function.update_self, if_pos rfl, hplace]
      · rw [Function.update_of_ne hk, if_neg hk]
        by_cases hk' : k = j + 1
        · rw [hk', Function.update_self, if_pos rfl, hleft]
        · rw [if_neg hk', Function.update_of_ne hk', Function.update_of_ne hk']
    · rw [if_neg hlt, if_neg hlt]

/-- A turn of the outer loop, where there is a left neighbour. -/
theorem sortTurn_succ (buffer : ℕ → α) (i : ℕ) : sortTurn buffer (i + 1) = sink buffer (i + 1) := by
  rw [sortTurn, Nat.add_sub_cancel]
  split
  case isTrue =>
    have hturn := update_shiftSamples (buffer (i + 1)) (i + 1)
      (Function.update buffer (i + 1) (buffer i))
    rwa [Function.update_idem, Function.update_eq_self] at hturn
  case isFalse hle =>
    -- the guard is what the inner loop asks first
    rw [sink, if_neg hle]

theorem sortSamples_eq (cnt : ℕ) (buffer : ℕ → α) :
    sortSamples cnt buffer = sinkAll cnt buffer := by
  cases cnt with
  | zero => rfl
  | succ n =>
    rw [sinkAll, List.range_succ_eq_map, List.foldl_cons, List.foldl_map, sortSamples,
      Nat.add_sub_cancel]
    simp only [sortTurn_succ]
    rfl

end sort

/-! ## The sum -/

/-- Nothing is lost of a sum that stays in the type. -/
theorem foldl_wrap (l : List ℤ) (s : ℤ)
    (h : ∀ k, lo ≤ s + (l.take k).sum ∧ s + (l.take k).sum < hi) :
    l.foldl (fun average x => wrap lo hi (average + x)) s = s + l.sum := by
  induction l generalizing s with
  | nil => rw [List.foldl_nil, List.sum_nil, add_zero]
  | cons x l ih =>
    have hfirst := h 1
    rw [List.take_succ_cons, List.take_zero, List.sum_cons, List.sum_nil, add_zero] at hfirst
    have hwrap : wrap lo hi (s + x) = s + x := by
      rw [wrap, Int.emod_eq_of_lt (by omega) (by omega)]
      omega
    rw [List.foldl_cons, hwrap, ih, List.sum_cons, add_assoc]
    intro k
    have hnext := h (k + 1)
    rwa [List.take_succ_cons, List.sum_cons, ← add_assoc] at hnext

/-- A rest has the sign of the sample. -/
theorem mul_tdiv_mem {m x : ℤ} (hm : 0 < m) (hlo : lo ≤ 0) (hhi : 0 < hi)
    (hx : lo ≤ x ∧ x < hi) : lo ≤ m * x.tdiv m ∧ m * x.tdiv m ≤ hi - 1 := by
  have hdiv := Int.mul_tdiv_add_tmod x m
  rcases le_total 0 x with hpos | hneg
  · have hrest := Int.tmod_nonneg m hpos
    have hquot : 0 ≤ m * x.tdiv m :=
      Int.mul_nonneg (Int.le_of_lt hm) (Int.tdiv_nonneg hpos (Int.le_of_lt hm))
    omega
  · have hrest := Int.tmod_nonneg m (Int.neg_nonneg_of_nonpos hneg)
    have hquot : 0 ≤ m * (-x).tdiv m :=
      Int.mul_nonneg (Int.le_of_lt hm)
        (Int.tdiv_nonneg (Int.neg_nonneg_of_nonpos hneg) (Int.le_of_lt hm))
    rw [Int.neg_tmod] at hrest
    rw [Int.neg_tdiv, Int.mul_neg] at hquot
    omega

theorem mul_sum_tdiv_mem {m : ℤ} (hm : 0 < m) (hlo : lo ≤ 0) (hhi : 0 < hi) {l : List ℤ}
    (hl : ∀ x ∈ l, lo ≤ x ∧ x < hi) :
    l.length * lo ≤ m * (l.map fun x => x.tdiv m).sum ∧
      m * (l.map fun x => x.tdiv m).sum ≤ l.length * (hi - 1) := by
  induction l with
  | nil => simp
  | cons x l ih =>
    obtain ⟨hx, hrest⟩ := List.forall_mem_cons.1 hl
    have hmul := mul_tdiv_mem hm hlo hhi hx
    have hsum := ih hrest
    rw [List.map_cons, List.sum_cons, mul_add, List.length_cons, Nat.cast_succ, add_mul, add_mul,
      one_mul, one_mul]
    omega

/-- Up to `m` samples, each divided by `m`, add up to a value of the type. -/
theorem sum_tdiv_mem {m : ℕ} (hm : 0 < m) (hlo : lo ≤ 0) (hhi : 0 < hi) {l : List ℤ}
    (hlen : l.length ≤ m) (hl : ∀ x ∈ l, lo ≤ x ∧ x < hi) :
    lo ≤ (l.map fun x => x.tdiv m).sum ∧ (l.map fun x => x.tdiv m).sum < hi := by
  have hpos : (0 : ℤ) < m := Int.natCast_pos.2 hm
  have hsum := mul_sum_tdiv_mem hpos hlo hhi hl
  have hle : (l.length : ℤ) ≤ m := Int.ofNat_le.2 hlen
  constructor
  · have hleast : (m : ℤ) * lo ≤ l.length * lo := mul_le_mul_of_nonpos_right hle hlo
    exact le_of_mul_le_mul_left (hleast.trans hsum.1) hpos
  · have hmost : (l.length : ℤ) * (hi - 1) ≤ m * (hi - 1) :=
      mul_le_mul_of_nonneg_right hle (by omega)
    exact Int.lt_of_le_sub_one (le_of_mul_le_mul_left (hsum.2.trans hmost) hpos)

/-- The rests are what the sum of the quotients lacks. -/
theorem sum_tdiv_add_sum_tmod (m : ℤ) (l : List ℤ) :
    m * (l.map fun x => x.tdiv m).sum + (l.map fun x => x.tmod m).sum = l.sum := by
  induction l with
  | nil => simp
  | cons x l ih =>
    have hx := Int.mul_tdiv_add_tmod x m
    rw [List.map_cons, List.map_cons, List.sum_cons, List.sum_cons, List.sum_cons, mul_add]
    omega

/-! ## The middle half -/

theorem drop_take_cells {α : Type*} (b : ℕ → α) {n a m : ℕ} (h : a + m ≤ n) :
    ((cells n b).drop a).take m = (List.range m).map fun i => b (a + i) := by
  refine List.ext_getElem ?_ fun i _ _ => ?_
  · simp only [List.length_take, List.length_drop, length_cells, List.length_map,
      List.length_range]
    omega
  · simp [cells]

/-- The samples that the sort leaves are the sorted list of them. -/
theorem cells_sortSamples {α : Type*} [LinearOrder α] (cnt : ℕ) (buffer : ℕ → α) :
    cells cnt (sortSamples cnt buffer) = (cells cnt buffer).insertionSort (· ≤ ·) := by
  rw [sortSamples_eq]
  exact List.Perm.eq_of_pairwise' (sinkAll_sorted cnt buffer).pairwise_cells
    (List.pairwise_insertionSort (· ≤ ·) _)
    ((sinkAll_perm buffer (Nat.le_refl cnt)).trans (List.perm_insertionSort (· ≤ ·) _).symm)

/-- The middle half does not depend on the order that the samples came in. -/
theorem middleHalf_congr {cnt : ℕ} {buffer other : ℕ → CInt lo hi}
    (h : (cells cnt other).Perm (cells cnt buffer)) :
    middleHalf cnt other = middleHalf cnt buffer := by
  have hperm : ((cells cnt other).insertionSort (· ≤ ·)).Perm
      ((cells cnt buffer).insertionSort (· ≤ ·)) :=
    (List.perm_insertionSort (· ≤ ·) _).trans (h.trans (List.perm_insertionSort (· ≤ ·) _).symm)
  have hsorted : (cells cnt other).insertionSort (· ≤ ·) =
      (cells cnt buffer).insertionSort (· ≤ ·) :=
    hperm.eq_of_pairwise' (List.pairwise_insertionSort (· ≤ ·) _)
      (List.pairwise_insertionSort (· ≤ ·) _)
  rw [middleHalf, middleHalf, hsorted]

section filter

variable {cnt : ℕ} (h4 : 4 ∣ cnt) (buffer : ℕ → CInt lo hi)
include h4

theorem middleHalf_eq : middleHalf cnt buffer =
    (List.range (cnt / 2)).map fun i => (sortSamples cnt buffer (cnt / 4 + i)).val := by
  rw [middleHalf, ← cells_sortSamples, drop_take_cells _ (by omega), List.map_map]
  rfl

theorem length_middleHalf : (middleHalf cnt buffer).length = cnt / 2 := by
  rw [middleHalf_eq h4, List.length_map, List.length_range]

omit h4 in
theorem mem_middleHalf {x : ℤ} (hx : x ∈ middleHalf cnt buffer) : lo ≤ x ∧ x < hi := by
  rw [middleHalf, List.mem_map] at hx
  obtain ⟨sample, -, rfl⟩ := hx
  exact sample.mem

theorem dividedHalf_mem (hlo : lo ≤ 0) (hhi : 0 < hi) (hcnt : 0 < cnt) (k : ℕ) :
    lo ≤ ((dividedHalf cnt buffer).take k).sum ∧ ((dividedHalf cnt buffer).take k).sum < hi := by
  rw [dividedHalf, ← List.map_take]
  refine sum_tdiv_mem (by omega) hlo hhi ?_ fun x hx => ?_
  · rw [← length_middleHalf h4 buffer]
    exact List.length_take_le' k _
  · exact mem_middleHalf buffer (List.mem_of_mem_take hx)

/-- Nothing is lost in the additions. -/
theorem sortAndGetAverageCode_snd (hlo : lo ≤ 0) (hhi : 0 < hi) (hcnt : 0 < cnt) :
    (sortAndGetAverageCode cnt buffer).2 = (dividedHalf cnt buffer).sum := by
  have hhalf : cnt - cnt / 4 - cnt / 4 = cnt / 2 := by omega
  have hloop : (sortAndGetAverageCode cnt buffer).2 =
      (dividedHalf cnt buffer).foldl (fun average x => wrap lo hi (average + x)) 0 := by
    rw [dividedHalf, middleHalf_eq h4, List.map_map, List.foldl_map]
    rw [sortAndGetAverageCode, averageCode, hhalf]
    rfl
  rw [hloop, foldl_wrap, zero_add]
  intro k
  rw [zero_add]
  exact dividedHalf_mem h4 buffer hlo hhi hcnt k

/-- What the mean loses is what is lost by the divisions. -/
theorem sum_sub_average (hlo : lo ≤ 0) (hhi : 0 < hi) (hcnt : 0 < cnt) :
    (middleHalf cnt buffer).sum - (cnt / 2 : ℕ) * (sortAndGetAverageCode cnt buffer).2 =
      lostByDivision cnt buffer := by
  rw [sortAndGetAverageCode_snd h4 buffer hlo hhi hcnt, dividedHalf, lostByDivision,
    ← sum_tdiv_add_sum_tmod (cnt / 2 : ℕ) (middleHalf cnt buffer)]
  exact add_sub_cancel_left _ _

end filter

/-- A result that is near the mean is not below what bounds the values. -/
theorem le_of_near {l : List ℤ} {r m : ℤ} (hnear : |l.sum - l.length * r| < l.length)
    (hm : ∀ x ∈ l, m ≤ x) : m ≤ r := by
  by_contra hlt
  have hsum : l.length * m ≤ l.sum := by
    have hle := l.card_nsmul_le_sum m hm
    rwa [nsmul_eq_mul] at hle
  have hone : (l.length : ℤ) * (r + 1) ≤ l.length * m :=
    mul_le_mul_of_nonneg_left (by omega) (Int.natCast_nonneg _)
  rw [mul_add, mul_one] at hone
  have habs := (abs_lt.1 hnear).2
  omega

theorem ge_of_near {l : List ℤ} {r m : ℤ} (hnear : |l.sum - l.length * r| < l.length)
    (hm : ∀ x ∈ l, x ≤ m) : r ≤ m := by
  by_contra hlt
  have hsum : l.sum ≤ l.length * m := by
    have hle := l.sum_le_card_nsmul m hm
    rwa [nsmul_eq_mul] at hle
  have hone : l.length * m ≤ (l.length : ℤ) * (r - 1) :=
    mul_le_mul_of_nonneg_left (by omega) (Int.natCast_nonneg _)
  rw [mul_sub, mul_one] at hone
  have habs := (abs_lt.1 hnear).1
  omega

/-- The filter is a robust mean if and only if the divisions lose less than one in all. -/
theorem robustMean_iff {cnt : ℕ} (h4 : 4 ∣ cnt) (hcnt : 0 < cnt) (hlo : lo ≤ 0) (hhi : 0 < hi)
    (buffer : ℕ → CInt lo hi) :
    RobustMean cnt (sortAndGetAverageCode cnt) buffer ↔
      |lostByDivision cnt buffer| < (cnt / 2 : ℕ) := by
  have hlost := sum_sub_average h4 buffer hlo hhi hcnt
  constructor
  · intro hmean
    rw [← hlost]
    exact hmean.near
  · intro hless
    have hnear : |(middleHalf cnt buffer).sum - (cnt / 2 : ℕ) *
        (sortAndGetAverageCode cnt buffer).2| < (cnt / 2 : ℕ) := by
      rwa [hlost]
    have hnear' := hnear
    rw [← length_middleHalf h4 buffer] at hnear'
    have hsort : (sortAndGetAverageCode cnt buffer).1 = sinkAll cnt buffer :=
      sortSamples_eq cnt buffer
    constructor
    case sorted =>
      rw [hsort]
      exact sinkAll_sorted cnt buffer
    case perm =>
      rw [hsort]
      exact sinkAll_perm buffer (Nat.le_refl cnt)
    case kept =>
      intro i hi
      rw [hsort]
      exact sinkAll_of_le buffer hi
    case multiset =>
      intro other hperm
      rw [sortAndGetAverageCode_snd h4 other hlo hhi hcnt,
        sortAndGetAverageCode_snd h4 buffer hlo hhi hcnt, dividedHalf, dividedHalf,
        middleHalf_congr hperm]
    case sum_eq => exact sortAndGetAverageCode_snd h4 buffer hlo hhi hcnt
    case inType => exact dividedHalf_mem h4 buffer hlo hhi hcnt
    case near => exact hnear
    case ge_of_forall_ge => exact fun m hm => le_of_near hnear' hm
    case le_of_forall_le => exact fun m hm => ge_of_near hnear' hm

/-! ## The two filters -/

/-- For both filters, and any number of samples that is a multiple of 4. -/
theorem adcSort_robustMean_iff {cnt : ℕ} (h4 : 4 ∣ cnt) (hcnt : 0 < cnt)
    (channelSampleBuffer : ℕ → CUnsignedShort) (sampleBuffer : ℕ → CSignedInt) :
    (RobustMean 8 adcSortAndGetAverageCode channelSampleBuffer ↔
        |lostByDivision 8 channelSampleBuffer| < 4) ∧
      (RobustMean cnt (sdAdcSortAndGetAverageCode cnt) sampleBuffer ↔
        |lostByDivision cnt sampleBuffer| < (cnt / 2 : ℕ)) :=
  ⟨robustMean_iff (by decide) (by decide) (by decide) (by decide) channelSampleBuffer,
    robustMean_iff h4 hcnt (by decide) (by decide) sampleBuffer⟩

theorem adcSort_robustMean_iff_eight :
    (RobustMean 8 adcSortAndGetAverageCode (fun _ => ⟨4, by decide⟩) ↔
        |lostByDivision 8 (fun _ => (⟨4, by decide⟩ : CUnsignedShort))| < 4) ∧
      (RobustMean 8 (sdAdcSortAndGetAverageCode 8) (fun _ => ⟨-3, by decide⟩) ↔
        |lostByDivision 8 (fun _ => (⟨-3, by decide⟩ : CSignedInt))| < (8 / 2 : ℕ)) :=
  adcSort_robustMean_iff (by decide) (by decide) _ _

/-- Eight samples of 3 have the mean 3, and the filter returns 0. -/
theorem adcSort_not_robustMean :
    ¬ ((∀ buffer, RobustMean 8 adcSortAndGetAverageCode buffer) ∧
      ∀ cnt, 4 ∣ cnt → 0 < cnt → ∀ buffer,
        RobustMean cnt (sdAdcSortAndGetAverageCode cnt) buffer) := by
  rintro ⟨hadc, -⟩
  have hthree := (hadc fun _ => ⟨3, by decide⟩).ge_of_forall_ge 3
  revert hthree
  decide

end TlBleSdk.Common
