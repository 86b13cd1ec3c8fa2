import Mathlib.Data.Nat.ModEq
import Mathlib.Algebra.BigOperators.Group.List.Basic
import Mathlib.Algebra.Order.Ring.Nat

/-!
# Sums with an end-around carry

The addition of numbers up to `n` in which what goes beyond `n` comes in again at the lower end.
It is the addition modulo `n`, but with two zeros: 0 is the sum of zeros only, and any other
multiple of `n` is `n`.
-/

namespace EndAround

/-- The sum of two numbers up to `n`. -/
def add (n a b : ℕ) : ℕ := if n < a + b then a + b - n else a + b

/-- The sum of a list. -/
def sum (n : ℕ) (l : List ℕ) : ℕ := l.foldl (add n) 0

/-- The number up to `n` that stands for a total. -/
def wrap (n t : ℕ) : ℕ := if t = 0 then 0 else (t - 1) % n + 1

variable {n : ℕ}

@[simp] theorem wrap_zero : wrap n 0 = 0 := rfl

theorem wrap_of_pos {t : ℕ} (ht : 0 < t) : wrap n t = (t - 1) % n + 1 := if_neg (by omega)

theorem wrap_of_le {t : ℕ} (ht : t ≤ n) : wrap n t = t := by
  rcases Nat.eq_zero_or_pos t with rfl | hpos
  · rfl
  · rw [wrap_of_pos hpos, Nat.mod_eq_of_lt (by omega)]
    omega

theorem wrap_le (hn : 0 < n) (t : ℕ) : wrap n t ≤ n := by
  rcases Nat.eq_zero_or_pos t with rfl | hpos
  · exact Nat.zero_le n
  · rw [wrap_of_pos hpos]
    exact Nat.mod_lt _ hn

theorem wrap_modEq (n t : ℕ) : wrap n t ≡ t [MOD n] := by
  rcases Nat.eq_zero_or_pos t with rfl | hpos
  · rfl
  · have hmod : (t - 1) % n + 1 ≡ t - 1 + 1 [MOD n] := (Nat.mod_modEq (t - 1) n).add_right 1
    rwa [Nat.sub_add_cancel hpos, ← wrap_of_pos hpos] at hmod

theorem wrap_eq_zero_iff {t : ℕ} : wrap n t = 0 ↔ t = 0 := by
  rcases Nat.eq_zero_or_pos t with rfl | hpos
  · exact iff_of_true rfl rfl
  · rw [wrap_of_pos hpos]
    exact iff_of_false (Nat.succ_ne_zero _) hpos.ne'

/-- A total is known up to a multiple of `n`, and whether it is zero. -/
theorem wrap_eq_wrap_iff {t t' : ℕ} : wrap n t = wrap n t' ↔ (t = 0 ↔ t' = 0) ∧ t ≡ t' [MOD n] := by
  constructor
  · intro heq
    constructor
    · rw [← wrap_eq_zero_iff (n := n), heq, wrap_eq_zero_iff]
    · have hmod := wrap_modEq n t
      rw [heq] at hmod
      exact hmod.symm.trans (wrap_modEq n t')
  · rintro ⟨hzero, hmod⟩
    rcases Nat.eq_zero_or_pos t with ht | ht
    · rw [ht, hzero.mp ht]
    · have ht' : 0 < t' := Nat.pos_of_ne_zero fun h => absurd (hzero.mpr h) ht.ne'
      rw [wrap_of_pos ht, wrap_of_pos ht']
      refine congrArg (· + 1) (Nat.ModEq.add_right_cancel' 1 ?_)
      rwa [Nat.sub_add_cancel ht, Nat.sub_add_cancel ht']

theorem add_le {a b : ℕ} (ha : a ≤ n) (hb : b ≤ n) : add n a b ≤ n := by
  unfold add
  split_ifs <;> omega

/-- An addition goes on from the total. -/
theorem add_wrap {t b : ℕ} (hb : b ≤ n) : add n (wrap n t) b = wrap n (t + b) := by
  rcases Nat.eq_zero_or_pos t with rfl | hpos
  · rw [wrap_zero, Nat.zero_add, wrap_of_le hb, add, Nat.zero_add, if_neg (by omega)]
  · rcases Nat.eq_zero_or_pos n with rfl | hn
    · obtain rfl : b = 0 := Nat.le_zero.mp hb
      rw [Nat.add_zero, add, Nat.add_zero, Nat.sub_zero, ite_self]
    · have hlt : (t - 1) % n < n := Nat.mod_lt _ hn
      have hnext : t + b - 1 = t - 1 + b := by omega
      rw [wrap_of_pos hpos, wrap_of_pos (by omega), hnext, ← Nat.mod_add_mod]
      generalize (t - 1) % n = r at hlt ⊢
      unfold add
      by_cases hcarry : n < r + 1 + b
      · -- one carry is enough
        rw [if_pos hcarry, Nat.mod_eq_sub_mod (by omega), Nat.mod_eq_of_lt (by omega)]
        omega
      · rw [if_neg hcarry, Nat.mod_eq_of_lt (by omega)]
        omega

/-- From a total on, the numbers of a list are added one after the other. -/
theorem foldl_add_wrap {l : List ℕ} (h : ∀ b ∈ l, b ≤ n) (t : ℕ) :
    l.foldl (add n) (wrap n t) = wrap n (t + l.sum) := by
  induction l generalizing t with
  | nil => rfl
  | cons b l ih =>
    obtain ⟨hb, hl⟩ := List.forall_mem_cons.mp h
    rw [List.foldl_cons, add_wrap hb, ih hl, List.sum_cons, Nat.add_assoc]

theorem sum_eq_wrap {l : List ℕ} (h : ∀ b ∈ l, b ≤ n) : sum n l = wrap n l.sum := by
  have hsum := foldl_add_wrap h 0
  rwa [wrap_zero, Nat.zero_add] at hsum

/-- A number and its complement. -/
theorem add_complement {s : ℕ} (hs : s ≤ n) : add n s (n - s) = n := by
  unfold add
  rw [Nat.add_sub_cancel' hs, if_neg (Nat.lt_irrefl n)]

/-- The complement of a sum makes it `n`. -/
theorem sum_complement (hn : 0 < n) {l : List ℕ} (h : ∀ b ∈ l, b ≤ n) :
    sum n (l ++ [n - sum n l]) = n := by
  have hle : sum n l ≤ n := by
    rw [sum_eq_wrap h]
    exact wrap_le hn _
  rw [sum, List.foldl_append]
  exact add_complement hle

/-- The totals of two lists that differ in one number. -/
theorem sum_set (l : List ℕ) {i x : ℕ} (hi : l[i]? = some x) (y : ℕ) :
    (l.set i y).sum + x = l.sum + y := by
  induction l generalizing i with
  | nil => exact nomatch hi
  | cons b l ih =>
    cases i with
    | zero =>
      obtain rfl := Option.some.inj hi
      rw [List.set_cons_zero, List.sum_cons, List.sum_cons]
      omega
    | succ i =>
      have hrest := ih hi
      rw [List.set_cons_succ, List.sum_cons, List.sum_cons]
      omega

theorem add_eq_of_modEq {a b : ℕ} (hlt : a < b) (hb : b ≤ n) (h : a ≡ b [MOD n]) :
    a + n = b := by
  have hdvd : n ∣ b - a := (Nat.modEq_iff_dvd' (Nat.le_of_lt hlt)).mp h
  have hle : n ≤ b - a := Nat.le_of_dvd (by omega) hdvd
  omega

/-- A sum is another one if one of its numbers changes, unless by nothing or by `n`. -/
theorem sum_set_ne {l : List ℕ} {i x y : ℕ} (h : ∀ b ∈ l, b ≤ n) (hi : l[i]? = some x)
    (hy : y ≤ n) (hne : y ≠ x) (hle : y + n ≠ x ∧ x + n ≠ y) : sum n (l.set i y) ≠ sum n l := by
  have hx : x ≤ n := h x (List.mem_of_getElem? hi)
  have hset : ∀ b ∈ l.set i y, b ≤ n := by
    intro b hb
    rcases List.mem_or_eq_of_mem_set hb with hmem | rfl
    · exact h b hmem
    · exact hy
  rw [sum_eq_wrap hset, sum_eq_wrap h]
  intro heq
  have hmod := (wrap_eq_wrap_iff.mp heq).2
  have htotal := sum_set l hi y
  have hxy : y ≡ x [MOD n] := by
    have hadd := hmod.add_right x
    rw [htotal] at hadd
    exact Nat.ModEq.add_left_cancel' _ hadd
  rcases Nat.lt_or_gt_of_ne hne with hlt | hgt
  · exact hle.1 (add_eq_of_modEq hlt hx hxy)
  · exact hle.2 (add_eq_of_modEq hgt hy hxy.symm)

end EndAround
