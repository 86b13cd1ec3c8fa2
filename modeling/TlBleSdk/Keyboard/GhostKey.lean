import TlBleSdk.Keyboard.KeyScan
import Mathlib.Data.List.FinRange

/-!
# Ghost key removal

`kb_rmv_ghost_key` of `application/keyboard/keyboard.c`. It compares each row with the ones behind
it, collects the columns of the ghost keys in one mask, and clears them in the row at once; the
rows behind it are cleared when it is their turn. The result is compared with a rule on the
original matrix that does not mention an order.
-/

namespace TlBleSdk.Keyboard

variable {n : ℕ}

/-- `BIT_IS_POW2`. It holds of 0. -/
def bitIsPow2 (x : BitVec 32) : Bool := x &&& (x - 1) = 0

/-- The columns that two rows have in common, if they are ghost keys. -/
def ghostMix (a b : BitVec 32) : BitVec 32 :=
  let mix := a &&& b
  if mix ≠ 0 ∧ (!bitIsPow2 mix ∨ a ^^^ b ≠ 0) then mix else 0

/-- The inner loop of `kb_rmv_ghost_key` for row `i`: `mix_final` behind it. -/
def ghostMixFinal (m : Matrix n) (mixFinal : BitVec 32) (i : Fin n) : BitVec 32 :=
  (List.finRange n).foldl
    (fun mixFinal j => if i < j then mixFinal ||| ghostMix (m i) (m j) else mixFinal) mixFinal

/-- A turn of the outer loop: the matrix and `mix_final`. -/
def rmvGhostRow (s : Matrix n × BitVec 32) (i : Fin n) : Matrix n × BitVec 32 :=
  let mixFinal := ghostMixFinal s.1 s.2 i
  (Function.update s.1 i (s.1 i &&& ~~~mixFinal), mixFinal)

/-- `kb_rmv_ghost_key`. -/
def kbRmvGhostKey (m : Matrix n) : Matrix n := ((List.finRange n).foldl rmvGhostRow (m, 0)).1

/-! ## The rule -/

/-- The key in column `c` is pressed in the row. -/
def Pressed (row : BitVec 32) (c : ℕ) : Prop := row.getLsbD c = true

/-- Two rows with a key in column `c` share another column, or differ. -/
def GhostPair (a b : BitVec 32) (c : ℕ) : Prop :=
  Pressed a c ∧ Pressed b c ∧ ((∃ d, d ≠ c ∧ Pressed a d ∧ Pressed b d) ∨ a ≠ b)

/-- Some pair of rows has ghost keys in column `c`. -/
def Ghost (m : Matrix n) (c : ℕ) : Prop := ∃ i j, i ≠ j ∧ GhostPair (m i) (m j) c

section

variable {a b : BitVec 32} {c : ℕ}

theorem not_pressed_zero : ¬ Pressed 0 c := by simp [Pressed]

theorem pressed_and : Pressed (a &&& b) c ↔ Pressed a c ∧ Pressed b c := by
  rw [Pressed, BitVec.getLsbD_and, Bool.and_eq_true]
  rfl

theorem pressed_or : Pressed (a ||| b) c ↔ Pressed a c ∨ Pressed b c := by
  rw [Pressed, BitVec.getLsbD_or, Bool.or_eq_true]
  rfl

theorem pressed_and_not : Pressed (a &&& ~~~b) c ↔ Pressed a c ∧ ¬ Pressed b c := by
  rw [pressed_and]
  refine and_congr_right fun ha => ?_
  rw [Pressed, BitVec.getLsbD_not, decide_eq_true (BitVec.lt_of_getLsbD ha), Bool.true_and,
    Bool.not_eq_true', ← Bool.not_eq_true]
  rfl

end

theorem GhostPair.symm {a b : BitVec 32} {c : ℕ} (h : GhostPair a b c) : GhostPair b a c := by
  obtain ⟨ha, hb, hrest⟩ := h
  refine ⟨hb, ha, ?_⟩
  rcases hrest with ⟨d, hd, had, hbd⟩ | hne
  · exact Or.inl ⟨d, hd, hbd, had⟩
  · exact Or.inr hne.symm

/-- Two rows without ghost keys that share a column have this key alone. -/
theorem eq_of_not_ghostPair {a b : BitVec 32} {c : ℕ} (h : ¬ GhostPair a b c) (ha : Pressed a c)
    (hb : Pressed b c) : a = b ∧ ∀ d, Pressed a d → d = c := by
  have hab : a = b := by
    by_contra hne
    exact h ⟨ha, hb, Or.inr hne⟩
  refine ⟨hab, fun d hd => ?_⟩
  by_contra hne
  exact h ⟨ha, hb, Or.inl ⟨d, hne, hd, hab ▸ hd⟩⟩

/-- A word with a bit has no other one exactly if it is a power of two. -/
theorem bitIsPow2_iff {x : BitVec 32} {c : ℕ} (hc : Pressed x c) :
    bitIsPow2 x = true ↔ ∀ d, Pressed x d → d = c := by
  have hx : x.toNat ≠ 0 := by
    intro h
    have hzero : x = 0 := BitVec.eq_of_toNat_eq h
    rw [Pressed, hzero] at hc
    simp at hc
  have hlt := x.isLt
  have hsub : (x - 1).toNat = x.toNat - 1 := by
    rw [BitVec.toNat_sub]
    simp only [BitVec.ofNat_eq_ofNat, BitVec.toNat_ofNat]
    omega
  have hpow : bitIsPow2 x = true ↔ x.toNat.isPowerOfTwo := by
    rw [bitIsPow2, decide_eq_true_eq, ← Nat.and_sub_one_eq_zero_iff_isPowerOfTwo hx, ← hsub,
      ← BitVec.toNat_and, BitVec.toNat_eq]
    rfl
  rw [hpow]
  constructor
  · rintro ⟨k, hk⟩ d hd
    rw [Pressed, BitVec.getLsbD, hk, Nat.testBit_two_pow, decide_eq_true_eq] at hc hd
    omega
  · intro hall
    -- the word has the bits of `2 ^ c`
    refine ⟨c, Nat.eq_of_testBit_eq fun d => ?_⟩
    rw [Nat.testBit_two_pow]
    by_cases hd : d = c
    · rw [hd, decide_eq_true rfl]
      exact hc
    · rw [decide_eq_false (Ne.symm hd)]
      exact Bool.eq_false_iff.mpr fun h => hd (hall d h)

/-- A common word that is no power of two has another column. -/
theorem not_bitIsPow2_iff {x : BitVec 32} {c : ℕ} (hc : Pressed x c) :
    (!bitIsPow2 x) = true ↔ ∃ d, d ≠ c ∧ Pressed x d := by
  rw [Bool.not_eq_true', ← Bool.not_eq_true, bitIsPow2_iff hc]
  push Not
  exact exists_congr fun d => and_comm

theorem pressed_ghostMix {a b : BitVec 32} {c : ℕ} :
    Pressed (ghostMix a b) c ↔ GhostPair a b c := by
  unfold ghostMix GhostPair
  dsimp only
  constructor
  · intro h
    split at h
    case isTrue hmix =>
      obtain ⟨ha, hb⟩ := pressed_and.mp h
      refine ⟨ha, hb, ?_⟩
      rcases hmix.2 with hpow | hxor
      · obtain ⟨d, hne, hd⟩ := (not_bitIsPow2_iff h).mp hpow
        exact Or.inl ⟨d, hne, pressed_and.mp hd⟩
      · refine Or.inr ?_
        rintro rfl
        exact hxor BitVec.xor_self
    case isFalse => exact absurd h not_pressed_zero
  · rintro ⟨ha, hb, hrest⟩
    have hmix : Pressed (a &&& b) c := pressed_and.mpr ⟨ha, hb⟩
    rw [if_pos]
    · exact hmix
    refine ⟨?_, ?_⟩
    · intro hzero
      rw [hzero] at hmix
      exact not_pressed_zero hmix
    · rcases hrest with ⟨d, hne, hd⟩ | hab
      · exact Or.inl ((not_bitIsPow2_iff hmix).mpr ⟨d, hne, pressed_and.mpr hd⟩)
      · exact Or.inr fun hxor => hab (BitVec.xor_eq_zero_iff.mp hxor)

/-! ## The loops -/

theorem pressed_foldl_ghostMix {m : Matrix n} {i : Fin n} {c : ℕ} (l : List (Fin n))
    (mix : BitVec 32) :
    Pressed (l.foldl (fun mix j => if i < j then mix ||| ghostMix (m i) (m j) else mix) mix) c ↔
      Pressed mix c ∨ ∃ j ∈ l, i < j ∧ GhostPair (m i) (m j) c := by
  induction l generalizing mix with
  | nil => simp
  | cons j l ih =>
    have hmix : Pressed (if i < j then mix ||| ghostMix (m i) (m j) else mix) c ↔
        Pressed mix c ∨ (i < j ∧ GhostPair (m i) (m j) c) := by
      by_cases hij : i < j
      · rw [if_pos hij, pressed_or, pressed_ghostMix, and_iff_right hij]
      · rw [if_neg hij, or_iff_left fun h => hij h.1]
    rw [List.foldl_cons, ih, hmix, or_assoc]
    simp only [List.mem_cons, exists_eq_or_imp]

/-- The columns of the inner loop. -/
theorem pressed_ghostMixFinal {m : Matrix n} {mixFinal : BitVec 32} {i : Fin n} {c : ℕ} :
    Pressed (ghostMixFinal m mixFinal i) c ↔
      Pressed mixFinal c ∨ ∃ j, i < j ∧ GhostPair (m i) (m j) c := by
  rw [ghostMixFinal, pressed_foldl_ghostMix]
  simp

/-- What the outer loop has done before row `k`: the mask has the ghost keys of the rows before
it, with all rows behind each of them, and each of these rows lost those known at its turn. -/
structure RowsDone (m : Matrix n) (k : ℕ) (s : Matrix n × BitVec 32) : Prop where
  mix : ∀ c, Pressed s.2 c ↔ ∃ i j : Fin n, i.1 < k ∧ i < j ∧ GhostPair (m i) (m j) c
  kept : ∀ i : Fin n, k ≤ i.1 → s.1 i = m i
  cleared : ∀ i : Fin n, i.1 < k → ∀ c, Pressed (s.1 i) c ↔
    Pressed (m i) c ∧ ¬ ∃ i' j : Fin n, i' ≤ i ∧ i' < j ∧ GhostPair (m i') (m j) c

/-- The mask behind the inner loop for row `k`. -/
theorem RowsDone.mix_step {m : Matrix n} {k : ℕ} {s : Matrix n × BitVec 32} (h : RowsDone m k s)
    (hk : k < n) (c : ℕ) : Pressed (ghostMixFinal s.1 s.2 ⟨k, hk⟩) c ↔
      ∃ i j : Fin n, i.1 < k + 1 ∧ i < j ∧ GhostPair (m i) (m j) c := by
  -- the rows that are compared have not been cleared yet
  have hrows : ∀ j : Fin n, (⟨k, hk⟩ : Fin n) < j →
      (GhostPair (s.1 ⟨k, hk⟩) (s.1 j) c ↔ GhostPair (m ⟨k, hk⟩) (m j) c) := by
    intro j hj
    rw [h.kept ⟨k, hk⟩ le_rfl, h.kept j (Nat.le_of_lt hj)]
  rw [pressed_ghostMixFinal, h.mix]
  constructor
  · rintro (⟨i, j, hi, hij, hpair⟩ | ⟨j, hj, hpair⟩)
    · exact ⟨i, j, Nat.lt_succ_of_lt hi, hij, hpair⟩
    · exact ⟨⟨k, hk⟩, j, Nat.lt_succ_self k, hj, (hrows j hj).mp hpair⟩
  · rintro ⟨i, j, hi, hij, hpair⟩
    rcases Nat.lt_or_ge i.1 k with hlt | hge
    · exact Or.inl ⟨i, j, hlt, hij, hpair⟩
    · obtain rfl : i = ⟨k, hk⟩ := Fin.ext (Nat.le_antisymm (Nat.le_of_lt_succ hi) hge)
      exact Or.inr ⟨j, hij, (hrows j hij).mpr hpair⟩

theorem RowsDone.step {m : Matrix n} {k : ℕ} {s : Matrix n × BitVec 32} (h : RowsDone m k s)
    (hk : k < n) : RowsDone m (k + 1) (rmvGhostRow s ⟨k, hk⟩) := by
  refine ⟨h.mix_step hk, ?_, ?_⟩
  · intro i hi
    have hne : i ≠ ⟨k, hk⟩ := by
      rintro rfl
      exact Nat.not_succ_le_self k hi
    show Function.update s.1 ⟨k, hk⟩ _ i = m i
    rw [Function.update_of_ne hne, h.kept i (by omega)]
  · intro i hi c
    show Pressed (Function.update s.1 ⟨k, hk⟩ _ i) c ↔ _
    -- the rows before stay as they are, and row `k` loses the mask
    rcases Nat.lt_or_ge i.1 k with hlt | hge
    · have hne : i ≠ ⟨k, hk⟩ := by
        rintro rfl
        exact Nat.lt_irrefl k hlt
      rw [Function.update_of_ne hne]
      exact h.cleared i hlt c
    · obtain rfl : i = ⟨k, hk⟩ := Fin.ext (Nat.le_antisymm (Nat.le_of_lt_succ hi) hge)
      rw [Function.update_self, pressed_and_not, h.mix_step hk, h.kept ⟨k, hk⟩ le_rfl]
      simp only [Fin.le_def, Nat.lt_succ_iff]

theorem rowsDone_take (m : Matrix n) (k : ℕ) (hk : k ≤ n) :
    RowsDone m k (((List.finRange n).take k).foldl rmvGhostRow (m, 0)) := by
  induction k with
  | zero =>
    refine ⟨fun c => ?_, fun i _ => rfl, fun i hi => absurd hi (Nat.not_lt_zero _)⟩
    simp [Pressed]
  | succ k ih =>
    have hlen : k < (List.finRange n).length := by
      rw [List.length_finRange]
      omega
    rw [List.take_succ_eq_append_getElem hlen, List.foldl_append]
    have hget : (List.finRange n)[k] = ⟨k, hk⟩ := by simp
    rw [hget]
    exact (ih (by omega)).step hk

/-- A ghost key of a row is known at its turn: if only rows behind it were a pair for the column,
each of them would have this key alone, and so would both. -/
theorem ghost_before {m : Matrix n} {i : Fin n} {c : ℕ} (hi : Pressed (m i) c) :
    (∃ i' j : Fin n, i' ≤ i ∧ i' < j ∧ GhostPair (m i') (m j) c) ↔ Ghost m c := by
  constructor
  · rintro ⟨i', j, -, hij, hpair⟩
    exact ⟨i', j, Fin.ne_of_lt hij, hpair⟩
  · rintro ⟨a, b, hab, hpair⟩
    by_contra hnone
    push Not at hnone
    -- no row behind `i` makes a pair with it
    have hpairs : ∀ j, Pressed (m j) c → m j = m i ∧ ∀ d, Pressed (m j) d → d = c := by
      intro j hj
      have hnot : ¬ GhostPair (m i) (m j) c ∨ i = j := by
        rcases lt_trichotomy i j with hlt | heq | hgt
        · exact Or.inl (hnone i j le_rfl hlt)
        · exact Or.inr heq
        · exact Or.inl fun h => hnone j i hgt.le hgt h.symm
      rcases hnot with hnot | rfl
      · obtain ⟨heq, hall⟩ := eq_of_not_ghostPair hnot hi hj
        exact ⟨heq.symm, fun d hd => hall d (heq ▸ hd)⟩
      · refine ⟨rfl, ?_⟩
        -- the row itself is alone with this key, or there is no other row with it
        obtain ⟨hpa, hpb, -⟩ := hpair
        have hother : ∃ k, k ≠ i ∧ Pressed (m k) c := by
          by_cases ha : a = i
          · exact ⟨b, fun hb => hab (ha.trans hb.symm), hpb⟩
          · exact ⟨a, ha, hpa⟩
        obtain ⟨k, hki, hk⟩ := hother
        have hnot : ¬ GhostPair (m i) (m k) c := by
          rcases lt_or_gt_of_ne hki with hlt | hgt
          · exact fun h => hnone k i hlt.le hlt h.symm
          · exact hnone i k le_rfl hgt
        exact (eq_of_not_ghostPair hnot hi hk).2
    obtain ⟨hpa, hpb, hrest⟩ := hpair
    obtain ⟨ha, hone⟩ := hpairs a hpa
    obtain ⟨hb, -⟩ := hpairs b hpb
    rcases hrest with ⟨d, hd, had, -⟩ | hne
    · exact hd (hone d had)
    · exact hne (ha.trans hb.symm)

/-- A key stays exactly if no pair of rows makes it a ghost key. -/
theorem pressed_kbRmvGhostKey (m : Matrix n) (i : Fin n) (c : ℕ) :
    Pressed (kbRmvGhostKey m i) c ↔ Pressed (m i) c ∧ ¬ Ghost m c := by
  have hdone := rowsDone_take m n le_rfl
  rw [List.take_of_length_le (by rw [List.length_finRange])] at hdone
  have hrow := hdone.cleared i i.2 c
  rw [kbRmvGhostKey, hrow]
  exact and_congr_right fun hi => not_congr (ghost_before hi)

/-- The rows in another order have the same ghost keys. -/
theorem ghost_comp (m : Matrix n) (σ : Equiv.Perm (Fin n)) (c : ℕ) :
    Ghost (m ∘ σ) c ↔ Ghost m c := by
  constructor
  · rintro ⟨i, j, hij, hpair⟩
    exact ⟨σ i, σ j, σ.injective.ne hij, hpair⟩
  · rintro ⟨i, j, hij, hpair⟩
    refine ⟨σ.symm i, σ.symm j, σ.symm.injective.ne hij, ?_⟩
    simpa using hpair

/-- Ghost key removal clears exactly the keys that some pair of rows of the original matrix makes
ghost keys. It adds none, does not depend on the order of the rows, and leaves only equal rows
with a single key where two rows share a column. -/
theorem ghost_key_rule (m : Matrix n) :
    (∀ i c, Pressed (kbRmvGhostKey m i) c ↔ Pressed (m i) c ∧ ¬ Ghost m c) ∧
      (∀ i c, Pressed (kbRmvGhostKey m i) c → Pressed (m i) c) ∧
      (∀ σ : Equiv.Perm (Fin n), kbRmvGhostKey (m ∘ σ) = kbRmvGhostKey m ∘ σ) ∧
      ∀ i j c, i ≠ j → Pressed (kbRmvGhostKey m i) c → Pressed (kbRmvGhostKey m j) c →
        kbRmvGhostKey m i = kbRmvGhostKey m j ∧
          ∀ d, Pressed (kbRmvGhostKey m i) d → d = c := by
  have hrule := pressed_kbRmvGhostKey m
  refine ⟨hrule, fun i c h => ((hrule i c).mp h).1, fun σ => ?_, ?_⟩
  · funext i
    apply BitVec.eq_of_getLsbD_eq
    intro c _
    rw [Bool.eq_iff_iff]
    show Pressed (kbRmvGhostKey (m ∘ σ) i) c ↔ Pressed (kbRmvGhostKey m (σ i)) c
    rw [pressed_kbRmvGhostKey, hrule, ghost_comp]
    rfl
  · intro i j c hij hi hj
    obtain ⟨hmi, hghost⟩ := (hrule i c).mp hi
    obtain ⟨hmj, -⟩ := (hrule j c).mp hj
    -- two rows that keep a column are no pair
    have hnot : ¬ GhostPair (m i) (m j) c := fun h => hghost ⟨i, j, hij, h⟩
    obtain ⟨heq, hone⟩ := eq_of_not_ghostPair hnot hmi hmj
    refine ⟨?_, fun d hd => hone d ((hrule i d).mp hd).1⟩
    apply BitVec.eq_of_getLsbD_eq
    intro d _
    rw [Bool.eq_iff_iff]
    show Pressed _ d ↔ Pressed _ d
    rw [hrule, hrule, heq]

end TlBleSdk.Keyboard
