import Mathlib.Tactic.IntervalCases
import TlBleSdk.Hci.TrDef
import TlBleSdk.Lib.Copies

/-!
# Memory routines

The compare and copy routines of `tl_string.c`. Addresses have 32 bits, and pointers go around at
their end. A word is four bytes, the low one first, at any address: an access to one that is not
aligned is taken to work. The checks under `DEBUG_MEM_VIOLATION` are not compiled in.
-/

namespace TlBleSdk.Common

open Copies

/-- The memory. -/
abbrev Mem := ℕ → UInt8

/-- The address of the byte `i` behind the pointer `p`. -/
def ptr (p i : ℕ) : ℕ := u32 (p + i)

/-- `*p` of an `unsigned int *`. -/
def loadWord (m : Mem) (p : ℕ) : ℕ :=
  (m (ptr p 0)).toNat + (m (ptr p 1)).toNat * 2 ^ 8 + (m (ptr p 2)).toNat * 2 ^ 16 +
    (m (ptr p 3)).toNat * 2 ^ 24

/-- `*p = w` of an `unsigned int *`. -/
def storeWord (m : Mem) (p w : ℕ) : Mem :=
  (List.range 4).foldl (fun m i => Function.update m (ptr p i) (UInt8.ofNat (w / 2 ^ (8 * i)))) m

/-! ## The routines -/

/-- `tmemcmp`. -/
def tmemcmp (m : Mem) (st1 st2 : ℕ) : (len : ℕ) → Int
  | 0 => 0
  | len + 1 =>
    if m st1 ≠ m st2 then ((m st1).toNat : Int) - (m st2).toNat
    else tmemcmp m (ptr st1 1) (ptr st2 1) len

/-- The loop of `tmemcmp4`. -/
def tmemcmp4Loop (m : Mem) (st1 st2 : ℕ) : (word_len : ℕ) → Int
  | 0 => 0
  | word_len + 1 =>
    if loadWord m st1 ≠ loadWord m st2 then 1
    else tmemcmp4Loop m (ptr st1 4) (ptr st2 4) word_len

/-- `tmemcmp4`. -/
def tmemcmp4 (m : Mem) (m1 m2 len : ℕ) : Int := tmemcmp4Loop m m1 m2 (len / 4)

/-- `while (length--) *po++ = *pi++`. -/
def copyLoop (m : Mem) (po pi : ℕ) : (length : ℕ) → Mem
  | 0 => m
  | length + 1 => copyLoop (Function.update m po (m pi)) (ptr po 1) (ptr pi 1) length

/-- `tmemcpy1`. -/
def tmemcpy1 (m : Mem) (out inp length : ℕ) : Mem := copyLoop m out inp length

/-- `d_4[i] = s_4[i]`, for `n` words. -/
def copyWords (m : Mem) (d_4 s_4 n : ℕ) : Mem :=
  (List.range n).foldl (fun m i => storeWord m (ptr d_4 (4 * i)) (loadWord m (ptr s_4 (4 * i)))) m

/-- `d[i] = s[i]`, for `n` bytes. -/
def copyBytes (m : Mem) (d s n : ℕ) : Mem :=
  (List.range n).foldl (fun m i => Function.update m (ptr d i) (m (ptr s i))) m

/-- `tmemcpy4`. -/
def tmemcpy4 (m : Mem) (d s length : ℕ) : Mem :=
  let int_length := length / 4
  let char_length := length % 4
  let m := if int_length ≠ 0 then copyWords m d s int_length else m
  if char_length ≠ 0 then
    copyLoop m (ptr d (4 * int_length)) (ptr s (4 * int_length)) char_length
  else m

/-- `tmemcpy`. -/
def tmemcpy (m : Mem) (dest src length : ℕ) : Mem :=
  let d_align_offset := dest % 4
  let s_align_offset := src % 4
  if d_align_offset = s_align_offset then
    -- up to the first aligned address
    let prefix_len := (4 - s_align_offset) % 4
    let copied := if prefix_len < length then prefix_len else length
    let m := copyBytes m dest src copied
    let d := ptr dest copied
    let s := ptr src copied
    let length := length - copied
    let words_num := length / 4
    if 0 < words_num then
      let m := copyWords m d s words_num
      copyLoop m (ptr d (words_num * 4)) (ptr s (words_num * 4)) (length - words_num * 4)
    else copyLoop m d s length
  else copyLoop m dest src length

/-! ## Words and bytes -/

theorem ptr_ptr (p a i : ℕ) : ptr (ptr p a) i = ptr p (a + i) := by
  simp [ptr, u32, Nat.add_assoc]

theorem ptr_shift (p a : ℕ) : ptr (ptr p a) = fun i => ptr p (a + i) :=
  funext (ptr_ptr p a)

/-- Two bytes behind a pointer are at different addresses, unless they are far apart. -/
theorem ptr_inj {p i j n : ℕ} (hn : n ≤ 2 ^ 32) (hi : i < n) (hj : j < n)
    (h : ptr p i = ptr p j) : i = j := by
  simp only [ptr, u32] at h
  omega

/-- The bytes of a word. -/
theorem loadWord_byte (m : Mem) (p : ℕ) {i : ℕ} (hi : i < 4) :
    UInt8.ofNat (loadWord m p / 2 ^ (8 * i)) = m (ptr p i) := by
  have hb : ∀ k, (m (ptr p k)).toNat < 256 := fun k => (m (ptr p k)).toNat_lt
  have h0 := hb 0
  have h1 := hb 1
  have h2 := hb 2
  apply UInt8.toNat_inj.mp
  rw [UInt8.toNat_ofNat', loadWord]
  have h3 := hb 3
  interval_cases i <;> omega

/-- Words are equal if their bytes are. -/
theorem loadWord_eq_iff (m : Mem) (p q : ℕ) :
    loadWord m p = loadWord m q ↔ ∀ i < 4, m (ptr p i) = m (ptr q i) := by
  constructor
  · intro h i hi
    rw [← loadWord_byte m p hi, h, loadWord_byte m q hi]
  · intro h
    rw [loadWord, loadWord, h 0 (by decide), h 1 (by decide), h 2 (by decide), h 3 (by decide)]

/-- Storing a word that was loaded copies its bytes. -/
theorem storeWord_loadWord_copied (m : Mem) (d s : ℕ) :
    Copied (ptr d) (ptr s) 4 m (storeWord m d (loadWord m s)) := by
  constructor
  · intro i hi
    rw [storeWord, foldl_update_apply (fun j hj k hk => ptr_inj (by decide) hj hk) hi,
      loadWord_byte m s hi]
  · intro a ha
    exact foldl_update_of_ne ha m

/-! ## Copying -/

/-- The ranges of a copy do not overlap. -/
def NonOverlapping (d s n : ℕ) : Prop := ∀ i < n, ∀ j < n, ptr d i ≠ ptr s j

theorem NonOverlapping.apart {d s n : ℕ} (h : NonOverlapping d s n) (hn : n ≤ 2 ^ 32) :
    Apart (ptr d) (ptr s) n :=
  ⟨fun _ hi _ hj heq => ptr_inj hn hi hj heq, h⟩

theorem ptr_zero {p : ℕ} (h : p < 2 ^ 32) : ptr p 0 = p := u32_of_lt h

theorem ptr_lt (p i : ℕ) : ptr p i < 2 ^ 32 := Nat.mod_lt _ (by decide)

/-- The byte loop. -/
theorem copyLoop_copied (m : Mem) {d s n : ℕ} (hd : d < 2 ^ 32) (hs : s < 2 ^ 32)
    (h : Apart (ptr d) (ptr s) n) : Copied (ptr d) (ptr s) n m (copyLoop m d s n) := by
  induction n generalizing m d s with
  | zero => exact Copied.zero m
  | succ n ih =>
    rw [Nat.add_comm] at h ⊢
    have hfirst : Copied (ptr d) (ptr s) 1 m (Function.update m d (m s)) := by
      have hone := @Copied.update _ _ (ptr d) (ptr s) _ m
      rwa [ptr_zero hd, ptr_zero hs] at hone
    apply hfirst.append h
    rw [← ptr_shift, ← ptr_shift, Nat.add_comm 1 n, copyLoop]
    apply ih _ (ptr_lt d 1) (ptr_lt s 1)
    rw [ptr_shift, ptr_shift]
    exact h.part le_rfl

theorem copyWords_copied (m : Mem) {d s n : ℕ} (h : Apart (ptr d) (ptr s) (4 * n)) :
    Copied (ptr d) (ptr s) (4 * n) m (copyWords m d s n) := by
  apply Copied.foldl_range h
  intro m i _
  rw [← ptr_shift, ← ptr_shift]
  exact storeWord_loadWord_copied m _ _

/-- `tmemcpy1` copies. -/
theorem tmemcpy1_copied (m : Mem) {d s n : ℕ} (hd : d < 2 ^ 32) (hs : s < 2 ^ 32)
    (h : Apart (ptr d) (ptr s) n) : Copied (ptr d) (ptr s) n m (tmemcpy1 m d s n) :=
  copyLoop_copied m hd hs h

/-- The byte loop behind the first `a` bytes. -/
theorem copyLoop_behind {m m' : Mem} {d s a b : ℕ} (h : Apart (ptr d) (ptr s) (a + b))
    (hfirst : Copied (ptr d) (ptr s) a m m') :
    Copied (ptr d) (ptr s) (a + b) m (copyLoop m' (ptr d a) (ptr s a) b) := by
  apply hfirst.append h
  rw [← ptr_shift, ← ptr_shift]
  apply copyLoop_copied m' (ptr_lt d a) (ptr_lt s a)
  rw [ptr_shift, ptr_shift]
  exact h.part le_rfl

/-- The words, then the bytes that are left. -/
theorem copyWords_copyLoop (m : Mem) {d s n : ℕ} (h : Apart (ptr d) (ptr s) n) :
    Copied (ptr d) (ptr s) n m
      (copyLoop (copyWords m d s (n / 4)) (ptr d (4 * (n / 4))) (ptr s (4 * (n / 4)))
        (n % 4)) := by
  have hn : 4 * (n / 4) + n % 4 = n := Nat.div_add_mod n 4
  rw [← hn] at h
  have hwords := copyWords_copied m (h.mono (Nat.le_add_right _ _))
  have hall := copyLoop_behind h hwords
  rwa [hn] at hall

/-- `tmemcpy4` copies. -/
theorem tmemcpy4_copied (m : Mem) {d s n : ℕ} (h : Apart (ptr d) (ptr s) n) :
    Copied (ptr d) (ptr s) n m (tmemcpy4 m d s n) := by
  have hall := copyWords_copyLoop m h
  unfold tmemcpy4
  dsimp only
  by_cases hwords : n / 4 = 0 <;> by_cases hbytes : n % 4 = 0
  all_goals simp only [hwords, hbytes, ne_eq, not_true_eq_false, if_true, if_false,
    not_false_eq_true] at hall ⊢
  all_goals exact hall

/-- `tmemcpy` copies, from whichever addresses. -/
theorem tmemcpy_copied (m : Mem) {d s n : ℕ} (hd : d < 2 ^ 32) (hs : s < 2 ^ 32)
    (h : Apart (ptr d) (ptr s) n) : Copied (ptr d) (ptr s) n m (tmemcpy m d s n) := by
  unfold tmemcpy
  dsimp only
  by_cases halign : d % 4 = s % 4
  · rw [if_pos halign]
    generalize hk : (if (4 - s % 4) % 4 < n then (4 - s % 4) % 4 else n) = k
    have hle : k ≤ n := by
      rw [← hk]
      split_ifs <;> omega
    clear hk
    obtain ⟨r, rfl⟩ : ∃ r, n = k + r := ⟨n - k, by omega⟩
    have hprefix := Copied.foldl_update (h.mono hle) m
    apply hprefix.append h
    -- the part behind the first aligned address
    have hpart : Apart (ptr (ptr d k)) (ptr (ptr s k)) r := by
      rw [ptr_shift, ptr_shift]
      exact h.part le_rfl
    rw [← ptr_shift, ← ptr_shift, Nat.add_sub_cancel_left]
    split_ifs with hwords
    · have hrest := copyWords_copyLoop (copyBytes m d s k) hpart
      have hlen : r - r / 4 * 4 = r % 4 := by omega
      rw [Nat.mul_comm (r / 4) 4] at hlen ⊢
      rwa [hlen]
    · exact copyLoop_copied _ (ptr_lt d k) (ptr_lt s k) hpart
  · rw [if_neg halign]
    exact copyLoop_copied m hd hs h

/-! ## Comparing -/

theorem tmemcmp_eq_zero_iff (m : Mem) {p q n : ℕ} (hp : p < 2 ^ 32) (hq : q < 2 ^ 32) :
    tmemcmp m p q n = 0 ↔ ∀ i < n, m (ptr p i) = m (ptr q i) := by
  induction n generalizing p q with
  | zero => simp [tmemcmp]
  | succ n ih =>
    rw [Nat.forall_lt_succ_left, ptr_zero hp, ptr_zero hq, tmemcmp]
    by_cases heq : m p = m q
    · rw [if_neg (not_not.mpr heq), ih (ptr_lt p 1) (ptr_lt q 1)]
      simp only [heq, true_and, ptr_ptr, Nat.add_comm 1]
    · rw [if_pos heq]
      simp only [heq, false_and, iff_false]
      intro hzero
      exact heq (UInt8.toNat_inj.mp (by omega))

theorem tmemcmp4Loop_eq_zero_iff (m : Mem) {p q n : ℕ} (hp : p < 2 ^ 32) (hq : q < 2 ^ 32) :
    tmemcmp4Loop m p q n = 0 ↔ ∀ i < 4 * n, m (ptr p i) = m (ptr q i) := by
  induction n generalizing p q with
  | zero => simp [tmemcmp4Loop]
  | succ n ih =>
    have hsplit : (∀ i < 4 * (n + 1), m (ptr p i) = m (ptr q i)) ↔
        (∀ i < 4, m (ptr p i) = m (ptr q i)) ∧
          ∀ i < 4 * n, m (ptr p (4 + i)) = m (ptr q (4 + i)) := by
      constructor
      · intro h
        exact ⟨fun i hi => h i (by omega), fun i hi => h (4 + i) (by omega)⟩
      · rintro ⟨hword, hrest⟩ i hi
        by_cases hlt : i < 4
        · exact hword i hlt
        · have hi' := hrest (i - 4) (by omega)
          rwa [Nat.add_sub_cancel' (by omega)] at hi'
    rw [hsplit, ← loadWord_eq_iff, tmemcmp4Loop]
    by_cases heq : loadWord m p = loadWord m q
    · rw [if_neg (not_not.mpr heq), ih (ptr_lt p 4) (ptr_lt q 4)]
      simp only [heq, true_and, ptr_ptr]
    · rw [if_pos heq]
      simp only [heq, false_and, iff_false]
      decide

/-! ## The fast routines -/

/-- The fast copies leave the memory as the byte-wise one does, whatever the alignment and the
length. The word-wise comparison is the byte-wise one of the bytes of whole words; what is left of
the length it does not look at. -/
theorem tl_string_agrees (m : Mem) :
    (∀ d s n, d < 2 ^ 32 → s < 2 ^ 32 → n < 2 ^ 32 → NonOverlapping d s n →
      tmemcpy m d s n = tmemcpy1 m d s n ∧ tmemcpy4 m d s n = tmemcpy1 m d s n ∧
        (∀ i < n, tmemcpy1 m d s n (ptr d i) = m (ptr s i)) ∧
        ∀ a, (∀ i < n, a ≠ ptr d i) → tmemcpy1 m d s n a = m a) ∧
    ∀ p q n, p < 2 ^ 32 → q < 2 ^ 32 →
      (tmemcmp4 m p q n = 0 ↔ tmemcmp m p q (n - n % 4) = 0) := by
  constructor
  · intro d s n hd hs hn hapart
    have h := hapart.apart (Nat.le_of_lt hn)
    have hbytes := tmemcpy1_copied m hd hs h
    exact ⟨(tmemcpy_copied m hd hs h).unique hbytes, (tmemcpy4_copied m h).unique hbytes,
      hbytes.copied, hbytes.kept⟩
  · intro p q n hp hq
    have hn : 4 * (n / 4) = n - n % 4 := by omega
    rw [tmemcmp4, tmemcmp4Loop_eq_zero_iff m hp hq, tmemcmp_eq_zero_iff m hp hq, hn]

/-- Seven bytes between addresses of the same alignment, with a prefix, a word and a tail; eleven
bytes between addresses of different ones; and nine bytes of which the last is another. -/
theorem tl_string_agrees_example :
    let m : Mem := fun a => if a = 9 then 0xFF else UInt8.ofNat (a % 32)
    (tmemcpy m 3 19 7 = tmemcpy1 m 3 19 7 ∧ tmemcpy4 m 3 19 7 = tmemcpy1 m 3 19 7) ∧
      (tmemcpy m 2 17 11 = tmemcpy1 m 2 17 11 ∧ tmemcpy4 m 2 17 11 = tmemcpy1 m 2 17 11 ∧
        tmemcpy1 m 2 17 11 12 = 27) ∧
      tmemcmp4 m 1 33 9 = 0 := by
  intro m
  obtain ⟨hcopies, hcompares⟩ := tl_string_agrees m
  have haligned := hcopies 3 19 7 (by decide) (by decide) (by decide)
    (by unfold NonOverlapping; decide)
  have hapart := hcopies 2 17 11 (by decide) (by decide) (by decide)
    (by unfold NonOverlapping; decide)
  refine ⟨⟨haligned.1, haligned.2.1⟩, ⟨hapart.1, hapart.2.1, hapart.2.2.1 10 (by decide)⟩, ?_⟩
  exact (hcompares 1 33 9 (by decide) (by decide)).mpr (by decide)

/-- Five bytes that differ in the last one: the word-wise comparison does not see it. -/
theorem tmemcmp4_ne_tmemcmp :
    ¬ ∀ (m : Mem) (p q n : ℕ), p < 2 ^ 32 → q < 2 ^ 32 →
      (tmemcmp4 m p q n = 0 ↔ tmemcmp m p q n = 0) := by
  intro h
  have hcmp := (h (fun a => if a = 4 then 1 else 0) 0 8 5 (by decide) (by decide)).mp (by decide)
  exact absurd hcmp (by decide)

end TlBleSdk.Common
