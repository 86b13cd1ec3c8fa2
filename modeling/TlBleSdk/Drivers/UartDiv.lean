import Mathlib.Tactic.IntervalCases
import Mathlib.Tactic.Linarith
import Mathlib.Tactic.Ring
import TlBleSdk.Hci.TrDef

/-!
# The divider of the UART

`uart_cal_div_and_bwpc`: the bit clock is the peripheral clock by `(div + 1) * (bwpc + 1)`. The
quotient of the clocks is split by each of the 13 bit widths, the splits are ranked by one decimal
digit of the divider, and a quotient that `uart_is_prime` takes for a prime is changed first.
-/

namespace TlBleSdk.Drivers

/-! ## The search -/

/-- The loop of `uart_is_prime`, for at most `fuel` turns. There is no result without one more turn,
and none for a division by zero. -/
def uartIsPrimeLoop (n : ℕ) : (fuel i : ℕ) → Option Bool
  | 0, _ => none
  | fuel + 1, i =>
    -- the square goes around at 2^32
    if u32 (i * i) < n then
      if i = 0 ∨ u32 (i + 2) = 0 then none
      else if n % i = 0 ∨ n % u32 (i + 2) = 0 then some false
      else uartIsPrimeLoop n fuel (u32 (i + 6))
    else some true

/-- `uart_is_prime`. -/
def uartIsPrime (fuel n : ℕ) : Option Bool :=
  if n ≤ 3 then some true
  else if n % 2 = 0 ∨ n % 3 = 0 then some false
  else uartIsPrimeLoop n fuel 5

/-- `D_intdec[j]`, for the bit width `j + 4`. -/
def dIntdec (primeInt j : ℕ) : ℕ := u32 (10 * primeInt) / (j + 4)

/-- `D_dec[j]`. -/
def dDec (primeInt j : ℕ) : ℕ :=
  u8 (u32Sub (dIntdec primeInt j) (u32 (10 * (dIntdec primeInt j / 10))))

/-- `D_int[j]`. -/
def dInt (primeInt j : ℕ) : ℕ := dIntdec primeInt j / 10

/-- The least and the greatest digit so far, and their positions. -/
structure DecSearch where
  min : ℕ
  positionMin : ℕ
  max : ℕ
  positionMax : ℕ

/-- A turn of the search. -/
def searchStep (dec int : ℕ → ℕ) (s : DecSearch) (j : ℕ) : DecSearch :=
  let s := if dec j ≤ s.min ∧ int j ≠ 1 then { s with min := dec j, positionMin := j } else s
  if s.max ≤ dec j then { s with max := dec j, positionMax := j } else s

/-- The search over the first `n` positions. -/
def decSearch (dec int : ℕ → ℕ) (n : ℕ) : DecSearch :=
  (List.range n).foldl (searchStep dec int) ⟨0xffffffff, 0, 0, 0⟩

/-- The `div` and the `bwpc` of the positions that were found. -/
def chooseAt (primeInt : ℕ) (s : DecSearch) : ℕ × ℕ :=
  let roundedDown := (u16 (u32Sub (dInt primeInt s.positionMin) 1), s.positionMin + 3)
  let roundedUp := (u16 (dInt primeInt s.positionMax), s.positionMax + 3)
  if dDec primeInt s.positionMin < 5 ∧ 5 ≤ dDec primeInt s.positionMax then
    -- the one that is nearer to a whole divider
    if dDec primeInt s.positionMin < 10 - dDec primeInt s.positionMax then roundedDown
    else roundedUp
  else if dDec primeInt s.positionMin < 5 ∧ dDec primeInt s.positionMax < 5 then roundedDown
  else roundedUp

/-- The `div` and the `bwpc` of a quotient. -/
def chooseDiv (primeInt : ℕ) : ℕ × ℕ :=
  chooseAt primeInt (decSearch (dDec primeInt) (dInt primeInt) 13)

/-- The quotient behind the test for primes. -/
def nudge (fuel primeInt primeDec : ℕ) : Option ℕ :=
  (uartIsPrime fuel primeInt).bind fun isPrime =>
    if isPrime then some (u32 (primeInt + 1))
    else if 5 < primeDec then
      -- it is rounded up, unless that gives a prime
      (uartIsPrime fuel (u32 (primeInt + 1))).map fun isPrime =>
        if isPrime then u32Sub (u32 (primeInt + 1)) 1 else u32 (primeInt + 1)
    else some primeInt

/-- `uart_cal_div_and_bwpc`: `div` and `bwpc`. -/
def uartCalDivAndBwpc (fuel baudrate pclk : ℕ) : Option (ℕ × ℕ) :=
  if baudrate = 0 then none
  else
    let primeInt := pclk / baudrate
    let primeDec := u8 (u32Sub (u32 (10 * pclk) / baudrate) (u32 (10 * primeInt)))
    (nudge fuel primeInt primeDec).map chooseDiv

/-! ## The test for primes -/

/-- The loop ends before the square of `i` goes around. -/
theorem uartIsPrimeLoop_total {n i : ℕ} (hn : n ≤ 2 ^ 18) (hi : i < 600) (hpos : 0 < i) :
    ∃ b, ∀ fuel, n < i + fuel → uartIsPrimeLoop n (fuel + 1) i = some b := by
  -- a turn takes 6 off what is left up to `n`
  induction hk : n - i using Nat.strongRecOn generalizing i with
  | _ k ih =>
    have hsquare : i * i < 4294967296 := by nlinarith
    by_cases hlt : i * i < n
    · have hi' : i < 512 := by nlinarith
      by_cases hdvd : n % i = 0 ∨ n % (i + 2) = 0
      · refine ⟨false, fun fuel _ => ?_⟩
        rw [uartIsPrimeLoop, u32_of_lt hsquare, if_pos hlt, u32_of_lt (by omega),
          if_neg (by omega), if_pos hdvd]
      · have hle : i ≤ i * i := Nat.le_mul_self i
        obtain ⟨b, hb⟩ := ih (n - (i + 6)) (by omega) (by omega) (by omega) rfl
        refine ⟨b, fun fuel hfuel => ?_⟩
        obtain ⟨f, rfl⟩ : ∃ f, fuel = f + 1 := ⟨fuel - 1, by omega⟩
        rw [uartIsPrimeLoop, u32_of_lt hsquare, if_pos hlt, u32_of_lt (by omega),
          if_neg (by omega), if_neg hdvd, u32_of_lt (by omega)]
        exact hb f (by omega)
    · refine ⟨true, fun fuel _ => ?_⟩
      rw [uartIsPrimeLoop, u32_of_lt hsquare, if_neg hlt]

theorem uartIsPrime_total {n : ℕ} (hn : n ≤ 2 ^ 18) :
    ∃ b, ∀ fuel, n < fuel → uartIsPrime fuel n = some b := by
  unfold uartIsPrime
  split_ifs with hsmall hdvd
  · exact ⟨true, fun _ _ => rfl⟩
  · exact ⟨false, fun _ _ => rfl⟩
  · obtain ⟨b, hb⟩ := uartIsPrimeLoop_total hn (by decide : 5 < 600) (by decide)
    refine ⟨b, fun fuel hfuel => ?_⟩
    obtain ⟨f, rfl⟩ : ∃ f, fuel = f + 1 := ⟨fuel - 1, by omega⟩
    exact hb f (by omega)

/-- A number that is taken for a prime has no divisor up to 16, unless it is one of these. -/
theorem eq_of_uartIsPrime {n k fuel : ℕ} (h : uartIsPrime (fuel + 3) n = some true) (hlo : 4 ≤ k)
    (hhi : k ≤ 16) (hdvd : k ∣ n) (hn : 3 < n) : n ∈ [5, 7, 11, 13, 25, 121] := by
  rw [uartIsPrime, if_neg (by omega)] at h
  by_cases hsmall : n % 2 = 0 ∨ n % 3 = 0
  · rw [if_pos hsmall] at h
    exact absurd h (by decide)
  · rw [if_neg hsmall] at h
    -- the first two turns test 5, 7, 11 and 13
    change (if 25 < n then if n % 5 = 0 ∨ n % 7 = 0 then some false
      else if 121 < n then if n % 11 = 0 ∨ n % 13 = 0 then some false
        else uartIsPrimeLoop n (fuel + 1) 17 else some true else some true) = some true at h
    have hk : n % k = 0 := Nat.mod_eq_zero_of_dvd hdvd
    have hfive : 25 < n → n % 5 ≠ 0 ∧ n % 7 ≠ 0 := by
      intro hlt
      rw [if_pos hlt] at h
      by_contra hdiv
      rw [if_pos (by omega)] at h
      exact absurd h (by decide)
    have heleven : 121 < n → n % 11 ≠ 0 ∧ n % 13 ≠ 0 := by
      intro hlt
      have hlt' : 25 < n := by omega
      have hfive := hfive hlt'
      rw [if_pos hlt', if_neg (by omega), if_pos hlt] at h
      by_contra hdiv
      rw [if_pos (by omega)] at h
      exact absurd h (by decide)
    simp only [List.mem_cons, List.not_mem_nil, or_false]
    by_cases hbig : k = 11 ∨ k = 13
    · -- up to 121 the other multiples have a smaller divisor
      obtain ⟨c, rfl⟩ := hdvd
      rcases hbig with rfl | rfl
      · have hc : c ≤ 11 := by omega
        interval_cases c <;> omega
      · have hc : c ≤ 9 := by omega
        interval_cases c <;> omega
    · interval_cases k <;> omega

/-! ## The digits -/

/-- The digit and the quotient of a split. -/
theorem dIntdec_eq {p : ℕ} (hp : 10 * p < 4294967296) (j : ℕ) :
    dIntdec p j = 10 * (p / (j + 4)) + 10 * (p % (j + 4)) / (j + 4) ∧
      10 * (p % (j + 4)) / (j + 4) < 10 := by
  have hmod : p % (j + 4) < j + 4 := Nat.mod_lt _ (by omega)
  constructor
  · have hsplit : 10 * p = 10 * (p % (j + 4)) + (j + 4) * (10 * (p / (j + 4))) := by
      have hdiv := Nat.mod_add_div p (j + 4)
      calc 10 * p = 10 * (p % (j + 4) + (j + 4) * (p / (j + 4))) := by rw [hdiv]
        _ = _ := by ring
    rw [dIntdec, u32_of_lt hp, hsplit, Nat.add_mul_div_left _ _ (by omega), Nat.add_comm]
  · rw [Nat.div_lt_iff_lt_mul (by omega)]
    omega

theorem dInt_eq {p : ℕ} (hp : 10 * p < 4294967296) (j : ℕ) : dInt p j = p / (j + 4) := by
  obtain ⟨heq, hlt⟩ := dIntdec_eq hp j
  generalize 10 * (p % (j + 4)) / (j + 4) = d at heq hlt
  generalize p / (j + 4) = q at heq ⊢
  rw [dInt, heq]
  omega

theorem dDec_eq {p : ℕ} (hp : 10 * p < 4294967296) (j : ℕ) :
    dDec p j = 10 * (p % (j + 4)) / (j + 4) := by
  obtain ⟨heq, hlt⟩ := dIntdec_eq hp j
  have hle : dIntdec p j ≤ 10 * p := by
    rw [dIntdec, u32_of_lt hp]
    exact Nat.div_le_self _ _
  generalize 10 * (p % (j + 4)) / (j + 4) = d at heq hlt ⊢
  generalize p / (j + 4) = q at heq
  have hint : 10 * (dIntdec p j / 10) = 10 * q := by
    rw [heq]
    omega
  rw [dDec, hint, u32_of_lt (by omega), u32Sub_of_le (by omega) (by omega), u8_of_lt (by omega)]
  omega

theorem dDec_lt {p : ℕ} (hp : 10 * p < 4294967296) (j : ℕ) : dDec p j < 10 := by
  rw [dDec_eq hp]
  exact (dIntdec_eq hp j).2

theorem dDec_eq_zero_iff {p : ℕ} (hp : 10 * p < 4294967296) (j : ℕ) :
    dDec p j = 0 ↔ 10 * (p % (j + 4)) < j + 4 := by
  rw [dDec_eq hp, Nat.div_eq_zero_iff]
  omega

/-! ## The positions that are found -/

/-- The two searches do not depend on each other. -/
theorem searchStep_eq (dec int : ℕ → ℕ) (s : DecSearch) (j : ℕ) :
    searchStep dec int s j =
      { min := if dec j ≤ s.min ∧ int j ≠ 1 then dec j else s.min
        positionMin := if dec j ≤ s.min ∧ int j ≠ 1 then j else s.positionMin
        max := if s.max ≤ dec j then dec j else s.max
        positionMax := if s.max ≤ dec j then j else s.positionMax } := by
  by_cases hmin : dec j ≤ s.min ∧ int j ≠ 1
  · by_cases hmax : s.max ≤ dec j <;> simp [searchStep, hmin, hmax]
  · by_cases hmax : s.max ≤ dec j <;> simp only [searchStep, if_neg hmin, hmax, if_true, if_false]

/-- After `n` positions: the least digit of the splits by more than one, at its last position, and
the greatest digit. -/
structure SearchInv (dec int : ℕ → ℕ) (n : ℕ) (s : DecSearch) : Prop where
  min_le : ∀ i < n, int i ≠ 1 → s.min ≤ dec i
  min_lt : ∀ i < n, s.positionMin < i → int i ≠ 1 → s.min < dec i
  min_at : s.positionMin < n ∧ s.min = dec s.positionMin ∧ int s.positionMin ≠ 1 ∨
    s.min = 0xffffffff ∧ s.positionMin = 0
  le_max : ∀ i < n, dec i ≤ s.max
  max_at : s.positionMax < n ∧ s.max = dec s.positionMax ∨ n = 0 ∧ s.max = 0

theorem SearchInv.step {dec int : ℕ → ℕ} {n : ℕ} {s : DecSearch} (h : SearchInv dec int n s) :
    SearchInv dec int (n + 1) (searchStep dec int s n) := by
  rw [searchStep_eq]
  constructor
  · intro i hi hne
    dsimp only
    rcases Nat.lt_succ_iff_lt_or_eq.mp hi with hlt | rfl
    · have hle := h.min_le i hlt hne
      split_ifs <;> omega
    · split_ifs <;> omega
  · intro i hi hpos hne
    dsimp only at hpos ⊢
    rcases Nat.lt_succ_iff_lt_or_eq.mp hi with hlt | rfl
    · -- a new position is behind all the others
      split_ifs at hpos ⊢
      · omega
      · exact h.min_lt i hlt hpos hne
    · split_ifs at hpos ⊢ <;> omega
  · dsimp only
    split_ifs with hstep
    · exact .inl ⟨Nat.lt_succ_self n, rfl, hstep.2⟩
    · exact h.min_at.imp_left fun ⟨hlt, hrest⟩ => ⟨Nat.lt_succ_of_lt hlt, hrest⟩
  · intro i hi
    dsimp only
    rcases Nat.lt_succ_iff_lt_or_eq.mp hi with hlt | rfl
    · have hle := h.le_max i hlt
      split_ifs <;> omega
    · split_ifs <;> omega
  · dsimp only
    left
    have hmax := h.max_at
    split_ifs <;> omega

theorem decSearch_inv (dec int : ℕ → ℕ) (n : ℕ) : SearchInv dec int n (decSearch dec int n) := by
  induction n with
  | zero => exact ⟨nofun, nofun, .inr ⟨rfl, rfl⟩, nofun, .inr ⟨rfl, rfl⟩⟩
  | succ n ih =>
    rw [decSearch, List.range_succ, List.foldl_append, List.foldl_cons, List.foldl_nil]
    exact ih.step

/-! ## The choice -/

/-- What the search over the 13 bit widths finds for a quotient. -/
structure Found (p : ℕ) (s : DecSearch) : Prop where
  min_lt : s.positionMin < 13
  max_lt : s.positionMax < 13
  min_ne : p / (s.positionMin + 4) ≠ 1
  min_le : ∀ i < 13, p / (i + 4) ≠ 1 → dDec p s.positionMin ≤ dDec p i
  last : ∀ i < 13, s.positionMin < i → p / (i + 4) ≠ 1 → dDec p s.positionMin < dDec p i
  le_max : ∀ i < 13, dDec p i ≤ dDec p s.positionMax

theorem found_decSearch {p : ℕ} (hp : 10 * p < 4294967296) (h8 : 8 ≤ p) :
    Found p (decSearch (dDec p) (dInt p) 13) := by
  have hinv := decSearch_inv (dDec p) (dInt p) 13
  generalize decSearch (dDec p) (dInt p) 13 = s at hinv
  -- the least width makes a split by more than one
  have hfirst : dInt p 0 ≠ 1 := by
    rw [dInt_eq hp]
    omega
  have hlt : s.min < 10 :=
    Nat.lt_of_le_of_lt (hinv.min_le 0 (by decide) hfirst) (dDec_lt hp 0)
  obtain ⟨hpos, hmin, hne⟩ := hinv.min_at.resolve_right (by omega)
  obtain ⟨hpos', hmax⟩ := hinv.max_at.resolve_right (by omega)
  have hle := hinv.min_le
  have hlast := hinv.min_lt
  have hge := hinv.le_max
  simp only [dInt_eq hp, hmin] at hne hle hlast
  rw [hmax] at hge
  exact ⟨hpos, hpos', hne, hle, hlast, hge⟩

/-- A divider that is rounded down fits. -/
theorem roundedDown_lt {p i : ℕ} (h16 : 16 ≤ p) (hp : p ≤ 4 * 2 ^ 15 + 1) (hi : i < 13) :
    u16 (u32Sub (dInt p i) 1) < 2 ^ 15 := by
  have hbound : 10 * p < 4294967296 := by omega
  have hdiv : p / (i + 4) ≤ p / 4 := Nat.div_le_div_left (by omega) (by decide)
  have hpos : 1 ≤ p / (i + 4) := (Nat.one_le_div_iff (by omega)).mpr (by omega)
  rw [dInt_eq hbound, u32Sub_of_le hpos (by omega), u16_of_lt (by omega)]
  omega

/-- A divider that is rounded up fits: the greatest one never is. -/
theorem roundedUp_lt {p i : ℕ} (hp : p ≤ 4 * 2 ^ 15 + 1) (hdec : 5 ≤ dDec p i) :
    u16 (dInt p i) < 2 ^ 15 := by
  have hbound : 10 * p < 4294967296 := by omega
  rw [dDec_eq hbound] at hdec
  rw [dInt_eq hbound]
  rcases Nat.eq_zero_or_pos i with rfl | hpos
  · -- the digit leaves out the greatest quotient by 4
    rw [u16_of_lt (by omega)]
    omega
  · have hdiv : p / (i + 4) ≤ p / 5 := Nat.div_le_div_left (by omega) (by decide)
    rw [u16_of_lt (by omega)]
    omega

/-- The divider is rounded up for the greatest digit alone, and if that digit is 5 or more. -/
theorem Found.chooseAt_cases {p : ℕ} {s : DecSearch} (h : Found p s) :
    chooseAt p s = (u16 (u32Sub (dInt p s.positionMin) 1), s.positionMin + 3) ∨
      chooseAt p s = (u16 (dInt p s.positionMax), s.positionMax + 3) ∧
        5 ≤ dDec p s.positionMax := by
  have hge := h.le_max s.positionMin h.min_lt
  rw [chooseAt]
  by_cases hmin : dDec p s.positionMin < 5
  · by_cases hmax : 5 ≤ dDec p s.positionMax
    · rw [if_pos ⟨hmin, hmax⟩]
      by_cases hnear : dDec p s.positionMin < 10 - dDec p s.positionMax
      · exact .inl (if_pos hnear)
      · exact .inr ⟨if_neg hnear, hmax⟩
    · rw [if_neg (fun hboth => hmax hboth.2)]
      exact .inl (if_pos ⟨hmin, Nat.lt_of_not_le hmax⟩)
  · rw [if_neg (fun hboth => hmin hboth.1)]
    exact .inr ⟨if_neg fun hboth => hmin hboth.1, by omega⟩

/-- A quotient of 16 or more gets a divider and a bit width that fit their fields. -/
theorem Found.chooseAt_fits {p : ℕ} {s : DecSearch} (h : Found p s) (h16 : 16 ≤ p)
    (hp : p ≤ 4 * 2 ^ 15 + 1) :
    (chooseAt p s).1 < 2 ^ 15 ∧ 3 ≤ (chooseAt p s).2 ∧ (chooseAt p s).2 ≤ 15 := by
  have hmin := h.min_lt
  have hmax := h.max_lt
  rcases h.chooseAt_cases with heq | ⟨heq, hdec⟩
  · rw [heq]
    exact ⟨roundedDown_lt h16 hp hmin, Nat.le_add_left 3 _, by omega⟩
  · rw [heq]
    exact ⟨roundedUp_lt hp hdec, Nat.le_add_left 3 _, by omega⟩

/-- Below 16 some quotients are less than their bit width. -/
theorem chooseDiv_fits_of_lt {p : ℕ} (h4 : 4 ≤ p) (hp : p < 16) :
    (chooseDiv p).1 < 2 ^ 15 ∧ 3 ≤ (chooseDiv p).2 ∧ (chooseDiv p).2 ≤ 15 := by
  interval_cases p <;> decide

theorem chooseDiv_fits {p : ℕ} (h4 : 4 ≤ p) (hp : p ≤ 4 * 2 ^ 15 + 1) :
    (chooseDiv p).1 < 2 ^ 15 ∧ 3 ≤ (chooseDiv p).2 ∧ (chooseDiv p).2 ≤ 15 := by
  by_cases h16 : p < 16
  · exact chooseDiv_fits_of_lt h4 h16
  · exact (found_decSearch (by omega) (by omega)).chooseAt_fits (by omega) hp

/-! ## The exact splits -/

/-- A bit width divides the quotient, and the splits by the greater widths leave a digit or are by
one. -/
def LastDivisor (q : ℕ) : Prop :=
  ∃ k, 4 ≤ k ∧ k ≤ 16 ∧ k ∣ q ∧ q ≠ k ∧ ∀ k', k < k' → k' ≤ 16 → q / k' ≠ 1 → k' ≤ 10 * (q % k')

/-- The quotient is split without a rest: it is none of the five that are taken for primes, and the
last bit width that leaves no digit leaves nothing. 121 is taken for a prime too, but the split of
122 is 121. -/
def SplitsExactly (q : ℕ) : Prop := q = 121 ∨ q ∉ [5, 7, 11, 13, 25] ∧ LastDivisor q

/-- A split without a digit is chosen. -/
theorem chooseAt_of_zero {p : ℕ} {s : DecSearch} (hp : 10 * p < 4294967296)
    (hmin : dDec p s.positionMin = 0) :
    chooseAt p s = (u16 (u32Sub (dInt p s.positionMin) 1), s.positionMin + 3) := by
  have hlt := dDec_lt hp s.positionMax
  rw [chooseAt, hmin]
  by_cases hmax : 5 ≤ dDec p s.positionMax
  · rw [if_pos ⟨by decide, hmax⟩]
    exact if_pos (by omega)
  · rw [if_neg (fun hboth => hmax hboth.2)]
    exact if_pos ⟨by decide, Nat.lt_of_not_le hmax⟩

/-- A quotient with a divisor has a split without a digit. -/
theorem Found.dDec_min {q b : ℕ} {s : DecSearch} (h : Found q s) (hbound : 10 * q < 4294967296)
    (hlo : 4 ≤ b) (hhi : b ≤ 16) (hdvd : b ∣ q) (hb1 : q / b ≠ 1) : dDec q s.positionMin = 0 := by
  have hzero : dDec q (b - 4) = 0 := by
    rw [dDec_eq_zero_iff hbound, Nat.sub_add_cancel hlo, Nat.mod_eq_zero_of_dvd hdvd]
    omega
  have hle := h.min_le (b - 4) (by omega) (by rwa [Nat.sub_add_cancel hlo])
  omega

/-- The widths above the one that is chosen leave a digit. -/
theorem Found.le_of_gt {q : ℕ} {s : DecSearch} (h : Found q s) (hbound : 10 * q < 4294967296)
    (hmin : dDec q s.positionMin = 0) {k : ℕ} (hk : s.positionMin + 4 < k) (hk' : k ≤ 16)
    (hne : q / k ≠ 1) : k ≤ 10 * (q % k) := by
  have hdigit := h.last (k - 4) (by omega) (by omega) (by rwa [Nat.sub_add_cancel (by omega)])
  have hzero := dDec_eq_zero_iff hbound (k - 4)
  rw [Nat.sub_add_cancel (by omega)] at hzero
  omega

/-- The bit clock of a split without a digit. -/
theorem Found.chooseAt_mul {q : ℕ} {s : DecSearch} (h : Found q s) (hq : q ≤ 4 * 2 ^ 15 + 1)
    (h8 : 8 ≤ q) (hmin : dDec q s.positionMin = 0) :
    ((chooseAt q s).1 + 1) * ((chooseAt q s).2 + 1) =
      q / (s.positionMin + 4) * (s.positionMin + 4) := by
  have hbound : 10 * q < 4294967296 := by omega
  have hlt := h.min_lt
  have hrest := (dDec_eq_zero_iff hbound s.positionMin).mp hmin
  -- a width above the quotient leaves the quotient
  have hpos : 1 ≤ q / (s.positionMin + 4) := by
    rw [Nat.one_le_div_iff (by omega)]
    by_contra hbelow
    rw [Nat.mod_eq_of_lt (by omega)] at hrest
    omega
  have hfits : q / (s.positionMin + 4) ≤ q / 4 := Nat.div_le_div_left (by omega) (by decide)
  rw [chooseAt_of_zero hbound hmin, dInt_eq hbound, u32Sub_of_le hpos (by omega),
    u16_of_lt (by omega)]
  dsimp only
  rw [Nat.sub_add_cancel hpos]

/-- The width that is chosen for a quotient with a divisor is the last that leaves no digit. -/
theorem Found.exact_iff {q b : ℕ} {s : DecSearch} (h : Found q s) (hq : q ≤ 4 * 2 ^ 15 + 1)
    (hlo : 4 ≤ b) (hhi : b ≤ 16) (hdvd : b ∣ q) (hb1 : q / b ≠ 1) (h8 : 8 ≤ q) :
    ((chooseAt q s).1 + 1) * ((chooseAt q s).2 + 1) = q ↔ LastDivisor q := by
  have hbound : 10 * q < 4294967296 := by omega
  have hmin := h.dDec_min hbound hlo hhi hdvd hb1
  have hlt := h.min_lt
  rw [h.chooseAt_mul hq h8 hmin]
  constructor
  · intro hexact
    have hne : q ≠ s.positionMin + 4 := by
      intro heq
      exact h.min_ne (by rw [← heq, Nat.div_self (by omega)])
    exact ⟨s.positionMin + 4, by omega, by omega, Dvd.intro_left _ hexact, hne,
      fun k' => h.le_of_gt hbound hmin⟩
  · intro ⟨k, hk, hk', hdvd', hne, hlast⟩
    have hqk := Nat.div_mul_cancel hdvd'
    have hk1 : q / k ≠ 1 := by
      intro heq
      rw [heq] at hqk
      omega
    -- neither of the two widths is above the other one
    have hsame : s.positionMin + 4 = k := by
      by_contra hdiff
      rcases Nat.lt_or_gt_of_ne hdiff with hless | hmore
      · have hdigit := h.le_of_gt hbound hmin hless hk' hk1
        rw [Nat.mod_eq_zero_of_dvd hdvd'] at hdigit
        omega
      · have hrest := (dDec_eq_zero_iff hbound s.positionMin).mp hmin
        have hdigit := hlast (s.positionMin + 4) hmore (by omega) h.min_ne
        omega
    rw [hsame]
    exact hqk

/-- These have no bit width as a proper divisor. -/
theorem chooseDiv_exact_iff_of_mem {q : ℕ} (hq : q ∈ [4, 6, 9]) :
    (((chooseDiv q).1 + 1) * ((chooseDiv q).2 + 1) = q ↔ LastDivisor q) := by
  have hchoose : ∀ q ∈ [4, 6, 9], ((chooseDiv q).1 + 1) * ((chooseDiv q).2 + 1) ≠ q := by decide
  refine iff_of_false (hchoose q hq) ?_
  rintro ⟨k, hk, -, hdvd, hne, -⟩
  have hle : k ≤ 9 := by
    have hle := Nat.le_of_dvd (by simp at hq; omega) hdvd
    simp at hq
    omega
  simp only [List.mem_cons, List.not_mem_nil, or_false] at hq
  interval_cases k <;> omega

/-- The choice for a quotient that is not taken for a prime. -/
theorem chooseDiv_exact_iff {q k : ℕ} (hq : q ≤ 4 * 2 ^ 15 + 1) (hlo : 4 ≤ k) (hhi : k ≤ 16)
    (hdvd : k ∣ q) (h4 : 4 ≤ q) (hsix : q ∉ [5, 7, 11, 13, 25, 121]) :
    ((chooseDiv q).1 + 1) * ((chooseDiv q).2 + 1) = q ↔ LastDivisor q := by
  have hproper : q ∈ [4, 6, 9] ∨ ∃ b, 4 ≤ b ∧ b ≤ 16 ∧ b ∣ q ∧ q / b ≠ 1 := by
    by_cases hk1 : q / k = 1
    · -- the quotient is a bit width itself
      have hqk : q = k := by
        have hmul := Nat.div_mul_cancel hdvd
        rw [hk1] at hmul
        omega
      subst hqk
      simp only [List.mem_cons, List.not_mem_nil, or_false] at hsix ⊢
      interval_cases q <;> first
        | exact .inl (by omega)
        | exact absurd (by decide) hsix
        | exact .inr ⟨4, by decide⟩
        | exact .inr ⟨5, by decide⟩
        | exact .inr ⟨7, by decide⟩
    · exact .inr ⟨k, hlo, hhi, hdvd, hk1⟩
  rcases hproper with hsmall | ⟨b, hb, hb', hdvd', hb1⟩
  · exact chooseDiv_exact_iff_of_mem hsmall
  · -- a proper divisor of 4 or more
    have h8 : 8 ≤ q := by
      obtain ⟨c, rfl⟩ := hdvd'
      rw [Nat.mul_div_cancel_left _ (by omega)] at hb1
      have hc : c ≠ 0 := by
        rintro rfl
        omega
      have hc2 : 2 ≤ c := by omega
      nlinarith
    exact (found_decSearch (by omega) h8).exact_iff hq hb hb' hdvd' hb1 h8

/-! ## The quotient behind the test -/

theorem nudge_total {p : ℕ} (hp : p ≤ 4 * 2 ^ 15) (dec : ℕ) :
    ∃ p', (∀ fuel, 2 ^ 18 ≤ fuel → nudge fuel p dec = some p') ∧ p ≤ p' ∧ p' ≤ p + 1 := by
  obtain ⟨b, hb⟩ := uartIsPrime_total (by omega : p ≤ 2 ^ 18)
  obtain ⟨b', hb'⟩ := uartIsPrime_total (by omega : p + 1 ≤ 2 ^ 18)
  have hnext : u32 (p + 1) = p + 1 := u32_of_lt (by omega)
  have hback : u32Sub (p + 1) 1 = p := by
    rw [u32Sub_of_le (by omega) (by omega), Nat.add_sub_cancel]
  have heq : ∀ fuel, 2 ^ 18 ≤ fuel → nudge fuel p dec =
      some (if b then p + 1 else if 5 < dec then if b' then p else p + 1 else p) := by
    intro fuel hfuel
    rw [nudge, hnext, hb fuel (by omega), hb' fuel (by omega), hback, Option.bind_some,
      Option.map_some]
    split_ifs <;> rfl
  refine ⟨_, heq, ?_, ?_⟩
  · split_ifs <;> omega
  · split_ifs <;> omega

/-- A quotient without a rest is changed if it is taken for a prime. -/
theorem nudge_zero {q fuel : ℕ} {b : Bool} (hq : q ≤ 4 * 2 ^ 15)
    (hb : uartIsPrime fuel q = some b) : nudge fuel q 0 = some (if b then q + 1 else q) := by
  rw [nudge, hb, Option.bind_some, if_neg (by decide : ¬ 5 < 0), u32_of_lt (by omega)]
  cases b <;> rfl

theorem uartIsPrime_of_mem {q fuel : ℕ} (hq : q ∈ [5, 7, 11, 13, 25, 121]) (hfuel : 2 ≤ fuel) :
    uartIsPrime fuel q = some true := by
  obtain ⟨f, rfl⟩ : ∃ f, fuel = f + 2 := ⟨fuel - 2, by omega⟩
  simp only [List.mem_cons, List.not_mem_nil, or_false] at hq
  rcases hq with rfl | rfl | rfl | rfl | rfl | rfl <;> rfl

/-- The quotient above one of the six is split into it for 121 only. -/
theorem chooseDiv_succ_of_mem {q : ℕ} (hq : q ∈ [5, 7, 11, 13, 25, 121]) :
    ((chooseDiv (q + 1)).1 + 1) * ((chooseDiv (q + 1)).2 + 1) = q ↔ q = 121 := by
  have hchoose : ∀ q ∈ [5, 7, 11, 13, 25, 121],
      (((chooseDiv (q + 1)).1 + 1) * ((chooseDiv (q + 1)).2 + 1) = q ↔ q = 121) := by decide
  exact hchoose q hq

/-- The choice for a quotient without a rest that has a bit width as a divisor. -/
theorem uartCalDivAndBwpc_exact {baudrate q k : ℕ} {r : ℕ × ℕ} (hpos : 0 < baudrate)
    (h10 : 10 * (baudrate * q) < 2 ^ 32) (hq : q ≤ 4 * 2 ^ 15) (h4 : 4 ≤ q) (hlo : 4 ≤ k)
    (hhi : k ≤ 16) (hdvd : k ∣ q)
    (hr : uartCalDivAndBwpc (2 ^ 18) baudrate (baudrate * q) = some r) :
    (r.1 + 1) * (r.2 + 1) = q ↔ SplitsExactly q := by
  have hdec : u8 (u32Sub (u32 (10 * (baudrate * q)) / baudrate) (u32 (10 * q))) = 0 := by
    have hmul : 10 * (baudrate * q) = baudrate * (10 * q) := by ring
    rw [u32_of_lt (by omega), hmul, Nat.mul_div_cancel_left _ hpos, u32_of_lt (by omega),
      u32Sub_of_le (Nat.le_refl _) (by omega), Nat.sub_self]
    rfl
  rw [uartCalDivAndBwpc, if_neg (by omega), Nat.mul_div_cancel_left _ hpos] at hr
  dsimp only at hr
  rw [hdec] at hr
  by_cases hsix : q ∈ [5, 7, 11, 13, 25, 121]
  · -- the quotient above is split
    rw [nudge_zero hq (uartIsPrime_of_mem hsix (by decide)), if_pos rfl, Option.map_some,
      Option.some_inj] at hr
    rw [← hr, chooseDiv_succ_of_mem hsix, SplitsExactly]
    simp only [List.mem_cons, List.not_mem_nil, or_false] at hsix ⊢
    omega
  · obtain ⟨b, hb⟩ := uartIsPrime_total (by omega : q ≤ 2 ^ 18)
    have hprime := hb (2 ^ 18) (by omega)
    have hfalse : b = false := by
      cases b with
      | false => rfl
      | true => exact absurd (eq_of_uartIsPrime hprime hlo hhi hdvd (by omega)) hsix
    rw [nudge_zero hq hprime, hfalse, if_neg (by decide), Option.map_some, Option.some_inj] at hr
    rw [← hr, chooseDiv_exact_iff (by omega) hlo hhi hdvd h4 hsix, SplitsExactly]
    simp only [List.mem_cons, List.not_mem_nil, or_false] at hsix ⊢
    constructor
    · exact fun hlast => .inr ⟨by omega, hlast⟩
    · exact fun h => (h.resolve_left (by omega)).2

/-! ## The pair -/

/-- A result is a divider and a bit width that fit their fields, and an exact quotient that has a
split is split exactly if and only if `SplitsExactly` holds of it. -/
theorem uartCalDivAndBwpc_exact_iff {baudrate pclk : ℕ} (h4 : 4 * baudrate ≤ pclk)
    (h10 : 10 * pclk < 2 ^ 32) (hquot : pclk / baudrate ≤ 4 * 2 ^ 15) :
    (baudrate = 0 → ∀ fuel, uartCalDivAndBwpc fuel baudrate pclk = none) ∧
    (0 < baudrate → ∃ div bwpc,
      (∀ fuel, 2 ^ 18 ≤ fuel → uartCalDivAndBwpc fuel baudrate pclk = some (div, bwpc)) ∧
      3 ≤ bwpc ∧ bwpc ≤ 15 ∧ div < 2 ^ 15 ∧
      ∀ d b, 3 ≤ b → b ≤ 15 → pclk = baudrate * ((d + 1) * (b + 1)) →
        (baudrate * (div + 1) * (bwpc + 1) = pclk ↔ SplitsExactly ((d + 1) * (b + 1)))) := by
  constructor
  · intro hzero fuel
    rw [uartCalDivAndBwpc, if_pos hzero]
  · intro hpos
    obtain ⟨p, hnudge, hle, hle'⟩ := nudge_total hquot
      (u8 (u32Sub (u32 (10 * pclk) / baudrate) (u32 (10 * (pclk / baudrate)))))
    have hcal : ∀ fuel, 2 ^ 18 ≤ fuel →
        uartCalDivAndBwpc fuel baudrate pclk = some (chooseDiv p) := by
      intro fuel hfuel
      rw [uartCalDivAndBwpc, if_neg (by omega)]
      dsimp only
      rw [hnudge fuel hfuel, Option.map_some]
    have hfour : 4 ≤ pclk / baudrate := (Nat.le_div_iff_mul_le hpos).mpr h4
    have hfits := chooseDiv_fits (by omega : 4 ≤ p) (by omega)
    obtain ⟨⟨div, bwpc⟩, hr⟩ : ∃ r, r = chooseDiv p := ⟨_, rfl⟩
    rw [← hr] at hcal hfits
    obtain ⟨hdiv, hlo, hhi⟩ := hfits
    refine ⟨div, bwpc, hcal, hlo, hhi, hdiv, ?_⟩
    intro d b hb hb' hpclk
    subst hpclk
    rw [Nat.mul_div_cancel_left _ hpos] at hquot hfour
    rw [Nat.mul_assoc, Nat.mul_right_inj (by omega)]
    exact uartCalDivAndBwpc_exact hpos h10 hquot hfour (by omega) (by omega)
      (Nat.dvd_mul_left (b + 1) (d + 1)) (hcal _ (Nat.le_refl _))

theorem uartCalDivAndBwpc_exact_iff_24M :
    ∃ div bwpc,
      (∀ fuel, 2 ^ 18 ≤ fuel → uartCalDivAndBwpc fuel 1000000 24000000 = some (div, bwpc)) ∧
      3 ≤ bwpc ∧ bwpc ≤ 15 ∧ div < 2 ^ 15 ∧ 1000000 * (div + 1) * (bwpc + 1) = 24000000 := by
  obtain ⟨div, bwpc, hcal, hlo, hhi, hdiv, hexact⟩ :=
    (uartCalDivAndBwpc_exact_iff (by decide : 4 * 1000000 ≤ 24000000) (by decide)
      (by decide)).2 (by decide)
  refine ⟨div, bwpc, hcal, hlo, hhi, hdiv, (hexact 1 11 (by decide) (by decide) rfl).mpr ?_⟩
  refine .inr ⟨by decide, 12, by decide, by decide, by decide, by decide, ?_⟩
  intro k hk hk' hne
  interval_cases k <;> omega

/-- 25 is taken for a prime, and the bit clock of 26 is chosen for it. -/
theorem uartCalDivAndBwpc_ne_of_square :
    4 * 960000 ≤ 24000000 ∧ 10 * 24000000 < 2 ^ 32 ∧ 24000000 / 960000 ≤ 4 * 2 ^ 15 ∧
      24000000 = 960000 * ((4 + 1) * (4 + 1)) ∧
      (∀ fuel, 2 ≤ fuel → uartCalDivAndBwpc fuel 960000 24000000 = some (1, 12)) ∧
      960000 * (1 + 1) * (12 + 1) ≠ 24000000 := by
  refine ⟨by decide, by decide, by decide, by decide, ?_, by decide⟩
  intro fuel hfuel
  have hnudge : nudge fuel 25 0 = some 26 :=
    nudge_zero (by decide) (uartIsPrime_of_mem (by decide) hfuel)
  rw [uartCalDivAndBwpc, if_neg (by decide)]
  change (nudge fuel 25 0).map chooseDiv = _
  rw [hnudge]
  decide

end TlBleSdk.Drivers
