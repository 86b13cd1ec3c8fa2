import Mathlib.Data.Rat.Defs
import TlBleSdk.Hci.TrDef
import TlBleSdk.Lib.Search

/-!
# The bit timing of CAN

The searches of `can.c` for the segments of a bit. A candidate is a pair of segment lengths. The
prescaler of a classic frame, and of the data phase of a CAN FD frame, is computed for each
candidate; the nominal phase of a CAN FD frame takes the prescaler of its data phase. All sums and
products are in 32 bits, and the ratio of the sample point is exact. A division by zero gives
nothing.
-/

namespace TlBleSdk.Drivers

/-! ## The configuration -/

/-- `can_fd_protocol_timing_e`. -/
inductive CanFdProtocolTiming where
  | edcbt
  | fdcbt

/-- `can_timing_config_t`. -/
structure CanTimingConfig where
  presdiv : ℕ
  phaseSeg1 : ℕ
  phaseSeg2 : ℕ
  propSeg : ℕ
  fdPresdiv : ℕ
  fdPhaseSeg1 : ℕ
  fdPhaseSeg2 : ℕ
  fdPropSeg : ℕ
  canfdTimingMode : CanFdProtocolTiming

/-- `can_fd_baud_rate_t`. -/
structure CanFdBaudRate where
  canfdTimingMode : CanFdProtocolTiming
  bitRate : UInt32
  bitRateFd : UInt32

/-- A search: nothing for a division by zero, no configuration if none is found. -/
abbrev CanSearch := Option (Option CanTimingConfig)

/-! ## The turns -/

/-- The values of a loop from `hi` down to `lo`. -/
def downTo (hi lo : ℕ) : List ℕ := (List.range (hi + 1 - lo)).map fun k => hi - k

/-- The candidates of two loops, one in the other. -/
def pairs (outer inner : List ℕ) : List (ℕ × ℕ) :=
  outer.flatMap fun a => inner.map fun b => (a, b)

/-- A division. -/
def udiv (a b : ℕ) : Option ℕ := if b = 0 then none else some (a / b)

/-- `error`. -/
def rateError (bitRate actualBaudrate : ℕ) : ℕ :=
  if actualBaudrate < bitRate then bitRate - actualBaudrate else actualBaudrate - bitRate

/-- `caiyang_lv`, the ratio of the sample point. -/
def samplePoint (timingSeg1 timingTotal : ℕ) : ℚ := timingSeg1 / timingTotal

/-- `calculated_prescaler` and `actual_baudrate`. -/
def prescale (bitRate pclk total : ℕ) : Option (ℕ × ℕ) :=
  (udiv pclk (u32 (bitRate * total))).bind fun quotient =>
    -- a quotient of 0 makes a prescaler of 2^32 - 1
    let prescaler := u32Sub quotient 1
    (udiv pclk (u32 (u32 (prescaler + 1) * total))).map fun actual => (prescaler, actual)

/-- What a phase asks of its candidates. -/
structure PhaseLimits where
  maxPresdiv : ℕ
  minTimeQuanta : ℕ

/-- A turn that computes a prescaler, for a candidate of `total` quanta of which `seg1` are in front
of the sample point. -/
def rateTurn (lim : PhaseLimits) (bitRate pclk : ℕ) (samplingRate : ℚ) (total seg1 : ℕ)
    (found : ℕ → CanSearch) : CanSearch :=
  (prescale bitRate pclk total).bind fun p =>
    if rateError bitRate p.2 = 0 ∧ p.1 < lim.maxPresdiv ∧ samplingRate ≤ samplePoint seg1 total ∧
        lim.minTimeQuanta ≤ total then found p.1
    else some none

/-- A turn with the prescaler of the data phase. -/
def headerTurn (minTimeQuanta bitRate pclk pclkDiv : ℕ) (samplingRate : ℚ) (total seg1 : ℕ)
    (found : CanTimingConfig) : CanSearch :=
  (udiv pclk (u32 (u32 (pclkDiv + 1) * total))).map fun actual =>
    if rateError bitRate actual = 0 ∧ samplingRate ≤ samplePoint seg1 total ∧
        minTimeQuanta ≤ total then some found
    else none

/-- A segment of `ts1` as its two fields, of which the second is at most `maxSeg1`. -/
def splitSeg (maxSeg1 ts1 : ℕ) : ℕ × ℕ :=
  if maxSeg1 < ts1 / 2 then (ts1 - maxSeg1, maxSeg1) else (ts1 / 2, ts1 - ts1 / 2)

/-! ## Classic CAN -/

/-- `MAX_PRESDIV` and `CAN_MIN_TIME_QUANTA`. -/
def canLimits : PhaseLimits := ⟨0xff, 8⟩

/-- The candidates `ts1_val` and `ts2_val` of `can_cal_timing_config`. -/
def canCandidates : List (ℕ × ℕ) := pairs (downTo 0x0e 2) (downTo 0x07 2)

/-- A turn of `can_cal_timing_config`. -/
def canTurn (bitRate pclk : ℕ) (samplingRate : ℚ) (cfg : CanTimingConfig) (c : ℕ × ℕ) : CanSearch :=
  rateTurn canLimits bitRate pclk samplingRate (u8 (c.1 + c.2 + 4)) (c.1 + 3) fun prescaler =>
    let cfg := { cfg with phaseSeg2 := c.2, presdiv := prescaler }
    -- the split keeps the sum of the two lengths
    if 7 + 2 - 1 < c.1 then some (some { cfg with propSeg := c.1 - 7, phaseSeg1 := 7 })
    else some (some { cfg with propSeg := 1, phaseSeg1 := c.1 - 1 })

/-- `can_cal_timing_config`. -/
def canCalTimingConfig (bitRate pclk : UInt32) (samplingRate : ℚ) (cfg : CanTimingConfig) :
    CanSearch :=
  Search.run (canTurn bitRate.toNat pclk.toNat samplingRate cfg) canCandidates

/-! ## FDCBT -/

/-- The candidates `ts2_val` and `ts1_val` of `canfd_cal_fdcbt_header_timing_config`. -/
def fdcbtHeaderCandidates : List (ℕ × ℕ) := pairs (downTo 0x1f 2) (downTo (0x3f + 0x1f) 2)

/-- A turn of `canfd_cal_fdcbt_header_timing_config`. -/
def fdcbtHeaderTurn (bitRate pclk pclkDiv : ℕ) (samplingRate : ℚ) (cfg : CanTimingConfig)
    (c : ℕ × ℕ) : CanSearch :=
  headerTurn 8 bitRate pclk pclkDiv samplingRate (u8 (c.2 + c.1 + 4)) (c.2 + 3)
    { cfg with
      phaseSeg2 := c.1
      presdiv := pclkDiv
      propSeg := (splitSeg 0x1f c.2).1
      phaseSeg1 := (splitSeg 0x1f c.2).2 }

/-- `canfd_cal_fdcbt_header_timing_config`. -/
def canfdCalFdcbtHeaderTimingConfig (bitRate pclk pclkDiv : ℕ) (samplingRate : ℚ)
    (cfg : CanTimingConfig) : CanSearch :=
  Search.run (fdcbtHeaderTurn bitRate pclk pclkDiv samplingRate cfg) fdcbtHeaderCandidates

/-- `MAX_FPRESDIV` and `FDCBT_MIN_TIME_QUANTA`. -/
def fdcbtLimits : PhaseLimits := ⟨0x3ff, 5⟩

/-- The candidates `ts2_val` and `ts1_val` of `canfd_cal_fdcbt_data_timing_config`. -/
def fdcbtCandidates : List (ℕ × ℕ) := pairs (downTo 0x07 2) (downTo (0x1f + 0x07) 2)

/-- A turn of `canfd_cal_fdcbt_data_timing_config`. -/
def fdcbtTurn (bitRate bitRateFd pclk : ℕ) (samplingRate : ℚ) (cfg : CanTimingConfig) (c : ℕ × ℕ) :
    CanSearch :=
  rateTurn fdcbtLimits bitRateFd pclk samplingRate (c.2 + c.1 + 3) (c.2 + 2) fun prescaler =>
    if c.2 ≤ 8 * 2 ∧ c.1 ≤ 8 then
      -- without a nominal phase for it the search goes on
      (canfdCalFdcbtHeaderTimingConfig bitRate pclk prescaler samplingRate cfg).map fun o =>
        o.map fun cfg => { cfg with
          fdPhaseSeg2 := c.1
          fdPresdiv := prescaler
          fdPropSeg := (splitSeg 0x07 c.2).1
          fdPhaseSeg1 := (splitSeg 0x07 c.2).2 }
    else some none

/-- `canfd_cal_fdcbt_data_timing_config`. -/
def canfdCalFdcbtDataTimingConfig (bitRate bitRateFd pclk : ℕ) (samplingRate : ℚ)
    (cfg : CanTimingConfig) : CanSearch :=
  Search.run (fdcbtTurn bitRate bitRateFd pclk samplingRate cfg) fdcbtCandidates

/-! ## EDCBT -/

/-- The candidates `ts1_val` and `ts2_val` of `canfd_cal_edcbt_header_timing_config`. -/
def edcbtHeaderCandidates : List (ℕ × ℕ) := pairs (downTo 0xff 2) (downTo 0x7f 2)

/-- A turn of `canfd_cal_edcbt_header_timing_config`. -/
def edcbtHeaderTurn (bitRate pclk pclkDiv : ℕ) (samplingRate : ℚ) (cfg : CanTimingConfig)
    (c : ℕ × ℕ) : CanSearch :=
  headerTurn 8 bitRate pclk pclkDiv samplingRate (c.1 + c.2 + 3) (c.1 + 2)
    { cfg with phaseSeg2 := c.2, presdiv := pclkDiv, phaseSeg1 := c.1 }

/-- `canfd_cal_edcbt_header_timing_config`. -/
def canfdCalEdcbtHeaderTimingConfig (bitRate pclk pclkDiv : ℕ) (samplingRate : ℚ)
    (cfg : CanTimingConfig) : CanSearch :=
  Search.run (edcbtHeaderTurn bitRate pclk pclkDiv samplingRate cfg) edcbtHeaderCandidates

/-- `MAX_EDPRESDIV` and `EDCBT_MIN_TIME_QUANTA`. -/
def edcbtLimits : PhaseLimits := ⟨0x3ff, 5⟩

/-- The candidates `ts1_val` and `ts2_val` of `canfd_cal_edcbt_data_timing_config`. -/
def edcbtCandidates : List (ℕ × ℕ) := pairs (downTo 0x1f 2) (downTo 0x0f 2)

/-- A turn of `canfd_cal_edcbt_data_timing_config`. -/
def edcbtTurn (bitRate bitRateFd pclk : ℕ) (samplingRate : ℚ) (cfg : CanTimingConfig) (c : ℕ × ℕ) :
    CanSearch :=
  rateTurn edcbtLimits bitRateFd pclk samplingRate (c.1 + c.2 + 3) (c.1 + 2) fun prescaler =>
    -- without a nominal phase for it the search goes on
    (canfdCalEdcbtHeaderTimingConfig bitRate pclk prescaler samplingRate cfg).map fun o =>
      o.map fun cfg => { cfg with fdPhaseSeg2 := c.2, fdPresdiv := prescaler, fdPhaseSeg1 := c.1 }

/-- `canfd_cal_edcbt_data_timing_config`. -/
def canfdCalEdcbtDataTimingConfig (bitRate bitRateFd pclk : ℕ) (samplingRate : ℚ)
    (cfg : CanTimingConfig) : CanSearch :=
  Search.run (edcbtTurn bitRate bitRateFd pclk samplingRate cfg) edcbtCandidates

/-- `canfd_cal_timing_config`. -/
def canfdCalTimingConfig (rateCfg : CanFdBaudRate) (pclk : UInt32) (samplingRate : ℚ)
    (cfg : CanTimingConfig) : CanSearch :=
  let cfg := { cfg with canfdTimingMode := rateCfg.canfdTimingMode }
  match rateCfg.canfdTimingMode with
  | .edcbt => canfdCalEdcbtDataTimingConfig rateCfg.bitRate.toNat rateCfg.bitRateFd.toNat
      pclk.toNat samplingRate cfg
  | .fdcbt => canfdCalFdcbtDataTimingConfig rateCfg.bitRate.toNat rateCfg.bitRateFd.toNat
      pclk.toNat samplingRate cfg

/-! ## What is asked of a configuration -/

/-- The bit rate of `total` quanta at a prescaler, and the sample point behind `before` of them. -/
def Timed (bitRate pclk : ℕ) (samplingRate : ℚ) (presdiv before total : ℕ) : Prop :=
  pclk / ((presdiv + 1) * total) = bitRate ∧ samplingRate ≤ samplePoint before total

/-- The segments of a classic frame, each one longer than its field. -/
def ClassicSound (bitRate pclk : ℕ) (samplingRate : ℚ) (cfg : CanTimingConfig) : Prop :=
  cfg.propSeg ≤ 7 ∧ cfg.phaseSeg1 ≤ 7 ∧ cfg.phaseSeg2 ≤ 7 ∧
    Timed bitRate pclk samplingRate cfg.presdiv (1 + (cfg.propSeg + 1) + (cfg.phaseSeg1 + 1))
      (1 + (cfg.propSeg + 1) + (cfg.phaseSeg1 + 1) + (cfg.phaseSeg2 + 1))

/-- The nominal phase and the data phase of FDCBT. -/
def FdcbtSound (bitRate bitRateFd pclk : ℕ) (samplingRate : ℚ) (cfg : CanTimingConfig) : Prop :=
  (cfg.propSeg ≤ 63 ∧ cfg.phaseSeg1 ≤ 31 ∧ cfg.phaseSeg2 ≤ 31 ∧
    Timed bitRate pclk samplingRate cfg.presdiv (1 + (cfg.propSeg + 1) + (cfg.phaseSeg1 + 1))
      (1 + (cfg.propSeg + 1) + (cfg.phaseSeg1 + 1) + (cfg.phaseSeg2 + 1))) ∧
  cfg.fdPropSeg ≤ 31 ∧ cfg.fdPhaseSeg1 ≤ 7 ∧ cfg.fdPhaseSeg2 ≤ 7 ∧
    Timed bitRateFd pclk samplingRate cfg.fdPresdiv (1 + cfg.fdPropSeg + (cfg.fdPhaseSeg1 + 1))
      (1 + cfg.fdPropSeg + (cfg.fdPhaseSeg1 + 1) + (cfg.fdPhaseSeg2 + 1))

/-- The nominal phase and the data phase of EDCBT. -/
def EdcbtSound (bitRate bitRateFd pclk : ℕ) (samplingRate : ℚ) (cfg : CanTimingConfig) : Prop :=
  (cfg.phaseSeg1 ≤ 255 ∧ cfg.phaseSeg2 ≤ 127 ∧
    Timed bitRate pclk samplingRate cfg.presdiv (1 + (cfg.phaseSeg1 + 1))
      (1 + (cfg.phaseSeg1 + 1) + (cfg.phaseSeg2 + 1))) ∧
  cfg.fdPhaseSeg1 ≤ 31 ∧ cfg.fdPhaseSeg2 ≤ 15 ∧
    Timed bitRateFd pclk samplingRate cfg.fdPresdiv (1 + (cfg.fdPhaseSeg1 + 1))
      (1 + (cfg.fdPhaseSeg1 + 1) + (cfg.fdPhaseSeg2 + 1))

/-! ## The conditions -/

/-- The two divisors of a turn are not zero: the product of the rate and the quanta does not go
around to zero, and the clock is not below it. -/
def Divides (bitRate pclk total : ℕ) : Prop :=
  u32 (bitRate * total) ≠ 0 ∧ u32 (pclk / u32 (bitRate * total) * total) ≠ 0

/-- The prescaler that is computed, plus one. -/
def quotient (bitRate pclk total : ℕ) : ℕ := pclk / u32 (bitRate * total)

/-- The prescaler `q - 1` gives the rate, and the sample point is late enough. -/
def RateFits (minTimeQuanta bitRate pclk q : ℕ) (samplingRate : ℚ) (total seg1 : ℕ) : Prop :=
  pclk / (q * total) = bitRate ∧ samplingRate ≤ samplePoint seg1 total ∧ minTimeQuanta ≤ total

/-- The candidate is taken with the prescaler that is computed for it. -/
def RateHits (lim : PhaseLimits) (bitRate pclk : ℕ) (samplingRate : ℚ) (total seg1 : ℕ) : Prop :=
  quotient bitRate pclk total ≤ lim.maxPresdiv ∧
    RateFits lim.minTimeQuanta bitRate pclk (quotient bitRate pclk total) samplingRate total seg1

/-- The hits of `can_cal_timing_config`. -/
def CanHits (bitRate pclk : ℕ) (samplingRate : ℚ) (c : ℕ × ℕ) : Prop :=
  RateHits canLimits bitRate pclk samplingRate (c.1 + c.2 + 4) (c.1 + 3)

/-- The hits of `canfd_cal_fdcbt_header_timing_config` with the prescaler `q - 1`. -/
def FdcbtHeaderHits (bitRate pclk q : ℕ) (samplingRate : ℚ) (c : ℕ × ℕ) : Prop :=
  RateFits 8 bitRate pclk q samplingRate (c.2 + c.1 + 4) (c.2 + 3)

/-- The data phase of a candidate fits. -/
def FdcbtDataHits (bitRateFd pclk : ℕ) (samplingRate : ℚ) (c : ℕ × ℕ) : Prop :=
  RateHits fdcbtLimits bitRateFd pclk samplingRate (c.2 + c.1 + 3) (c.2 + 2) ∧ c.2 ≤ 16 ∧ c.1 ≤ 8

/-- The hits of `canfd_cal_fdcbt_data_timing_config`, which have a nominal phase too. -/
def FdcbtHits (bitRate bitRateFd pclk : ℕ) (samplingRate : ℚ) (c : ℕ × ℕ) : Prop :=
  FdcbtDataHits bitRateFd pclk samplingRate c ∧ ∃ h ∈ fdcbtHeaderCandidates,
    FdcbtHeaderHits bitRate pclk (quotient bitRateFd pclk (c.2 + c.1 + 3)) samplingRate h

/-- The hits of `canfd_cal_edcbt_header_timing_config` with the prescaler `q - 1`. -/
def EdcbtHeaderHits (bitRate pclk q : ℕ) (samplingRate : ℚ) (c : ℕ × ℕ) : Prop :=
  RateFits 8 bitRate pclk q samplingRate (c.1 + c.2 + 3) (c.1 + 2)

/-- The hits of `canfd_cal_edcbt_data_timing_config`, which have a nominal phase too. -/
def EdcbtHits (bitRate bitRateFd pclk : ℕ) (samplingRate : ℚ) (c : ℕ × ℕ) : Prop :=
  RateHits edcbtLimits bitRateFd pclk samplingRate (c.1 + c.2 + 3) (c.1 + 2) ∧
    ∃ h ∈ edcbtHeaderCandidates,
      EdcbtHeaderHits bitRate pclk (quotient bitRateFd pclk (c.1 + c.2 + 3)) samplingRate h

/-- No turn of `can_cal_timing_config` up to its first hit divides by zero. -/
def CanFits (bitRate pclk : ℕ) (samplingRate : ℚ) : Prop :=
  ∀ c, Search.Reached (CanHits bitRate pclk samplingRate) canCandidates c →
    Divides bitRate pclk (c.1 + c.2 + 4)

/-- No turn up to the first hit divides by zero, and that hit has neither a data segment of 15 nor
a nominal segment of 63, whose halves do not fit. -/
def FdcbtFits (bitRate bitRateFd pclk : ℕ) (samplingRate : ℚ) : Prop :=
  ∀ c, Search.Reached (FdcbtHits bitRate bitRateFd pclk samplingRate) fdcbtCandidates c →
    Divides bitRateFd pclk (c.2 + c.1 + 3) ∧
      (FdcbtDataHits bitRateFd pclk samplingRate c → ∀ h,
        Search.Reached (FdcbtHeaderHits bitRate pclk (quotient bitRateFd pclk (c.2 + c.1 + 3))
          samplingRate) fdcbtHeaderCandidates h →
        FdcbtHeaderHits bitRate pclk (quotient bitRateFd pclk (c.2 + c.1 + 3)) samplingRate h →
          h.2 ≠ 63 ∧ c.2 ≠ 15)

/-- No turn of `canfd_cal_edcbt_data_timing_config` up to its first hit divides by zero. -/
def EdcbtFits (bitRate bitRateFd pclk : ℕ) (samplingRate : ℚ) : Prop :=
  ∀ c, Search.Reached (EdcbtHits bitRate bitRateFd pclk samplingRate) edcbtCandidates c →
    Divides bitRateFd pclk (c.1 + c.2 + 3)

/-! ## The turns -/

theorem mem_downTo {hi lo n : ℕ} (h : n ∈ downTo hi lo) : lo ≤ n ∧ n ≤ hi := by
  obtain ⟨k, hk, rfl⟩ := List.mem_map.mp h
  rw [List.mem_range] at hk
  omega

theorem mem_pairs {hi lo hi' lo' : ℕ} {c : ℕ × ℕ} (h : c ∈ pairs (downTo hi lo) (downTo hi' lo')) :
    (lo ≤ c.1 ∧ c.1 ≤ hi) ∧ lo' ≤ c.2 ∧ c.2 ≤ hi' := by
  obtain ⟨a, ha, hmem⟩ := List.mem_flatMap.mp h
  obtain ⟨b, hb, rfl⟩ := List.mem_map.mp hmem
  exact ⟨mem_downTo ha, mem_downTo hb⟩

theorem rateError_eq_zero_iff (bitRate actual : ℕ) :
    rateError bitRate actual = 0 ↔ actual = bitRate := by
  unfold rateError
  split_ifs <;> omega

/-- A prescaler of 0 - 1 goes around, and back to 0. -/
theorem u32_succ_u32Sub {q : ℕ} (hq : q < 4294967296) : u32 (u32Sub q 1 + 1) = q := by
  unfold u32Sub u32
  omega

theorem prescale_of_divides {bitRate pclk total : ℕ} (hp : pclk < 4294967296)
    (h : Divides bitRate pclk total) :
    0 < quotient bitRate pclk total ∧ prescale bitRate pclk total =
      some (quotient bitRate pclk total - 1, pclk / u32 (quotient bitRate pclk total * total)) := by
  obtain ⟨hproduct, hactual⟩ := h
  have hpos : 0 < pclk / u32 (bitRate * total) := by
    refine Nat.pos_of_ne_zero fun hzero => hactual ?_
    rw [hzero, Nat.zero_mul]
    rfl
  -- with a quotient above 0 the prescaler does not go around
  have hle := Nat.div_le_self pclk (u32 (bitRate * total))
  refine ⟨hpos, ?_⟩
  rw [prescale, udiv, if_neg hproduct, Option.bind_some]
  dsimp only
  rw [u32_succ_u32Sub (by omega), udiv, if_neg hactual, u32Sub_of_le hpos (by omega)]
  rfl

theorem prescale_of_not_divides {bitRate pclk total : ℕ} (hp : pclk < 4294967296)
    (h : ¬ Divides bitRate pclk total) : prescale bitRate pclk total = none := by
  by_cases hproduct : u32 (bitRate * total) = 0
  · rw [prescale, udiv, if_pos hproduct]
    rfl
  · have hactual : u32 (pclk / u32 (bitRate * total) * total) = 0 := by
      by_contra hne
      exact h ⟨hproduct, hne⟩
    have hle := Nat.div_le_self pclk (u32 (bitRate * total))
    rw [prescale, udiv, if_neg hproduct, Option.bind_some]
    dsimp only
    rw [u32_succ_u32Sub (by omega), udiv, if_pos hactual]
    rfl

section turns

variable {lim : PhaseLimits} {bitRate pclk total seg1 : ℕ} {samplingRate : ℚ}

theorem rateTurn_of_not_divides {found : ℕ → CanSearch} (hp : pclk < 4294967296)
    (h : ¬ Divides bitRate pclk total) :
    rateTurn lim bitRate pclk samplingRate total seg1 found = none := by
  rw [rateTurn, prescale_of_not_divides hp h, Option.bind_none]

/-- A turn that does not divide by zero goes on unless its candidate is a hit. -/
theorem rateTurn_of_divides (seg1 : ℕ) (samplingRate : ℚ) (found : ℕ → CanSearch)
    (hp : pclk < 4294967296) (hlim : lim.maxPresdiv * total < 4294967296)
    (h : Divides bitRate pclk total) :
    (RateHits lim bitRate pclk samplingRate total seg1 →
      rateTurn lim bitRate pclk samplingRate total seg1 found =
        found (quotient bitRate pclk total - 1)) ∧
    (¬ RateHits lim bitRate pclk samplingRate total seg1 →
      rateTurn lim bitRate pclk samplingRate total seg1 found = some none) := by
  obtain ⟨hpos, heq⟩ := prescale_of_divides hp h
  rw [rateTurn, heq, Option.bind_some]
  dsimp only
  -- a prescaler within its limit does not make the product go around
  have hwrap : quotient bitRate pclk total ≤ lim.maxPresdiv →
      u32 (quotient bitRate pclk total * total) = quotient bitRate pclk total * total :=
    fun hle => u32_of_lt (Nat.lt_of_le_of_lt (Nat.mul_le_mul_right total hle) hlim)
  constructor
  · rintro ⟨hle, hrate, hpoint, hquanta⟩
    rw [hwrap hle]
    exact if_pos ⟨(rateError_eq_zero_iff _ _).mpr hrate, by omega, hpoint, hquanta⟩
  · intro hno
    refine if_neg fun ⟨herror, hlt, hpoint, hquanta⟩ => hno ⟨by omega, ?_, hpoint, hquanta⟩
    rwa [hwrap (by omega), rateError_eq_zero_iff] at herror

/-- A turn of a header never divides by zero. -/
theorem headerTurn_eq {minTimeQuanta q : ℕ} {found : CanTimingConfig} (hq : 0 < q)
    (htotal : 0 < total) (hlim : q * total < 4294967296) :
    (RateFits minTimeQuanta bitRate pclk q samplingRate total seg1 →
      headerTurn minTimeQuanta bitRate pclk (q - 1) samplingRate total seg1 found =
        some (some found)) ∧
    (¬ RateFits minTimeQuanta bitRate pclk q samplingRate total seg1 →
      headerTurn minTimeQuanta bitRate pclk (q - 1) samplingRate total seg1 found =
        some none) := by
  have hle : q ≤ q * total := Nat.le_mul_of_pos_right q htotal
  have hpos : 0 < q * total := Nat.mul_pos hq htotal
  rw [headerTurn, Nat.sub_add_cancel hq, u32_of_lt (Nat.lt_of_le_of_lt hle hlim), u32_of_lt hlim,
    udiv, if_neg (by omega), Option.map_some]
  constructor
  · rintro ⟨hrate, hpoint, hquanta⟩
    exact congrArg some (if_pos ⟨(rateError_eq_zero_iff _ _).mpr hrate, hpoint, hquanta⟩)
  · intro hno
    refine congrArg some (if_neg fun ⟨herror, hpoint, hquanta⟩ => hno ⟨?_, hpoint, hquanta⟩)
    rwa [rateError_eq_zero_iff] at herror

theorem rateTurn_returns_iff {good : CanTimingConfig → Prop} {found : ℕ → CanSearch}
    (hp : pclk < 4294967296) (hlim : lim.maxPresdiv * total < 4294967296) :
    Search.Returns good (rateTurn lim bitRate pclk samplingRate total seg1 found) ↔
      Divides bitRate pclk total ∧ (RateHits lim bitRate pclk samplingRate total seg1 →
        Search.Returns good (found (quotient bitRate pclk total - 1))) := by
  by_cases h : Divides bitRate pclk total
  · obtain ⟨hhit, hno⟩ := rateTurn_of_divides seg1 samplingRate found hp hlim h
    by_cases hits : RateHits lim bitRate pclk samplingRate total seg1
    · rw [hhit hits]
      exact ⟨fun hgood => ⟨h, fun _ => hgood⟩, fun hgood => hgood.2 hits⟩
    · rw [hno hits]
      exact iff_of_true Search.returns_some_none ⟨h, fun hhits => absurd hhits hits⟩
  · rw [rateTurn_of_not_divides hp h]
    exact iff_of_false Search.returns_none fun hgood => h hgood.1

/-- The hits of a turn whose candidates are taken under a condition of their own. -/
theorem rateTurn_hits {found : ℕ → CanSearch} (more : Prop) (hp : pclk < 4294967296)
    (hlim : lim.maxPresdiv * total < 4294967296)
    (hfound : 0 < quotient bitRate pclk total → quotient bitRate pclk total ≤ lim.maxPresdiv →
      ∀ o, found (quotient bitRate pclk total - 1) = some o → (o ≠ none ↔ more))
    {o : Option CanTimingConfig}
    (ho : rateTurn lim bitRate pclk samplingRate total seg1 found = some o) :
    o ≠ none ↔ RateHits lim bitRate pclk samplingRate total seg1 ∧ more := by
  by_cases h : Divides bitRate pclk total
  · obtain ⟨hhit, hno⟩ := rateTurn_of_divides seg1 samplingRate found hp hlim h
    by_cases hits : RateHits lim bitRate pclk samplingRate total seg1
    · rw [hhit hits] at ho
      rw [hfound (prescale_of_divides hp h).1 hits.1 o ho]
      exact ⟨fun hmore => ⟨hits, hmore⟩, fun hboth => hboth.2⟩
    · rw [hno hits] at ho
      exact iff_of_false (fun hne => hne (Option.some.inj ho).symm) fun hboth => hits hboth.1
  · rw [rateTurn_of_not_divides hp h] at ho
    exact nomatch ho

/-- The search for a nominal phase with the prescaler `q - 1`. -/
theorem headerSearch {minTimeQuanta q : ℕ} {turn : ℕ × ℕ → CanSearch} {l : List (ℕ × ℕ)}
    {total seg1 : ℕ × ℕ → ℕ} {found : ℕ × ℕ → CanTimingConfig} (hq : 0 < q)
    (hturn : ∀ c ∈ l, turn c =
      headerTurn minTimeQuanta bitRate pclk (q - 1) samplingRate (total c) (seg1 c) (found c))
    (htotal : ∀ c ∈ l, 0 < total c ∧ q * total c < 4294967296) :
    (∀ good : CanTimingConfig → Prop, Search.Returns good (Search.run turn l) ↔
      ∀ h, Search.Reached (fun c =>
          RateFits minTimeQuanta bitRate pclk q samplingRate (total c) (seg1 c)) l h →
        RateFits minTimeQuanta bitRate pclk q samplingRate (total h) (seg1 h) → good (found h)) ∧
    ∃ o, Search.run turn l = some o ∧ (o ≠ none ↔ ∃ h ∈ l,
      RateFits minTimeQuanta bitRate pclk q samplingRate (total h) (seg1 h)) := by
  have hdecides : Search.Decides turn (fun c =>
      RateFits minTimeQuanta bitRate pclk q samplingRate (total c) (seg1 c)) found l := by
    intro c hc
    rw [hturn c hc]
    exact headerTurn_eq hq (htotal c hc).1 (htotal c hc).2
  exact ⟨fun good => hdecides.returns_run_iff, hdecides.run_eq_some_iff⟩

end turns

/-- What a candidate was taken for is what its segments give. -/
theorem RateFits.timed {minTimeQuanta bitRate pclk q total seg1 before quanta : ℕ}
    {samplingRate : ℚ} (h : RateFits minTimeQuanta bitRate pclk q samplingRate total seg1)
    (hq : 0 < q) (hbefore : before = seg1) (hquanta : quanta = total) :
    Timed bitRate pclk samplingRate (q - 1) before quanta := by
  subst hbefore hquanta
  rw [Timed, Nat.sub_add_cancel hq]
  exact ⟨h.1, h.2.1⟩

theorem splitSeg_add {m t : ℕ} : (splitSeg m t).1 + (splitSeg m t).2 = t := by
  unfold splitSeg
  split_ifs <;> dsimp only <;> omega

/-- The second field is too long for one length, of which it is the greater half. -/
theorem splitSeg_snd_le_iff {m t : ℕ} : (splitSeg m t).2 ≤ m ↔ t ≠ 2 * m + 1 := by
  unfold splitSeg
  split_ifs <;> dsimp only <;> omega

theorem splitSeg_fst_le {m t n : ℕ} (hm : m ≤ n) (ht : t ≤ n + m) : (splitSeg m t).1 ≤ n := by
  unfold splitSeg
  split_ifs <;> dsimp only <;> omega

/-! ## Classic CAN -/

theorem canTurn_returns_iff {bitRate pclk : ℕ} {samplingRate : ℚ} {cfg : CanTimingConfig}
    {c : ℕ × ℕ} (hp : pclk < 4294967296) (hc : c ∈ canCandidates) :
    Search.Returns (ClassicSound bitRate pclk samplingRate)
      (canTurn bitRate pclk samplingRate cfg c) ↔ Divides bitRate pclk (c.1 + c.2 + 4) := by
  obtain ⟨⟨hlo₁, hhi₁⟩, hlo₂, hhi₂⟩ := mem_pairs hc
  have hlim : canLimits.maxPresdiv * (c.1 + c.2 + 4) < 4294967296 := by
    change 255 * (c.1 + c.2 + 4) < 4294967296
    omega
  rw [canTurn, u8_of_lt (by omega), rateTurn_returns_iff hp hlim]
  refine and_iff_left_of_imp fun hdiv hhit => ?_
  have hq := (prescale_of_divides hp hdiv).1
  dsimp only
  split_ifs with hlong
  · rw [Search.returns_some_some]
    exact ⟨by dsimp only; omega, Nat.le_refl 7, hhi₂,
      hhit.2.timed hq (by dsimp only; omega) (by dsimp only; omega)⟩
  · rw [Search.returns_some_some]
    exact ⟨by dsimp only; omega, by dsimp only; omega, hhi₂,
      hhit.2.timed hq (by dsimp only; omega) (by dsimp only; omega)⟩

theorem canHitsAre {bitRate pclk : ℕ} {samplingRate : ℚ} {cfg : CanTimingConfig}
    (hp : pclk < 4294967296) :
    Search.HitsAre (canTurn bitRate pclk samplingRate cfg) (CanHits bitRate pclk samplingRate)
      canCandidates := by
  intro c hc o ho
  obtain ⟨⟨hlo₁, hhi₁⟩, hlo₂, hhi₂⟩ := mem_pairs hc
  have hlim : canLimits.maxPresdiv * (c.1 + c.2 + 4) < 4294967296 := by
    change 255 * (c.1 + c.2 + 4) < 4294967296
    omega
  rw [canTurn, u8_of_lt (by omega)] at ho
  refine (rateTurn_hits True hp hlim ?_ ho).trans (and_iff_left trivial)
  rintro - - o ho
  dsimp only at ho
  split_ifs at ho
  · obtain rfl := Option.some.inj ho
    exact iff_of_true (Option.some_ne_none _) trivial
  · obtain rfl := Option.some.inj ho
    exact iff_of_true (Option.some_ne_none _) trivial

theorem canCalTimingConfig_returns_iff (bitRate pclk : UInt32) (samplingRate : ℚ)
    (cfg : CanTimingConfig) :
    Search.Returns (ClassicSound bitRate.toNat pclk.toNat samplingRate)
      (canCalTimingConfig bitRate pclk samplingRate cfg) ↔
      CanFits bitRate.toNat pclk.toNat samplingRate := by
  rw [canCalTimingConfig, Search.returns_run_iff (canHitsAre pclk.toNat_lt)]
  exact forall_congr' fun c => forall_congr' fun hc =>
    canTurn_returns_iff pclk.toNat_lt hc.mem

/-! ## FDCBT -/

section fdcbt

variable {bitRate bitRateFd pclk : ℕ} {samplingRate : ℚ} {cfg : CanTimingConfig}

theorem fdcbtHeader_spec (cfg : CanTimingConfig) {q : ℕ} (hq : 0 < q) (hmax : q ≤ 0x3ff) :
    (∀ good : CanTimingConfig → Prop, Search.Returns good
        (canfdCalFdcbtHeaderTimingConfig bitRate pclk (q - 1) samplingRate cfg) ↔
      ∀ h, Search.Reached (FdcbtHeaderHits bitRate pclk q samplingRate) fdcbtHeaderCandidates h →
        FdcbtHeaderHits bitRate pclk q samplingRate h →
          good { cfg with
            phaseSeg2 := h.1
            presdiv := q - 1
            propSeg := (splitSeg 0x1f h.2).1
            phaseSeg1 := (splitSeg 0x1f h.2).2 }) ∧
    ∃ o, canfdCalFdcbtHeaderTimingConfig bitRate pclk (q - 1) samplingRate cfg = some o ∧
      (o ≠ none ↔ ∃ h ∈ fdcbtHeaderCandidates, FdcbtHeaderHits bitRate pclk q samplingRate h) := by
  refine headerSearch hq (fun c hc => ?_) fun c hc => ?_
  · obtain ⟨⟨hlo₁, hhi₁⟩, hlo₂, hhi₂⟩ := mem_pairs hc
    rw [fdcbtHeaderTurn, u8_of_lt (by omega)]
  · obtain ⟨⟨hlo₁, hhi₁⟩, hlo₂, hhi₂⟩ := mem_pairs hc
    have hle : q * (c.2 + c.1 + 4) ≤ 0x3ff * 129 := Nat.mul_le_mul hmax (by omega)
    exact ⟨by omega, by omega⟩

/-- The two phases that were found fit if their first segments are not cut into a greater half. -/
theorem fdcbtSound_iff {q : ℕ} {c h : ℕ × ℕ} (hq : 0 < q) (hc : c ∈ fdcbtCandidates)
    (hh : h ∈ fdcbtHeaderCandidates)
    (hdata : RateFits 5 bitRateFd pclk q samplingRate (c.2 + c.1 + 3) (c.2 + 2))
    (hheader : FdcbtHeaderHits bitRate pclk q samplingRate h) :
    FdcbtSound bitRate bitRateFd pclk samplingRate { cfg with
      phaseSeg2 := h.1
      presdiv := q - 1
      propSeg := (splitSeg 0x1f h.2).1
      phaseSeg1 := (splitSeg 0x1f h.2).2
      fdPhaseSeg2 := c.1
      fdPresdiv := q - 1
      fdPropSeg := (splitSeg 0x07 c.2).1
      fdPhaseSeg1 := (splitSeg 0x07 c.2).2 } ↔ h.2 ≠ 63 ∧ c.2 ≠ 15 := by
  obtain ⟨⟨hlo₁, hhi₁⟩, hlo₂, hhi₂⟩ := mem_pairs hc
  obtain ⟨⟨hlo₃, hhi₃⟩, hlo₄, hhi₄⟩ := mem_pairs hh
  have hsum := splitSeg_add (m := 0x1f) (t := h.2)
  have hsum' := splitSeg_add (m := 0x07) (t := c.2)
  unfold FdcbtSound
  dsimp only
  rw [splitSeg_snd_le_iff, splitSeg_snd_le_iff]
  constructor
  · exact fun hsound => ⟨hsound.1.2.1, hsound.2.2.1⟩
  · intro hne
    exact ⟨⟨splitSeg_fst_le (by decide) hhi₄, hne.1, hhi₃, hheader.timed hq (by omega) (by omega)⟩,
      splitSeg_fst_le (by decide) (by omega), hne.2, hhi₁, hdata.timed hq (by omega) (by omega)⟩

theorem fdcbtTurn_returns_iff {c : ℕ × ℕ} (hp : pclk < 4294967296) (hc : c ∈ fdcbtCandidates) :
    Search.Returns (FdcbtSound bitRate bitRateFd pclk samplingRate)
        (fdcbtTurn bitRate bitRateFd pclk samplingRate cfg c) ↔
      Divides bitRateFd pclk (c.2 + c.1 + 3) ∧
        (FdcbtDataHits bitRateFd pclk samplingRate c → ∀ h,
          Search.Reached (FdcbtHeaderHits bitRate pclk (quotient bitRateFd pclk (c.2 + c.1 + 3))
            samplingRate) fdcbtHeaderCandidates h →
          FdcbtHeaderHits bitRate pclk (quotient bitRateFd pclk (c.2 + c.1 + 3)) samplingRate h →
            h.2 ≠ 63 ∧ c.2 ≠ 15) := by
  obtain ⟨⟨hlo₁, hhi₁⟩, hlo₂, hhi₂⟩ := mem_pairs hc
  have hlim : fdcbtLimits.maxPresdiv * (c.2 + c.1 + 3) < 4294967296 := by
    change 1023 * (c.2 + c.1 + 3) < 4294967296
    omega
  rw [fdcbtTurn, rateTurn_returns_iff hp hlim]
  refine and_congr_right fun hdiv => ?_
  have hq := (prescale_of_divides hp hdiv).1
  by_cases hmore : c.2 ≤ 8 * 2 ∧ c.1 ≤ 8
  · rw [FdcbtDataHits, and_iff_left hmore]
    refine forall_congr' fun hhit => ?_
    rw [if_pos hmore, Search.returns_map, (fdcbtHeader_spec cfg hq hhit.1).1]
    exact forall_congr' fun h => forall_congr' fun hreached => forall_congr' fun hheader =>
      fdcbtSound_iff hq hc hreached.mem hhit.2 hheader
  · -- a candidate out of the inner bounds is passed over
    refine iff_of_true (fun _ => ?_) fun hdata => absurd hdata.2 hmore
    rw [if_neg hmore]
    exact Search.returns_some_none

theorem fdcbtHitsAre (hp : pclk < 4294967296) :
    Search.HitsAre (fdcbtTurn bitRate bitRateFd pclk samplingRate cfg)
      (FdcbtHits bitRate bitRateFd pclk samplingRate) fdcbtCandidates := by
  intro c hc o ho
  obtain ⟨⟨hlo₁, hhi₁⟩, hlo₂, hhi₂⟩ := mem_pairs hc
  have hlim : fdcbtLimits.maxPresdiv * (c.2 + c.1 + 3) < 4294967296 := by
    change 1023 * (c.2 + c.1 + 3) < 4294967296
    omega
  refine (rateTurn_hits ((c.2 ≤ 16 ∧ c.1 ≤ 8) ∧ ∃ h ∈ fdcbtHeaderCandidates,
    FdcbtHeaderHits bitRate pclk (quotient bitRateFd pclk (c.2 + c.1 + 3)) samplingRate h)
    hp hlim ?_ ho).trans (and_assoc).symm
  intro hq hmax o ho
  obtain ⟨r, hr, hiff⟩ := (fdcbtHeader_spec cfg hq hmax).2
  by_cases hmore : c.2 ≤ 8 * 2 ∧ c.1 ≤ 8
  · rw [if_pos hmore, hr, Option.map_some] at ho
    obtain rfl := Option.some.inj ho
    rw [and_iff_right hmore, ← hiff, ne_eq, Option.map_eq_none_iff]
  · rw [if_neg hmore] at ho
    obtain rfl := Option.some.inj ho
    exact iff_of_false (fun hne => hne rfl) fun hboth => hmore hboth.1

theorem canfdCalFdcbtDataTimingConfig_returns_iff (hp : pclk < 4294967296) :
    Search.Returns (FdcbtSound bitRate bitRateFd pclk samplingRate)
      (canfdCalFdcbtDataTimingConfig bitRate bitRateFd pclk samplingRate cfg) ↔
      FdcbtFits bitRate bitRateFd pclk samplingRate := by
  rw [canfdCalFdcbtDataTimingConfig, Search.returns_run_iff (fdcbtHitsAre hp)]
  exact forall_congr' fun c => forall_congr' fun hc => fdcbtTurn_returns_iff hp hc.mem

end fdcbt

/-! ## EDCBT -/

section edcbt

variable {bitRate bitRateFd pclk : ℕ} {samplingRate : ℚ} {cfg : CanTimingConfig}

theorem edcbtHeader_spec (cfg : CanTimingConfig) {q : ℕ} (hq : 0 < q) (hmax : q ≤ 0x3ff) :
    (∀ good : CanTimingConfig → Prop, Search.Returns good
        (canfdCalEdcbtHeaderTimingConfig bitRate pclk (q - 1) samplingRate cfg) ↔
      ∀ h, Search.Reached (EdcbtHeaderHits bitRate pclk q samplingRate) edcbtHeaderCandidates h →
        EdcbtHeaderHits bitRate pclk q samplingRate h →
          good { cfg with phaseSeg2 := h.2, presdiv := q - 1, phaseSeg1 := h.1 }) ∧
    ∃ o, canfdCalEdcbtHeaderTimingConfig bitRate pclk (q - 1) samplingRate cfg = some o ∧
      (o ≠ none ↔ ∃ h ∈ edcbtHeaderCandidates, EdcbtHeaderHits bitRate pclk q samplingRate h) := by
  refine headerSearch hq (fun c hc => rfl) fun c hc => ?_
  obtain ⟨⟨hlo₁, hhi₁⟩, hlo₂, hhi₂⟩ := mem_pairs hc
  have hle : q * (c.1 + c.2 + 3) ≤ 0x3ff * 385 := Nat.mul_le_mul hmax (by omega)
  exact ⟨by omega, by omega⟩

theorem edcbtTurn_returns_iff {c : ℕ × ℕ} (hp : pclk < 4294967296) (hc : c ∈ edcbtCandidates) :
    Search.Returns (EdcbtSound bitRate bitRateFd pclk samplingRate)
        (edcbtTurn bitRate bitRateFd pclk samplingRate cfg c) ↔
      Divides bitRateFd pclk (c.1 + c.2 + 3) := by
  obtain ⟨⟨hlo₁, hhi₁⟩, hlo₂, hhi₂⟩ := mem_pairs hc
  have hlim : edcbtLimits.maxPresdiv * (c.1 + c.2 + 3) < 4294967296 := by
    change 1023 * (c.1 + c.2 + 3) < 4294967296
    omega
  rw [edcbtTurn, rateTurn_returns_iff hp hlim]
  refine and_iff_left_of_imp fun hdiv hhit => ?_
  have hq := (prescale_of_divides hp hdiv).1
  rw [Search.returns_map, (edcbtHeader_spec cfg hq hhit.1).1]
  intro h hreached hheader
  obtain ⟨⟨hlo₃, hhi₃⟩, hlo₄, hhi₄⟩ := mem_pairs hreached.mem
  exact ⟨⟨hhi₃, hhi₄, hheader.timed hq (by dsimp only; omega) (by dsimp only; omega)⟩,
    hhi₁, hhi₂, hhit.2.timed hq (by dsimp only; omega) (by dsimp only; omega)⟩

theorem edcbtHitsAre (hp : pclk < 4294967296) :
    Search.HitsAre (edcbtTurn bitRate bitRateFd pclk samplingRate cfg)
      (EdcbtHits bitRate bitRateFd pclk samplingRate) edcbtCandidates := by
  intro c hc o ho
  obtain ⟨⟨hlo₁, hhi₁⟩, hlo₂, hhi₂⟩ := mem_pairs hc
  have hlim : edcbtLimits.maxPresdiv * (c.1 + c.2 + 3) < 4294967296 := by
    change 1023 * (c.1 + c.2 + 3) < 4294967296
    omega
  refine rateTurn_hits _ hp hlim ?_ ho
  intro hq hmax o ho
  obtain ⟨r, hr, hiff⟩ := (edcbtHeader_spec cfg hq hmax).2
  rw [hr, Option.map_some] at ho
  obtain rfl := Option.some.inj ho
  rw [← hiff, ne_eq, Option.map_eq_none_iff]

theorem canfdCalEdcbtDataTimingConfig_returns_iff (hp : pclk < 4294967296) :
    Search.Returns (EdcbtSound bitRate bitRateFd pclk samplingRate)
      (canfdCalEdcbtDataTimingConfig bitRate bitRateFd pclk samplingRate cfg) ↔
      EdcbtFits bitRate bitRateFd pclk samplingRate := by
  rw [canfdCalEdcbtDataTimingConfig, Search.returns_run_iff (edcbtHitsAre hp)]
  exact forall_congr' fun c => forall_congr' fun hc => edcbtTurn_returns_iff hp hc.mem

end edcbt

/-! ## Rates whose products do not go around -/

/-- With a clock that is not below the product, the two divisors are not zero. -/
theorem divides_of_le {bitRate pclk total : ℕ} (hrate : 0 < bitRate) (htotal : 0 < total)
    (hp : pclk < 4294967296) (h : bitRate * total ≤ pclk) : Divides bitRate pclk total := by
  have hpos : 0 < bitRate * total := Nat.mul_pos hrate htotal
  have hquotient : 0 < pclk / (bitRate * total) := Nat.div_pos h hpos
  -- the quotient by the quanta alone is not above the one by the product
  have hle : pclk / (bitRate * total) * total ≤ pclk := by
    calc pclk / (bitRate * total) * total ≤ pclk / (bitRate * total) * (bitRate * total) :=
          Nat.mul_le_mul_left _ (Nat.le_mul_of_pos_left total hrate)
      _ ≤ pclk := Nat.div_mul_le_self pclk _
  have hprod : 0 < pclk / (bitRate * total) * total := Nat.mul_pos hquotient htotal
  rw [Divides, u32_of_lt (by omega), u32_of_lt (by omega)]
  exact ⟨by omega, by omega⟩

theorem not_divides_of_lt {bitRate pclk total : ℕ} (hwrap : bitRate * total < 4294967296)
    (h : pclk < bitRate * total) : ¬ Divides bitRate pclk total := by
  rw [Divides, u32_of_lt hwrap, Nat.div_eq_of_lt h, Nat.zero_mul]
  exact fun hdiv => hdiv.2 rfl

/-- The first turn of the classic search, with 25 quanta, decides. -/
theorem canFits_iff {bitRate pclk : ℕ} {samplingRate : ℚ} (hrate : 0 < bitRate)
    (hwrap : bitRate * 25 < 4294967296) (hp : pclk < 4294967296) :
    CanFits bitRate pclk samplingRate ↔ bitRate * 25 ≤ pclk := by
  constructor
  · intro h
    by_contra hlt
    exact not_divides_of_lt hwrap (by omega) (h (14, 7) Search.reached_head)
  · intro hle c hc
    obtain ⟨⟨hlo₁, hhi₁⟩, hlo₂, hhi₂⟩ := mem_pairs hc.mem
    refine divides_of_le hrate (by omega) hp (Nat.le_trans ?_ hle)
    exact Nat.mul_le_mul_left bitRate (by omega)

/-- The first turn of the EDCBT search, with 49 quanta, decides. -/
theorem edcbtFits_iff {bitRate bitRateFd pclk : ℕ} {samplingRate : ℚ} (hrate : 0 < bitRateFd)
    (hwrap : bitRateFd * 49 < 4294967296) (hp : pclk < 4294967296) :
    EdcbtFits bitRate bitRateFd pclk samplingRate ↔ bitRateFd * 49 ≤ pclk := by
  constructor
  · intro h
    by_contra hlt
    exact not_divides_of_lt hwrap (by omega) (h (31, 15) Search.reached_head)
  · intro hle c hc
    obtain ⟨⟨hlo₁, hhi₁⟩, hlo₂, hhi₂⟩ := mem_pairs hc.mem
    refine divides_of_le hrate (by omega) hp (Nat.le_trans ?_ hle)
    exact Nat.mul_le_mul_left bitRateFd (by omega)

/-! ## All timings -/

/-- What is asked of the configuration for a CAN FD rate. -/
def CanfdSound (rateCfg : CanFdBaudRate) (pclk : UInt32) (samplingRate : ℚ) :
    CanTimingConfig → Prop :=
  match rateCfg.canfdTimingMode with
  | .edcbt =>
    EdcbtSound rateCfg.bitRate.toNat rateCfg.bitRateFd.toNat pclk.toNat samplingRate
  | .fdcbt =>
    FdcbtSound rateCfg.bitRate.toNat rateCfg.bitRateFd.toNat pclk.toNat samplingRate

/-- The condition for a CAN FD rate. -/
def CanfdFits (rateCfg : CanFdBaudRate) (pclk : UInt32) (samplingRate : ℚ) : Prop :=
  match rateCfg.canfdTimingMode with
  | .edcbt => EdcbtFits rateCfg.bitRate.toNat rateCfg.bitRateFd.toNat pclk.toNat samplingRate
  | .fdcbt => FdcbtFits rateCfg.bitRate.toNat rateCfg.bitRateFd.toNat pclk.toNat samplingRate

theorem canfdCalTimingConfig_returns_iff (rateCfg : CanFdBaudRate) (pclk : UInt32)
    (samplingRate : ℚ) (cfg : CanTimingConfig) :
    Search.Returns (CanfdSound rateCfg pclk samplingRate)
      (canfdCalTimingConfig rateCfg pclk samplingRate cfg) ↔
      CanfdFits rateCfg pclk samplingRate := by
  obtain ⟨mode, bitRate, bitRateFd⟩ := rateCfg
  cases mode with
  | edcbt => exact canfdCalEdcbtDataTimingConfig_returns_iff pclk.toNat_lt
  | fdcbt => exact canfdCalFdcbtDataTimingConfig_returns_iff pclk.toNat_lt

/-- The searches do not divide by zero and find sound timings only, exactly under their
conditions. -/
theorem can_timing_returns_iff (pclk : UInt32) (samplingRate : ℚ) (cfg : CanTimingConfig) :
    (∀ bitRate, Search.Returns (ClassicSound bitRate.toNat pclk.toNat samplingRate)
      (canCalTimingConfig bitRate pclk samplingRate cfg) ↔
        CanFits bitRate.toNat pclk.toNat samplingRate) ∧
    ∀ rateCfg, Search.Returns (CanfdSound rateCfg pclk samplingRate)
      (canfdCalTimingConfig rateCfg pclk samplingRate cfg) ↔
        CanfdFits rateCfg pclk samplingRate :=
  ⟨fun bitRate => canCalTimingConfig_returns_iff bitRate pclk samplingRate cfg,
    fun rateCfg => canfdCalTimingConfig_returns_iff rateCfg pclk samplingRate cfg⟩

/-- 25 quanta of 1 Mbit/s are more than a clock of 24 MHz, and the first turn divides by zero. -/
theorem canCalTimingConfig_divides_by_zero :
    canCalTimingConfig 1000000 24000000 (3 / 4) ⟨0, 0, 0, 0, 0, 0, 0, 0, .edcbt⟩ = none ∧
      ¬ Search.Returns (ClassicSound 1000000 24000000 (3 / 4))
        (canCalTimingConfig 1000000 24000000 (3 / 4) ⟨0, 0, 0, 0, 0, 0, 0, 0, .edcbt⟩) := by
  have hnone : canCalTimingConfig 1000000 24000000 (3 / 4) ⟨0, 0, 0, 0, 0, 0, 0, 0, .edcbt⟩ =
      none := rfl
  rw [hnone]
  exact ⟨rfl, Search.returns_none⟩

end TlBleSdk.Drivers
