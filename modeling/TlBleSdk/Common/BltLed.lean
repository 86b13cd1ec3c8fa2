import TlBleSdk.Hci.TrDef
import TlBleSdk.Lib.Phases
import TlBleSdk.Lib.Run

/-!
# The status LED

`blt_led.c`: an event switches the LED on and off for the given times, `device_led_process` ends
what is over, and an event that is not of a higher priority is refused while one is going on. What
the LED does is compared with a player of the phases that the event asks for.

The clock of the device goes around after 2^32 ticks. The times of the calls do not.
-/

namespace TlBleSdk.Common

open Hci Phases

/-- `led_cfg_t`. -/
structure LedCfg where
  onTimeMs : UInt16
  offTimeMs : UInt16
  repeatCount : UInt8
  priority : UInt8

/-- `device_led_t`, with the level and the output enable of its pin. -/
structure DeviceLed where
  isOn : Bool
  polar : Bool
  repeatCount : UInt8
  priority : UInt8
  onTimeMs : UInt16
  offTimeMs : UInt16
  startTick : UInt32
  level : Bool
  outputEn : Bool

/-- `device_led_on_off`. -/
def deviceLedOnOff (led : DeviceLed) (on : Bool) : DeviceLed :=
  { led with level := on ^^ led.polar, outputEn := on, isOn := on }

/-- `device_led_init`. -/
def deviceLedInit (led : DeviceLed) (polarity : Bool) : DeviceLed :=
  { led with polar := !polarity, level := !polarity }

/-- What `device_led_setup` makes of an event that it takes. -/
def deviceLedTake (led : DeviceLed) (cfg : LedCfg) : DeviceLed :=
  let led := { led with
    onTimeMs := cfg.onTimeMs
    offTimeMs := cfg.offTimeMs
    repeatCount := cfg.repeatCount
    priority := cfg.priority }
  if cfg.repeatCount = 0xff then
    -- for long on and long off
    { led with repeatCount := 0 }
  else if led.onTimeMs = 0 then
    -- the product is kept in the 16 bits of the time
    { led with offTimeMs := led.offTimeMs * led.repeatCount.toUInt16, repeatCount := 1 }
  else if led.offTimeMs = 0 then
    { led with onTimeMs := led.onTimeMs * led.repeatCount.toUInt16, repeatCount := 1 }
  else led

/-- `device_led_setup`: whether the event is taken, and the LED. -/
def deviceLedSetup (clock : UInt32) (cfg : LedCfg) (led : DeviceLed) : Bool × DeviceLed :=
  if led.repeatCount ≠ 0 ∧ led.priority ≥ cfg.priority then (false, led)
  else
    let led := { deviceLedTake led cfg with startTick := clock }
    (true, deviceLedOnOff led (decide (led.onTimeMs ≠ 0)))

/-- `clock_time_exceed(device_led.startTick, ms * 1000)`. -/
def DeviceLed.exceeded (led : DeviceLed) (clock : UInt32) (ms : UInt16) : Bool :=
  clockTimeExceed clock.toNat led.startTick.toNat (ms.toNat * 1000)

/-- `SYSTEM_TIMER_TICK_1MS`. -/
def systemTimerTick1ms : ℕ := 1000 * systemTimerTick1us

/-- `startTick += ms * SYSTEM_TIMER_TICK_1MS`. -/
def DeviceLed.moveTick (led : DeviceLed) (ms : UInt16) : DeviceLed :=
  { led with startTick := led.startTick + ms.toUInt32 * UInt32.ofNat systemTimerTick1ms }

/-- `led_proc`. -/
def ledProc (clock : UInt32) (led : DeviceLed) : DeviceLed :=
  if led.isOn then
    if led.exceeded clock led.onTimeMs then
      let led := deviceLedOnOff led false
      if led.offTimeMs ≠ 0 then led.moveTick led.onTimeMs else { led with repeatCount := 0 }
    else led
  else if led.exceeded clock led.offTimeMs then
    -- the count goes down with the off phases only
    let led := { led with repeatCount := led.repeatCount - 1 }
    if led.repeatCount ≠ 0 then (deviceLedOnOff led true).moveTick led.offTimeMs else led
  else led

/-- `device_led_process`. -/
def deviceLedProcess (clock : UInt32) (led : DeviceLed) : DeviceLed :=
  if led.repeatCount ≠ 0 then ledProc clock led else led

/-! ## What an event asks for -/

/-- A time in ticks. -/
def msTicks (ms : ℕ) : ℕ := ms * systemTimerTick1ms

/-- On and off, `count` times. -/
def ledRounds (on off : UInt16) (count : ℕ) : List (Bool × ℕ) :=
  (List.replicate count [(true, msTicks on.toNat), (false, msTicks off.toNat)]).flatten

/-- The phases of an event. -/
def LedCfg.plan (cfg : LedCfg) : List (Bool × ℕ) :=
  if cfg.onTimeMs = 0 then
    [(false, msTicks (cfg.repeatCount.toNat * cfg.offTimeMs.toNat))]
  else if cfg.offTimeMs = 0 then
    [(true, msTicks (cfg.repeatCount.toNat * cfg.onTimeMs.toNat))]
  else ledRounds cfg.onTimeMs cfg.offTimeMs cfg.repeatCount.toNat

/-- A call of the module. -/
inductive LedCall where
  | process
  | setup (cfg : LedCfg)

/-- The LED at a time, with the player of the event that it plays. -/
structure LedRun where
  now : ℕ
  led : DeviceLed
  player : Player Bool

namespace LedRun

/-- An event that is taken at the time `now`. -/
def start (now : ℕ) (cfg : LedCfg) (led : DeviceLed) : LedRun where
  now := now
  led := (deviceLedSetup (UInt32.ofNat now) cfg led).2
  player := ⟨now, cfg.plan⟩

/-- A call when some time has passed. -/
def call (w : LedRun) (c : ℕ × LedCall) : LedRun :=
  let now := w.now + c.1
  match c.2 with
  | .process =>
    { now := now
      led := deviceLedProcess (UInt32.ofNat now) w.led
      player := w.player.call now }
  | .setup cfg => { w with now := now, led := (deviceLedSetup (UInt32.ofNat now) cfg w.led).2 }

/-- No new event is taken by the call. -/
def Uninterrupted (w : LedRun) (c : ℕ × LedCall) : Prop :=
  match c.2 with
  | .process => True
  | .setup cfg => (deviceLedSetup (UInt32.ofNat (w.now + c.1)) cfg w.led).1 = false

/-- A phase that is over is still so on the clock that goes around. -/
def InTime (w : LedRun) (c : ℕ × LedCall) : Prop :=
  match c.2, w.player.phases with
  | .process, (_, d) :: _ =>
    w.player.start + d < w.now + c.1 → d < (w.now + c.1 - w.player.start) % 4294967296
  | _, _ => True

/-- The LED is as its player says. -/
structure Plays (cfg : LedCfg) (w : LedRun) : Prop where
  isOn_eq : w.led.isOn = (w.player.phases.map Prod.fst).headD false
  level_eq : w.led.level = (w.led.isOn ^^ w.led.polar)
  outputEn_eq : w.led.outputEn = w.led.isOn
  repeatCount_eq : w.led.repeatCount.toNat = (w.player.phases.length + 1) / 2
  refuses : w.led.repeatCount ≠ 0 → ∀ clock (other : LedCfg), other.priority ≤ cfg.priority →
    deviceLedSetup clock other w.led = (false, w.led)

/-- The LED plays throughout, and it ends with the calls that come after the last phase. -/
structure PlaysOut (cfg : LedCfg) (w : LedRun) (calls : List (ℕ × LedCall)) : Prop where
  plays : Machine.Always call (Plays cfg) w calls
  ends : ∀ before late, calls = before ++ late →
    w.player.finish ≤ (Machine.run call w before).now → (∀ c ∈ late, c.2 = .process ∧ 0 < c.1) →
    cfg.plan.length ≤ late.length →
    (Machine.run call w calls).led.isOn = false ∧ (Machine.run call w calls).led.repeatCount = 0

end LedRun

/-- The time of an event with one kind of phase fits in 16 bits. -/
def LedCfg.Fits (cfg : LedCfg) : Prop :=
  (cfg.onTimeMs = 0 → cfg.repeatCount.toNat * cfg.offTimeMs.toNat < 65536) ∧
    (cfg.offTimeMs = 0 → cfg.repeatCount.toNat * cfg.onTimeMs.toNat < 65536)

/-! ## The phases that are left -/

theorem ledRounds_succ (on off : UInt16) (count : ℕ) :
    ledRounds on off (count + 1) =
      (true, msTicks on.toNat) :: (false, msTicks off.toNat) :: ledRounds on off count := rfl

/-- The phases that are left of the event that the LED plays. -/
def DeviceLed.phases (led : DeviceLed) : List (Bool × ℕ) :=
  let off := (false, msTicks led.offTimeMs.toNat) ::
    ledRounds led.onTimeMs led.offTimeMs (led.repeatCount.toNat - 1)
  if led.repeatCount = 0 then []
  else if led.isOn then
    (true, msTicks led.onTimeMs.toNat) :: if led.offTimeMs = 0 then [] else off
  else off

theorem DeviceLed.phases_of_idle {led : DeviceLed} (h : led.repeatCount = 0) : led.phases = [] := by
  rw [phases, if_pos h]

theorem DeviceLed.phases_of_on {led : DeviceLed} (h : led.repeatCount ≠ 0) (hon : led.isOn = true) :
    led.phases = (true, msTicks led.onTimeMs.toNat) ::
      if led.offTimeMs = 0 then []
      else (false, msTicks led.offTimeMs.toNat) ::
        ledRounds led.onTimeMs led.offTimeMs (led.repeatCount.toNat - 1) := by
  rw [phases, if_neg h, if_pos hon]

theorem DeviceLed.phases_of_off {led : DeviceLed} (h : led.repeatCount ≠ 0)
    (hoff : led.isOn = false) :
    led.phases = (false, msTicks led.offTimeMs.toNat) ::
      ledRounds led.onTimeMs led.offTimeMs (led.repeatCount.toNat - 1) := by
  rw [phases, if_neg h, if_neg (by rw [hoff]; decide)]

/-- The time of the phase that is on. -/
def DeviceLed.timeMs (led : DeviceLed) : UInt16 := if led.isOn then led.onTimeMs else led.offTimeMs

/-- The phase that is on, and behind it one of the other kind, if any. -/
theorem DeviceLed.phases_of_busy {led : DeviceLed} (h : led.repeatCount ≠ 0) :
    ∃ rest, led.phases = (led.isOn, msTicks led.timeMs.toNat) :: rest ∧
      (rest = [] ∨ (rest.map Prod.fst).headD false = !led.isOn) := by
  cases hon : led.isOn with
  | false =>
    refine ⟨_, by rw [phases_of_off h hon, timeMs, hon]; rfl, ?_⟩
    cases led.repeatCount.toNat - 1 with
    | zero => exact Or.inl rfl
    | succ count => exact Or.inr rfl
  | true =>
    refine ⟨_, by rw [phases_of_on h hon, timeMs, hon]; rfl, ?_⟩
    split
    case isTrue => exact Or.inl rfl
    case isFalse => exact Or.inr rfl

theorem ledProc_of_not_exceeded {led : DeviceLed} {clock : UInt32}
    (h : led.exceeded clock led.timeMs = false) : ledProc clock led = led := by
  rw [DeviceLed.timeMs] at h
  cases hon : led.isOn <;> simp_all [ledProc]

/-! ## The clock -/

theorem msTicks_lt (ms : UInt16) : msTicks ms.toNat + 1 < 4294967296 := by
  have hlt := ms.toNat_lt
  rw [msTicks, systemTimerTick1ms, systemTimerTick1us]
  omega

theorem lt_of_msTicks_le {n : ℕ} {ms : UInt16} (h : msTicks n ≤ msTicks ms.toNat) : n < 65536 :=
  Nat.lt_of_le_of_lt (Nat.le_of_mul_le_mul_right h (by decide)) ms.toNat_lt

/-- What the clock says of a time that began at `start`. -/
theorem DeviceLed.exceeded_eq {led : DeviceLed} {start now : ℕ} (hle : start ≤ now)
    (htick : led.startTick = UInt32.ofNat start) (ms : UInt16) :
    led.exceeded (UInt32.ofNat now) ms =
      decide (msTicks ms.toNat < (now - start) % 4294967296) := by
  have helapsed : u32Sub (UInt32.ofNat now).toNat (UInt32.ofNat start).toNat =
      (now - start) % 4294967296 := by
    rw [UInt32.toNat_ofNat', UInt32.toNat_ofNat', u32Sub, u32]
    omega
  have hticks : ms.toNat * 1000 * systemTimerTick1us = msTicks ms.toNat := Nat.mul_assoc ..
  rw [exceeded, clockTimeExceed, htick, helapsed, hticks]

/-- A time that is over is so on the clock, unless this has gone around. -/
theorem DeviceLed.exceeded_iff {led : DeviceLed} {start now : ℕ} {ms : UInt16} (hle : start ≤ now)
    (htick : led.startTick = UInt32.ofNat start)
    (hround : start + msTicks ms.toNat < now → msTicks ms.toNat < (now - start) % 4294967296) :
    led.exceeded (UInt32.ofNat now) ms = true ↔ start + msTicks ms.toNat < now := by
  rw [exceeded_eq hle htick, decide_eq_true_eq]
  have hmod := Nat.mod_le (now - start) 4294967296
  constructor
  · intro hlt
    omega
  · exact hround

/-- The tick of a phase that begins where the one before was to end. -/
theorem startTick_moveTick {led : DeviceLed} {start : ℕ}
    (htick : led.startTick = UInt32.ofNat start) (ms : UInt16) :
    (led.moveTick ms).startTick = UInt32.ofNat (start + msTicks ms.toNat) := by
  rw [DeviceLed.moveTick, htick, UInt32.ofNat_add, msTicks, UInt32.ofNat_mul,
    UInt32.ofNat_uInt16ToNat]

/-! ## What a call does -/

namespace LedRun

/-- The phases of the player are those that are left for the LED. -/
structure Holds (cfg : LedCfg) (w : LedRun) : Prop where
  phases_eq : w.player.phases = w.led.phases
  startTick_eq : w.led.repeatCount ≠ 0 → w.led.startTick = UInt32.ofNat w.player.start
  start_le : w.player.start ≤ w.now
  priority_eq : w.led.priority = cfg.priority
  isOn_of_idle : w.led.repeatCount = 0 → w.led.isOn = false
  offTimeMs_ne : 1 < w.led.repeatCount.toNat → w.led.offTimeMs ≠ 0
  level_eq : w.led.level = (w.led.isOn ^^ w.led.polar)
  outputEn_eq : w.led.outputEn = w.led.isOn

variable {cfg : LedCfg} {w : LedRun}

theorem length_ledRounds (on off : UInt16) (count : ℕ) :
    (ledRounds on off count).length = 2 * count := by
  induction count with
  | zero => rfl
  | succ count ih =>
    rw [ledRounds_succ, List.length_cons, List.length_cons, ih]
    omega

theorem Holds.repeatCount_eq (h : Holds cfg w) :
    w.led.repeatCount.toNat = (w.player.phases.length + 1) / 2 := by
  rw [h.phases_eq]
  by_cases hidle : w.led.repeatCount = 0
  · rw [DeviceLed.phases_of_idle hidle, hidle]
    rfl
  · have hpos : w.led.repeatCount.toNat ≠ 0 := fun h0 => hidle (UInt8.toNat_inj.1 h0)
    cases hon : w.led.isOn with
    | false =>
      rw [DeviceLed.phases_of_off hidle hon, List.length_cons, length_ledRounds]
      omega
    | true =>
      rw [DeviceLed.phases_of_on hidle hon]
      split
      case isTrue hoff =>
        -- there is nothing to repeat without an off phase
        have hone : ¬ 1 < w.led.repeatCount.toNat := fun hlt => h.offTimeMs_ne hlt hoff
        rw [List.length_singleton]
        omega
      case isFalse =>
        rw [List.length_cons, List.length_cons, length_ledRounds]
        omega

theorem Holds.plays (h : Holds cfg w) : Plays cfg w where
  isOn_eq := by
    rw [h.phases_eq]
    by_cases hidle : w.led.repeatCount = 0
    · rw [DeviceLed.phases_of_idle hidle, h.isOn_of_idle hidle]
      rfl
    · cases hon : w.led.isOn with
      | false => rw [DeviceLed.phases_of_off hidle hon]; rfl
      | true => rw [DeviceLed.phases_of_on hidle hon]; rfl
  level_eq := h.level_eq
  outputEn_eq := h.outputEn_eq
  repeatCount_eq := h.repeatCount_eq
  refuses := by
    intro hbusy clock other hle
    rw [deviceLedSetup, if_pos ⟨hbusy, h.priority_eq ▸ hle⟩]

/-- An event that is over. -/
theorem holds_of_idle {now start : ℕ} {led : DeviceLed} (hle : start ≤ now)
    (hidle : led.repeatCount = 0) (hoff : led.isOn = false)
    (hpriority : led.priority = cfg.priority)
    (hlevel : led.level = (led.isOn ^^ led.polar)) (houtput : led.outputEn = led.isOn) :
    Holds cfg ⟨now, led, ⟨start, []⟩⟩ where
  phases_eq := (DeviceLed.phases_of_idle hidle).symm
  startTick_eq := fun hbusy => absurd hidle hbusy
  start_le := hle
  priority_eq := hpriority
  isOn_of_idle := fun _ => hoff
  offTimeMs_ne := by
    intro hone
    rw [hidle] at hone
    exact absurd hone (by decide)
  level_eq := hlevel
  outputEn_eq := houtput

/-- A phase that begins where the one before was to end. -/
theorem holds_of_moved {now start : ℕ} {led : DeviceLed} {on : Bool} {ms : UInt16}
    {rest : List (Bool × ℕ)} (hbusy : led.repeatCount ≠ 0)
    (htick : led.startTick = UInt32.ofNat start) (hle : start + msTicks ms.toNat ≤ now)
    (hpriority : led.priority = cfg.priority)
    (hmore : 1 < led.repeatCount.toNat → led.offTimeMs ≠ 0)
    (hrest : rest = ((deviceLedOnOff led on).moveTick ms).phases) :
    Holds cfg ⟨now, (deviceLedOnOff led on).moveTick ms, ⟨start + msTicks ms.toNat, rest⟩⟩ where
  phases_eq := hrest
  startTick_eq := fun _ => startTick_moveTick htick ms
  start_le := hle
  priority_eq := hpriority
  isOn_of_idle := fun hidle => absurd hidle hbusy
  offTimeMs_ne := hmore
  level_eq := rfl
  outputEn_eq := rfl

/-- `led_proc` at the end of an on phase. -/
theorem Holds.ledProc_on {now start now' : ℕ} {led : DeviceLed} {phase : Bool × ℕ}
    {rest : List (Bool × ℕ)} (h : Holds cfg ⟨now, led, ⟨start, phase :: rest⟩⟩)
    (hbusy : led.repeatCount ≠ 0) (hon : led.isOn = true) (hlt : start + phase.2 < now')
    (hround : phase.2 < (now' - start) % 4294967296) :
    Holds cfg ⟨now', ledProc (UInt32.ofNat now') led, ⟨start + phase.2, rest⟩⟩ := by
  have htick : led.startTick = UInt32.ofNat start := h.startTick_eq hbusy
  have hphases : phase :: rest = led.phases := h.phases_eq
  rw [DeviceLed.phases_of_on hbusy hon, List.cons.injEq] at hphases
  obtain ⟨rfl, rfl⟩ := hphases
  have hover : led.exceeded (UInt32.ofNat now') led.onTimeMs = true :=
    (DeviceLed.exceeded_iff (by omega) htick fun _ => hround).2 hlt
  by_cases hoff : led.offTimeMs = 0
  · -- without an off phase the event is over
    have hproc : ledProc (UInt32.ofNat now') led =
        { deviceLedOnOff led false with repeatCount := 0 } := by
      simp [ledProc, hon, hover, hoff, deviceLedOnOff]
    rw [hproc, if_pos hoff]
    exact holds_of_idle (Nat.le_of_lt hlt) rfl rfl h.priority_eq rfl rfl
  · have hproc : ledProc (UInt32.ofNat now') led =
        (deviceLedOnOff led false).moveTick led.onTimeMs := by
      simp [ledProc, hon, hover, hoff, deviceLedOnOff]
    have hphases := @DeviceLed.phases_of_off
      ((deviceLedOnOff led false).moveTick led.onTimeMs) hbusy rfl
    rw [hproc, if_neg hoff]
    exact holds_of_moved hbusy htick (Nat.le_of_lt hlt) h.priority_eq (fun _ => hoff) hphases.symm

/-- A count that is not zero does not go around. -/
theorem toNat_sub_one {count : UInt8} (h : count ≠ 0) : (count - 1).toNat = count.toNat - 1 := by
  have hpos : count.toNat ≠ 0 := fun h0 => h (UInt8.toNat_inj.1 h0)
  have hle : (1 : UInt8) ≤ count := by
    rw [UInt8.le_iff_toNat_le]
    exact Nat.one_le_iff_ne_zero.2 hpos
  exact UInt8.toNat_sub_of_le _ _ hle

/-- `led_proc` at the end of an off phase. -/
theorem Holds.ledProc_off {now start now' : ℕ} {led : DeviceLed} {phase : Bool × ℕ}
    {rest : List (Bool × ℕ)} (h : Holds cfg ⟨now, led, ⟨start, phase :: rest⟩⟩)
    (hbusy : led.repeatCount ≠ 0) (hon : led.isOn = false) (hlt : start + phase.2 < now')
    (hround : phase.2 < (now' - start) % 4294967296) :
    Holds cfg ⟨now', ledProc (UInt32.ofNat now') led, ⟨start + phase.2, rest⟩⟩ := by
  have htick : led.startTick = UInt32.ofNat start := h.startTick_eq hbusy
  have hphases : phase :: rest = led.phases := h.phases_eq
  rw [DeviceLed.phases_of_off hbusy hon, List.cons.injEq] at hphases
  obtain ⟨rfl, rfl⟩ := hphases
  have hover : led.exceeded (UInt32.ofNat now') led.offTimeMs = true :=
    (DeviceLed.exceeded_iff (by omega) htick fun _ => hround).2 hlt
  have hcount := toNat_sub_one hbusy
  by_cases hlast : led.repeatCount - 1 = 0
  · -- the last round is over, and the LED is already off
    have hproc : ledProc (UInt32.ofNat now') led =
        { led with repeatCount := led.repeatCount - 1 } := by
      simp [ledProc, hon, hover, hlast]
    have hrest : ledRounds led.onTimeMs led.offTimeMs (led.repeatCount.toNat - 1) = [] := by
      rw [← hcount, hlast]
      rfl
    rw [hproc, hrest]
    exact holds_of_idle (Nat.le_of_lt hlt) hlast hon h.priority_eq h.level_eq h.outputEn_eq
  · have hproc : ledProc (UInt32.ofNat now') led =
        (deviceLedOnOff { led with repeatCount := led.repeatCount - 1 } true).moveTick
          led.offTimeMs := by
      simp [ledProc, hon, hover, hlast]
    rw [hproc]
    have hmore : 1 < led.repeatCount.toNat := by
      have hne : (led.repeatCount - 1).toNat ≠ 0 := fun h0 => hlast (UInt8.toNat_inj.1 h0)
      omega
    have hoff : led.offTimeMs ≠ 0 := h.offTimeMs_ne hmore
    refine holds_of_moved hlast htick (Nat.le_of_lt hlt) h.priority_eq (fun _ => hoff) ?_
    have hphases := @DeviceLed.phases_of_on ((deviceLedOnOff
      { led with repeatCount := led.repeatCount - 1 } true).moveTick led.offTimeMs) hlast rfl
    -- the rounds that are left begin with the phase that is now on
    obtain ⟨count, hsucc⟩ : ∃ count, led.repeatCount.toNat - 1 = count + 1 :=
      ⟨led.repeatCount.toNat - 2, by omega⟩
    have hleft : (led.repeatCount - 1).toNat - 1 = count := by omega
    rw [hsucc, ledRounds_succ, hphases]
    show _ = _ :: if led.offTimeMs = 0 then [] else _ ::
      ledRounds led.onTimeMs led.offTimeMs ((led.repeatCount - 1).toNat - 1)
    rw [if_neg hoff, hleft]
    rfl

theorem deviceLedSetup_refused {clock : UInt32} {other : LedCfg} {led : DeviceLed}
    (h : (deviceLedSetup clock other led).1 = false) :
    (deviceLedSetup clock other led).2 = led := by
  rw [deviceLedSetup] at h ⊢
  split
  case isTrue => rfl
  case isFalse htaken =>
    rw [if_neg htaken] at h
    exact absurd h Bool.noConfusion

/-- A call of `device_led_process` that is in time. -/
theorem Holds.process (h : Holds cfg w) {elapsed : ℕ} (htime : InTime w (elapsed, .process)) :
    Holds cfg (w.call (elapsed, .process)) := by
  obtain ⟨now, led, ⟨start, phases⟩⟩ := w
  have hle : start ≤ now + elapsed := Nat.le_trans h.start_le (Nat.le_add_right ..)
  by_cases hidle : led.repeatCount = 0
  · have hnil : phases = [] := h.phases_eq.trans (DeviceLed.phases_of_idle hidle)
    subst hnil
    have hproc : deviceLedProcess (UInt32.ofNat (now + elapsed)) led = led :=
      if_neg (not_not.2 hidle)
    rw [call, hproc]
    exact { h with start_le := hle }
  · have hproc : deviceLedProcess (UInt32.ofNat (now + elapsed)) led =
        ledProc (UInt32.ofNat (now + elapsed)) led := if_pos hidle
    rw [call, hproc]
    obtain ⟨rest, hrest, -⟩ := DeviceLed.phases_of_busy hidle
    have hphases : phases = (led.isOn, msTicks led.timeMs.toNat) :: rest :=
      h.phases_eq.trans hrest
    subst hphases
    -- the LED goes on to the next phase exactly if the player does
    by_cases hlt : start + msTicks led.timeMs.toNat < now + elapsed
    · rw [Player.call_of_lt rfl hlt]
      cases hon : led.isOn with
      | true => exact h.ledProc_on hidle hon hlt (htime hlt)
      | false => exact h.ledProc_off hidle hon hlt (htime hlt)
    · have hexceeded : led.exceeded (UInt32.ofNat (now + elapsed)) led.timeMs = false := by
        rw [Bool.eq_false_iff]
        exact fun hover => hlt ((DeviceLed.exceeded_iff hle (h.startTick_eq hidle) htime).1 hover)
      rw [Player.call_of_not_lt rfl hlt, ledProc_of_not_exceeded hexceeded]
      exact { h with start_le := hle }

/-- A call that takes no new event. -/
theorem Holds.step {c : ℕ × LedCall} (h : Holds cfg w)
    (hok : Uninterrupted w c ∧ InTime w c) : Holds cfg (w.call c) := by
  obtain ⟨elapsed, call⟩ := c
  cases call with
  | process => exact h.process hok.2
  | setup other =>
    have hled : (deviceLedSetup (UInt32.ofNat (w.now + elapsed)) other w.led).2 = w.led :=
      deviceLedSetup_refused hok.1
    have hcall : w.call (elapsed, .setup other) = ⟨w.now + elapsed, w.led, w.player⟩ :=
      congrArg (fun led => LedRun.mk (w.now + elapsed) led w.player) hled
    rw [hcall]
    exact { h with start_le := Nat.le_trans h.start_le (Nat.le_add_right ..) }

/-! ## The start of an event -/

/-- The event is taken, and it is not for ever. -/
structure Taken (now : ℕ) (cfg : LedCfg) (led : DeviceLed) : Prop where
  count_pos : 1 ≤ cfg.repeatCount.toNat
  count_le : cfg.repeatCount.toNat ≤ 254
  taken : (deviceLedSetup (UInt32.ofNat now) cfg led).1 = true

variable {now : ℕ} {led : DeviceLed}

theorem Taken.count_ne (h : Taken now cfg led) : cfg.repeatCount ≠ 0xff := by
  intro heq
  have hle := h.count_le
  rw [heq] at hle
  exact absurd hle (by decide)

/-- The LED with the event, which begins with an off phase if there is no on time. -/
theorem Taken.start_eq (h : Taken now cfg led) :
    start now cfg led = ⟨now, deviceLedOnOff
      { deviceLedTake led cfg with startTick := UInt32.ofNat now }
      (decide ((deviceLedTake led cfg).onTimeMs ≠ 0)), ⟨now, cfg.plan⟩⟩ := by
  have htaken := h.taken
  rw [deviceLedSetup] at htaken
  rw [start, deviceLedSetup]
  split
  case isTrue hrefused =>
    rw [if_pos hrefused] at htaken
    exact absurd htaken Bool.false_ne_true
  case isFalse => rfl

/-- An event with off phases only becomes one of them. -/
theorem Taken.take_off (h : Taken now cfg led) (hon : cfg.onTimeMs = 0) :
    deviceLedTake led cfg = { led with
      onTimeMs := 0
      offTimeMs := cfg.offTimeMs * cfg.repeatCount.toUInt16
      repeatCount := 1
      priority := cfg.priority } := by
  simp [deviceLedTake, h.count_ne, hon]

/-- An event with on phases only becomes one of them. -/
theorem Taken.take_on (h : Taken now cfg led) (hon : cfg.onTimeMs ≠ 0) (hoff : cfg.offTimeMs = 0) :
    deviceLedTake led cfg = { led with
      onTimeMs := cfg.onTimeMs * cfg.repeatCount.toUInt16
      offTimeMs := 0
      repeatCount := 1
      priority := cfg.priority } := by
  simp [deviceLedTake, h.count_ne, hon, hoff]

theorem Taken.take_both (h : Taken now cfg led) (hon : cfg.onTimeMs ≠ 0)
    (hoff : cfg.offTimeMs ≠ 0) :
    deviceLedTake led cfg = { led with
      onTimeMs := cfg.onTimeMs
      offTimeMs := cfg.offTimeMs
      repeatCount := cfg.repeatCount
      priority := cfg.priority } := by
  simp [deviceLedTake, h.count_ne, hon, hoff]

/-- The time that is kept of an event with one kind of phase. -/
theorem toNat_mul_count {ms : UInt16} {count : UInt8}
    (h : count.toNat * ms.toNat < 65536) :
    (ms * count.toUInt16).toNat = count.toNat * ms.toNat := by
  rw [UInt16.toNat_mul, UInt8.toNat_toUInt16, Nat.mul_comm]
  exact Nat.mod_eq_of_lt h

/-- An event that begins, with what is taken of it. -/
theorem holds_of_taken {now : ℕ} {led : DeviceLed} (hbusy : led.repeatCount ≠ 0)
    (hpriority : led.priority = cfg.priority)
    (hmore : 1 < led.repeatCount.toNat → led.offTimeMs ≠ 0)
    (hplan : ({ led with isOn := decide (led.onTimeMs ≠ 0) } : DeviceLed).phases = cfg.plan) :
    Holds cfg ⟨now, deviceLedOnOff { led with startTick := UInt32.ofNat now }
      (decide (led.onTimeMs ≠ 0)), ⟨now, cfg.plan⟩⟩ where
  phases_eq := hplan.symm
  startTick_eq := fun _ => rfl
  start_le := Nat.le_refl now
  priority_eq := hpriority
  isOn_of_idle := fun hidle => absurd hidle hbusy
  offTimeMs_ne := hmore
  level_eq := rfl
  outputEn_eq := rfl

theorem Taken.holds (h : Taken now cfg led) (hfits : cfg.Fits) :
    Holds cfg (start now cfg led) := by
  rw [h.start_eq]
  have hone : (1 : UInt8) ≠ 0 := by decide
  have hmore : ¬ 1 < (1 : UInt8).toNat := by decide
  by_cases hon : cfg.onTimeMs = 0
  · -- only off
    rw [h.take_off hon]
    refine holds_of_taken hone rfl (fun hlt => absurd hlt hmore) ?_
    rw [DeviceLed.phases_of_off hone rfl, LedCfg.plan, if_pos hon,
      toNat_mul_count (hfits.1 hon)]
    rfl
  · by_cases hoff : cfg.offTimeMs = 0
    · -- only on
      have htime := toNat_mul_count (hfits.2 hoff)
      have hne : cfg.onTimeMs * cfg.repeatCount.toUInt16 ≠ 0 := by
        intro hzero
        rw [hzero, UInt16.toNat_zero, zero_eq_mul] at htime
        rcases htime with hcount | hms
        · exact absurd h.count_pos (by omega)
        · exact hon (UInt16.toNat_inj.1 hms)
      rw [h.take_on hon hoff]
      refine holds_of_taken hone rfl (fun hlt => absurd hlt hmore) ?_
      rw [DeviceLed.phases_of_on hone (decide_eq_true hne), LedCfg.plan, if_neg hon, if_pos hoff,
        htime, if_pos rfl]
    · -- rounds of both, the first of which is on
      obtain ⟨count, hcount⟩ : ∃ count, cfg.repeatCount.toNat = count + 1 :=
        ⟨cfg.repeatCount.toNat - 1, (Nat.sub_add_cancel h.count_pos).symm⟩
      have hbusy : cfg.repeatCount ≠ 0 := by
        intro hzero
        rw [hzero, UInt8.toNat_zero] at hcount
        omega
      rw [h.take_both hon hoff]
      refine holds_of_taken hbusy rfl (fun _ => hoff) ?_
      rw [DeviceLed.phases_of_on hbusy (decide_eq_true hon), LedCfg.plan, if_neg hon, if_neg hoff,
        if_neg hoff, hcount, ledRounds_succ]
      rfl

/-! ## Times that do not fit -/

/-- The last phase of an event ends with the time that is kept of it. -/
theorem ledProc_last {led : DeviceLed} {clock : UInt32} (hone : led.repeatCount = 1)
    (hoff : led.isOn = true → led.offTimeMs = 0) (h : led.exceeded clock led.timeMs = true) :
    (ledProc clock led).repeatCount = 0 := by
  rw [DeviceLed.timeMs] at h
  cases hon : led.isOn with
  | false => simp_all [ledProc]
  | true => simp_all [ledProc, deviceLedOnOff]

/-- An event of one phase plays for as long as is kept of its time, and not longer. -/
theorem le_of_plays {on : Bool} {d : ℕ} (hone : led.repeatCount = 1)
    (htick : led.startTick = UInt32.ofNat now) (hoff : led.isOn = true → led.offTimeMs = 0)
    (hplays : ∀ calls, Machine.Along call Uninterrupted ⟨now, led, ⟨now, [(on, d)]⟩⟩ calls →
      Machine.Along call InTime ⟨now, led, ⟨now, [(on, d)]⟩⟩ calls →
      Machine.Always call (Plays cfg) ⟨now, led, ⟨now, [(on, d)]⟩⟩ calls) :
    d ≤ msTicks led.timeMs.toNat := by
  by_contra hlt
  -- a call just after the time that is kept
  have hearly : ¬ now + d < now + (msTicks led.timeMs.toNat + 1) := by omega
  have hbusy : led.repeatCount ≠ 0 := by
    rw [hone]
    decide
  have hcall := (hplays [(msTicks led.timeMs.toNat + 1, .process)] ⟨trivial, trivial⟩
    ⟨fun hover => absurd hover hearly, trivial⟩).last
  have hcount := hcall.repeatCount_eq
  have hover : led.exceeded (UInt32.ofNat (now + (msTicks led.timeMs.toNat + 1))) led.timeMs =
      true := by
    have hticks := msTicks_lt led.timeMs
    refine (DeviceLed.exceeded_iff (Nat.le_add_right ..) htick fun _ => ?_).2 (by omega)
    rw [Nat.add_sub_cancel_left, Nat.mod_eq_of_lt hticks]
    exact Nat.lt_succ_self _
  simp only [Machine.run_cons, Machine.run_nil, call, deviceLedProcess, if_pos hbusy,
    ledProc_last hone hoff hover] at hcount
  rw [Player.call_of_not_lt rfl hearly] at hcount
  -- no phase is over for the player
  simp at hcount

/-- An event whose time does not fit does not play out, also if the calls are in time. -/
theorem Taken.fits (h : Taken now cfg led)
    (hplays : ∀ calls, Machine.Along call Uninterrupted (start now cfg led) calls →
      Machine.Along call InTime (start now cfg led) calls →
      Machine.Always call (Plays cfg) (start now cfg led) calls) : cfg.Fits := by
  rw [h.start_eq] at hplays
  constructor
  · intro hon
    rw [h.take_off hon, LedCfg.plan, if_pos hon] at hplays
    exact lt_of_msTicks_le (le_of_plays rfl rfl (fun hlit => absurd hlit Bool.false_ne_true) hplays)
  · intro hoff
    by_cases hon : cfg.onTimeMs = 0
    · rw [hon, UInt16.toNat_zero, Nat.mul_zero]
      decide
    · rw [h.take_on hon hoff, LedCfg.plan, if_neg hon, if_pos hoff] at hplays
      exact lt_of_msTicks_le (le_of_plays rfl rfl (fun _ => rfl) hplays)

/-! ## The end of an event -/

theorem finish_call (w : LedRun) (c : ℕ × LedCall) :
    (w.call c).player.finish = w.player.finish := by
  obtain ⟨elapsed, call⟩ := c
  cases call with
  | process => exact w.player.finish_call _
  | setup => rfl

theorem length_call_le (w : LedRun) (c : ℕ × LedCall) :
    (w.call c).player.phases.length ≤ w.player.phases.length := by
  obtain ⟨elapsed, call⟩ := c
  cases call with
  | process => exact w.player.length_call_le _
  | setup => exact Nat.le_refl _

/-- The plan of an event only gets shorter, and it does not move. -/
theorem run_player (w : LedRun) (calls : List (ℕ × LedCall)) :
    (Machine.run call w calls).player.finish = w.player.finish ∧
      (Machine.run call w calls).player.phases.length ≤ w.player.phases.length := by
  induction calls generalizing w with
  | nil => exact ⟨rfl, Nat.le_refl _⟩
  | cons c calls ih =>
    obtain ⟨hfinish, hlength⟩ := ih (w.call c)
    exact ⟨hfinish.trans (finish_call w c), Nat.le_trans hlength (length_call_le w c)⟩

/-- After the last phase was to end, each call takes one of the phases that are left. -/
theorem run_late {late : List (ℕ × LedCall)} (hfinish : w.player.finish ≤ w.now)
    (hlate : ∀ c ∈ late, c.2 = .process ∧ 0 < c.1)
    (hlen : w.player.phases.length ≤ late.length) :
    (Machine.run call w late).player.phases = [] := by
  induction late generalizing w with
  | nil => exact List.eq_nil_of_length_eq_zero (Nat.le_zero.1 hlen)
  | cons c late ih =>
    obtain ⟨elapsed, kind⟩ := c
    obtain ⟨⟨rfl, hpos⟩, hrest⟩ := List.forall_mem_cons.1 hlate
    have hover : w.player.finish < w.now + elapsed := by
      have hpos' : 0 < elapsed := hpos
      omega
    -- the first of the late calls takes a phase, and the others the rest
    have hshorter := Player.length_call_of_finish_lt hover
    refine ih ?_ hrest ?_
    · rw [finish_call]
      exact Nat.le_trans hfinish (Nat.le_add_right ..)
    · rw [List.length_cons] at hlen
      show (w.player.call (w.now + elapsed)).phases.length ≤ late.length
      omega

theorem Holds.playsOut {calls : List (ℕ × LedCall)} (h : Holds cfg w)
    (hplan : w.player.phases = cfg.plan)
    (hok : Machine.Along call (fun w c => Uninterrupted w c ∧ InTime w c) w calls) :
    PlaysOut cfg w calls where
  plays := Machine.always_of_invariant (fun _ _ h hok => h.step hok) (fun _ h => h.plays) h hok
  ends := by
    intro before late hcalls hfinish hlate hlen
    have hend : Holds cfg (Machine.run call w calls) :=
      Machine.run_invariant (fun _ _ h hok => h.step hok) h hok
    have hbefore := run_player w before
    -- there is a late call for each phase that is left
    have hnil : (Machine.run call w calls).player.phases = [] := by
      rw [hcalls, Machine.run_append]
      refine run_late ?_ hlate ?_
      · rwa [hbefore.1]
      · rw [hplan] at hbefore
        exact Nat.le_trans hbefore.2 hlen
    have hcount : (Machine.run call w calls).led.repeatCount = 0 := by
      rw [← UInt8.toNat_inj, hend.repeatCount_eq, hnil]
      rfl
    exact ⟨hend.isOn_of_idle hcount, hcount⟩

/-- A call that is not in time misses the end of the phase. -/
theorem Holds.inTime {c : ℕ × LedCall} (h : Holds cfg w) (hplays : Plays cfg (w.call c)) :
    InTime w c := by
  obtain ⟨elapsed, kind⟩ := c
  obtain ⟨now, led, ⟨start, phases⟩⟩ := w
  cases kind with
  | setup => trivial
  | process =>
    cases phases with
    | nil => trivial
    | cons phase rest =>
      intro hlt
      by_contra hround
      have hphases : phase :: rest = led.phases := h.phases_eq
      have hbusy : led.repeatCount ≠ 0 := fun hidle =>
        List.cons_ne_nil _ _ (hphases.trans (DeviceLed.phases_of_idle hidle))
      obtain ⟨rest', hrest, hnext⟩ := DeviceLed.phases_of_busy hbusy
      rw [hrest, List.cons.injEq] at hphases
      obtain ⟨rfl, rfl⟩ := hphases
      have hlate : led.exceeded (UInt32.ofNat (now + elapsed)) led.timeMs = false := by
        have hle : start ≤ now + elapsed := Nat.le_trans h.start_le (Nat.le_add_right ..)
        rw [DeviceLed.exceeded_eq hle (h.startTick_eq hbusy)]
        exact decide_eq_false hround
      have hcall : call ⟨now, led, ⟨start, (led.isOn, msTicks led.timeMs.toNat) :: rest⟩⟩
          (elapsed, .process) = ⟨now + elapsed, led, ⟨start + msTicks led.timeMs.toNat, rest⟩⟩ := by
        simp only [call, deviceLedProcess, if_pos hbusy, ledProc_of_not_exceeded hlate,
          Player.call_of_lt rfl hlt]
      rw [hcall] at hplays
      -- the LED is still in the phase, and the player is in the next one
      rcases hnext with hnil | hhead
      · have hcount : led.repeatCount.toNat = (rest.length + 1) / 2 := hplays.repeatCount_eq
        rw [hnil, List.length_nil] at hcount
        exact hbusy (UInt8.toNat_inj.1 hcount)
      · have hon : led.isOn = (rest.map Prod.fst).headD false := hplays.isOn_eq
        rw [hhead] at hon
        exact Bool.not_ne_self led.isOn hon.symm

/-- An event plays out if all calls are in time, and only then, if and only if its time fits. -/
theorem deviceLedSetup_playsOut_iff (h : Taken now cfg led) :
    (∀ calls, Machine.Along call Uninterrupted (start now cfg led) calls →
      (PlaysOut cfg (start now cfg led) calls ↔
        Machine.Along call InTime (start now cfg led) calls)) ↔ cfg.Fits := by
  constructor
  · intro hplays
    exact h.fits fun calls hfree htime => ((hplays calls hfree).2 htime).plays
  · intro hfits calls hfree
    have hstart : Holds cfg (start now cfg led) := h.holds hfits
    constructor
    · intro hplays
      refine (Machine.always_iff_along (fun w c h _ hfree => ?_) (fun w c h _ hfree hplays => ?_)
        hfree hstart hstart.plays).1 hplays.plays
      · exact ⟨h.inTime, fun htime => (h.step ⟨hfree, htime⟩).plays⟩
      · exact h.step ⟨hfree, h.inTime hplays⟩
    · intro htime
      exact hstart.playsOut rfl (Machine.along_and.2 ⟨hfree, htime⟩)

/-- A LED that is idle. -/
def idleLed : DeviceLed := ⟨false, false, 0, 0, 0, 0, 0, false, false⟩

/-- 100 times one second of off, of which 34464 ms are kept. -/
def offEvent : LedCfg := ⟨0, 1000, 100, 1⟩

theorem taken_offEvent : Taken 0 offEvent idleLed := ⟨by decide, by decide, by decide⟩

theorem deviceLedSetup_playsOut_iff_offEvent :
    (∀ calls, Machine.Along call Uninterrupted (start 0 offEvent idleLed) calls →
      (PlaysOut offEvent (start 0 offEvent idleLed) calls ↔
        Machine.Along call InTime (start 0 offEvent idleLed) calls)) ↔ offEvent.Fits :=
  deviceLedSetup_playsOut_iff taken_offEvent

/-- The event of 100 seconds is over after 35 of them. -/
theorem deviceLedSetup_not_playsOut :
    ¬ ∀ now cfg led calls, Taken now cfg led →
      Machine.Along call Uninterrupted (start now cfg led) calls →
      PlaysOut cfg (start now cfg led) calls := by
  intro hplays
  have hover := hplays 0 offEvent idleLed [(msTicks 35000, .process)] taken_offEvent
    ⟨trivial, trivial⟩
  have hcount := hover.plays.last.repeatCount_eq
  revert hcount
  decide

end LedRun

end TlBleSdk.Common
