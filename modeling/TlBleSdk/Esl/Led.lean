import TlBleSdk.Esl.Defs
import TlBleSdk.Lib.Run
import Mathlib.Data.List.GetD

/-!
# LED patterns

`led/app_led.c`: the table of LEDs, the start of a command and the loop that plays its
pattern. A call reads the clock once; between two calls any time passes. Other LEDs get
commands while one plays.

Besides the variables of the source an LED has the level that its driver was last switched
to, and two histories of the command it has: the times at which the bits began, and those at
which the seconds did.
-/

namespace TlBleSdk.Esl

open Hci

/-- `APP_LED_MAX_LEDS`. -/
def appLedMaxLeds : ℕ := 4

/-- The widths of the fields of `app_led_command_t`. -/
structure AppLedCommand.Valid (c : AppLedCommand) : Prop where
  bitOffPeriod_lt : c.bitOffPeriod < 256
  bitOnPeriod_lt : c.bitOnPeriod < 256
  repeatDuration_lt : c.repeatDuration < 32768
  repeatType_lt : c.repeatType < 2

/-- The bit of the pattern at an offset. -/
def AppLedCommand.patternBit (c : AppLedCommand) (bitOffset : ℕ) : Bool :=
  (c.pattern.getD (bitOffset / 8) 0).testBit (bitOffset % 8)

/-- The period of the bit at an offset. -/
def AppLedCommand.bitPeriod (c : AppLedCommand) (bitOffset : ℕ) : ℕ :=
  if c.patternBit bitOffset then c.bitOnPeriod else c.bitOffPeriod

/-- `repeat_duration--`, in 15 bits. -/
def AppLedCommand.decrease (c : AppLedCommand) : AppLedCommand :=
  { c with repeatDuration := (c.repeatDuration + 32767) % 32768 }

/-- An entry of `leds`, with the level `iface->toggle` set and the times of the bits and of
the seconds. -/
structure Led where
  inUse : Bool
  commandActive : Bool
  en : Bool
  on : Bool
  currentCommand : AppLedCommand
  onOffTime : ℕ
  repeatTime : ℕ
  bitOffset : ℕ
  bitTimes : List ℕ
  tickTimes : List ℕ

namespace Led

/-- The level that `app_led_apply` computes. -/
def level (l : Led) : Bool :=
  if l.commandActive then
    if l.currentCommand.repeatDuration ≠ 0 then l.currentCommand.patternBit l.bitOffset
    else decide (l.currentCommand.repeatType ≠ 0)
  else false

/-- `app_led_apply`. -/
def apply (l : Led) : Led := if l.en ≠ l.level then { l with on := l.level, en := l.level } else l

/-- `app_led_command_apply`, for an LED in use. -/
def commandApply (now : ℕ) (l : Led) (command : AppLedCommand) : Led :=
  apply { l with
    currentCommand := command
    commandActive := true
    onOffTime := u32 now
    repeatTime := u32 now
    bitOffset := 39
    bitTimes := [now]
    tickTimes := [now] }

/-- The timeout of the bit, in microseconds. -/
def timeout (l : Led) : ℕ := l.currentCommand.bitPeriod l.bitOffset * 2000

/-- The move to the next bit in `app_led_id_loop`. -/
def moveBit (now : ℕ) (l : Led) : Led :=
  let bitOffset := (if l.bitOffset = 0 then 39 else l.bitOffset - 1) % 40
  { l with
    onOffTime := u32 now
    bitOffset := bitOffset
    bitTimes := l.bitTimes ++ [now]
    currentCommand :=
      if bitOffset = 39 ∧ l.currentCommand.repeatType = 0 then l.currentCommand.decrease
      else l.currentCommand }

/-- The end of a second in `app_led_id_loop`. -/
def tick (now : ℕ) (l : Led) : Led :=
  { l with
    repeatTime := u32 now
    tickTimes := l.tickTimes ++ [now]
    currentCommand := l.currentCommand.decrease }

/-- The bit is over. -/
def bitOver (now : ℕ) (l : Led) : Bool := clockTimeExceed (u32 now) l.onOffTime l.timeout

/-- The second is over, where seconds count. -/
def secondOver (now : ℕ) (l : Led) : Bool :=
  l.currentCommand.repeatType = 1 ∧ clockTimeExceed (u32 now) l.repeatTime (1000 * 1000)

/-- What `app_led_id_loop` does for a bit that is over. -/
def passBit (now : ℕ) (l : Led) : Led := if l.bitOver now then l.moveBit now else l

/-- What `app_led_id_loop` does for a second that is over. -/
def passSecond (now : ℕ) (l : Led) : Led := if l.secondOver now then l.tick now else l

/-- The command becomes inactive. -/
def endCommand (l : Led) : Led := { l with commandActive := false }

/-- `app_led_id_loop`. -/
def idLoop (now : ℕ) (l : Led) : Led :=
  if !l.commandActive then l
  else if l.currentCommand.repeatDuration = 0 then l
  else
    let ticked := (l.passBit now).passSecond now
    if ticked.currentCommand.repeatDuration = 0 then ticked.endCommand.apply
    else if l.bitOver now then ticked.apply
    else ticked

end Led

/-- The table `leds` and the time. -/
structure Leds where
  now : ℕ
  leds : ℕ → Led

/-- The table after the start. -/
def Leds.init : Leds where
  now := 0
  leds _ :=
    { inUse := false, commandActive := false, en := false, on := false,
      currentCommand := ⟨0, 0, 0, 0, 0, 0, 0, 0, []⟩, onOffTime := 0, repeatTime := 0,
      bitOffset := 0, bitTimes := [], tickTimes := [] }

/-- A call of the module. -/
inductive LedCall where
  | register
  | commandApply (ledId : ℕ) (command : AppLedCommand)
  | loop
deriving DecidableEq

namespace Leds

/-- `app_led_register`: the first LED that is free. -/
def register (s : Leds) : Leds :=
  match (List.range appLedMaxLeds).find? fun i => !(s.leds i).inUse with
  | some i => { s with leds := Function.update s.leds i { s.leds i with inUse := true } }
  | none => s

/-- `app_led_command_apply`. -/
def commandApply (s : Leds) (ledId : ℕ) (command : AppLedCommand) : Leds :=
  if ledId < appLedMaxLeds ∧ (s.leds ledId).inUse then
    { s with leds := Function.update s.leds ledId ((s.leds ledId).commandApply s.now command) }
  else s

/-- `app_led_loop`. -/
def loop (s : Leds) : Leds :=
  { s with leds := fun i =>
      if i < appLedMaxLeds ∧ (s.leds i).inUse then (s.leds i).idLoop s.now else s.leds i }

/-- A call that comes `delay` ticks after the last one. -/
def step (s : Leds) (call : ℕ × LedCall) : Leds :=
  let s := { s with now := s.now + call.1 }
  match call.2 with
  | .register => s.register
  | .commandApply ledId command => s.commandApply ledId command
  | .loop => s.loop

end Leds

/-! ## Times -/

/-- Each of the times is more than its period after the one before. -/
def Spaced (period : ℕ → ℕ) (times : List ℕ) : Prop :=
  ∀ j t t', times[j]? = some t → times[j + 1]? = some t' → t + period j < t'

theorem spaced_singleton (period : ℕ → ℕ) (t : ℕ) : Spaced period [t] := by
  intro j t t' _ h
  rw [List.getElem?_eq_none (Nat.le_add_left 1 j)] at h
  cases h

theorem Spaced.concat {period : ℕ → ℕ} {times : List ℕ} (h : Spaced period times) {now k : ℕ}
    (hlen : times.length = k + 1) (hnow : times.getLastD 0 + period k < now) :
    Spaced period (times ++ [now]) := by
  intro j t t' ht ht'
  rcases Nat.lt_or_ge (j + 1) times.length with hlt | hge
  · -- Only the last two times are new.
    rw [List.getElem?_append_left hlt] at ht'
    rw [List.getElem?_append_left (by omega)] at ht
    exact h j t t' ht ht'
  · have hj : j + 1 < (times ++ [now]).length := (List.getElem?_eq_some_iff.mp ht').1
    rw [List.length_append, List.length_singleton] at hj
    obtain rfl : j = k := by omega
    rw [← hlen, List.getElem?_concat_length] at ht'
    rw [List.getElem?_append_left (by omega)] at ht
    have hlast : times.getLastD 0 = t := by
      rw [List.getLastD_eq_getLast?, List.getLast?_eq_getElem?, hlen, Nat.add_sub_cancel, ht,
        Option.getD_some]
    cases ht'
    rw [← hlast]
    exact hnow

/-- What the timer says was exceeded is exceeded. -/
theorem lt_of_clockTimeExceed {now ref us : ℕ} (hle : ref ≤ now)
    (h : clockTimeExceed (u32 now) (u32 ref) us = true) :
    ref + us * systemTimerTick1us < now := by
  have h' := of_decide_eq_true h
  have hsub : u32Sub (u32 now) (u32 ref) ≤ now - ref := by
    unfold u32Sub u32
    omega
  omega

/-! ## A playing command -/

/-- How often `c` has counted down, after `moves` moves of the bit and `ticks` seconds. -/
def AppLedCommand.spent (c : AppLedCommand) (moves ticks : ℕ) : ℕ :=
  if c.repeatType = 0 then moves / 40 else ticks

/-- The level that `c` asks for: for ever its type where it has no duration, else the bit of
the pattern until the duration is spent. -/
def AppLedCommand.level (c : AppLedCommand) (moves ticks : ℕ) : Bool :=
  if c.repeatDuration = 0 then decide (c.repeatType ≠ 0)
  else decide (c.spent moves ticks < c.repeatDuration) && c.patternBit (39 - moves % 40)

namespace Led

/-- The command of the LED came from `c`, `moves` moves of the bit and `ticks` seconds
ago. -/
structure Counts (c : AppLedCommand) (now moves ticks : ℕ) (l : Led) : Prop where
  inUse : l.inUse = true
  length_bitTimes : l.bitTimes.length = moves + 1
  length_tickTimes : l.tickTimes.length = ticks + 1
  spaced_bitTimes :
    Spaced (fun j => c.bitPeriod (39 - j % 40) * 2000 * systemTimerTick1us) l.bitTimes
  spaced_tickTimes : Spaced (fun _ => 1000 * 1000 * systemTimerTick1us) l.tickTimes
  onOffTime : l.onOffTime = u32 (l.bitTimes.getLastD 0)
  repeatTime : l.repeatTime = u32 (l.tickTimes.getLastD 0)
  onOffTime_le : l.bitTimes.getLastD 0 ≤ now
  repeatTime_le : l.tickTimes.getLastD 0 ≤ now
  bitOffset : l.bitOffset = 39 - moves % 40
  spent_le : c.spent moves ticks ≤ c.repeatDuration
  moves_le : c.repeatType = 0 → moves ≤ 40 * c.repeatDuration
  command : l.currentCommand =
    { c with repeatDuration := c.repeatDuration - c.spent moves ticks }

/-- The LED plays `c`: besides the counts, the driver has the level asked for. -/
structure Plays (c : AppLedCommand) (now moves ticks : ℕ) (l : Led) : Prop
    extends Counts c now moves ticks l where
  active : l.commandActive =
    decide (c.repeatDuration = 0 ∨ c.spent moves ticks < c.repeatDuration)
  en : l.en = c.level moves ticks
  on : l.on = l.en

variable {c : AppLedCommand} {now moves ticks : ℕ} {l : Led}

theorem Counts.mono (h : Counts c now moves ticks l) {now' : ℕ} (hnow : now ≤ now') :
    Counts c now' moves ticks l :=
  { h with
    onOffTime_le := Nat.le_trans h.onOffTime_le hnow
    repeatTime_le := Nat.le_trans h.repeatTime_le hnow }

theorem Counts.congr (h : Counts c now moves ticks l) {en on commandActive : Bool} :
    Counts c now moves ticks { l with en, on, commandActive } :=
  ⟨h.inUse, h.length_bitTimes, h.length_tickTimes, h.spaced_bitTimes, h.spaced_tickTimes,
    h.onOffTime, h.repeatTime, h.onOffTime_le, h.repeatTime_le, h.bitOffset, h.spent_le,
    h.moves_le, h.command⟩

theorem Counts.timeout_eq (h : Counts c now moves ticks l) :
    l.timeout = c.bitPeriod (39 - moves % 40) * 2000 := by
  rw [timeout, h.command, h.bitOffset]
  rfl

/-- `app_led_apply` drives the level asked for. -/
theorem Counts.apply (h : Counts c now moves ticks l)
    (hactive : l.commandActive =
      decide (c.repeatDuration = 0 ∨ c.spent moves ticks < c.repeatDuration))
    (hon : l.on = l.en) :
    Plays c now moves ticks l.apply := by
  have hlevel : l.level = c.level moves ticks := by
    rw [Led.level, hactive, h.command, h.bitOffset, AppLedCommand.level]
    by_cases h0 : c.repeatDuration = 0
    · simp [h0]
    · by_cases hlt : c.spent moves ticks < c.repeatDuration
      · have hne : c.repeatDuration - c.spent moves ticks ≠ 0 := by omega
        simp [h0, hlt, hne, AppLedCommand.patternBit]
      · simp [h0, hlt]
  unfold Led.apply
  rw [hlevel]
  split
  case isTrue => exact ⟨h.congr, hactive, rfl, rfl⟩
  case isFalse heq => exact ⟨h, hactive, not_not.mp heq, hon⟩

/-- The end of a command. -/
theorem Counts.apply_ended (h : Counts c now moves ticks l)
    (hspent : ¬ c.spent moves ticks < c.repeatDuration) (hpos : c.repeatDuration ≠ 0)
    (hon : l.on = l.en) : Plays c now moves ticks l.endCommand.apply := by
  have h' : Counts c now moves ticks l.endCommand := h.congr
  exact h'.apply (decide_eq_false fun h'' => h''.elim hpos hspent).symm hon

/-- The start of a command. -/
theorem plays_commandApply (now : ℕ) (huse : l.inUse) (hon : l.on = l.en) (c : AppLedCommand) :
    Plays c now 0 0 (l.commandApply now c) := by
  have hspent : c.spent 0 0 = 0 := by
    unfold AppLedCommand.spent
    split <;> rfl
  have hactive : true = decide (c.repeatDuration = 0 ∨ c.spent 0 0 < c.repeatDuration) := by
    rw [hspent]
    exact (decide_eq_true (by omega)).symm
  unfold commandApply
  refine Counts.apply ?_ hactive hon
  refine ⟨huse, rfl, rfl, spaced_singleton _ _, spaced_singleton _ _, rfl, rfl, Nat.le_refl _,
    Nat.le_refl _, rfl, ?_, fun _ => Nat.zero_le _, ?_⟩
  · rw [hspent]
    exact Nat.zero_le _
  · rw [hspent]
    rfl

/-- A count down of what is not spent. -/
theorem decrease_repeatDuration (hc : c.Valid) {n : ℕ} (hn : n < c.repeatDuration) :
    { c with repeatDuration := c.repeatDuration - n }.decrease =
      { c with repeatDuration := c.repeatDuration - (n + 1) } := by
  have hlt := hc.repeatDuration_lt
  have : (c.repeatDuration - n + 32767) % 32768 = c.repeatDuration - (n + 1) := by omega
  simp only [AppLedCommand.decrease, this]

/-- The offset moves down, and from 0 to 39. -/
theorem Counts.bitOffset_succ (h : Counts c now moves ticks l) :
    (if l.bitOffset = 0 then 39 else l.bitOffset - 1) % 40 = 39 - (moves + 1) % 40 := by
  rw [h.bitOffset]
  split <;> omega

/-- With the last bit of the pattern a round is over. -/
theorem spent_moves_succ (c : AppLedCommand) (moves ticks : ℕ) :
    c.spent (moves + 1) ticks =
      if 39 - (moves + 1) % 40 = 39 ∧ c.repeatType = 0 then c.spent moves ticks + 1
      else c.spent moves ticks := by
  unfold AppLedCommand.spent
  by_cases htype : c.repeatType = 0
  · simp only [htype, if_true, and_true]
    split <;> omega
  · simp only [htype, if_false, and_false]

/-- The move to the next bit. -/
theorem Counts.moveBit (hc : c.Valid) (h : Counts c now moves ticks l)
    (hspent : c.spent moves ticks < c.repeatDuration) (hover : l.bitOver now) :
    Counts c now (moves + 1) ticks (l.moveBit now) := by
  have htime : l.bitTimes.getLastD 0 +
      c.bitPeriod (39 - moves % 40) * 2000 * systemTimerTick1us < now := by
    rw [bitOver, h.onOffTime, h.timeout_eq] at hover
    exact lt_of_clockTimeExceed h.onOffTime_le hover
  have htype : l.currentCommand.repeatType = c.repeatType := by rw [h.command]
  refine ⟨h.inUse, ?_, h.length_tickTimes, h.spaced_bitTimes.concat h.length_bitTimes htime,
    h.spaced_tickTimes, ?_, h.repeatTime, ?_, h.repeatTime_le, h.bitOffset_succ, ?_, ?_, ?_⟩
  · simp only [Led.moveBit, List.length_append, h.length_bitTimes, List.length_singleton]
  · simp only [Led.moveBit, List.getLastD_concat]
  · simp only [Led.moveBit, List.getLastD_concat, Nat.le_refl]
  · rw [spent_moves_succ]
    split <;> omega
  · intro h0
    rw [AppLedCommand.spent, if_pos h0] at hspent
    omega
  · simp only [Led.moveBit, h.bitOffset_succ, htype, spent_moves_succ]
    split
    · rw [h.command, decrease_repeatDuration hc hspent]
    · exact h.command

/-- The end of a second. -/
theorem Counts.tick (hc : c.Valid) (h : Counts c now moves ticks l)
    (hspent : c.spent moves ticks < c.repeatDuration) (hover : l.secondOver now) :
    Counts c now moves (ticks + 1) (l.tick now) := by
  obtain ⟨htype, hexceed⟩ := of_decide_eq_true hover
  have htype' : c.repeatType = 1 := by rw [← htype, h.command]
  have hsucc : c.spent moves (ticks + 1) = c.spent moves ticks + 1 := by
    simp [AppLedCommand.spent, htype']
  have htime : l.tickTimes.getLastD 0 + 1000 * 1000 * systemTimerTick1us < now := by
    rw [h.repeatTime] at hexceed
    exact lt_of_clockTimeExceed h.repeatTime_le hexceed
  unfold Led.tick
  refine ⟨h.inUse, h.length_bitTimes, ?_, h.spaced_bitTimes,
    h.spaced_tickTimes.concat h.length_tickTimes htime, h.onOffTime, ?_, h.onOffTime_le, ?_,
    h.bitOffset, ?_, h.moves_le, ?_⟩
  · simp only [List.length_append, h.length_tickTimes, List.length_singleton]
  · simp only [List.getLastD_concat]
  · simp only [List.getLastD_concat, Nat.le_refl]
  · omega
  · simp only [hsucc]
    rw [h.command, decrease_repeatDuration hc hspent]

/-- `c` has something left to count down. -/
def Running (c : AppLedCommand) (moves ticks : ℕ) : Prop :=
  c.spent moves ticks < c.repeatDuration

theorem Plays.congr_now (h : Plays c now moves ticks l) {now' : ℕ} (hnow : now ≤ now') :
    Plays c now' moves ticks l :=
  ⟨h.toCounts.mono hnow, h.active, h.en, h.on⟩

theorem Counts.secondOver_eq (h : Counts c now moves ticks l) (now' : ℕ) :
    l.secondOver now' = decide (c.repeatType = 1 ∧
      clockTimeExceed (u32 now') (u32 (l.tickTimes.getLastD 0)) (1000 * 1000)) := by
  rw [secondOver, h.repeatTime, h.command]

/-- The loop leaves an LED alone that plays no more, or for ever. -/
theorem idLoop_of_not_running (h : Plays c now moves ticks l) (hrun : ¬ Running c moves ticks) :
    l.idLoop now = l := by
  unfold Running at hrun
  unfold idLoop
  by_cases h0 : c.repeatDuration = 0
  · have hzero : l.currentCommand.repeatDuration = 0 := by
      rw [h.command, h0]
      exact Nat.zero_sub _
    rw [if_pos hzero, ite_self]
  · have hactive : l.commandActive = false := by
      rw [h.active]
      exact decide_eq_false (by omega)
    rw [hactive]
    rfl

/-- The driver keeps the level of a command that has something left and is not at a new
bit. -/
theorem level_of_running {ticks' : ℕ} (hrun : Running c moves ticks)
    (hrun' : Running c moves ticks') : c.level moves ticks = c.level moves ticks' := by
  unfold Running at hrun hrun'
  simp only [AppLedCommand.level, hrun, hrun']

/-- What of an LED only `apply` and the end of a command set. -/
structure SameLevel (l l' : Led) : Prop where
  commandActive : l'.commandActive = l.commandActive
  en : l'.en = l.en
  on : l'.on = l.on

theorem sameLevel_moveBit (now : ℕ) (l : Led) : SameLevel l (l.moveBit now) := by
  unfold Led.moveBit
  exact ⟨rfl, rfl, rfl⟩

theorem SameLevel.tick {l l' : Led} (h : SameLevel l l') (now : ℕ) : SameLevel l (l'.tick now) := by
  unfold Led.tick
  exact ⟨h.commandActive, h.en, h.on⟩

theorem tickTimes_moveBit (now : ℕ) (l : Led) : (l.moveBit now).tickTimes = l.tickTimes := by
  unfold Led.moveBit
  rfl

/-- A count goes up where something is over. -/
def upIf (isUp : Bool) (k : ℕ) : ℕ := if isUp then k + 1 else k

theorem Counts.passBit (hc : c.Valid) (h : Counts c now moves ticks l)
    (hrun : Running c moves ticks) :
    Counts c now (upIf (l.bitOver now) moves) ticks (l.passBit now) ∧
      SameLevel l (l.passBit now) ∧ (l.passBit now).tickTimes = l.tickTimes := by
  unfold upIf Led.passBit
  split
  case isTrue hover =>
    exact ⟨h.moveBit hc hrun hover, sameLevel_moveBit now l, tickTimes_moveBit now l⟩
  case isFalse => exact ⟨h, ⟨rfl, rfl, rfl⟩, rfl⟩

/-- Where seconds count, the move of the bit spends nothing. -/
theorem Counts.running_of_secondOver (h : Counts c now moves ticks l)
    (hrun : Running c moves ticks) (hover : l.secondOver now) (moves' : ℕ) :
    Running c moves' ticks := by
  have htype : c.repeatType = 1 := by
    rw [h.secondOver_eq] at hover
    exact (of_decide_eq_true hover).1
  simpa only [Running, AppLedCommand.spent, htype, Nat.one_ne_zero, if_false] using hrun

/-- The pass up to the counts. -/
theorem Counts.pass (hc : c.Valid) (h : Counts c now moves ticks l) (hrun : Running c moves ticks) :
    Counts c now (upIf (l.bitOver now) moves) (upIf (l.secondOver now) ticks)
        ((l.passBit now).passSecond now) ∧
      SameLevel l ((l.passBit now).passSecond now) := by
  obtain ⟨hm, hlevel, htimes⟩ := h.passBit hc hrun
  have hover : (l.passBit now).secondOver now = l.secondOver now := by
    rw [hm.secondOver_eq, h.secondOver_eq, htimes]
  rw [passSecond, hover]
  by_cases hsecond : l.secondOver now
  · have hticks : upIf (l.secondOver now) ticks = ticks + 1 := by rw [upIf, if_pos hsecond]
    rw [if_pos hsecond, hticks]
    exact ⟨hm.tick hc (h.running_of_secondOver hrun hsecond _) (hover.trans hsecond),
      hlevel.tick now⟩
  · have hticks : upIf (l.secondOver now) ticks = ticks := by rw [upIf, if_neg hsecond]
    rw [if_neg hsecond, hticks]
    exact ⟨hm, hlevel⟩

/-- A pass of the loop over an LED that plays. -/
theorem plays_idLoop (hc : c.Valid) (h : Plays c now moves ticks l)
    (hrun : Running c moves ticks) :
    Plays c now (upIf (l.bitOver now) moves) (upIf (l.secondOver now) ticks)
      (l.idLoop now) := by
  have hactive : l.commandActive = true := by
    rw [h.active]
    exact decide_eq_true (.inr hrun)
  have hleft : l.currentCommand.repeatDuration ≠ 0 := by
    rw [h.command]
    exact Nat.sub_ne_zero_of_lt hrun
  have hpos : c.repeatDuration ≠ 0 := Nat.ne_of_gt (Nat.zero_lt_of_lt hrun)
  obtain ⟨hcounts, hlevel⟩ := h.toCounts.pass hc hrun
  unfold idLoop
  rw [hactive, if_neg (by decide), if_neg hleft]
  dsimp only
  generalize (l.passBit now).passSecond now = ticked at hcounts hlevel
  have hon : ticked.on = ticked.en := by rw [hlevel.on, hlevel.en, h.on]
  have hzero : ticked.currentCommand.repeatDuration = 0 ↔
      ¬ Running c (upIf (l.bitOver now) moves) (upIf (l.secondOver now) ticks) := by
    rw [hcounts.command, Running]
    exact Nat.sub_eq_zero_iff_le.trans Nat.not_lt.symm
  by_cases hend : ticked.currentCommand.repeatDuration = 0
  · -- The pass used up the duration: the command is applied once more, as one that is over.
    rw [if_pos hend]
    exact hcounts.apply_ended (hzero.mp hend) hpos hon
  · have hrun' := not_not.mp (mt hzero.mpr hend)
    have hactive' : ticked.commandActive = decide (c.repeatDuration = 0 ∨
        c.spent (upIf (l.bitOver now) moves) (upIf (l.secondOver now) ticks) <
          c.repeatDuration) := by
      rw [hlevel.commandActive, hactive]
      exact (decide_eq_true (.inr hrun')).symm
    rw [if_neg hend]
    by_cases hover : l.bitOver now
    · rw [if_pos hover]
      exact hcounts.apply hactive' hon
    · rw [if_neg hover]
      refine ⟨hcounts, hactive', ?_, hon⟩
      have hup : upIf (l.bitOver now) moves = moves := by rw [upIf, if_neg hover]
      rw [hup] at hrun' ⊢
      rw [hlevel.en, h.en, level_of_running hrun hrun']

/-- What is exceeded by less than a round of the timer, the timer says is exceeded. -/
theorem clockTimeExceed_of_lt {now ref us : ℕ} (hlt : ref + us * systemTimerTick1us < now)
    (hnow : now < ref + 4294967296) : clockTimeExceed (u32 now) (u32 ref) us = true := by
  have hsub : u32Sub (u32 now) (u32 ref) = now - ref := by
    unfold u32Sub u32
    omega
  rw [clockTimeExceed, hsub]
  exact decide_eq_true (by omega)

/-- A pass of the loop leaves the driver at the level that the LED has. -/
theorem on_apply (hon : l.on = l.en) : l.apply.on = l.apply.en := by
  unfold Led.apply
  split
  · rfl
  · exact hon

theorem on_commandApply (now : ℕ) (hon : l.on = l.en) (c : AppLedCommand) :
    (l.commandApply now c).on = (l.commandApply now c).en := by
  unfold commandApply
  exact on_apply hon

theorem sameLevel_pass (now : ℕ) (l : Led) : SameLevel l ((l.passBit now).passSecond now) := by
  have hbit : SameLevel l (l.passBit now) := by
    unfold passBit
    split
    · exact sameLevel_moveBit now l
    · exact ⟨rfl, rfl, rfl⟩
  unfold passSecond
  split
  · exact hbit.tick now
  · exact hbit

theorem on_endCommand (hon : l.on = l.en) : l.endCommand.on = l.endCommand.en := hon

/-- The outcomes of a pass. -/
theorem idLoop_cases (now : ℕ) (l : Led) : l.idLoop now = l ∨
    l.idLoop now = ((l.passBit now).passSecond now).endCommand.apply ∨
    l.idLoop now = ((l.passBit now).passSecond now).apply ∨
    l.idLoop now = (l.passBit now).passSecond now := by
  unfold idLoop
  by_cases hactive : (!l.commandActive) = true
  · exact .inl (if_pos hactive)
  · rw [if_neg hactive]
    by_cases hzero : l.currentCommand.repeatDuration = 0
    · exact .inl (if_pos hzero)
    · rw [if_neg hzero]
      dsimp only
      by_cases hend : ((l.passBit now).passSecond now).currentCommand.repeatDuration = 0
      · exact .inr (.inl (if_pos hend))
      · rw [if_neg hend]
        by_cases hover : l.bitOver now
        · exact .inr (.inr (.inl (if_pos hover)))
        · exact .inr (.inr (.inr (if_neg hover)))

theorem on_idLoop (now : ℕ) (hon : l.on = l.en) : (l.idLoop now).on = (l.idLoop now).en := by
  have hlevel := sameLevel_pass now l
  have hpass : ((l.passBit now).passSecond now).on = ((l.passBit now).passSecond now).en := by
    rw [hlevel.on, hlevel.en, hon]
  rcases idLoop_cases now l with h | h | h | h <;> rw [h]
  · exact hon
  · exact on_apply (on_endCommand hpass)
  · exact on_apply hpass
  · exact hpass

end Led

namespace Leds

/-- The drivers have the levels of the table. -/
def Driven (s : Leds) : Prop := ∀ i, (s.leds i).on = (s.leds i).en

/-- One entry of the table changes. -/
theorem Driven.update {s : Leds} (h : s.Driven) (j : ℕ) {l : Led} (hl : l.on = l.en) (i : ℕ) :
    (Function.update s.leds j l i).on = (Function.update s.leds j l i).en := by
  by_cases hi : i = j
  · rwa [hi, Function.update_self]
  · rw [Function.update_of_ne hi]
    exact h i

theorem driven_step (s : Leds) (call : ℕ × LedCall) (h : s.Driven) (_ : True) :
    (s.step call).Driven := by
  intro i
  obtain ⟨delay, call⟩ := call
  cases call with
  | register =>
    simp only [step, register]
    split
    case h_1 j _ => exact h.update j (l := { s.leds j with inUse := true }) (h j) i
    case h_2 => exact h i
  | commandApply ledId command =>
    simp only [step, commandApply]
    split
    case isTrue => exact h.update ledId (Led.on_commandApply _ (h ledId) command) i
    case isFalse => exact h i
  | loop =>
    simp only [step, loop]
    split
    case isTrue => exact Led.on_idLoop _ (h i)
    case isFalse => exact h i

/-- A call that gives the LED no new command. -/
def Undisturbed (ledId : ℕ) (call : ℕ × LedCall) : Prop :=
  ∀ command, call.2 ≠ .commandApply ledId command

/-- The LED plays `c`. -/
def Playing (ledId : ℕ) (c : AppLedCommand) (s : Leds) : Prop :=
  ∃ moves ticks, (s.leds ledId).Plays c s.now moves ticks

/-- What a call does to an LED in use. -/
theorem leds_step {ledId : ℕ} (hid : ledId < appLedMaxLeds) {s : Leds}
    (huse : (s.leds ledId).inUse) {call : ℕ × LedCall} (hcall : Undisturbed ledId call) :
    (s.step call).leds ledId =
      if call.2 = .loop then (s.leds ledId).idLoop (s.now + call.1) else s.leds ledId := by
  obtain ⟨delay, call⟩ := call
  cases call with
  | register =>
    rw [if_neg (by simp)]
    simp only [step, register]
    split
    case h_1 j hj =>
      -- An LED in use is not free.
      have hj' := List.find?_some hj
      have hne : ledId ≠ j := by
        rintro rfl
        simp [huse] at hj'
      exact Function.update_of_ne hne _ _
    case h_2 => rfl
  | commandApply id command =>
    have hne : ledId ≠ id := by
      rintro rfl
      exact hcall command rfl
    rw [if_neg (by simp)]
    simp only [step, commandApply]
    split
    case isTrue => exact Function.update_of_ne hne _ _
    case isFalse => rfl
  | loop =>
    rw [if_pos rfl]
    simp only [step, loop]
    exact if_pos ⟨hid, huse⟩

theorem now_step (s : Leds) (call : ℕ × LedCall) : (s.step call).now = s.now + call.1 := by
  obtain ⟨delay, call⟩ := call
  cases call with
  | register =>
    simp only [step, register]
    split <;> rfl
  | commandApply id command =>
    simp only [step, commandApply]
    split <;> rfl
  | loop => rfl

/-- A call keeps an LED playing. -/
theorem playing_step {ledId : ℕ} (hid : ledId < appLedMaxLeds) {c : AppLedCommand}
    (hc : c.Valid) (s : Leds) (call : ℕ × LedCall) (h : s.Playing ledId c)
    (hcall : Undisturbed ledId call) : (s.step call).Playing ledId c := by
  obtain ⟨moves, ticks, hplays⟩ := h
  have hplays' := hplays.congr_now (Nat.le_add_right s.now call.1)
  unfold Playing
  rw [now_step, leds_step hid hplays.inUse hcall]
  split
  case isTrue =>
    by_cases hrun : Led.Running c moves ticks
    · exact ⟨_, _, Led.plays_idLoop hc hplays' hrun⟩
    · rw [Led.idLoop_of_not_running hplays' hrun]
      exact ⟨moves, ticks, hplays'⟩
  case isFalse => exact ⟨moves, ticks, hplays'⟩

/-- A pass of the loop that comes after the period of the bit, or after a second, and before
the timer has gone round, moves on. -/
structure MovesOn (ledId : ℕ) (c : AppLedCommand) (s : Leds) (call : ℕ × LedCall) : Prop where
  bit : ∀ moves ticks, (s.leds ledId).Plays c s.now moves ticks → Led.Running c moves ticks →
    call.2 = .loop →
    (s.leds ledId).bitTimes.getLastD 0 +
      c.bitPeriod (39 - moves % 40) * 2000 * systemTimerTick1us < s.now + call.1 →
    s.now + call.1 < (s.leds ledId).bitTimes.getLastD 0 + 4294967296 →
    ∃ ticks', ((s.step call).leds ledId).Plays c (s.now + call.1) (moves + 1) ticks'
  second : ∀ moves ticks, (s.leds ledId).Plays c s.now moves ticks → Led.Running c moves ticks →
    call.2 = .loop → c.repeatType = 1 →
    (s.leds ledId).tickTimes.getLastD 0 + 1000 * 1000 * systemTimerTick1us < s.now + call.1 →
    s.now + call.1 < (s.leds ledId).tickTimes.getLastD 0 + 4294967296 →
    ∃ moves', ((s.step call).leds ledId).Plays c (s.now + call.1) moves' (ticks + 1)

theorem movesOn {ledId : ℕ} (hid : ledId < appLedMaxLeds) {c : AppLedCommand} (hc : c.Valid)
    (s : Leds) (call : ℕ × LedCall) (hcall : Undisturbed ledId call) :
    MovesOn ledId c s call where
  bit moves ticks hplays hrun hloop hafter hbefore := by
    have hplays' := hplays.congr_now (Nat.le_add_right s.now call.1)
    have hpass := Led.plays_idLoop hc hplays' hrun
    have hover : (s.leds ledId).bitOver (s.now + call.1) = true := by
      rw [Led.bitOver, hplays.onOffTime, hplays.timeout_eq]
      exact Led.clockTimeExceed_of_lt hafter hbefore
    rw [Led.upIf, if_pos hover] at hpass
    rw [leds_step hid hplays.inUse hcall, if_pos hloop]
    exact ⟨_, hpass⟩
  second moves ticks hplays hrun hloop htype hafter hbefore := by
    have hplays' := hplays.congr_now (Nat.le_add_right s.now call.1)
    have hpass := Led.plays_idLoop hc hplays' hrun
    have hover : (s.leds ledId).secondOver (s.now + call.1) = true := by
      rw [hplays.secondOver_eq]
      exact decide_eq_true ⟨htype, Led.clockTimeExceed_of_lt hafter hbefore⟩
    rw [Led.upIf.eq_def (Led.secondOver _ _), if_pos hover] at hpass
    rw [leds_step hid hplays.inUse hcall, if_pos hloop]
    exact ⟨_, hpass⟩

/-- A command on an LED in use plays until the LED gets the next one: after `moves` bits and
`ticks` seconds the driver has the level the command asks for then, every bit and every
second was at least as long as it has to be, and a pass of the loop in time moves on. -/
theorem led_plays {ledId : ℕ} (hid : ledId < appLedMaxLeds) {c : AppLedCommand} (hc : c.Valid)
    (before : List (ℕ × LedCall)) (delay : ℕ) (after : List (ℕ × LedCall))
    (huse : ((Machine.run step init before).leds ledId).inUse)
    (hafter : ∀ call ∈ after, Undisturbed ledId call) :
    let s := Machine.run step init (before ++ [(delay, .commandApply ledId c)])
    Machine.Always step (Playing ledId c) s after ∧
      Machine.Along step (MovesOn ledId c) s after := by
  intro s
  have hs : s.Playing ledId c := by
    have hdriven : (Machine.run step init before).Driven :=
      Machine.run_invariant driven_step (fun _ => rfl) (Machine.along_true _ before)
    refine ⟨0, 0, ?_⟩
    unfold s
    rw [Machine.run_append, Machine.run_cons, Machine.run_nil, now_step]
    simp only [step, commandApply]
    rw [if_pos ⟨hid, huse⟩]
    simp only [Function.update_self]
    exact Led.plays_commandApply _ huse (hdriven ledId) c
  have hok : Machine.Along step (fun _ call => Undisturbed ledId call) s after :=
    Machine.along_of_forall_mem s hafter
  exact ⟨Machine.always_of_invariant (playing_step hid hc) (fun _ h => h) hs hok,
    Machine.along_of_invariant (playing_step hid hc)
      (fun s call _ hcall => movesOn hid hc s call hcall) hs hok⟩

/-- A command that blinks once. -/
def blink : AppLedCommand := ⟨0, 0, 0, 0, 1, 1, 1, 0, [0, 0, 0, 0, 0x80]⟩

theorem led_plays_blink :
    let s := Machine.run step init [(5, .register), (10, .commandApply 0 blink)]
    Machine.Always step (Playing 0 blink) s [(40000, .loop)] ∧
      Machine.Along step (MovesOn 0 blink) s [(40000, .loop)] :=
  led_plays (by decide) ⟨by decide, by decide, by decide, by decide⟩ [(5, .register)] 10
    [(40000, .loop)] rfl fun call hcall command => by
      rw [List.mem_singleton.mp hcall]
      exact LedCall.noConfusion

end Leds
end TlBleSdk.Esl
