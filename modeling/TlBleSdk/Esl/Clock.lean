import TlBleSdk.Esl.Timed

/-!
# The clock of the label

What `currentTimeCheckTimedCommand` takes for plausible, and how well the clock keeps time.
The timer is moved on by whole milliseconds, from the tick of one move to the tick of the
next; what is left of a millisecond at a move is forgotten. Beside the label runs the time
in ticks, which does not wrap.
-/

namespace TlBleSdk.Esl

open Hci EslApp

/-! ## Plausible times -/

/-- A time is plausible as long as the clock reaches it within `IMPLAUSIBLE_TIME_OFFSET_MS`, which
are 4.8 days, counted in `u32`. -/
def Plausible (s : EslApp) (time : ℕ) : Prop :=
  s.currentTime.active = true ∧ u32Sub time s.currentTime.timer ≤ implausibleTimeOffsetMs

/-- A time that is not below the timer is compared with the limit. Below the timer every time
is taken but one, zero at the last value of the timer: that is right where the time is as
close behind the wrap as the limit says, and is not the one refused. -/
theorem checkTimedCommand_iff (s : EslApp) (time : ℕ) (htimer : s.currentTime.timer < 4294967296)
    (htime : time < 4294967296) :
    (s.currentTimeCheckTimedCommand time = true ↔ Plausible s time) ↔
      (s.currentTime.active = true → s.currentTime.timer ≤ time ∨
        4294967296 ≤ s.currentTime.timer - time + implausibleTimeOffsetMs ∧
          ¬ (s.currentTime.timer = 0xFFFFFFFF ∧ time = 0)) := by
  unfold currentTimeCheckTimedCommand Plausible implausibleTimeOffsetMs u32Sub u32
  cases hactive : s.currentTime.active with
  | false => simp
  | true =>
    simp only [Bool.not_true, Bool.false_eq_true, if_false, true_and, forall_const]
    split <;> rw [decide_eq_true_eq] <;> omega

/-- The clock at ten hours to the wrap, and a time five hours behind it. -/
theorem checkTimedCommand_iff_example :
    4258967296 < 4294967296 ∧ 18000000 < 4294967296 ∧
      (((powerOn.setCurrentTime 4258967296 0).currentTimeCheckTimedCommand 18000000 = true ↔
          Plausible (powerOn.setCurrentTime 4258967296 0) 18000000) ↔
        ((powerOn.setCurrentTime 4258967296 0).currentTime.active = true →
          4258967296 ≤ 18000000 ∨
            4294967296 ≤ 4258967296 - 18000000 + implausibleTimeOffsetMs ∧
              ¬ (4258967296 = 0xFFFFFFFF ∧ 18000000 = 0))) :=
  ⟨by decide, by decide,
    checkTimedCommand_iff (powerOn.setCurrentTime 4258967296 0) 18000000 (by decide) (by decide)⟩

/-- A time a millisecond ago is plausible. -/
theorem not_checkTimedCommand_past :
    ¬ ∀ (s : EslApp) (time : ℕ), s.currentTime.timer < 4294967296 → time < 4294967296 →
      (s.currentTimeCheckTimedCommand time = true ↔ Plausible s time) := by
  intro h
  have hpast := (h (powerOn.setCurrentTime 2 0) 1 (by decide) (by decide)).mp (by decide)
  exact absurd hpast.2 (by decide)

/-! ## The time beside the clock -/

/-- A call of `currentTimeLoop`, with the times at which it reads the clock. -/
structure LoopCall where
  now : ℕ
  tick : ℕ
  later : ℕ

/-- The label since its time was set to `setTo` at the tick `setAt`: when the timer was moved
last, and when the clock was read last. -/
structure ClockRun where
  app : EslApp
  setTo : ℕ
  setAt : ℕ
  last : ℕ
  readAt : ℕ

/-- The ticks of a millisecond. -/
def ticksPerMs : ℕ := systemTimerTick1us * 1000

namespace ClockRun

/-- The time is set. -/
def start (s : EslApp) (setTo setAt : ℕ) : ClockRun where
  app := s.setCurrentTime setTo (u32 setAt)
  setTo := setTo
  setAt := setAt
  last := setAt
  readAt := setAt

/-- A call in the run. A call that moves the timer reads the clock again. -/
def call (r : ClockRun) (c : LoopCall) : ClockRun :=
  { r with
    app := r.app.currentTimeLoop (u32 c.now) (u32 c.tick) (u32 c.later)
    last := if r.app.loopRuns (u32 c.now) then c.tick else r.last
    readAt := if r.app.loopRuns (u32 c.now) then c.tick else c.now }

/-- The timer shows the milliseconds that passed since it was set. -/
def Exact (r : ClockRun) : Prop :=
  r.app.currentTime.timer = u32 (r.setTo + (r.readAt - r.setAt) / ticksPerMs)

/-- The calls follow each other within the range of the clock. -/
def Successive (r : ClockRun) (c : LoopCall) : Prop :=
  r.readAt ≤ c.now ∧ c.now ≤ c.tick ∧ c.tick < r.readAt + 4294967296

/-- The part of a millisecond that was over when the timer was moved last. -/
def rest (r : ClockRun) : ℕ := (r.last - r.setAt) % ticksPerMs

/-- No millisecond is lost. Where the call moves the timer, what was over at the last move and
what is over now are less than a millisecond together; elsewhere the time since the last
move adds no millisecond to it. -/
def KeepsTime (r : ClockRun) (c : LoopCall) : Prop :=
  if r.app.loopRuns (u32 c.now) then
    c.tick - r.last < 4294967296 ∧ r.rest + (c.tick - r.last) % ticksPerMs < ticksPerMs
  else r.rest + (c.now - r.last) < ticksPerMs

instance (r : ClockRun) (c : LoopCall) : Decidable (KeepsTime r c) :=
  inferInstanceAs (Decidable (if r.app.loopRuns (u32 c.now) then
    c.tick - r.last < 4294967296 ∧ r.rest + (c.tick - r.last) % ticksPerMs < ticksPerMs
    else r.rest + (c.now - r.last) < ticksPerMs))

instance (r : ClockRun) (c : LoopCall) : Decidable (Successive r c) :=
  inferInstanceAs (Decidable (_ ∧ _))

instance (r : ClockRun) : Decidable r.Exact := inferInstanceAs (Decidable (_ = _))

/-! ## One call -/

theorem currentTime_loopSlot (prev next : ℕ) (s : EslApp) (k : Slot) :
    (loopSlot prev next s k).currentTime = s.currentTime := by
  cases k with
  | led i =>
    unfold loopSlot ledLoop
    dsimp only
    split <;> rfl
  | display i =>
    unfold loopSlot displayLoop
    dsimp only
    split <;> rfl

theorem currentTime_fireTimed (prev : ℕ) (s : EslApp) :
    (fireTimed prev s).currentTime = s.currentTime := by
  rw [fireTimed_eq_foldl]
  generalize s.currentTime.timer = next
  induction slots generalizing s with
  | nil => rfl
  | cons k ks ih => rw [List.foldl_cons, ih, currentTime_loopSlot]

theorem currentTime_checkServiceNeeded (s : EslApp) (now : ℕ) :
    (s.checkServiceNeeded now).currentTime = s.currentTime := by
  unfold checkServiceNeeded
  split <;> rfl

/-- A call moves the timer on by whole milliseconds, or leaves it. -/
theorem currentTime_call (s : EslApp) (now tick later : ℕ) :
    (s.currentTimeLoop now tick later).currentTime =
      if s.loopRuns now then
        ⟨s.currentTime.active, u32 (s.currentTime.timer + s.loopDelta tick), tick⟩
      else s.currentTime := by
  unfold currentTimeLoop
  change (if s.loopRuns now then _ else _ : EslApp).currentTime = _
  split
  · rw [currentTime_checkServiceNeeded, timedLoop, currentTime_fireTimed]
    rfl
  · exact currentTime_checkServiceNeeded s later

/-- What holds between the calls of a run that keeps time. -/
structure Inv (r : ClockRun) : Prop where
  active : r.app.currentTime.active = true
  lastTick : r.app.currentTime.lastTick = u32 r.last
  timer : r.app.currentTime.timer = u32 (r.setTo + (r.last - r.setAt) / ticksPerMs)
  setAt_le : r.setAt ≤ r.last
  last_le : r.last ≤ r.readAt
  near : r.readAt ≤ r.last + ticksPerMs

theorem inv_start (s : EslApp) (setAt : ℕ) {setTo : ℕ} (h : setTo < 4294967296) :
    (start s setTo setAt).Inv where
  active := rfl
  lastTick := rfl
  timer := by
    simp only [start, setCurrentTime, Nat.sub_self, Nat.zero_div, Nat.add_zero]
    exact (u32_of_lt h).symm
  setAt_le := Nat.le_refl _
  last_le := Nat.le_refl _
  near := Nat.le_add_right _ _

/-- The milliseconds counted at a move are those that passed. -/
theorem move_exact_iff (x a e : ℕ) (he : e < 4294967296 + 16000) :
    u32 (u32 (x + a / 16000) + e % 4294967296 / 16000) = u32 (x + (a + e) / 16000) ↔
      e < 4294967296 ∧ a % 16000 + e % 16000 < 16000 := by
  unfold u32
  omega

/-- No millisecond passed. -/
theorem stay_exact_iff (x a e : ℕ) (he : e < 4294967296 + 16000) :
    u32 (x + a / 16000) = u32 (x + (a + e) / 16000) ↔ a % 16000 + e < 16000 := by
  unfold u32
  omega

theorem u32Sub_u32 {a b : ℕ} (h : b ≤ a) : u32Sub (u32 a) (u32 b) = (a - b) % 4294967296 := by
  unfold u32Sub u32
  omega

/-- A call leaves the timer exact just if no millisecond is lost. -/
theorem Inv.exact_call_iff {r : ClockRun} (h : r.Inv) {c : LoopCall} (hc : Successive r c) :
    (r.call c).Exact ↔ KeepsTime r c := by
  obtain ⟨hnow, htick, hlt⟩ := hc
  have hset := h.setAt_le
  have hlast := h.last_le
  have hnear : r.readAt ≤ r.last + 16000 := h.near
  unfold Exact KeepsTime call rest
  dsimp only
  rw [currentTime_call]
  split
  · have hsum : c.tick - r.setAt = r.last - r.setAt + (c.tick - r.last) := by omega
    have hdelta : r.app.loopDelta (u32 c.tick) =
        (c.tick - r.last) % 4294967296 / 16000 := by
      have hticks : u32Sub (u32 c.tick) r.app.currentTime.lastTick =
          (c.tick - r.last) % 4294967296 := by
        rw [h.lastTick, u32Sub_u32 (by omega)]
      exact congrArg (· / 16000) hticks
    rw [hdelta, h.timer, hsum]
    exact move_exact_iff _ _ _ (by omega)
  · have hsum : c.now - r.setAt = r.last - r.setAt + (c.now - r.last) := by omega
    rw [h.timer, hsum]
    exact stay_exact_iff _ _ _ (by omega)

theorem Inv.call {r : ClockRun} (h : r.Inv) {c : LoopCall} (hc : Successive r c)
    (hexact : (r.call c).Exact) : (r.call c).Inv := by
  have hkeeps := (h.exact_call_iff hc).mp hexact
  obtain ⟨hnow, htick, hlt⟩ := hc
  have hset := h.setAt_le
  have hlast := h.last_le
  unfold Exact at hexact
  unfold KeepsTime at hkeeps
  by_cases hrun : r.app.loopRuns (u32 c.now) = true
  · have hlast' : (r.call c).last = c.tick := if_pos hrun
    have hread' : (r.call c).readAt = c.tick := if_pos hrun
    have htime : (r.call c).app.currentTime = _ := currentTime_call _ _ _ _
    rw [if_pos hrun] at htime
    constructor
    case active =>
      rw [htime]
      exact h.active
    case lastTick => rw [htime, hlast']
    case timer => rw [hexact, hread', hlast']
    case setAt_le =>
      rw [hlast']
      exact Nat.le_trans hset (Nat.le_trans hlast (Nat.le_trans hnow htick))
    case last_le => exact Nat.le_of_eq (hlast'.trans hread'.symm)
    case near =>
      rw [hlast', hread']
      exact Nat.le_add_right _ _
  · have hlast' : (r.call c).last = r.last := if_neg hrun
    have hread' : (r.call c).readAt = c.now := if_neg hrun
    have htime : (r.call c).app.currentTime = _ := currentTime_call _ _ _ _
    rw [if_neg hrun] at htime hkeeps
    constructor
    case active =>
      rw [htime]
      exact h.active
    case lastTick =>
      rw [htime, hlast']
      exact h.lastTick
    case timer =>
      rw [htime, hlast']
      exact h.timer
    case setAt_le =>
      rw [hlast']
      exact hset
    case last_le =>
      rw [hlast', hread']
      exact Nat.le_trans hlast hnow
    case near =>
      rw [hlast', hread']
      omega

/-! ## All calls -/

/-- The clock is exact at every call of a run precisely if no call loses a millisecond. -/
theorem timer_exact_iff (s : EslApp) (setTo setAt : ℕ) (hset : setTo < 4294967296)
    (cs : List LoopCall) (hcs : Machine.Along call Successive (start s setTo setAt) cs) :
    Machine.Always call Exact (start s setTo setAt) cs ↔
      Machine.Along call KeepsTime (start s setTo setAt) cs := by
  have hstart := inv_start s setAt hset
  have hexact : (start s setTo setAt).Exact := by
    have htimer := hstart.timer
    exact htimer
  exact Machine.always_iff_along (fun _ _ h _ hc => h.exact_call_iff hc)
    (fun _ _ h _ hc hP => h.call hc hP) hcs hstart hexact

/-- A call whose clock reads are at one tick. -/
def callAt (tick : ℕ) : LoopCall := ⟨tick, tick, tick⟩

/-- Calls two milliseconds apart keep time. -/
theorem timer_exact_iff_even :
    Machine.Along call Successive (start powerOn 5 0) [callAt 32000, callAt 64000] ∧
      (Machine.Always call Exact (start powerOn 5 0) [callAt 32000, callAt 64000] ↔
        Machine.Along call KeepsTime (start powerOn 5 0) [callAt 32000, callAt 64000]) :=
  have hcs : Machine.Along call Successive (start powerOn 5 0) [callAt 32000, callAt 64000] := by
    decide +kernel
  ⟨hcs, timer_exact_iff powerOn 5 0 (by decide) _ hcs⟩

/-- Calls a millisecond and a half apart count one millisecond each. -/
theorem not_timer_exact_odd :
    ¬ ∀ (s : EslApp) (setTo setAt : ℕ) (cs : List LoopCall), setTo < 4294967296 →
      Machine.Along call Successive (start s setTo setAt) cs →
        Machine.Always call Exact (start s setTo setAt) cs := by
  intro h
  have hodd := h powerOn 5 0 [callAt 24000, callAt 48000] (by decide) (by decide +kernel)
  have htimer : (Machine.run call (start powerOn 5 0) [callAt 24000, callAt 48000]).Exact :=
    hodd.last
  exact absurd htimer (by decide +kernel)

end ClockRun

end TlBleSdk.Esl
