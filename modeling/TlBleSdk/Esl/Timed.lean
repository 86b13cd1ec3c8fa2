import TlBleSdk.Lib.Deadline
import TlBleSdk.Esl.Pending

/-!
# Timed commands on the clock of the label

The clock of the label counts milliseconds in `u32`, and a timed command waits until the loop
finds its time between the last two values of the clock. Beside it runs a deadline queue, whose
clock does not wrap: it is told what was accepted or deleted, and how far the clock moved. As
long as the clock moves in every loop, and no command has the very time of the clock, both
fire the same commands in the same loops.
-/

namespace TlBleSdk.Esl

open Hci EslApp Deadline

namespace EslApp

/-- `currentTimeLoop` gets behind its condition. -/
def loopRuns (s : EslApp) (now : ℕ) : Bool :=
  s.currentTime.active && clockTimeExceed now s.currentTime.lastTick 1000

/-- The milliseconds that the loop adds to the timer. -/
def loopDelta (s : EslApp) (tick : ℕ) : ℕ :=
  u32Sub tick s.currentTime.lastTick / (systemTimerTick1us * 1000)

end EslApp

/-! ## The queue beside the label -/

/-- The pending commands, with the time they have in `u32`. -/
abbrev TimedQueue := Queue Slot (ℕ × TimedAction)

/-- A timed command in the queue. -/
def TimedQueue.record (q : TimedQueue) (k : Slot) (delay : ℕ) (item : ℕ × TimedAction) :
    TimedResult → TimedQueue
  | .accepted => q.schedule k delay item
  | .deleted => q.cancel k
  | _ => q

/-- The time ahead of the clock, where it is plausible. A time behind the clock is reached. -/
def timeAhead (timer time : ℕ) : ℕ :=
  if u32Sub time timer ≤ implausibleTimeOffsetMs then u32Sub time timer else 0

/-- What an event does to the queue. -/
def queueStep (s : EslApp) (q : TimedQueue) : EslEvent → TimedQueue
  | .time time _ => q.retime fun p => timeAhead time p.1
  | .loop now tick _ => if s.loopRuns now then q.advance slots (s.loopDelta tick) else q
  | .command env c =>
    match c.body with
    | .ledTimedControl ledId params time =>
      TimedQueue.record q (.led ledId) (u32Sub time s.currentTime.timer)
        (time, .led ledId params.toCommand) (s.ledTimedControl ledId params time).2
    | .displayTimedImage displayId imageId time =>
      TimedQueue.record q (.display displayId) (u32Sub time s.currentTime.timer)
        (time, .display displayId imageId) (displayTimedImage env s displayId imageId time).2
    | _ => q

/-- The label and the queue. -/
def timedStep (p : EslApp × TimedQueue) (ev : EslEvent) : EslApp × TimedQueue :=
  (eslStep p.1 ev, queueStep p.1 p.2 ev)

/-- The label applied what the queue fired, and both wait for the same commands. -/
structure TimedOk (p : EslApp × TimedQueue) : Prop where
  fired : p.1.fired = p.2.fired.map Prod.snd
  pending : ∀ k, p.1.slotPending k = (p.2.pending k).map Prod.snd

/-- A command that is accepted does not lie in the past of the clock. -/
def NotPast (s : EslApp) : EslEvent → Prop
  | .command env c =>
    match c.body with
    | .ledTimedControl ledId params time =>
      (s.ledTimedControl ledId params time).2 = .accepted →
        u32Sub time s.currentTime.timer ≤ implausibleTimeOffsetMs
    | .displayTimedImage displayId imageId time =>
      (displayTimedImage env s displayId imageId time).2 = .accepted →
        u32Sub time s.currentTime.timer ≤ implausibleTimeOffsetMs
    | _ => True
  | _ => True

/-- Times and ticks are of the type `u32`. -/
def EslEvent.WellFormed : EslEvent → Prop
  | .time t now => t < 4294967296 ∧ now < 4294967296
  | .loop _ tick _ => tick < 4294967296
  | .command _ c =>
    match c.body with
    | .ledTimedControl _ _ t => t < 4294967296
    | .displayTimedImage _ _ t => t < 4294967296
    | _ => True

/-- The time is not that of the clock, and where it is below the clock, it is so across the
wrap. -/
def TimeAhead (s : EslApp) (time : ℕ) : Prop :=
  time ≠ s.currentTime.timer ∧
    (time < s.currentTime.timer → u32Sub time s.currentTime.timer ≤ implausibleTimeOffsetMs)

/-- The clock is not set to or past the time of a pending command. The loop finds the clock
moved by a millisecond. An accepted command is for a LED or display there is, and its time is
ahead. A display has no pending command to delete. -/
def TimedCond (s : EslApp) : EslEvent → Prop
  | .time time _ => ∀ k p, s.slotPending k = some p →
      0 < u32Sub p.1 time ∧ u32Sub p.1 time ≤ implausibleTimeOffsetMs
  | .loop now tick _ => s.loopRuns now = true → 0 < s.loopDelta tick
  | .command env c =>
    match c.body with
    | .ledTimedControl ledId params time =>
      (s.ledTimedControl ledId params time).2 = .accepted →
        ledId < eslsLedsSupported ∧ TimeAhead s time
    | .displayTimedImage displayId imageId time =>
      (displayTimedImage env s displayId imageId time).2 ≠ .deleted ∧
        ((displayTimedImage env s displayId imageId time).2 = .accepted →
          displayId < eslsDisplaysSupported ∧ TimeAhead s time)
    | _ => True

/-! ## The comparison across the wrap -/

/-- A time ahead of the clock is expired when the clock moved at least as far. -/
theorem currentTimeExpired_iff {prev time delta : ℕ} (hprev : prev < 4294967296)
    (htime : time < 4294967296) (hahead : 0 < u32Sub time prev) (hdelta : 0 < delta)
    (hlt : delta < 4294967296) :
    currentTimeExpired prev (u32 (prev + delta)) time = true ↔ u32Sub time prev ≤ delta := by
  unfold u32Sub u32 at *
  unfold currentTimeExpired
  split
  · rw [decide_eq_true_eq]
    omega
  · rw [decide_eq_true_eq]
    omega

/-- What is left of the time ahead when the clock moved. -/
theorem u32Sub_advance {prev time delta : ℕ} (htime : time < 4294967296)
    (hlt : delta < u32Sub time prev) :
    u32Sub time (u32 (prev + delta)) = u32Sub time prev - delta := by
  unfold u32Sub u32 at *
  omega

theorem u32Sub_pos_of_ne {a b : ℕ} (ha : a < 4294967296) (hb : b < 4294967296) (hne : a ≠ b) :
    0 < u32Sub a b := by
  unfold u32Sub u32
  omega

theorem loopDelta_lt (s : EslApp) (tick : ℕ) : s.loopDelta tick < 4294967296 := by
  unfold loopDelta u32Sub u32 systemTimerTick1us
  omega

/-! ## The loop and the queue -/

/-- Within the loop: the deadlines count from the clock `base` before the loop, where the timer
was `prev`, and both clocks have moved by `delta`. -/
structure LoopRel (prev base delta : ℕ) (s : EslApp) (q : TimedQueue) : Prop where
  fired : s.fired = q.fired.map Prod.snd
  now : q.now = base + delta
  pending : ∀ k, q.pending k = (s.slotPending k).map fun p => (base + u32Sub p.1 prev, p)
  ahead : ∀ k p, s.slotPending k = some p → 0 < u32Sub p.1 prev ∧ p.1 < 4294967296

/-- What a slot of the loop leaves pending was pending, and what it leaves in this slot is not
due. -/
structure SlotLeft (prev delta : ℕ) (s s' : EslApp) (k : Slot) : Prop where
  sub : ∀ k' p, s'.slotPending k' = some p → s.slotPending k' = some p
  notDue : ∀ p, s'.slotPending k = some p → delta < u32Sub p.1 prev
  clock : s'.currentTime = s.currentTime

section Loop

variable {prev base delta : ℕ} {s : EslApp} {q : TimedQueue}

/-- A slot without an action, or with one that is later, is left alone. -/
theorem LoopRel.slot_left (h : LoopRel prev base delta s q) {k : Slot}
    (hleft : ∀ p, s.slotPending k = some p → delta < u32Sub p.1 prev) :
    LoopRel prev base delta s q ∧ SlotLeft prev delta s s k :=
  ⟨h, fun _ _ hp => hp, hleft, rfl⟩

/-- A slot that is due runs its action and empties. -/
theorem LoopRel.slot_due (h : LoopRel prev base delta s q) {k : Slot} {p : ℕ × TimedAction}
    {next : ℕ} (hs : s.slotPending k = some p) (hexp : currentTimeExpired prev next p.1 = true)
    (hdue : u32Sub p.1 prev ≤ delta) :
    LoopRel prev base delta (loopSlot prev next s k) (q.fire k) ∧
      SlotLeft prev delta s (loopSlot prev next s k) k := by
  have hq := h.pending k
  rw [hs, Option.map_some] at hq
  have hle : base + u32Sub p.1 prev ≤ q.now := by
    rw [h.now]
    omega
  obtain ⟨hpend, hfired, hclock⟩ := loopSlot_due hs hexp
  rw [Queue.fire_due hq hle]
  -- what is pending then was pending, in another slot
  have hkept : ∀ k' p', (loopSlot prev next s k).slotPending k' = some p' →
      k' ≠ k ∧ s.slotPending k' = some p' := by
    intro k' p' hp'
    rw [hpend] at hp'
    by_cases hk : k' = k
    · subst hk
      rw [Function.update_self] at hp'
      cases hp'
    · rw [Function.update_of_ne hk] at hp'
      exact ⟨hk, hp'⟩
  refine ⟨⟨?_, h.now, ?_, ?_⟩, ?_, ?_, hclock⟩
  · rw [hfired, h.fired, List.map_append]
    rfl
  · intro k'
    show Function.update q.pending k none k' = _
    rw [hpend]
    by_cases hk : k' = k
    · subst hk
      rw [Function.update_self, Function.update_self]
      rfl
    · rw [Function.update_of_ne hk, Function.update_of_ne hk]
      exact h.pending k'
  · intro k' p' hp'
    exact h.ahead k' p' (hkept k' p' hp').2
  · intro k' p' hp'
    exact (hkept k' p' hp').2
  · intro p' hp'
    exact absurd rfl (hkept k p' hp').1

/-- A slot in the loop does what the queue does under the same key. -/
theorem LoopRel.slot (h : LoopRel prev base delta s q) (hprev : prev < 4294967296)
    (hdelta : 0 < delta) (hlt : delta < 4294967296) (k : Slot) :
    LoopRel prev base delta (loopSlot prev (u32 (prev + delta)) s k) (q.fire k) ∧
      SlotLeft prev delta s (loopSlot prev (u32 (prev + delta)) s k) k := by
  have hq := h.pending k
  cases hs : s.slotPending k with
  | none =>
    rw [hs, Option.map_none] at hq
    rw [loopSlot_none hs, Queue.fire_none hq]
    refine h.slot_left fun p hp => ?_
    rw [hs] at hp
    cases hp
  | some p =>
    rw [hs, Option.map_some] at hq
    obtain ⟨hahead, htime⟩ := h.ahead k p hs
    have hexp := currentTimeExpired_iff hprev htime hahead hdelta hlt
    by_cases hdue : u32Sub p.1 prev ≤ delta
    · exact h.slot_due hs (hexp.mpr hdue) hdue
    · have hlate : q.now < base + u32Sub p.1 prev := by
        rw [h.now]
        omega
      have hno : currentTimeExpired prev (u32 (prev + delta)) p.1 = false := by
        rw [← Bool.not_eq_true, hexp]
        exact hdue
      rw [loopSlot_early hs hno, Queue.fire_early hq hlate]
      refine h.slot_left fun p' hp' => ?_
      rw [hs] at hp'
      cases hp'
      omega

/-- The loop over some slots does what the queue does under their keys. -/
theorem LoopRel.slots (hprev : prev < 4294967296) (hdelta : 0 < delta)
    (hlt : delta < 4294967296) (ks : List Slot) (s : EslApp) (q : TimedQueue)
    (h : LoopRel prev base delta s q) :
    LoopRel prev base delta (ks.foldl (loopSlot prev (u32 (prev + delta))) s)
        (ks.foldl Queue.fire q) ∧
      ∀ k ∈ ks, SlotLeft prev delta s (ks.foldl (loopSlot prev (u32 (prev + delta))) s) k := by
  have hsub : ∀ (ks : List Slot) (s : EslApp) (q : TimedQueue), LoopRel prev base delta s q →
      (∀ k' p, (ks.foldl (loopSlot prev (u32 (prev + delta))) s).slotPending k' = some p →
        s.slotPending k' = some p) ∧
      (ks.foldl (loopSlot prev (u32 (prev + delta))) s).currentTime = s.currentTime := by
    intro ks
    induction ks with
    | nil => exact fun _ _ _ => ⟨fun _ _ hp => hp, rfl⟩
    | cons k ks ih =>
      intro s q h
      obtain ⟨hrel, hleft⟩ := h.slot hprev hdelta hlt k
      obtain ⟨hsub, hclock⟩ := ih _ _ hrel
      exact ⟨fun k' p hp => hleft.sub k' p (hsub k' p hp), hclock.trans hleft.clock⟩
  induction ks generalizing s q with
  | nil => exact ⟨h, fun k hk => absurd hk List.not_mem_nil⟩
  | cons k ks ih =>
    obtain ⟨hrel, hleft⟩ := h.slot hprev hdelta hlt k
    obtain ⟨hrel', hleft'⟩ := ih _ _ hrel
    obtain ⟨hmono, hclock⟩ := hsub ks _ _ hrel
    refine ⟨hrel', fun k' hk' => ⟨?_, ?_, hclock.trans hleft.clock⟩⟩
    · exact fun k'' p hp => hleft.sub k'' p (hmono k'' p hp)
    · rcases List.mem_cons.mp hk' with rfl | hk'
      · exact fun p hp => hleft.notDue p (hmono k' p hp)
      · exact (hleft' k' hk').notDue

end Loop

/-! ## The simulation -/

/-- Between the events: the deadline of a pending command is as far ahead of the clock of the
queue as its time is ahead of the timer. -/
structure TimedSim (p : EslApp × TimedQueue) : Prop where
  fired : p.1.fired = p.2.fired.map Prod.snd
  pending : ∀ k, p.2.pending k = (p.1.slotPending k).map fun item =>
    (p.2.now + u32Sub item.1 p.1.currentTime.timer, item)
  ahead : ∀ k item, p.1.slotPending k = some item →
    0 < u32Sub item.1 p.1.currentTime.timer ∧ item.1 < 4294967296 ∧ k ∈ slots
  timer_lt : p.1.currentTime.timer < 4294967296

theorem TimedSim.ok {p : EslApp × TimedQueue} (h : TimedSim p) : TimedOk p where
  fired := h.fired
  pending k := by
    rw [h.pending k, Option.map_map]
    exact Option.map_id'.symm

section Sim

variable {s : EslApp} {q : TimedQueue}

theorem TimedSim.time (h : TimedSim (s, q)) {time now : ℕ} (htime : time < 4294967296)
    (hcond : TimedCond s (.time time now)) : TimedSim (timedStep (s, q) (.time time now)) where
  fired := h.fired
  timer_lt := htime
  pending k := by
    show (q.pending k).map _ = (s.slotPending k).map _
    rw [h.pending k, Option.map_map]
    apply Option.map_congr
    intro item hitem
    obtain ⟨-, hle⟩ := hcond k item hitem
    show (q.now + timeAhead time item.1, item) = (q.now + u32Sub item.1 time, item)
    unfold timeAhead
    rw [if_pos hle]
  ahead k item hitem := by
    obtain ⟨-, hlt, hmem⟩ := h.ahead k item hitem
    exact ⟨(hcond k item hitem).1, hlt, hmem⟩

theorem timer_advanceTimer (s : EslApp) (tick : ℕ) :
    (s.advanceTimer tick).currentTime.timer =
      u32 (s.currentTime.timer + s.loopDelta tick) := by
  unfold advanceTimer loopDelta
  rfl

/-- The service flag has nothing to do with the timed commands. -/
theorem TimedSim.checkServiceNeeded (h : TimedSim (s, q)) (later : ℕ) :
    TimedSim (s.checkServiceNeeded later, q) := by
  unfold EslApp.checkServiceNeeded
  split
  · exact ⟨h.fired, h.pending, h.ahead, h.timer_lt⟩
  · exact h

theorem TimedSim.timedLoop (h : TimedSim (s, q)) {tick : ℕ} (hdelta : 0 < s.loopDelta tick) :
    TimedSim (s.timedLoop tick, q.advance slots (s.loopDelta tick)) := by
  have hlt := loopDelta_lt s tick
  have hrel : LoopRel s.currentTime.timer q.now (s.loopDelta tick) (s.advanceTimer tick)
      { q with now := q.now + s.loopDelta tick } := by
    refine ⟨?_, rfl, ?_, ?_⟩
    · rw [fired_advanceTimer]
      exact h.fired
    · rw [slotPending_advanceTimer]
      exact h.pending
    · rw [slotPending_advanceTimer]
      exact fun k p hp => ⟨(h.ahead k p hp).1, (h.ahead k p hp).2.1⟩
  obtain ⟨hend, hleft⟩ := LoopRel.slots h.timer_lt hdelta hlt slots _ _ hrel
  unfold EslApp.timedLoop Queue.advance
  rw [fireTimed_eq_foldl, timer_advanceTimer]
  generalize slots.foldl (loopSlot _ _) _ = s' at hend hleft
  generalize slots.foldl Queue.fire _ = q' at hend
  have hmem : Slot.led 0 ∈ slots := by decide
  have hclock : s'.currentTime.timer = u32 (s.currentTime.timer + s.loopDelta tick) := by
    rw [(hleft _ hmem).clock, timer_advanceTimer]
  -- what the loop left pending was pending, in a slot that it looked at
  have hdue : ∀ k p, s'.slotPending k = some p →
      s.loopDelta tick < u32Sub p.1 s.currentTime.timer ∧ p.1 < 4294967296 ∧ k ∈ slots := by
    intro k p hp
    have hold := (hleft _ hmem).sub k p hp
    rw [slotPending_advanceTimer] at hold
    obtain ⟨-, htime, hk⟩ := h.ahead k p hold
    exact ⟨(hleft k hk).notDue p hp, htime, hk⟩
  refine ⟨hend.fired, ?_, ?_, ?_⟩
  · intro k
    show q'.pending k = _
    rw [hend.pending k]
    apply Option.map_congr
    intro p hp
    obtain ⟨hlate, htime, -⟩ := hdue k p hp
    show (_, p) = (q'.now + u32Sub p.1 s'.currentTime.timer, p)
    rw [hclock, hend.now, u32Sub_advance htime hlate, Nat.add_assoc,
      Nat.add_sub_cancel' (Nat.le_of_lt hlate)]
  · intro k p hp
    obtain ⟨hlate, htime, hk⟩ := hdue k p hp
    show 0 < u32Sub p.1 s'.currentTime.timer ∧ _
    rw [hclock, u32Sub_advance htime hlate]
    exact ⟨Nat.sub_pos_of_lt hlate, htime, hk⟩
  · show s'.currentTime.timer < 4294967296
    rw [hclock]
    exact Nat.mod_lt _ (by decide)

theorem TimedSim.loop (h : TimedSim (s, q)) {now tick later : ℕ}
    (hcond : TimedCond s (.loop now tick later)) :
    TimedSim (timedStep (s, q) (.loop now tick later)) := by
  show TimedSim (s.currentTimeLoop now tick later, queueStep s q (.loop now tick later))
  unfold currentTimeLoop queueStep
  change TimedSim (if s.loopRuns now then _ else _, if s.loopRuns now then _ else _)
  by_cases hrun : s.loopRuns now = true
  · rw [if_pos hrun, if_pos hrun]
    exact (h.timedLoop (hcond hrun)).checkServiceNeeded later
  · rw [if_neg hrun, if_neg hrun]
    exact h.checkServiceNeeded later

/-! ## Commands -/

/-- What the end of a timed command says about the slot. -/
def slotBehind (s : EslApp) (k : Slot) (item : ℕ × TimedAction) :
    TimedResult → Slot → Option (ℕ × TimedAction)
  | .accepted => Function.update s.slotPending k (some item)
  | .deleted => Function.update s.slotPending k none
  | _ => s.slotPending

theorem ledTimedControl_slot (s : EslApp) (ledId : ℕ) (params : EslLedParams) (time : ℕ) :
    (s.ledTimedControl ledId params time).1.slotPending =
        slotBehind s (.led ledId) (time, .led ledId params.toCommand)
          (s.ledTimedControl ledId params time).2 ∧
      (s.ledTimedControl ledId params time).1.fired = s.fired ∧
      (s.ledTimedControl ledId params time).1.currentTime = s.currentTime ∧
      ((s.ledTimedControl ledId params time).2 = .accepted →
        s.currentTimeCheckTimedCommand time = true) := by
  unfold ledTimedControl
  dsimp only
  split
  · exact ⟨slotPending_setLed s ledId _, rfl, rfl, by simp⟩
  · split
    · exact ⟨rfl, rfl, rfl, by simp⟩
    · split
      · exact ⟨rfl, rfl, rfl, by simp⟩
      case isFalse hcheck =>
        exact ⟨slotPending_setLed s ledId _, rfl, rfl, fun _ => by simpa using hcheck⟩

theorem displayTimedImage_slot (env : EslEnv) (s : EslApp) (displayId imageId time : ℕ)
    (hdel : (displayTimedImage env s displayId imageId time).2 ≠ .deleted) :
    (displayTimedImage env s displayId imageId time).1.slotPending =
        slotBehind s (.display displayId) (time, .display displayId imageId)
          (displayTimedImage env s displayId imageId time).2 ∧
      (displayTimedImage env s displayId imageId time).1.fired = s.fired ∧
      (displayTimedImage env s displayId imageId time).1.currentTime = s.currentTime ∧
      ((displayTimedImage env s displayId imageId time).2 = .accepted →
        s.currentTimeCheckTimedCommand time = true) := by
  unfold displayTimedImage at hdel ⊢
  dsimp only at hdel ⊢
  split at hdel
  case isTrue havail =>
    rw [if_pos havail]
    exact ⟨rfl, rfl, rfl, by simp⟩
  case isFalse havail =>
    rw [if_neg havail]
    split at hdel
    · exact absurd rfl hdel
    case isFalse hzero =>
      rw [if_neg hzero]
      split
      · exact ⟨rfl, rfl, rfl, by simp⟩
      · split
        · exact ⟨rfl, rfl, rfl, by simp⟩
        case isFalse hcheck =>
          exact ⟨slotPending_setDisplay s displayId _, rfl, rfl, fun _ => by simpa using hcheck⟩

/-- A step that leaves the slots and the clock alone. -/
theorem TimedSim.same (h : TimedSim (s, q)) {s' : EslApp} (hslot : s'.slotPending = s.slotPending)
    (hfired : s'.fired = s.fired) (hclock : s'.currentTime = s.currentTime) :
    TimedSim (s', q) := by
  refine ⟨hfired.trans h.fired, ?_, ?_, ?_⟩
  · show ∀ k, q.pending k = (s'.slotPending k).map fun item =>
      (q.now + u32Sub item.1 s'.currentTime.timer, item)
    rw [hslot, hclock]
    exact h.pending
  · show ∀ k item, s'.slotPending k = some item →
      0 < u32Sub item.1 s'.currentTime.timer ∧ item.1 < 4294967296 ∧ k ∈ slots
    rw [hslot, hclock]
    exact h.ahead
  · show s'.currentTime.timer < 4294967296
    rw [hclock]
    exact h.timer_lt

/-- A step that changes one slot, in the label and in the queue. -/
theorem TimedSim.update (h : TimedSim (s, q)) {s' : EslApp} {k : Slot}
    {new : Option (ℕ × TimedAction)} (hslot : s'.slotPending = Function.update s.slotPending k new)
    (hfired : s'.fired = s.fired) (hclock : s'.currentTime = s.currentTime)
    (hnew : ∀ item, new = some item →
      0 < u32Sub item.1 s.currentTime.timer ∧ item.1 < 4294967296 ∧ k ∈ slots) :
    TimedSim (s', ⟨q.now, Function.update q.pending k (new.map fun item =>
      (q.now + u32Sub item.1 s.currentTime.timer, item)), q.fired⟩) := by
  refine ⟨hfired.trans h.fired, ?_, ?_, ?_⟩
  · intro k'
    show Function.update q.pending k _ k' = (s'.slotPending k').map fun item =>
      (q.now + u32Sub item.1 s'.currentTime.timer, item)
    rw [hslot, hclock]
    by_cases hk : k' = k
    · subst hk
      rw [Function.update_self, Function.update_self]
    · rw [Function.update_of_ne hk, Function.update_of_ne hk]
      exact h.pending k'
  · intro k' item hitem
    change s'.slotPending k' = some item at hitem
    show 0 < u32Sub item.1 s'.currentTime.timer ∧ _
    rw [hclock]
    rw [hslot] at hitem
    by_cases hk : k' = k
    · subst hk
      rw [Function.update_self] at hitem
      exact hnew item hitem
    · rw [Function.update_of_ne hk] at hitem
      exact h.ahead k' item hitem
  · show s'.currentTime.timer < 4294967296
    rw [hclock]
    exact h.timer_lt

/-- A timed command, as the queue is told. -/
theorem TimedSim.record (h : TimedSim (s, q)) {s' : EslApp} {k : Slot}
    {item : ℕ × TimedAction} {result : TimedResult}
    (hslot : s'.slotPending = slotBehind s k item result) (hfired : s'.fired = s.fired)
    (hclock : s'.currentTime = s.currentTime)
    (haccept : result = .accepted →
      0 < u32Sub item.1 s.currentTime.timer ∧ item.1 < 4294967296 ∧ k ∈ slots) :
    TimedSim (s', TimedQueue.record q k (u32Sub item.1 s.currentTime.timer) item result) := by
  cases result with
  | queueFull => exact h.same hslot hfired hclock
  | implausibleTime => exact h.same hslot hfired hclock
  | imageNotAvailable => exact h.same hslot hfired hclock
  | deleted =>
    have hnone : ∀ item' : ℕ × TimedAction, none = some item' →
        0 < u32Sub item'.1 s.currentTime.timer ∧ item'.1 < 4294967296 ∧ k ∈ slots :=
      fun _ hno => nomatch hno
    exact h.update hslot hfired hclock hnone
  | accepted =>
    have hsome : ∀ item', some item = some item' →
        0 < u32Sub item'.1 s.currentTime.timer ∧ item'.1 < 4294967296 ∧ k ∈ slots := by
      rintro _ ⟨⟩
      exact haccept rfl
    exact h.update hslot hfired hclock hsome

theorem TimedSim.command (h : TimedSim (s, q)) {env : EslEnv} {c : EslCommand}
    (hwf : EslEvent.WellFormed (.command env c)) (hcond : TimedCond s (.command env c)) :
    TimedSim (timedStep (s, q) (.command env c)) := by
  rcases c with ⟨eslId, body⟩
  cases body with
  | ledTimedControl ledId params time =>
    obtain ⟨hslot, hfired, hclock, -⟩ := ledTimedControl_slot s ledId params time
    refine h.record hslot hfired hclock fun hacc => ?_
    obtain ⟨hid, hne, -⟩ := hcond hacc
    refine ⟨u32Sub_pos_of_ne hwf h.timer_lt hne, hwf, ?_⟩
    exact List.mem_append_left _ (List.mem_map_of_mem (List.mem_range.mpr hid))
  | displayTimedImage displayId imageId time =>
    obtain ⟨hdel, hcond⟩ := hcond
    obtain ⟨hslot, hfired, hclock, -⟩ := displayTimedImage_slot env s displayId imageId time hdel
    refine h.record hslot hfired hclock fun hacc => ?_
    obtain ⟨hid, hne, -⟩ := hcond hacc
    refine ⟨u32Sub_pos_of_ne hwf h.timer_lt hne, hwf, ?_⟩
    exact List.mem_append_right _ (List.mem_map_of_mem (List.mem_range.mpr hid))
  | displayImage displayId imageId =>
    show TimedSim ((handleCommand env s ⟨eslId, .displayImage displayId imageId⟩).1, q)
    unfold handleCommand
    dsimp only
    split
    · refine h.same ?_ rfl rfl
      rw [slotPending_setDisplay]
      dsimp only
      rw [← slotPending_display, Function.update_eq_self]
    · exact h
  | _ => exact h.same rfl rfl rfl

/-- Every event keeps the simulation. -/
theorem TimedSim.step {p : EslApp × TimedQueue} (h : TimedSim p) {ev : EslEvent}
    (hwf : ev.WellFormed) (hcond : TimedCond p.1 ev) : TimedSim (timedStep p ev) := by
  cases ev with
  | time time now => exact TimedSim.time h hwf.1 hcond
  | loop now tick later => exact TimedSim.loop h hcond
  | command env c => exact TimedSim.command h hwf hcond

/-- A time that is ahead and passes the check is not in the past. -/
theorem notPast_of_cond (s : EslApp) {ev : EslEvent} (hwf : ev.WellFormed)
    (hcond : TimedCond s ev) : NotPast s ev := by
  have hcheck : ∀ time, time < 4294967296 → s.currentTimeCheckTimedCommand time = true →
      TimeAhead s time → u32Sub time s.currentTime.timer ≤ implausibleTimeOffsetMs := by
    intro time htime hcheck hahead
    unfold currentTimeCheckTimedCommand at hcheck
    split at hcheck
    · cases hcheck
    · split at hcheck
      case isTrue hle =>
        rw [u32Sub_of_le hle htime]
        exact of_decide_eq_true hcheck
      case isFalse hlt => exact hahead.2 (Nat.lt_of_not_le hlt)
  cases ev with
  | time time now => trivial
  | loop now tick later => trivial
  | command env c =>
    rcases c with ⟨eslId, body⟩
    cases body with
    | ledTimedControl ledId params time =>
      intro hacc
      exact hcheck time hwf ((ledTimedControl_slot s ledId params time).2.2.2 hacc) (hcond hacc).2
    | displayTimedImage displayId imageId time =>
      intro hacc
      exact hcheck time hwf
        ((displayTimedImage_slot env s displayId imageId time hcond.1).2.2.2 hacc)
        (hcond.2 hacc).2
    | _ => trivial

end Sim

/-- The label and the queue at power-on. -/
theorem TimedSim.powerOn : TimedSim (powerOn, Queue.empty) where
  fired := rfl
  pending k := by
    cases k with
    | led ledId => rfl
    | display displayId => rfl
  ahead k item hitem := by
    cases k with
    | led ledId => cases hitem
    | display displayId => cases hitem
  timer_lt := by decide

/-- In every run whose steps meet the condition, the label applies the timed commands that the
queue fires, in the same loops, and accepts none whose time lies in the past. -/
theorem timed_commands (evs : List EslEvent) (hwf : ∀ ev ∈ evs, ev.WellFormed)
    (hcond : Machine.Along timedStep (fun p ev => TimedCond p.1 ev) (powerOn, Queue.empty) evs) :
    Machine.Always timedStep TimedOk (powerOn, Queue.empty) evs ∧
      Machine.Along timedStep (fun p ev => NotPast p.1 ev) (powerOn, Queue.empty) evs := by
  have hstart := TimedSim.powerOn
  generalize (powerOn, (Queue.empty : TimedQueue)) = p at hcond hstart
  induction evs generalizing p with
  | nil => exact ⟨hstart.ok, trivial⟩
  | cons ev evs ih =>
    have hev := hwf ev List.mem_cons_self
    have hstep := hstart.step hev hcond.1
    obtain ⟨halways, halong⟩ := ih (fun e he => hwf e (List.mem_cons_of_mem _ he)) _ hcond.2 hstep
    exact ⟨⟨hstart.ok, halways⟩, notPast_of_cond p.1 hev hcond.1, halong⟩

/-- A LED command three milliseconds ahead, and a loop four milliseconds later. -/
theorem timed_commands_example :
    Machine.Always timedStep TimedOk (powerOn, Queue.empty)
      [.time 5 0, .command plainEnv ⟨1, .ledTimedControl 0 ⟨0, 0, 0, 0, fun _ => 0, 0, 0⟩ 8⟩,
        .loop 64000 64000 64000] := by
  refine (timed_commands _ ?_ ?_).1
  · intro ev hev
    rcases List.mem_cons.mp hev with rfl | hev
    · exact ⟨by decide, by decide⟩
    rcases List.mem_cons.mp hev with rfl | hev
    · show 8 < 4294967296
      decide
    · rw [List.mem_singleton.mp hev]
      show 64000 < 4294967296
      decide
  · refine ⟨?_, ?_, ?_, trivial⟩
    · intro k p hp
      cases k with
      | led ledId => cases hp
      | display displayId => cases hp
    · exact fun _ => ⟨by decide, by decide, by decide⟩
    · exact fun _ => by decide

/-- A LED command for the very time of the clock is not applied by the next loop. A LED command
for a millisecond ago is accepted. -/
theorem not_timed_example :
    ¬ Machine.Always timedStep TimedOk (powerOn, Queue.empty)
        [.time 5 0, .command plainEnv ⟨1, .ledTimedControl 0 ⟨0, 0, 0, 0, fun _ => 0, 0, 0⟩ 5⟩,
          .loop 64000 64000 64000] ∧
      ¬ Machine.Along timedStep (fun p ev => NotPast p.1 ev) (powerOn, Queue.empty)
        [.time 1000 0,
          .command plainEnv ⟨1, .ledTimedControl 0 ⟨0, 0, 0, 0, fun _ => 0, 0, 0⟩ 999⟩] := by
  constructor
  · intro h
    exact absurd h.last.fired (by decide +kernel)
  · intro h
    exact absurd (h.2.1 (by decide +kernel)) (by decide +kernel)

end TlBleSdk.Esl
