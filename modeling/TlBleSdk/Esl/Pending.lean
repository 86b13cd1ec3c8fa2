import TlBleSdk.Lib.Run
import TlBleSdk.Esl.Defs

/-!
# Pending timed commands

What a timed command is to do with the command that is already pending is one table, for LEDs
and displays alike: `timedRule`. The LED handler follows it, but answers a broadcast command
whose time is implausible. The display handler follows it, but leaves a command pending that a
time of zero is to delete.
-/

namespace TlBleSdk.Esl

open Hci EslApp

/-! ## Events of the application -/

/-- What happens to the label: the event with the current time, a call of `currentTimeLoop`, or
a command. -/
inductive EslEvent
  | time (time now : ℕ)
  | loop (now tick later : ℕ)
  | command (env : EslEnv) (c : EslCommand)

def eslStep (s : EslApp) : EslEvent → EslApp
  | .time time now => s.setCurrentTime time now
  | .loop now tick later => s.currentTimeLoop now tick later
  | .command env c => (handleCommand env s c).1

/-- The handler of the control point is a run of its commands, unless it refuses them all. -/
theorem handleControlPointCmds_esl (env : EslEnv) (s : EslApp) (cmds : List EslCommand) :
    (handleControlPointCmds env s cmds).esl = s ∨
      (handleControlPointCmds env s cmds).esl =
        Machine.run eslStep s (cmds.map (EslEvent.command env)) := by
  have hround : ∀ (p : EslRspState) (c : EslCommand),
      (rspRound env p c).esl = (handleCommand env p.esl c).1 := by
    intro p c
    unfold rspRound
    rcases handleCommand env p.esl c with ⟨esl, _ | r⟩ <;> rfl
  have hloop : ∀ p : EslRspState, (cmds.foldl (rspRound env) p).esl =
      Machine.run eslStep p.esl (cmds.map (EslEvent.command env)) := by
    induction cmds with
    | nil => exact fun _ => rfl
    | cons c cmds ih =>
      intro p
      rw [List.foldl_cons, ih, hround]
      rfl
  unfold handleControlPointCmds
  dsimp only
  split
  · exact .inl rfl
  · exact .inr (hloop _)

/-! ## The table -/

/-- The table for a timed command: what is pending behind it, and how it ends. -/
def timedRule {α : Type} (available timeOk : Bool) (pending : Option (ℕ × α)) (time : ℕ)
    (command : α) : Option (ℕ × α) × TimedResult :=
  if !available then (pending, .imageNotAvailable)
  else if pending.isSome ∧ time = 0 then (none, .deleted)
  else if pending.isSome ∧ pending.map Prod.fst ≠ some time then (pending, .queueFull)
  else if !timeOk then (pending, .implausibleTime)
  else (some (time, command), .accepted)

/-- The answer to a timed command, which a broadcast does not get. -/
def timedAnswer (unicast : Bool) (state : EslRsp) (result : TimedResult) : Option EslRsp :=
  if unicast then
    some (match result with
      | .deleted | .accepted => state
      | .queueFull => .error .queueFull
      | .implausibleTime => .error .implausibleAbsoluteTime
      | .imageNotAvailable => .error .imageNotAvailable)
  else none

namespace EslApp

/-- The command that is pending for a LED. -/
def ledPending (s : EslApp) (ledId : ℕ) : Option (ℕ × AppLedCommand) :=
  let d := s.ledControlData ledId
  if d.pendingUpdate then some (d.scheduledCommandTime, d.scheduledCommand) else none

/-- The image that is pending for a display. -/
def displayPending (s : EslApp) (displayId : ℕ) : Option (ℕ × ℕ) :=
  let d := s.displayControlData displayId
  if d.pendingUpdate then some (d.pendingUpdateAbsoluteTime, d.pendingUpdateImageIdx) else none

end EslApp

/-- What may have a command pending. -/
inductive Slot
  | led (ledId : ℕ)
  | display (displayId : ℕ)
deriving DecidableEq

/-- The slots that `currentTimeLoop` looks at, in its order. -/
def slots : List Slot :=
  (List.range eslsLedsSupported).map Slot.led ++ (List.range eslsDisplaysSupported).map Slot.display

/-- The slot in which a command waits. -/
def TimedAction.slot : TimedAction → Slot
  | .led ledId _ => .led ledId
  | .display displayId _ => .display displayId

/-- The event is a timed command for the slot. -/
def EslEvent.IsFor (k : Slot) : EslEvent → Prop
  | .command _ c =>
    match c.body with
    | .ledTimedControl ledId _ _ => k = .led ledId
    | .displayTimedImage displayId _ _ => k = .display displayId
    | _ => False
  | _ => False

namespace EslApp

/-- What is pending in a slot: its time and its action. -/
def slotPending (s : EslApp) : Slot → Option (ℕ × TimedAction)
  | .led ledId => (s.ledPending ledId).map fun p => (p.1, .led ledId p.2)
  | .display displayId => (s.displayPending displayId).map fun p => (p.1, .display displayId p.2)

/-- A slot in `currentTimeLoop`. -/
def loopSlot (prev next : ℕ) (s : EslApp) : Slot → EslApp
  | .led ledId => ledLoop prev next s ledId
  | .display displayId => displayLoop prev next s displayId

end EslApp

/-- What has been applied for a slot. -/
def EslApp.firedAt (s : EslApp) (k : Slot) : List TimedAction :=
  s.fired.filter fun a => a.slot = k

/-- What is pending stays as it is, and nothing fires. -/
structure SamePending (s s' : EslApp) : Prop where
  ledPending : s'.ledPending = s.ledPending
  displayPending : s'.displayPending = s.displayPending
  fired : s'.fired = s.fired

/-- The commands `l` fire, each once: they were pending, and then their slots are free. What
else is pending stays as it is. -/
structure Fires (s s' : EslApp) (l : List TimedAction) : Prop where
  fired : s'.fired = s.fired ++ l
  once : (l.map TimedAction.slot).Nodup
  pending : ∀ a ∈ l, ∃ time, s.slotPending a.slot = some (time, a)
  slots : ∀ k, s'.slotPending k = if k ∈ l.map TimedAction.slot then none else s.slotPending k

/-- A step follows the table: a timed command for a LED or a display there is does to it what the
table says, is answered so, and touches no other. A loop fires what is pending only, and then it
is not pending any more. Nothing else changes what is pending, and an image is shown only on a
display there is. -/
def RulesOk (s : EslApp) : EslEvent → Prop
  | .time time now => SamePending s (s.setCurrentTime time now)
  | .loop now tick later => ∃ l, Fires s (s.currentTimeLoop now tick later) l
  | .command env c =>
    match c.body with
    | .ledTimedControl ledId params time =>
      let rule := timedRule true (s.currentTimeCheckTimedCommand time) (s.ledPending ledId) time
        params.toCommand
      ledId < eslsLedsSupported ∧
        (handleCommand env s c).1.ledPending = Function.update s.ledPending ledId rule.1 ∧
        (handleCommand env s c).1.displayPending = s.displayPending ∧
        (handleCommand env s c).1.fired = s.fired ∧
        (handleCommand env s c).2 = timedAnswer c.unicast (.ledState ledId) rule.2
    | .displayTimedImage displayId imageId time =>
      let rule := timedRule (imageAvailable env displayId imageId)
        (s.currentTimeCheckTimedCommand time) (s.displayPending displayId) time imageId
      (imageAvailable env displayId imageId = true → displayId < eslsDisplaysSupported) ∧
        (handleCommand env s c).1.ledPending = s.ledPending ∧
        (handleCommand env s c).1.displayPending =
          Function.update s.displayPending displayId rule.1 ∧
        (handleCommand env s c).1.fired = s.fired ∧
        (handleCommand env s c).2 = timedAnswer c.unicast (.displayState displayId imageId) rule.2
    | .displayImage displayId imageId =>
      (imageAvailable env displayId imageId = true → displayId < eslsDisplaysSupported) ∧
        SamePending s (handleCommand env s c).1
    | _ => SamePending s (handleCommand env s c).1

/-- A timed command for a LED has its LED. A broadcast for it has a plausible time, or it meets a
pending command that its time deletes or that has another time. An image that is available has
its display, and a timed command for it with time zero meets no pending one. -/
def RulesCond (s : EslApp) : EslEvent → Prop
  | .command env c =>
    match c.body with
    | .ledTimedControl ledId _ time =>
      ledId < eslsLedsSupported ∧
        (c.unicast = true ∨ s.currentTimeCheckTimedCommand time = true ∨
          (s.ledControlData ledId).pendingUpdate = true ∧
            (time = 0 ∨ time ≠ (s.ledControlData ledId).scheduledCommandTime))
    | .displayTimedImage displayId imageId time =>
      imageAvailable env displayId imageId = true → displayId < eslsDisplaysSupported ∧
        ((s.displayControlData displayId).pendingUpdate = true → time ≠ 0)
    | .displayImage displayId imageId =>
      imageAvailable env displayId imageId = true → displayId < eslsDisplaysSupported
    | _ => True
  | _ => True

/-! ## The handlers -/

section Handlers

variable {s : EslApp}

@[simp] theorem ledPending_setDisplay (displayId : ℕ) (d : DisplayControl) :
    (s.setDisplay displayId d).ledPending = s.ledPending := rfl

@[simp] theorem displayPending_setLed (ledId : ℕ) (d : LedControlData) :
    (s.setLed ledId d).displayPending = s.displayPending := rfl

theorem ledPending_setLed (ledId : ℕ) (d : LedControlData) :
    (s.setLed ledId d).ledPending = Function.update s.ledPending ledId
      (if d.pendingUpdate then some (d.scheduledCommandTime, d.scheduledCommand) else none) := by
  ext1 i
  unfold ledPending setLed
  by_cases hi : i = ledId
  · subst hi
    simp only [Function.update_self]
  · simp only [Function.update_of_ne hi]

theorem displayPending_setDisplay (displayId : ℕ) (d : DisplayControl) :
    (s.setDisplay displayId d).displayPending = Function.update s.displayPending displayId
      (if d.pendingUpdate then some (d.pendingUpdateAbsoluteTime, d.pendingUpdateImageIdx)
        else none) := by
  ext1 i
  unfold displayPending setDisplay
  by_cases hi : i = displayId
  · subst hi
    simp only [Function.update_self]
  · simp only [Function.update_of_ne hi]

theorem ledPending_of_pending {ledId : ℕ} (h : (s.ledControlData ledId).pendingUpdate = true) :
    s.ledPending ledId = some ((s.ledControlData ledId).scheduledCommandTime,
      (s.ledControlData ledId).scheduledCommand) := by
  unfold ledPending
  simp only [h, if_true]

theorem ledPending_of_not_pending {ledId : ℕ}
    (h : (s.ledControlData ledId).pendingUpdate = false) : s.ledPending ledId = none := by
  unfold ledPending
  simp only [h, Bool.false_eq_true, if_false]

theorem displayPending_of_pending {displayId : ℕ}
    (h : (s.displayControlData displayId).pendingUpdate = true) :
    s.displayPending displayId = some ((s.displayControlData displayId).pendingUpdateAbsoluteTime,
      (s.displayControlData displayId).pendingUpdateImageIdx) := by
  unfold displayPending
  simp only [h, if_true]

theorem displayPending_of_not_pending {displayId : ℕ}
    (h : (s.displayControlData displayId).pendingUpdate = false) :
    s.displayPending displayId = none := by
  unfold displayPending
  simp only [h, Bool.false_eq_true, if_false]

/-- The LED handler follows the table. -/
theorem ledTimedControl_rule (s : EslApp) (ledId : ℕ) (params : EslLedParams) (time : ℕ) :
    (s.ledTimedControl ledId params time).1.ledPending = Function.update s.ledPending ledId
        (timedRule true (s.currentTimeCheckTimedCommand time) (s.ledPending ledId) time
          params.toCommand).1 ∧
      (s.ledTimedControl ledId params time).1.displayPending = s.displayPending ∧
      (s.ledTimedControl ledId params time).2 =
        (timedRule true (s.currentTimeCheckTimedCommand time) (s.ledPending ledId) time
          params.toCommand).2 := by
  have hsame := Function.update_eq_self ledId s.ledPending
  unfold ledTimedControl timedRule
  cases hpend : (s.ledControlData ledId).pendingUpdate with
  | true =>
    have hled := ledPending_of_pending hpend
    rw [hled] at hsame
    by_cases hzero : time = 0
    · simp [hpend, hled, hzero, ledPending_setLed]
    · -- a pending command gives way only to one for the same time
      by_cases htime : time = (s.ledControlData ledId).scheduledCommandTime
      · cases s.currentTimeCheckTimedCommand time with
        | false =>
          rw [htime] at hzero
          simp [hpend, hled, hzero, htime, hsame]
        | true =>
          rw [htime] at hzero
          simp [hpend, hled, hzero, htime, ledPending_setLed]
      · have htime' := Ne.symm htime
        simp [hpend, hled, hzero, htime, htime', hsame]
  | false =>
    have hled := ledPending_of_not_pending hpend
    rw [hled] at hsame
    cases s.currentTimeCheckTimedCommand time with
    | false => simp [hpend, hled, hsame]
    | true => simp [hpend, hled, ledPending_setLed]

/-- The display handler follows the table, but for the command that a time of zero deletes:
there the pending one stays. -/
theorem displayTimedImage_rule (env : EslEnv) (s : EslApp) (displayId imageId time : ℕ) :
    (displayTimedImage env s displayId imageId time).1.ledPending = s.ledPending ∧
      (displayTimedImage env s displayId imageId time).2 =
        (timedRule (imageAvailable env displayId imageId)
          (s.currentTimeCheckTimedCommand time) (s.displayPending displayId) time imageId).2 ∧
      ((displayTimedImage env s displayId imageId time).1.displayPending =
        Function.update s.displayPending displayId
          (timedRule (imageAvailable env displayId imageId)
            (s.currentTimeCheckTimedCommand time) (s.displayPending displayId) time imageId).1 ↔
        (imageAvailable env displayId imageId = true →
          (s.displayControlData displayId).pendingUpdate = true → time ≠ 0)) := by
  have hsame := Function.update_eq_self displayId s.displayPending
  -- the rows of the table: the image, the pending command, and the time
  unfold displayTimedImage timedRule
  cases havail : imageAvailable env displayId imageId with
  | false => simp
  | true =>
    cases hpend : (s.displayControlData displayId).pendingUpdate with
    | true =>
      have hdisp := displayPending_of_pending hpend
      rw [hdisp] at hsame
      by_cases hzero : time = 0
      · -- the display keeps what the table takes away
        have hkeep : (some ((s.displayControlData displayId).pendingUpdateAbsoluteTime,
            (s.displayControlData displayId).pendingUpdateImageIdx) : Option (ℕ × ℕ)) ≠ none :=
          Option.some_ne_none _
        have hne : s.displayPending ≠ Function.update s.displayPending displayId none := by
          intro heq
          have hat := congrFun heq displayId
          rw [Function.update_self, hdisp] at hat
          exact hkeep hat
        simp [hpend, hdisp, hzero, displayPending_setDisplay, hsame, hne]
      · by_cases htime : time = (s.displayControlData displayId).pendingUpdateAbsoluteTime
        · cases s.currentTimeCheckTimedCommand time with
          | false =>
            rw [htime] at hzero
            simp [hpend, hdisp, hzero, htime, hsame]
          | true =>
            rw [htime] at hzero
            simp [hpend, hdisp, hzero, htime, displayPending_setDisplay]
        · have htime' := Ne.symm htime
          simp [hpend, hdisp, hzero, htime, htime', hsame]
    | false =>
      have hdisp := displayPending_of_not_pending hpend
      rw [hdisp] at hsame
      cases s.currentTimeCheckTimedCommand time with
      | false => simp [hpend, hdisp, hsame]
      | true => simp [hpend, hdisp, displayPending_setDisplay]

/-! ## The slots in the loop -/

variable {k : Slot} {p : ℕ × TimedAction} {prev next : ℕ}

theorem slotPending_congr {s' : EslApp} (hled : s'.ledPending = s.ledPending)
    (hdisp : s'.displayPending = s.displayPending) : s'.slotPending = s.slotPending := by
  unfold slotPending
  rw [hled, hdisp]

theorem slotPending_led (s : EslApp) (i : ℕ) :
    s.slotPending (.led i) = if (s.ledControlData i).pendingUpdate then
      some ((s.ledControlData i).scheduledCommandTime,
        .led i (s.ledControlData i).scheduledCommand) else none := by
  unfold slotPending ledPending
  dsimp only
  split
  · rfl
  · rfl

theorem slotPending_display (s : EslApp) (i : ℕ) :
    s.slotPending (.display i) = if (s.displayControlData i).pendingUpdate then
      some ((s.displayControlData i).pendingUpdateAbsoluteTime,
        .display i (s.displayControlData i).pendingUpdateImageIdx) else none := by
  unfold slotPending displayPending
  dsimp only
  split
  · rfl
  · rfl

theorem slotPending_setLed (s : EslApp) (i : ℕ) (d : LedControlData) :
    (s.setLed i d).slotPending = Function.update s.slotPending (.led i)
      (if d.pendingUpdate then some (d.scheduledCommandTime, .led i d.scheduledCommand)
        else none) := by
  ext1 k
  cases k with
  | display j => exact (Function.update_of_ne (by simp) _ _).symm
  | led j =>
    rw [slotPending_led]
    by_cases hj : j = i
    · subst hj
      unfold setLed
      simp only [Function.update_self]
    · rw [Function.update_of_ne (by simpa using hj), slotPending_led]
      unfold setLed
      simp only [Function.update_of_ne hj]

theorem slotPending_setDisplay (s : EslApp) (i : ℕ) (d : DisplayControl) :
    (s.setDisplay i d).slotPending = Function.update s.slotPending (.display i)
      (if d.pendingUpdate then some (d.pendingUpdateAbsoluteTime,
        .display i d.pendingUpdateImageIdx) else none) := by
  ext1 k
  cases k with
  | led j => exact (Function.update_of_ne (by simp) _ _).symm
  | display j =>
    rw [slotPending_display]
    by_cases hj : j = i
    · subst hj
      unfold setDisplay
      simp only [Function.update_self]
    · rw [Function.update_of_ne (by simpa using hj), slotPending_display]
      unfold setDisplay
      simp only [Function.update_of_ne hj]

theorem loopSlot_none (h : s.slotPending k = none) : loopSlot prev next s k = s := by
  cases k with
  | led i =>
    rw [slotPending_led, ite_eq_right_iff] at h
    show ledLoop prev next s i = s
    unfold ledLoop
    cases hpend : (s.ledControlData i).pendingUpdate with
    | true => cases h hpend
    | false => simp only [hpend, Bool.false_and, Bool.false_eq_true, if_false]
  | display i =>
    rw [slotPending_display, ite_eq_right_iff] at h
    show displayLoop prev next s i = s
    unfold displayLoop
    cases hpend : (s.displayControlData i).pendingUpdate with
    | true => cases h hpend
    | false => simp only [hpend, Bool.false_and, Bool.false_eq_true, if_false]

theorem loopSlot_early (h : s.slotPending k = some p)
    (hexp : currentTimeExpired prev next p.1 = false) : loopSlot prev next s k = s := by
  cases k with
  | led i =>
    rw [slotPending_led, Option.ite_none_right_eq_some] at h
    obtain ⟨hpend, heq⟩ := h
    cases heq
    show ledLoop prev next s i = s
    unfold ledLoop
    simp only [hexp, Bool.and_false, Bool.false_eq_true, if_false]
  | display i =>
    rw [slotPending_display, Option.ite_none_right_eq_some] at h
    obtain ⟨hpend, heq⟩ := h
    cases heq
    show displayLoop prev next s i = s
    unfold displayLoop
    simp only [hexp, Bool.and_false, Bool.false_eq_true, if_false]

theorem loopSlot_due (h : s.slotPending k = some p)
    (hexp : currentTimeExpired prev next p.1 = true) :
    (loopSlot prev next s k).slotPending = Function.update s.slotPending k none ∧
      (loopSlot prev next s k).fired = s.fired ++ [p.2] ∧
      (loopSlot prev next s k).currentTime = s.currentTime := by
  cases k with
  | led i =>
    rw [slotPending_led, Option.ite_none_right_eq_some] at h
    obtain ⟨hpend, heq⟩ := h
    cases heq
    have hloop : loopSlot prev next s (.led i) =
        { (s.appLedCommandApply i (s.ledControlData i).scheduledCommand).setLed i
          { s.ledControlData i with pendingUpdate := false } with
          fired := s.fired ++ [.led i (s.ledControlData i).scheduledCommand] } := by
      show ledLoop prev next s i = _
      unfold ledLoop
      simp only [hpend, hexp, Bool.and_true, if_true]
    refine ⟨?_, ?_, ?_⟩
    · rw [hloop]
      exact slotPending_setLed s i { s.ledControlData i with pendingUpdate := false }
    · rw [hloop]
    · rw [hloop]
      rfl
  | display i =>
    rw [slotPending_display, Option.ite_none_right_eq_some] at h
    obtain ⟨hpend, heq⟩ := h
    cases heq
    have hloop : loopSlot prev next s (.display i) =
        { s.setDisplay i { s.displayControlData i with
          newImage := true
          active := true
          imageIdx := (s.displayControlData i).pendingUpdateImageIdx
          pendingUpdate := false } with
          fired := s.fired ++ [.display i (s.displayControlData i).pendingUpdateImageIdx] } := by
      show displayLoop prev next s i = _
      unfold displayLoop
      simp only [hpend, hexp, Bool.and_true, if_true]
    refine ⟨?_, ?_, ?_⟩
    · rw [hloop]
      exact slotPending_setDisplay s i { s.displayControlData i with
        newImage := true
        active := true
        imageIdx := (s.displayControlData i).pendingUpdateImageIdx
        pendingUpdate := false }
    · rw [hloop]
    · rw [hloop]
      rfl

/-- Two stretches in which commands fire. -/
theorem Fires.trans {s₁ s₂ s₃ : EslApp} {l l' : List TimedAction} (h : Fires s₁ s₂ l)
    (h' : Fires s₂ s₃ l') : Fires s₁ s₃ (l ++ l') := by
  -- what fires in the second one is still pending behind the first one
  have hnew : ∀ a ∈ l', a.slot ∉ l.map TimedAction.slot ∧
      ∃ time, s₁.slotPending a.slot = some (time, a) := by
    intro a ha
    obtain ⟨time, htime⟩ := h'.pending a ha
    rw [h.slots, ite_eq_iff] at htime
    rcases htime with ⟨-, hnone⟩ | ⟨hout, hpend⟩
    · cases hnone
    · exact ⟨hout, time, hpend⟩
  constructor
  case fired => rw [h'.fired, h.fired, List.append_assoc]
  case once =>
    rw [List.map_append, List.nodup_append]
    refine ⟨h.once, h'.once, fun k hk k' hk' heq => ?_⟩
    obtain ⟨a, ha, rfl⟩ := List.mem_map.mp hk'
    exact (hnew a ha).1 (heq ▸ hk)
  case pending =>
    intro a ha
    rcases List.mem_append.mp ha with ha | ha
    · exact h.pending a ha
    · exact (hnew a ha).2
  case slots =>
    intro k
    rw [h'.slots, h.slots, List.map_append]
    by_cases hk : k ∈ l.map TimedAction.slot
    · simp [hk]
    · simp [hk]

theorem Fires.refl (s : EslApp) : Fires s s [] where
  fired := (List.append_nil _).symm
  once := List.nodup_nil
  pending := nofun
  slots _ := rfl

theorem slot_of_slotPending (h : s.slotPending k = some p) : p.2.slot = k := by
  cases k with
  | led i =>
    rw [slotPending_led, Option.ite_none_right_eq_some] at h
    cases h.2
    rfl
  | display i =>
    rw [slotPending_display, Option.ite_none_right_eq_some] at h
    cases h.2
    rfl

theorem loopSlot_fires (prev next : ℕ) (s : EslApp) (k : Slot) :
    ∃ l, Fires s (loopSlot prev next s k) l := by
  cases hs : s.slotPending k with
  | none =>
    rw [loopSlot_none hs]
    exact ⟨[], .refl s⟩
  | some p =>
    cases hexp : currentTimeExpired prev next p.1 with
    | false =>
      rw [loopSlot_early hs hexp]
      exact ⟨[], .refl s⟩
    | true =>
      obtain ⟨hpend, hfired, -⟩ := loopSlot_due hs hexp
      have hslot := slot_of_slotPending hs
      refine ⟨[p.2], hfired, by simp, ?_, ?_⟩
      · intro a ha
        rw [List.mem_singleton.mp ha, hslot]
        exact ⟨p.1, hs⟩
      · intro k'
        rw [hpend, Function.update_apply, List.map_singleton, hslot]
        simp only [List.mem_singleton]

theorem foldl_loopSlot_fires (prev next : ℕ) (ks : List Slot) (s : EslApp) :
    ∃ l, Fires s (ks.foldl (loopSlot prev next) s) l := by
  induction ks generalizing s with
  | nil => exact ⟨[], .refl s⟩
  | cons k ks ih =>
    obtain ⟨l, hl⟩ := loopSlot_fires prev next s k
    obtain ⟨l', hl'⟩ := ih (loopSlot prev next s k)
    exact ⟨l ++ l', hl.trans hl'⟩

/-- The two loops of `currentTimeLoop` go through the slots. -/
theorem fireTimed_eq_foldl (prev : ℕ) (s : EslApp) :
    fireTimed prev s = slots.foldl (loopSlot prev s.currentTime.timer) s := by
  unfold fireTimed slots
  rw [List.foldl_append, List.foldl_map, List.foldl_map]
  rfl

@[simp] theorem EslApp.ledPending_advanceTimer (s : EslApp) (tick : ℕ) :
    (s.advanceTimer tick).ledPending = s.ledPending := by
  unfold ledPending advanceTimer
  rfl

@[simp] theorem EslApp.displayPending_advanceTimer (s : EslApp) (tick : ℕ) :
    (s.advanceTimer tick).displayPending = s.displayPending := by
  unfold displayPending advanceTimer
  rfl

theorem slotPending_advanceTimer (s : EslApp) (tick : ℕ) :
    (s.advanceTimer tick).slotPending = s.slotPending :=
  slotPending_congr (s.ledPending_advanceTimer tick) (s.displayPending_advanceTimer tick)

@[simp] theorem fired_advanceTimer (s : EslApp) (tick : ℕ) :
    (s.advanceTimer tick).fired = s.fired := by
  unfold advanceTimer
  rfl

theorem Fires.congr {s₁ s₂ : EslApp} {l : List TimedAction} (h : Fires s₁ s₂ l) {s s' : EslApp}
    (hfired : s.fired = s₁.fired) (hslots : s.slotPending = s₁.slotPending)
    (hfired' : s'.fired = s₂.fired) (hslots' : s'.slotPending = s₂.slotPending) :
    Fires s s' l := by
  refine ⟨?_, h.once, ?_, ?_⟩
  · rw [hfired', hfired, h.fired]
  · rw [hslots]
    exact h.pending
  · rw [hslots', hslots]
    exact h.slots

theorem checkServiceNeeded_same (s : EslApp) (now : ℕ) :
    (s.checkServiceNeeded now).fired = s.fired ∧
      (s.checkServiceNeeded now).slotPending = s.slotPending := by
  unfold checkServiceNeeded
  split
  · exact ⟨rfl, rfl⟩
  · exact ⟨rfl, rfl⟩

/-- What the loop fires was pending, and then it is not. -/
theorem currentTimeLoop_fires (s : EslApp) (now tick later : ℕ) :
    ∃ l, Fires s (s.currentTimeLoop now tick later) l := by
  unfold currentTimeLoop
  split
  · obtain ⟨l, hl⟩ := foldl_loopSlot_fires s.currentTime.timer (s.advanceTimer tick).currentTime.timer
      slots (s.advanceTimer tick)
    rw [← fireTimed_eq_foldl] at hl
    obtain ⟨hfired, hslots⟩ := checkServiceNeeded_same (s.timedLoop tick) later
    exact ⟨l, hl.congr (fired_advanceTimer s tick).symm (slotPending_advanceTimer s tick).symm
      hfired hslots⟩
  · obtain ⟨hfired, hslots⟩ := checkServiceNeeded_same s later
    exact ⟨[], (Fires.refl s).congr rfl rfl hfired hslots⟩

/-! ## The commands -/

/-- A LED command is answered by the table, but for a broadcast with an implausible time. -/
theorem ledTimedRsp_iff (unicast : Bool) (ledId : ℕ) (result : TimedResult) :
    ledTimedRsp unicast ledId result = timedAnswer unicast (.ledState ledId) result ↔
      (unicast = true ∨ result ≠ .implausibleTime) := by
  cases unicast <;> cases result <;> simp [ledTimedRsp, timedAnswer]

theorem displayTimedRsp_eq (unicast : Bool) (displayId imageId : ℕ) (result : TimedResult) :
    displayTimedRsp unicast displayId imageId result =
      timedAnswer unicast (.displayState displayId imageId) result := by
  cases unicast <;> cases result <;> rfl

/-- The LED command does not end as implausible. -/
theorem ledTimedControl_implausible_iff (s : EslApp) (ledId : ℕ) (params : EslLedParams)
    (time : ℕ) :
    (s.ledTimedControl ledId params time).2 ≠ .implausibleTime ↔
      (s.currentTimeCheckTimedCommand time = true ∨
        (s.ledControlData ledId).pendingUpdate = true ∧
          (time = 0 ∨ time ≠ (s.ledControlData ledId).scheduledCommandTime)) := by
  unfold ledTimedControl
  cases hpend : (s.ledControlData ledId).pendingUpdate with
  | true =>
    by_cases hzero : time = 0
    · simp [hpend, hzero]
    · by_cases htime : time = (s.ledControlData ledId).scheduledCommandTime
      · rw [htime] at hzero
        cases hcheck : s.currentTimeCheckTimedCommand time with
        | false => simp [hzero, htime]
        | true => simp [hzero, htime]
      · simp [hpend, hzero, htime]
  | false =>
    cases s.currentTimeCheckTimedCommand time with
    | false => simp [hpend]
    | true => simp [hpend]

theorem fired_ledTimedControl (s : EslApp) (ledId : ℕ) (params : EslLedParams) (time : ℕ) :
    (s.ledTimedControl ledId params time).1.fired = s.fired := by
  unfold ledTimedControl
  dsimp only
  repeat' split
  all_goals rfl

theorem fired_displayTimedImage (env : EslEnv) (s : EslApp) (displayId imageId time : ℕ) :
    (displayTimedImage env s displayId imageId time).1.fired = s.fired := by
  unfold displayTimedImage
  dsimp only
  repeat' split
  all_goals rfl

/-- An image for a display leaves the pending one. -/
theorem samePending_displayImage (env : EslEnv) (s : EslApp) (eslId displayId imageId : ℕ) :
    SamePending s (handleCommand env s ⟨eslId, .displayImage displayId imageId⟩).1 := by
  unfold handleCommand
  dsimp only
  split
  · refine ⟨rfl, ?_, rfl⟩
    show (s.setDisplay displayId _).displayPending = s.displayPending
    rw [displayPending_setDisplay]
    exact Function.update_eq_self displayId s.displayPending
  · exact ⟨rfl, rfl, rfl⟩

/-- A step follows the table exactly under the condition. -/
theorem rulesOk_iff (s : EslApp) (ev : EslEvent) : RulesOk s ev ↔ RulesCond s ev := by
  cases ev with
  | time time now => exact iff_of_true ⟨rfl, rfl, rfl⟩ trivial
  | loop now tick later => exact iff_of_true (currentTimeLoop_fires s now tick later) trivial
  | command env c =>
    rcases c with ⟨eslId, body⟩
    cases body with
    | ledTimedControl ledId params time =>
      obtain ⟨hled, hdisp, hresult⟩ := ledTimedControl_rule s ledId params time
      have hfired := fired_ledTimedControl s ledId params time
      dsimp only [RulesOk, RulesCond]
      rw [handleCommand_ledTimedControl]
      dsimp only
      rw [← hresult, ledTimedRsp_iff, ledTimedControl_implausible_iff]
      exact ⟨fun h => ⟨h.1, h.2.2.2.2⟩, fun h => ⟨h.1, hled, hdisp, hfired, h.2⟩⟩
    | displayTimedImage displayId imageId time =>
      obtain ⟨hled, hresult, hdisp⟩ := displayTimedImage_rule env s displayId imageId time
      have hfired := fired_displayTimedImage env s displayId imageId time
      dsimp only [RulesOk, RulesCond]
      rw [handleCommand_displayTimedImage]
      dsimp only
      rw [← hresult, displayTimedRsp_eq]
      constructor
      · intro h havail
        exact ⟨h.1 havail, hdisp.mp h.2.2.1 havail⟩
      · intro h
        exact ⟨fun havail => (h havail).1, hled, hdisp.mpr fun havail => (h havail).2, hfired, rfl⟩
    | displayImage displayId imageId =>
      exact and_iff_left (samePending_displayImage env s eslId displayId imageId)
    | _ => exact iff_of_true ⟨rfl, rfl, rfl⟩ trivial

end Handlers

/-! ## Runs -/

section Runs

variable {s s' : EslApp} {k : Slot}

theorem SamePending.slot (h : SamePending s s') :
    s'.slotPending = s.slotPending ∧ s'.fired = s.fired :=
  ⟨slotPending_congr h.ledPending h.displayPending, h.fired⟩

/-- A step that follows the table fires nothing for a slot without a pending command, which gets
one by a timed command for the slot only. -/
theorem RulesOk.stays_free {ev : EslEvent} (h : RulesOk s ev) (hk : s.slotPending k = none)
    (hfor : ¬ ev.IsFor k) :
    (eslStep s ev).slotPending k = none ∧ (eslStep s ev).firedAt k = s.firedAt k := by
  have hsame : SamePending s (eslStep s ev) → (eslStep s ev).slotPending k = none ∧
      (eslStep s ev).firedAt k = s.firedAt k := by
    intro h
    unfold firedAt
    rw [h.slot.1, h.slot.2]
    exact ⟨hk, rfl⟩
  cases ev with
  | time time now => exact hsame h
  | loop now tick later =>
    obtain ⟨l, hl⟩ := h
    have hout : k ∉ l.map TimedAction.slot := by
      intro hmem
      obtain ⟨a, ha, rfl⟩ := List.mem_map.mp hmem
      obtain ⟨time, htime⟩ := hl.pending a ha
      rw [hk] at htime
      cases htime
    constructor
    · exact (hl.slots k).trans ((if_neg hout).trans hk)
    · have hnone : l.filter (fun a => a.slot = k) = [] := by
        rw [List.filter_eq_nil_iff]
        intro a ha
        rw [decide_eq_true_eq]
        exact fun heq => hout (heq ▸ List.mem_map_of_mem ha)
      show ((s.currentTimeLoop now tick later).fired).filter _ = _
      rw [hl.fired, List.filter_append, hnone, List.append_nil]
      rfl
  | command env c =>
    rcases c with ⟨eslId, body⟩
    cases body with
    | ledTimedControl ledId params time =>
      obtain ⟨-, hled, hdisp, hfired, -⟩ := h
      refine ⟨?_, congrArg (List.filter _) hfired⟩
      cases k with
      | led i =>
        have hne : i ≠ ledId := fun heq => hfor (congrArg Slot.led heq)
        show ((handleCommand env s _).1.ledPending i).map _ = none
        rw [hled, Function.update_of_ne hne]
        exact hk
      | display i =>
        show ((handleCommand env s _).1.displayPending i).map _ = none
        rw [hdisp]
        exact hk
    | displayTimedImage displayId imageId time =>
      obtain ⟨-, hled, hdisp, hfired, -⟩ := h
      refine ⟨?_, congrArg (List.filter _) hfired⟩
      cases k with
      | led i =>
        show ((handleCommand env s _).1.ledPending i).map _ = none
        rw [hled]
        exact hk
      | display i =>
        have hne : i ≠ displayId := fun heq => hfor (congrArg Slot.display heq)
        show ((handleCommand env s _).1.displayPending i).map _ = none
        rw [hdisp, Function.update_of_ne hne]
        exact hk
    | displayImage displayId imageId => exact hsame h.2
    | _ => exact hsame h

/-- A run that follows the table fires nothing for a slot without a pending command before a timed
command for the slot comes. -/
theorem firedAt_run {evs : List EslEvent} (h : Machine.Along eslStep RulesOk s evs)
    (hk : s.slotPending k = none) (hfor : ∀ ev ∈ evs, ¬ ev.IsFor k) :
    (Machine.run eslStep s evs).firedAt k = s.firedAt k := by
  induction evs generalizing s with
  | nil => rfl
  | cons ev evs ih =>
    obtain ⟨hfree, hfired⟩ := h.1.stays_free hk (hfor ev List.mem_cons_self)
    rw [Machine.run_cons, ih h.2 hfree fun ev' hev' => hfor ev' (List.mem_cons_of_mem _ hev')]
    exact hfired

end Runs

/-- In every run, from every state, every step follows the table exactly if every step meets
the condition. And where the run follows it, a LED or display without a pending command, such as
one whose command was deleted, has none fire before the next timed command for it. -/
theorem pending_rules (s : EslApp) (evs : List EslEvent) :
    (Machine.Along eslStep RulesOk s evs ↔ Machine.Along eslStep RulesCond s evs) ∧
      (Machine.Along eslStep RulesOk s evs → ∀ k, s.slotPending k = none →
        (∀ ev ∈ evs, ¬ ev.IsFor k) → (Machine.run eslStep s evs).firedAt k = s.firedAt k) :=
  ⟨Machine.along_congr rulesOk_iff, fun h _ => firedAt_run h⟩

/-- A pending image, and the command of time zero that does not delete it. And a broadcast for a
LED without a clock, which is answered. -/
theorem not_rulesOk_example :
    ¬ Machine.Along eslStep RulesOk powerOn
        [.time 5 0, .command plainEnv ⟨1, .displayTimedImage 0 3 10⟩,
          .command plainEnv ⟨1, .displayTimedImage 0 3 0⟩] ∧
      ¬ Machine.Along eslStep RulesOk powerOn
        [.command plainEnv
          ⟨eslIdBroadcast, .ledTimedControl 0 ⟨0, 0, 0, 0, fun _ => 0, 0, 0⟩ 7⟩] := by
  constructor
  · intro h
    have hcond := (rulesOk_iff _ _).mp h.2.2.1
    exact (hcond rfl).2 rfl rfl
  · intro h
    obtain ⟨-, hcond⟩ := (rulesOk_iff _ _).mp h.1
    rcases hcond with hunicast | hcheck | ⟨hpend, -⟩
    · exact absurd hunicast (by decide)
    · exact absurd hcheck (by decide)
    · exact absurd hpend (by decide)

end TlBleSdk.Esl
