import TlBleSdk.Dfu.Steps

/-!
# The slot at the ends of a session

A session should begin over an erased slot, and the boot switch should be the last thing
that happens to the flash. The erase is made by the periodic task and is skipped when three
sampled words read as erased, so both hold in the runs in which no command comes between a
termination and its clean-up or between the switch and the reset, and in which the samples
never miss a written byte.
-/

namespace TlBleSdk.Dfu

open Hci NorFlash Machine

/-- Once the boot flags are switched, the flash is neither written nor erased. -/
def QuietAfterSwitch (hist : List DfuAct) : Prop :=
  ∀ h₁ h₂, hist = h₁ ++ .bootSwitch :: h₂ → ∀ a ∈ h₂, a.isFlashOp = false

theorem quietAfterSwitch_of_notMem {hist : List DfuAct} (h : .bootSwitch ∉ hist) :
    QuietAfterSwitch hist := by
  intro h₁ h₂ heq
  exact absurd (heq ▸ by simp) h

/-- Appending the first boot switch. -/
theorem quietAfterSwitch_append_switch {hist : List DfuAct} {w : World} (h : .bootSwitch ∉ hist) :
    QuietAfterSwitch (hist ++ w.switchActs) := by
  intro h₁ h₂ heq
  rcases List.append_eq_append_iff.mp heq with ⟨m, rfl, hm⟩ | ⟨m, rfl, hm⟩
  · obtain ⟨-, rfl⟩ := World.switchActs_split hm
    simp
  · cases m with
    | nil =>
      obtain ⟨-, rfl⟩ := World.switchActs_split
        (show w.switchActs = [] ++ .bootSwitch :: h₂ from hm.symm)
      simp
    | cons a m =>
      obtain ⟨rfl, -⟩ := List.cons.inj hm
      exact absurd (by simp) h

namespace World

variable {w : World} {i : Input} {nextFwAddr : ℕ}

/-- The new slot is erased. -/
def SlotErased (w : World) : Prop := Erased w.flash w.cb.nextFwAddrStart w.cb.maxFwSize

/-- The sampled words tell whether the new slot is erased. -/
def SamplesTell (w : World) : Prop := w.samplesErased = true → w.SlotErased

instance (w : World) : Decidable w.SlotErased := inferInstanceAs (Decidable (Erased _ _ _))

instance (w : World) : Decidable w.SamplesTell := inferInstanceAs (Decidable (_ → _))

/-- The boot flags have not been switched, and no data of a terminated session await the
clean-up. -/
def ReadyForStart (w : World) : Prop :=
  w.cb.status ≠ .ended ∧ (w.cb.status = .term → w.cb.fwOffset = 0)

instance (w : World) : Decidable w.ReadyForStart := inferInstanceAs (Decidable (_ ∧ _))

/-- A `START_DFU` with these parameters resets the session: it opens one, or its image is
too large. -/
def StartResets (w : World) (pParam : ℕ → UInt8) : Prop :=
  w.StartAccepted pParam ∨ (w.cb.status ≠ .start ∧ w.cb.maxFwSize < fwSizeOf pParam)

instance (w : World) (pParam : ℕ → UInt8) : Decidable (w.StartResets pParam) :=
  inferInstanceAs (Decidable (_ ∨ _))

/-- The step comes neither between a termination and its clean-up nor between the switch
and the reset, and where it erases the slot the samples tell. -/
def EraseOk (w : World) : Input → Prop
  | .cmd _ p =>
    (opcodeOf p = hciOpcodeVsStartDfu → w.StartResets (paramOf p) → w.ReadyForStart) ∧
    (opcodeOf p = hciOpcodeVsEndDfu →
      paramOf p 0 = dfuEndModeFwUpd ∨ paramOf p 0 = dfuEndModeTermUpd → w.cb.status ≠ .ended)
  | .task now uartBusy =>
    (w.cb.status = .term → w.answersSent uartBusy = true → w.SamplesTell) ∧
    (w.cb.timer ≠ 0 → clockTimeExceed now w.cb.timer (dfuTimeout * 1000 * 1000) = true →
      ¬ (w.cb.status = .ended ∧ w.answersSent uartBusy = true) →
        w.SamplesTell ∧ w.cb.status ≠ .ended)
  | .txDone => True

instance (w : World) : ∀ i, Decidable (w.EraseOk i)
  | .cmd _ _ => inferInstanceAs (Decidable ((_ → _ → _) ∧ (_ → _ → _)))
  | .task _ _ => inferInstanceAs (Decidable ((_ → _ → _) ∧ (_ → _ → _ → _ ∧ _)))
  | .txDone => inferInstanceAs (Decidable True)

end World

/-- What the runs keep: behind a reset and before the first data byte the slot is erased, and
the switch came only if the status says so. -/
structure SlotInv (c : Core) : Prop where
  none_offset : c.status = .none → c.rebooted = false → c.fwOffset = 0
  erased : c.status ≠ .ended → c.rebooted = false → c.fwOffset = 0 →
    Erased c.flash c.nextFwAddrStart c.maxFwSize
  notSwitched : c.status ≠ .ended → c.rebooted = false → .bootSwitch ∉ c.hist
  quiet : QuietAfterSwitch c.hist
  started : ∀ fwSize, c.hist.getLast? = some (.start fwSize) →
    Erased c.flash c.nextFwAddrStart c.maxFwSize

namespace World

variable {w : World} {i : Input} {nextFwAddr : ℕ}

/-- Where a `START_DFU` may reset the session, nothing has been written since the last
erase. -/
theorem ReadyForStart.slotErased (h : w.ReadyForStart) (hinv : SlotInv w.core)
    (hrun : w.rebooted = false) (hsta : w.cb.status ≠ .start) : w.SlotErased := by
  refine hinv.erased h.1 hrun ?_
  show w.cb.fwOffset = 0
  cases hstatus : w.cb.status with
  | none => exact hinv.none_offset hstatus hrun
  | start => exact absurd hstatus hsta
  | ended => exact absurd hstatus h.1
  | term => exact h.2 hstatus

/-- Where the samples tell, the slot is erased behind the erase. -/
theorem Cleans.slotErased {c : Cells} (h : w.Cleans c) (htell : w.SamplesTell) :
    Erased c w.cb.nextFwAddrStart w.cb.maxFwSize := by
  apply h.erased
  by_cases hs : w.samplesErased = true
  · exact Or.inl (htell hs)
  · exact Or.inr (by simpa using hs)

/-- A reset over an erased slot. -/
theorem slotInv_of_reset {c : Core} (hoff : c.fwOffset = 0)
    (herased : Erased c.flash c.nextFwAddrStart c.maxFwSize) (hnot : .bootSwitch ∉ c.hist) :
    SlotInv c where
  none_offset _ _ := hoff
  erased _ _ _ := herased
  notSwitched _ _ := hnot
  quiet := quietAfterSwitch_of_notMem hnot
  started _ _ := herased

/-- A packet is programmed behind the bytes that came before it. -/
theorem slotInv_programFwData (hrun : w.rebooted = false) (h : SlotInv w.core) {pParam : ℕ → UInt8}
    {len : ℕ} (hsta : w.cb.status = .start) : SlotInv (w.programFwData pParam len).core := by
  have hnot : .bootSwitch ∉ w.hist := h.notSwitched (by simp [hsta]) hrun
  rw [programFwData_core]
  constructor
  case none_offset =>
    intro hnone
    exact absurd (hsta.symm.trans hnone) (by decide)
  case erased =>
    -- no data yet: the packet was empty, and so was the write
    intro hne hr hoff
    obtain ⟨hoff, hlen⟩ : w.cb.fwOffset = 0 ∧ len = 0 := by
      simpa using hoff
    rw [hlen]
    show Erased (program w.flash w.fwDataAddr []) _ _
    rw [program_nil]
    exact h.erased hne hr hoff
  case notSwitched =>
    intro _ _
    simp [hnot]
  case quiet =>
    apply quietAfterSwitch_of_notMem
    simp [hnot]
  case started =>
    intro fwSize hlast
    simp at hlast

theorem slotInv_step (hrun : w.rebooted = false) (h : SlotInv w.core) (hok : w.EraseOk i) :
    SlotInv (w.step i).core := by
  have hout := outcome_step w i
  generalize (w.step i).core = c at hout
  cases hout with
  | idle => exact h
  | refuseSize now p hop hsta hsize =>
    have hready := hok.1 hop (Or.inr ⟨hsta, hsize⟩)
    refine slotInv_of_reset rfl (hready.slotErased h hrun hsta) ?_
    have hnot : .bootSwitch ∉ w.hist := h.notSwitched hready.1 hrun
    simp [reset, hnot]
  | start now p hop hacc =>
    have hready := hok.1 hop (Or.inl hacc)
    rw [dfuStart_core]
    refine slotInv_of_reset rfl (hready.slotErased h hrun hacc.1) ?_
    have hnot : .bootSwitch ∉ w.hist := h.notSwitched hready.1 hrun
    simp [hnot]
  | fwData now p hop hacc =>
    exact slotInv_programFwData hrun h hacc.2.1
  | term now p hop hsw =>
    have hne : w.cb.status ≠ .ended := by
      rcases hop with hop | hop
      · exact hok.2 hop.1 hop.2
      · rw [hop.2]
        decide
    exact ⟨(fun hop => by cases hop), fun _ => h.erased hne, fun _ => h.notSwitched hne, h.quiet,
      h.started⟩
  | switch now p hop hsw =>
    have hnot : .bootSwitch ∉ w.hist := h.notSwitched (hok.2 hop (Or.inl hsw.1)) hrun
    refine ⟨(fun hop => by cases hop), fun hne => absurd rfl hne, fun hne => absurd rfl hne, ?_, ?_⟩
    · rw [core_hist]
      show QuietAfterSwitch w.switchBootFlags.hist
      rw [switchBootFlags_hist]
      exact quietAfterSwitch_append_switch hnot
    · intro fwSize hlast
      simp [setStatus, switchBootFlags] at hlast
  | reboot now uartBusy hsta =>
    -- the chip does not run on
    exact ⟨(fun _ hup => by cases hup), (fun _ hup => by cases hup), (fun _ hup => by cases hup),
      h.quiet, h.started⟩
  | cleanup now uartBusy hsta hsent c l hc =>
    have hnot : .bootSwitch ∉ w.hist := h.notSwitched (by simp [hsta]) hrun
    refine slotInv_of_reset rfl (hc.slotErased (hok.1 hsta hsent)) ?_
    simp [hnot]
  | timeout now uartBusy htimer hto hsta c l hc =>
    obtain ⟨htell, hne⟩ := hok.2 htimer hto hsta
    have hnot : .bootSwitch ∉ w.hist := h.notSwitched hne hrun
    refine slotInv_of_reset rfl (hc.slotErased htell) ?_
    simp [hnot]

theorem slotInv_boot (flash : Cells) (txFifo : HciFifo)
    (htell : ((powerOn flash txFifo).initCb nextFwAddr).SamplesTell) :
    SlotInv (boot nextFwAddr flash txFifo).core := by
  obtain ⟨c, l, hc, hcore⟩ := boot_core nextFwAddr flash txFifo
  rw [hcore]
  exact slotInv_of_reset rfl (hc.slotErased htell) (by simp)

/-- Every session starts over an erased slot, and nothing touches the flash behind the boot
switch. -/
theorem slot_clean (nextFwAddr : ℕ) (flash : Cells) (txFifo : HciFifo) (is : List Input)
    (htell : ((powerOn flash txFifo).initCb nextFwAddr).SamplesTell)
    (hok : Along step EraseOk (boot nextFwAddr flash txFifo) is) :
    let w := run step (boot nextFwAddr flash txFifo) is
    (∀ fwSize, w.hist.getLast? = some (.start fwSize) → w.SlotErased) ∧
      QuietAfterSwitch w.hist := by
  have hstep : ∀ w i, SlotInv (core w) → w.EraseOk i → SlotInv (core (w.step i)) := by
    intro w i h hi
    by_cases hrun : w.rebooted = true
    · rwa [show w.step i = w from if_pos hrun]
    · exact slotInv_step (by simpa using hrun) h hi
  have h := run_invariant hstep (slotInv_boot flash txFifo htell) hok
  exact ⟨h.started, h.quiet⟩

/-- A session, its end, and the reset of the MCU. -/
def oneSession : List Input :=
  [.cmd 1 (startDfuCmd 37), .cmd 2 (fwDataCmd sampleImage), .cmd 3 (endDfuCmd dfuEndModeFwUpd),
    .txDone, .txDone, .txDone, .task 4 false]

theorem slot_clean_oneSession :
    let w := run step bootErased oneSession
    (∀ fwSize, w.hist.getLast? = some (.start fwSize) → w.SlotErased) ∧
      QuietAfterSwitch w.hist :=
  slot_clean dfuNewFwAddrBase (fun _ => 0xFF) (HciFifo.empty 260 3 (by decide)) oneSession
    (fun _ _ _ => rfl) (by decide +kernel)

/-- A `START_DFU` between the termination of a session and its clean-up. -/
def restarted : List Input :=
  [.cmd 1 (startDfuCmd 1), .cmd 2 (fwDataCmd [0x00]), .cmd 3 (endDfuCmd dfuEndModeTermUpd),
    .cmd 4 (startDfuCmd 1)]

/-- An `END_DFU` between the boot switch and the reset. -/
def endedTwice : List Input :=
  [.cmd 1 (startDfuCmd 37), .cmd 2 (fwDataCmd sampleImage), .cmd 3 (endDfuCmd dfuEndModeFwUpd),
    .cmd 4 (endDfuCmd dfuEndModeFwUpd)]

theorem slot_clean_fails :
    ((run step bootErased restarted).hist.getLast? = some (.start 1) ∧
      ¬ (run step bootErased restarted).SlotErased) ∧
    ¬ QuietAfterSwitch (run step bootErased endedTwice).hist := by
  refine ⟨⟨by decide +kernel, ?_⟩, ?_⟩
  · intro h
    have hcell : (run step bootErased restarted).flash
        ((run step bootErased restarted).cb.nextFwAddrStart + 0) = 0x00 ∧
        0 < (run step bootErased restarted).cb.maxFwSize := by
      decide +kernel
    exact absurd (hcell.1.symm.trans (h 0 hcell.2)) (by decide)
  · intro h
    have hhist : (run step bootErased endedTwice).hist =
        (run step bootErased endedTwice).hist.take 7 ++
          .bootSwitch :: [.write 0x40020 [bootFlagValid], .write 0x20 [0x00], .bootSwitch] := by
      decide +kernel
    exact absurd (h _ _ hhist _ (List.mem_cons_self)) (by decide)

end World
end TlBleSdk.Dfu
