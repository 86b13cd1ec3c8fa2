import TlBleSdk.Dfu.Defs

/-!
# What a step of the DFU can do

`World.core` is the part of the machine a session consists of: everything but the event
FIFO, the timers, the resend counter and the firmware revision. `Outcome` lists what one
step can make of it, with the guard each case passed. Every invariant of the sessions is
derived from `outcome_step`, and no later proof unfolds a handler again.
-/

namespace TlBleSdk.Dfu

open Hci NorFlash

/-- The part of the machine a session consists of. -/
structure Core where
  newFwAddrStart : ℕ
  maxFwSize : ℕ
  nextFwAddrStart : ℕ
  newFwSize : ℕ
  fwOffset : ℕ
  curCrc : UInt32
  status : DfuSta
  flash : Cells
  hist : List DfuAct
  rebooted : Bool

namespace World

@[simps] def core (w : World) : Core where
  newFwAddrStart := w.cb.newFwAddrStart
  maxFwSize := w.cb.maxFwSize
  nextFwAddrStart := w.cb.nextFwAddrStart
  newFwSize := w.cb.newFwSize
  fwOffset := w.cb.fwOffset
  curCrc := w.cb.curCrc
  status := w.cb.status
  flash := w.flash
  hist := w.hist
  rebooted := w.rebooted

/-! ## Sending an event leaves the session alone -/

@[simp] theorem sendEvt_core (w : World) (ev : List UInt8) : (w.sendEvt ev).core = w.core := by
  unfold sendEvt
  split <;> rfl

@[simp] theorem sendCmdCmplEvt_core (w : World) (op : ℕ) (param : List UInt8) :
    (w.sendCmdCmplEvt op param).core = w.core := sendEvt_core w _

@[simp] theorem sendCmdCmplStatusEvt_core (w : World) (op : ℕ) (status : UInt8) :
    (w.sendCmdCmplStatusEvt op status).core = w.core := sendEvt_core w _

@[simp] theorem sendCmdStatusEvt_core (w : World) (op : ℕ) (status : UInt8) :
    (w.sendCmdStatusEvt op status).core = w.core := sendEvt_core w _

/-! ## The erase loop -/

theorem foldl_flashEraseSector (l : List ℕ) (w : World) :
    l.foldl (fun w i => w.flashEraseSector (w.cb.nextFwAddrStart + i)) w =
      { w with
        flash := l.foldl (fun c i => erase c (w.cb.nextFwAddrStart + i) 0x1000) w.flash
        hist := w.hist ++ l.map fun i => DfuAct.erase (w.cb.nextFwAddrStart + i) } := by
  induction l generalizing w with
  | nil => simp
  | cons i l ih =>
    rw [List.foldl_cons, ih]
    simp [flashEraseSector]

theorem eraseSectors_flash (w : World) :
    w.eraseSectors.flash = w.sectorOffsets.foldl
      (fun c i => erase c (w.cb.nextFwAddrStart + i) 0x1000) w.flash := by
  rw [eraseSectors, foldl_flashEraseSector]

theorem eraseSectors_hist (w : World) :
    w.eraseSectors.hist = w.hist ++
      w.sectorOffsets.map fun i => DfuAct.erase (w.cb.nextFwAddrStart + i) := by
  rw [eraseSectors, foldl_flashEraseSector]

@[simp] theorem eraseSectors_cb (w : World) : w.eraseSectors.cb = w.cb := by
  rw [eraseSectors, foldl_flashEraseSector]

@[simp] theorem eraseSectors_rebooted (w : World) : w.eraseSectors.rebooted = w.rebooted := by
  rw [eraseSectors, foldl_flashEraseSector]

/-- A cell some erase of the sequence hits is erased afterwards. -/
theorem foldl_erase_of_mem {l : List ℕ} {base i a : ℕ} (c : Cells) (hi : i ∈ l)
    (ha : base + i ≤ a ∧ a < base + i + 0x1000) :
    l.foldl (fun c i => erase c (base + i) 0x1000) c a = 0xFF := by
  induction l generalizing c with
  | nil => cases hi
  | cons j l ih =>
    rw [List.foldl_cons]
    by_cases hl : i ∈ l
    · exact ih _ hl
    · obtain rfl : i = j := by simpa [hl] using hi
      -- the later erases hit the cell again or leave it
      clear ih hi hl
      have hcell : erase c (base + i) 0x1000 a = 0xFF := if_pos ha
      generalize erase c (base + i) 0x1000 = c' at hcell
      induction l generalizing c' with
      | nil => exact hcell
      | cons k l ih =>
        apply ih
        by_cases ha' : base + k ≤ a ∧ a < base + k + 0x1000
        · exact if_pos ha'
        · exact (if_neg ha').trans hcell

/-- Every erase of the sequence erases a cell or leaves it. -/
theorem foldl_erase_cases (l : List ℕ) (base a : ℕ) (c : Cells) :
    l.foldl (fun c i => erase c (base + i) 0x1000) c a = 0xFF ∨
      l.foldl (fun c i => erase c (base + i) 0x1000) c a = c a := by
  induction l generalizing c with
  | nil => exact Or.inr rfl
  | cons i l ih =>
    rw [List.foldl_cons]
    rcases ih (erase c (base + i) 0x1000) with h | h
    · exact Or.inl h
    · rw [h]
      by_cases ha : base + i ≤ a ∧ a < base + i + 0x1000
      · exact Or.inl (if_pos ha)
      · exact Or.inr (if_neg ha)

@[simp] theorem eraseNewFwArea_cb (w : World) : w.eraseNewFwArea.cb = w.cb := by
  unfold eraseNewFwArea
  split
  · rfl
  · rw [eraseSectors_cb]

@[simp] theorem eraseNewFwArea_rebooted (w : World) :
    w.eraseNewFwArea.rebooted = w.rebooted := by
  unfold eraseNewFwArea
  split
  · rfl
  · rw [eraseSectors_rebooted]

/-- The erase loop erases a cell or leaves it. -/
theorem eraseSectors_flash_apply (w : World) (a : ℕ) :
    w.eraseSectors.flash a = 0xFF ∨ w.eraseSectors.flash a = w.flash a := by
  have h := foldl_erase_cases w.sectorOffsets w.cb.nextFwAddrStart a w.flash
  rw [← eraseSectors_flash] at h
  exact h

/-- Erasing the new area erases a cell or leaves it. -/
theorem eraseNewFwArea_flash_apply (w : World) (a : ℕ) :
    w.eraseNewFwArea.flash a = 0xFF ∨ w.eraseNewFwArea.flash a = w.flash a := by
  rw [eraseNewFwArea]
  by_cases hs : w.samplesErased = true
  · rw [if_pos hs]
    exact Or.inr rfl
  · rw [if_neg hs]
    exact w.eraseSectors_flash_apply a

/-- The erase loop covers the slot. -/
theorem eraseSectors_erased (w : World) :
    Erased w.eraseSectors.flash w.cb.nextFwAddrStart w.cb.maxFwSize := by
  intro i hi
  have hmem : i / 0x1000 * 0x1000 ∈ w.sectorOffsets := by
    rw [sectorOffsets, List.mem_map]
    exact ⟨i / 0x1000, List.mem_range.mpr (by omega), rfl⟩
  rw [eraseSectors_flash]
  exact foldl_erase_of_mem _ hmem (by omega)

/-- Where the sampled words tell whether the slot is erased, it is erased afterwards. -/
theorem eraseNewFwArea_erased {w : World}
    (h : Erased w.flash w.cb.nextFwAddrStart w.cb.maxFwSize ∨ w.samplesErased = false) :
    Erased w.eraseNewFwArea.flash w.cb.nextFwAddrStart w.cb.maxFwSize := by
  unfold eraseNewFwArea
  split
  · rename_i hs
    rcases h with h | h
    · exact h
    · rw [hs] at h
      cases h
  · exact w.eraseSectors_erased

/-- The erase appends erases to the history, nothing else. -/
theorem eraseNewFwArea_hist (w : World) :
    ∃ l : List ℕ, w.eraseNewFwArea.hist = w.hist ++ l.map DfuAct.erase := by
  unfold eraseNewFwArea
  split
  · exact ⟨[], by simp⟩
  · rw [eraseSectors_hist]
    exact ⟨w.sectorOffsets.map (w.cb.nextFwAddrStart + ·), by simp [Function.comp_def]⟩

/-- The flags of the two slots behind the boot switch. -/
theorem switchBootFlags_flash (w : World) :
    w.switchBootFlags.flash =
      program (program w.flash (w.cb.nextFwAddrStart + dfuFwFlagOffset) [bootFlagValid])
        (w.baseAddr + dfuFwFlagOffset) [0x00] := rfl

/-- What a reset leaves behind. -/
theorem reset_core (w : World) :
    w.reset.core =
      { w.core with
        newFwSize := 0
        fwOffset := 0
        curCrc := dfuCrcInitValue
        status := .none
        hist := w.core.hist ++ [DfuAct.reset] } := rfl

/-- What opening a session leaves behind. -/
theorem dfuStart_core (w : World) (fwSize : ℕ) :
    (w.dfuStart fwSize).core =
      { w.reset.core with
        status := .start
        newFwSize := fwSize
        hist := w.hist ++ [DfuAct.reset] ++ [DfuAct.start fwSize] } := by
  unfold dfuStart
  rw [sendCmdCmplEvt_core]
  rfl

/-- What an accepted payload leaves behind. -/
theorem programFwData_core (w : World) (pParam : ℕ → UInt8) (dataLen : ℕ) :
    (w.programFwData pParam dataLen).core =
      { w.core with
        curCrc := crc32Calc w.cb.curCrc ((w.crcBuf (program w.flash w.fwDataAddr
          (bytes (w.maskedParam pParam dataLen) dataLen)) pParam dataLen).take dataLen)
        fwOffset := w.cb.fwOffset + dataLen
        flash := program w.flash w.fwDataAddr (bytes (w.maskedParam pParam dataLen) dataLen)
        hist := w.hist ++ [DfuAct.write w.fwDataAddr (bytes (w.maskedParam pParam dataLen) dataLen)]
          ++ [DfuAct.fwData (bytes pParam dataLen)] } := by
  simp only [core, programFwData, flashWritePage]

/-- The timer and the resend counter take no part in it. -/
theorem programFwData_bookkeeping (w : World) (pParam : ℕ → UInt8) (dataLen cnt : ℕ) :
    ((w.restartTimer.setResendCnt cnt).programFwData pParam dataLen).core =
      (w.programFwData pParam dataLen).core := rfl

@[simp] theorem programFwData_txFifo (w : World) (pParam : ℕ → UInt8) (dataLen : ℕ) :
    (w.programFwData pParam dataLen).txFifo = w.txFifo := rfl

/-- What erasing the new area makes of the flash: cells are erased or left, and where the
sampled words tell whether the slot is erased, it is erased afterwards. -/
structure Cleans (w : World) (c : Cells) : Prop where
  cell : ∀ a, c a = 0xFF ∨ c a = w.flash a
  erased : Erased w.flash w.cb.nextFwAddrStart w.cb.maxFwSize ∨ w.samplesErased = false →
    Erased c w.cb.nextFwAddrStart w.cb.maxFwSize

/-- Erasing the new area changes the flash and appends erases to the history. -/
theorem eraseNewFwArea_core (w : World) : ∃ (c : Cells) (l : List ℕ), w.Cleans c ∧
    w.eraseNewFwArea.core = { w.core with flash := c, hist := w.hist ++ l.map DfuAct.erase } := by
  obtain ⟨l, hl⟩ := w.eraseNewFwArea_hist
  refine ⟨w.eraseNewFwArea.flash, l, ⟨w.eraseNewFwArea_flash_apply, eraseNewFwArea_erased⟩, ?_⟩
  simp only [core, eraseNewFwArea_cb, eraseNewFwArea_rebooted, hl]

/-- What the initialization leaves behind. -/
theorem boot_core (nextFwAddr : ℕ) (flash : Cells) (txFifo : HciFifo) :
    ∃ (c : Cells) (l : List ℕ), ((powerOn flash txFifo).initCb nextFwAddr).Cleans c ∧
      (boot nextFwAddr flash txFifo).core =
        { ((powerOn flash txFifo).initCb nextFwAddr).core with
          flash := c
          hist := DfuAct.init :: l.map DfuAct.erase } := by
  obtain ⟨c, l, hc, hcore⟩ := ((powerOn flash txFifo).initCb nextFwAddr).eraseNewFwArea_core
  refine ⟨c, l, hc, ?_⟩
  -- the revision is no part of the session
  have hrev : ∀ (w : World) (v : ℕ), { w with revision := v }.core = w.core := fun _ _ => rfl
  rw [boot, init, hrev, hcore]
  rfl

theorem boot_hist (nextFwAddr : ℕ) (flash : Cells) (txFifo : HciFifo) : ∃ l : List ℕ,
    (boot nextFwAddr flash txFifo).hist = DfuAct.init :: l.map DfuAct.erase := by
  obtain ⟨c, l, -, hcore⟩ := boot_core nextFwAddr flash txFifo
  have hhist := congrArg Core.hist hcore
  rw [core_hist] at hhist
  exact ⟨l, hhist⟩

end World

/-! ## Accepted commands -/

/-- The declared size of a `START_DFU`. -/
def fwSizeOf (pParam : ℕ → UInt8) : ℕ := bytesToUint32 pParam 3

/-- The version check of the update mode of a `START_DFU` passes. -/
def StartModeOk (pParam : ℕ → UInt8) (revision : ℕ) : Prop :=
  pParam 0 = dfuModeFwUpd ∨
  (pParam 0 = dfuModeFwUpdLatest ∧ revision < bytesToUint16 pParam 1) ∨
  (pParam 0 = dfuModeFwUpdOlder ∧ bytesToUint16 pParam 1 < revision) ∨
  (pParam 0 = dfuModeFwUpdDiff ∧ bytesToUint16 pParam 1 ≠ revision)

instance (pParam : ℕ → UInt8) (revision : ℕ) : Decidable (StartModeOk pParam revision) :=
  inferInstanceAs (Decidable (_ ∨ _ ∨ _ ∨ _))

namespace World

/-- A `START_DFU` with these parameters is accepted. -/
def StartAccepted (w : World) (pParam : ℕ → UInt8) : Prop :=
  w.cb.status ≠ .start ∧ fwSizeOf pParam ≤ w.cb.maxFwSize ∧ StartModeOk pParam w.revision

instance (w : World) (pParam : ℕ → UInt8) : Decidable (w.StartAccepted pParam) :=
  inferInstanceAs (Decidable (_ ∧ _ ∧ _))

end World

/-- The data length of an `FW_DATA` of `len` parameter bytes, computed in `u32`. -/
def dataLenOf (len : ℕ) : ℕ := u32Sub len dfuChecksumLen

namespace World

/-- An `FW_DATA` with these parameters is accepted. -/
def FwDataAccepted (w : World) (pParam : ℕ → UInt8) (len : ℕ) : Prop :=
  w.cb.resendCnt < dfuResendCnt ∧ w.cb.status = .start ∧ dataLenOf len ≤ dfuMaxPayload ∧
    crc32Calc dfuCrcInitValue (bytes pParam len) = 0 ∧ w.cb.fwOffset < w.cb.newFwSize

instance (w : World) (pParam : ℕ → UInt8) (len : ℕ) : Decidable (w.FwDataAccepted pParam len) :=
  inferInstanceAs (Decidable (_ ∧ _ ∧ _ ∧ _ ∧ _))

/-- An `END_DFU` with these parameters switches the boot flags. -/
def EndSwitches (w : World) (pParam : ℕ → UInt8) : Prop :=
  pParam 0 = dfuEndModeFwUpd ∧ w.cb.fwOffset = w.cb.newFwSize ∧ w.cb.curCrc = 0

instance (w : World) (pParam : ℕ → UInt8) : Decidable (w.EndSwitches pParam) :=
  inferInstanceAs (Decidable (_ ∧ _ ∧ _))

end World

/-- The length is in range exactly when the subtraction does not wrap. -/
theorem dataLenOf_eq {len : ℕ} (hlen : len < 256) (h : dataLenOf len ≤ dfuMaxPayload) :
    4 ≤ len ∧ dataLenOf len = len - 4 := by
  unfold dataLenOf u32Sub u32 dfuChecksumLen dfuMaxPayload at *
  omega

theorem paramLenOf_lt (p : ℕ → UInt8) : paramLenOf p < 256 := (p 3).toNat_lt

/-- An accepted packet carries its checksum, so its data length does not wrap. -/
theorem World.FwDataAccepted.dataLen_eq {w : World} {p : ℕ → UInt8}
    (h : w.FwDataAccepted (paramOf p) (paramLenOf p)) :
    4 ≤ paramLenOf p ∧ dataLenOf (paramLenOf p) = paramLenOf p - 4 :=
  dataLenOf_eq (paramLenOf_lt p) h.2.2.1

/-! ## The outcomes -/

/-- What one step makes of the session. -/
inductive Outcome (w : World) : Input → Core → Prop where
  /-- nothing: the command is refused, not for the DFU, or only answered -/
  | idle (i : Input) : Outcome w i w.core
  /-- a `START_DFU` with an oversized image is refused, but resets the session -/
  | refuseSize (now : ℕ) (p : ℕ → UInt8) (hop : opcodeOf p = hciOpcodeVsStartDfu)
      (hsta : w.cb.status ≠ .start) (hsize : w.cb.maxFwSize < fwSizeOf (paramOf p)) :
      Outcome w (.cmd now p) w.reset.core
  /-- a `START_DFU` opens a session -/
  | start (now : ℕ) (p : ℕ → UInt8) (hop : opcodeOf p = hciOpcodeVsStartDfu)
      (hacc : w.StartAccepted (paramOf p)) :
      Outcome w (.cmd now p) (w.dfuStart (fwSizeOf (paramOf p))).core
  /-- an `FW_DATA` is accepted -/
  | fwData (now : ℕ) (p : ℕ → UInt8) (hop : opcodeOf p = hciOpcodeVsFwData)
      (hacc : w.FwDataAccepted (paramOf p) (paramLenOf p)) :
      Outcome w (.cmd now p) (w.programFwData (paramOf p) (dataLenOf (paramLenOf p))).core
  /-- an `END_DFU` or a reset command terminates the session -/
  | term (now : ℕ) (p : ℕ → UInt8)
      (hop : (opcodeOf p = hciOpcodeVsEndDfu ∧
          (paramOf p 0 = dfuEndModeFwUpd ∨ paramOf p 0 = dfuEndModeTermUpd)) ∨
        (opcodeOf p = hciOpcodeReset ∧ w.cb.status = .start))
      (hsw : opcodeOf p = hciOpcodeVsEndDfu → ¬ w.EndSwitches (paramOf p)) :
      Outcome w (.cmd now p) (w.setStatus .term).core
  /-- an `END_DFU` switches the boot flags -/
  | switch (now : ℕ) (p : ℕ → UInt8) (hop : opcodeOf p = hciOpcodeVsEndDfu)
      (hsw : w.EndSwitches (paramOf p)) :
      Outcome w (.cmd now p) (w.switchBootFlags.setStatus .ended).core
  /-- the task resets the MCU -/
  | reboot (now : ℕ) (uartBusy : Bool) (hsta : w.cb.status = .ended) :
      Outcome w (.task now uartBusy) { w with cb.status := .none, rebooted := true }.core
  /-- the task cleans a terminated session up -/
  | cleanup (now : ℕ) (uartBusy : Bool) (hsta : w.cb.status = .term)
      (hsent : w.answersSent uartBusy = true) (c : Cells) (l : List ℕ) (hc : w.Cleans c) :
      Outcome w (.task now uartBusy)
        { w.reset.core with
          flash := c
          hist := w.hist ++ [DfuAct.reset] ++ l.map DfuAct.erase }
  /-- the task finds the session timed out -/
  | timeout (now : ℕ) (uartBusy : Bool) (htimer : w.cb.timer ≠ 0)
      (hto : clockTimeExceed now w.cb.timer (dfuTimeout * 1000 * 1000))
      (hsta : ¬ (w.cb.status = .ended ∧ w.answersSent uartBusy = true)) (c : Cells)
      (l : List ℕ) (hc : w.Cleans c) :
      Outcome w (.task now uartBusy)
        { w.reset.core with
          flash := c
          hist := w.hist ++ l.map DfuAct.erase ++ [DfuAct.reset] }

namespace World

variable {w : World} {now : ℕ} {p : ℕ → UInt8}

/-- `START_DFU`. -/
theorem outcome_startDfu (hop : opcodeOf p = hciOpcodeVsStartDfu) :
    Outcome w (.cmd now p) ({ w with now := now }.startDfuCmdHandler (paramOf p)).core := by
  unfold startDfuCmdHandler
  dsimp only
  have hidle : ∀ st, Outcome w (.cmd now p)
      ({ w with now := now }.sendCmdCmplStatusEvt hciOpcodeVsStartDfu st).core := by
    intro st
    rw [sendCmdCmplStatusEvt_core]
    exact Outcome.idle _
  by_cases hsta : w.cb.status = .start
  · rw [if_pos hsta]
    exact hidle _
  rw [if_neg hsta]
  by_cases hsize : w.cb.maxFwSize < bytesToUint32 (paramOf p) 3
  · rw [if_pos hsize, sendCmdCmplStatusEvt_core]
    exact Outcome.refuseSize now p hop hsta hsize
  rw [if_neg hsize]
  have hstart : StartModeOk (paramOf p) w.revision → Outcome w (.cmd now p)
      ({ w with now := now }.dfuStart (bytesToUint32 (paramOf p) 3)).core := by
    intro hmode
    have h := Outcome.start now p hop ⟨hsta, Nat.le_of_not_lt hsize, hmode⟩
    unfold dfuStart at h ⊢
    rw [sendCmdCmplEvt_core] at h ⊢
    exact h
  split_ifs with h1 h2 hv h3 hv h4 hv
  · exact hstart (Or.inl h1)
  · exact hidle _
  · exact hstart (Or.inr (Or.inl ⟨h2, by omega⟩))
  · exact hidle _
  · exact hstart (Or.inr (Or.inr (Or.inl ⟨h3, by omega⟩)))
  · exact hidle _
  · exact hstart (Or.inr (Or.inr (Or.inr ⟨h4, hv⟩)))
  · exact hidle _

/-- `FW_DATA`. -/
theorem outcome_fwData (hop : opcodeOf p = hciOpcodeVsFwData) :
    Outcome w (.cmd now p)
      ({ w with now := now }.fwDataCmdHandler (paramOf p) (paramLenOf p)).core := by
  unfold fwDataCmdHandler
  dsimp only
  split_ifs with hcnt hsta hlen hcrc hoff
  · exact Outcome.idle _
  all_goals rw [sendCmdStatusEvt_core]
  · exact Outcome.idle _
  · exact Outcome.idle _
  · exact Outcome.idle _
  · exact Outcome.fwData now p hop ⟨Nat.lt_of_not_le hcnt, not_not.mp hsta,
      Nat.le_of_not_lt hlen, not_not.mp hcrc, hoff⟩
  · exact Outcome.idle _

/-- `END_DFU`. -/
theorem outcome_endDfu (hop : opcodeOf p = hciOpcodeVsEndDfu) :
    Outcome w (.cmd now p) ({ w with now := now }.endDfuCmdHandler (paramOf p)).core := by
  unfold endDfuCmdHandler
  dsimp only [restartTimer]
  have hset : ∀ (w₁ w₂ : World) (sta : DfuSta), w₁.core = w₂.core →
      (w₁.setStatus sta).core = (w₂.setStatus sta).core := by
    intro w₁ w₂ sta h
    simp only [core, Core.mk.injEq] at h
    simp only [core, setStatus, h]
  by_cases hmode : paramOf p 0 = dfuEndModeFwUpd
  · rw [if_pos hmode]
    by_cases hoff : w.cb.fwOffset = w.cb.newFwSize
    swap
    · rw [if_pos hoff, hset _ w .term (by rw [sendCmdCmplStatusEvt_core]; rfl)]
      exact Outcome.term now p (Or.inl ⟨hop, Or.inl hmode⟩) fun _ h => hoff h.2.1
    rw [if_neg (not_not.mpr hoff)]
    by_cases hcrc : w.cb.curCrc = 0
    swap
    · rw [if_pos hcrc, hset _ w .term (by rw [sendCmdCmplStatusEvt_core]; rfl)]
      exact Outcome.term now p (Or.inl ⟨hop, Or.inl hmode⟩) fun _ h => hcrc h.2.2
    rw [if_neg (not_not.mpr hcrc),
      hset _ w.switchBootFlags .ended (by rw [sendCmdCmplStatusEvt_core]; rfl)]
    exact Outcome.switch now p hop ⟨hmode, hoff, hcrc⟩
  · rw [if_neg hmode]
    by_cases hmode' : paramOf p 0 = dfuEndModeTermUpd
    · rw [if_pos hmode', sendCmdCmplStatusEvt_core]
      exact Outcome.term now p (Or.inl ⟨hop, Or.inr hmode'⟩) fun _ h => hmode h.1
    · rw [if_neg hmode', sendCmdCmplStatusEvt_core]
      exact Outcome.idle _

theorem isEnable_of_takesOver {op : ℕ} (hop : opcodeOf p = op) (hogf : hciOgf op ≠ hciOgfVs)
    (h : w.takesOver p = true) : w.cb.status = .start := by
  have hen : w.isEnable = true := by
    rw [takesOver, hop, Bool.and_eq_true] at h
    simpa [hogf] using h.1
  simpa [isEnable] using hen

/-- A command packet. -/
theorem outcome_cmd : Outcome w (.cmd now p) ({ w with now := now }.handler p).core := by
  unfold handler
  split
  · rename_i htakes
    unfold cmdHandler
    dsimp only
    split_ifs with h1 h2 h3 h4 h5
    · exact outcome_startDfu h1
    · exact outcome_fwData h2
    · exact outcome_endDfu h3
    · have hsta := isEnable_of_takesOver h4 (by decide) htakes
      rw [sendCmdCmplStatusEvt_core]
      exact Outcome.term now p (Or.inr ⟨h4, hsta⟩) fun h => absurd (h4.symm.trans h) (by decide)
    · rw [sendCmdCmplEvt_core]
      exact Outcome.idle _
    · rw [sendCmdStatusEvt_core]
      exact Outcome.idle _
  · exact Outcome.idle _

/-- A run of the periodic task. -/
theorem outcome_task {uartBusy : Bool} :
    Outcome w (.task now uartBusy) ({ w with now := now }.taskStart uartBusy).core := by
  unfold taskStart
  split
  · rename_i h
    exact Outcome.reboot now uartBusy h.1
  rename_i hend
  unfold taskTerm
  split
  · rename_i h
    -- the clean-up clears the timer, so no timeout follows it
    unfold taskTimeout
    rw [if_neg (by simp [reset])]
    obtain ⟨c, l, hc, hcore⟩ :=
      ({ w with now := now }.setStatus .none).reset.eraseNewFwArea_core
    rw [hcore]
    exact Outcome.cleanup (w := w) now uartBusy h.1 h.2 c l ⟨hc.cell, hc.erased⟩
  · unfold taskTimeout
    split
    · rename_i h
      obtain ⟨c, l, hc, hcore⟩ := { w with now := now }.eraseNewFwArea_core
      rw [reset_core, hcore]
      exact Outcome.timeout (w := w) now uartBusy h.1 h.2 hend c l ⟨hc.cell, hc.erased⟩
    · exact Outcome.idle _

/-- What a step can do. -/
theorem outcome_step (w : World) (i : Input) : Outcome w i (w.step i).core := by
  unfold step
  split
  · exact Outcome.idle _
  cases i with
  | cmd now p => exact outcome_cmd
  | task now uartBusy => exact outcome_task
  | txDone =>
    dsimp only
    split <;> exact Outcome.idle _

/-! ## Accepted commands do what they say -/

theorem startDfuCmdHandler_of_accepted {pParam : ℕ → UInt8} (h : w.StartAccepted pParam) :
    w.startDfuCmdHandler pParam = w.dfuStart (fwSizeOf pParam) := by
  obtain ⟨hsta, hsize, hmode⟩ := h
  unfold fwSizeOf at *
  unfold startDfuCmdHandler
  dsimp only
  rw [if_neg hsta, if_neg (Nat.not_lt.mpr hsize)]
  rcases hmode with hmode | ⟨hmode, hver⟩ | ⟨hmode, hver⟩ | ⟨hmode, hver⟩
  · rw [if_pos hmode]
  · rw [hmode, if_neg (by decide), if_pos rfl, if_neg (Nat.not_le.mpr hver)]
  · rw [hmode, if_neg (by decide), if_neg (by decide), if_pos rfl, if_neg (Nat.not_le.mpr hver)]
  · rw [hmode, if_neg (by decide), if_neg (by decide), if_neg (by decide), if_pos rfl,
      if_neg hver]

theorem fwDataCmdHandler_of_accepted {pParam : ℕ → UInt8} {len : ℕ}
    (h : w.FwDataAccepted pParam len) :
    w.fwDataCmdHandler pParam len =
      ((w.restartTimer.setResendCnt 0).programFwData pParam
        (dataLenOf len)).sendCmdStatusEvt hciOpcodeVsFwData hciSuccess := by
  obtain ⟨hcnt, hsta, hlen, hcrc, hoff⟩ := h
  unfold fwDataCmdHandler
  dsimp only
  rw [if_neg (Nat.not_le.mpr hcnt),
    if_neg (show ¬ w.restartTimer.cb.status ≠ .start from not_not.mpr hsta),
    if_neg (show ¬ dfuMaxPayload < u32Sub len dfuChecksumLen from Nat.not_lt.mpr hlen),
    if_neg (not_not.mpr hcrc)]
  exact if_pos hoff

/-- The DFU commands are taken over in every state. -/
theorem takesOver_of_dfu (hop : opcodeOf p = hciOpcodeVsStartDfu ∨
    opcodeOf p = hciOpcodeVsEndDfu ∨ opcodeOf p = hciOpcodeVsFwData) : w.takesOver p = true := by
  unfold takesOver
  rcases hop with hop | hop | hop <;> rw [hop] <;> rfl

theorem step_startDfu (hrun : w.rebooted = false) (hop : opcodeOf p = hciOpcodeVsStartDfu)
    (hacc : w.StartAccepted (paramOf p)) :
    (w.step (.cmd now p)).core = (w.dfuStart (fwSizeOf (paramOf p))).core := by
  unfold step handler cmdHandler
  rw [if_neg (by simp [hrun])]
  dsimp only
  rw [takesOver_of_dfu (Or.inl hop), if_pos rfl, hop, if_pos rfl,
    startDfuCmdHandler_of_accepted (w := { w with now := now }) hacc, dfuStart_core, dfuStart_core]
  rfl

theorem step_fwData (hrun : w.rebooted = false) (hop : opcodeOf p = hciOpcodeVsFwData)
    (hacc : w.FwDataAccepted (paramOf p) (paramLenOf p)) :
    (w.step (.cmd now p)).core =
      (w.programFwData (paramOf p) (dataLenOf (paramLenOf p))).core := by
  unfold step handler cmdHandler
  rw [if_neg (by simp [hrun])]
  dsimp only
  rw [takesOver_of_dfu (Or.inr (Or.inr hop)), if_pos rfl, hop, if_neg (by decide), if_pos rfl,
    fwDataCmdHandler_of_accepted (w := { w with now := now }) hacc, sendCmdStatusEvt_core]
  rfl

/-! ## What every run keeps -/

end World

/-- No step changes the slots, and a machine that has been reset does nothing. -/
structure Core.Settled (nextFwAddr : ℕ) (c : Core) : Prop where
  newFwAddrStart_eq : c.newFwAddrStart = dfuNewFwAddrBase
  maxFwSize_eq : c.maxFwSize = dfuNewFwMaxSize
  nextFwAddrStart_eq : c.nextFwAddrStart = nextFwAddr
  rebooted_status : c.rebooted = true → c.status = .none

/-- A machine with an open session has not been reset. -/
theorem Core.Settled.running {nextFwAddr : ℕ} {w : World} (h : w.core.Settled nextFwAddr)
    (hsta : w.cb.status = .start) : w.rebooted = false := by
  by_contra hrun
  have hnone := h.rebooted_status (by simpa using hrun)
  exact absurd (hsta.symm.trans hnone) (by decide)

namespace World

variable {w : World} {i : Input} {nextFwAddr : ℕ}

theorem settled_step (h : w.core.Settled nextFwAddr) : (w.step i).core.Settled nextFwAddr := by
  by_cases hrun : w.rebooted = true
  · rwa [show w.step i = w from if_pos hrun]
  have hout := outcome_step w i
  generalize (w.step i).core = c at hout
  obtain ⟨hbase, hmax, hnext, -⟩ := h
  -- in all cases but one the machine keeps running
  have hkeep : c.newFwAddrStart = w.core.newFwAddrStart ∧ c.maxFwSize = w.core.maxFwSize ∧
      c.nextFwAddrStart = w.core.nextFwAddrStart ∧ (c.rebooted = true → c.status = .none) := by
    cases hout with
    | start =>
      rw [dfuStart_core]
      exact ⟨rfl, rfl, rfl, fun h => absurd h hrun⟩
    | reboot => exact ⟨rfl, rfl, rfl, fun _ => rfl⟩
    | fwData =>
      rw [programFwData_core]
      exact ⟨rfl, rfl, rfl, fun h => absurd h hrun⟩
    | _ => exact ⟨rfl, rfl, rfl, fun h => absurd h hrun⟩
  exact ⟨hkeep.1.trans hbase, hkeep.2.1.trans hmax, hkeep.2.2.1.trans hnext, hkeep.2.2.2⟩

theorem settled_boot (flash : Cells) (txFifo : HciFifo) :
    (boot nextFwAddr flash txFifo).core.Settled nextFwAddr := by
  obtain ⟨c, l, -, hcore⟩ := boot_core nextFwAddr flash txFifo
  rw [hcore]
  exact ⟨rfl, rfl, rfl, nofun⟩

theorem settled_run (flash : Cells) (txFifo : HciFifo) (is : List Input) :
    (Machine.run step (boot nextFwAddr flash txFifo) is).core.Settled nextFwAddr := by
  have hstep : ∀ w i, (core w).Settled nextFwAddr → True → (core (w.step i)).Settled nextFwAddr :=
    fun _ _ h _ => settled_step h
  exact Machine.run_invariant hstep (settled_boot flash txFifo) (Machine.along_true _ _)

/-! ## The history grows -/

/-- What the boot switch records. -/
def switchActs (w : World) : List DfuAct :=
  [.write (w.cb.nextFwAddrStart + dfuFwFlagOffset) [bootFlagValid],
    .write (w.baseAddr + dfuFwFlagOffset) [0x00], .bootSwitch]

theorem switchBootFlags_hist (w : World) : w.switchBootFlags.hist = w.hist ++ w.switchActs := by
  simp [switchBootFlags, switchActs, flashWritePage]
  rfl

/-- The boot switch is the last of its actions. -/
theorem switchActs_split {w : World} {l₁ l₂ : List DfuAct}
    (h : w.switchActs = l₁ ++ .bootSwitch :: l₂) :
    l₁ = [.write (w.cb.nextFwAddrStart + dfuFwFlagOffset) [bootFlagValid],
      .write (w.baseAddr + dfuFwFlagOffset) [0x00]] ∧ l₂ = [] := by
  unfold switchActs at h
  match l₁, h with
  | [], h => simp at h
  | [a], h => simp at h
  | [a, b], h => simpa [eq_comm, and_assoc] using h
  | a :: b :: c :: l₁, h => simp at h

/-- A step appends to the history, and a boot switch is all that its step appends. -/
theorem hist_step (w : World) (i : Input) :
    ∃ l, (w.step i).hist = w.hist ++ l ∧ (DfuAct.bootSwitch ∈ l →
      l = w.switchActs ∧ ∃ now p, i = .cmd now p ∧ opcodeOf p = hciOpcodeVsEndDfu ∧
        w.EndSwitches (paramOf p)) := by
  have hout := outcome_step w i
  rw [← core_hist]
  generalize (w.step i).core = c at hout
  cases hout with
  | idle => exact ⟨[], by simp⟩
  | refuseSize now p => exact ⟨[.reset], by simp [reset]⟩
  | start now p =>
    rw [dfuStart_core]
    exact ⟨[.reset, .start (fwSizeOf (paramOf p))], by simp⟩
  | fwData now p =>
    rw [programFwData_core]
    exact ⟨_, List.append_assoc _ _ _, by simp⟩
  | term => exact ⟨[], by simp [setStatus]⟩
  | switch now p hop hsw =>
    exact ⟨w.switchActs, w.switchBootFlags_hist, fun _ => ⟨rfl, now, p, rfl, hop, hsw⟩⟩
  | reboot => exact ⟨[], by simp⟩
  | cleanup => exact ⟨_, List.append_assoc _ _ _, by simp⟩
  | timeout => exact ⟨_, List.append_assoc _ _ _, by simp⟩

end World

/-! ## Commands as the host builds them -/

/-- An HCI command packet. -/
def cmdPacket (opcode : ℕ) (param : List UInt8) : ℕ → UInt8 :=
  mem ([trTypeCmd] ++ uint16ToBstream opcode ++ [UInt8.ofNat param.length] ++ param)

/-- `START_DFU` for an image of `fwSize` bytes, whatever its version. -/
def startDfuCmd (fwSize : ℕ) : ℕ → UInt8 :=
  cmdPacket hciOpcodeVsStartDfu
    ([dfuModeFwUpd, 0, 0] ++ uint16ToBstream fwSize ++ uint16ToBstream (fwSize / 65536))

/-- `FW_DATA` with its checksum. -/
def fwDataCmd (data : List UInt8) : ℕ → UInt8 :=
  let crc := (crc32Calc dfuCrcInitValue data).toNat
  cmdPacket hciOpcodeVsFwData (data ++ uint16ToBstream crc ++ uint16ToBstream (crc / 65536))

/-- `END_DFU`. -/
def endDfuCmd (endMode : UInt8) : ℕ → UInt8 := cmdPacket hciOpcodeVsEndDfu [endMode]

/-- An image of 37 bytes that carries the boot flag and ends with its own CRC. -/
def sampleImage : List UInt8 :=
  (List.range 32).map UInt8.ofNat ++ [bootFlagValid, 42, 196, 15, 193]

/-- Power-on with an erased flash and an empty event FIFO. -/
def World.bootErased : World :=
  boot dfuNewFwAddrBase (fun _ => 0xFF) (HciFifo.empty 260 3 HciFifo.three_le_seven)

end TlBleSdk.Dfu
