import TlBleSdk.Dfu.Steps

/-!
# The answers of the DFU

Every command that the DFU takes over is answered by one event, but for an `FW_DATA` behind
the third one in a row with a wrong checksum: the code ignores it until the session is
reset. The answers are read here as the host reads them, from the bytes in the event FIFO.
-/

namespace TlBleSdk.Dfu

open Hci NorFlash Machine

/-! ## Reading an event -/

/-- The opcode a command complete or command status event answers. -/
def evtOpcode (ev : List UInt8) : ℕ :=
  if mem ev 3 = 0x0E then bytesToUint16 (mem ev) 6 else bytesToUint16 (mem ev) 7

/-- The status such an event reports. -/
def evtStatus (ev : List UInt8) : UInt8 := if mem ev 3 = 0x0E then mem ev 8 else mem ev 5

theorem bytesToUint16_uint16ToBstream {n : ℕ} (hn : n < 65536) :
    (UInt8.ofNat n).toNat + (UInt8.ofNat (n / 256)).toNat * 256 = n := by
  simp only [UInt8.toNat_ofNat']
  omega

theorem evtOpcode_cmdCmplEvt {opcode : ℕ} (hop : opcode < 65536) (param : List UInt8) :
    evtOpcode (cmdCmplEvt opcode param) = opcode :=
  bytesToUint16_uint16ToBstream hop

theorem evtStatus_cmdCmplEvt (opcode : ℕ) (status : UInt8) (param : List UInt8) :
    evtStatus (cmdCmplEvt opcode (status :: param)) = status := rfl

theorem evtOpcode_cmdStatusEvt {opcode : ℕ} (hop : opcode < 65536) (status : UInt8) :
    evtOpcode (cmdStatusEvt opcode status) = opcode :=
  bytesToUint16_uint16ToBstream hop

theorem evtStatus_cmdStatusEvt (opcode : ℕ) (status : UInt8) :
    evtStatus (cmdStatusEvt opcode status) = status := rfl

/-! ## Exits of the handlers -/

namespace World

/-- From `w` a handler arrives at `w'` with the session `c`, and puts `ev` and nothing else
into an event FIFO that has room. -/
structure Sends (w w' : World) (ev : List UInt8) (c : Core) : Prop where
  core_eq : w'.core = c
  txFifo_eq : w.txFifo.used < w.txFifo.num → w'.txFifo = w.txFifo.push ev

variable {w : World}

theorem sends_sendEvt (w₁ : World) (hfifo : w₁.txFifo = w.txFifo) (ev : List UInt8) :
    w.Sends (w₁.sendEvt ev) ev w₁.core where
  core_eq := sendEvt_core w₁ ev
  txFifo_eq hfree := by
    unfold sendEvt
    rw [hfifo, if_neg]
    -- the pointer difference is at most the number of unread entries
    have hw := w.txFifo.wptr_lt
    have hr := w.txFifo.rptr_lt
    unfold HciFifo.used at hfree
    omega

theorem sends_cmdStatus (w₁ : World) (hfifo : w₁.txFifo = w.txFifo) (opcode : ℕ)
    (status : UInt8) :
    w.Sends (w₁.sendCmdStatusEvt opcode status) (cmdStatusEvt opcode status) w₁.core :=
  sends_sendEvt w₁ hfifo _

theorem sends_cmdCmplStatus (w₁ : World) (hfifo : w₁.txFifo = w.txFifo) (opcode : ℕ)
    (status : UInt8) :
    w.Sends (w₁.sendCmdCmplStatusEvt opcode status) (cmdCmplEvt opcode [status]) w₁.core :=
  sends_sendEvt w₁ hfifo _

theorem sends_dfuStart (fwSize : ℕ) :
    w.Sends (w.dfuStart fwSize) (cmdCmplEvt hciOpcodeVsStartDfu
      [hciSuccess, UInt8.ofNat dfuMaxPayload, 0]) (w.dfuStart fwSize).core := by
  have hsend := sends_sendEvt (w := w) (w.openSession fwSize) rfl (cmdCmplEvt hciOpcodeVsStartDfu
    [hciSuccess, UInt8.ofNat dfuMaxPayload, 0])
  exact ⟨rfl, hsend.txFifo_eq⟩

/-- What `FW_DATA` answers and what it makes of the session. -/
inductive FwDataExit (w : World) (pParam : ℕ → UInt8) (len : ℕ) : UInt8 → Core → Prop where
  | accepted (hacc : w.FwDataAccepted pParam len) :
      FwDataExit w pParam len hciSuccess (w.programFwData pParam (dataLenOf len)).core
  | refused (status : UInt8) (hstatus : status ≠ hciSuccess) :
      FwDataExit w pParam len status w.core

theorem fwDataCmdHandler_exit (pParam : ℕ → UInt8) (len : ℕ)
    (hcnt : w.cb.resendCnt < dfuResendCnt) : ∃ status c,
    w.FwDataExit pParam len status c ∧
      w.Sends (w.fwDataCmdHandler pParam len) (cmdStatusEvt hciOpcodeVsFwData status) c := by
  by_cases hacc : w.FwDataAccepted pParam len
  · refine ⟨_, _, .accepted hacc, ?_⟩
    rw [fwDataCmdHandler_of_accepted hacc, ← w.programFwData_bookkeeping pParam (dataLenOf len) 0]
    have hfifo := (w.restartTimer.setResendCnt 0).programFwData_txFifo pParam (dataLenOf len)
    exact sends_cmdStatus (w := w) _ hfifo _ _
  · have hrefused : ∀ w₁ : World, w₁.txFifo = w.txFifo → w₁.core = w.core →
        ∀ status, status ≠ hciSuccess → ∃ status' c, w.FwDataExit pParam len status' c ∧
          w.Sends (w₁.sendCmdStatusEvt hciOpcodeVsFwData status)
            (cmdStatusEvt hciOpcodeVsFwData status') c :=
      fun w₁ hfifo hcore status hstatus =>
        ⟨status, w.core, .refused status hstatus, hcore ▸ sends_cmdStatus w₁ hfifo _ _⟩
    unfold fwDataCmdHandler
    dsimp only
    rw [if_neg (Nat.not_le.mpr hcnt)]
    split_ifs with hsta hlen hcrc hoff
    · exact hrefused w.restartTimer rfl rfl _ (by decide)
    · exact hrefused w.restartTimer rfl rfl _ (by decide)
    · exact hrefused (w.restartTimer.setResendCnt (u8 (w.cb.resendCnt + 1))) rfl rfl _ (by decide)
    · exact absurd ⟨hcnt, not_not.mp hsta, Nat.le_of_not_lt hlen, not_not.mp hcrc, hoff⟩ hacc
    · exact hrefused (w.restartTimer.setResendCnt 0) rfl rfl _ (by decide)

/-- What `START_DFU` answers and what it makes of the session. -/
inductive StartExit (w : World) (pParam : ℕ → UInt8) : UInt8 → List UInt8 → Core → Prop where
  | accepted (hacc : w.StartAccepted pParam) :
      StartExit w pParam hciSuccess [UInt8.ofNat dfuMaxPayload, 0]
        (w.dfuStart (fwSizeOf pParam)).core
  | refused (status : UInt8) (hstatus : status ≠ hciSuccess) : StartExit w pParam status [] w.core
  | tooLarge (hsta : w.cb.status ≠ .start) (hsize : w.cb.maxFwSize < fwSizeOf pParam) :
      StartExit w pParam hciErrInvalidParam [] w.reset.core

theorem startDfuCmdHandler_exit (pParam : ℕ → UInt8) : ∃ status rest c,
    w.StartExit pParam status rest c ∧
      w.Sends (w.startDfuCmdHandler pParam)
        (cmdCmplEvt hciOpcodeVsStartDfu (status :: rest)) c := by
  by_cases hacc : w.StartAccepted pParam
  · refine ⟨_, _, _, .accepted hacc, ?_⟩
    rw [startDfuCmdHandler_of_accepted hacc]
    exact sends_dfuStart _
  · have hrefused : ∀ status, status ≠ hciSuccess → ∃ status' rest c,
        w.StartExit pParam status' rest c ∧
          w.Sends (w.sendCmdCmplStatusEvt hciOpcodeVsStartDfu status)
            (cmdCmplEvt hciOpcodeVsStartDfu (status' :: rest)) c :=
      fun status hstatus =>
        ⟨status, [], w.core, .refused status hstatus, sends_cmdCmplStatus w rfl _ _⟩
    unfold startDfuCmdHandler
    dsimp only
    split_ifs with hsta hsize h1 h2 hv h3 hv h4 hv
    · exact hrefused _ (by decide)
    · exact ⟨_, _, _, .tooLarge hsta hsize, sends_cmdCmplStatus (w := w) w.reset rfl _ _⟩
    · exact absurd ⟨hsta, Nat.le_of_not_lt hsize, Or.inl h1⟩ hacc
    · exact hrefused _ (by decide)
    · exact absurd ⟨hsta, Nat.le_of_not_lt hsize,
        Or.inr (Or.inl ⟨h2, Nat.lt_of_not_le hv⟩)⟩ hacc
    · exact hrefused _ (by decide)
    · exact absurd ⟨hsta, Nat.le_of_not_lt hsize,
        Or.inr (Or.inr (Or.inl ⟨h3, Nat.lt_of_not_le hv⟩))⟩ hacc
    · exact hrefused _ (by decide)
    · exact absurd ⟨hsta, Nat.le_of_not_lt hsize, Or.inr (Or.inr (Or.inr ⟨h4, hv⟩))⟩ hacc
    · exact hrefused _ (by decide)

/-- `END_DFU` answers, whatever it makes of the session. -/
theorem endDfuCmdHandler_exit (pParam : ℕ → UInt8) (hfree : w.txFifo.used < w.txFifo.num) :
    ∃ status,
    (w.endDfuCmdHandler pParam).txFifo =
      w.txFifo.push (cmdCmplEvt hciOpcodeVsEndDfu [status]) := by
  have hsend : ∀ w₁ : World, w₁.txFifo = w.txFifo → ∀ status,
      (w₁.sendCmdCmplStatusEvt hciOpcodeVsEndDfu status).txFifo =
        w.txFifo.push (cmdCmplEvt hciOpcodeVsEndDfu [status]) :=
    fun w₁ hfifo status => (sends_cmdCmplStatus w₁ hfifo _ status).txFifo_eq hfree
  unfold endDfuCmdHandler
  dsimp only
  split_ifs
  · exact ⟨_, hsend w.restartTimer rfl _⟩
  · exact ⟨_, hsend w.restartTimer rfl _⟩
  · exact ⟨_, hsend w.restartTimer.switchBootFlags rfl _⟩
  · exact ⟨_, hsend (w.restartTimer.setStatus .term) rfl _⟩
  · exact ⟨_, hsend w.restartTimer rfl _⟩

/-! ## Every command is answered -/

/-- An `FW_DATA` behind `DFU_RESEND_CNT` wrong checksums in a row. -/
def AtResendLimit (w : World) (p : ℕ → UInt8) : Prop :=
  opcodeOf p = hciOpcodeVsFwData ∧ dfuResendCnt ≤ w.cb.resendCnt

instance (w : World) (p : ℕ → UInt8) : Decidable (w.AtResendLimit p) :=
  inferInstanceAs (Decidable (_ ∧ _))

/-- Flash, status, declared size, offset and CRC are the same. -/
def SameSession (w w' : World) : Prop :=
  w'.flash = w.flash ∧ w'.cb.status = w.cb.status ∧ w'.cb.newFwSize = w.cb.newFwSize ∧
    w'.cb.fwOffset = w.cb.fwOffset ∧ w'.cb.curCrc = w.cb.curCrc

/-- The data of the `FW_DATA` command `p` were programmed and the offset advanced. -/
def Programmed (w w' : World) (p : ℕ → UInt8) : Prop :=
  w'.flash = program w.flash w.fwDataAddr
      (bytes (w.maskedParam (paramOf p) (paramLenOf p - 4)) (paramLenOf p - 4)) ∧
    w'.hist = w.hist ++ [DfuAct.write w.fwDataAddr
      (bytes (w.maskedParam (paramOf p) (paramLenOf p - 4)) (paramLenOf p - 4))] ++
      [DfuAct.fwData (bytes (paramOf p) (paramLenOf p - 4))] ∧
    w'.cb.fwOffset = w.cb.fwOffset + (paramLenOf p - 4)

/-- A session is open at offset 0, with the size that the `START_DFU` command `p` declares
and a fresh CRC. -/
def FreshSession (w' : World) (p : ℕ → UInt8) : Prop :=
  w'.cb.status = .start ∧ w'.cb.fwOffset = 0 ∧ w'.cb.newFwSize = fwSizeOf (paramOf p) ∧
    w'.cb.curCrc = dfuCrcInitValue

/-- `ev` answers the command `p` truthfully, which leads from `w` to `w'`. -/
structure Answers (w w' : World) (p : ℕ → UInt8) (ev : List UInt8) : Prop where
  sent : w'.txFifo = w.txFifo.push ev
  opcode : evtOpcode ev = opcodeOf p
  fwData_success : opcodeOf p = hciOpcodeVsFwData →
    (evtStatus ev = hciSuccess ↔ w.Programmed w' p)
  fwData_error : opcodeOf p = hciOpcodeVsFwData → evtStatus ev ≠ hciSuccess → w.SameSession w'
  start_success : opcodeOf p = hciOpcodeVsStartDfu →
    (evtStatus ev = hciSuccess ↔ w.cb.status ≠ .start ∧ w'.FreshSession p)
  start_error : opcodeOf p = hciOpcodeVsStartDfu → evtStatus ev ≠ hciSuccess →
    w'.flash = w.flash ∧
      (w.cb.status = .start ∨ fwSizeOf (paramOf p) ≤ w.cb.maxFwSize → w.SameSession w')

variable {now : ℕ} {p : ℕ → UInt8}

theorem opcodeOf_lt (p : ℕ → UInt8) : opcodeOf p < 65536 := bytesToUint16_lt p 1

/-- The session is the same where the core is. -/
theorem sameSession_of_core {w w' : World} (h : w'.core = w.core) : w.SameSession w' :=
  ⟨congrArg Core.flash h, congrArg Core.status h, congrArg Core.newFwSize h,
    congrArg Core.fwOffset h, congrArg Core.curCrc h⟩

theorem answers_fwData {w w' : World} (hop : opcodeOf p = hciOpcodeVsFwData) {status : UInt8}
    {c : Core} (hexit : w.FwDataExit (paramOf p) (paramLenOf p) status c)
    (hsends : w.Sends w' (cmdStatusEvt hciOpcodeVsFwData status) c)
    (hfree : w.txFifo.used < w.txFifo.num) :
    w.Answers w' p (cmdStatusEvt hciOpcodeVsFwData status) := by
  have hne : opcodeOf p ≠ hciOpcodeVsStartDfu := by
    rw [hop]
    decide
  refine ⟨hsends.txFifo_eq hfree, ?_, ?_, ?_, fun h => absurd h hne, fun h => absurd h hne⟩
  · rw [evtOpcode_cmdStatusEvt (by decide), hop]
  · intro _
    rw [evtStatus_cmdStatusEvt]
    have hcore := hsends.core_eq
    cases hexit with
    | accepted hacc =>
      refine ⟨fun _ => ?_, fun _ => rfl⟩
      have hlen := hacc.dataLen_eq.2
      rw [programFwData_core, hlen] at hcore
      exact ⟨congrArg Core.flash hcore, congrArg Core.hist hcore, congrArg Core.fwOffset hcore⟩
    | refused _ hstatus =>
      refine ⟨fun h => absurd h hstatus, fun hprog => ?_⟩
      -- a refused packet leaves no trace in the history
      have hhist := hprog.2.1
      rw [show w'.hist = w.hist from congrArg Core.hist hcore] at hhist
      simp at hhist
  · intro _ hstatus
    cases hexit with
    | accepted => exact absurd (evtStatus_cmdStatusEvt _ _) hstatus
    | refused => exact sameSession_of_core hsends.core_eq

theorem answers_startDfu {w w' : World} (hop : opcodeOf p = hciOpcodeVsStartDfu) {status : UInt8}
    {rest : List UInt8} {c : Core} (hexit : w.StartExit (paramOf p) status rest c)
    (hsends : w.Sends w' (cmdCmplEvt hciOpcodeVsStartDfu (status :: rest)) c)
    (hfree : w.txFifo.used < w.txFifo.num) :
    w.Answers w' p (cmdCmplEvt hciOpcodeVsStartDfu (status :: rest)) := by
  have hne : opcodeOf p ≠ hciOpcodeVsFwData := by
    rw [hop]
    decide
  refine ⟨hsends.txFifo_eq hfree, ?_, fun h => absurd h hne, fun h => absurd h hne, ?_, ?_⟩
  · rw [evtOpcode_cmdCmplEvt (by decide), hop]
  · intro _
    rw [evtStatus_cmdCmplEvt]
    have hcore := hsends.core_eq
    cases hexit with
    | accepted hacc =>
      refine ⟨fun _ => ⟨hacc.1, ?_⟩, fun _ => rfl⟩
      rw [dfuStart_core] at hcore
      exact ⟨congrArg Core.status hcore, congrArg Core.fwOffset hcore,
        congrArg Core.newFwSize hcore, congrArg Core.curCrc hcore⟩
    | refused _ hstatus =>
      refine ⟨fun h => absurd h hstatus, fun h => ?_⟩
      exact absurd ((congrArg Core.status hcore).symm.trans h.2.1) h.1
    | tooLarge =>
      refine ⟨fun h => absurd h (by decide), fun h => ?_⟩
      exact absurd ((congrArg Core.status hcore).symm.trans h.2.1)
        (show DfuSta.none ≠ .start by decide)
  · intro _ hstatus
    cases hexit with
    | accepted => exact absurd (evtStatus_cmdCmplEvt _ _ _) hstatus
    | refused =>
      have hsame := sameSession_of_core hsends.core_eq
      exact ⟨hsame.1, fun _ => hsame⟩
    | tooLarge hsta hsize =>
      refine ⟨congrArg Core.flash hsends.core_eq, fun h => ?_⟩
      rcases h with h | h
      · exact absurd h hsta
      · exact absurd hsize (Nat.not_lt.mpr h)

/-- A command about which only the opcode of its answer is said. -/
theorem answers_other {w w' : World} {ev : List UInt8} (hfw : opcodeOf p ≠ hciOpcodeVsFwData)
    (hst : opcodeOf p ≠ hciOpcodeVsStartDfu) (hsent : w'.txFifo = w.txFifo.push ev)
    (hop : evtOpcode ev = opcodeOf p) : w.Answers w' p ev :=
  ⟨hsent, hop, fun h => absurd h hfw, fun h => absurd h hfw, fun h => absurd h hst,
    fun h => absurd h hst⟩

theorem cmdHandler_answers {w : World} (hfree : w.txFifo.used < w.txFifo.num)
    (hlimit : ¬ w.AtResendLimit p) : ∃ ev, w.Answers (w.cmdHandler p) p ev := by
  unfold cmdHandler
  dsimp only
  split_ifs with h1 h2 h3 h4 h5
  · obtain ⟨status, rest, c, hexit, hsends⟩ := startDfuCmdHandler_exit (w := w) (paramOf p)
    exact ⟨_, answers_startDfu h1 hexit hsends hfree⟩
  · have hcnt : w.cb.resendCnt < dfuResendCnt := Nat.lt_of_not_le fun h => hlimit ⟨h2, h⟩
    obtain ⟨status, c, hexit, hsends⟩ :=
      fwDataCmdHandler_exit (paramOf p) (paramLenOf p) hcnt
    exact ⟨_, answers_fwData h2 hexit hsends hfree⟩
  · obtain ⟨status, hsent⟩ := endDfuCmdHandler_exit (paramOf p) hfree
    exact ⟨_, answers_other h2 h1 hsent ((evtOpcode_cmdCmplEvt (by decide) _).trans h3.symm)⟩
  · have hsends := sends_cmdCmplStatus (w := w) (w.setStatus .term) rfl (opcodeOf p) hciSuccess
    exact ⟨_, answers_other h2 h1 (hsends.txFifo_eq hfree) (evtOpcode_cmdCmplEvt (opcodeOf_lt p) _)⟩
  · have hsends := sends_sendEvt (w := w) w rfl (cmdCmplEvt (opcodeOf p)
      ([hciSuccess, bluetoothVer] ++ uint16ToBstream w.revision ++ [bluetoothVer] ++
        uint16ToBstream vendorId ++ uint16ToBstream 0))
    exact ⟨_, answers_other h2 h1 (hsends.txFifo_eq hfree) (evtOpcode_cmdCmplEvt (opcodeOf_lt p) _)⟩
  · have hsends := sends_cmdStatus (w := w) w rfl (opcodeOf p) hciErrCmdDisallowed
    exact ⟨_, answers_other h2 h1 (hsends.txFifo_eq hfree)
      (evtOpcode_cmdStatusEvt (opcodeOf_lt p) _)⟩

/-- In every state, every command that the DFU takes over is answered truthfully while the
event FIFO has room, but for the `FW_DATA` behind the resend limit, which changes nothing. -/
theorem cmd_answered (w : World) (now : ℕ) (p : ℕ → UInt8) (hrun : w.rebooted = false)
    (htakes : w.takesOver p = true) (hfree : w.txFifo.used < w.txFifo.num) :
    (¬ w.AtResendLimit p → ∃ ev, w.Answers (w.step (.cmd now p)) p ev) ∧
      (w.AtResendLimit p → w.step (.cmd now p) = { w with now := now }) := by
  have hstep : w.step (.cmd now p) = { w with now := now }.cmdHandler p := by
    unfold step handler
    rw [if_neg (by simp [hrun])]
    exact if_pos htakes
  rw [hstep]
  constructor
  · intro hlimit
    obtain ⟨ev, hev⟩ := cmdHandler_answers (w := { w with now := now }) hfree hlimit
    exact ⟨ev, hev.sent, hev.opcode, hev.fwData_success, hev.fwData_error, hev.start_success,
      hev.start_error⟩
  · rintro ⟨hop, hcnt⟩
    unfold cmdHandler
    dsimp only
    rw [hop, if_neg (by decide), if_pos rfl]
    exact if_pos hcnt

/-- A first `START_DFU`. -/
theorem cmd_answered_start :
    (¬ bootErased.AtResendLimit (startDfuCmd 37) →
      ∃ ev, bootErased.Answers (bootErased.step (.cmd 1 (startDfuCmd 37))) (startDfuCmd 37) ev) ∧
      (bootErased.AtResendLimit (startDfuCmd 37) →
        bootErased.step (.cmd 1 (startDfuCmd 37)) = { bootErased with now := 1 }) :=
  cmd_answered bootErased 1 (startDfuCmd 37) (by decide +kernel) (by decide +kernel)
    (by decide +kernel)

/-- An `FW_DATA` whose checksum is wrong. -/
def badFwDataCmd : ℕ → UInt8 := cmdPacket hciOpcodeVsFwData [1, 0, 0, 0, 0]

/-- A session in which three wrong checksums in a row have come in. -/
def atLimit : World :=
  run step bootErased [.cmd 1 (startDfuCmd 5), .cmd 2 badFwDataCmd, .cmd 3 badFwDataCmd,
    .cmd 4 badFwDataCmd]

/-- A session for an image of five bytes. -/
def openedFive : World := bootErased.step (.cmd 1 (startDfuCmd 5))

/-- The same session, terminated and not yet cleaned up. -/
def terminatedFive : World := openedFive.step (.cmd 2 (endDfuCmd dfuEndModeTermUpd))

/-- The next packet, correct or not, is taken over and never answered. A repeated `START_DFU`
gets an error, and the session is open and fresh all the same. A `START_DFU` for too large
an image gets an error and cancels a pending clean-up. -/
theorem cmd_answered_fails :
    (atLimit.takesOver (fwDataCmd [1]) = true ∧ atLimit.txFifo.used < atLimit.txFifo.num ∧
      ∀ ev, (atLimit.step (.cmd 5 (fwDataCmd [1]))).txFifo ≠ atLimit.txFifo.push ev) ∧
    (evtStatus ((openedFive.step (.cmd 2 (startDfuCmd 5))).txFifo.p 1) = hciErrDfuEnabled ∧
      (openedFive.step (.cmd 2 (startDfuCmd 5))).FreshSession (startDfuCmd 5)) ∧
    (evtStatus ((terminatedFive.step (.cmd 3 (startDfuCmd 0x40000))).txFifo.p 2) =
        hciErrInvalidParam ∧
      terminatedFive.cb.status = .term ∧
      (terminatedFive.step (.cmd 3 (startDfuCmd 0x40000))).cb.status = .none) := by
  refine ⟨⟨by decide +kernel, by decide +kernel, fun ev h => ?_⟩,
    ⟨by decide +kernel, by unfold FreshSession; decide +kernel⟩, by decide +kernel⟩
  have hwptr : (atLimit.step (.cmd 5 (fwDataCmd [1]))).txFifo.wptr = 4 ∧
      (atLimit.txFifo.push []).wptr = 5 := by
    decide +kernel
  have heq := congrArg HciFifo.wptr h
  rw [hwptr.1] at heq
  exact absurd (heq.trans hwptr.2) (by decide)

end World
end TlBleSdk.Dfu
