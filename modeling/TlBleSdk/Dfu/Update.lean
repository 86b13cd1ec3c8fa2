import TlBleSdk.Dfu.Session
import TlBleSdk.Dfu.Erase
import TlBleSdk.Lib.Crc

/-!
# An update from its first packet to the reset

A host that opens a session over an erased slot, gives an image packet by packet and closes the
session. Packets may get damaged on the way and are sent again, the task runs and events are
sent in between. Such an update succeeds: the slot holds the image, the boot flags are switched
and the machine resets.

A packet carries its own CRC and an image ends with its own, so that the CRC behind them is 0.
-/

namespace TlBleSdk.Dfu

open Hci NorFlash Machine

/-! ## The CRC -/

theorem crc32Bit_eq (crc : UInt32) :
    (crc32Bit crc).toBitVec = Crc.bit 0xEDB88320#32 crc.toBitVec := by
  have hlow : crc &&& 1 = 1 ↔ crc.toBitVec.getLsbD 0 = true := by
    rw [← UInt32.toNat_inj, UInt32.toNat_and]
    show crc.toNat &&& 1 = 1 ↔ crc.toNat.testBit 0 = true
    rw [Nat.and_one_is_mod, Nat.testBit_zero, decide_eq_true_iff]
  unfold crc32Bit Crc.bit
  by_cases h : crc &&& 1 = 1
  · rw [if_pos h, if_pos (hlow.mp h)]
    rfl
  · rw [if_neg h, if_neg (mt hlow.mpr h)]
    rfl

theorem crc32Byte_eq (crc : UInt32) (b : UInt8) :
    (crc32Byte crc b).toBitVec = Crc.byte 0xEDB88320#32 crc.toBitVec b := by
  have hloop (n : ℕ) (c : UInt32) :
      ((List.range n).foldl (fun crc _ => crc32Bit crc) c).toBitVec =
        (Crc.bit 0xEDB88320#32)^[n] c.toBitVec := by
    induction n with
    | zero => rfl
    | succ n ih =>
      rw [List.range_succ, List.foldl_append, List.foldl_cons, List.foldl_nil, crc32Bit_eq, ih,
        Function.iterate_succ_apply']
  exact hloop 8 _

/-- `DFU_Crc32Calc` computes the reflected CRC of the polynomial. -/
theorem crc32Calc_eq (crc : UInt32) (data : List UInt8) :
    (crc32Calc crc data).toBitVec = Crc.crc 0xEDB88320#32 crc.toBitVec data := by
  induction data generalizing crc with
  | nil => rfl
  | cons b data ih =>
    show (crc32Calc (crc32Byte crc b) data).toBitVec = Crc.crc _ (Crc.byte _ _ b) data
    rw [ih, crc32Byte_eq]

/-- The four bytes of a check sum. -/
theorem crcBytes_eq (crc : UInt32) :
    uint16ToBstream crc.toNat ++ uint16ToBstream (crc.toNat / 65536) =
      Crc.leBytes 4 crc.toBitVec := by
  have hbyte (n i : ℕ) (hn : n = crc.toNat / 2 ^ i) :
      UInt8.ofNat n = UInt8.ofBitVec ((crc.toBitVec >>> i).setWidth 8) := by
    rw [← UInt8.toNat_inj, UInt8.toNat_ofNat', UInt8.toNat_ofBitVec, BitVec.toNat_setWidth,
      BitVec.toNat_ushiftRight, Nat.shiftRight_eq_div_pow, hn]
    rfl
  simp only [Crc.leBytes, ← BitVec.shiftRight_add]
  rw [← hbyte (crc.toNat / 256) 8 rfl, ← hbyte (crc.toNat / 65536) (8 + 8) rfl,
    ← hbyte (crc.toNat / 65536 / 256) (8 + 8 + 8) (Nat.div_div_eq_div_mul _ _ _)]
  have hlow := hbyte crc.toNat 0 (Nat.div_one _).symm
  rw [BitVec.ushiftRight_zero] at hlow
  rw [← hlow]
  rfl

/-! ## The packets of the host -/

theorem opcodeOf_cmdPacket {opcode : ℕ} (hop : opcode < 65536) (param : List UInt8) :
    opcodeOf (cmdPacket opcode param) = opcode := by
  unfold opcodeOf bytesToUint16
  show (UInt8.ofNat opcode).toNat + (UInt8.ofNat (opcode / 256)).toNat * 256 = opcode
  rw [UInt8.toNat_ofNat', UInt8.toNat_ofNat']
  omega

theorem paramLenOf_cmdPacket (opcode : ℕ) {param : List UInt8} (hlen : param.length < 256) :
    paramLenOf (cmdPacket opcode param) = param.length := by
  show (UInt8.ofNat param.length).toNat = _
  rw [UInt8.toNat_ofNat']
  exact Nat.mod_eq_of_lt hlen

theorem paramOf_cmdPacket (opcode : ℕ) (param : List UInt8) :
    paramOf (cmdPacket opcode param) = mem param := by
  funext i
  show (trTypeCmd :: UInt8.ofNat opcode :: UInt8.ofNat (opcode / 256) ::
    UInt8.ofNat param.length :: param).getD (4 + i) 0 = param.getD i 0
  rw [Nat.add_comm]
  rfl

section

variable {data : List UInt8}

/-- The parameters of `FW_DATA`: the data and their check sum. -/
def fwDataParam (data : List UInt8) : List UInt8 :=
  data ++ Crc.leBytes 4 (Crc.crc 0xEDB88320#32 dfuCrcInitValue.toBitVec data)

theorem length_fwDataParam (data : List UInt8) : (fwDataParam data).length = data.length + 4 :=
  List.length_append

theorem fwDataCmd_eq (data : List UInt8) :
    fwDataCmd data = cmdPacket hciOpcodeVsFwData (fwDataParam data) := by
  unfold fwDataCmd fwDataParam
  dsimp only
  rw [List.append_assoc, crcBytes_eq, crc32Calc_eq]

/-- The packet of the host is in order. -/
theorem crc32Calc_fwDataParam (data : List UInt8) :
    crc32Calc dfuCrcInitValue (fwDataParam data) = 0 := by
  rw [← UInt32.toBitVec_inj, crc32Calc_eq]
  exact Crc.crc_append_leBytes _ _ data (Nat.le_refl 32)

theorem opcodeOf_fwDataCmd (data : List UInt8) : opcodeOf (fwDataCmd data) = hciOpcodeVsFwData := by
  rw [fwDataCmd_eq]
  exact opcodeOf_cmdPacket (by decide) _

theorem paramLenOf_fwDataCmd (hlen : data.length ≤ dfuMaxPayload) :
    paramLenOf (fwDataCmd data) = data.length + 4 := by
  have hmax : dfuMaxPayload = 64 := rfl
  rw [fwDataCmd_eq, paramLenOf_cmdPacket _ (by rw [length_fwDataParam]; omega),
    length_fwDataParam]

theorem dataLenOf_fwDataCmd (hlen : data.length ≤ dfuMaxPayload) :
    dataLenOf (paramLenOf (fwDataCmd data)) = data.length := by
  have hmax : dfuMaxPayload = 64 := rfl
  rw [paramLenOf_fwDataCmd hlen]
  unfold dataLenOf u32Sub u32 dfuChecksumLen
  omega

theorem paramOf_fwDataCmd (data : List UInt8) :
    paramOf (fwDataCmd data) = mem (fwDataParam data) := by
  rw [fwDataCmd_eq, paramOf_cmdPacket]

theorem bytes_paramOf_fwDataCmd (data : List UInt8) :
    bytes (paramOf (fwDataCmd data)) data.length = data := by
  rw [paramOf_fwDataCmd]
  exact bytes_mem_append _ _

end

/-! ## The update -/

/-- An image as the host splits it into packets. It fits the slot, carries the boot flag and
ends with its CRC. -/
structure DfuImage where
  packets : List (List UInt8)
  sizes : ∀ c ∈ packets, 1 ≤ c.length ∧ c.length ≤ dfuMaxPayload
  fits : packets.flatten.length ≤ dfuNewFwMaxSize
  flag : packets.flatten[dfuFwFlagOffset]? = some bootFlagValid
  crc : crc32Calc dfuCrcInitValue packets.flatten = 0

/-- The bytes of the image. -/
def DfuImage.bytes (img : DfuImage) : List UInt8 := img.packets.flatten

/-- The machine, and the packets that it has not taken yet. -/
structure Update where
  device : World
  rest : List (List UInt8)

/-- What happens during an update: the next packet arrives whole, a packet arrives damaged, the
task runs, an event is sent. -/
inductive UpdateInput where
  | data (now : ℕ)
  | damaged (now : ℕ) (p : ℕ → UInt8)
  | task (now : ℕ) (uartBusy : Bool)
  | txDone

namespace Update

/-- One step. The host goes on to the next packet when one was taken. -/
def step (s : Update) : UpdateInput → Update
  | .data now =>
    match s.rest with
    | [] => s
    | c :: rest => ⟨s.device.step (.cmd now (fwDataCmd c)), rest⟩
  | .damaged now p => { s with device := s.device.step (.cmd now p) }
  | .task now uartBusy => { s with device := s.device.step (.task now uartBusy) }
  | .txDone => { s with device := s.device.step .txDone }

/-- The check sum of a damaged packet fails, and fewer than three packets in a row get damaged;
the host does not pause for thirty seconds. -/
def Ok (s : Update) : UpdateInput → Prop
  | .data _ => True
  | .damaged _ p => opcodeOf p = hciOpcodeVsFwData ∧
      crc32Calc dfuCrcInitValue (bytes (paramOf p) (paramLenOf p)) ≠ 0 ∧
      s.device.cb.resendCnt + 1 < dfuResendCnt
  | .task now _ => s.device.cb.timer ≠ 0 →
      clockTimeExceed now s.device.cb.timer (dfuTimeout * 1000 * 1000) = false
  | .txDone => True

instance (s : Update) : (i : UpdateInput) → Decidable (s.Ok i)
  | .data _ => inferInstanceAs (Decidable True)
  | .damaged _ _ => inferInstanceAs (Decidable (_ ∧ _ ∧ _))
  | .task _ _ => inferInstanceAs (Decidable (_ → _))
  | .txDone => inferInstanceAs (Decidable True)

/-- The session is opened. -/
def start (w : World) (img : DfuImage) (now : ℕ) : Update :=
  ⟨w.step (.cmd now (startDfuCmd img.bytes.length)), img.packets⟩

/-- A packet arrives whole. -/
def isData : UpdateInput → Bool
  | .data _ => true
  | _ => false

end Update

/-- A machine that waits for an update: no session is open and the slot is erased. -/
structure World.Waiting (w : World) (nextFwAddr : ℕ) : Prop where
  settled : w.core.Settled nextFwAddr
  nextOk : NextFwAddrOk nextFwAddr
  running : w.rebooted = false
  status : w.cb.status ≠ .start
  erased : w.SlotErased

/-! ## What holds during the update -/

/-- The bytes `sent` of the image are in the slot. Its flag may be kept out. -/
structure Update.Sent (img : DfuImage) (nextFwAddr : ℕ) (s : Update) (sent : List UInt8) :
    Prop where
  whole : sent ++ s.rest.flatten = img.bytes
  sizes : ∀ c ∈ s.rest, 1 ≤ c.length ∧ c.length ≤ dfuMaxPayload
  settled : s.device.core.Settled nextFwAddr
  status : s.device.cb.status = .start
  size : s.device.cb.newFwSize = img.bytes.length
  offset : s.device.cb.fwOffset = sent.length
  crc : s.device.cb.curCrc = crc32Calc dfuCrcInitValue sent
  resend : s.device.cb.resendCnt < dfuResendCnt
  written : ∀ k, (hk : k < sent.length) → k ≠ dfuFwFlagOffset →
    s.device.flash (nextFwAddr + k) = sent[k]
  flag : s.device.flash (nextFwAddr + dfuFwFlagOffset) &&& bootFlagValid = bootFlagValid
  erased : ∀ k, sent.length ≤ k → k < dfuNewFwMaxSize → s.device.flash (nextFwAddr + k) = 0xFF

namespace Update

variable {img : DfuImage} {nextFwAddr : ℕ} {s : Update} {sent : List UInt8}

/-- What a step may change besides the bookkeeping of the resends. -/
theorem Sent.congr (h : s.Sent img nextFwAddr sent) {w : World} (hcore : w.core = s.device.core)
    (hresend : w.cb.resendCnt < dfuResendCnt) :
    Sent img nextFwAddr { s with device := w } sent where
  whole := h.whole
  sizes := h.sizes
  settled := hcore ▸ h.settled
  status := (congrArg Core.status hcore).trans h.status
  size := (congrArg Core.newFwSize hcore).trans h.size
  offset := (congrArg Core.fwOffset hcore).trans h.offset
  crc := (congrArg Core.curCrc hcore).trans h.crc
  resend := hresend
  written k hk hne := (congrFun (congrArg Core.flash hcore) _).trans (h.written k hk hne)
  flag := by
    have hflash : w.flash = s.device.flash := congrArg Core.flash hcore
    show w.flash _ &&& _ = _
    rw [hflash]
    exact h.flag
  erased k hk hlt := (congrFun (congrArg Core.flash hcore) _).trans (h.erased k hk hlt)

/-- A handler of `FW_DATA` runs in a step. -/
theorem step_fwDataCmd {w : World} (hrun : w.rebooted = false) {p : ℕ → UInt8}
    (hop : opcodeOf p = hciOpcodeVsFwData) (now : ℕ) :
    w.step (.cmd now p) =
      { w with now := now }.fwDataCmdHandler (paramOf p) (paramLenOf p) := by
  unfold World.step World.handler World.cmdHandler
  rw [if_neg (by simp [hrun])]
  dsimp only
  rw [World.takesOver_of_dfu (Or.inr (Or.inr hop)), if_pos rfl, hop, if_neg (by decide),
    if_pos rfl]

theorem sendEvt_cb (w : World) (ev : List UInt8) : (w.sendEvt ev).cb = w.cb := by
  unfold World.sendEvt
  split <;> rfl

theorem sendCmdStatusEvt_cb (w : World) (opcode : ℕ) (status : UInt8) :
    (w.sendCmdStatusEvt opcode status).cb = w.cb := sendEvt_cb w _

/-- A damaged packet is answered, and counted at most. -/
theorem Sent.damaged (h : s.Sent img nextFwAddr sent) {now : ℕ} {p : ℕ → UInt8}
    (hok : s.Ok (.damaged now p)) : (s.step (.damaged now p)).Sent img nextFwAddr sent := by
  obtain ⟨hop, hcrc, hcnt⟩ := hok
  have hmax : dfuResendCnt = 3 := rfl
  have hcmd := step_fwDataCmd (h.settled.running h.status) hop now
  have hstatus : ¬ ({ s.device with now := now }.restartTimer).cb.status ≠ .start :=
    not_not.mpr h.status
  -- the length or the check sum is refused
  have hstep : (s.device.step (.cmd now p)).core = s.device.core ∧
      ((s.device.step (.cmd now p)).cb.resendCnt = s.device.cb.resendCnt ∨
        (s.device.step (.cmd now p)).cb.resendCnt = u8 (s.device.cb.resendCnt + 1)) := by
    rw [hcmd]
    unfold World.fwDataCmdHandler
    dsimp only
    rw [if_neg (Nat.not_le.mpr h.resend), if_neg hstatus, if_pos hcrc]
    split
    · exact ⟨World.sendCmdStatusEvt_core _ _ _, Or.inl (by rw [sendCmdStatusEvt_cb]; rfl)⟩
    · exact ⟨World.sendCmdStatusEvt_core _ _ _, Or.inr (by rw [sendCmdStatusEvt_cb]; rfl)⟩
  refine h.congr hstep.1 ?_
  rcases hstep.2 with hkeep | hcount
  · rw [hkeep]
    exact h.resend
  · rw [hcount, u8_of_lt (by omega)]
    exact hcnt

/-- The task finds no timeout. -/
theorem Sent.task (h : s.Sent img nextFwAddr sent) {now : ℕ} {uartBusy : Bool}
    (hok : s.Ok (.task now uartBusy)) :
    (s.step (.task now uartBusy)).Sent img nextFwAddr sent := by
  have hended : ¬ (s.device.cb.status = .ended ∧
      { s.device with now := now }.answersSent uartBusy = true) := by
    rw [h.status]
    exact fun hc => nomatch hc.1
  have hterm : ¬ (s.device.cb.status = .term ∧
      { s.device with now := now }.answersSent uartBusy = true) := by
    rw [h.status]
    exact fun hc => nomatch hc.1
  have hstep : s.device.step (.task now uartBusy) = { s.device with now := now } := by
    unfold World.step World.taskStart World.taskTerm
    rw [if_neg (by simp [h.settled.running h.status])]
    dsimp only
    rw [if_neg hended, if_neg hterm]
    refine if_neg ?_
    rintro ⟨htimer, hexceed⟩
    exact absurd (hexceed.symm.trans (hok htimer)) (by decide)
  refine h.congr (w := s.device.step (.task now uartBusy)) ?_ ?_
  · rw [hstep]
    rfl
  · rw [hstep]
    exact h.resend

theorem Sent.txDone (h : s.Sent img nextFwAddr sent) :
    (s.step .txDone).Sent img nextFwAddr sent := by
  have hrun := h.settled.running h.status
  have hstep : (s.device.step .txDone).core = s.device.core ∧
      (s.device.step .txDone).cb.resendCnt = s.device.cb.resendCnt := by
    unfold World.step
    rw [if_neg (by simp [hrun])]
    dsimp only
    split <;> exact ⟨rfl, rfl⟩
  exact h.congr hstep.1 (hstep.2.trans_lt h.resend)

variable {d : List UInt8} {rest : List (List UInt8)}

/-- The next packet is accepted. -/
theorem Sent.fwDataAccepted (h : s.Sent img nextFwAddr sent) (hrest : s.rest = d :: rest) :
    s.device.FwDataAccepted (paramOf (fwDataCmd d)) (paramLenOf (fwDataCmd d)) := by
  have hc := h.sizes d (by rw [hrest]; exact List.mem_cons_self)
  have hwhole := congrArg List.length h.whole
  rw [hrest, List.flatten_cons, List.length_append, List.length_append] at hwhole
  have hlen : paramLenOf (fwDataCmd d) = (fwDataParam d).length := by
    rw [paramLenOf_fwDataCmd hc.2, length_fwDataParam]
  refine ⟨h.resend, h.status, ?_, ?_, ?_⟩
  · rw [dataLenOf_fwDataCmd hc.2]
    exact hc.2
  · rw [hlen, paramOf_fwDataCmd, bytes_mem]
    exact crc32Calc_fwDataParam d
  · rw [h.offset, h.size]
    omega

/-- The cells behind the bytes that are in the slot take the next packet. -/
theorem Sent.payloadTakes (h : s.Sent img nextFwAddr sent) (hrest : s.rest = d :: rest) :
    s.device.PayloadTakes (paramOf (fwDataCmd d)) d.length := by
  have hwhole := congrArg List.length h.whole
  rw [hrest, List.flatten_cons, List.length_append, List.length_append] at hwhole
  have hfits : img.bytes.length ≤ dfuNewFwMaxSize := img.fits
  intro k hk
  have hcell := h.erased (sent.length + k) (by omega) (by omega)
  have haddr : s.device.fwDataAddr + k = nextFwAddr + (sent.length + k) := by
    have hnext : s.device.cb.nextFwAddrStart = nextFwAddr := h.settled.nextFwAddrStart_eq
    unfold World.fwDataAddr
    rw [hnext, h.offset]
    omega
  right
  rw [haddr, hcell, ones_and]

theorem fwDataParam_apply {k : ℕ} (hk : k < d.length) : paramOf (fwDataCmd d) k = d[k] := by
  have h := getElem_bytes (p := paramOf (fwDataCmd d)) (n := d.length) (i := k) (by simpa using hk)
  rw [← h]
  simp only [bytes_paramOf_fwDataCmd]

/-- The flag is kept out of the slot, or written with the value of the image. -/
theorem Sent.flag_program (h : s.Sent img nextFwAddr sent) (hrest : s.rest = d :: rest) :
    program s.device.flash s.device.fwDataAddr
        (bytes (s.device.maskedParam (paramOf (fwDataCmd d)) d.length) d.length)
        (nextFwAddr + dfuFwFlagOffset) &&& bootFlagValid = bootFlagValid := by
  have hnext : s.device.cb.nextFwAddrStart = nextFwAddr := h.settled.nextFwAddrStart_eq
  have haddr : s.device.fwDataAddr = nextFwAddr + sent.length := by
    unfold World.fwDataAddr
    rw [hnext, h.offset]
  by_cases hcover : sent.length ≤ dfuFwFlagOffset ∧ dfuFwFlagOffset < sent.length + d.length
  swap
  · rw [program_of_disjoint _ (by rw [length_bytes, haddr]; omega)]
    exact h.flag
  have hat : nextFwAddr + dfuFwFlagOffset =
      s.device.fwDataAddr + (dfuFwFlagOffset - sent.length) := by omega
  have hflag := h.flag
  rw [hat] at hflag ⊢
  rw [program_apply, getD_bytes _ (by omega), UInt8.and_assoc]
  by_cases hfirst : s.device.cb.fwOffset = 0
  · -- the first packet: the masking has put an erased byte there
    have hsent : sent.length = 0 := h.offset.symm.trans hfirst
    have hmask : s.device.maskedParam (paramOf (fwDataCmd d)) d.length
        (dfuFwFlagOffset - sent.length) = 0xFF := by
      unfold World.maskedParam
      rw [if_pos ⟨hfirst, by omega⟩, hsent]
      exact Function.update_self _ _ _
    rw [hmask, ones_and]
    exact hflag
  · -- a later packet carries the flag of the image
    have hbyte : paramOf (fwDataCmd d) (dfuFwFlagOffset - sent.length) = bootFlagValid := by
      have himg : img.bytes[dfuFwFlagOffset]? = some bootFlagValid := img.flag
      rw [← h.whole, hrest, List.flatten_cons, List.getElem?_append_right hcover.1,
        List.getElem?_append_left (by omega), List.getElem?_eq_getElem (by omega)] at himg
      rw [fwDataParam_apply (by omega)]
      exact Option.some.inj himg
    rw [World.maskedParam_apply fun hc => hfirst hc.1, hbyte, UInt8.and_self]
    exact hflag

/-- The next packet is written behind those before it. -/
theorem Sent.data (h : s.Sent img nextFwAddr sent) (hrest : s.rest = d :: rest) (now : ℕ) :
    (s.step (.data now)).Sent img nextFwAddr (sent ++ d) := by
  have hc := h.sizes d (by rw [hrest]; exact List.mem_cons_self)
  have hacc := h.fwDataAccepted hrest
  have htakes := h.payloadTakes hrest
  have hrun := h.settled.running h.status
  have hnext : s.device.cb.nextFwAddrStart = nextFwAddr := h.settled.nextFwAddrStart_eq
  have haddr : s.device.fwDataAddr = nextFwAddr + sent.length := by
    unfold World.fwDataAddr
    rw [hnext, h.offset]
  have hdevice : s.step (.data now) = ⟨s.device.step (.cmd now (fwDataCmd d)), rest⟩ := by
    unfold step
    rw [hrest]
  -- what the packet makes of the session
  have hcore : (s.device.step (.cmd now (fwDataCmd d))).core =
      (s.device.programFwData (paramOf (fwDataCmd d)) d.length).core := by
    rw [World.step_fwData hrun (opcodeOf_fwDataCmd d) hacc, dataLenOf_fwDataCmd hc.2]
  have hresend : (s.device.step (.cmd now (fwDataCmd d))).cb.resendCnt = 0 := by
    rw [step_fwDataCmd hrun (opcodeOf_fwDataCmd d),
      World.fwDataCmdHandler_of_accepted (w := { s.device with now := now }) hacc,
      sendCmdStatusEvt_cb]
    rfl
  have hcrc := htakes.crcBuf_take
  rw [bytes_paramOf_fwDataCmd] at hcrc
  rw [World.programFwData_core] at hcore
  have hflash : (s.device.step (.cmd now (fwDataCmd d))).flash =
      program s.device.flash s.device.fwDataAddr
        (bytes (s.device.maskedParam (paramOf (fwDataCmd d)) d.length) d.length) :=
    congrArg Core.flash hcore
  rw [hdevice]
  constructor
  case whole =>
    rw [List.append_assoc, ← List.flatten_cons, ← hrest]
    exact h.whole
  case sizes => exact fun e he => h.sizes e (by rw [hrest]; exact List.mem_cons_of_mem _ he)
  case settled => exact World.settled_step h.settled
  case status => exact (congrArg Core.status hcore).trans h.status
  case size => exact (congrArg Core.newFwSize hcore).trans h.size
  case offset =>
    refine (congrArg Core.fwOffset hcore).trans ?_
    rw [List.length_append, ← h.offset]
  case crc =>
    refine (congrArg Core.curCrc hcore).trans ?_
    show crc32Calc s.device.cb.curCrc _ = _
    rw [hcrc, crc32Calc_append, h.crc]
  case resend =>
    rw [hresend]
    decide
  case written =>
    intro k hk hne
    show (s.device.step _).flash _ = _
    rw [hflash]
    by_cases hlt : k < sent.length
    · rw [program_of_disjoint _ (by rw [haddr]; omega), List.getElem_append_left hlt]
      exact h.written k hlt hne
    · rw [List.length_append] at hk
      have hcell := htakes.cell (k := k - sent.length) (by omega) (by
        rintro ⟨hfirst, hflag⟩
        rw [h.offset] at hfirst
        omega)
      rw [List.getElem_append_right (by omega), ← fwDataParam_apply (by omega), ← hcell, haddr]
      congr 1
      omega
  case flag =>
    show (s.device.step _).flash _ &&& _ = _
    rw [hflash]
    exact h.flag_program hrest
  case erased =>
    intro k hk hlt
    rw [List.length_append] at hk
    show (s.device.step _).flash _ = _
    rw [hflash, program_of_disjoint _ (by rw [length_bytes, haddr]; omega)]
    exact h.erased k (by omega) hlt

/-- One step. -/
theorem sent_step (h : ∃ sent, s.Sent img nextFwAddr sent) {i : UpdateInput} (hok : s.Ok i) :
    ∃ sent, (s.step i).Sent img nextFwAddr sent := by
  obtain ⟨sent, h⟩ := h
  cases i with
  | data now =>
    cases hrest : s.rest with
    | nil =>
      have hidle : s.step (.data now) = s := by
        unfold step
        rw [hrest]
      exact ⟨sent, hidle.symm ▸ h⟩
    | cons d rest => exact ⟨sent ++ d, h.data hrest now⟩
  | damaged now p => exact ⟨sent, h.damaged hok⟩
  | task now uartBusy => exact ⟨sent, h.task hok⟩
  | txDone => exact ⟨sent, h.txDone⟩

/-- Every packet that arrives whole is one less to go. -/
theorem length_rest_run (s : Update) (is : List UpdateInput) :
    (run step s is).rest.length = s.rest.length - is.countP isData := by
  induction is generalizing s with
  | nil => rfl
  | cons i is ih =>
    rw [run_cons, ih, List.countP_cons]
    cases i with
    | data now =>
      have hstep : (s.step (.data now)).rest.length = s.rest.length - 1 := by
        unfold step
        cases hrest : s.rest with
        | nil => exact congrArg List.length hrest
        | cons c rest => rfl
      have hdata : isData (.data now) = true := rfl
      rw [hstep, if_pos hdata]
      omega
    | _ => rfl

end Update

/-! ## Opening and closing the session -/

theorem fwSizeOf_startDfuCmd {n : ℕ} (hn : n < 4294967296) :
    fwSizeOf (paramOf (startDfuCmd n)) = n := by
  have hbyte (k : ℕ) : (UInt8.ofNat k).toNat = k % 256 := UInt8.toNat_ofNat'
  unfold startDfuCmd
  rw [paramOf_cmdPacket]
  show (UInt8.ofNat n).toNat + (UInt8.ofNat (n / 256)).toNat * 256 +
    (UInt8.ofNat (n / 65536)).toNat * 65536 + (UInt8.ofNat (n / 65536 / 256)).toNat * 16777216 = n
  rw [hbyte, hbyte, hbyte, hbyte]
  omega

namespace Update

variable {w : World} {img : DfuImage} {nextFwAddr : ℕ}

/-- A session that has just been opened. -/
theorem sent_start (hw : w.Waiting nextFwAddr) (img : DfuImage) (now : ℕ) :
    (start w img now).Sent img nextFwAddr [] := by
  have hmax : dfuNewFwMaxSize = 258048 := rfl
  have hfits : img.bytes.length ≤ dfuNewFwMaxSize := img.fits
  have hop : opcodeOf (startDfuCmd img.bytes.length) = hciOpcodeVsStartDfu :=
    opcodeOf_cmdPacket (by decide) _
  have hsize := fwSizeOf_startDfuCmd (n := img.bytes.length) (by omega)
  have hmaxSize : w.cb.maxFwSize = dfuNewFwMaxSize := hw.settled.maxFwSize_eq
  have hmode : paramOf (startDfuCmd img.bytes.length) 0 = dfuModeFwUpd := rfl
  have hacc : w.StartAccepted (paramOf (startDfuCmd img.bytes.length)) :=
    ⟨hw.status, by rw [hsize, hmaxSize]; exact hfits, Or.inl hmode⟩
  have hcore : (w.step (.cmd now (startDfuCmd img.bytes.length))).core = _ :=
    World.step_startDfu hw.running hop hacc
  rw [hsize, World.dfuStart_core, World.reset_core] at hcore
  have hresend : (start w img now).device.cb.resendCnt = 0 := by
    unfold start World.step World.handler World.cmdHandler
    dsimp only
    rw [if_neg (by simp [hw.running]), World.takesOver_of_dfu (Or.inl hop), if_pos rfl, hop,
      if_pos rfl, World.startDfuCmdHandler_of_accepted (w := { w with now := now }) hacc]
    exact congrArg DfuCb.resendCnt (sendEvt_cb _ _)
  have herased (k : ℕ) (hk : k < dfuNewFwMaxSize) :
      (start w img now).device.flash (nextFwAddr + k) = 0xFF := by
    refine (congrFun (congrArg Core.flash hcore) _).trans ?_
    have hcell := hw.erased k (hmaxSize.symm ▸ hk)
    rwa [show w.cb.nextFwAddrStart = nextFwAddr from hw.settled.nextFwAddrStart_eq] at hcell
  exact
    { whole := rfl
      sizes := img.sizes
      settled := World.settled_step hw.settled
      status := congrArg Core.status hcore
      size := congrArg Core.newFwSize hcore
      offset := congrArg Core.fwOffset hcore
      crc := congrArg Core.curCrc hcore
      resend := by rw [hresend]; decide
      written := fun k hk => absurd hk (Nat.not_lt_zero k)
      flag := by rw [herased dfuFwFlagOffset (by decide), ones_and]
      erased := fun k _ hk => herased k hk }

theorem endDfuCmdHandler_of_switches {pParam : ℕ → UInt8} (h : w.EndSwitches pParam) :
    w.endDfuCmdHandler pParam =
      (w.restartTimer.switchBootFlags.sendCmdCmplStatusEvt hciOpcodeVsEndDfu
        hciSuccess).setStatus .ended := by
  obtain ⟨hmode, hoff, hcrc⟩ := h
  have hoff' : ¬ w.restartTimer.cb.fwOffset ≠ w.restartTimer.cb.newFwSize := not_not.mpr hoff
  have hcrc' : ¬ w.restartTimer.cb.curCrc ≠ 0 := not_not.mpr hcrc
  unfold World.endDfuCmdHandler
  dsimp only
  rw [if_pos hmode, if_neg hoff', if_neg hcrc']

/-- `END_DFU` behind a complete image. -/
theorem step_endDfu (hrun : w.rebooted = false) (hoff : w.cb.fwOffset = w.cb.newFwSize)
    (hcrc : w.cb.curCrc = 0) (now : ℕ) :
    (w.step (.cmd now (endDfuCmd dfuEndModeFwUpd))).core =
      (w.switchBootFlags.setStatus .ended).core := by
  have hop : opcodeOf (endDfuCmd dfuEndModeFwUpd) = hciOpcodeVsEndDfu :=
    opcodeOf_cmdPacket (by decide) _
  have hmode : paramOf (endDfuCmd dfuEndModeFwUpd) 0 = dfuEndModeFwUpd := rfl
  unfold World.step World.handler World.cmdHandler
  rw [if_neg (by simp [hrun])]
  dsimp only
  rw [World.takesOver_of_dfu (Or.inr (Or.inl hop)), if_pos rfl, hop, if_neg (by decide),
    if_neg (by decide), if_pos rfl,
    endDfuCmdHandler_of_switches (w := { w with now := now }) ⟨hmode, hoff, hcrc⟩]
  unfold World.sendCmdCmplStatusEvt World.sendCmdCmplEvt World.sendEvt
  split <;> rfl

/-- The boot switch completes the image. -/
theorem Sent.switch {s : Update} (h : s.Sent img nextFwAddr img.bytes)
    (hnext : NextFwAddrOk nextFwAddr) :
    read s.device.switchBootFlags.flash nextFwAddr img.bytes.length = img.bytes ∧
      s.device.switchBootFlags.flash (s.device.baseAddr + dfuFwFlagOffset) = 0x00 := by
  have hstart : s.device.cb.nextFwAddrStart = nextFwAddr := h.settled.nextFwAddrStart_eq
  have hbase : s.device.cb.newFwAddrStart = dfuNewFwAddrBase := h.settled.newFwAddrStart_eq
  have hfits : img.bytes.length ≤ dfuNewFwMaxSize := img.fits
  have hflag : img.bytes[dfuFwFlagOffset]? = some bootFlagValid := img.flag
  rw [World.switchBootFlags_flash, hstart]
  constructor
  · apply List.ext_getElem (length_read _ _ _)
    intro k hk hk'
    -- the flag of the other slot lies outside
    have hother : nextFwAddr + k ≠ s.device.baseAddr + dfuFwFlagOffset := by
      unfold World.baseAddr
      rw [hstart, hbase]
      unfold NextFwAddrOk at hnext
      unfold dfuNewFwAddrBase dfuNewFwMaxSize dfuFwFlagOffset at *
      split <;> omega
    rw [getElem_read, program_of_disjoint _ (by rw [List.length_singleton]; omega)]
    by_cases hne : k = dfuFwFlagOffset
    · subst hne
      have hprog := program_apply s.device.flash (nextFwAddr + dfuFwFlagOffset) 0 [bootFlagValid]
      rw [Nat.add_zero] at hprog
      rw [hprog]
      exact h.flag.trans ((List.getElem_eq_iff hk').mpr hflag).symm
    · rw [program_of_disjoint _ (by rw [List.length_singleton]; omega)]
      exact h.written k hk' hne
  · have hprog := program_apply (program s.device.flash (nextFwAddr + dfuFwFlagOffset)
      [bootFlagValid]) (s.device.baseAddr + dfuFwFlagOffset) 0 [0x00]
    rw [Nat.add_zero] at hprog
    rw [hprog]
    exact UInt8.and_zero

end Update

/-- An update completes: once every packet of the image has arrived, whatever was damaged, run
or sent in between, `END_DFU` leaves the image in the slot, its boot flag set and the one of
the running firmware cleared, and the next run of the task that finds the answers sent resets
the machine. -/
theorem update_completes {w : World} {nextFwAddr : ℕ} (hw : w.Waiting nextFwAddr) (img : DfuImage)
    (now now' : ℕ) (is : List UpdateInput)
    (hok : Along Update.step Update.Ok (Update.start w img now) is)
    (hall : img.packets.length ≤ is.countP Update.isData) :
    let d := (run Update.step (Update.start w img now) is).device.step
      (.cmd now' (endDfuCmd dfuEndModeFwUpd))
    read d.flash nextFwAddr img.bytes.length = img.bytes ∧
      d.flash (d.baseAddr + dfuFwFlagOffset) = 0x00 ∧ d.hist.getLast? = some .bootSwitch ∧
      d.cb.status = .ended ∧
      ∀ (t : ℕ) (uartBusy : Bool), d.answersSent uartBusy = true →
        (d.step (.task t uartBusy)).rebooted = true := by
  intro d
  have hstep : ∀ (s : Update) i, (∃ sent, s.Sent img nextFwAddr sent) → s.Ok i →
      ∃ sent, (s.step i).Sent img nextFwAddr sent :=
    fun _ _ h hi => Update.sent_step h hi
  obtain ⟨sent, h⟩ := run_invariant hstep ⟨[], Update.sent_start hw img now⟩ hok
  generalize hs : run Update.step (Update.start w img now) is = s at h
  -- no packet is left
  have hrest : s.rest = [] := by
    have hlen := Update.length_rest_run (Update.start w img now) is
    rw [hs] at hlen
    exact List.length_eq_zero_iff.mp (hlen.trans (Nat.sub_eq_zero_of_le hall))
  have hsent : sent = img.bytes := by
    have hwhole := h.whole
    rwa [hrest, List.flatten_nil, List.append_nil] at hwhole
  subst hsent
  have hrun := h.settled.running h.status
  have hoff : s.device.cb.fwOffset = s.device.cb.newFwSize := h.offset.trans h.size.symm
  have hcrc : s.device.cb.curCrc = 0 := h.crc.trans img.crc
  have hcore : d.core = (s.device.switchBootFlags.setStatus .ended).core := by
    show ((run Update.step (Update.start w img now) is).device.step _).core = _
    rw [hs]
    exact Update.step_endDfu hrun hoff hcrc now'
  have hflash : d.flash = s.device.switchBootFlags.flash := congrArg Core.flash hcore
  have hstatus : d.cb.status = .ended := congrArg Core.status hcore
  have hbase : d.baseAddr = s.device.baseAddr := by
    have hnext : d.cb.nextFwAddrStart = s.device.cb.nextFwAddrStart :=
      congrArg Core.nextFwAddrStart hcore
    have hnew : d.cb.newFwAddrStart = s.device.cb.newFwAddrStart :=
      congrArg Core.newFwAddrStart hcore
    unfold World.baseAddr
    rw [hnext, hnew]
  have hhist : d.hist = s.device.hist ++ s.device.switchActs :=
    (congrArg Core.hist hcore).trans s.device.switchBootFlags_hist
  obtain ⟨hread, hold⟩ := h.switch hw.nextOk
  refine ⟨by rw [hflash]; exact hread, by rw [hflash, hbase]; exact hold, ?_, hstatus, ?_⟩
  · rw [hhist, List.getLast?_append]
    rfl
  · intro t uartBusy hans
    have hd : d.rebooted = false := (congrArg Core.rebooted hcore).trans hrun
    unfold World.step World.taskStart
    rw [if_neg (by simp [hd])]
    dsimp only
    rw [if_pos ⟨hstatus, hans⟩]

/-- The sample image in two packets. -/
def sampleDfuImage : DfuImage where
  packets := [sampleImage.take 10, sampleImage.drop 10]
  sizes := by decide
  fits := by decide
  flag := by decide
  crc := by decide +kernel

/-- A damaged packet comes first and is sent again. -/
def damagedUpdate : List UpdateInput :=
  [.damaged 2 (cmdPacket hciOpcodeVsFwData [1, 0, 0, 0, 0]), .data 3, .task 4 true, .txDone,
    .data 5]

theorem waiting_bootErased : World.bootErased.Waiting dfuNewFwAddrBase where
  settled := World.settled_boot _ _
  nextOk := Or.inr rfl
  running := rfl
  status := by decide
  erased := fun _ _ => rfl

theorem update_completes_damagedUpdate :
    let d := (run Update.step (Update.start World.bootErased sampleDfuImage 1)
      damagedUpdate).device.step (.cmd 6 (endDfuCmd dfuEndModeFwUpd))
    read d.flash dfuNewFwAddrBase sampleDfuImage.bytes.length = sampleDfuImage.bytes ∧
      d.flash (d.baseAddr + dfuFwFlagOffset) = 0x00 ∧ d.hist.getLast? = some .bootSwitch ∧
      d.cb.status = .ended ∧
      ∀ (t : ℕ) (uartBusy : Bool), d.answersSent uartBusy = true →
        (d.step (.task t uartBusy)).rebooted = true :=
  update_completes waiting_bootErased sampleDfuImage 1 6 damagedUpdate (by decide +kernel)
    (by decide)

end TlBleSdk.Dfu
