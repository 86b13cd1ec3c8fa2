import TlBleSdk.Hci.Fifo
import TlBleSdk.Lib.NorFlash
import TlBleSdk.Lib.Run

/-!
# Device firmware update over HCI

The DFU of `hci_dfu.c`: the control block, the command handlers, the periodic task and the
port layer they use (`hci_dfu_port.c`). The host opens a session with `START_DFU`, sends
the image in `FW_DATA` commands that are programmed into the slot of the next firmware,
and closes the session with `END_DFU`, which compares the image length and its CRC and then
switches the boot flags of the two slots.

The machine around the control block is `World`: the flash, the event FIFO towards the
host, the tick of the system timer, and a history variable that no function reads (`hist`),
the flash operations and the session actions so far in the order in which they happened.
`blc_hci_reset` belongs to the controller library and touches none of this.
-/

namespace TlBleSdk.Dfu

open Hci NorFlash

/-! ## Constants of `hci_dfu.h` and `hci_dfu_def.h` -/

def dfuFwVersion : ℕ := 0x0040
def dfuNewFwAddrBase : ℕ := 0x40000
def dfuNewFwMaxSize : ℕ := 0x40000 - 0x1000
def dfuMaxPayload : ℕ := 64
def dfuTimeout : ℕ := 30
def dfuResendCnt : ℕ := 3
def dfuCrcInitValue : UInt32 := 0xFFFFFFFF
def dfuChecksumLen : ℕ := 4
def dfuFwFlagOffset : ℕ := 0x20

def hciSuccess : UInt8 := 0x00
def hciErrCmdDisallowed : UInt8 := 0x0C
def hciErrFwVer : UInt8 := 0xA0
def hciErrDfuDisabled : UInt8 := 0xA2
def hciErrDfuEnabled : UInt8 := 0xA3
def hciErrFwChecksum : UInt8 := 0xA4
def hciErrFwCrc : UInt8 := 0xA5
def hciErrFwIncomplete : UInt8 := 0xA6
def hciErrDataLength : UInt8 := 0xA7
def hciErrInvalidParam : UInt8 := 0xA8

def dfuModeFwUpd : UInt8 := 0x01
def dfuModeFwUpdLatest : UInt8 := 0x02
def dfuModeFwUpdOlder : UInt8 := 0x03
def dfuModeFwUpdDiff : UInt8 := 0x04

def dfuEndModeFwUpd : UInt8 := 0x00
def dfuEndModeTermUpd : UInt8 := 0x01

/-- The boot-flag byte of a bootable slot. -/
def bootFlagValid : UInt8 := 0x4b

def bluetoothVer : UInt8 := 9
def vendorId : ℕ := 0x0211

/-- `HCI_OPCODE`. -/
def hciOpcode (ogf ocf : ℕ) : ℕ := ogf * 1024 + ocf

/-- `HCI_OGF`. -/
def hciOgf (opcode : ℕ) : ℕ := opcode / 1024

/-- `HCI_OCF`. -/
def hciOcf (opcode : ℕ) : ℕ := opcode % 1024

def hciOgfVs : ℕ := 0x3F
def hciOcfVsStartDfu : ℕ := 0x0300
def hciOcfVsEndDfu : ℕ := 0x0301
def hciOcfVsFwData : ℕ := 0x0302

def hciOpcodeVsStartDfu : ℕ := hciOpcode hciOgfVs hciOcfVsStartDfu
def hciOpcodeVsEndDfu : ℕ := hciOpcode hciOgfVs hciOcfVsEndDfu
def hciOpcodeVsFwData : ℕ := hciOpcode hciOgfVs hciOcfVsFwData
def hciOpcodeReset : ℕ := hciOpcode 0x03 0x03
def hciOpcodeReadLocalVerInfo : ℕ := hciOpcode 0x04 0x01

/-! ## State -/

/-- The `DFU_STA_…` values of `status`. -/
inductive DfuSta where
  | none
  | start
  | ended
  | term
deriving DecidableEq, Repr

/-- `DfuCb_t`. -/
structure DfuCb where
  newFwAddrStart : ℕ
  maxFwSize : ℕ
  nextFwAddrStart : ℕ
  newFwSize : ℕ
  fwOffset : ℕ
  curCrc : UInt32
  timer : ℕ
  status : DfuSta
  resendCnt : ℕ
deriving DecidableEq

/-- What the history records: every write and every erase issued to the flash, the
initialization, every `DFU_Reset`, an accepted `START_DFU` with the size it declares, the
data bytes of an accepted `FW_DATA` as the host sent them, and the boot switch. -/
inductive DfuAct where
  | write (addr : ℕ) (data : List UInt8)
  | erase (addr : ℕ)
  | init
  | reset
  | start (fwSize : ℕ)
  | fwData (data : List UInt8)
  | bootSwitch
deriving DecidableEq

/-- The action is a write or an erase of the flash. -/
def DfuAct.isFlashOp : DfuAct → Bool
  | .write _ _ => true
  | .erase _ => true
  | _ => false

/-- The machine the DFU runs on. -/
structure World where
  cb : DfuCb
  flash : Cells
  hist : List DfuAct
  txFifo : HciFifo
  revision : ℕ
  now : ℕ
  rebooted : Bool

namespace World

/-! ## The port layer -/

/-- `FLASH_WritePage`. -/
def flashWritePage (addr : ℕ) (data : List UInt8) (w : World) : World :=
  { w with flash := program w.flash addr data, hist := w.hist ++ [DfuAct.write addr data] }

/-- `FLASH_EraseSector`. -/
def flashEraseSector (addr : ℕ) (w : World) : World :=
  { w with flash := erase w.flash addr 0x1000, hist := w.hist ++ [DfuAct.erase addr] }

/-- Put an event into `bltHci_txfifo`. The pointers are compared as `int`: the difference
is negative once `wptr` has wrapped and `rptr` has not. -/
def sendEvt (ev : List UInt8) (w : World) : World :=
  if (w.txFifo.num : ℤ) ≤ (w.txFifo.wptr : ℤ) - w.txFifo.rptr then w
  else { w with txFifo := w.txFifo.push ev }

end World

/-- The event `Hci_SendCmdCmplEvt` builds, behind its 16-bit length. -/
def cmdCmplEvt (opcode : ℕ) (param : List UInt8) : List UInt8 :=
  uint16ToBstream (1 + evtHeadLen + 3 + param.length) ++
    [trTypeEvent, 0x0E, UInt8.ofNat (3 + param.length), 1] ++ uint16ToBstream opcode ++ param

/-- The event `Hci_SendCmdStatusEvt` builds, behind its 16-bit length. -/
def cmdStatusEvt (opcode : ℕ) (status : UInt8) : List UInt8 :=
  uint16ToBstream (1 + evtHeadLen + 4) ++
    [trTypeEvent, 0x0F, 4, status, 1] ++ uint16ToBstream opcode

namespace World

/-- `Hci_SendCmdCmplEvt`. -/
def sendCmdCmplEvt (opcode : ℕ) (param : List UInt8) (w : World) : World :=
  w.sendEvt (cmdCmplEvt opcode param)

/-- `Hci_SendCmdCmplStatusEvt`. -/
def sendCmdCmplStatusEvt (opcode : ℕ) (status : UInt8) (w : World) : World :=
  w.sendCmdCmplEvt opcode [status]

/-- `Hci_SendCmdStatusEvt`. -/
def sendCmdStatusEvt (opcode : ℕ) (status : UInt8) (w : World) : World :=
  w.sendEvt (cmdStatusEvt opcode status)

/-! ## Session bookkeeping -/

/-- `dfuCb.timer = clock_time() | 1`. -/
def restartTimer (w : World) : World := { w with cb.timer := w.now ||| 1 }

/-- Assign `dfuCb.resendCnt`. -/
def setResendCnt (n : ℕ) (w : World) : World := { w with cb.resendCnt := n }

/-- Assign `dfuCb.status`. -/
def setStatus (status : DfuSta) (w : World) : World := { w with cb.status := status }

/-- `DFU_isEnable`. -/
def isEnable (w : World) : Bool := w.cb.status = .start

/-- `DFU_Reset`. -/
def reset (w : World) : World :=
  { w with
    cb.newFwSize := 0
    cb.fwOffset := 0
    cb.curCrc := dfuCrcInitValue
    cb.timer := 0
    cb.status := .none
    cb.resendCnt := 0
    hist := w.hist ++ [DfuAct.reset] }

/-- The three words of the new slot that are sampled before an erase. -/
def sampleAddrs (w : World) : List ℕ :=
  [w.cb.nextFwAddrStart, w.cb.nextFwAddrStart + w.cb.maxFwSize / 0x1000 / 2 * 0x1000,
    w.cb.nextFwAddrStart + w.cb.maxFwSize - 4]

/-- All sampled words read `0xFFFFFFFF`. -/
def samplesErased (w : World) : Bool :=
  w.sampleAddrs.all fun addr => bytesToUint32 w.flash addr = 0xFFFFFFFF

/-- The offsets of the erase loop, `for (i = 0; i < maxFwSize; i += 0x1000)`. -/
def sectorOffsets (w : World) : List ℕ :=
  (List.range ((w.cb.maxFwSize + 0xFFF) / 0x1000)).map (· * 0x1000)

/-- The erase loop. -/
def eraseSectors (w : World) : World :=
  w.sectorOffsets.foldl (fun w i => w.flashEraseSector (w.cb.nextFwAddrStart + i)) w

/-- `DFU_EraseNewFwArea`. `DFU_Init` has the same lines. -/
def eraseNewFwArea (w : World) : World := if w.samplesErased then w else w.eraseSectors

/-- The control block as `DFU_Init` sets it. `blc_ota_getNextFirmwareStartAddress` is part of
the controller library; `nextFwAddr` is what it returns. -/
def initCb (nextFwAddr : ℕ) (w : World) : World :=
  { w with
    cb :=
      { newFwAddrStart := dfuNewFwAddrBase
        maxFwSize := dfuNewFwMaxSize
        nextFwAddrStart := nextFwAddr
        newFwSize := 0
        fwOffset := 0
        curCrc := 0
        timer := 0
        status := .none
        resendCnt := 0 }
    hist := w.hist ++ [DfuAct.init] }

/-- `DFU_Init`. -/
def init (nextFwAddr : ℕ) (w : World) : World :=
  { (w.initCb nextFwAddr).eraseNewFwArea with revision := dfuFwVersion }

/-- The machine at power-on, with the given flash content and event FIFO. -/
def powerOn (flash : Cells) (txFifo : HciFifo) : World where
  cb :=
    { newFwAddrStart := 0
      maxFwSize := 0
      nextFwAddrStart := 0
      newFwSize := 0
      fwOffset := 0
      curCrc := 0
      timer := 0
      status := .none
      resendCnt := 0 }
  flash := flash
  hist := []
  txFifo := txFifo
  revision := 0
  now := 0
  rebooted := false

/-- Power-on and `DFU_Init`. -/
def boot (nextFwAddr : ℕ) (flash : Cells) (txFifo : HciFifo) : World :=
  (powerOn flash txFifo).init nextFwAddr

end World

/-! ## CRC -/

/-- One bit step of `DFU_Crc32Calc`. -/
def crc32Bit (crc : UInt32) : UInt32 :=
  if crc &&& 1 = 1 then (crc >>> 1) ^^^ 0xEDB88320 else crc >>> 1

/-- One byte step of `DFU_Crc32Calc`. -/
def crc32Byte (crc : UInt32) (b : UInt8) : UInt32 :=
  (List.range 8).foldl (fun crc _ => crc32Bit crc) (crc ^^^ b.toUInt32)

/-- `DFU_Crc32Calc`. -/
def crc32Calc (crc : UInt32) (data : List UInt8) : UInt32 := data.foldl crc32Byte crc

theorem crc32Calc_append (crc : UInt32) (a b : List UInt8) :
    crc32Calc crc (a ++ b) = crc32Calc (crc32Calc crc a) b := List.foldl_append

/-! ## Command handlers -/

namespace World

/-- The session fields behind the label `DFU_START`. -/
def openSession (fwSize : ℕ) (w : World) : World :=
  let w := w.reset
  { w with
    cb.status := .start
    cb.newFwSize := fwSize
    cb.timer := w.now ||| 1
    hist := w.hist ++ [DfuAct.start fwSize] }

/-- The code behind the label `DFU_START`. -/
def dfuStart (fwSize : ℕ) (w : World) : World :=
  (w.openSession fwSize).sendCmdCmplEvt hciOpcodeVsStartDfu
    [hciSuccess, UInt8.ofNat dfuMaxPayload, 0]

/-- `DFU_StartDfuCmdHandler`. -/
def startDfuCmdHandler (pParam : ℕ → UInt8) (w : World) : World :=
  let dfuMode := pParam 0
  let fwVer := bytesToUint16 pParam 1
  let fwSize := bytesToUint32 pParam 3
  if w.cb.status = .start then
    w.sendCmdCmplStatusEvt hciOpcodeVsStartDfu hciErrDfuEnabled
  else if w.cb.maxFwSize < fwSize then
    w.reset.sendCmdCmplStatusEvt hciOpcodeVsStartDfu hciErrInvalidParam
  else if dfuMode = dfuModeFwUpd then w.dfuStart fwSize
  else if dfuMode = dfuModeFwUpdLatest then
    if fwVer ≤ w.revision then w.sendCmdCmplStatusEvt hciOpcodeVsStartDfu hciErrFwVer
    else w.dfuStart fwSize
  else if dfuMode = dfuModeFwUpdOlder then
    if w.revision ≤ fwVer then w.sendCmdCmplStatusEvt hciOpcodeVsStartDfu hciErrFwVer
    else w.dfuStart fwSize
  else if dfuMode = dfuModeFwUpdDiff then
    if fwVer = w.revision then w.sendCmdCmplStatusEvt hciOpcodeVsStartDfu hciErrFwVer
    else w.dfuStart fwSize
  else w.sendCmdCmplStatusEvt hciOpcodeVsStartDfu hciErrInvalidParam

/-- `baseAddr` in `DFU_EndDfuCmdHandler`: the slot of the running firmware. -/
def baseAddr (w : World) : ℕ := if w.cb.nextFwAddrStart = 0 then w.cb.newFwAddrStart else 0

/-- The two flag writes of a successful `END_DFU`. -/
def switchBootFlags (w : World) : World :=
  let w := w.flashWritePage (w.cb.nextFwAddrStart + dfuFwFlagOffset) [bootFlagValid]
  let w := w.flashWritePage (w.baseAddr + dfuFwFlagOffset) [0x00]
  { w with hist := w.hist ++ [DfuAct.bootSwitch] }

/-- `DFU_EndDfuCmdHandler`. -/
def endDfuCmdHandler (pParam : ℕ → UInt8) (w : World) : World :=
  let endMode := pParam 0
  let w := w.restartTimer
  if endMode = dfuEndModeFwUpd then
    if w.cb.fwOffset ≠ w.cb.newFwSize then
      (w.sendCmdCmplStatusEvt hciOpcodeVsEndDfu hciErrFwIncomplete).setStatus .term
    else if w.cb.curCrc ≠ 0 then
      (w.sendCmdCmplStatusEvt hciOpcodeVsEndDfu hciErrFwCrc).setStatus .term
    else
      (w.switchBootFlags.sendCmdCmplStatusEvt hciOpcodeVsEndDfu hciSuccess).setStatus .ended
  else if endMode = dfuEndModeTermUpd then
    (w.setStatus .term).sendCmdCmplStatusEvt hciOpcodeVsEndDfu hciSuccess
  else w.sendCmdCmplStatusEvt hciOpcodeVsEndDfu hciErrInvalidParam

/-- The first packet of an image keeps its boot-flag byte out of the flash. -/
def masksFlag (dataLen : ℕ) (w : World) : Prop := w.cb.fwOffset = 0 ∧ dfuFwFlagOffset ≤ dataLen

instance (dataLen : ℕ) (w : World) : Decidable (w.masksFlag dataLen) :=
  inferInstanceAs (Decidable (_ ∧ _))

/-- `bootFlag` in `DFU_FwDataCmdHandler`: the byte the masking takes out. -/
def maskedFlag (pParam : ℕ → UInt8) (dataLen : ℕ) (w : World) : UInt8 :=
  if w.masksFlag dataLen then pParam dfuFwFlagOffset else 0

/-- The parameter area behind the masking. -/
def maskedParam (pParam : ℕ → UInt8) (dataLen : ℕ) (w : World) : ℕ → UInt8 :=
  if w.masksFlag dataLen then Function.update pParam dfuFwFlagOffset 0xFF else pParam

/-- The address the next `FW_DATA` is written to. -/
def fwDataAddr (w : World) : ℕ := w.cb.nextFwAddrStart + w.cb.fwOffset

/-- `buf` in `DFU_FwDataCmdHandler`: the data read back from `flash`, with the byte at the
flag offset patched for the first packet. The patch does not look at the length. -/
def crcBuf (flash : Cells) (pParam : ℕ → UInt8) (dataLen : ℕ) (w : World) : List UInt8 :=
  let buf := read flash w.fwDataAddr dataLen ++ List.replicate (dfuMaxPayload + 4 - dataLen) 0
  if w.cb.fwOffset = 0 then buf.set dfuFwFlagOffset (w.maskedFlag pParam dataLen) else buf

/-- Program the `dataLen` data bytes of an accepted `FW_DATA` and account for them. -/
def programFwData (pParam : ℕ → UInt8) (dataLen : ℕ) (w : World) : World :=
  let w' := w.flashWritePage w.fwDataAddr (bytes (w.maskedParam pParam dataLen) dataLen)
  { w' with
    cb.curCrc := crc32Calc w.cb.curCrc ((w.crcBuf w'.flash pParam dataLen).take dataLen)
    cb.fwOffset := w.cb.fwOffset + dataLen
    hist := w'.hist ++ [DfuAct.fwData (bytes pParam dataLen)] }

/-- `DFU_FwDataCmdHandler`. -/
def fwDataCmdHandler (pParam : ℕ → UInt8) (len : ℕ) (w : World) : World :=
  let dataLen := u32Sub len dfuChecksumLen
  if dfuResendCnt ≤ w.cb.resendCnt then w
  else
    let w := w.restartTimer
    if w.cb.status ≠ .start then w.sendCmdStatusEvt hciOpcodeVsFwData hciErrDfuDisabled
    else if dfuMaxPayload < dataLen then
      w.sendCmdStatusEvt hciOpcodeVsFwData hciErrDataLength
    else if crc32Calc dfuCrcInitValue (bytes pParam len) ≠ 0 then
      let w := w.setResendCnt (u8 (w.cb.resendCnt + 1))
      w.sendCmdStatusEvt hciOpcodeVsFwData hciErrFwChecksum
    else
      let w := w.setResendCnt 0
      if w.cb.fwOffset < w.cb.newFwSize then
        (w.programFwData pParam dataLen).sendCmdStatusEvt hciOpcodeVsFwData hciSuccess
      else w.sendCmdStatusEvt hciOpcodeVsFwData hciErrFwIncomplete

end World

/-! ## Dispatch -/

/-- The opcode of the command packet `p`, behind its packet indicator. -/
def opcodeOf (p : ℕ → UInt8) : ℕ := bytesToUint16 p 1

/-- The parameter length of the command packet `p`. -/
def paramLenOf (p : ℕ → UInt8) : ℕ := (p 3).toNat

/-- The parameter area of the command packet `p`. -/
def paramOf (p : ℕ → UInt8) : ℕ → UInt8 := fun i => p (4 + i)

namespace World

/-- `DFU_CmdHandler`. -/
def cmdHandler (p : ℕ → UInt8) (w : World) : World :=
  let opcode := opcodeOf p
  if opcode = hciOpcodeVsStartDfu then w.startDfuCmdHandler (paramOf p)
  else if opcode = hciOpcodeVsFwData then w.fwDataCmdHandler (paramOf p) (paramLenOf p)
  else if opcode = hciOpcodeVsEndDfu then w.endDfuCmdHandler (paramOf p)
  else if opcode = hciOpcodeReset then
    (w.setStatus .term).sendCmdCmplStatusEvt opcode hciSuccess
  else if opcode = hciOpcodeReadLocalVerInfo then
    w.sendCmdCmplEvt opcode ([hciSuccess, bluetoothVer] ++ uint16ToBstream w.revision ++
      [bluetoothVer] ++ uint16ToBstream vendorId ++ uint16ToBstream 0)
  else w.sendCmdStatusEvt opcode hciErrCmdDisallowed

/-- `DFU_Handler` takes the command over; otherwise the stack's own handler gets it. -/
def takesOver (p : ℕ → UInt8) (w : World) : Bool :=
  let opcode := opcodeOf p
  (hciOgf opcode = hciOgfVs || w.isEnable) &&
    ((hciOcfVsStartDfu ≤ hciOcf opcode && hciOcf opcode ≤ hciOcfVsFwData) || w.isEnable)

/-- `DFU_Handler`. -/
def handler (p : ℕ → UInt8) (w : World) : World := if w.takesOver p then w.cmdHandler p else w

/-- The condition of `DFU_TaskStart` that all answers have been sent. -/
def answersSent (uartBusy : Bool) (w : World) : Bool :=
  w.txFifo.wptr = w.txFifo.rptr && !uartBusy

/-- The clean-up `DFU_TaskStart` makes of a terminated session. -/
def taskTerm (uartBusy : Bool) (w : World) : World :=
  if w.cb.status = .term ∧ w.answersSent uartBusy then
    (w.setStatus .none).reset.eraseNewFwArea
  else w

/-- The timeout handling of `DFU_TaskStart`. -/
def taskTimeout (w : World) : World :=
  if w.cb.timer ≠ 0 ∧ clockTimeExceed w.now w.cb.timer (dfuTimeout * 1000 * 1000) then
    w.eraseNewFwArea.reset
  else w

/-- `DFU_TaskStart`. `MCU_Reset` does not return. -/
def taskStart (uartBusy : Bool) (w : World) : World :=
  if w.cb.status = .ended ∧ w.answersSent uartBusy then
    { w with cb.status := .none, rebooted := true }
  else (w.taskTerm uartBusy).taskTimeout

end World

/-! ## Steps of the machine -/

/-- What happens to the machine: a command packet from the host, a run of the periodic
task, or the transport sending one event. -/
inductive Input where
  | cmd (now : ℕ) (p : ℕ → UInt8)
  | task (now : ℕ) (uartBusy : Bool)
  | txDone

/-- One step. After `MCU_Reset` the program starts again with `DFU_Init`, in a run of its
own. -/
def World.step (w : World) (i : Input) : World :=
  if w.rebooted then w
  else match i with
    | .cmd now p => { w with now := now }.handler p
    | .task now uartBusy => { w with now := now }.taskStart uartBusy
    | .txDone => if w.txFifo.wptr = w.txFifo.rptr then w else { w with txFifo := w.txFifo.drop 1 }

end TlBleSdk.Dfu
