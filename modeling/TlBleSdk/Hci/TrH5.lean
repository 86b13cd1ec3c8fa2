import TlBleSdk.Hci.Fifo
import TlBleSdk.Lib.Run

/-!
# The H5 transport

The receive side of `hci_tr_h5.c`: `HCI_Tr_H5RxHandler` takes the chunks that the UART
interrupt has queued, finds the SLIP frames that lie in one of them whole, and collects the
others in a backup buffer. `backupCnt` and the result that the handler keeps of
`HCI_Tr_H5BackupHandler` are 8 bits wide. The bytes at a pointer of the source with the
length that goes with it are a list; the assertions are empty in this build.

Two history variables that no function reads record the chunks received (`rcvd`) and the
arguments of the SLIP handler (`slips`).
-/

namespace TlBleSdk.Hci

/-- `HCI_H5_TR_RX_BUF_SIZE`. -/
def hciH5TrRxBufSize : ℕ :=
  memSizeAlign16 (4 + 2 + (hciH5HeadLen + hciTrRxBufSize + hciH5CrcLen) * 2) * 2

/-- `HCI_H5_FLUSH_TO`, in milliseconds. -/
def hciH5FlushTo : ℕ := 1000

/-- The delimiter of a SLIP frame. -/
def slipFlag : UInt8 := 0xC0

/-- `HCI_Tr_H5FindSlipHeadFlag`. -/
def findSlipHeadFlag : List UInt8 → Option (List UInt8)
  | [] => none
  | [x] => if x = slipFlag then some [x] else none
  | x :: y :: l =>
    if x = slipFlag ∧ y ≠ slipFlag then some (x :: y :: l) else findSlipHeadFlag (y :: l)

/-- `HCI_Tr_H5FindSlipFlag`. -/
def findSlipFlag : List UInt8 → Option (List UInt8)
  | [] => none
  | x :: l => if x ≠ slipFlag then findSlipFlag l else some (x :: l)

/-- `HciH5TrCb_t`, with the UART FIFO, the tick of the system timer and the history. -/
structure HciH5TrCb where
  pRxFifo : HciFifo
  pBackupBuf : ℕ → UInt8
  backupCnt : ℕ
  flushTimer : ℕ
  now : ℕ
  rcvd : List (List UInt8)
  slips : List (List UInt8)
  hung : Bool

namespace HciH5TrCb

/-- `HCI_Tr_H5TimerEnable`. -/
def timerEnable (s : HciH5TrCb) : HciH5TrCb := { s with flushTimer := s.now ||| 1 }

/-- `HCI_Tr_H5TimerDisable`. -/
def timerDisable (s : HciH5TrCb) : HciH5TrCb := { s with flushTimer := 0 }

/-- The condition of `HCI_Tr_H5FlushHandler`. -/
def flushDue (s : HciH5TrCb) : Bool :=
  s.flushTimer ≠ 0 && clockTimeExceed s.now s.flushTimer (hciH5FlushTo * 1000)

/-- `HCI_Tr_H5FlushHandler`. -/
def flushHandler (s : HciH5TrCb) : HciH5TrCb :=
  if s.flushDue then { s with flushTimer := 0, backupCnt := 0 } else s

/-- The call of `HCI_Tr_SlipHandler`. -/
def slipHandler (pPacket : List UInt8) (s : HciH5TrCb) : HciH5TrCb :=
  { s with slips := s.slips ++ [pPacket] }

/-- Copy `l` behind the bytes in the backup buffer. -/
def appendBackup (l : List UInt8) (s : HciH5TrCb) : HciH5TrCb :=
  { s with
    pBackupBuf := memcpy s.pBackupBuf s.backupCnt l
    backupCnt := u8 (s.backupCnt + l.length) }

/-- Give up the bytes in the backup buffer. -/
def clearBackup (s : HciH5TrCb) : HciH5TrCb := timerDisable { s with backupCnt := 0 }

/-- The loop of `HCI_Tr_H5BackupHandler`; the first component is `cnt`. -/
def backupLoop : List UInt8 → ℕ → HciH5TrCb → ℕ × HciH5TrCb
  | [], cnt, s => (cnt, s)
  | x :: l, cnt, s =>
    if hciH5TrRxBufSize < s.backupCnt + 1 then (cnt, s.clearBackup)
    else if x = slipFlag then
      -- the end of the previous frame and the head of this one
      if s.backupCnt = 1 then backupLoop l (u16 (cnt + 1)) s
      else
        let s := s.appendBackup [x]
        (u16 (cnt + 1), (s.slipHandler (bytes s.pBackupBuf s.backupCnt)).clearBackup)
    else backupLoop l (u16 (cnt + 1)) (s.appendBackup [x]).timerEnable

/-- `HCI_Tr_H5BackupHandler`. -/
def backupHandler (pPacket : List UInt8) (s : HciH5TrCb) : ℕ × HciH5TrCb :=
  if s.backupCnt = 0 then (pPacket.length, (s.appendBackup pPacket).timerEnable)
  else backupLoop pPacket 0 s

/-- The first part of a turn of `while (len)`: complete a frame in the backup buffer. The
result of the backup handler is kept in a `u8`. -/
def rxBackup (pPacket : List UInt8) (s : HciH5TrCb) : List UInt8 × HciH5TrCb :=
  if s.backupCnt ≠ 0 then
    let r := s.backupHandler pPacket
    (pPacket.drop (u8 r.1), r.2)
  else (pPacket, s)

/-- The loop `while (len)` of `HCI_Tr_H5RxHandler`, for at most `fuel` turns. -/
def rxLoop : ℕ → List UInt8 → HciH5TrCb → Option HciH5TrCb
  | 0, _, _ => none
  | fuel + 1, pPacket, s =>
    if pPacket.length = 0 then some s
    else
      let r := s.rxBackup pPacket
      match findSlipHeadFlag r.1 with
      | none => some r.2
      | some pBuf =>
        match findSlipFlag (pBuf.drop 1) with
        | none => some (r.2.backupHandler pBuf).2
        | some pBuf2 =>
          if pBuf.length = 1 then some (r.2.backupHandler pBuf).2
          else
            let slipLen := u16 (pBuf.length - pBuf2.length + 1)
            if slipLen < 6 then rxLoop fuel (pBuf.drop slipLen) r.2
            else rxLoop fuel (pBuf.drop slipLen) (r.2.slipHandler (pBuf.take slipLen))

/-- The loop over the chunks that are queued, for at most `n` of them. -/
def rxQueue (fuel : ℕ) : ℕ → HciH5TrCb → Option HciH5TrCb
  | 0, _ => none
  | n + 1, s =>
    if s.pRxFifo.wptr = s.pRxFifo.rptr then some s
    else (rxLoop fuel s.pRxFifo.front s).bind fun s =>
      rxQueue fuel n { s with pRxFifo := s.pRxFifo.drop 1 }

/-- `HCI_Tr_H5RxHandler`, of loops that are watched for `fuel` turns. -/
def rxHandler (fuel : ℕ) (s : HciH5TrCb) : HciH5TrCb :=
  match rxQueue fuel fuel s.flushHandler with
  | none => { s with hung := true }
  | some s => s

/-- `HCI_Tr_H5UartRxIRQHandler`: the DMA has written `chunk` into the slot at `wptr`. -/
def uartRxIRQHandler (chunk : List UInt8) (s : HciH5TrCb) : HciH5TrCb :=
  if s.pRxFifo.num ≤ s.pRxFifo.used then { s with pRxFifo := s.pRxFifo.write chunk }
  else if chunk.length = 0 then { s with pRxFifo := s.pRxFifo.write chunk }
  else { s with pRxFifo := s.pRxFifo.push chunk, rcvd := s.rcvd ++ [chunk] }

end HciH5TrCb

/-- What happens to the transport. -/
inductive H5Input where
  | uartRx (chunk : List UInt8)
  | rxHandler (now : ℕ)

namespace HciH5TrCb

/-- One step. A call of the handler that has not returned ends the run. -/
def step (fuel : ℕ) (s : HciH5TrCb) (i : H5Input) : HciH5TrCb :=
  if s.hung then s
  else match i with
    | .uartRx chunk => s.uartRxIRQHandler chunk
    | .rxHandler now => { s with now := now }.rxHandler fuel

variable {fuel : ℕ} {s : HciH5TrCb}

theorem step_uartRx (hrun : s.hung = false) (chunk : List UInt8) :
    s.step fuel (.uartRx chunk) = s.uartRxIRQHandler chunk := if_neg (by rw [hrun]; decide)

theorem step_rxHandler (hrun : s.hung = false) (now : ℕ) :
    s.step fuel (.rxHandler now) = rxHandler fuel { s with now := now } :=
  if_neg (by rw [hrun]; decide)

/-- `HCI_Tr_H5Init`. -/
def init : HciH5TrCb where
  pRxFifo := HciFifo.empty hciH5TrRxBufSize 2 HciFifo.two_le_seven
  pBackupBuf _ := 0
  backupCnt := 0
  flushTimer := 0
  now := 0
  rcvd := []
  slips := []
  hung := false

end HciH5TrCb
end TlBleSdk.Hci
