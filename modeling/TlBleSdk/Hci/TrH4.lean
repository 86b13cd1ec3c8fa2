import TlBleSdk.Hci.Fifo
import TlBleSdk.Lib.Run

/-!
# The H4 transport

The receive side of `hci_tr_h4.c`. The UART interrupt queues DMA chunks in a FIFO of its
own; `HCI_Tr_H4RxHandler` takes one chunk at a time, copies the packets that lie in it whole
to the HCI RX FIFO, and moves the beginning of a packet that the chunk ends in to a backup
buffer, from which `HCI_Tr_H4BackUpHandler` completes it with the next chunk. `backupCnt`
and the result that the handler keeps of it are 8 bits wide.

A slot of the UART FIFO is the chunk behind its DMA length, which is the length of the list.
Three history variables that no function reads record the chunks received (`rcvd`), the
packets put into the HCI RX FIFO (`put`) and the packets the stack has read (`taken`).
-/

namespace TlBleSdk.Hci

/-! ## Buffers of the controller build -/

/-- `HCI_RX_FIFO_SIZE` of `app_buffer.h`, `HCI_ACL_IN_FIFO_SIZE(0xFF)`. -/
def hciRxFifoSize : ℕ := (0xFF + 5 + 3) / 4 * 4

/-- `HCI_H4_TR_RX_BUF_SIZE`. -/
def hciH4TrRxBufSize : ℕ := memSizeAlign16 (4 + hciTrRxBufSize) * 2

/-- `HCI_H4_FLUSH_TO`, in milliseconds. -/
def hciH4FlushTo : ℕ := 1000

/-- The length field of a command packet. -/
def cmdParamLen (p : ℕ → UInt8) : ℕ := (p 3).toNat

/-- The length field of a data packet. -/
def aclParamLen (p : ℕ → UInt8) : ℕ := bytesToUint16 p 3

/-- `HciH4TrCb_t`, with the FIFOs it points to, the tick of the system timer and the
history. -/
structure HciH4TrCb where
  pHciRxFifo : HciFifo
  pRxFifo : HciFifo
  pBackUpBuf : ℕ → UInt8
  backupCnt : ℕ
  flushTimer : ℕ
  now : ℕ
  rcvd : List (List UInt8)
  put : List (List UInt8)
  taken : List (List UInt8)
  hung : Bool

namespace HciH4TrCb

/-- `HCI_Tr_H4TimerEnable`. -/
def timerEnable (s : HciH4TrCb) : HciH4TrCb := { s with flushTimer := s.now ||| 1 }

/-- `HCI_Tr_H4TimerDisable`. -/
def timerDisable (s : HciH4TrCb) : HciH4TrCb := { s with flushTimer := 0 }

/-- The condition of `HCI_Tr_H4FlushHandler`. -/
def flushDue (s : HciH4TrCb) : Bool :=
  s.flushTimer ≠ 0 && clockTimeExceed s.now s.flushTimer (hciH4FlushTo * 1000)

/-- `HCI_Tr_H4FlushHandler`. -/
def flushHandler (s : HciH4TrCb) : HciH4TrCb :=
  if s.flushDue then { s with flushTimer := 0, backupCnt := 0 } else s

/-- Copy a packet into the HCI RX FIFO. -/
def putPacket (p : List UInt8) (s : HciH4TrCb) : HciH4TrCb :=
  { s with pHciRxFifo := s.pHciRxFifo.push p, put := s.put ++ [p] }

/-- Copy `l` behind the bytes in the backup buffer. -/
def appendBackup (l : List UInt8) (s : HciH4TrCb) : HciH4TrCb :=
  { s with
    pBackUpBuf := memcpy s.pBackUpBuf s.backupCnt l
    backupCnt := u8 (s.backupCnt + l.length) }

/-! ## The backup handler -/

/-- The bytes behind the header, which is complete: copy what the chunk has of the packet,
and put the packet if that completes it. The first component is the result. -/
def backUpBody (headLen paramLen : ℕ) (pPacket : List UInt8) (len : ℕ) (s : HciH4TrCb) :
    ℕ × HciH4TrCb :=
  let cpyLen := u16 (1 + headLen + paramLen + 65536 - s.backupCnt)
  let s := s.appendBackup (pPacket.take (min cpyLen len))
  (min cpyLen len,
    if s.backupCnt = 1 + headLen + paramLen then
      timerDisable { s.putPacket (bytes s.pBackUpBuf s.backupCnt) with backupCnt := 0 }
    else s.timerEnable)

/-- The cases of `HCI_Tr_H4BackUpHandler` for a packet with a header of `headLen` bytes, of
which `paramLenOf` reads the length field. -/
def backUpPacket (headLen : ℕ) (paramLenOf : (ℕ → UInt8) → ℕ) (pPacket : List UInt8) (len : ℕ)
    (s : HciH4TrCb) : ℕ × HciH4TrCb :=
  if 1 + headLen ≤ s.backupCnt then s.backUpBody headLen (paramLenOf s.pBackUpBuf) pPacket len
  else if 1 + headLen ≤ s.backupCnt + len then
    let cpyLen := 1 + headLen - s.backupCnt
    let s := s.appendBackup (pPacket.take cpyLen)
    let r := s.backUpBody headLen (paramLenOf s.pBackUpBuf) (pPacket.drop cpyLen) (len - cpyLen)
    (u16 (cpyLen + r.1), r.2)
  else (len, (s.appendBackup (pPacket.take len)).timerEnable)

/-- `HCI_Tr_H4BackUpHandler`. -/
def backUpHandler (pPacket : List UInt8) (len : ℕ) (s : HciH4TrCb) : ℕ × HciH4TrCb :=
  if s.backupCnt = 0 then (len, (s.appendBackup (pPacket.take len)).timerEnable)
  else
    let hciType := s.pBackUpBuf 0
    if hciType = trTypeCmd then s.backUpPacket cmdHeadLen cmdParamLen pPacket len
    else if hciType = trTypeAcl ∨ hciType = trTypeIso then
      s.backUpPacket aclHeadLen aclParamLen pPacket len
    else (len, s)

/-! ## The receive handler -/

/-- How one turn of the loop `while (len)` ends: with the loop variables of the next turn,
or with the return on a full FIFO. -/
inductive Turn where
  | next (s : HciH4TrCb) (pPacket : List UInt8) (len : ℕ)
  | full (s : HciH4TrCb)

/-- The code behind the `switch`, for a packet of `pktLen` bytes. -/
def rxPacket (pktLen : ℕ) (pPacket : List UInt8) (len : ℕ) (s : HciH4TrCb) : Turn :=
  if pktLen ≠ 0 ∧ pktLen ≤ len then
    if s.pHciRxFifo.num ≤ s.pHciRxFifo.used then .full s
    else .next (s.putPacket (pPacket.take pktLen)) (pPacket.drop pktLen) (len - pktLen)
  else if pktLen ≠ 0 ∧ len < pktLen then .next (s.backUpHandler pPacket len).2 pPacket 0
  else .next s pPacket len

/-- The cases of the `switch` for a packet with a header of `headLen` bytes: it is moved to
the backup buffer when the header is not complete. -/
def rxHeader (headLen paramLen : ℕ) (pPacket : List UInt8) (len : ℕ) (s : HciH4TrCb) : Turn :=
  if len < 1 + headLen then .next (s.backUpHandler pPacket len).2 pPacket 0
  else s.rxPacket (u16 (1 + headLen + paramLen)) pPacket len

/-- The cases of the `switch` for a packet that the host never receives: it is skipped, but
the packet pointer stays. -/
def rxSkip (headLen paramLen : ℕ) (pPacket : List UInt8) (len : ℕ) (s : HciH4TrCb) : Turn :=
  if len < 1 + headLen then .next s pPacket 0
  else .next s pPacket (u32Sub len (u16 (1 + headLen + paramLen)))

/-- The `switch` of `HCI_Tr_H4RxHandler`. -/
def rxSwitch (pPacket : List UInt8) (len : ℕ) (s : HciH4TrCb) : Turn :=
  let hciType := mem pPacket 0
  if hciType = trTypeCmd then s.rxHeader cmdHeadLen (cmdParamLen (mem pPacket)) pPacket len
  else if hciType = trTypeAcl then s.rxHeader aclHeadLen (aclParamLen (mem pPacket)) pPacket len
  else if hciType = trTypeIso then
    s.rxHeader aclHeadLen (aclParamLen (mem pPacket) % 1024) pPacket len
  else if hciType = trTypeEvent then s.rxSkip evtHeadLen (mem pPacket 2).toNat pPacket len
  else if hciType = trTypeSco then s.rxSkip scoHeadLen (mem pPacket 3).toNat pPacket len
  else .next s pPacket 0

/-- One turn of the loop. The result of the backup handler is kept in a `u8`. -/
def rxTurn (pPacket : List UInt8) (len : ℕ) (s : HciH4TrCb) : Turn :=
  if s.backupCnt ≠ 0 then
    let r := s.backUpHandler pPacket len
    let res := u8 r.1
    if len - res = 0 then .next r.2 (pPacket.drop res) 0
    else r.2.rxSwitch (pPacket.drop res) (len - res)
  else s.rxSwitch pPacket len

/-- The loop `while (len)`, for at most `fuel` turns; `none` when it goes on. The flag says
that the chunk has been used up. -/
def rxLoop : ℕ → List UInt8 → ℕ → HciH4TrCb → Option (Bool × HciH4TrCb)
  | 0, _, _, _ => none
  | fuel + 1, pPacket, len, s =>
    if len = 0 then some (true, s)
    else match s.rxTurn pPacket len with
      | .next s pPacket len => rxLoop fuel pPacket len s
      | .full s => some (false, s)

/-- `HCI_Tr_H4RxHandler` behind the flush. -/
def rxChunk (fuel : ℕ) (s : HciH4TrCb) : HciH4TrCb :=
  if s.pRxFifo.wptr = s.pRxFifo.rptr then s
  else match rxLoop fuel s.pRxFifo.front s.pRxFifo.front.length s with
    | none => { s with hung := true }
    | some (true, s) => { s with pRxFifo := s.pRxFifo.drop 1 }
    | some (false, s) => s

/-- `HCI_Tr_H4RxHandler`, of a loop that is watched for `fuel` turns. -/
def rxHandler (fuel : ℕ) (s : HciH4TrCb) : HciH4TrCb := s.flushHandler.rxChunk fuel

/-! ## The sides of the transport -/

/-- `HCI_Tr_H4UartRxIRQHandler`: the DMA has written `chunk` into the slot at `wptr`. -/
def uartRxIRQHandler (chunk : List UInt8) (s : HciH4TrCb) : HciH4TrCb :=
  if s.pRxFifo.num ≤ s.pRxFifo.used then { s with pRxFifo := s.pRxFifo.write chunk }
  else if chunk.length = 0 then { s with pRxFifo := s.pRxFifo.write chunk }
  else { s with pRxFifo := s.pRxFifo.push chunk, rcvd := s.rcvd ++ [chunk] }

/-- `HCI_RxHandler`: the stack takes the oldest packet. -/
def consume (s : HciH4TrCb) : HciH4TrCb :=
  if s.pHciRxFifo.wptr = s.pHciRxFifo.rptr then s
  else { s with pHciRxFifo := s.pHciRxFifo.drop 1, taken := s.taken ++ [s.pHciRxFifo.front] }

end HciH4TrCb

/-- What happens to the transport. -/
inductive H4Input where
  | uartRx (chunk : List UInt8)
  | rxHandler (now : ℕ)
  | consume

namespace HciH4TrCb

/-- One step. A call of the handler that has not returned ends the run. -/
def step (fuel : ℕ) (s : HciH4TrCb) (i : H4Input) : HciH4TrCb :=
  if s.hung then s
  else match i with
    | .uartRx chunk => s.uartRxIRQHandler chunk
    | .rxHandler now => { s with now := now }.rxHandler fuel
    | .consume => s.consume

variable {fuel : ℕ} {s : HciH4TrCb}

theorem step_uartRx (hrun : s.hung = false) (chunk : List UInt8) :
    s.step fuel (.uartRx chunk) = s.uartRxIRQHandler chunk := if_neg (by rw [hrun]; decide)

theorem step_rxHandler (hrun : s.hung = false) (now : ℕ) :
    s.step fuel (.rxHandler now) = rxHandler fuel { s with now := now } :=
  if_neg (by rw [hrun]; decide)

theorem step_consume (hrun : s.hung = false) : s.step fuel .consume = s.consume :=
  if_neg (by rw [hrun]; decide)

/-- `HCI_Tr_H4Init`, with the HCI RX FIFO of `2 ^ k` slots. -/
def init (k : ℕ) (hk : k ≤ 7) : HciH4TrCb where
  pHciRxFifo := HciFifo.empty hciRxFifoSize k hk
  pRxFifo := HciFifo.empty hciH4TrRxBufSize 2 HciFifo.two_le_seven
  pBackUpBuf _ := 0
  backupCnt := 0
  flushTimer := 0
  now := 0
  rcvd := []
  put := []
  taken := []
  hung := false

end HciH4TrCb
end TlBleSdk.Hci
