import TlBleSdk.Hci.Fifo
import TlBleSdk.Lib.Crc

/-!
# The H5 protocol

`hci_h5.c`: the packet header, the main control block, link establishment and the sliding
window. Every function takes the control block and returns it. The answer of
`HCI_Slip_Send` is the argument `slip` of the function that sends, and `now` is what
`clock_time` returns.
-/

namespace TlBleSdk.Hci

/-! ## The packet header -/

def hciH5PktTypeAck : ℕ := 0
def hciH5PktTypeCmd : ℕ := 1
def hciH5PktTypeAcl : ℕ := 2
def hciH5PktTypeSco : ℕ := 3
def hciH5PktTypeEvt : ℕ := 4
def hciH5PktTypeLinkCtrl : ℕ := 15

def hciH5MsgSync : ℕ := 0x7E01
def hciH5MsgSyncRsp : ℕ := 0x7D02
def hciH5MsgConfig : ℕ := 0xFC03
def hciH5MsgConfigRsp : ℕ := 0x7B04

/-- `HciH5Head_t`. -/
structure HciH5Head where
  seqNum : ℕ
  ackNum : ℕ
  crc : ℕ
  reliable : ℕ
  pktType : ℕ
  headCheckSum : ℕ
  payloadLen : ℕ
deriving DecidableEq

/-- `HCI_H5_CcittCrc16Calc`. -/
def hciH5CcittCrc16Calc (crcInit : BitVec 16) (packet : List UInt8) : BitVec 16 :=
  Crc.crc 0x8408#16 crcInit packet

/-- `HCI_H5_CheckSumCalc`. -/
def hciH5CheckSumCalc (b0 b1 b2 : UInt8) : UInt8 := ~~~(b0 + b1 + b2)

/-- `HCI_H5_IsCheckSumValid`, over the four bytes of the header. -/
def hciH5IsCheckSumValid (p : ℕ → UInt8) : Bool :=
  ((p 0).toNat + (p 1).toNat + (p 2).toNat + (p 3).toNat) % 256 = 0xFF

/-- `HCI_H5_PackHeader`. -/
def hciH5PackHeader (head : HciH5Head) : List UInt8 :=
  let flags := u16 (head.seqNum <<< 0 ||| head.ackNum <<< 3 ||| head.crc <<< 6 |||
    head.reliable <<< 7)
  let tmp := u16 (head.pktType ||| (head.payloadLen <<< 4 &&& 0x0fff))
  let b0 := UInt8.ofNat flags
  let b1 := UInt8.ofNat tmp
  let b2 := UInt8.ofNat (tmp >>> 8)
  [b0, b1, b2, hciH5CheckSumCalc b0 b1 b2]

/-- `HCI_H5_UnpackHeader`. -/
def hciH5UnpackHeader (p : ℕ → UInt8) : HciH5Head :=
  let head := bytesToUint32 p 0
  { seqNum := head &&& 0x07
    ackNum := head >>> 3 &&& 0x07
    crc := head >>> 6 &&& 0x01
    reliable := head >>> 7 &&& 0x01
    pktType := head >>> 8 &&& 0x0F
    payloadLen := head >>> 12 &&& 0x0FFF
    headCheckSum := head >>> 24 &&& 0xFF }

/-- `HCI_H5_IsReliablePacket`. -/
def hciH5IsReliablePacket (type : ℕ) : Bool :=
  type = hciH5PktTypeCmd || type = hciH5PktTypeAcl || type = hciH5PktTypeEvt

/-! ## The control block -/

/-- `HciH5Config_t`. -/
structure HciH5Config where
  slidWinSize : ℕ
  oofFlowCtrl : ℕ
  dataIntgrtChkType : ℕ
  version : ℕ
deriving DecidableEq

/-- The link states of H5. -/
inductive HciH5LinkState
  | idle | init | active
deriving DecidableEq

/-- What the protocol did since its last reset. No function of the source reads it. -/
structure HciH5History where
  /-- The entries the host put into `pHciTxFifo`. -/
  given : List (List UInt8) := []
  /-- The entries put into `pHciRxFifo`. -/
  put : List (List UInt8) := []
  /-- How many entries of `pHciTxFifo` were released. -/
  released : ℕ := 0
  /-- How many entries the peer has acknowledged. -/
  acked : ℕ := 0
  /-- The entries sent, each with its sequence number. -/
  sent : List (ℕ × ℕ) := []
  /-- A packet was received since the last acknowledgement was sent. -/
  owed : Bool := false

/-- `HciH5Cb_t`, with the local `hciH5Config` and the frames that went to the UART. -/
structure HciH5Cb where
  pHciRxFifo : HciFifo
  pHciTxFifo : HciFifo
  hciH5Config : HciH5Config
  config : HciH5Config
  tick : ℕ
  linkState : HciH5LinkState
  rxSlidWinSize : ℕ
  txSlidWinSize : ℕ
  txSeq : ℕ
  txAck : ℕ
  rxAck : ℕ
  txTick : ℕ
  rxTick : ℕ
  resendTick : ℕ
  uartTx : List (List UInt8)
  history : HciH5History

/-- `HCI_H5_Init`, on the control block at its static zero. -/
def hciH5Init (hciH5Config : HciH5Config) (pHciRxFifo pHciTxFifo : HciFifo) (now : ℕ) :
    HciH5Cb where
  pHciRxFifo := pHciRxFifo
  pHciTxFifo := pHciTxFifo
  hciH5Config := hciH5Config
  config := ⟨0, 0, 0, 0⟩
  tick := clockTimeOr1 now
  linkState := .idle
  rxSlidWinSize := 0
  txSlidWinSize := 0
  txSeq := 0
  txAck := 0
  rxAck := 0
  txTick := 0
  rxTick := 0
  resendTick := 0
  uartTx := []
  history := {}

/-- `HCI_H5_Init`, on a control block in use, with the same FIFOs. It leaves `config` and the
entries of the FIFOs. -/
def hciH5InitAgain (cb : HciH5Cb) (now : ℕ) : HciH5Cb :=
  { cb with
    linkState := .idle
    rxSlidWinSize := 0
    txSlidWinSize := 0
    txSeq := 0
    txAck := 0
    rxAck := 0
    tick := clockTimeOr1 now
    txTick := 0
    rxTick := 0
    resendTick := 0 }

/-- `HCI_H5_Reset`. -/
def hciH5Reset (cb : HciH5Cb) (now : ℕ) : HciH5Cb :=
  { cb with
    rxSlidWinSize := 0
    txSlidWinSize := 0
    txSeq := 0
    txAck := 0
    rxAck := 0
    tick := clockTimeOr1 now
    txTick := 0
    rxTick := 0
    resendTick := 0
    pHciRxFifo := cb.pHciRxFifo.reset
    pHciTxFifo := cb.pHciTxFifo.reset
    history := {} }

/-! ## Sending -/

/-- The header `HCI_H5_Send` fills in. -/
def hciH5SendHead (cb : HciH5Cb) (h5Type len : ℕ) : HciH5Head where
  seqNum := if hciH5IsReliablePacket h5Type then cb.txSeq else 0
  ackNum := cb.txAck
  crc := if h5Type ≠ hciH5PktTypeAck ∧ h5Type ≠ hciH5PktTypeLinkCtrl then
    cb.config.dataIntgrtChkType else 0
  reliable := if hciH5IsReliablePacket h5Type then 1 else 0
  pktType := h5Type
  headCheckSum := 0
  payloadLen := u16 len

/-- The CRC `HCI_H5_Send` appends, upper byte first. -/
def hciH5CrcBytes (head : HciH5Head) (buf : List UInt8) : List UInt8 :=
  if head.crc ≠ 0 then
    let crc := hciH5CcittCrc16Calc 0xFFFF#16 buf
    [UInt8.ofNat (crc >>> 8 &&& 0xFF#16).toNat, UInt8.ofNat (crc &&& 0xFF#16).toNat]
  else []

/-- What `HCI_H5_Send` hands to `HCI_Slip_Send`. Its length is 16 bits wide. -/
def hciH5Frame (head : HciH5Head) (packet : List UInt8) : List UInt8 :=
  let buf := hciH5PackHeader head ++ packet
  let pktLen := u16 (hciH5HeadLen + packet.length + if head.crc ≠ 0 then hciH5CrcLen else 0)
  (buf ++ hciH5CrcBytes head buf).take pktLen

/-- `HCI_H5_Send`. Its result is `slip`. -/
def hciH5Send (cb : HciH5Cb) (slip : Bool) (h5Type : ℕ) (packet : List UInt8) : HciH5Cb :=
  let head := hciH5SendHead cb h5Type packet.length
  { cb with
    txSeq := if hciH5IsReliablePacket h5Type then (cb.txSeq + 1) % 8 else cb.txSeq
    uartTx := if slip then cb.uartTx ++ [hciH5Frame head packet] else cb.uartTx
    history := { cb.history with owed := if slip then false else cb.history.owed } }

/-- The length, type and payload of a slot of `pHciTxFifo`, as `HCI_H5_SendData` reads
them. -/
def slotLen (slot : List UInt8) : ℕ := u32Sub (bytesToUint16 (mem slot) 0) 1

def slotType (slot : List UInt8) : ℕ := (mem slot 2).toNat

def slotPayload (slot : List UInt8) : List UInt8 :=
  bytes (fun i => mem slot (3 + i)) (slotLen slot)

/-- The slot `HCI_H5_SendData` reads. -/
def hciH5TxSlot (cb : HciH5Cb) : List UInt8 :=
  cb.pHciTxFifo.p
    (cb.pHciTxFifo.slotIdx (u8 (cb.pHciTxFifo.rptr + cb.txSlidWinSize)))

/-- `HCI_H5_SendData`. -/
def hciH5SendData (cb : HciH5Cb) (now : ℕ) (slip : Bool) : HciH5Cb :=
  if cb.config.slidWinSize ≤ cb.txSlidWinSize then cb
  else if cb.pHciTxFifo.wptr = cb.pHciTxFifo.rptr + cb.txSlidWinSize then cb
  else
    let slot := hciH5TxSlot cb
    let cb' := hciH5Send { cb with txSlidWinSize := u8 (cb.txSlidWinSize + 1) } slip
      (slotType slot) (slotPayload slot)
    if slip = false then
      -- what was not sent is taken back, and tried again
      { cb' with
        txSeq := (cb'.txSeq + 8 - 1) % 8
        txSlidWinSize := cb'.txSlidWinSize - 1
        txTick := 0 }
    else
      { cb' with
        rxSlidWinSize := 0
        txTick := clockTimeOr1 now
        rxTick := 0
        history :=
          { cb'.history with
            sent := cb'.history.sent ++ [(cb.history.released + cb.txSlidWinSize,
              (hciH5SendHead cb (slotType slot) 0).seqNum)] } }

/-- `HCI_H5_SendPureAck`. -/
def hciH5SendPureAck (cb : HciH5Cb) (slip : Bool) : HciH5Cb :=
  hciH5Send cb slip hciH5PktTypeAck []

/-- `HCI_H5_SendSync`. -/
def hciH5SendSync (cb : HciH5Cb) (slip : Bool) : HciH5Cb :=
  hciH5Send cb slip hciH5PktTypeLinkCtrl (uint16ToBstream hciH5MsgSync)

/-- `HCI_H5_SendSyncRsp`. -/
def hciH5SendSyncRsp (cb : HciH5Cb) (slip : Bool) : HciH5Cb :=
  hciH5Send cb slip hciH5PktTypeLinkCtrl (uint16ToBstream hciH5MsgSyncRsp)

/-- The configuration byte of the CONFIG messages. -/
def hciH5ConfigByte (config : HciH5Config) : UInt8 :=
  UInt8.ofNat (config.slidWinSize ||| config.oofFlowCtrl <<< 3 |||
    config.dataIntgrtChkType <<< 4 ||| config.version <<< 5)

/-- `HCI_H5_SendConfig`. -/
def hciH5SendConfig (cb : HciH5Cb) (slip : Bool) : HciH5Cb :=
  hciH5Send cb slip hciH5PktTypeLinkCtrl
    (uint16ToBstream hciH5MsgConfig ++ [hciH5ConfigByte cb.hciH5Config])

/-- `HCI_H5_SendConfigRsp`. -/
def hciH5SendConfigRsp (cb : HciH5Cb) (slip : Bool) : HciH5Cb :=
  hciH5Send cb slip hciH5PktTypeLinkCtrl
    (uint16ToBstream hciH5MsgConfigRsp ++ [hciH5ConfigByte cb.hciH5Config])

/-! ## Link establishment -/

/-- The configuration both sides support. -/
def hciH5Negotiate (own : HciH5Config) (cfg : ℕ) : HciH5Config where
  slidWinSize := min own.slidWinSize (cfg &&& 0x07)
  oofFlowCtrl := own.oofFlowCtrl &&& (cfg >>> 3 &&& 0x01)
  dataIntgrtChkType := own.dataIntgrtChkType &&& (cfg >>> 4 &&& 0x01)
  version := min own.version (cfg >>> 5 &&& 0x07)

section Stack

/- `blc_hci_reset` is a function of the BLE stack library. It knows the FIFOs of the
transport, not its control block. -/
variable (blcHciReset : HciFifo → HciFifo → HciFifo × HciFifo)

/-- `HCI_H5_DecodeLinkPdu`. -/
def hciH5DecodeLinkPdu (cb : HciH5Cb) (now : ℕ) (slip : Bool) (p : ℕ → UInt8) : HciH5Cb :=
  let msg := bytesToUint16 p hciH5HeadLen
  let cfg := (p (hciH5HeadLen + 2)).toNat
  match cb.linkState with
  | .idle =>
    if msg = hciH5MsgSync then hciH5SendSyncRsp cb slip
    else if msg = hciH5MsgSyncRsp then hciH5SendConfig { cb with linkState := .init } slip
    else hciH5SendSync cb slip
  | .init =>
    if msg = hciH5MsgSync then hciH5SendSyncRsp cb slip
    else if msg = hciH5MsgConfig then hciH5SendConfigRsp cb slip
    else if msg = hciH5MsgConfigRsp then
      { hciH5Reset { cb with linkState := .active } now with
        config := hciH5Negotiate cb.hciH5Config cfg }
    else cb
  | .active =>
    if msg = hciH5MsgConfig then hciH5SendConfigRsp cb slip
    else if msg = hciH5MsgSync then
      -- the peer starts again, and with it this side and the stack
      let cb' := hciH5Reset { cb with linkState := .idle } now
      let fifos := blcHciReset cb'.pHciRxFifo cb'.pHciTxFifo
      hciH5SendSyncRsp { cb' with pHciRxFifo := fifos.1, pHciTxFifo := fifos.2 } slip
    else cb

/-! ## Receiving -/

/-- `HCI_H5_PackHciPdu`. The size check only asserts. -/
def hciH5PackHciPdu (cb : HciH5Cb) (hciType : ℕ) (payload : List UInt8) : HciH5Cb :=
  let slot := UInt8.ofNat hciType :: payload
  { cb with
    pHciRxFifo := cb.pHciRxFifo.push slot
    history := { cb.history with put := cb.history.put ++ [slot] } }

/-- Release the entries in flight: the branch of `HCI_H5_ReSendCheck` and
`HCI_H5_DecodeDataPdu` for an acknowledgement of everything sent. -/
def hciH5Release (cb : HciH5Cb) : HciH5Cb :=
  { cb with
    pHciTxFifo := cb.pHciTxFifo.drop cb.txSlidWinSize
    txSlidWinSize := 0
    txTick := 0
    resendTick := 0
    history := { cb.history with released := cb.history.released + cb.txSlidWinSize } }

/-- One past the last entry ever sent. -/
def HciH5History.top (h : HciH5History) : ℕ := (h.sent.map fun e => e.1 + 1).foldr max 0

/-- The peer acknowledges everything before the sequence number `ackNum`: the entries
between the last one acknowledged and it, if they were sent. -/
def HciH5History.ack (h : HciH5History) (ackNum : ℕ) : HciH5History :=
  let n := (ackNum + 8 - h.acked % 8) % 8
  if h.acked + n ≤ h.top then { h with acked := h.acked + n } else h

/-- `HCI_H5_ReSendCheck`. -/
def hciH5ReSendCheck (cb : HciH5Cb) (now : ℕ) : HciH5Cb :=
  if cb.rxAck = cb.txSeq then hciH5Release cb
  else
    { cb with
      txTick := 0
      resendTick := if cb.resendTick = 0 then clockTimeOr1 now else cb.resendTick }

/-- The CRC check of `HCI_H5_DecodeDataPdu`. -/
def hciH5CrcValid (p : ℕ → UInt8) (len : ℕ) : Bool :=
  let pLen := u16 (len - hciH5CrcLen)
  let crc := hciH5CcittCrc16Calc 0x0000#16 (bytes p pLen)
  (crc &&& 0xff#16).toNat = (p (pLen + 1)).toNat &&
    (crc >>> 8 &&& 0xff#16).toNat = (p pLen).toNat

/-- `HCI_H5_DecodeDataPdu` goes on behind its CRC checks. -/
def hciH5DataValid (cb : HciH5Cb) (head : HciH5Head) (p : ℕ → UInt8) (len : ℕ) : Bool :=
  !(cb.config.dataIntgrtChkType = 0 && head.crc ≠ 0) && (head.crc = 0 || hciH5CrcValid p len)

/-- The payload of a received packet. -/
def hciH5Payload (head : HciH5Head) (p : ℕ → UInt8) : List UInt8 :=
  bytes (fun i => p (hciH5HeadLen + i)) head.payloadLen

/-- The branch of `HCI_H5_DecodeDataPdu` for the expected reliable packet. -/
def hciH5RxSeqOk (cb : HciH5Cb) (now : ℕ) (slip : Bool) (head : HciH5Head)
    (p : ℕ → UInt8) : HciH5Cb :=
  let cb₁ :=
    { cb with
      txAck := (cb.txAck + 1) % 8
      rxSlidWinSize := u8 (cb.rxSlidWinSize + 1)
      rxTick := clockTimeOr1 now
      history := { cb.history with owed := true } }
  let cb₂ :=
    if cb₁.config.slidWinSize ≠ 1 ∧ cb₁.config.slidWinSize ≤ cb₁.rxSlidWinSize then
      { hciH5SendPureAck cb₁ slip with rxSlidWinSize := 0 }
    else cb₁
  hciH5PackHciPdu cb₂ head.pktType (hciH5Payload head p)

/-- The branch of `HCI_H5_DecodeDataPdu` for another reliable packet, which it drops. Where
it is the packet accepted last, the peer missed the acknowledgement. -/
def hciH5RxSeqError (cb : HciH5Cb) (head : HciH5Head) : HciH5Cb :=
  { cb with
    history :=
      { cb.history with
        owed := cb.history.owed || (head.seqNum + 1) % 8 = cb.txAck } }

/-- The resend check of `HCI_H5_DecodeDataPdu`. -/
def hciH5DataAck (cb : HciH5Cb) (now : ℕ) (ackNum : ℕ) : HciH5Cb :=
  if ackNum = cb.txSeq then hciH5Release { cb with rxAck := ackNum }
  else
    { cb with resendTick := if cb.resendTick = 0 then clockTimeOr1 now else cb.resendTick }

/-- `HCI_H5_DecodeDataPdu`. -/
def hciH5DecodeDataPdu (cb : HciH5Cb) (now : ℕ) (slip : Bool) (head : HciH5Head)
    (p : ℕ → UInt8) (len : ℕ) : HciH5Cb :=
  if !hciH5DataValid cb head p len then cb
  else if head.reliable ≠ 0 then
    let cb₁ := { cb with history := cb.history.ack head.ackNum }
    let cb₂ :=
      if head.seqNum = cb.txAck then hciH5RxSeqOk cb₁ now slip head p
      else hciH5RxSeqError cb₁ head
    hciH5DataAck cb₂ now head.ackNum
  else
    hciH5PackHciPdu { cb with txAck := (cb.txAck + 1) % 8 } head.pktType (hciH5Payload head p)

/-- The length check of `HCI_H5_PacketHandler`. -/
def hciH5LenValid (head : HciH5Head) (len : ℕ) : Bool :=
  if head.crc = 0 then hciH5HeadLen + head.payloadLen = len
  else hciH5HeadLen + head.payloadLen + hciH5CrcLen = len

/-- The packet types `HCI_H5_PacketHandler` decodes as data. -/
def hciH5IsDataType (type : ℕ) : Bool :=
  type = hciH5PktTypeCmd || type = hciH5PktTypeAcl || type = hciH5PktTypeSco ||
    type = hciH5PktTypeEvt

/-- `HCI_H5_PacketHandler`. -/
def hciH5PacketHandler (cb : HciH5Cb) (now : ℕ) (slip : Bool) (p : ℕ → UInt8) (len : ℕ) :
    HciH5Cb :=
  let head := hciH5UnpackHeader p
  if !hciH5IsCheckSumValid p then cb
  else if !hciH5LenValid head len then cb
  else if head.pktType = hciH5PktTypeAck then
    if cb.linkState ≠ .active then cb
    else
      hciH5ReSendCheck
        { cb with rxAck := head.ackNum, history := cb.history.ack head.ackNum } now
  else if head.pktType = hciH5PktTypeLinkCtrl then hciH5DecodeLinkPdu blcHciReset cb now slip p
  else if hciH5IsDataType head.pktType then
    if cb.linkState ≠ .active then cb else hciH5DecodeDataPdu cb now slip head p len
  else cb

/-! ## The main loop -/

/-- `HCI_H5_ResendStart`. -/
def hciH5ResendStart (cb : HciH5Cb) (now : ℕ) (slip : Bool) : HciH5Cb :=
  hciH5SendData { cb with txSeq := cb.rxAck, txSlidWinSize := 0 } now slip

def h5PureAckTo : ℕ := 10
def h5ResendTo : ℕ := 50

/-- The resend timers of `HCI_H5_Poll`, or new data. -/
def hciH5PollTx (cb : HciH5Cb) (now : ℕ) (slip : Bool) : HciH5Cb :=
  if cb.resendTick ≠ 0 then
    if clockTimeExceed now cb.resendTick (h5ResendTo * 1000) then
      hciH5ResendStart { cb with resendTick := 0 } now slip
    else cb
  else if cb.config.slidWinSize ≤ cb.txSlidWinSize then
    if cb.txTick ≠ 0 ∧ clockTimeExceed now cb.txTick (h5ResendTo * 1000) then
      hciH5ResendStart { cb with txTick := 0 } now slip
    else cb
  else hciH5SendData cb now slip

/-- The pure ACK handler of `HCI_H5_Poll`. -/
def hciH5PollAck (cb : HciH5Cb) (now : ℕ) (slip : Bool) : HciH5Cb :=
  if cb.config.slidWinSize = 1 ∧ cb.rxTick ≠ 0 ∧
      clockTimeExceed now cb.rxTick (h5PureAckTo * 1000) then
    { hciH5SendPureAck { cb with rxTick := 0 } slip with rxSlidWinSize := 0 }
  else cb

/-- `HCI_H5_Poll`. It sends up to two frames, a data frame and a pure ACK. -/
def hciH5Poll (cb : HciH5Cb) (now : ℕ) (slip slipAck : Bool) : HciH5Cb :=
  match cb.linkState with
  | .idle =>
    if clockTimeExceed now cb.tick (250 * 1000) then
      { hciH5SendSync cb slip with tick := u32 now }
    else cb
  | .init =>
    if clockTimeExceed now cb.tick (250 * 1000) then
      { hciH5SendConfig cb slip with tick := u32 now }
    else cb
  | .active => hciH5PollAck (hciH5PollTx cb now slip) now slipAck

/-! ## One endpoint -/

/-- The host puts an entry into `pHciTxFifo`. -/
def hostTx (cb : HciH5Cb) (slot : List UInt8) : HciH5Cb :=
  { cb with
    pHciTxFifo := cb.pHciTxFifo.push slot
    history := { cb.history with given := cb.history.given ++ [slot] } }

/-- `HCI_RxHandler`: the host takes an entry of `pHciRxFifo`. -/
def hciRxHandler (cb : HciH5Cb) : HciH5Cb :=
  if cb.pHciRxFifo.wptr = cb.pHciRxFifo.rptr then cb
  else { cb with pHciRxFifo := cb.pHciRxFifo.drop 1 }

/-- What happens at an endpoint. -/
inductive HciH5Event
  | poll (now : ℕ) (slip slipAck : Bool)
  | packet (now : ℕ) (slip : Bool) (p : ℕ → UInt8) (len : ℕ)
  | hostTx (slot : List UInt8)
  | hostRx

/-- One step of an endpoint. -/
def hciH5Step (cb : HciH5Cb) : HciH5Event → HciH5Cb
  | .poll now slip slipAck => hciH5Poll cb now slip slipAck
  | .packet now slip p len => hciH5PacketHandler blcHciReset cb now slip p len
  | .hostTx slot => hostTx cb slot
  | .hostRx => hciRxHandler cb

end Stack

end TlBleSdk.Hci
