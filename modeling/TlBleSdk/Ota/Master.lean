import TlBleSdk.Ota.Defs

/-!
# The masters of the 2.4G OTA

`OTA_MasterStart` and `OTA_Batch_MasterStart`. Each call takes the message that
`OTA_MsgQueuePop` returns, if there is one, and `now` is what `clock_time` returns.
-/

namespace TlBleSdk.Ota

open Hci NorFlash

/-- `OTA_MASTER_STATE_IDLE` to `OTA_MASTER_STATE_ERROR`. -/
inductive OtaMasterState
  | idle
  | fwVerWait
  | startRspWait
  | dataAckWait
  | endRspWait
  | ended
  | dataLossCheck
  | dataLossSupp
  | error
deriving DecidableEq

/-- The state of a master: `MasterCtrl`, `LossCtrl`, the static variables and the flash. -/
structure OtaMaster where
  flashAddr : ℕ
  totalBinSize : ℕ
  maxBlockNum : ℕ
  blockNum : ℕ
  fwVersion : ℕ
  state : OtaMasterState
  retryTimes : ℕ
  finishFlag : Bool
  bcnt : ℕ
  stateTick : ℕ
  /-- `LossCtrl.OtaBinAddr`, which no function sets. -/
  lossBinAddr : ℕ
  /-- `LossCtrl.loss_blk_num`. -/
  lossBlkNum : ℕ
  lossDevMac : List UInt8
  /-- The bytes of `loss_pkt_blknum`. -/
  lossPktBlknum : ℕ → UInt8
  otaTag : List UInt8
  /-- The static `Len` of the state machine. -/
  len : ℕ
  /-- The static `fLen` of the batch master. -/
  fLen : ℤ
  txFrame : OtaFrame
  rxFrame : OtaFrame
  flash : Cells
  /-- The address that `OTA_MasterInit` was called with. -/
  binAddr : ℕ
  /-- What the last call accessed and sent. -/
  ops : List OtaOp
  /-- All frames on the air so far. -/
  air : List (List UInt8)

/-- Power-on. -/
def OtaMaster.powerOn (flash : Cells) : OtaMaster where
  flashAddr := 0
  totalBinSize := 0
  maxBlockNum := 0
  blockNum := 0
  fwVersion := 0
  state := .idle
  retryTimes := 0
  finishFlag := false
  bcnt := 0
  stateTick := 0
  lossBinAddr := 0
  lossBlkNum := 0
  lossDevMac := [0, 0, 0, 0, 0, 0]
  lossPktBlknum _ := 0
  otaTag := []
  len := 0
  fLen := 0
  txFrame := .zero
  rxFrame := .zero
  flash := flash
  binAddr := 0
  ops := []
  air := []

/-- `OTA_MasterInit`. -/
def otaMasterInit (m : OtaMaster) (OTABinAddr : ℕ) : OtaMaster :=
  let totalBinSize := u32 (bytesToUint32 m.flash (OTABinAddr + otaBinSizeOffset) +
    otaAppendInfoLen)
  let maxBlockNum := u16 (u32 (totalBinSize + blockLen - 1) / blockLen)
  let version := u32Sub (u32 (OTABinAddr + totalBinSize)) 11
  let fwVersion := otaVersion fun i => m.flash (version + i)
  { m with
    flashAddr := OTABinAddr
    totalBinSize := totalBinSize
    maxBlockNum := maxBlockNum
    blockNum := 0
    fwVersion := fwVersion
    state := .idle
    retryTimes := 0
    finishFlag := false
    bcnt := 0
    stateTick := 0
    -- "ota", the version, the number of blocks, OTA_DATA_CHANNEL, OTA_UPDATE_HIGHER
    otaTag := [0x6f, 0x74, 0x61] ++ uint32ToBstream fwVersion ++ uint16ToBstream maxBlockNum ++
      [otaDataChannel, otaUpdateHigher]
    binAddr := OTABinAddr
    ops := [] }

namespace OtaMaster

/-- `MAC_SendData` of `n` bytes of `TxFrame`. -/
def macSendData (m : OtaMaster) (n : ℕ) : OtaMaster :=
  { m with
    ops := m.ops ++ [.send n]
    air := if macTxBufLen < n then m.air else m.air ++ [m.txFrame.bytes n] }

/-- `MAC_BroadcastData` of `n` bytes of `TxFrame`. Its parameter is an `unsigned char`. -/
def macBroadcastData (m : OtaMaster) (n : ℤ) : OtaMaster :=
  { m with
    ops := m.ops ++ [.send n]
    air := m.air ++ [m.txFrame.bytes (n % 256).toNat] }

/-- The header of the frame received: `Len` and `RxFrame.Type`. -/
def rxHeader (m : OtaMaster) (Data : ℕ → UInt8) : OtaMaster :=
  { m with len := (Data 0).toNat, rxFrame := ⟨Data 1, m.rxFrame.payload⟩ }

/-- `memcpy(RxFrame.Payload, Msg->Data + 2, Len - 1)`. -/
def rxPayload (m : OtaMaster) (Data : ℕ → UInt8) : OtaMaster :=
  { m with
    rxFrame := ⟨m.rxFrame.type,
      memcpy m.rxFrame.payload 0 (bytes (fun i => Data (i + 2)) (m.len - 1))⟩
    ops := m.ops ++ [.access .rxFramePayload 0 (m.len - 1)] }

end OtaMaster

/-- `OTA_BuildDataFrame`. -/
def otaBuildDataFrame (m : OtaMaster) : OtaMaster × ℕ :=
  let left := u32Sub m.totalBinSize (m.blockNum * blockLen)
  let framLength := if blockLen < left then otaFramePayloadMax else u32 (left + 2)
  let blockNum := u16 (m.blockNum + 1)
  let n := u32Sub framLength 2
  ({ m with
      finishFlag := if blockLen < left then m.finishFlag else true
      blockNum := blockNum
      txFrame := ⟨otaFrameTypeData,
        memcpy (memcpy m.txFrame.payload 0 (uint16ToBstream blockNum)) 2
          (read m.flash m.flashAddr n)⟩
      flashAddr := u32 (m.flashAddr + n)
      ops := m.ops ++ [.access .txFramePayload 0 2, .access .txFramePayload 2 n,
        .flashRead m.flashAddr n] },
    1 + framLength)

/-! ## The master of one slave -/

/-- `OTA_BuildCmdFrame` in `TxFrame`, and `MAC_SendData` of it. -/
def OtaMaster.sendCmd (m : OtaMaster) (cmdId : UInt8) (value : Option (List UInt8)) : OtaMaster :=
  let (txFrame, len) := otaBuildCmdFrame m.txFrame cmdId value
  { m with txFrame := txFrame, len := len }.macSendData len

/-- `OTA_BuildDataFrame` in `TxFrame`, and `MAC_SendData` of it. -/
def OtaMaster.sendBlock (m : OtaMaster) : OtaMaster :=
  let (m, len) := otaBuildDataFrame m
  { m with len := len }.macSendData len

/-- The end of the waiting states: the frame is sent again on every message but `TX_DONE`,
`OTA_RETRY_MAX` times. -/
def otaMasterRetry (m : OtaMaster) (msg : OtaMsg) : OtaMaster :=
  if m.retryTimes = otaRetryMax then { m with state := .error }
  else
    match msg with
    | .txDone => m
    | _ => { m with retryTimes := u8 (m.retryTimes + 1) }.macSendData m.len

/-- A waiting state. `answer` is what it does on the frame it waits for. -/
def otaMasterWait (answer : OtaMaster → Option OtaMaster) (m : OtaMaster) (msg : OtaMsg) :
    OtaMaster :=
  match msg with
  | .data Data _ =>
    let m := m.rxHeader Data
    if otaFramePayloadMax + 1 < m.len then { m with state := .error }
    else (answer (m.rxPayload Data)).getD (otaMasterRetry (m.rxPayload Data) msg)
  | _ => otaMasterRetry m msg

/-- `OTA_MASTER_STATE_FW_VER_WAIT`. -/
def otaMasterFwVerWait (m : OtaMaster) : Option OtaMaster :=
  if m.rxFrame.type = otaFrameTypeCmd ∧ m.rxFrame.payload 0 = otaCmdIdVersionRsp then
    let m := { m with retryTimes := 0 }
    if bytesToUint32 m.rxFrame.payload 1 < m.fwVersion then
      some ({ m with state := .startRspWait }.sendCmd otaCmdIdStartReq
        (some (uint16ToBstream m.maxBlockNum)))
    else some { m with state := .error }
  else none

/-- `OTA_MASTER_STATE_START_RSP_WAIT`. -/
def otaMasterStartRspWait (m : OtaMaster) : Option OtaMaster :=
  if m.rxFrame.type = otaFrameTypeCmd ∧ m.rxFrame.payload 0 = otaCmdIdStartRsp then
    some { m with retryTimes := 0, state := .dataAckWait }.sendBlock
  else none

/-- `OTA_IsBlockNumMatch`. -/
def otaIsBlockNumMatch (m : OtaMaster) : Prop := bytesToUint16 m.rxFrame.payload 0 = m.blockNum

instance (m : OtaMaster) : Decidable (otaIsBlockNumMatch m) := inferInstanceAs (Decidable (_ = _))

/-- `OTA_MASTER_STATE_DATA_ACK_WAIT`. -/
def otaMasterDataAckWait (m : OtaMaster) : Option OtaMaster :=
  if m.rxFrame.type = otaFrameTypeAck ∧ otaIsBlockNumMatch m then
    let m := { m with retryTimes := 0 }
    if m.finishFlag then
      some ({ m with state := .endRspWait }.sendCmd otaCmdIdEndReq
        (some (uint32ToBstream m.totalBinSize)))
    else some m.sendBlock
  else none

/-- `OTA_MASTER_STATE_END_RSP_WAIT`. -/
def otaMasterEndRspWait (m : OtaMaster) : Option OtaMaster :=
  if m.rxFrame.type = otaFrameTypeCmd ∧ m.rxFrame.payload 0 = otaCmdIdEndRsp then
    some { m with retryTimes := 0, state := .ended }
  else none

/-- `OTA_MasterStart`. -/
def otaMasterStart (now : ℕ) (m : OtaMaster) (msg : Option OtaMsg) : OtaMaster :=
  match m.state, msg with
  | .idle, _ =>
    if m.stateTick = 0 then
      { m with stateTick := clockTimeOr1 now, state := .fwVerWait }.sendCmd otaCmdIdVersionReq
        none
    else m
  | .fwVerWait, some msg => otaMasterWait otaMasterFwVerWait m msg
  | .startRspWait, some msg => otaMasterWait otaMasterStartRspWait m msg
  | .dataAckWait, some msg => otaMasterWait otaMasterDataAckWait m msg
  | .endRspWait, some msg => otaMasterWait otaMasterEndRspWait m msg
  | _, _ => m

/-! ## The batch master -/

/-- The entry `LossCtrl.loss_blk_num` of `loss_pkt_blknum`. -/
def OtaMaster.lossEntry (m : OtaMaster) : ℕ := bytesToUint16 m.lossPktBlknum (2 * m.lossBlkNum)

/-- `OTA_BuildLossDataFrame`. -/
def otaBuildLossDataFrame (m : OtaMaster) : OtaMaster × ℤ :=
  let entry := OtaOp.access .lossPktBlknum (2 * m.lossBlkNum) 2
  if m.lossEntry = 0 then
    ({ m with
        lossBlkNum := 0
        lossPktBlknum := memcpy m.lossPktBlknum 0 (List.replicate (2 * lossPktBlknumLen) 0)
        ops := m.ops ++ [entry] },
      -1)
  else
    let blkn := m.lossEntry
    let left := u32Sub m.totalBinSize ((blkn - 1) * blockLen)
    let framLength := if blockLen < left then otaFramePayloadMax + 6 else u32 (left + 2 + 6)
    let n := u32Sub framLength (2 + 6)
    let addr := u32 (m.lossBinAddr + (blkn - 1) * blockLen)
    ({ m with
        txFrame := ⟨otaFrameTypeData,
          memcpy (memcpy (memcpy m.txFrame.payload 0 (uint16ToBstream blkn)) 2 m.lossDevMac) 8
            (read m.flash addr n)⟩
        lossBlkNum := u8 (m.lossBlkNum + 1)
        ops := m.ops ++ [entry, .access .txFramePayload 0 2, .access .txFramePayload 2 6,
          .access .txFramePayload 8 n, .flashRead addr n] },
      1 + framLength)

/-- `OTA_MASTER_STATE_IDLE`. -/
def otaBatchMasterIdle (now : ℕ) (m : OtaMaster) (msg : Option OtaMsg) : OtaMaster :=
  if m.stateTick = 0 then
    let (txFrame, len) := otaBuildCmdFrame m.txFrame otaCmdIdBatchStartReq (some m.otaTag)
    { m with stateTick := clockTimeOr1 now, txFrame := txFrame, len := len }.macBroadcastData len
  else
    match msg with
    | some .txDone =>
      let m :=
        if clockTimeExceed now m.stateTick otaStartDuration then
          { m with state := .dataAckWait, stateTick := clockTimeOr1 now }
        else m
      m.macBroadcastData m.len
    | _ => m

/-- `OTA_BuildCmdFrame` of `OTA_CMD_ID_DATA_LOSS_REQ`. -/
def OtaMaster.buildLossReq (m : OtaMaster) : OtaMaster :=
  let (txFrame, fLen) := otaBuildCmdFrame m.txFrame otaCmdIdDataLossReq none
  { m with txFrame := txFrame, fLen := fLen }

/-- `MasterCtrl.Bcnt` behind a broadcast, from `DATA_BROADCAST_CNT` on 0 again. -/
def nextBcnt (bcnt : ℕ) : ℕ := if u8 (bcnt + 1) = dataBroadcastCnt then 0 else u8 (bcnt + 1)

/-- `OTA_MASTER_STATE_DATA_ACK_WAIT`. -/
def otaBatchMasterDataAckWait (now : ℕ) (m : OtaMaster) (msg : Option OtaMsg) : OtaMaster :=
  if m.stateTick ≠ 0 ∧ clockTimeExceed now m.stateTick otaMasterListeningDuration = true then
    { m with state := .ended }
  else
    match msg with
    | some .txDone =>
      let m := { m with retryTimes := 0 }
      if m.finishFlag then
        if m.bcnt = dataBroadcastCnt then
          let m := { m with
            bcnt := 0, state := .dataLossCheck, stateTick := clockTimeOr1 now }.buildLossReq
          m.macSendData m.fLen.toNat
        else { m with bcnt := u8 (m.bcnt + 1) }.macBroadcastData m.fLen
      else
        let m :=
          if m.bcnt = 0 then
            let (m, fLen) := otaBuildDataFrame m
            { m with fLen := fLen }
          else m
        { m with bcnt := nextBcnt m.bcnt }.macBroadcastData m.fLen
    | _ => m

/-- The end of `OTA_MASTER_STATE_DATA_LOSS_CHECK`. -/
def otaBatchMasterLossReq (m : OtaMaster) (msg : OtaMsg) : OtaMaster :=
  match msg with
  | .txDone => m
  | _ => m.buildLossReq.macSendData m.buildLossReq.fLen.toNat

/-- The copy of the list of `OTA_CMD_ID_DATA_LOSS_RSP`. -/
def OtaMaster.copyLossList (m : OtaMaster) : OtaMaster :=
  { m with
    lossDevMac := bytes (fun i => m.rxFrame.payload (i + 1)) 6
    lossPktBlknum := memcpy m.lossPktBlknum 0
      (bytes (fun i => m.rxFrame.payload (i + 7)) (u32Add 0 (m.len - 1 - 6)))
    ops := m.ops ++ [.access .lossPktBlknum 0 (m.len - 1 - 6)] }

/-- `OTA_MASTER_STATE_DATA_LOSS_CHECK`. -/
def otaBatchMasterDataLossCheck (now : ℕ) (m : OtaMaster) (msg : Option OtaMsg) : OtaMaster :=
  if m.stateTick ≠ 0 ∧ clockTimeExceed now m.stateTick otaLossCheckDuration = true then
    { m with state := .ended }
  else
    match msg with
    | some (.data Data hData) =>
      let m := ({ m with stateTick := clockTimeOr1 now }.rxHeader Data).rxPayload Data
      if m.rxFrame.type = otaFrameTypeCmd ∧ m.rxFrame.payload 0 = otaCmdIdDataLossRsp then
        let (m, fLen) := otaBuildLossDataFrame m.copyLossList
        { m with fLen := fLen, state := .dataLossSupp, bcnt := 1 }.macBroadcastData fLen
      else otaBatchMasterLossReq m (.data Data hData)
    | some msg => otaBatchMasterLossReq m msg
    | none => m

/-- `OTA_MASTER_STATE_DATA_LOSS_SUPP`. -/
def otaBatchMasterDataLossSupp (m : OtaMaster) (msg : Option OtaMsg) : OtaMaster :=
  match msg with
  | some .txDone =>
    let built :=
      if m.bcnt = 0 then
        let (m, fLen) := otaBuildLossDataFrame m
        { m with fLen := fLen }
      else m
    if m.bcnt = 0 ∧ built.fLen < 0 then { built with state := .dataLossCheck }.buildLossReq
    else { built with bcnt := nextBcnt m.bcnt }.macBroadcastData built.fLen
  | _ => m

/-- `OTA_Batch_MasterStart`. -/
def otaBatchMasterStart (now : ℕ) (m : OtaMaster) (msg : Option OtaMsg) : OtaMaster :=
  match m.state with
  | .idle => otaBatchMasterIdle now m msg
  | .dataAckWait => otaBatchMasterDataAckWait now m msg
  | .dataLossCheck => otaBatchMasterDataLossCheck now m msg
  | .dataLossSupp => otaBatchMasterDataLossSupp m msg
  | .ended => { m with state := .idle, stateTick := 0 }
  | _ => m

/-! ## Runs -/

/-- What happens at a master: a key is pressed, or the loop calls the state machine. -/
inductive OtaMasterEvent
  | key1
  | key2
  | start (now : ℕ) (msg : Option OtaMsg)

/-- The steps of a master whose state machine is `start`. -/
def otaMasterStep (start : ℕ → OtaMaster → Option OtaMsg → OtaMaster) (m : OtaMaster) :
    OtaMasterEvent → OtaMaster
  | .key1 => otaMasterInit m otaMasterBinAddr1
  | .key2 => otaMasterInit m otaMasterBinAddr2
  | .start now msg => start now { m with ops := [] } msg

end TlBleSdk.Ota
