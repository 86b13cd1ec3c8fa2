import TlBleSdk.Ota.Defs

/-!
# The slaves of the 2.4G OTA

`OTA_SlaveStart` and `OTA_Batch_SlaveStart`, and the loop that calls them. Each call takes the
message that `OTA_MsgQueuePop` returns, if there is one, and `now` is what `clock_time` returns.
The radio is told to listen where the source calls `MAC_RecvData`; that changes nothing here.
-/

namespace TlBleSdk.Ota

open Hci NorFlash

/-- `OTA_SLAVE_STATE_IDLE` to `OTA_SLAVE_STATE_ERROR`. -/
inductive OtaSlaveState
  | idle
  | fwVersionReady
  | startReady
  | dataReady
  | endReady
  | ended
  | dataLossCheck
  | error
deriving DecidableEq

/-- The state of a slave: `SlaveCtrl`, the static variables and the flash. -/
structure OtaSlave where
  flashAddr : ℕ
  totalBinSize : ℕ
  maxBlockNum : ℕ
  blockNum : ℕ
  fwVersion : ℕ
  fwCRC : BitVec 16
  pktCRC : BitVec 16
  targetFwCRC : BitVec 16
  state : OtaSlaveState
  retryTimes : ℕ
  recvBlkNum : ℕ
  /-- The first `loss_packet_cnt` entries of `loss_packet_block`. -/
  lossPacketBlock : List ℕ
  stateTick : ℕ
  lossCheckTick : ℕ
  devMac : List UInt8
  /-- The static `Len` of the state machine. -/
  len : ℕ
  txFrame : OtaFrame
  rxFrame : OtaFrame
  flash : Cells
  /-- `main_idle_loop` calls the state machine. -/
  running : Bool
  /-- The boot flags are switched, and the chip restarts. -/
  rebooted : Bool
  /-- The check of the image has been read over the end of its buffer. -/
  crashed : Bool
  /-- What the last call accessed and sent. -/
  ops : List OtaOp
  /-- All frames on the air so far. -/
  air : List (List UInt8)

/-- Power-on. -/
def OtaSlave.powerOn (flash : Cells) : OtaSlave where
  flashAddr := 0
  totalBinSize := 0
  maxBlockNum := 0
  blockNum := 0
  fwVersion := 0
  fwCRC := 0
  pktCRC := 0
  targetFwCRC := 0
  state := .idle
  retryTimes := 0
  recvBlkNum := 0
  lossPacketBlock := []
  stateTick := 0
  lossCheckTick := 0
  devMac := [0, 0, 0, 0, 0, 0]
  len := 0
  txFrame := .zero
  rxFrame := .zero
  flash := flash
  running := false
  rebooted := false
  crashed := false
  ops := []
  air := []

/-- The erase loop of `OTA_FlashErase`. -/
def otaFlashErase (flash : Cells) (flashAddr : ℕ) : Cells :=
  (List.range 15).foldl (fun flash i => erase flash (flashAddr + i * 0x1000) 0x1000) flash

/-- `OTA_SlaveInit`. The version is that of the image in the other slot. -/
def otaSlaveInit (s : OtaSlave) (OTABinAddr : ℕ) : OtaSlave :=
  let flash := otaFlashErase s.flash OTABinAddr
  -- the running image is in the slot that is not updated
  let localAddr := if OTABinAddr ≠ 0 then otaSlaveBinAddr1 else otaSlaveBinAddr2
  let localBinsize := u32 (bytesToUint32 flash (localAddr + otaBinSizeOffset) + otaAppendInfoLen)
  let version := u32Sub (u32 (localAddr + localBinsize)) 11
  { s with
    flashAddr := OTABinAddr
    blockNum := 0
    state := .idle
    retryTimes := 0
    fwCRC := 0
    pktCRC := 0
    recvBlkNum := 0
    totalBinSize := 0
    flash := flash
    running := true
    devMac := read flash macFlashAddr 6
    fwVersion := otaVersion fun i => flash (version + i)
    ops := [] }

/-- The slot that the main loop updates: not the one whose boot flag is set. -/
def otaSlaveBinAddr (flash : Cells) : ℕ :=
  if flash (otaSlaveBinAddr1 + otaBootFlagOffset) = 0x4b then otaSlaveBinAddr2
  else otaSlaveBinAddr1

namespace OtaSlave

/-- `MAC_SendData` of `n` bytes of `TxFrame`. -/
def macSendData (s : OtaSlave) (n : ℕ) : OtaSlave :=
  { s with
    ops := s.ops ++ [.send n]
    air := if macTxBufLen < n then s.air else s.air ++ [s.txFrame.bytes n] }

/-- `MAC_BroadcastData` of `n` bytes of `TxFrame`. Its parameter is an `unsigned char`. -/
def macBroadcastData (s : OtaSlave) (n : ℕ) : OtaSlave :=
  { s with
    ops := s.ops ++ [.send n]
    air := s.air ++ [s.txFrame.bytes (u8 n)] }

/-- The header of the frame received: `Len` and `RxFrame.Type`. -/
def rxHeader (s : OtaSlave) (Data : ℕ → UInt8) : OtaSlave :=
  { s with len := (Data 0).toNat, rxFrame := ⟨Data 1, s.rxFrame.payload⟩ }

/-- `memcpy(RxFrame.Payload, Msg->Data + 2, Len - 1)`. -/
def rxPayload (s : OtaSlave) (Data : ℕ → UInt8) : OtaSlave :=
  { s with
    rxFrame := ⟨s.rxFrame.type,
      memcpy s.rxFrame.payload 0 (bytes (fun i => Data (i + 2)) (s.len - 1))⟩
    ops := s.ops ++ [.access .rxFramePayload 0 (s.len - 1)] }

/-- The `n` bytes of `RxFrame.Payload` from `off` on; none where `n` is negative. -/
def payload (s : OtaSlave) (off : ℕ) (n : ℤ) : List UInt8 :=
  bytes (fun i => s.rxFrame.payload (off + i)) n.toNat

/-- `flash_write_page` of `n` bytes of `RxFrame.Payload` from `off` on. Its parameter is an
`unsigned long`. -/
def flashWritePage (s : OtaSlave) (addr : ℕ) (n : ℤ) (off : ℕ) : OtaSlave :=
  { s with
    flash := program s.flash addr (s.payload off (u32Add 0 n))
    ops := s.ops ++ [.flashWrite addr n (s.len - 1 - off)] }

end OtaSlave

/-- The block number of the frame received. -/
def OtaSlave.rxBlockNum (s : OtaSlave) : ℕ := bytesToUint16 s.rxFrame.payload 0

/-! ## The end of a transfer -/

/-- The loop over the blocks of the image at `flashAddr`. `left` is
`TotalBinSize - block_idx * 48`. The boot word, not programmed yet, is filled in if the first
block is a full one. A last block without the whole CRC leaves a negative length, with which
`flash_read_page` does not come to an end within `bin_buf`: there is no result. -/
def otaFwCrcLoop (flash : Cells) (flashAddr left blockIdx : ℕ) (crc : BitVec 16) :
    Option (BitVec 16) :=
  let binBuf := read flash (u32 (flashAddr + blockIdx * blockLen))
  if blockLen < left then
    let buf :=
      if blockIdx = 0 then
        (binBuf blockLen).take otaBootFlagOffset ++ [0x4b, 0x4e, 0x4c, 0x54] ++
          (binBuf blockLen).drop (otaBootFlagOffset + 4)
      else binBuf blockLen
    otaFwCrcLoop flash flashAddr (left - blockLen) (blockIdx + 1) (otaCrc16Cal crc buf)
  else if left < otaAppendInfoLen then none
  else some (otaCrc16Cal crc (binBuf (left - otaAppendInfoLen)))
termination_by left
decreasing_by
  have : blockLen = 48 := rfl
  omega

namespace OtaSlave

/-- `FwCRC` of the image in the flash. -/
def readFwCRC (s : OtaSlave) : Option (BitVec 16) :=
  otaFwCrcLoop s.flash s.flashAddr s.totalBinSize 0 s.fwCRC

/-- `TargetFwCRC`, the last two bytes of the image in the flash. -/
def readTargetFwCRC (s : OtaSlave) : BitVec 16 :=
  BitVec.ofNat 16 (bytesToUint16 s.flash
    (u32Sub (u32 (s.flashAddr + s.totalBinSize)) otaAppendInfoLen))

/-- The switch to the new slot: its boot word is set, a byte of the old one cleared. -/
def switchBootFlag (s : OtaSlave) : OtaSlave :=
  let flash := program s.flash (s.flashAddr + otaBootFlagOffset) [0x4b, 0x4e, 0x4c, 0x54]
  -- the new image is marked before the old one is not any more
  let old := if s.flashAddr ≠ 0 then otaBootFlagOffset else otaSlaveBinAddr2 + otaBootFlagOffset
  { s with flash := program flash old [0x00], rebooted := true }

/-- `OTA_SLAVE_STATE_END`. The batch slave does not look at `PktCRC`: its `pktOk` is true. -/
def verify (s : OtaSlave) (pktOk : BitVec 16 → Bool) : OtaSlave :=
  match s.readFwCRC with
  | none => { s with crashed := true }
  | some fwCRC =>
    let s := { s with targetFwCRC := s.readTargetFwCRC, fwCRC := fwCRC }
    if pktOk s.fwCRC = true ∧ s.targetFwCRC = s.fwCRC then s.switchBootFlag
    else { s with state := .error }

end OtaSlave

/-! ## The slave of one master -/

/-- `OTA_BuildCmdFrame` in `TxFrame`, and `MAC_SendData` of it. -/
def OtaSlave.sendCmd (s : OtaSlave) (cmdId : UInt8) (value : Option (List UInt8)) : OtaSlave :=
  let (txFrame, len) := otaBuildCmdFrame s.txFrame cmdId value
  { s with txFrame := txFrame, len := len }.macSendData len

/-- `OTA_BuildAckFrame`, of 3 bytes. -/
def otaBuildAckFrame (frame : OtaFrame) (blockNum : ℕ) : OtaFrame :=
  ⟨otaFrameTypeAck, memcpy frame.payload 0 (uint16ToBstream blockNum)⟩

/-- The end of the ready states: the slave listens again on every message but `TX_DONE`,
`OTA_RETRY_MAX` times. -/
def otaSlaveRetry (s : OtaSlave) (msg : OtaMsg) : OtaSlave :=
  if s.retryTimes = otaRetryMax then { s with state := .error }
  else
    match msg with
    | .txDone => s
    | _ => { s with retryTimes := u8 (s.retryTimes + 1) }

/-- A ready state. `answer` is what it does on the frames it is ready for. -/
def otaSlaveReady (answer : OtaSlave → Option OtaSlave) (s : OtaSlave) (msg : OtaMsg) :
    OtaSlave :=
  match msg with
  | .data Data _ =>
    let s := s.rxHeader Data
    if otaFramePayloadMax + 1 < s.len then { s with state := .error }
    else (answer (s.rxPayload Data)).getD (otaSlaveRetry (s.rxPayload Data) msg)
  | _ => otaSlaveRetry s msg

/-- The last answer is sent again, with the length of the frame received. -/
def OtaSlave.sendAgain (s : OtaSlave) : OtaSlave := { s with retryTimes := 0 }.macSendData s.len

/-- `OTA_SLAVE_STATE_FW_VERSION_READY`. -/
def otaSlaveFwVersionReady (s : OtaSlave) : Option OtaSlave :=
  if s.rxFrame.type = otaFrameTypeCmd ∧ s.rxFrame.payload 0 = otaCmdIdVersionReq then
    some ({ s with retryTimes := 0, state := .startReady }.sendCmd otaCmdIdVersionRsp
      (some (uint32ToBstream s.fwVersion)))
  else none

/-- `OTA_SLAVE_STATE_START_READY`. -/
def otaSlaveStartReady (s : OtaSlave) : Option OtaSlave :=
  if s.rxFrame.type = otaFrameTypeCmd then
    if s.rxFrame.payload 0 = otaCmdIdVersionReq then some s.sendAgain
    else if s.rxFrame.payload 0 = otaCmdIdStartReq then
      some ({ s with
        retryTimes := 0
        maxBlockNum := bytesToUint16 s.rxFrame.payload 1
        state := .dataReady }.sendCmd otaCmdIdStartRsp none)
    else none
  else none

/-- The flash writes of a block: the first one leaves the boot word out. -/
def OtaSlave.writeBlock (s : OtaSlave) (blockNum : ℕ) : OtaSlave :=
  if blockNum = 1 then
    (s.flashWritePage s.flashAddr otaBootFlagOffset 2).flashWritePage
      (u32 (s.flashAddr + otaBootFlagOffset + 4)) (s.len - 3 - (otaBootFlagOffset + 4))
      (2 + otaBootFlagOffset + 4)
  else s.flashWritePage (u32 (s.flashAddr + s.totalBinSize)) (s.len - 3) 2

/-- `PktCRC` behind the frame received. The last block ends in the CRC of the image. -/
def OtaSlave.nextPktCRC (s : OtaSlave) (last : Bool) : BitVec 16 :=
  otaCrc16Cal s.pktCRC (s.payload 2 (if last then s.len - 3 - otaAppendInfoLen else s.len - 3))

/-- A frame with the next block. -/
def OtaSlave.storeBlock (s : OtaSlave) (blockNum : ℕ) : OtaSlave :=
  let last := s.maxBlockNum = blockNum
  let s' := { s with retryTimes := 0 }.writeBlock blockNum
  { s' with
    blockNum := blockNum
    totalBinSize := u32Add s.totalBinSize (s.len - 3)
    pktCRC := s.nextPktCRC last
    state := if last then .endReady else s.state
    txFrame := otaBuildAckFrame s.txFrame blockNum }.macSendData 3

/-- `OTA_SLAVE_STATE_DATA_READY`. -/
def otaSlaveDataReady (s : OtaSlave) : Option OtaSlave :=
  if s.rxFrame.type = otaFrameTypeCmd ∧ s.rxFrame.payload 0 = otaCmdIdStartReq then
    some s.sendAgain
  else if s.rxFrame.type = otaFrameTypeData then
    -- the master did not get the last answer
    if s.rxBlockNum = s.blockNum then some s.sendAgain
    else if s.rxBlockNum = s.blockNum + 1 then some (s.storeBlock s.rxBlockNum)
    else none
  else none

/-- `OTA_SLAVE_STATE_END_READY`. -/
def otaSlaveEndReady (s : OtaSlave) : Option OtaSlave :=
  -- the last block once more: its answer was lost
  if s.rxFrame.type = otaFrameTypeData ∧ s.rxBlockNum = s.blockNum then some s.sendAgain
  else if s.rxFrame.type = otaFrameTypeCmd ∧ s.rxFrame.payload 0 = otaCmdIdEndReq then
    let s := { s with retryTimes := 0 }
    if s.totalBinSize ≠ bytesToUint32 s.rxFrame.payload 1 then some { s with state := .error }
    else some ({ s with state := .ended }.sendCmd otaCmdIdEndRsp none)
  else none

/-- `OTA_SlaveStart`. -/
def otaSlaveStart (_ : ℕ) (s : OtaSlave) (msg : Option OtaMsg) : OtaSlave :=
  match s.state, msg with
  | .idle, _ => { s with state := .fwVersionReady }
  | .fwVersionReady, some msg => otaSlaveReady otaSlaveFwVersionReady s msg
  | .startReady, some msg => otaSlaveReady otaSlaveStartReady s msg
  | .dataReady, some msg => otaSlaveReady otaSlaveDataReady s msg
  | .endReady, some msg => otaSlaveReady otaSlaveEndReady s msg
  | .ended, _ => s.verify fun fwCRC => fwCRC = s.pktCRC
  | .error, _ => { s with flash := otaFlashErase s.flash s.flashAddr, running := false }
  | _, _ => s

/-! ## The batch slave -/

/-- `is_blkn_in_q`. -/
def isBlknInQ (s : OtaSlave) (blkn : ℕ) : Bool := s.lossPacketBlock.contains blkn

/-- `delete_blkn_in_q`: the first entry `blkn` is deleted. -/
def deleteBlknInQ (s : OtaSlave) (blkn : ℕ) : OtaSlave :=
  { s with lossPacketBlock := s.lossPacketBlock.erase blkn }

namespace OtaSlave

/-- The `n` block numbers behind `SlaveCtrl.BlockNum` are noted as lost. -/
def noteLost (s : OtaSlave) (n : ℕ) : OtaSlave :=
  { s with
    lossPacketBlock := s.lossPacketBlock ++ (List.range n).map fun i => u16 (s.blockNum + 1 + i) }

/-- A frame is received, without a check of its length. -/
def rx (s : OtaSlave) (Data : ℕ → UInt8) : OtaSlave := (s.rxHeader Data).rxPayload Data

/-- The address of a block. -/
def blockAddr (s : OtaSlave) (blkn : ℕ) : ℕ := u32 (s.flashAddr + blockLen * (blkn - 1))

end OtaSlave

/-- `OTA_CMD_ID_BATCH_START_REQ`. -/
def otaBatchSlaveStartReq (now : ℕ) (s : OtaSlave) : OtaSlave :=
  if bytes (fun i => s.rxFrame.payload (i + 1)) 3 ≠ [0x6f, 0x74, 0x61] then
    { s with state := .idle }
  else
    let fwv := bytesToUint32 s.rxFrame.payload 4
    let policy := s.rxFrame.payload 11
    if policy = otaUpdateNone then { s with state := .ended }
    else if policy = otaUpdateHigher ∧ fwv ≤ s.fwVersion then { s with state := .error }
    else
      { s with
        retryTimes := 0
        maxBlockNum := bytesToUint16 s.rxFrame.payload 8
        state := .dataReady
        stateTick := clockTimeOr1 now }

/-- `OTA_SLAVE_STATE_START_READY` of the batch slave. -/
def otaBatchSlaveStartReady (now : ℕ) (s : OtaSlave) (msg : OtaMsg) : OtaSlave :=
  if s.stateTick ≠ 0 ∧ clockTimeExceed now s.stateTick otaWaitBatchOtaStartDuration = true then
    { s with state := .error }
  else
    match msg with
    | .data Data _ =>
      let s := s.rx Data
      if s.rxFrame.type = otaFrameTypeCmd ∧ s.rxFrame.payload 0 = otaCmdIdBatchStartReq then
        otaBatchSlaveStartReq now s
      else s
    | _ => s

/-- `OTA_CMD_ID_DATA_LOSS_RSP`: the address of the slave and `loss_packet_cnt` bytes of
`loss_packet_block`. -/
def OtaSlave.sendLossRsp (s : OtaSlave) : OtaSlave :=
  let lossBuf := s.devMac ++
    (s.lossPacketBlock.flatMap uint16ToBstream).take s.lossPacketBlock.length
  let (txFrame, len) := otaBuildCmdFrame s.txFrame otaCmdIdDataLossRsp (some lossBuf)
  { s with txFrame := txFrame, len := len }.macBroadcastData len

/-- `OTA_CMD_ID_DATA_LOSS_REQ`. The differences of block numbers are of type `int`. -/
def otaBatchSlaveLossReq (now : ℕ) (s : OtaSlave) : OtaSlave :=
  if s.maxBlockNum = s.recvBlkNum then { s with state := .ended }
  else if (dataLossCheckCnt : ℤ) < s.maxBlockNum - s.recvBlkNum then { s with state := .error }
  else
    { (s.noteLost (s.maxBlockNum - s.blockNum)).sendLossRsp with
      state := .dataLossCheck
      lossCheckTick := clockTimeOr1 now }

/-- A frame with a later block. -/
def otaBatchSlaveStoreBlock (s : OtaSlave) (blockNum : ℕ) : OtaSlave :=
  let s := { s.noteLost (blockNum - s.blockNum - 1) with retryTimes := 0 }
  let last := s.maxBlockNum = blockNum ∧ s.lossPacketBlock = []
  let s' := s.flashWritePage (s.blockAddr blockNum) (s.len - 3) 2
  { s' with
    recvBlkNum := u16 (s.recvBlkNum + 1)
    blockNum := blockNum
    totalBinSize := u32Add s.totalBinSize (s.len - 3)
    pktCRC := s.nextPktCRC last }

/-- A data frame. -/
def otaBatchSlaveData (s : OtaSlave) : OtaSlave :=
  if s.rxBlockNum = s.blockNum then { s with retryTimes := 0 }
  else if s.blockNum + 1 ≤ s.rxBlockNum then otaBatchSlaveStoreBlock s s.rxBlockNum
  else s

/-- `OTA_SLAVE_STATE_DATA_READY` of the batch slave. The request that ends the transfer is
not followed by a return, but its frame is no data frame. -/
def otaBatchSlaveDataReady (now : ℕ) (s : OtaSlave) (msg : OtaMsg) : OtaSlave :=
  if s.stateTick ≠ 0 ∧ clockTimeExceed now s.stateTick otaProcessDuration = true then
    { s with state := .error }
  else
    match msg with
    | .data Data _ =>
      let s := s.rx Data
      if s.rxFrame.type = otaFrameTypeCmd then
        if s.rxFrame.payload 0 = otaCmdIdBatchStartReq then { s with retryTimes := 0 }
        else if s.rxFrame.payload 0 = otaCmdIdDataLossReq then otaBatchSlaveLossReq now s
        else s
      else if s.rxFrame.type = otaFrameTypeData then otaBatchSlaveData s
      else s
    | _ => s

/-- A supplement frame with a block of the list. -/
def otaBatchSlaveSupplement (s : OtaSlave) (blkn : ℕ) : OtaSlave :=
  let s' := s.flashWritePage (s.blockAddr blkn) (s.len - 3 - 6) 8
  let s' := deleteBlknInQ { s' with totalBinSize := u32Add s.totalBinSize (s.len - 3 - 6) } blkn
  if s'.lossPacketBlock = [] then { s' with state := .ended } else s'

/-- `OTA_SLAVE_STATE_DATA_LOSS_CHECK`. The type of the frame is not looked at. -/
def otaBatchSlaveDataLossCheck (now : ℕ) (s : OtaSlave) (msg : OtaMsg) : OtaSlave :=
  if s.lossCheckTick ≠ 0 ∧
      clockTimeExceed now s.lossCheckTick otaLossCheckDuration = true then
    { s with state := .dataReady }
  else
    match msg with
    | .data Data _ =>
      let s := s.rx Data
      if bytes (fun i => s.rxFrame.payload (i + 2)) 6 = s.devMac ∧
          isBlknInQ s s.rxBlockNum = true then
        otaBatchSlaveSupplement s s.rxBlockNum
      else s
    | _ => s

/-- `OTA_Batch_SlaveStart`. -/
def otaBatchSlaveStart (now : ℕ) (s : OtaSlave) (msg : Option OtaMsg) : OtaSlave :=
  match s.state, msg with
  | .idle, _ => { s with state := .startReady, stateTick := clockTimeOr1 now }
  | .startReady, some msg => otaBatchSlaveStartReady now s msg
  | .dataReady, some msg => otaBatchSlaveDataReady now s msg
  | .dataLossCheck, some msg => otaBatchSlaveDataLossCheck now s msg
  | .ended, _ => s.verify fun _ => true
  | .error, _ => { s with flash := otaFlashErase s.flash s.flashAddr, running := false }
  | _, _ => s

/-! ## Runs -/

/-- A call begins, without an access so far. -/
def OtaSlave.clearOps (s : OtaSlave) : OtaSlave := { s with ops := [] }

/-- What happens at a slave: an update is triggered, or `main_idle_loop` goes on. -/
inductive OtaSlaveEvent
  | trigger
  | start (now : ℕ) (msg : Option OtaMsg)

/-- `main_idle_loop` of a slave whose state machine is `start`, until it restarts or crashes. The
state machine is called from a trigger on until it returns 0, and a trigger in between has no
effect. -/
def otaSlaveStep (start : ℕ → OtaSlave → Option OtaMsg → OtaSlave) (s : OtaSlave)
    (e : OtaSlaveEvent) : OtaSlave :=
  if s.rebooted ∨ s.crashed then s
  else
    match e with
    | .trigger => if s.running then s else otaSlaveInit s (otaSlaveBinAddr s.flash)
    | .start now msg => if s.running then start now s.clearOps msg else s

end TlBleSdk.Ota
