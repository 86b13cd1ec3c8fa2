import TlBleSdk.Hci.TrDef
import TlBleSdk.Lib.Crc
import TlBleSdk.Lib.NorFlash

/-!
# Frames and messages of the 2.4G OTA

`ota.h` and what the masters and slaves of `ota.c` share: the frame, the messages of the
radio interrupts, command frames and the CRC. `FW_VERSION` is 1, as `app_config.h` has it.

A call of a state machine records in a list of `OtaOp` which memory and flash it accesses
and which lengths it hands to the radio. A buffer is a function of the offset that goes on
behind the end of the object: an access that leaves the object is recorded, and changes no
other object of the model.
-/

namespace TlBleSdk.Ota

open Hci NorFlash

/-! ## Constants -/

def otaSlaveBinAddr1 : ℕ := 0x00000
def otaSlaveBinAddr2 : ℕ := 0x20000
def otaMasterBinAddr1 : ℕ := 0x20000
def otaMasterBinAddr2 : ℕ := 0x40000

def otaBinSizeOffset : ℕ := 0x18
def otaBootFlagOffset : ℕ := 0x20

def otaFrameTypeCmd : UInt8 := 0x01
def otaFrameTypeData : UInt8 := 0x02
def otaFrameTypeAck : UInt8 := 0x03

def otaCmdIdStartReq : UInt8 := 0x01
def otaCmdIdStartRsp : UInt8 := 0x02
def otaCmdIdEndReq : UInt8 := 0x03
def otaCmdIdEndRsp : UInt8 := 0x04
def otaCmdIdVersionReq : UInt8 := 0x05
def otaCmdIdVersionRsp : UInt8 := 0x06
def otaCmdIdDataLossReq : UInt8 := 0x07
def otaCmdIdDataLossRsp : UInt8 := 0x08
def otaCmdIdBatchStartReq : UInt8 := 0x10

def dataBroadcastCnt : ℕ := 10
def dataLossCheckCnt : ℕ := 21

def otaStartDuration : ℕ := 20 * 1000 * 1000
def otaLossCheckDuration : ℕ := 2 * 1000 * 1000
def otaMasterListeningDuration : ℕ := 5 * 1000 * 1000
def otaProcessDuration : ℕ := 40 * 1000 * 1000
def otaWaitBatchOtaStartDuration : ℕ := 30 * 1000 * 1000

def macFlashAddr : ℕ := 0x76000
def otaDataChannel : UInt8 := 88

def otaUpdateHigher : UInt8 := 0
def otaUpdateNone : UInt8 := 2

def otaFramePayloadMax : ℕ := 48 + 2
def otaRetryMax : ℕ := 10
def otaAppendInfoLen : ℕ := 2

/-- `OTA_LOSS_PKT_MAX_NUM`, the length of `loss_packet_block`. -/
def otaLossPktMaxNum : ℕ := 48 - 6

/-- The length of `loss_pkt_blknum`. -/
def lossPktBlknumLen : ℕ := (48 - 6) / 2

/-- `MAC_TX_BUF_LEN` of `mac.c`. -/
def macTxBufLen : ℕ := 64

/-- The data bytes of a full block. -/
def blockLen : ℕ := otaFramePayloadMax - 2

/-- The bytes that `OTA_FlashErase` erases, 15 sectors. -/
def otaSlotLen : ℕ := 15 * 0x1000

/-! ## Frames -/

/-- `OTA_FrameTypeDef`, with the memory behind its payload. -/
structure OtaFrame where
  type : UInt8
  payload : ℕ → UInt8

/-- `sizeof(OTA_FrameTypeDef)`. -/
def otaFrameSize : ℕ := 1 + otaFramePayloadMax

/-- The first `n` bytes of a frame. -/
def OtaFrame.bytes (frame : OtaFrame) (n : ℕ) : List UInt8 :=
  (frame.type :: Hci.bytes frame.payload (n - 1)).take n

/-- A frame of static storage. -/
def OtaFrame.zero : OtaFrame := ⟨0, fun _ => 0⟩

/-- The bytes of an `unsigned int`. -/
def uint32ToBstream (n : ℕ) : List UInt8 :=
  [UInt8.ofNat n, UInt8.ofNat (n / 256), UInt8.ofNat (n / 65536), UInt8.ofNat (n / 16777216)]

/-- `OTA_BuildCmdFrame`: the frame and its length. `Value` is null or has `Len` bytes. -/
def otaBuildCmdFrame (frame : OtaFrame) (cmdId : UInt8) (value : Option (List UInt8)) :
    OtaFrame × ℕ :=
  let payload := memcpy frame.payload 0 [cmdId]
  match value with
  | none => (⟨otaFrameTypeCmd, payload⟩, 2)
  | some value =>
    if otaFramePayloadMax - 1 < value.length then (⟨otaFrameTypeCmd, payload⟩, 0)
    else (⟨otaFrameTypeCmd, memcpy payload 1 value⟩, value.length + 2)

/-- The number that the digits of a version string spell. -/
def otaVersion (version : ℕ → UInt8) : ℕ :=
  let digit i := BitVec.ofInt 32 ((version i).toNat - 0x30)
  ((digit 0 <<< 16) ||| (digit 2 <<< 8) ||| digit 4).toNat

/-! ## Messages -/

/-- `OTA_MsgTypeDef`. The length byte of the data is not zero. -/
inductive OtaMsg
  | invalidData
  | data (Data : ℕ → UInt8) (len_ne : Data 0 ≠ 0)
  | timeout
  | txDone

/-- The message that `OTA_RxIrq` queues. -/
def otaRxIrq (Data : Option (ℕ → UInt8)) : OtaMsg :=
  match Data with
  | none => .invalidData
  | some Data => if h : Data 0 ≠ 0 then .data Data h else .invalidData

/-! ## The CRC -/

/-- A bit of `OTA_CRC16_Cal`: `crc` and `ds` behind it. -/
def otaCrc16Bit (s : BitVec 16 × BitVec 16) : BitVec 16 × BitVec 16 :=
  let (crc, ds) := s
  ((crc >>> 1) ^^^ (if (crc ^^^ ds).getLsbD 0 then 0x8408#16 else 0), ds >>> 1)

/-- `OTA_CRC16_Cal`. -/
def otaCrc16Cal (crc : BitVec 16) (pd : List UInt8) : BitVec 16 :=
  pd.foldl (fun crc ds => (otaCrc16Bit^[8] (crc, ds.toBitVec.setWidth 16)).1) crc

/-- A bit step, as the sum of the remainder and the byte that is left. -/
theorem otaCrc16Bit_xor (s : BitVec 16 × BitVec 16) :
    (otaCrc16Bit s).1 ^^^ (otaCrc16Bit s).2 = Crc.bit 0x8408#16 (s.1 ^^^ s.2) := by
  obtain ⟨crc, ds⟩ := s
  simp only [otaCrc16Bit, Crc.bit, BitVec.ushiftRight_xor_distrib]
  split
  · rw [BitVec.xor_assoc, BitVec.xor_comm _ (ds >>> 1), ← BitVec.xor_assoc]
  · simp

theorem iterate_otaCrc16Bit (n : ℕ) (crc ds : BitVec 16) :
    (otaCrc16Bit^[n] (crc, ds)).1 ^^^ (otaCrc16Bit^[n] (crc, ds)).2 =
        (Crc.bit 0x8408#16)^[n] (crc ^^^ ds) ∧
      (otaCrc16Bit^[n] (crc, ds)).2 = ds >>> n := by
  induction n with
  | zero => exact ⟨rfl, (BitVec.ushiftRight_zero ds).symm⟩
  | succ n ih =>
    rw [Function.iterate_succ_apply', Function.iterate_succ_apply']
    refine ⟨(otaCrc16Bit_xor _).trans (congrArg _ ih.1), ?_⟩
    show (otaCrc16Bit^[n] (crc, ds)).2 >>> 1 = _
    rw [ih.2, ← BitVec.shiftRight_add]

/-- `OTA_CRC16_Cal` is the CRC-16 with the polynomial `0x8408`. -/
theorem otaCrc16Cal_eq (crc : BitVec 16) (pd : List UInt8) :
    otaCrc16Cal crc pd = Crc.crc 0x8408#16 crc pd := by
  unfold otaCrc16Cal Crc.crc
  congr
  funext crc ds
  obtain ⟨hxor, hrest⟩ := iterate_otaCrc16Bit 8 crc (ds.toBitVec.setWidth 16)
  -- no bit of the byte is left
  have hzero : ds.toBitVec.setWidth 16 >>> 8 = 0#16 := by
    apply BitVec.eq_of_toNat_eq
    have hlt := ds.toNat_lt
    simp only [BitVec.toNat_ushiftRight, BitVec.toNat_setWidth, UInt8.toNat_toBitVec,
      Nat.shiftRight_eq_div_pow, BitVec.toNat_ofNat]
    omega
  rw [hrest, hzero, BitVec.xor_zero] at hxor
  exact hxor

/-! ## Accesses -/

/-- The objects that the state machines copy to and index. -/
inductive OtaObject
  | rxFramePayload
  | txFramePayload
  | lossPktBlknum
deriving DecidableEq

/-- The bytes of an object. -/
def OtaObject.size : OtaObject → ℕ
  | .rxFramePayload => otaFramePayloadMax
  | .txFramePayload => otaFramePayloadMax
  | .lossPktBlknum => 2 * lossPktBlknumLen

/-- An access of a call. -/
inductive OtaOp
  /-- `n` bytes at the offset `off` of an object. -/
  | access (object : OtaObject) (off : ℕ) (n : ℤ)
  /-- `flash_write_page` of `n` bytes, of which the frame received has `left`. -/
  | flashWrite (addr : ℕ) (n left : ℤ)
  /-- `flash_read_page` of `n` bytes. -/
  | flashRead (addr n : ℕ)
  /-- `MAC_SendData` or `MAC_BroadcastData` with the length `n`. -/
  | send (n : ℤ)
deriving DecidableEq

/-- Addition of an `int` to an `unsigned int`. -/
def u32Add (a : ℕ) (z : ℤ) : ℕ := ((a + z) % 4294967296).toNat

theorem u32Add_of_nonneg {a : ℕ} {z : ℤ} (hz : 0 ≤ z) (h : a + z < 4294967296) :
    u32Add a z = a + z.toNat := by
  unfold u32Add
  omega

end TlBleSdk.Ota
