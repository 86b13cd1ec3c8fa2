import TlBleSdk.Ota.SlaveCheck

/-!
# Which images a slave accepts

The slave of one master compares three CRCs at the end of a transfer: `PktCRC` of the frames,
`FwCRC` of the flash, and the one that the image ends with. The boot word is not in the flash yet,
and the loop over the flash fills it in only if the first block is a full one and not the last. The
CRC of the image may be cut by the last block boundary, which neither computation expects.
`accepts_iff` states for which sizes the slave accepts exactly the good images.
-/

namespace TlBleSdk.Ota

open Hci NorFlash

namespace OtaSlave

variable {img : OtaImage} {s : OtaSlave} {now : ℕ} {msg : Option OtaMsg}

/-- The check of the image: the two CRCs are the same, and the slave switches the boot words exactly
if the image is good. -/
structure EndOk (img : OtaImage) (s : OtaSlave) (now : ℕ) (msg : Option OtaMsg) : Prop where
  fwCRC_eq : s.readFwCRC = some s.pktCRC
  accepts :
    NorFlash.read (otaSlaveStart now s.clearOps msg).flash
          (s.flashAddr + otaBootFlagOffset) 4 = bootWord ∧
        (otaSlaveStart now s.clearOps msg).flash
          (otaRunningAddr s.flashAddr + otaBootFlagOffset) = 0 ↔
      img.CrcOk

theorem otaSlaveStart_ended (h : s.state = .ended) :
    otaSlaveStart now s.clearOps msg = s.clearOps.verify fun fwCRC => fwCRC = s.pktCRC := by
  rw [otaSlaveStart.eq_def, show s.clearOps.state = .ended from h]
  rfl

theorem size_lt (h : s.RunInv img) (hactive : s.Active) (hended : s.state = .ended) :
    s.flashAddr + img.size < 4294967296 := by
  have himage := h.image hactive (by rw [hended]; decide)
  obtain ⟨hblocks, -⟩ := himage.complete (.inr hended)
  have hmax := h.max_lt
  have haddr := himage.flashAddr_le
  have hsize := img.size_le
  rw [hblocks] at hmax
  unfold otaSlaveBinAddr2 at haddr
  unfold blockLen otaFramePayloadMax at hsize
  omega

theorem total_of_ended (h : s.ImageInv img) (hended : s.state = .ended) :
    s.totalBinSize = img.size := by
  rw [h.total_eq, (h.complete (.inr hended)).2]
  exact Nat.min_eq_right img.size_le

/-- `FwCRC` at the end, of what the loop sees. -/
theorem readFwCRC_eq (h : s.ImageInv img) (hended : s.state = .ended)
    (hlt : s.flashAddr + img.size < 4294967296) : s.readFwCRC =
      if img.size % blockLen = 1 then none
      else some (Crc.crc 0x8408#16 0 (NorFlash.read (seenByte s.flash s.flashAddr img.size) 0
        (img.size - otaAppendInfoLen))) := by
  have hloop := otaFwCrcLoop_eq s.flash hlt img.size 0 (by rw [Nat.zero_mul, Nat.add_zero])
    img.size_pos s.fwCRC
  rw [readFwCRC, total_of_ended h hended, hloop, h.fwCRC_eq, Nat.zero_mul, otaCrc16Cal_eq]

/-- The loop sees a part of the image that is stored, the boot word included if it is filled in. -/
theorem read_seen_part (h : s.ImageInv img) (hended : s.state = .ended) {off n : ℕ}
    (hn : off + n ≤ img.size) (hboot : ∀ i < n, InBootWord (off + i) → blockLen < img.size) :
    NorFlash.read (seenByte s.flash s.flashAddr img.size) off n =
      (img.bytes.drop off).take n := by
  have hlen : off + n ≤ img.bytes.length := hn
  apply List.ext_getElem
  · rw [length_read, List.length_take, List.length_drop]
    omega
  intro i hi hi'
  have hlt : i < n := by rwa [length_read] at hi
  have hbyte : ((img.bytes.drop off).take n)[i] = img.byte (off + i) := by
    rw [List.getElem_take, List.getElem_drop, OtaImage.byte, List.getD_eq_getElem]
  rw [getElem_read, hbyte]
  by_cases hin : InBootWord (off + i)
  · rw [img.byte_of_inBootWord hin]
    exact if_pos ⟨hboot i hlt hin, hin⟩
  · rw [seenByte_of_not_inBootWord hin]
    exact h.stored (off + i) (by rw [total_of_ended h hended]; omega) hin

/-- `PktCRC` at the end, if the last block is more than a byte. -/
theorem pktCRC_of_ended (h : s.ImageInv img) (hended : s.state = .ended)
    (hres : img.size % blockLen ≠ 1) : s.pktCRC = img.crc := by
  have hpos := img.blocks_pos
  have hlast := img.block_lt_iff.mp (Nat.sub_lt hpos Nat.zero_lt_one)
  have hle := img.size_le
  have hbytes : img.pktBytes img.blocks = img.bytes.take (img.size - otaAppendInfoLen) := by
    rw [OtaImage.pktBytes, if_neg (Nat.lt_irrefl _), img.length_block]
    congr 1
    unfold blockLen otaFramePayloadMax otaAppendInfoLen at *
    omega
  rw [h.pktCRC_eq, (h.complete (.inr hended)).2, hbytes]
  rfl

/-- `TargetFwCRC` is the CRC that the image ends with. -/
theorem readTargetFwCRC_eq (h : s.ImageInv img) (hended : s.state = .ended)
    (hlt : s.flashAddr + img.size < 4294967296) (hsize : blockLen < img.size) :
    s.readTargetFwCRC = img.targetCrc := by
  have htotal := total_of_ended h hended
  unfold blockLen otaFramePayloadMax at hsize
  have haddr : u32Sub (u32 (s.flashAddr + s.totalBinSize)) otaAppendInfoLen =
      s.flashAddr + (img.size - otaAppendInfoLen) := by
    unfold otaAppendInfoLen
    rw [htotal, u32_of_lt hlt, u32Sub_of_le (by omega) hlt]
    omega
  have hbyte : ∀ i < img.size, 36 ≤ i → s.flash (s.flashAddr + i) = img.byte i := by
    intro i hi hbehind
    refine h.stored i (htotal ▸ hi) fun hboot => ?_
    unfold InBootWord otaBootFlagOffset at hboot
    omega
  rw [readTargetFwCRC, haddr, OtaImage.targetCrc]
  refine congrArg (BitVec.ofNat 16) ?_
  unfold bytesToUint16
  rw [Nat.add_assoc, hbyte _ (by unfold otaAppendInfoLen; omega)
    (by unfold otaAppendInfoLen; omega), hbyte _ (by unfold otaAppendInfoLen; omega)
    (by unfold otaAppendInfoLen; omega)]

/-- The switch sets the new boot word and clears the old one. -/
theorem flash_switchBootFlag
    (haddr : s.flashAddr = otaSlaveBinAddr1 ∨ s.flashAddr = otaSlaveBinAddr2)
    (herased : ∀ i, InBootWord i → s.flash (s.flashAddr + i) = 0xFF) :
    NorFlash.read s.switchBootFlag.flash (s.flashAddr + otaBootFlagOffset) 4 = bootWord ∧
      s.switchBootFlag.flash (otaRunningAddr s.flashAddr + otaBootFlagOffset) = 0 := by
  have hold :
      (if s.flashAddr ≠ 0 then otaBootFlagOffset else otaSlaveBinAddr2 + otaBootFlagOffset) =
        otaRunningAddr s.flashAddr + otaBootFlagOffset := by
    unfold otaRunningAddr
    split
    · exact (Nat.zero_add _).symm
    · rfl
  have hflash : s.switchBootFlag.flash = program (program s.flash (s.flashAddr + otaBootFlagOffset)
      bootWord) (otaRunningAddr s.flashAddr + otaBootFlagOffset) [0x00] := by
    rw [← hold]
    rfl
  rw [hflash]
  constructor
  · have htakes : Takes s.flash (s.flashAddr + otaBootFlagOffset) bootWord := by
      intro i hi
      have hlt : i < 4 := hi
      rw [Nat.add_assoc, herased _ (by unfold InBootWord; omega), ones_and]
    refine (read_congr fun i hi => ?_).trans htakes.read_program
    have hlt : i < 4 := hi
    apply program_of_disjoint
    have hapart : otaRunningAddr s.flashAddr + 36 ≤ s.flashAddr ∨
        s.flashAddr + 36 ≤ otaRunningAddr s.flashAddr := by
      rcases haddr with haddr | haddr <;> rw [haddr] <;> decide
    rw [List.length_singleton]
    unfold otaBootFlagOffset
    omega
  · have hcell := program_apply (program s.flash (s.flashAddr + otaBootFlagOffset) bootWord)
      (otaRunningAddr s.flashAddr + otaBootFlagOffset) 0 [0x00]
    rw [Nat.add_zero] at hcell
    rw [hcell]
    simp

/-- The boot word of a short image is not filled in, and the CRC of the flash shows that. -/
theorem crc_seen_ne (h : s.ImageInv img) (hended : s.state = .ended) (hsize : img.size ≤ blockLen) :
    Crc.crc 0x8408#16 0 (NorFlash.read (seenByte s.flash s.flashAddr img.size) 0
      (img.size - otaAppendInfoLen)) ≠ img.crc := by
  obtain ⟨m, hm⟩ : ∃ m, img.size = 38 + m := Nat.exists_eq_add_of_le img.boot_le
  have hn : img.size - otaAppendInfoLen = 32 + (4 + m) := by
    unfold otaAppendInfoLen
    omega
  have hfront : NorFlash.read (seenByte s.flash s.flashAddr img.size) 0 32 =
      img.bytes.take 32 := by
    refine read_seen_part h hended (by omega) fun i hi hin => ?_
    unfold InBootWord otaBootFlagOffset at hin
    omega
  have herased : NorFlash.read (seenByte s.flash s.flashAddr img.size) (0 + 32) 4 =
      List.replicate 4 0xFF := by
    apply Erased.read_eq
    intro i hi
    have hin : InBootWord (0 + 32 + i) := by
      unfold InBootWord otaBootFlagOffset
      omega
    rw [seenByte, if_neg (fun hfull => Nat.not_lt_of_le hsize hfull.1)]
    exact h.erased _ hin
  have hback : NorFlash.read (seenByte s.flash s.flashAddr img.size) (0 + 32 + 4) m =
      (img.bytes.drop 36).take m := by
    refine read_seen_part h hended (by omega) fun i hi hin => ?_
    unfold InBootWord otaBootFlagOffset at hin
    omega
  have himage : img.bytes.take (32 + (4 + m)) =
      img.bytes.take 32 ++ (bootWord ++ (img.bytes.drop 36).take m) := by
    rw [List.take_add, List.take_add, List.drop_drop]
    exact congrArg (fun boot => _ ++ (boot ++ _)) img.boot
  unfold OtaImage.crc
  rw [hn, read_add, read_add, hfront, herased, hback, himage]
  simp only [Crc.crc_append]
  -- behind the same remainder, the erased word and the boot word differ
  intro heq
  have hpoly : (0x8408#16).msb = true := by decide
  have hstart := Crc.crc_injective hpoly ((img.bytes.drop 36).take m) heq
  have hlen : (List.replicate 4 (0xFF : UInt8)).length = bootWord.length := rfl
  have hword := (Crc.crc_eq_iff _ _ hlen).mp hstart
  exact absurd hword (by decide +kernel)

/-- At the end of a faithful transfer, the check is right exactly for images of these sizes. -/
theorem endOk_iff (h : s.RunInv img) (hactive : s.Active) (hended : s.state = .ended) :
    EndOk img s now msg ↔ blockLen < img.size ∧ img.size % blockLen ≠ 1 := by
  have himage := h.image hactive (by rw [hended]; decide)
  have hlt := size_lt h hactive hended
  have hread := readFwCRC_eq himage hended hlt
  constructor
  · intro hok
    have hfw := hok.fwCRC_eq
    rw [hread] at hfw
    split at hfw
    next hone => cases hfw
    next hres =>
      refine ⟨Nat.lt_of_not_le fun hshort => ?_, hres⟩
      rw [pktCRC_of_ended himage hended hres] at hfw
      exact crc_seen_ne himage hended hshort (Option.some.inj hfw)
  · rintro ⟨hsize, hres⟩
    have hpkt := pktCRC_of_ended himage hended hres
    have htarget := readTargetFwCRC_eq himage hended hlt hsize
    have hfw : s.readFwCRC = some img.crc := by
      rw [hread, if_neg hres, read_seen_part himage hended (by omega) fun _ _ _ => hsize]
      rfl
    have hclear : s.clearOps.readFwCRC = some img.crc := hfw
    refine ⟨hfw.trans (congrArg some hpkt.symm), ?_⟩
    rw [otaSlaveStart_ended hended]
    unfold OtaSlave.verify
    rw [hclear]
    dsimp only
    have hcond : (decide (img.crc = s.pktCRC) = true ∧ s.clearOps.readTargetFwCRC = img.crc) ↔
        img.CrcOk := by
      rw [hpkt]
      show _ ∧ s.readTargetFwCRC = img.crc ↔ _
      rw [htarget]
      simp [OtaImage.CrcOk, eq_comm]
    by_cases hok : img.CrcOk
    · rw [if_pos (hcond.mpr hok)]
      have hswitch := flash_switchBootFlag (s := { s.clearOps with
        targetFwCRC := s.clearOps.readTargetFwCRC, fwCRC := img.crc }) himage.slot himage.erased
      exact iff_of_true hswitch hok
    · rw [if_neg (fun hc => hok (hcond.mp hc))]
      -- the boot word is still erased
      refine iff_of_false (fun hset => ?_) hok
      have hfirst := congrArg (fun l => l.getD 0 0) hset.1
      have hcell := himage.erased otaBootFlagOffset (by unfold InBootWord; omega)
      rw [getD_read _ _ (by decide), Nat.add_zero] at hfirst
      exact absurd (hcell.symm.trans hfirst) (by decide)

end OtaSlave

/-- Whenever a faithful transfer has ended, the check is right exactly if the image is longer than
a block and its last block is longer than a byte. -/
theorem accepts_iff (img : OtaImage) (flash : Cells) {events : List OtaSlaveEvent}
    (hok : Machine.Along (otaSlaveStep otaSlaveStart) (OtaSlave.Faithful img) (.powerOn flash)
      events)
    (hactive : (Machine.run (otaSlaveStep otaSlaveStart) (.powerOn flash) events).Active)
    (hended : (Machine.run (otaSlaveStep otaSlaveStart) (.powerOn flash) events).state = .ended)
    (now : ℕ) (msg : Option OtaMsg) :
    OtaSlave.EndOk img (Machine.run (otaSlaveStep otaSlaveStart) (.powerOn flash) events) now msg ↔
      blockLen < img.size ∧ img.size % blockLen ≠ 1 :=
  OtaSlave.endOk_iff (Machine.run_invariant (fun _ _ => OtaSlave.runInv_step)
    (OtaSlave.runInv_powerOn flash) hok) hactive hended

instance (s : OtaSlave) (Data : ℕ → UInt8) : Decidable (s.Starts Data) :=
  inferInstanceAs (Decidable (_ ∧ _))

instance (img : OtaImage) (s : OtaSlave) (Data : ℕ → UInt8) :
    Decidable (OtaSlave.Carries img s Data) :=
  decidable_of_iff ((Data 0).toNat = 3 + (img.block s.blockNum).length ∧
    Hci.bytes (fun i => Data (4 + i)) (img.block s.blockNum).length = img.block s.blockNum ∧
      ∀ i < (img.block s.blockNum).length, ¬ InBootWord (blockLen * s.blockNum + i) →
        s.flash (s.flashAddr + (blockLen * s.blockNum + i)) &&&
            img.byte (blockLen * s.blockNum + i) = img.byte (blockLen * s.blockNum + i))
    ⟨fun h => ⟨h.1, h.2.1, h.2.2⟩, fun h => ⟨h.len, h.data, h.takes⟩⟩

instance (img : OtaImage) (s : OtaSlave) : ∀ e, Decidable (OtaSlave.Faithful img s e)
  | .start _ (some (.data Data _)) => inferInstanceAs (Decidable (s.Active →
      (s.state = .startReady → s.Starts Data →
        bytesToUint16 (s.rx Data).rxFrame.payload 1 = img.blocks) ∧
      (s.Stores Data → OtaSlave.Carries img s Data)))
  | .start _ none | .start _ (some .invalidData) | .start _ (some .timeout)
  | .start _ (some .txDone) | .trigger => inferInstanceAs (Decidable True)

/-- A good image of two blocks, the second one its CRC. -/
def twoBlocks : OtaImage where
  bytes := List.replicate 32 0 ++ bootWord ++ List.replicate 12 0 ++ [0x4a, 0x5e]
  boot_le := Nat.le_of_ble_eq_true rfl
  boot := rfl

/-- Its transfer. -/
def sendTwoBlocks : List OtaSlaveEvent :=
  [.trigger, .start 0 none, rxFrameMsg [2, otaFrameTypeCmd, otaCmdIdVersionReq] versionReq_ne_zero,
    rxFrameMsg [4, otaFrameTypeCmd, otaCmdIdStartReq, 2, 0] startTwoReq_ne_zero,
    rxFrameMsg bootBlock bootBlock_ne_zero,
    rxFrameMsg [5, otaFrameTypeData, 2, 0, 0x4a, 0x5e] (by decide),
    rxFrameMsg [6, otaFrameTypeCmd, otaCmdIdEndReq, 50, 0, 0, 0] (by decide)]

theorem accepts_twoBlocks :
    OtaSlave.EndOk twoBlocks (Machine.run (otaSlaveStep otaSlaveStart) (.powerOn fun _ => 0xFF)
      sendTwoBlocks) 0 none :=
  (accepts_iff twoBlocks (fun _ => 0xFF) (by decide +kernel) (by decide +kernel)
    (by decide +kernel) 0 none).mpr (by decide +kernel)

/-- A good image that is a single block. -/
def oneBlock : OtaImage where
  bytes := List.replicate 32 0 ++ bootWord ++ [0xa8, 0x3b]
  boot_le := Nat.le_of_ble_eq_true rfl
  boot := rfl

/-- Its transfer. -/
def sendOneBlock : List OtaSlaveEvent :=
  [.trigger, .start 0 none, rxFrameMsg [2, otaFrameTypeCmd, otaCmdIdVersionReq] versionReq_ne_zero,
    rxFrameMsg [4, otaFrameTypeCmd, otaCmdIdStartReq, 1, 0] startOneReq_ne_zero,
    rxFrameMsg ([41, otaFrameTypeData, 1, 0] ++ oneBlock.bytes) (by decide),
    rxFrameMsg [6, otaFrameTypeCmd, otaCmdIdEndReq, 38, 0, 0, 0] (by decide)]

theorem not_accepts_oneBlock :
    oneBlock.CrcOk ∧
      Machine.Along (otaSlaveStep otaSlaveStart) (OtaSlave.Faithful oneBlock)
        (.powerOn fun _ => 0xFF) sendOneBlock ∧
      ¬ OtaSlave.EndOk oneBlock (Machine.run (otaSlaveStep otaSlaveStart) (.powerOn fun _ => 0xFF)
        sendOneBlock) 0 none := by
  have hok : Machine.Along (otaSlaveStep otaSlaveStart) (OtaSlave.Faithful oneBlock)
    (.powerOn fun _ => 0xFF) sendOneBlock := by decide +kernel
  refine ⟨by decide +kernel, hok, fun h => ?_⟩
  have hinv := Machine.run_invariant (fun _ _ => OtaSlave.runInv_step)
    (OtaSlave.runInv_powerOn fun _ => 0xFF) hok
  have hsize := (OtaSlave.endOk_iff hinv (by decide +kernel) (by decide +kernel)).mp h
  exact absurd hsize (by decide +kernel)

end TlBleSdk.Ota
