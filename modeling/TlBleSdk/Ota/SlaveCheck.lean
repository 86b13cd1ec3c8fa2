import TlBleSdk.Ota.SlaveBoot

/-!
# The image that a slave stores

`otaFwCrcLoop_eq` is the loop of the slave of one master over the image in the flash: it computes
the CRC of `seenByte`. `ImageInv` is what is stored behind each block of a faithful transfer,
and `runInv_step` keeps it along a run.
-/

namespace TlBleSdk.Ota

open Hci NorFlash

/-- The offset is in the boot word. -/
def InBootWord (i : ℕ) : Prop := otaBootFlagOffset ≤ i ∧ i < otaBootFlagOffset + 4

instance (i : ℕ) : Decidable (InBootWord i) := inferInstanceAs (Decidable (_ ∧ _))

/-- The boot word `4b 4e 4c 54`. -/
def bootWord : List UInt8 := [0x4b, 0x4e, 0x4c, 0x54]

/-- An image with its CRC behind it, as the master sends it. -/
structure OtaImage where
  bytes : List UInt8
  boot_le : otaBootFlagOffset + 4 + otaAppendInfoLen ≤ bytes.length
  boot : (bytes.drop otaBootFlagOffset).take 4 = bootWord

namespace OtaImage

variable (img : OtaImage)

/-- `TotalBinSize`. -/
def size : ℕ := img.bytes.length

/-- `MaxBlockNum`. -/
def blocks : ℕ := (img.size + blockLen - 1) / blockLen

/-- The bytes of block `k + 1`. -/
def block (k : ℕ) : List UInt8 := (img.bytes.drop (blockLen * k)).take blockLen

/-- The byte at an offset. -/
def byte (i : ℕ) : UInt8 := img.bytes.getD i 0xFF

/-- The CRC of the image. -/
def crc : BitVec 16 := Crc.crc 0x8408#16 0 (img.bytes.take (img.size - otaAppendInfoLen))

/-- The CRC that the image ends with. -/
def targetCrc : BitVec 16 := BitVec.ofNat 16 (bytesToUint16 img.byte (img.size - otaAppendInfoLen))

/-- The image is good. -/
def CrcOk : Prop := img.crc = img.targetCrc

instance : Decidable img.CrcOk := inferInstanceAs (Decidable (_ = _))

/-- The bytes that `PktCRC` is computed of behind `k` blocks. -/
def pktBytes (k : ℕ) : List UInt8 :=
  if k < img.blocks then img.bytes.take (blockLen * k)
  else img.bytes.take
    (blockLen * (img.blocks - 1) + ((img.block (img.blocks - 1)).length - otaAppendInfoLen))

end OtaImage

/-! ## The CRC of the flash -/

section FwCrc

variable {flash : Cells} {flashAddr size : ℕ}

/-- The image as the loop sees it: with a boot word if there is a full block before the last. -/
def seenByte (flash : Cells) (flashAddr size i : ℕ) : UInt8 :=
  if blockLen < size ∧ InBootWord i then bootWord.getD (i - otaBootFlagOffset) 0
  else flash (flashAddr + i)

theorem seenByte_of_not_inBootWord {i : ℕ} (h : ¬ InBootWord i) :
    seenByte flash flashAddr size i = flash (flashAddr + i) :=
  if_neg fun hboot => h hboot.2

/-- Only the first block has the boot word. -/
theorem read_seenByte {off n : ℕ} (h : ∀ i < n, ¬ (blockLen < size ∧ InBootWord (off + i))) :
    NorFlash.read (seenByte flash flashAddr size) off n =
      NorFlash.read flash (flashAddr + off) n := by
  apply List.map_congr_left
  intro i hi
  rw [Nat.add_assoc]
  exact if_neg (h i (List.mem_range.mp hi))

/-- The buffer of the first block, if it is a full one. -/
theorem read_seen_first (h : blockLen < size) :
    (NorFlash.read flash flashAddr blockLen).take otaBootFlagOffset ++ [0x4b, 0x4e, 0x4c, 0x54] ++
        (NorFlash.read flash flashAddr blockLen).drop (otaBootFlagOffset + 4) =
      NorFlash.read (seenByte flash flashAddr size) 0 blockLen := by
  -- the boot word is the bytes 32 to 35 of the block
  have hfront : NorFlash.read flash flashAddr blockLen =
      NorFlash.read flash flashAddr 32 ++ NorFlash.read flash (flashAddr + 32) 16 :=
    read_add _ _ 32 16
  have hback : NorFlash.read flash flashAddr blockLen =
      NorFlash.read flash flashAddr 36 ++ NorFlash.read flash (flashAddr + 36) 12 :=
    read_add _ _ 36 12
  have hseen : NorFlash.read (seenByte flash flashAddr size) 0 blockLen =
      NorFlash.read (seenByte flash flashAddr size) 0 32 ++
        NorFlash.read (seenByte flash flashAddr size) 32 4 ++
          NorFlash.read (seenByte flash flashAddr size) 36 12 := by
    rw [List.append_assoc, ← read_add _ _ 4 12]
    exact read_add _ _ 32 16
  have hboot : NorFlash.read (seenByte flash flashAddr size) 32 4 = bootWord := by
    apply List.ext_getElem
    · rfl
    intro i hi hi'
    rw [getElem_read, seenByte, if_pos ⟨h, by
      rw [length_read] at hi
      unfold InBootWord otaBootFlagOffset
      omega⟩]
    rw [show 32 + i - otaBootFlagOffset = i by unfold otaBootFlagOffset; omega,
      List.getD_eq_getElem _ _ hi']
  have htake : (NorFlash.read flash flashAddr blockLen).take otaBootFlagOffset =
      NorFlash.read flash flashAddr 32 := by
    rw [hfront]
    exact List.take_left' (length_read _ _ _)
  have hdrop : (NorFlash.read flash flashAddr blockLen).drop (otaBootFlagOffset + 4) =
      NorFlash.read flash (flashAddr + 36) 12 := by
    rw [hback]
    exact List.drop_left' (length_read _ _ _)
  rw [htake, hdrop, hseen, hboot, read_seenByte, read_seenByte]
  · rfl
  · intro i hi hin
    unfold InBootWord otaBootFlagOffset at hin
    omega
  · intro i hi hin
    unfold InBootWord otaBootFlagOffset at hin
    omega

/-- Behind the first block, and in an image of one block, the flash is seen as it is. -/
theorem read_seen_later {blockIdx : ℕ} (n : ℕ) (hblock : blockIdx ≠ 0 ∨ ¬ blockLen < size) :
    NorFlash.read (seenByte flash flashAddr size) (blockIdx * blockLen) n =
      NorFlash.read flash (flashAddr + blockIdx * blockLen) n := by
  apply read_seenByte
  rintro i hi ⟨hsize, hin⟩
  rcases hblock with hne | hshort
  · have hone : 1 * blockLen ≤ blockIdx * blockLen :=
      Nat.mul_le_mul_right _ (Nat.pos_of_ne_zero hne)
    unfold InBootWord otaBootFlagOffset at hin
    unfold blockLen otaFramePayloadMax at *
    omega
  · exact hshort hsize

/-- The buffer of a full block is what is seen of the flash. -/
theorem read_seen_block {blockIdx : ℕ} (hfirst : blockIdx = 0 → blockLen < size) :
    (if blockIdx = 0 then
        (NorFlash.read flash (flashAddr + blockIdx * blockLen) blockLen).take
            otaBootFlagOffset ++ [0x4b, 0x4e, 0x4c, 0x54] ++
          (NorFlash.read flash (flashAddr + blockIdx * blockLen) blockLen).drop
            (otaBootFlagOffset + 4)
      else NorFlash.read flash (flashAddr + blockIdx * blockLen) blockLen) =
        NorFlash.read (seenByte flash flashAddr size) (blockIdx * blockLen) blockLen := by
  by_cases hzero : blockIdx = 0
  · rw [if_pos hzero, hzero, Nat.zero_mul, Nat.add_zero]
    exact read_seen_first (hfirst hzero)
  · rw [if_neg hzero]
    exact (read_seen_later _ (.inl hzero)).symm

/-- The loop over the flash computes the CRC of what it sees, without the last two bytes. It has no
result if the last block is a single byte. -/
theorem otaFwCrcLoop_eq (flash : Cells) (haddr : flashAddr + size < 4294967296)
    (left blockIdx : ℕ) (hleft : left + blockIdx * blockLen = size) (hpos : 0 < left)
    (crc : BitVec 16) :
    otaFwCrcLoop flash flashAddr left blockIdx crc =
      if left % blockLen = 1 then none
      else some (otaCrc16Cal crc (NorFlash.read (seenByte flash flashAddr size)
        (blockIdx * blockLen) (left - otaAppendInfoLen))) := by
  -- strong induction on the bytes that are left
  induction left using Nat.strongRecOn generalizing blockIdx crc with
  | ind left ih =>
    have haddr' : u32 (flashAddr + blockIdx * blockLen) = flashAddr + blockIdx * blockLen :=
      u32_of_lt (by omega)
    rw [otaFwCrcLoop.eq_def]
    dsimp only
    rw [haddr']
    by_cases hfull : blockLen < left
    · have hfirst : blockIdx = 0 → blockLen < size := by
        rintro rfl
        omega
      rw [if_pos hfull, read_seen_block hfirst,
        ih (left - blockLen) (by unfold blockLen otaFramePayloadMax at *; omega) (blockIdx + 1)
          (by rw [Nat.add_mul]; omega) (by omega)]
      unfold blockLen otaFramePayloadMax otaAppendInfoLen at *
      have hmod : (left - (50 - 2)) % (50 - 2) = left % (50 - 2) := by omega
      rw [hmod]
      split
      · rfl
      next hres =>
        rw [show left - 2 = 48 + (left - 48 - 2) by omega, read_add, Nat.add_mul, Nat.one_mul]
        unfold otaCrc16Cal
        rw [List.foldl_append]
    · rw [if_neg hfull]
      have hshort : left % blockLen = 1 ↔ left < otaAppendInfoLen := by
        unfold blockLen otaFramePayloadMax otaAppendInfoLen at *
        omega
      by_cases hone : left < otaAppendInfoLen
      · rw [if_pos hone, if_pos (hshort.mpr hone)]
      · rw [if_neg hone, if_neg (fun h => hone (hshort.mp h)), read_seen_later]
        rcases Nat.eq_zero_or_pos blockIdx with hzero | hsucc
        · exact .inr (by rw [hzero] at hleft; omega)
        · exact .inl (by omega)

end FwCrc

/-! ## Blocks of an image -/

namespace OtaImage

variable {img : OtaImage} {k : ℕ}

theorem length_block (k : ℕ) : (img.block k).length = min blockLen (img.size - blockLen * k) := by
  simp [block, size]

theorem block_lt_iff : k < img.blocks ↔ blockLen * k < img.size := by
  unfold blocks blockLen otaFramePayloadMax
  omega

theorem size_pos : 0 < img.size := Nat.lt_of_lt_of_le (by decide) img.boot_le

theorem blocks_pos : 0 < img.blocks := block_lt_iff.mpr (by simpa using img.size_pos)

theorem size_le : img.size ≤ blockLen * img.blocks :=
  Nat.not_lt.mp fun h => Nat.lt_irrefl _ (block_lt_iff.mpr h)

/-- The bytes before a block, and the block. -/
theorem take_append_block (k n : ℕ) (hn : n ≤ blockLen) :
    img.bytes.take (blockLen * k) ++ (img.block k).take n = img.bytes.take (blockLen * k + n) := by
  rw [block, List.take_take, Nat.min_eq_left hn, List.take_add]

theorem getD_block {i : ℕ} (hi : i < (img.block k).length) :
    (img.block k).getD i 0xFF = img.byte (blockLen * k + i) := by
  have hlt : i < blockLen := by
    rw [length_block] at hi
    omega
  rw [block, byte, List.getD_eq_getElem?_getD, List.getD_eq_getElem?_getD,
    List.getElem?_take_of_lt hlt, List.getElem?_drop]

theorem inBootWord_lt {i : ℕ} (h : InBootWord i) : i < img.size := by
  have hle := img.boot_le
  unfold InBootWord at h
  unfold size
  omega

/-- The boot word of the image. -/
theorem byte_of_inBootWord {i : ℕ} (h : InBootWord i) :
    img.byte i = bootWord.getD (i - otaBootFlagOffset) 0 := by
  have hlt : i < img.bytes.length := inBootWord_lt h
  obtain ⟨hlo, hhi⟩ := h
  have hlast : i - otaBootFlagOffset < 4 := by omega
  rw [← img.boot, byte, List.getD_eq_getElem?_getD, List.getD_eq_getElem?_getD,
    List.getElem?_take_of_lt hlast, List.getElem?_drop, Nat.add_sub_cancel' hlo,
    List.getElem?_eq_getElem hlt]
  rfl

end OtaImage

/-! ## A block in the flash -/

/-- The frame received carries the data `b`. -/
structure OtaSlave.Loaded (s : OtaSlave) (b : List UInt8) : Prop where
  len : s.len = 3 + b.length
  data : ∀ i < b.length, s.rxFrame.payload (2 + i) = b.getD i 0xFF

namespace OtaSlave

variable {s : OtaSlave} {b : List UInt8}

theorem Loaded.payload_eq (h : s.Loaded b) (off n : ℕ) (hn : off + n ≤ b.length) :
    s.payload (2 + off) n = (b.drop off).take n := by
  apply List.ext_getElem
  · rw [payload, length_bytes, Int.toNat_natCast, List.length_take, List.length_drop]
    omega
  intro i hi hi'
  have hlt : i < n := by rwa [payload, length_bytes, Int.toNat_natCast] at hi
  rw [← List.getD_eq_getElem _ 0xFF hi, ← List.getD_eq_getElem _ 0xFF hi', payload,
    getD_bytes _ (by simpa using hlt), Nat.add_assoc, h.data _ (by omega),
    List.getD_eq_getElem?_getD, List.getD_eq_getElem?_getD, List.getElem?_take_of_lt hlt,
    List.getElem?_drop]

/-- The address of the next block, and room for it in the boot word's block. -/
structure Appends (s : OtaSlave) (b : List UInt8) : Prop where
  flashAddr_le : s.flashAddr ≤ otaSlaveBinAddr2
  total_eq : s.totalBinSize = blockLen * s.blockNum
  length_le : b.length ≤ blockLen
  blockNum_lt : s.blockNum + 1 < 65536
  first : s.blockNum = 0 → otaBootFlagOffset + 4 ≤ b.length

theorem flash_flashWritePage (s : OtaSlave) (addr : ℕ) {n : ℤ} (hn : 0 ≤ n)
    (hlt : n < 4294967296) (off : ℕ) : (s.flashWritePage addr n off).flash =
      program s.flash addr (s.payload off n.toNat) := by
  have hlen : u32Add 0 n = n.toNat := by
    rw [u32Add_of_nonneg hn (by omega), Nat.zero_add]
  show program s.flash addr (s.payload off (u32Add 0 n)) = _
  rw [hlen]

/-- The first block is written around the boot word. -/
theorem flash_writeBlock_first (hl : s.Loaded b) (h : s.Appends b) (hfirst : s.blockNum = 0)
    (i : ℕ) : (s.writeBlock (s.blockNum + 1)).flash (s.flashAddr + i) =
      if InBootWord i then s.flash (s.flashAddr + i)
      else s.flash (s.flashAddr + i) &&& b.getD i 0xFF := by
  have haddr := h.flashAddr_le
  have hle := h.length_le
  have hlen := hl.len
  have hroom := h.first hfirst
  unfold otaSlaveBinAddr2 at haddr
  unfold blockLen otaFramePayloadMax at hle
  unfold otaBootFlagOffset at hroom
  have hfront : s.payload 2 (otaBootFlagOffset : ℤ).toNat = b.take 32 :=
    hl.payload_eq 0 32 (by omega)
  have hback : s.payload (2 + otaBootFlagOffset + 4)
      ((s.len : ℤ) - 3 - (otaBootFlagOffset + 4)).toNat = b.drop 36 := by
    rw [show ((s.len : ℤ) - 3 - (otaBootFlagOffset + 4)).toNat = b.length - 36 by
      unfold otaBootFlagOffset; omega]
    rw [← List.take_of_length_le (l := b.drop 36) (i := b.length - 36) (by simp)]
    exact hl.payload_eq 36 (b.length - 36) (by omega)
  have hnext : u32 (s.flashAddr + otaBootFlagOffset + 4) = s.flashAddr + 36 :=
    u32_of_lt (by unfold otaBootFlagOffset; omega)
  unfold writeBlock
  rw [if_pos (by omega), flash_flashWritePage _ _ (by unfold otaBootFlagOffset; omega)
    (by unfold otaBootFlagOffset; omega)]
  show program ((s.flashWritePage s.flashAddr otaBootFlagOffset 2).flash) _
    (s.payload (2 + otaBootFlagOffset + 4) _) _ = _
  rw [flash_flashWritePage _ _ (by decide) (by decide), hfront]
  show program _ _ (s.payload (2 + otaBootFlagOffset + 4)
    ((s.len : ℤ) - 3 - (otaBootFlagOffset + 4)).toNat) _ = _
  rw [hback, hnext]
  unfold program InBootWord otaBootFlagOffset
  simp only [List.getD_eq_getElem?_getD, List.getElem?_take, List.getElem?_drop]
  by_cases hbefore : i < 32
  · -- the first write has the byte
    rw [if_neg (by omega), if_pos (by omega), if_pos (by omega), if_neg (by omega)]
    simp
  · by_cases hboot : i < 36
    · -- the first write ends in front of it, and the second starts behind it
      rw [if_neg (by omega), if_pos (by omega), if_neg (by omega), if_pos (by omega)]
      exact and_ones _
    · rw [if_pos (by omega), if_pos (by omega), if_neg (by omega), if_neg (by omega),
        show s.flashAddr + i - (s.flashAddr + 36) = i - 36 by omega]
      rw [show 36 + (i - 36) = i by omega]
      simp [and_ones]

/-- A later block is written behind the bytes that came before it. -/
theorem flash_writeBlock_later (hl : s.Loaded b) (h : s.Appends b) (hlater : s.blockNum ≠ 0)
    (i : ℕ) : (s.writeBlock (s.blockNum + 1)).flash (s.flashAddr + i) =
      if blockLen * s.blockNum ≤ i then
        s.flash (s.flashAddr + i) &&& b.getD (i - blockLen * s.blockNum) 0xFF
      else s.flash (s.flashAddr + i) := by
  have haddr := h.flashAddr_le
  have hle := h.length_le
  have hlen := hl.len
  have hblock := h.blockNum_lt
  have htotal := h.total_eq
  unfold otaSlaveBinAddr2 at haddr
  unfold blockLen otaFramePayloadMax at hle htotal
  have hnext : u32 (s.flashAddr + s.totalBinSize) = s.flashAddr + 48 * s.blockNum := by
    rw [u32_of_lt (by omega), htotal]
  have hdata : s.payload 2 ((s.len : ℤ) - 3).toNat = b := by
    rw [show ((s.len : ℤ) - 3).toNat = b.length by omega]
    have hpay := hl.payload_eq 0 b.length (by omega)
    rwa [List.drop_zero, List.take_length] at hpay
  unfold writeBlock
  rw [if_neg (by omega), flash_flashWritePage _ _ (by omega) (by omega), hnext, hdata]
  unfold program blockLen otaFramePayloadMax
  by_cases hin : 48 * s.blockNum ≤ i
  · rw [if_pos (by omega), if_pos (by omega),
      show s.flashAddr + i - (s.flashAddr + 48 * s.blockNum) = i - (50 - 2) * s.blockNum by
        omega]
  · rw [if_neg (by omega), if_neg (by omega)]

/-- A byte of the flash behind the writes of a block. -/
theorem flash_writeBlock (hl : s.Loaded b) (h : s.Appends b) (i : ℕ) :
    (s.writeBlock (s.blockNum + 1)).flash (s.flashAddr + i) =
      if blockLen * s.blockNum ≤ i ∧ ¬ InBootWord i then
        s.flash (s.flashAddr + i) &&& b.getD (i - blockLen * s.blockNum) 0xFF
      else s.flash (s.flashAddr + i) := by
  by_cases hfirst : s.blockNum = 0
  · rw [flash_writeBlock_first hl h hfirst, hfirst, Nat.mul_zero, Nat.sub_zero]
    by_cases hboot : InBootWord i
    · rw [if_pos hboot, if_neg (fun hin => hin.2 hboot)]
    · rw [if_neg hboot, if_pos ⟨Nat.zero_le i, hboot⟩]
  · rw [flash_writeBlock_later hl h hfirst]
    -- the boot word is in the first block
    have hnot : blockLen * s.blockNum ≤ i → ¬ InBootWord i := by
      unfold InBootWord otaBootFlagOffset blockLen otaFramePayloadMax
      omega
    exact if_congr (and_iff_left_of_imp hnot).symm rfl rfl

/-- The first bytes of the data. -/
theorem Loaded.payload_take (h : s.Loaded b) {n : ℤ} (hn : n ≤ b.length) :
    s.payload 2 n = b.take n.toNat := by
  have hpay := h.payload_eq 0 n.toNat (by omega)
  rw [List.drop_zero] at hpay
  rw [← hpay]
  unfold payload
  rw [Int.toNat_natCast]

/-! ## The run -/

variable {img : OtaImage} {t : OtaSlave} {now : ℕ} {msg : Option OtaMsg} {Data : ℕ → UInt8}
  {e : OtaSlaveEvent}

/-- The frame carries the next block of the image, and the flash takes it. -/
structure Carries (img : OtaImage) (s : OtaSlave) (Data : ℕ → UInt8) : Prop where
  len : (Data 0).toNat = 3 + (img.block s.blockNum).length
  data : Hci.bytes (fun i => Data (4 + i)) (img.block s.blockNum).length = img.block s.blockNum
  takes : ∀ i < (img.block s.blockNum).length, ¬ InBootWord (blockLen * s.blockNum + i) →
    s.flash (s.flashAddr + (blockLen * s.blockNum + i)) &&& img.byte (blockLen * s.blockNum + i) =
      img.byte (blockLen * s.blockNum + i)

/-- The step is faithful: the number of blocks is that of the image, and a block that is stored is
its own. -/
def Faithful (img : OtaImage) (s : OtaSlave) : OtaSlaveEvent → Prop
  | .start _ (some (.data Data _)) => s.Active →
      (s.state = .startReady → s.Starts Data →
        bytesToUint16 (s.rx Data).rxFrame.payload 1 = img.blocks) ∧
      (s.Stores Data → Carries img s Data)
  | _ => True

/-- What is stored of the image behind `s.blockNum` blocks. -/
structure ImageInv (img : OtaImage) (s : OtaSlave) : Prop where
  slot : s.flashAddr = otaSlaveBinAddr1 ∨ s.flashAddr = otaSlaveBinAddr2
  fwCRC_eq : s.fwCRC = 0
  total_eq : s.totalBinSize = min (blockLen * s.blockNum) img.size
  erased : ∀ i, InBootWord i → s.flash (s.flashAddr + i) = 0xFF
  stored : ∀ i < s.totalBinSize, ¬ InBootWord i → s.flash (s.flashAddr + i) = img.byte i
  pktCRC_eq : s.pktCRC = Crc.crc 0x8408#16 0 (img.pktBytes s.blockNum)
  fresh : s.state = .idle ∨ s.state = .fwVersionReady ∨ s.state = .startReady → s.blockNum = 0
  data : s.state = .dataReady → s.maxBlockNum = img.blocks ∧ s.blockNum < img.blocks
  complete : s.state = .endReady ∨ s.state = .ended →
    s.maxBlockNum = img.blocks ∧ s.blockNum = img.blocks

theorem ImageInv.flashAddr_le (h : s.ImageInv img) : s.flashAddr ≤ otaSlaveBinAddr2 := by
  rcases h.slot with hslot | hslot <;> rw [hslot]
  exact Nat.zero_le _

theorem Carries.loaded (h : Carries img s Data) : (s.rx Data).Loaded (img.block s.blockNum) := by
  refine ⟨h.len, fun i hi => ?_⟩
  have hlen := h.len
  have hdata := getD_bytes (fun i => Data (4 + i)) hi 0xFF
  rw [h.data] at hdata
  rw [payload_rx (by omega), hdata]
  congr 1
  omega

/-- `PktCRC` behind a block. -/
theorem nextPktCRC_eq (hl : s.Loaded (img.block s.blockNum)) (hlt : s.blockNum < img.blocks)
    (hcrc : s.pktCRC = Crc.crc 0x8408#16 0 (img.pktBytes s.blockNum))
    (hmax : s.maxBlockNum = img.blocks) :
    s.nextPktCRC (s.maxBlockNum = s.blockNum + 1) =
      Crc.crc 0x8408#16 0 (img.pktBytes (s.blockNum + 1)) := by
  have hlen := hl.len
  have hblock := img.length_block s.blockNum
  have hbefore : img.pktBytes s.blockNum = img.bytes.take (blockLen * s.blockNum) := if_pos hlt
  unfold nextPktCRC
  rw [otaCrc16Cal_eq, hcrc, hbefore, ← Crc.crc_append]
  congr 1
  by_cases hlast : s.blockNum + 1 < img.blocks
  · -- a full block
    have hfull := img.block_lt_iff.mp hlast
    have hsize : (img.block s.blockNum).length = blockLen := by
      rw [hblock]
      rw [Nat.mul_add, Nat.mul_one] at hfull
      omega
    rw [if_neg (by simp; omega), hl.payload_take (by omega),
      show ((s.len : ℤ) - 3).toNat = blockLen by omega, img.take_append_block _ _ (Nat.le_refl _),
      OtaImage.pktBytes, if_pos hlast]
    rfl
  · -- the last block ends with the CRC, which is not counted
    have hend : img.blocks - 1 = s.blockNum := by omega
    rw [if_pos (by simp; omega), hl.payload_take (by unfold otaAppendInfoLen; omega),
      img.take_append_block, OtaImage.pktBytes, if_neg hlast, hend]
    · congr 2
      unfold otaAppendInfoLen
      omega
    · unfold otaAppendInfoLen
      omega

theorem core_storeBlock (s : OtaSlave) (blockNum : ℕ) : (s.storeBlock blockNum).core =
    { s.core with
      blockNum := blockNum
      totalBinSize := u32Add s.totalBinSize (s.len - 3)
      pktCRC := s.nextPktCRC (s.maxBlockNum = blockNum)
      state := if s.maxBlockNum = blockNum then .endReady else s.state
      flash := (s.writeBlock blockNum).flash } := by
  unfold storeBlock writeBlock
  by_cases hfirst : blockNum = 1
  · simp only [if_pos hfirst]
    rfl
  · simp only [if_neg hfirst]
    rfl

/-- The next block follows those that are stored. -/
theorem ImageInv.appends (h : s.ImageInv img) (hstate : s.state = .dataReady)
    (hmax : s.maxBlockNum < 65536) : s.Appends (img.block s.blockNum) := by
  obtain ⟨hblocks, hlt⟩ := h.data hstate
  have hfit := img.block_lt_iff.mp hlt
  have hlength := img.length_block s.blockNum
  have hbootLe := img.boot_le
  refine ⟨h.flashAddr_le, ?_, ?_, by omega, fun hfirst => ?_⟩
  · rw [h.total_eq]
    omega
  · rw [hlength]
    exact Nat.min_le_left _ _
  · rw [hlength, hfirst]
    unfold OtaImage.size
    unfold otaBootFlagOffset otaAppendInfoLen at hbootLe
    unfold otaBootFlagOffset blockLen otaFramePayloadMax
    omega

/-- The bytes counted behind a block. -/
theorem ImageInv.total_storeBlock (h : s.ImageInv img) (hstate : s.state = .dataReady)
    (hmax : s.maxBlockNum < 65536) (hl : s.Loaded (img.block s.blockNum)) :
    u32Add s.totalBinSize (s.len - 3) = min (blockLen * (s.blockNum + 1)) img.size := by
  obtain ⟨hblocks, hlt⟩ := h.data hstate
  have hfit := img.block_lt_iff.mp hlt
  have hlength := img.length_block s.blockNum
  have happ := h.appends hstate hmax
  have htotal := happ.total_eq
  have hroom := happ.length_le
  have hlen := hl.len
  unfold blockLen otaFramePayloadMax at *
  rw [u32Add_of_nonneg (by omega) (by omega)]
  omega

/-- The bytes of the image that are stored behind a block. -/
theorem ImageInv.stored_writeBlock (h : s.ImageInv img) (hstate : s.state = .dataReady)
    (hmax : s.maxBlockNum < 65536) (hl : s.Loaded (img.block s.blockNum))
    (htakes : ∀ i < (img.block s.blockNum).length, ¬ InBootWord (blockLen * s.blockNum + i) →
      s.flash (s.flashAddr + (blockLen * s.blockNum + i)) &&& img.byte (blockLen * s.blockNum + i) =
        img.byte (blockLen * s.blockNum + i)) {i : ℕ}
    (hi : i < min (blockLen * (s.blockNum + 1)) img.size) (hboot : ¬ InBootWord i) :
    (s.writeBlock (s.blockNum + 1)).flash (s.flashAddr + i) = img.byte i := by
  have hlength := img.length_block s.blockNum
  have happ := h.appends hstate hmax
  have htotal := happ.total_eq
  rw [flash_writeBlock hl happ]
  by_cases hnew : blockLen * s.blockNum ≤ i
  · -- a byte of the block
    obtain ⟨d, rfl⟩ := Nat.exists_eq_add_of_le hnew
    have hd : d < (img.block s.blockNum).length := by
      rw [hlength]
      rw [Nat.mul_add, Nat.mul_one] at hi
      omega
    rw [if_pos ⟨hnew, hboot⟩, Nat.add_sub_cancel_left, img.getD_block hd]
    exact htakes d hd hboot
  · rw [if_neg (fun hin => hnew hin.1)]
    exact h.stored i (by omega) hboot

/-- A faithful block is added to what is stored. -/
theorem ImageInv.storeBlock (h : s.ImageInv img) (hstate : s.state = .dataReady)
    (hmax : s.maxBlockNum < 65536) (hl : s.Loaded (img.block s.blockNum))
    (htakes : ∀ i < (img.block s.blockNum).length, ¬ InBootWord (blockLen * s.blockNum + i) →
      s.flash (s.flashAddr + (blockLen * s.blockNum + i)) &&& img.byte (blockLen * s.blockNum + i) =
        img.byte (blockLen * s.blockNum + i)) :
    (s.storeBlock (s.blockNum + 1)).ImageInv img := by
  obtain ⟨hblocks, hlt⟩ := h.data hstate
  have hcore := core_storeBlock s (s.blockNum + 1)
  have hcount := h.total_storeBlock hstate hmax hl
  have hstate' : (s.storeBlock (s.blockNum + 1)).state =
      if s.maxBlockNum = s.blockNum + 1 then .endReady else s.state :=
    congrArg SlaveCore.state hcore
  have haddr' : (s.storeBlock (s.blockNum + 1)).flashAddr = s.flashAddr :=
    congrArg SlaveCore.flashAddr hcore
  have hflash' : (s.storeBlock (s.blockNum + 1)).flash = (s.writeBlock (s.blockNum + 1)).flash :=
    congrArg SlaveCore.flash hcore
  have hmax' : (s.storeBlock (s.blockNum + 1)).maxBlockNum = s.maxBlockNum :=
    congrArg SlaveCore.maxBlockNum hcore
  constructor
  case slot =>
    rw [haddr']
    exact h.slot
  case fwCRC_eq => exact (congrArg SlaveCore.fwCRC hcore).trans h.fwCRC_eq
  case total_eq => exact (congrArg SlaveCore.totalBinSize hcore).trans hcount
  case erased =>
    -- no block is written to the boot word
    intro i hi
    rw [haddr', hflash', flash_writeBlock hl (h.appends hstate hmax), if_neg (fun hin => hin.2 hi)]
    exact h.erased i hi
  case stored =>
    intro i hi hboot
    have htotal' : (s.storeBlock (s.blockNum + 1)).totalBinSize = _ :=
      (congrArg SlaveCore.totalBinSize hcore).trans hcount
    rw [htotal'] at hi
    rw [haddr', hflash']
    exact h.stored_writeBlock hstate hmax hl htakes hi hboot
  case pktCRC_eq =>
    exact (congrArg SlaveCore.pktCRC hcore).trans (nextPktCRC_eq hl hlt h.pktCRC_eq hblocks)
  case fresh =>
    -- behind a block the data goes on or ends
    intro hfresh
    rw [hstate'] at hfresh
    split at hfresh
    · simp at hfresh
    · simp [hstate] at hfresh
  case data =>
    intro hdata
    rw [hstate'] at hdata
    split at hdata
    · cases hdata
    next hmore =>
      refine ⟨hmax'.trans hblocks, ?_⟩
      show s.blockNum + 1 < img.blocks
      omega
  case complete =>
    -- only the last block ends the data
    intro hcomplete
    rw [hstate'] at hcomplete
    split at hcomplete
    next hlast => exact ⟨hmax'.trans hblocks, (hlast.symm.trans hblocks)⟩
    · simp [hstate] at hcomplete

/-- Other states and numbers of blocks, with the same image. -/
theorem ImageInv.of_core (h : s.ImageInv img) {state : OtaSlaveState} {maxBlockNum : ℕ}
    (hcore : t.core = { s.core with state := state, maxBlockNum := maxBlockNum })
    (hfresh : state = .idle ∨ state = .fwVersionReady ∨ state = .startReady → s.blockNum = 0)
    (hdata : state = .dataReady → maxBlockNum = img.blocks ∧ s.blockNum < img.blocks)
    (hcomplete : state = .endReady ∨ state = .ended →
      maxBlockNum = img.blocks ∧ s.blockNum = img.blocks) : t.ImageInv img := by
  have haddr : t.flashAddr = s.flashAddr := congrArg SlaveCore.flashAddr hcore
  have hflash : t.flash = s.flash := congrArg SlaveCore.flash hcore
  have htotal : t.totalBinSize = s.totalBinSize := congrArg SlaveCore.totalBinSize hcore
  have hblock : t.blockNum = s.blockNum := congrArg SlaveCore.blockNum hcore
  have hstate : t.state = state := congrArg SlaveCore.state hcore
  have hmax : t.maxBlockNum = maxBlockNum := congrArg SlaveCore.maxBlockNum hcore
  refine ⟨?_, (congrArg SlaveCore.fwCRC hcore).trans h.fwCRC_eq, ?_, ?_, ?_,
    (congrArg SlaveCore.pktCRC hcore).trans ?_, ?_, ?_, ?_⟩
  · rw [haddr]
    exact h.slot
  · rw [htotal, hblock]
    exact h.total_eq
  · rw [haddr, hflash]
    exact h.erased
  · rw [haddr, hflash, htotal]
    exact h.stored
  · rw [hblock]
    exact h.pktCRC_eq
  · rw [hstate, hblock]
    exact hfresh
  · rw [hstate, hmax, hblock]
    exact hdata
  · rw [hstate, hmax, hblock]
    exact hcomplete

/-- A session begins with an erased slot. -/
theorem imageInv_init (s : OtaSlave) :
    (otaSlaveInit s (otaSlaveBinAddr s.flash)).ImageInv img := by
  have hslot := (otaSlaveBinAddr_cases s.flash).elim (fun h => Or.inr h.1) fun h => Or.inl h.1
  refine ⟨hslot, rfl, ?_, fun i hi => ?_, fun i hi => ?_, ?_, fun _ => rfl,
    (fun hdata => by cases hdata), fun hcomplete => by simp [otaSlaveInit] at hcomplete⟩
  · show 0 = min (blockLen * 0) img.size
    rw [Nat.mul_zero, Nat.zero_min]
  · show otaFlashErase s.flash (otaSlaveBinAddr s.flash) (otaSlaveBinAddr s.flash + i) = 0xFF
    rw [otaFlashErase_apply, if_pos]
    unfold InBootWord otaBootFlagOffset at hi
    unfold otaSlotLen
    omega
  · exact absurd hi (Nat.not_lt_zero i)
  · show 0 = Crc.crc 0x8408#16 0 (img.pktBytes 0)
    rw [OtaImage.pktBytes, if_pos img.blocks_pos, Nat.mul_zero, List.take_zero]
    rfl

/-- The blocks counted are those of the image. -/
structure Held (img : OtaImage) (s : OtaSlave) : Prop where
  total_eq : s.totalBinSize = min (blockLen * s.blockNum) img.size
  stored : ∀ i < s.totalBinSize, ¬ InBootWord i → s.flash (s.flashAddr + i) = img.byte i

theorem ImageInv.held (h : s.ImageInv img) : s.Held img := ⟨h.total_eq, h.stored⟩

/-- The slave stores the image as long as it is in a session. What it has stored is still there
when it fails, until the next call erases it. -/
structure RunInv (img : OtaImage) (s : OtaSlave) : Prop where
  max_lt : s.maxBlockNum < 65536
  image : s.Active → s.state ≠ .error → s.ImageInv img
  failed : s.Active → s.state = .error → s.Held img

theorem RunInv.held (h : s.RunInv img) (hactive : s.Active) : s.Held img := by
  by_cases herror : s.state = .error
  · exact h.failed hactive herror
  · exact (h.image hactive herror).held

theorem RunInv.of_image (hmax : s.maxBlockNum < 65536) (himage : s.Active → s.ImageInv img) :
    s.RunInv img :=
  ⟨hmax, fun hactive _ => himage hactive, fun hactive _ => (himage hactive).held⟩

/-- The session is over. -/
theorem RunInv.of_inactive (h : s.RunInv img) (hmax : t.core.maxBlockNum = s.core.maxBlockNum)
    (hover : ¬ t.Active) : t.RunInv img :=
  .of_image (hmax.trans_lt h.max_lt) fun hactive => absurd hactive hover

/-- What is held does not change with the state. -/
theorem Held.of_core (h : s.Held img) {state : OtaSlaveState} {fwCRC : BitVec 16}
    {maxBlockNum : ℕ} (hcore : t.core =
      { s.core with state := state, maxBlockNum := maxBlockNum, fwCRC := fwCRC }) :
    t.Held img := by
  have haddr : t.flashAddr = s.flashAddr := congrArg SlaveCore.flashAddr hcore
  have hflash : t.flash = s.flash := congrArg SlaveCore.flash hcore
  have htotal : t.totalBinSize = s.totalBinSize := congrArg SlaveCore.totalBinSize hcore
  have hblock : t.blockNum = s.blockNum := congrArg SlaveCore.blockNum hcore
  refine ⟨?_, ?_⟩
  · rw [htotal, hblock]
    exact h.total_eq
  · rw [htotal, hflash, haddr]
    exact h.stored

/-- A move between states that takes no block. -/
theorem RunInv.move (h : s.RunInv img) (hactive : s.Active) {state : OtaSlaveState}
    (hmove : s.state.Moves state)
    (hcore : t.core = { s.core with state := state, maxBlockNum := s.maxBlockNum }) :
    t.RunInv img := by
  have hstate : t.state = state := congrArg SlaveCore.state hcore
  have hmax : t.maxBlockNum = s.maxBlockNum := congrArg SlaveCore.maxBlockNum hcore
  refine ⟨hmax.trans_lt h.max_lt, fun _ hne => ?_,
    fun _ _ => (h.held hactive).of_core (hcore.trans rfl)⟩
  rw [hstate] at hne
  rcases hmove with rfl | rfl | ⟨hidle, rfl⟩ | ⟨hready, rfl⟩
  · have himage := h.image hactive hne
    exact himage.of_core hcore himage.fresh himage.data himage.complete
  · exact absurd rfl hne
  · have himage := h.image hactive (by rw [hidle]; decide)
    exact himage.of_core hcore (fun _ => himage.fresh (.inl hidle)) (fun hdata => by cases hdata)
      fun hend => by simp at hend
  · have himage := h.image hactive (by rw [hready]; decide)
    exact himage.of_core hcore (fun _ => himage.fresh (.inr (.inl hready)))
      (fun hdata => by cases hdata) fun hend => by simp at hend

/-- Behind the check the chip restarts, crashes or goes to the error state. -/
theorem RunInv.verify (h : s.RunInv img) (hactive : s.Active) (pktOk : BitVec 16 → Bool) :
    (s.clearOps.verify pktOk).RunInv img := by
  unfold OtaSlave.verify
  split
  · exact h.of_inactive rfl fun hup => absurd hup.2 (by simp)
  · dsimp only
    split
    · exact h.of_inactive rfl fun hup => absurd hup.2 (by simp [switchBootFlag])
    · exact ⟨h.max_lt, fun _ hne => absurd rfl hne, fun _ _ => (h.held hactive).of_core rfl⟩

/-- A call goes on with the image. -/
theorem runInv_call (h : s.RunInv img) (hactive : s.Active)
    (hok : Faithful img s (.start now msg)) :
    (otaSlaveStart now s.clearOps msg).RunInv img := by
  cases slaveOutcome (s := s.clearOps) now (safeOps_of_nil rfl) msg with
  | keep state hmove hnone hcore hsafe => exact h.move hactive hmove hcore
  | started Data hne hmsg hready hreq hcore hsafe =>
    subst hmsg
    have hready : s.state = .startReady := hready
    have himage := h.image hactive (by rw [hready]; decide)
    have hblocks : bytesToUint16 (s.clearOps.rx Data).rxFrame.payload 1 = img.blocks :=
      (hok hactive).1 hready hreq
    have hmax : (otaSlaveStart now s.clearOps (some (.data Data hne))).maxBlockNum =
        bytesToUint16 (s.clearOps.rx Data).rxFrame.payload 1 :=
      congrArg SlaveCore.maxBlockNum hcore
    refine .of_image (hmax.trans_lt (bytesToUint16_lt _ _)) fun _ => ?_
    refine himage.of_core hcore (fun hfresh => by simp at hfresh) (fun _ => ⟨hblocks, ?_⟩)
      fun hend => by simp at hend
    rw [himage.fresh (.inr (.inr hready))]
    exact img.blocks_pos
  | store Data hne hmsg hstores heq =>
    subst hmsg
    have hdata : s.state = .dataReady := hstores.state
    have himage := h.image hactive (by rw [hdata]; decide)
    have hcarries := (hok hactive).2 (stores_clearOps.mp hstores)
    -- the frame that came in is not part of the image yet
    have hrx : (s.clearOps.rx Data).ImageInv img :=
      himage.of_core rfl himage.fresh himage.data himage.complete
    rw [heq]
    have hloaded : (s.clearOps.rx Data).Loaded (img.block s.blockNum) :=
      ⟨hcarries.loaded.len, hcarries.loaded.data⟩
    refine .of_image ?_ fun _ => hrx.storeBlock hdata h.max_lt hloaded hcarries.takes
    exact (congrArg SlaveCore.maxBlockNum (core_storeBlock _ _)).trans_lt h.max_lt
  | ended hready hcore hsafe =>
    have hready : s.state = .endReady := hready
    have himage := h.image hactive (by rw [hready]; decide)
    have hcore' : (otaSlaveStart now s.clearOps msg).core =
      { s.core with state := .ended, maxBlockNum := s.maxBlockNum } := hcore
    have hmax : (otaSlaveStart now s.clearOps msg).maxBlockNum = s.maxBlockNum :=
      congrArg SlaveCore.maxBlockNum hcore
    refine .of_image (hmax.trans_lt h.max_lt) fun _ => ?_
    exact himage.of_core hcore' (fun hfresh => by simp at hfresh) (fun hdata => by cases hdata)
      fun _ => himage.complete (.inl hready)
  | verify hended heq =>
    rw [heq]
    exact h.verify hactive _
  | erase herror heq =>
    rw [heq]
    exact h.of_inactive rfl fun hup => by cases hup.1

theorem runInv_step (h : s.RunInv img) (hok : Faithful img s e) :
    (otaSlaveStep otaSlaveStart s e).RunInv img := by
  cases e with
  | trigger =>
    rcases step_trigger otaSlaveStart s with heq | heq
    · rwa [heq]
    · rw [heq]
      exact .of_image h.max_lt fun _ => imageInv_init s
  | start now msg =>
    by_cases hactive : s.Active
    · rw [step_active hactive]
      exact runInv_call h hactive hok
    · rwa [step_inactive hactive]

theorem runInv_powerOn (flash : Cells) : (OtaSlave.powerOn flash).RunInv img :=
  .of_image (Nat.zero_lt_succ _) fun hactive => by cases hactive.1

end OtaSlave

end TlBleSdk.Ota
