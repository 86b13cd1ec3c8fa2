import TlBleSdk.Lib.NorFlash
import TlBleSdk.Lib.Run
import TlBleSdk.Hci.TrDef

/-!
# The images of the label in flash

`app_image_storage.c` in the flash build, with the values of `app_config.h`. The first sector
of the partition holds a header with the length of each image, and each image has an entry of
whole sectors behind it. A call is described by the flash operations it makes, so that a power
cut can be put between any two of them.

A write goes through the sectors of the image. It programs the data in place where the cells
are erased and the tail may be lost, and else reads the sector back, erases it and writes it
again.
-/

namespace TlBleSdk.Esl

open NorFlash Hci Machine

/-! ## Layout -/

/-- `APP_IMAGE_STORAGE_SECTOR_SIZE`. -/
def sectorSize : ℕ := 0x1000

/-- `APP_IMAGE_STORAGE_PARTITION_ADDR`. -/
def partitionAddr : ℕ := 0x80000

/-- `APP_IMAGE_STORAGE_MAX_IMAGES`. -/
def maxImages : ℕ := 0x20

/-- `APP_IMAGE_STORAGE_MAX_IMAGE_SIZE`. -/
def maxImageSize : ℕ := 0x1280

/-- `IMAGE_ENTRY_SIZE`. -/
def imageEntrySize : ℕ :=
  if maxImageSize % sectorSize ≠ 0 then (maxImageSize / sectorSize + 1) * sectorSize
  else maxImageSize

/-- `app_image_storage_magic_marker`. -/
def magicMarker : List UInt8 := [0xA5, 0xB5, 0xC4, 0xD3, 0xE2, 0xF1, 0x00, 0x1F]

/-- The address of an image. -/
def imageAddr (imageIdx : ℕ) : ℕ := partitionAddr + sectorSize + imageIdx * imageEntrySize

/-- `PAGE_SIZE` of the flash driver. -/
def pageSize : ℕ := 256

/-- `U32_TO_STREAM`. -/
def u32ToStream (n : ℕ) : List UInt8 :=
  [UInt8.ofNat n, UInt8.ofNat (n / 256), UInt8.ofNat (n / 65536), UInt8.ofNat (n / 16777216)]

theorem imageEntrySize_eq : imageEntrySize = 0x2000 := rfl

theorem bytesToUint32_u32ToStream {n : ℕ} (hn : n < 4294967296) :
    bytesToUint32 (mem (u32ToStream n)) 0 = n := by
  show (UInt8.ofNat n).toNat + (UInt8.ofNat (n / 256)).toNat * 256 +
    (UInt8.ofNat (n / 65536)).toNat * 65536 + (UInt8.ofNat (n / 16777216)).toNat * 16777216 = n
  simp only [UInt8.toNat_ofNat']
  omega

/-! ## The header -/

/-- `app_image_storage_hdr_t` with its entries. -/
structure StorageHdr where
  magic : List UInt8
  numImages : UInt8
  imageMaxSize : List UInt8
  /-- the lengths of the images, in four bytes each -/
  entries : List (List UInt8)

/-- The bytes of the header in flash. -/
def StorageHdr.bytes (hdr : StorageHdr) : List UInt8 :=
  hdr.magic ++ [hdr.numImages] ++ hdr.imageMaxSize ++ hdr.entries.flatten

/-- The header as it is read from flash. -/
def readHdr (c : Cells) : StorageHdr where
  magic := read c partitionAddr 8
  numImages := c (partitionAddr + 8)
  imageMaxSize := read c (partitionAddr + 9) 4
  entries := (List.range maxImages).map fun i => read c (partitionAddr + 13 + 4 * i) 4

/-- The check of the header that `app_image_storage_init` makes. -/
def StorageHdr.Matches (hdr : StorageHdr) : Prop :=
  hdr.magic = magicMarker ∧ hdr.numImages = UInt8.ofNat maxImages ∧
    maxImageSize = bytesToUint32 (mem hdr.imageMaxSize) 0

instance (hdr : StorageHdr) : Decidable hdr.Matches :=
  inferInstanceAs (Decidable (_ ∧ _ ∧ _))

/-- The header that is written where none matches: every image is empty. -/
def freshHdr : StorageHdr where
  magic := magicMarker
  numImages := UInt8.ofNat maxImages
  imageMaxSize := u32ToStream maxImageSize
  entries := List.replicate maxImages (u32ToStream 0)

/-- The static variables. -/
structure StorageRam where
  initialized : Bool
  hdr : StorageHdr

/-- The statics after a reset. -/
def StorageRam.zero : StorageRam := ⟨false, ⟨[], 0, [], []⟩⟩

/-! ## The calls -/

/-- `flash_write_page`: the data in programs that end with their page. -/
def flashWritePage (addr : ℕ) (data : List UInt8) : List Op :=
  if _h : data = [] then []
  else
    let nw := min data.length (pageSize - addr % pageSize)
    .program addr (data.take nw) :: flashWritePage (addr + nw) (data.drop nw)
termination_by data.length
decreasing_by
  have hlen : 0 < data.length := List.length_pos_iff.mpr _h
  have hmod : addr % pageSize < pageSize := Nat.mod_lt _ (by decide)
  rw [List.length_drop]
  omega

/-- `flash_erase_sector`. -/
def flashEraseSector (addr : ℕ) : Op := .erase addr sectorSize

/-- `app_image_storage_init`. -/
def appImageStorageInit (c : Cells) (m : StorageRam) : StorageRam × List Op :=
  if m.initialized then (m, [])
  else if (readHdr c).Matches then (⟨true, readHdr c⟩, [])
  else
    (⟨true, freshHdr⟩,
      flashEraseSector partitionAddr :: flashWritePage partitionAddr freshHdr.bytes)

/-- `app_image_storage_get_max_image_length`. -/
def appImageStorageGetMaxImageLength (m : StorageRam) : ℕ :=
  if m.initialized then bytesToUint32 (mem m.hdr.imageMaxSize) 0 else 0

/-- `app_image_storage_get_image_length`, where it returns true. -/
def appImageStorageGetImageLength (m : StorageRam) (imageIdx : ℕ) : Option ℕ :=
  if !m.initialized || m.hdr.numImages.toNat ≤ imageIdx then none
  else some (bytesToUint32 (mem (m.hdr.entries.getD imageIdx [])) 0)

/-- `app_image_storage_get_image_data`: the bytes it copies to the buffer, as many as it
returns. -/
def appImageStorageGetImageData (c : Cells) (m : StorageRam) (imageIdx offset length : ℕ) :
    List UInt8 :=
  match appImageStorageGetImageLength m imageIdx with
  | none => []
  | some imageLength =>
    if imageLength ≤ offset then []
    else
      read c (u32 (imageAddr imageIdx + offset))
        (if imageLength < u32 (offset + length) then imageLength - offset else length)

/-- `app_image_storage_update_image_info`. -/
def appImageStorageUpdateImageInfo (m : StorageRam) (imageIdx length : ℕ) :
    Bool × StorageRam × List Op :=
  if !m.initialized || m.hdr.numImages.toNat ≤ imageIdx then (false, m, [])
  else if appImageStorageGetMaxImageLength m < length then (false, m, [])
  else
    let hdr := { m.hdr with entries := m.hdr.entries.set imageIdx (u32ToStream length) }
    (true, { m with hdr := hdr },
      flashEraseSector partitionAddr :: flashWritePage partitionAddr hdr.bytes)

/-- `chunk_len`: what is left, but not behind the end of the sector. -/
def chunkLen (offset remaining : ℕ) : ℕ :=
  if remaining < sectorSize - offset % sectorSize then remaining
  else sectorSize - offset % sectorSize

/-- The round of the loop for one sector. -/
def sectorOps (addr : ℕ) (truncate : Bool) (c : Cells) (offset : ℕ) (data : List UInt8) : List Op :=
  let sectorOffset := offset % sectorSize
  let n := chunkLen offset data.length
  let readLen := if truncate then sectorOffset + n else sectorSize
  let sectorStart := u32 (addr + offset / sectorSize * sectorSize)
  let readBack := read c sectorStart readLen
  if !truncate || ((readBack.drop sectorOffset).take n).any (· ≠ 0xFF) then
    flashEraseSector sectorStart :: flashWritePage sectorStart
      (readBack.take sectorOffset ++ data.take n ++ readBack.drop (sectorOffset + n))
  else flashWritePage (u32 (sectorStart + sectorOffset)) (data.take n)

/-- The loop over the sectors. It runs once even where there is no data. -/
def imageWriteLoop (addr : ℕ) (truncate : Bool) (c : Cells) (offset : ℕ) (data : List UInt8) :
    List Op :=
  let n := chunkLen offset data.length
  let ops := sectorOps addr truncate c offset data
  if _h : data.length - n = 0 then ops
  else ops ++ imageWriteLoop addr truncate (applyAll c ops) (u32 (offset + n)) (data.drop n)
termination_by data.length
decreasing_by
  have hmod : offset % sectorSize < sectorSize := Nat.mod_lt _ (by decide)
  have hn : 0 < chunkLen offset data.length := by
    unfold chunkLen
    split <;> omega
  rw [List.length_drop]
  omega

/-- `app_image_storage_image_write`: what it returns, and what it does to the flash. -/
def appImageStorageImageWrite (c : Cells) (m : StorageRam) (imageIdx offset : ℕ)
    (data : List UInt8) (truncate : Bool) : ℕ × List Op :=
  if !m.initialized || m.hdr.numImages.toNat ≤ imageIdx then (0, [])
  else if appImageStorageGetMaxImageLength m < u32 (offset + data.length) then (0, [])
  else (data.length, imageWriteLoop (imageAddr imageIdx) truncate c offset data)

/-! ## Page programs -/

/-- The split at the pages makes no difference to what is programmed. -/
theorem applyAll_flashWritePage (c : Cells) (addr : ℕ) (data : List UInt8) :
    applyAll c (flashWritePage addr data) = program c addr data := by
  fun_induction flashWritePage addr data generalizing c with
  | case1 addr => rw [applyAll_nil, program_nil]
  | case2 addr data _ nw ih =>
    rw [applyAll_cons, ih]
    show program (program c addr (data.take nw)) (addr + nw) (data.drop nw) = _
    have hnw : nw = (data.take nw).length := by
      rw [List.length_take]
      exact (Nat.min_eq_left (Nat.min_le_left _ _)).symm
    conv_lhs => rw [show addr + nw = addr + (data.take nw).length by rw [← hnw]]
    rw [← program_append, List.take_append_drop]

theorem flashWritePage_within (addr : ℕ) (data : List UInt8) :
    ∀ op ∈ flashWritePage addr data, op.Within addr (addr + data.length) := by
  fun_induction flashWritePage addr data with
  | case1 addr => simp
  | case2 addr data _ nw ih =>
    intro op hop
    have hnw : nw ≤ data.length := Nat.min_le_left _ _
    rcases List.mem_cons.mp hop with rfl | hop
    · exact ⟨Nat.le_refl _, by rw [List.length_take]; omega⟩
    · apply (ih op hop).mono (Nat.le_add_right _ _)
      rw [List.length_drop]
      omega

/-- Data in one page are programmed at once. -/
theorem flashWritePage_eq_single {addr : ℕ} {data : List UInt8} (hne : data ≠ [])
    (hpage : addr % pageSize + data.length ≤ pageSize) :
    flashWritePage addr data = [.program addr data] := by
  have hnw : min data.length (pageSize - addr % pageSize) = data.length := by omega
  rw [flashWritePage, dif_neg hne]
  simp only [hnw, List.take_length, List.drop_length]
  rw [flashWritePage, dif_pos rfl]

/-! ## One sector -/

theorem sectorSize_pos : 0 < sectorSize := by decide

theorem chunkLen_le (offset remaining : ℕ) : chunkLen offset remaining ≤ remaining := by
  unfold chunkLen
  split <;> omega

theorem chunkLen_le_sector (offset remaining : ℕ) :
    offset % sectorSize + chunkLen offset remaining ≤ sectorSize := by
  have hmod : offset % sectorSize < sectorSize := Nat.mod_lt _ sectorSize_pos
  unfold chunkLen
  split <;> omega

/-- What `memcpy` makes of the buffer that is read back. -/
theorem getD_splice {l d : List UInt8} {k n i : ℕ} (hd : d.length = n)
    (hfit : k + n ≤ l.length) :
    (l.take k ++ d ++ l.drop (k + n)).getD i 0xFF =
      if k ≤ i ∧ i < k + n then d.getD (i - k) 0xFF else l.getD i 0xFF := by
  subst hd
  have htake : (l.take k).length = k := by
    rw [List.length_take]
    omega
  by_cases hlow : i < k
  · rw [if_neg (by omega), List.append_assoc, List.getD_append _ _ _ _ (by omega)]
    rw [List.getD_eq_getElem _ _ (by omega), List.getD_eq_getElem _ _ (by omega),
      List.getElem_take]
  by_cases hmid : i < k + d.length
  · rw [if_pos ⟨by omega, hmid⟩,
      List.getD_append _ _ _ _ (by rw [List.length_append, htake]; omega),
      List.getD_append_right _ _ _ _ (by omega), htake]
  · rw [if_neg (by omega),
      List.getD_append_right _ _ _ _ (by rw [List.length_append, htake]; omega),
      List.length_append, htake]
    simp only [List.getD_eq_getElem?_getD, List.getElem?_drop]
    congr 2
    omega

/-- A sector that is erased and written reads as the data, and behind them as erased. -/
theorem rewrite_apply (c : Cells) (start : ℕ) (data : List UInt8) {i : ℕ} (hi : i < sectorSize) :
    applyAll c (flashEraseSector start :: flashWritePage start data) (start + i) =
      data.getD i 0xFF := by
  rw [applyAll_cons, applyAll_flashWritePage, program_apply]
  show erase c start sectorSize (start + i) &&& _ = _
  rw [erase_apply c hi, ones_and]

theorem rewrite_within (start : ℕ) {data : List UInt8} (hlen : data.length ≤ sectorSize) :
    ∀ op ∈ flashEraseSector start :: flashWritePage start data,
      op.Within start (start + sectorSize) := by
  intro op hop
  rcases List.mem_cons.mp hop with rfl | hop
  · exact ⟨Nat.le_refl _, Nat.le_refl _⟩
  · exact (flashWritePage_within start data op hop).mono (Nat.le_refl _) (by omega)

/-- From `c` to `c'` the cells from `a` on took `data`. The cells before them are kept, and the
cells behind them where nothing is truncated. -/
structure Stores (c c' : Cells) (truncate : Bool) (a : ℕ) (data : List UInt8) : Prop where
  data_eq : ∀ i < data.length, c' (a + i) = data.getD i 0xFF
  before_eq : ∀ x < a, c' x = c x
  behind_eq : truncate = false → ∀ x, a + data.length ≤ x → c' x = c x

/-- Two writes, one behind the other. -/
theorem Stores.append {c c' c'' : Cells} {truncate : Bool} {a : ℕ} {data data' : List UInt8}
    (h : Stores c c' truncate a data) (h' : Stores c' c'' truncate (a + data.length) data') :
    Stores c c'' truncate a (data ++ data') where
  data_eq i hi := by
    by_cases hlt : i < data.length
    · rw [List.getD_append _ _ _ _ hlt, h'.before_eq _ (by omega), h.data_eq i hlt]
    · rw [List.length_append] at hi
      obtain ⟨j, rfl⟩ : ∃ j, i = data.length + j := ⟨i - data.length, by omega⟩
      rw [List.getD_append_right _ _ _ _ (by omega), Nat.add_sub_cancel_left, ← Nat.add_assoc]
      exact h'.data_eq j (by omega)
  before_eq x hx := by rw [h'.before_eq x (by omega), h.before_eq x hx]
  behind_eq htrunc x hx := by
    rw [List.length_append] at hx
    rw [h'.behind_eq htrunc x (by omega), h.behind_eq htrunc x (by omega)]

section Sector

variable {addr offset : ℕ} {data : List UInt8}

/-- The data of a round. -/
theorem length_take_chunk (offset : ℕ) (data : List UInt8) :
    (data.take (chunkLen offset data.length)).length = chunkLen offset data.length := by
  rw [List.length_take]
  exact Nat.min_eq_left (chunkLen_le _ _)

theorem sector_start_add (addr offset : ℕ) :
    addr + offset / sectorSize * sectorSize + offset % sectorSize = addr + offset := by
  rw [Nat.add_assoc, Nat.div_add_mod']

/-- The sector is erased and written again with the data in their place. -/
theorem stores_of_rewrite (c : Cells) (truncate : Bool) {start so n readLen : ℕ}
    {buf : List UInt8} (hn : data.length = n)
    (hbuf : buf = (read c start readLen).take so ++ data ++ (read c start readLen).drop (so + n))
    (hfit : so + n ≤ readLen) (hread : readLen ≤ sectorSize)
    (hkeep : truncate = false → readLen = sectorSize) :
    Stores c (applyAll c (flashEraseSector start :: flashWritePage start buf)) truncate
      (start + so) data := by
  have hlen : buf.length = readLen := by
    rw [hbuf]
    simp only [List.length_append, List.length_take, List.length_drop, length_read]
    omega
  have hout := rewrite_within start (hlen ▸ hread : buf.length ≤ sectorSize)
  have hcell : ∀ i < sectorSize, applyAll c (flashEraseSector start :: flashWritePage start buf)
      (start + i) = if so ≤ i ∧ i < so + n then data.getD (i - so) 0xFF
        else (read c start readLen).getD i 0xFF := by
    intro i hi
    rw [rewrite_apply c start buf hi, hbuf]
    exact getD_splice hn (by rw [length_read]; omega)
  refine ⟨fun i hi => ?_, fun x hx => ?_, fun htrunc x hx => ?_⟩
  · rw [Nat.add_assoc, hcell _ (by omega), if_pos ⟨by omega, by omega⟩, Nat.add_sub_cancel_left]
  · -- what stands before the data in the sector was read back
    by_cases hlow : x < start
    · exact applyAll_of_within hout (.inl hlow) c
    · obtain ⟨i, rfl⟩ : ∃ i, x = start + i := ⟨x - start, by omega⟩
      rw [hcell _ (by omega), if_neg (by omega), getD_read c start (by omega)]
  · -- and what stands behind them, where the whole sector was read
    have hfull := hkeep htrunc
    by_cases hhigh : start + sectorSize ≤ x
    · exact applyAll_of_within hout (.inr hhigh) c
    · obtain ⟨i, rfl⟩ : ∃ i, x = start + i := ⟨x - start, by omega⟩
      rw [hcell _ (by omega), if_neg (by omega), getD_read c start (by omega)]

/-- Over erased cells the data are programmed in place. -/
theorem stores_of_program (c : Cells) (truncate : Bool) {a : ℕ}
    (herased : Erased c a data.length) :
    Stores c (applyAll c (flashWritePage a data)) truncate a data := by
  rw [applyAll_flashWritePage]
  refine ⟨fun i hi => ?_, fun x hx => ?_, fun _ x hx => ?_⟩
  · rw [program_apply, herased i hi, ones_and]
  · exact program_of_disjoint c (.inl hx)
  · exact program_of_disjoint c (.inr hx)

/-- A round of the loop stores its part of the data. -/
theorem sectorOps_stores (c : Cells) (truncate : Bool) (hnowrap : addr + offset < 4294967296) :
    Stores c (applyAll c (sectorOps addr truncate c offset data)) truncate (addr + offset)
      (data.take (chunkLen offset data.length)) := by
  have hstart := sector_start_add addr offset
  have hsector := chunkLen_le_sector offset data.length
  have hn := length_take_chunk offset data
  have hlow : offset % sectorSize + chunkLen offset data.length ≤
      if truncate = true then offset % sectorSize + chunkLen offset data.length
      else sectorSize := by
    split <;> omega
  have hhigh : (if truncate = true then offset % sectorSize + chunkLen offset data.length
      else sectorSize) ≤ sectorSize := by
    split <;> omega
  have hkeep : truncate = false → (if truncate = true then
      offset % sectorSize + chunkLen offset data.length else sectorSize) = sectorSize :=
    fun htrunc => if_neg (by rw [htrunc]; exact Bool.false_ne_true)
  unfold sectorOps
  dsimp only
  rw [u32_of_lt (by omega), u32_of_lt (by omega), hstart]
  generalize (if truncate = true then offset % sectorSize + chunkLen offset data.length
    else sectorSize) = readLen at hlow hhigh hkeep ⊢
  split
  · rw [← hstart]
    exact stores_of_rewrite c truncate hn rfl hlow hhigh hkeep
  · -- nothing to keep behind the data, and their cells are all erased
    rename_i herased
    simp only [Bool.or_eq_true, Bool.not_eq_true', not_or, Bool.not_eq_false, List.any_eq_true,
      not_exists, not_and, decide_eq_true_eq, not_not] at herased
    obtain ⟨htrunc, hall⟩ := herased
    apply stores_of_program
    intro i hi
    rw [hn] at hi
    apply hall
    rw [← hstart, List.mem_iff_getElem]
    refine ⟨i, ?_, ?_⟩
    · simp only [List.length_take, List.length_drop, length_read]
      omega
    · simp only [List.getElem_take, List.getElem_drop, getElem_read, Nat.add_assoc]

theorem sectorOps_within (c : Cells) (truncate : Bool) (hnowrap : addr + offset < 4294967296) :
    ∀ op ∈ sectorOps addr truncate c offset data,
      op.Within (addr + offset / sectorSize * sectorSize)
        (addr + offset / sectorSize * sectorSize + sectorSize) := by
  have hstart := sector_start_add addr offset
  have hsector := chunkLen_le_sector offset data.length
  have hn := length_take_chunk offset data
  have hhigh : (if truncate = true then offset % sectorSize + chunkLen offset data.length
      else sectorSize) ≤ sectorSize := by
    split <;> omega
  unfold sectorOps
  dsimp only
  rw [u32_of_lt (by omega), u32_of_lt (by omega), hstart]
  generalize (if truncate = true then offset % sectorSize + chunkLen offset data.length
    else sectorSize) = readLen at hhigh ⊢
  split
  · apply rewrite_within
    simp only [List.length_append, List.length_drop, length_read, hn]
    rw [List.length_take, length_read]
    omega
  · intro op hop
    apply (flashWritePage_within _ _ op hop).mono
    · omega
    · rw [hn]
      omega

/-! ## The loop -/

/-- The data that are left behind a round. -/
theorem length_drop_chunk (offset : ℕ) (data : List UInt8) :
    (data.drop (chunkLen offset data.length)).length + chunkLen offset data.length =
      data.length := by
  have hle := chunkLen_le offset data.length
  rw [List.length_drop]
  omega

/-- The loop stores all of the data. -/
theorem imageWriteLoop_stores (c : Cells) (truncate : Bool)
    (hnowrap : addr + offset + data.length < 4294967296) :
    Stores c (applyAll c (imageWriteLoop addr truncate c offset data)) truncate (addr + offset)
      data := by
  fun_induction imageWriteLoop addr truncate c offset data with
  | case1 c offset data n ops hdone =>
    have hround := @sectorOps_stores addr offset data c truncate (by omega)
    rwa [List.take_of_length_le (show data.length ≤ chunkLen offset data.length by omega)] at hround
  | case2 c offset data n ops hleft ih =>
    have hround := @sectorOps_stores addr offset data c truncate (by omega)
    have hlen : (data.drop n).length + n = data.length := length_drop_chunk offset data
    rw [u32_of_lt (show offset + n < 4294967296 by omega)] at ih ⊢
    rw [applyAll_append]
    have hrest := ih (by omega)
    rw [← Nat.add_assoc] at hrest
    have hall := hround.append (by rw [length_take_chunk]; exact hrest)
    rwa [List.take_append_drop] at hall

/-- The loop stays in the sectors up to the one of the last byte. -/
theorem imageWriteLoop_within (c : Cells) (truncate : Bool)
    (hnowrap : addr + offset + data.length < 4294967296) :
    ∀ op ∈ imageWriteLoop addr truncate c offset data,
      op.Within addr (addr + (offset + data.length) / sectorSize * sectorSize + sectorSize) := by
  fun_induction imageWriteLoop addr truncate c offset data with
  | case1 c offset data n ops hdone =>
    intro op hop
    have hdiv : offset / sectorSize ≤ (offset + data.length) / sectorSize :=
      Nat.div_le_div_right (Nat.le_add_right _ _)
    have hmul := Nat.mul_le_mul_right sectorSize hdiv
    exact (sectorOps_within c truncate (by omega) op hop).mono (by omega) (by omega)
  | case2 c offset data n ops hleft ih =>
    intro op hop
    have hlen : (data.drop n).length + n = data.length := length_drop_chunk offset data
    rw [u32_of_lt (show offset + n < 4294967296 by omega)] at ih hop
    rcases List.mem_append.mp hop with hop | hop
    · have hdiv : offset / sectorSize ≤ (offset + data.length) / sectorSize :=
        Nat.div_le_div_right (Nat.le_add_right _ _)
      have hmul := Nat.mul_le_mul_right sectorSize hdiv
      exact (sectorOps_within c truncate (by omega) op hop).mono (by omega) (by omega)
    · have hrest := ih (by omega) op hop
      rwa [show offset + n + (data.drop n).length = offset + data.length by omega] at hrest

end Sector

/-! ## Runs -/

/-- The statics and the flash. -/
structure ImageStorage where
  ram : StorageRam
  flash : Cells

/-- A call of the application. -/
inductive StorageCall
  | init
  | imageWrite (imageIdx offset : ℕ) (data : List UInt8) (truncate : Bool)
  | updateImageInfo (imageIdx length : ℕ)

namespace ImageStorage

/-- The flash operations of a call. -/
def ops (s : ImageStorage) : StorageCall → List Op
  | .init => (appImageStorageInit s.flash s.ram).2
  | .imageWrite imageIdx offset data truncate =>
    (appImageStorageImageWrite s.flash s.ram imageIdx offset data truncate).2
  | .updateImageInfo imageIdx length => (appImageStorageUpdateImageInfo s.ram imageIdx length).2.2

/-- The statics behind a call. -/
def ramAfter (s : ImageStorage) : StorageCall → StorageRam
  | .init => (appImageStorageInit s.flash s.ram).1
  | .imageWrite .. => s.ram
  | .updateImageInfo imageIdx length => (appImageStorageUpdateImageInfo s.ram imageIdx length).2.1

/-- The state behind a complete call. -/
def call (s : ImageStorage) (c : StorageCall) : ImageStorage :=
  ⟨s.ramAfter c, applyAll s.flash (s.ops c)⟩

/-- The power is cut behind `cut` flash operations of the call, and comes back. -/
def powerCut (s : ImageStorage) (c : StorageCall) (cut : ℕ) : ImageStorage :=
  ⟨.zero, applyAll s.flash ((s.ops c).take cut)⟩

end ImageStorage

/-- A call that is complete, or one in which the power is cut. -/
inductive StorageEvent
  | complete (c : StorageCall)
  | cut (c : StorageCall) (cut : ℕ)

def storageStep (s : ImageStorage) : StorageEvent → ImageStorage
  | .complete c => s.call c
  | .cut c cut => s.powerCut c cut

/-- The label starts with some flash. -/
def ImageStorage.powerOn (flash : Cells) : ImageStorage := ⟨.zero, flash⟩

/-- A header that matches, with an entry for each image. -/
structure StorageHdr.Ok (hdr : StorageHdr) : Prop where
  matches_eq : hdr.Matches
  length_max : hdr.imageMaxSize.length = 4
  length_entries : hdr.entries.length = maxImages
  length_entry : ∀ e ∈ hdr.entries, e.length = 4

/-- An initialised storage has a header that matches. -/
def StorageRam.Ok (m : StorageRam) : Prop := m.initialized = true → m.hdr.Ok

theorem freshHdr_ok : freshHdr.Ok where
  matches_eq := by decide
  length_max := rfl
  length_entries := rfl
  length_entry e he := by
    rw [List.eq_of_mem_replicate he]
    rfl

theorem readHdr_ok {c : Cells} (h : (readHdr c).Matches) : (readHdr c).Ok where
  matches_eq := h
  length_max := length_read _ _ _
  length_entries := by rw [readHdr, List.length_map, List.length_range]
  length_entry e he := by
    obtain ⟨i, _, rfl⟩ := List.mem_map.mp he
    exact length_read _ _ _

theorem StorageHdr.Ok.set {hdr : StorageHdr} (h : hdr.Ok) (imageIdx length : ℕ) :
    StorageHdr.Ok { hdr with entries := hdr.entries.set imageIdx (u32ToStream length) } where
  matches_eq := h.matches_eq
  length_max := h.length_max
  length_entries := by rw [List.length_set, h.length_entries]
  length_entry e he := by
    rcases List.mem_or_eq_of_mem_set he with he | rfl
    · exact h.length_entry e he
    · rfl

theorem StorageHdr.Ok.numImages_eq {hdr : StorageHdr} (h : hdr.Ok) :
    hdr.numImages.toNat = maxImages := by
  rw [h.matches_eq.2.1]
  rfl

theorem StorageHdr.Ok.maxLength_eq {hdr : StorageHdr} (h : hdr.Ok) :
    appImageStorageGetMaxImageLength ⟨true, hdr⟩ = maxImageSize := h.matches_eq.2.2.symm

/-- The three outcomes of `app_image_storage_init`. -/
theorem init_cases (c : Cells) (m : StorageRam) :
    (m.initialized = true ∧ appImageStorageInit c m = (m, [])) ∨
      (m.initialized = false ∧ (readHdr c).Matches ∧
        appImageStorageInit c m = (⟨true, readHdr c⟩, [])) ∨
      (m.initialized = false ∧ ¬(readHdr c).Matches ∧ appImageStorageInit c m =
        (⟨true, freshHdr⟩,
          flashEraseSector partitionAddr :: flashWritePage partitionAddr freshHdr.bytes)) := by
  unfold appImageStorageInit
  cases hinit : m.initialized with
  | true => exact .inl ⟨rfl, if_pos rfl⟩
  | false =>
    rw [if_neg Bool.false_ne_true]
    by_cases hmatch : (readHdr c).Matches
    · exact .inr (.inl ⟨rfl, hmatch, if_pos hmatch⟩)
    · exact .inr (.inr ⟨rfl, hmatch, if_neg hmatch⟩)

/-- The two outcomes of `app_image_storage_update_image_info`. -/
theorem updateImageInfo_cases {m : StorageRam} (hm : m.Ok) (imageIdx length : ℕ) :
    (appImageStorageUpdateImageInfo m imageIdx length = (false, m, []) ∧
        ¬(m.initialized = true ∧ imageIdx < maxImages ∧ length ≤ maxImageSize)) ∨
      (m.initialized = true ∧ imageIdx < maxImages ∧ length ≤ maxImageSize ∧
        appImageStorageUpdateImageInfo m imageIdx length =
          (true, ⟨true, { m.hdr with entries := m.hdr.entries.set imageIdx (u32ToStream length) }⟩,
            flashEraseSector partitionAddr :: flashWritePage partitionAddr { m.hdr with
              entries := m.hdr.entries.set imageIdx (u32ToStream length) }.bytes)) := by
  obtain ⟨initialized, hdr⟩ := m
  cases initialized with
  | false => exact .inl ⟨rfl, fun h => Bool.false_ne_true h.1⟩
  | true =>
    have hok : hdr.Ok := hm rfl
    unfold appImageStorageUpdateImageInfo
    simp only [Bool.not_true, Bool.false_or, decide_eq_true_eq, hok.numImages_eq, hok.maxLength_eq]
    by_cases hidx : maxImages ≤ imageIdx
    · exact .inl ⟨if_pos hidx, fun h => by omega⟩
    rw [if_neg hidx]
    by_cases hlen : maxImageSize < length
    · exact .inl ⟨if_pos hlen, fun h => by omega⟩
    · exact .inr ⟨trivial, by omega, by omega, if_neg hlen⟩

/-- A write that fits runs the loop. -/
theorem imageWrite_eq {c : Cells} {m : StorageRam} (hm : m.Ok) (hinit : m.initialized = true)
    {imageIdx offset : ℕ} {data : List UInt8} (truncate : Bool) (hidx : imageIdx < maxImages)
    (hfit : offset + data.length ≤ maxImageSize) :
    appImageStorageImageWrite c m imageIdx offset data truncate =
      (data.length, imageWriteLoop (imageAddr imageIdx) truncate c offset data) := by
  obtain ⟨initialized, hdr⟩ := m
  cases hinit
  have hok : hdr.Ok := hm rfl
  have hmax : maxImageSize = 4736 := rfl
  unfold appImageStorageImageWrite
  simp only [Bool.not_true, Bool.false_or, decide_eq_true_eq, hok.numImages_eq, hok.maxLength_eq]
  rw [if_neg (by omega), u32_of_lt (by omega), if_neg (by omega)]

/-- Any other write that does not wrap is refused. -/
theorem imageWrite_refused {m : StorageRam} (hm : m.Ok) (c : Cells) {imageIdx offset : ℕ}
    {data : List UInt8} (truncate : Bool) (hwrap : offset + data.length < 4294967296)
    (hfit : ¬(m.initialized = true ∧ imageIdx < maxImages ∧ offset + data.length ≤ maxImageSize)) :
    appImageStorageImageWrite c m imageIdx offset data truncate = (0, []) := by
  obtain ⟨initialized, hdr⟩ := m
  cases initialized with
  | false => rfl
  | true =>
    have hok : hdr.Ok := hm rfl
    unfold appImageStorageImageWrite
    simp only [Bool.not_true, Bool.false_or, decide_eq_true_eq, hok.numImages_eq, hok.maxLength_eq]
    by_cases hidx : maxImages ≤ imageIdx
    · exact if_pos hidx
    rw [if_neg hidx, u32_of_lt hwrap]
    apply if_pos
    by_contra hlen
    exact hfit ⟨rfl, by omega, by omega⟩

theorem init_initialized (c : Cells) (m : StorageRam) :
    (appImageStorageInit c m).1.initialized = true := by
  rcases init_cases c m with ⟨hinit, heq⟩ | ⟨_, _, heq⟩ | ⟨_, _, heq⟩ <;> rw [heq]
  exact hinit

/-- Every call leaves a header that matches. -/
theorem ramAfter_ok {s : ImageStorage} (h : s.ram.Ok) (c : StorageCall) : (s.ramAfter c).Ok := by
  cases c with
  | init =>
    show (appImageStorageInit s.flash s.ram).1.Ok
    rcases init_cases s.flash s.ram with ⟨_, heq⟩ | ⟨_, hmatch, heq⟩ | ⟨_, _, heq⟩ <;> rw [heq]
    · exact h
    · exact fun _ => readHdr_ok hmatch
    · exact fun _ => freshHdr_ok
  | imageWrite => exact h
  | updateImageInfo imageIdx length =>
    show (appImageStorageUpdateImageInfo s.ram imageIdx length).2.1.Ok
    rcases updateImageInfo_cases h imageIdx length with ⟨heq, _⟩ | ⟨hinit, _, _, heq⟩ <;> rw [heq]
    · exact h
    · exact fun _ => (h hinit).set imageIdx length

theorem zero_ok : StorageRam.zero.Ok := fun h => absurd h Bool.false_ne_true

theorem run_ram_ok (flash : Cells) (evs : List StorageEvent) :
    (run storageStep (.powerOn flash) evs).ram.Ok := by
  have hstep : ∀ (s : ImageStorage) (ev : StorageEvent), s.ram.Ok → True →
      (storageStep s ev).ram.Ok := by
    intro s ev hs _
    cases ev with
    | complete c => exact ramAfter_ok hs c
    | cut c cut => exact zero_ok
  exact run_invariant hstep zero_ok (along_true _ evs)

/-! ## The write law -/

/-- The entries of two images have no address in common. -/
theorem imageAddr_apart {i j : ℕ} (h : i ≠ j) :
    imageAddr i + imageEntrySize ≤ imageAddr j ∨ imageAddr j + imageEntrySize ≤ imageAddr i := by
  simp only [imageAddr, imageEntrySize_eq]
  omega

/-- A write that fits stays in the entry of its image. -/
theorem imageWriteLoop_entry (c : Cells) (truncate : Bool) {imageIdx offset : ℕ}
    {data : List UInt8} (hidx : imageIdx < maxImages)
    (hfit : offset + data.length ≤ maxImageSize) :
    ∀ op ∈ imageWriteLoop (imageAddr imageIdx) truncate c offset data,
      op.Within (imageAddr imageIdx) (imageAddr imageIdx + imageEntrySize) := by
  intro op hop
  have haddr : imageAddr imageIdx ≤ 0x200000 := by
    simp only [imageAddr, imageEntrySize_eq, maxImages, partitionAddr, sectorSize] at hidx ⊢
    omega
  simp only [maxImageSize] at hfit
  apply (imageWriteLoop_within c truncate (by omega) op hop).mono (Nat.le_refl _)
  simp only [imageEntrySize_eq, sectorSize]
  omega

/-- In an initialised storage, whatever happened to it before and whatever the flash holds, a
write that fits returns its length and puts the data in their place. It changes no byte of the
image before them, none behind them unless it truncates, and none of the header or of another
image. -/
theorem image_write_law (flash : Cells) (evs : List StorageEvent) (imageIdx offset : ℕ)
    (data : List UInt8) (truncate : Bool) (hidx : imageIdx < maxImages)
    (hfit : offset + data.length ≤ maxImageSize) :
    let s := (run storageStep (.powerOn flash) evs).call .init
    let w := appImageStorageImageWrite s.flash s.ram imageIdx offset data truncate
    let flash' := applyAll s.flash w.2
    w.1 = data.length ∧
      read flash' (imageAddr imageIdx + offset) data.length = data ∧
      (∀ a < offset, flash' (imageAddr imageIdx + a) = s.flash (imageAddr imageIdx + a)) ∧
      (truncate = false → ∀ a, offset + data.length ≤ a →
        flash' (imageAddr imageIdx + a) = s.flash (imageAddr imageIdx + a)) ∧
      (∀ a < sectorSize, flash' (partitionAddr + a) = s.flash (partitionAddr + a)) ∧
      ∀ j, j ≠ imageIdx → ∀ a < imageEntrySize,
        flash' (imageAddr j + a) = s.flash (imageAddr j + a) := by
  intro s w flash'
  have hok : s.ram.Ok := ramAfter_ok (run_ram_ok flash evs) .init
  have hinit : s.ram.initialized = true := init_initialized _ _
  have hw : w = (data.length, imageWriteLoop (imageAddr imageIdx) truncate s.flash offset data) :=
    imageWrite_eq hok hinit truncate hidx hfit
  have hflash : flash' =
      applyAll s.flash (imageWriteLoop (imageAddr imageIdx) truncate s.flash offset data) := by
    show applyAll s.flash w.2 = _
    rw [hw]
  have haddr : imageAddr imageIdx + offset + data.length < 4294967296 := by
    simp only [imageAddr, imageEntrySize_eq, maxImages, maxImageSize, partitionAddr,
      sectorSize] at hidx hfit ⊢
    omega
  have hstores := imageWriteLoop_stores s.flash truncate haddr
  have hentry := imageWriteLoop_entry s.flash truncate hidx hfit
  rw [hflash]
  refine ⟨by rw [hw], ?_, fun a ha => ?_, fun htrunc a ha => ?_, fun a ha => ?_,
    fun j hj a ha => ?_⟩
  · apply List.ext_getElem (length_read _ _ _)
    intro i hi hi'
    rw [getElem_read, hstores.data_eq i hi', List.getD_eq_getElem _ _ hi']
  · exact hstores.before_eq _ (by omega)
  · exact hstores.behind_eq htrunc _ (by omega)
  · -- the header is in front of all entries
    apply applyAll_of_within hentry (.inl _)
    simp only [imageAddr]
    omega
  · rcases imageAddr_apart hj with hlow | hhigh
    · exact applyAll_of_within hentry (.inl (by omega)) _
    · exact applyAll_of_within hentry (.inr (by omega)) _

/-- A truncating write over two sectors of an image. -/
theorem image_write_law_two_sectors :
    read (applyAll ((ImageStorage.powerOn fun _ => 0).call .init).flash
      (appImageStorageImageWrite ((ImageStorage.powerOn fun _ => 0).call .init).flash
        ((ImageStorage.powerOn fun _ => 0).call .init).ram 3 4094 [1, 2, 3, 4] true).2)
      (imageAddr 3 + 4094) 4 = [1, 2, 3, 4] :=
  (image_write_law (fun _ => 0) [] 3 4094 [1, 2, 3, 4] true (by decide) (by decide)).2.1

end TlBleSdk.Esl
