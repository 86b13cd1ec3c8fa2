import TlBleSdk.Lib.Checked
import TlBleSdk.Lib.Crc
import TlBleSdk.Lib.NorFlash

/-!
# Firmware check

`flash_fw_check` of `vendor/common/flash_fw_check.c`. The image is read in pages of 256 bytes, and
what is left behind them without the four bytes of the check sum. Each byte is split into two
halves, which go through a CRC-32 with a table of 16 words. The accesses to the two arrays on the
stack are checked.
-/

namespace TlBleSdk.Ota

/-- An access outside an array. -/
inductive FwFault
  | fwTmpdata
  | otaDat
  | fwCrc32HalfTbl

/-- `FW_READ_SIZE`. -/
def fwReadSize : ℕ := 256

/-- `fw_crc32_half_tbl`. -/
def fwCrc32HalfTbl : Vector (BitVec 32) 16 :=
  #v[0x00000000, 0x1db71064, 0x3b6e20c8, 0x26d930ac, 0x76dc4190, 0x6b6b51f4, 0x4db26158, 0x5005713c,
    0xedb88320, 0xf00f9344, 0xd6d6a3e8, 0xcb61b38c, 0x9b64c2b0, 0x86d3d2d4, 0xa00ae278, 0xbdbdf21c]

/-- `fw_tmpdata`, `ota_dat` and `fw_crc_init`. -/
structure FwState where
  fwTmpdata : Vector UInt8 fwReadSize
  otaDat : Vector UInt8 (fwReadSize * 2)
  fwCrcInit : BitVec 32

/-- `flash_read_page` to `fw_tmpdata`. -/
def flashReadPage (flash : NorFlash.Cells) (addr len : ℕ) (buf : Vector UInt8 fwReadSize) :
    Except FwFault (Vector UInt8 fwReadSize) :=
  if len ≤ fwReadSize then
    .ok (Vector.ofFn fun i => if i.1 < len then flash (addr + i.1) else buf[i])
  else .error .fwTmpdata

/-- A word that is read from the flash. -/
def flashWord (flash : NorFlash.Cells) (addr : ℕ) : BitVec 32 :=
  (flash (addr + 3)).toBitVec ++ (flash (addr + 2)).toBitVec ++ (flash (addr + 1)).toBitVec ++
    (flash addr).toBitVec

/-- The loop that splits the bytes of `fw_tmpdata`. -/
def splitBytes (count : ℕ) (fwTmpdata : Vector UInt8 fwReadSize)
    (otaDat : Vector UInt8 (fwReadSize * 2)) : Except FwFault (Vector UInt8 (fwReadSize * 2)) :=
  (List.range count).foldlM (fun otaDat j => do
    let b ← Checked.get .fwTmpdata fwTmpdata j
    let otaDat ← Checked.set .otaDat otaDat (j * 2) (b &&& 0x0F)
    Checked.set .otaDat otaDat (j * 2 + 1) (b >>> 4)) otaDat

/-- The CRC of an entry of the input. -/
def crc32Half (input : Vector UInt8 (fwReadSize * 2)) (crc : BitVec 32) (i : ℕ) :
    Except FwFault (BitVec 32) := do
  let b ← Checked.get .otaDat input i
  let t ← Checked.get .fwCrc32HalfTbl fwCrc32HalfTbl
    ((crc ^^^ b.toBitVec.setWidth 32) &&& 0xF).toNat
  return t ^^^ crc >>> 4

/-- `crc32_half_cal`, the CRC with a table for the halves of the bytes. -/
def crc32HalfCal (crc : BitVec 32) (input : Vector UInt8 (fwReadSize * 2)) (len : ℕ) :
    Except FwFault (BitVec 32) :=
  (List.range len).foldlM (crc32Half input) crc

/-- A read of `len` bytes, of which `count` go through the CRC. -/
def FwState.hash (s : FwState) (flash : NorFlash.Cells) (addr len count : ℕ) :
    Except FwFault FwState := do
  let fwTmpdata ← flashReadPage flash addr len s.fwTmpdata
  let otaDat ← splitBytes count fwTmpdata s.otaDat
  let fwCrcInit ← crc32HalfCal s.fwCrcInit otaDat (count * 2)
  return ⟨fwTmpdata, otaDat, fwCrcInit⟩

/-- The turn `i` of the loop over the pages. -/
def fwPage (flash : NorFlash.Cells) (fwFlashAddr : ℕ) (s : FwState) (i : ℕ) :
    Except FwFault FwState :=
  s.hash flash ((fwFlashAddr + i * fwReadSize) % 2 ^ 32) fwReadSize fwReadSize

/-- `fw_crc_init` at the start: 0 stands for all ones. -/
def fwCrcInit (crcInitValue : BitVec 32) : BitVec 32 :=
  if crcInitValue = 0 then 0xFFFFFFFF else crcInitValue

/-- `fw_size`. -/
def fwSize (flash : NorFlash.Cells) (fwFlashAddr : ℕ) : ℕ :=
  (flashWord flash ((fwFlashAddr + 0x18) % 2 ^ 32)).toNat

/-- `flash_fw_check` of the firmware at `fwFlashAddr`. The arrays have any content at the start. -/
def flashFwCheck (flash : NorFlash.Cells) (fwFlashAddr : ℕ) (fwTmpdata : Vector UInt8 fwReadSize)
    (otaDat : Vector UInt8 (fwReadSize * 2)) (crcInitValue : BitVec 32) :
    Except FwFault Bool := do
  let fwSize := fwSize flash fwFlashAddr
  let fwBlock := fwSize / fwReadSize % 2 ^ 16
  let fwRemainSizeByte := fwSize % fwReadSize
  let s ← (List.range fwBlock).foldlM (fwPage flash fwFlashAddr)
    ⟨fwTmpdata, otaDat, fwCrcInit crcInitValue⟩
  let s ←
    if fwRemainSizeByte ≠ 4 then
      -- the length is unsigned in the call, and signed in the loop
      s.hash flash ((fwFlashAddr + fwSize - fwRemainSizeByte) % 2 ^ 32)
        ((fwRemainSizeByte + 2 ^ 32 - 4) % 2 ^ 32) (fwRemainSizeByte - 4)
    else pure s
  let fwCheckValue := flashWord flash ((fwFlashAddr + fwSize + 2 ^ 32 - 4) % 2 ^ 32)
  return decide (fwCheckValue ≠ s.fwCrcInit)

/-! ## The check sum -/

/-- `CRC-32`. -/
def crc32 : BitVec 32 → List UInt8 → BitVec 32 := Crc.crc 0xEDB88320#32

/-- The halves of a byte. -/
def halves (b : UInt8) : List UInt8 := [b &&& 0x0F, b >>> 4]

/-- The step of a half. -/
def halfStep (crc : BitVec 32) (b : UInt8) : BitVec 32 :=
  (Crc.bit 0xEDB88320#32)^[4] (crc ^^^ b.toBitVec.setWidth 32)

theorem halves_lt {b h : UInt8} (hh : h ∈ halves b) : h.toNat < 16 := by
  rcases List.mem_pair.mp hh with rfl | rfl
  · rw [UInt8.toNat_and]
    exact Nat.lt_of_le_of_lt Nat.and_le_right (by decide)
  · have hlt := b.toNat_lt
    rw [UInt8.toNat_shiftRight]
    show b.toNat >>> 4 < 16
    rw [Nat.shiftRight_eq_div_pow]
    omega

/-- The halves go through the check sum as the bytes do. -/
theorem foldl_halfStep (crc : BitVec 32) (l : List UInt8) :
    (l.flatMap halves).foldl halfStep crc = crc32 crc l := by
  induction l generalizing crc with
  | nil => rfl
  | cons b l ih =>
    have hbyte := Crc.byte_eq_nibbles 0xEDB88320#32 crc (by omega) b
    rw [List.flatMap_cons, List.foldl_append, ih]
    show crc32 _ l = crc32 (Crc.byte 0xEDB88320#32 crc b) l
    rw [hbyte]
    rfl

/-- The table has the four bit steps of each half. -/
theorem getElem_fwCrc32HalfTbl (k : BitVec 4) :
    fwCrc32HalfTbl[k.toNat]? = some ((Crc.bit 0xEDB88320#32)^[4] (k.setWidth 32)) := by
  revert k
  decide

/-- A step with the table. -/
theorem halfStep_eq (crc : BitVec 32) {b : UInt8} (hb : b.toNat < 16) :
    ∃ t, fwCrc32HalfTbl[((crc ^^^ b.toBitVec.setWidth 32) &&& 0xF).toNat]? = some t ∧
      t ^^^ crc >>> 4 = halfStep crc b := by
  have hindex : ((crc ^^^ b.toBitVec.setWidth 32) &&& 0xF).toNat =
      ((crc ^^^ b.toBitVec.setWidth 32).setWidth 4).toNat := by
    rw [BitVec.toNat_and, BitVec.toNat_setWidth]
    exact Nat.and_two_pow_sub_one_eq_mod _ 4
  have hshift : (crc ^^^ b.toBitVec.setWidth 32) >>> 4 = crc >>> 4 := by
    have hzero : b.toBitVec.setWidth 32 >>> 4 = 0#32 := by
      apply BitVec.eq_of_toNat_eq
      simp only [BitVec.toNat_ushiftRight, BitVec.toNat_setWidth, UInt8.toNat_toBitVec,
        Nat.shiftRight_eq_div_pow, BitVec.toNat_ofNat]
      omega
    rw [BitVec.ushiftRight_xor_distrib, hzero, BitVec.xor_zero]
  have hentry := (congrArg (fun i => fwCrc32HalfTbl[i]?) hindex).trans (getElem_fwCrc32HalfTbl _)
  refine ⟨_, hentry, ?_⟩
  rw [halfStep, Crc.iterate_bit_split _ (crc ^^^ b.toBitVec.setWidth 32), hshift]

/-! ## The loops -/

theorem get_ok {α : Type} {n : ℕ} {f : FwFault} {v : Vector α n} {i : ℕ} {a : α}
    (h : v[i]? = some a) : Checked.get f v i = .ok a := by
  obtain ⟨hi, ha⟩ := Vector.getElem?_eq_some_iff.mp h
  exact Checked.get_eq_ok.mpr ⟨hi, ha⟩

/-- Two entries behind those that are done. -/
theorem take_set_set {α : Type} (l : List α) {i : ℕ} (h : i + 1 < l.length) (a b : α) :
    ((l.set i a).set (i + 1) b).take (i + 2) = l.take i ++ [a, b] := by
  apply List.ext_getElem?
  intro k
  rw [List.getElem?_take, List.getElem?_append, List.length_take]
  have hmin : min i l.length = i := by omega
  rw [hmin]
  rcases lt_trichotomy k i with hlt | rfl | hgt
  · have h1 : k < i + 2 := by omega
    have h2 : i + 1 ≠ k := by omega
    have h3 : i ≠ k := by omega
    simp [h1, h2, h3, hlt]
  · have h2 : k < l.length := by omega
    simp [h2]
  · rcases Nat.eq_or_lt_of_le hgt with rfl | hgt
    · simp [h]
    · have h1 : ¬ k < i + 2 := by omega
      have h2 : ¬ k < i := by omega
      have h3 : ¬ k - i < 2 := by omega
      simp [h1, h2, h3]

/-- The loop over `count` bytes leaves their halves at the start of `ota_dat`. -/
theorem splitBytes_eq {count : ℕ} (hcount : count ≤ fwReadSize)
    (fwTmpdata : Vector UInt8 fwReadSize) (otaDat : Vector UInt8 (fwReadSize * 2)) :
    ∃ otaDat', splitBytes count fwTmpdata otaDat = .ok otaDat' ∧
      otaDat'.toList.take (count * 2) = (fwTmpdata.toList.take count).flatMap halves := by
  let Inv : ℕ → Vector UInt8 (fwReadSize * 2) → Prop := fun j otaDat =>
    otaDat.toList.take (j * 2) = (fwTmpdata.toList.take j).flatMap halves
  have hzero : Inv 0 otaDat := by
    show otaDat.toList.take (0 * 2) = _
    rw [Nat.zero_mul, List.take_zero, List.take_zero, List.flatMap_nil]
  refine Checked.foldlM_range (fun j hj dat hdat => ?_) hzero
  have htmp : j < fwReadSize := by omega
  have hlow : j * 2 < fwReadSize * 2 := by omega
  have hhigh : j * 2 + 1 < fwReadSize * 2 := by omega
  have hlist : j < fwTmpdata.toList.length := by
    rw [Vector.length_toList]
    exact htmp
  let b := fwTmpdata[j]
  let dat' := (dat.set (j * 2) (b &&& 0x0F)).set (j * 2 + 1) (b >>> 4)
  refine ⟨dat', ?_, ?_⟩
  · refine Checked.bind_eq_ok.mpr ⟨b, Checked.get_eq_ok.mpr ⟨htmp, rfl⟩, ?_⟩
    refine Checked.bind_eq_ok.mpr ⟨_, Checked.set_eq_ok.mpr ⟨hlow, rfl⟩, ?_⟩
    exact Checked.set_eq_ok.mpr ⟨hhigh, rfl⟩
  · show dat'.toList.take ((j + 1) * 2) = _
    -- the halves of the bytes before stay
    have hindex : (j + 1) * 2 = j * 2 + 2 := by omega
    have hlen : j * 2 + 1 < dat.toList.length := by
      rw [Vector.length_toList]
      exact hhigh
    rw [hindex, Vector.toList_set, Vector.toList_set, take_set_set _ hlen, hdat,
      List.take_succ_eq_append_getElem hlist, List.flatMap_append]
    rfl

/-- The table driven CRC over entries that are halves. -/
theorem crc32HalfCal_eq (crc : BitVec 32) {input : Vector UInt8 (fwReadSize * 2)} {len : ℕ}
    (hlen : len ≤ fwReadSize * 2) (hhalf : ∀ b ∈ input.toList.take len, b.toNat < 16) :
    crc32HalfCal crc input len = .ok ((input.toList.take len).foldl halfStep crc) := by
  let Inv : ℕ → BitVec 32 → Prop := fun i c => c = (input.toList.take i).foldl halfStep crc
  have hstep : ∀ i < len, ∀ c, Inv i c → ∃ c', crc32Half input c i = .ok c' ∧ Inv (i + 1) c' := by
    intro i hi c hc
    have hin : i < fwReadSize * 2 := by omega
    have hlist : i < input.toList.length := by
      rw [Vector.length_toList]
      exact hin
    -- the index into the table is in its bounds
    have hb : input[i].toNat < 16 := by
      refine hhalf _ (List.mem_take_iff_getElem.mpr ⟨i, ?_, Vector.getElem_toList hlist⟩)
      omega
    obtain ⟨t, ht, hnext⟩ := halfStep_eq c hb
    refine ⟨halfStep c input[i], ?_, ?_⟩
    · refine Checked.bind_eq_ok.mpr ⟨_, Checked.get_eq_ok.mpr ⟨hin, rfl⟩, ?_⟩
      refine Checked.bind_eq_ok.mpr ⟨t, get_ok ht, ?_⟩
      exact congrArg _ hnext
    · show _ = (input.toList.take (i + 1)).foldl halfStep crc
      rw [List.take_succ_eq_append_getElem hlist, List.foldl_append, ← hc]
      rfl
  obtain ⟨c, hc, hinv⟩ := Checked.foldlM_range hstep (rfl : Inv 0 crc)
  rw [crc32HalfCal, hc, hinv]

theorem flashReadPage_eq (flash : NorFlash.Cells) (addr : ℕ) {len : ℕ} (h : len ≤ fwReadSize)
    (buf : Vector UInt8 fwReadSize) :
    ∃ buf', flashReadPage flash addr len buf = .ok buf' ∧
      buf'.toList.take len = NorFlash.read flash addr len := by
  refine ⟨_, if_pos h, ?_⟩
  apply List.ext_getElem
  · rw [List.length_take, Vector.length_toList, NorFlash.length_read]
    exact min_eq_left h
  · intro i hi _
    have hlt : i < len := by
      rw [List.length_take] at hi
      omega
    rw [List.getElem_take, Vector.getElem_toList, Vector.getElem_ofFn, NorFlash.getElem_read,
      if_pos hlt]

/-- A read of at most a page. -/
theorem hash_eq (s : FwState) (flash : NorFlash.Cells) (addr : ℕ) {len : ℕ}
    (h : len ≤ fwReadSize) :
    ∃ s', s.hash flash addr len len = .ok s' ∧
      s'.fwCrcInit = crc32 s.fwCrcInit (NorFlash.read flash addr len) := by
  obtain ⟨tmp, htmp, hread⟩ := flashReadPage_eq flash addr h s.fwTmpdata
  obtain ⟨dat, hdat, hsplit⟩ := splitBytes_eq h tmp s.otaDat
  have hhalf : ∀ b ∈ dat.toList.take (len * 2), b.toNat < 16 := by
    intro b hb
    rw [hsplit] at hb
    obtain ⟨_, -, hmem⟩ := List.mem_flatMap.mp hb
    exact halves_lt hmem
  have hcrc := crc32HalfCal_eq s.fwCrcInit (Nat.mul_le_mul_right 2 h) hhalf
  rw [hsplit, hread, foldl_halfStep] at hcrc
  refine ⟨⟨tmp, dat, crc32 s.fwCrcInit (NorFlash.read flash addr len)⟩, ?_, rfl⟩
  refine Checked.bind_eq_ok.mpr ⟨tmp, htmp, ?_⟩
  refine Checked.bind_eq_ok.mpr ⟨dat, hdat, ?_⟩
  exact Checked.bind_eq_ok.mpr ⟨_, hcrc, rfl⟩

/-- A read of more than a page. -/
theorem hash_fault (s : FwState) (flash : NorFlash.Cells) (addr : ℕ) {len : ℕ} (count : ℕ)
    (h : fwReadSize < len) : s.hash flash addr len count = .error .fwTmpdata := by
  rw [FwState.hash, flashReadPage, if_neg (Nat.not_le_of_lt h)]
  rfl

/-! ## The check -/

/-- A slot for a firmware: it starts at 0 or at a boot address, and the largest boot address is
`MULTI_BOOT_ADDR_0x800000`. -/
structure FwSlot where
  start : ℕ
  size : ℕ
  start_le : start ≤ 0x800000
  size_le : size ≤ 0x800000

/-- The pages of the image. -/
theorem pages_eq (slot : FwSlot) (flash : NorFlash.Cells) {k : ℕ} (hk : k < 2 ^ 16)
    (s : FwState) :
    ∃ s', (List.range k).foldlM (fwPage flash slot.start) s = .ok s' ∧
      s'.fwCrcInit = crc32 s.fwCrcInit (NorFlash.read flash slot.start (k * fwReadSize)) := by
  let Inv : ℕ → FwState → Prop := fun i t =>
    t.fwCrcInit = crc32 s.fwCrcInit (NorFlash.read flash slot.start (i * fwReadSize))
  have hzero : Inv 0 s := by
    show _ = crc32 _ (NorFlash.read flash slot.start (0 * fwReadSize))
    rw [Nat.zero_mul]
    rfl
  refine Checked.foldlM_range (fun i hi t ht => ?_) hzero
  -- 2^16 pages do not reach the end of the addresses
  have haddr : (slot.start + i * fwReadSize) % 2 ^ 32 = slot.start + i * fwReadSize := by
    have hstart := slot.start_le
    unfold fwReadSize
    omega
  obtain ⟨t', hhash, hcrc⟩ := hash_eq t flash (slot.start + i * fwReadSize) (le_refl fwReadSize)
  refine ⟨t', ?_, ?_⟩
  · rw [fwPage, haddr, hhash]
  · show _ = crc32 _ (NorFlash.read flash slot.start ((i + 1) * fwReadSize))
    rw [hcrc, ht, Nat.succ_mul, NorFlash.read_add, crc32, Crc.crc_append]

section Check

variable (slot : FwSlot) (flash : NorFlash.Cells) (fwTmpdata : Vector UInt8 fwReadSize)
  (otaDat : Vector UInt8 (fwReadSize * 2)) (crcInitValue : BitVec 32)

/-- The check returns if the rest has room for the check sum. -/
theorem flashFwCheck_eq (hrem : 4 ≤ fwSize flash slot.start % fwReadSize) :
    ∃ crc, flashFwCheck flash slot.start fwTmpdata otaDat crcInitValue =
        .ok (decide
          (flashWord flash ((slot.start + fwSize flash slot.start + 2 ^ 32 - 4) % 2 ^ 32) ≠ crc)) ∧
      (fwSize flash slot.start ≤ slot.size →
        crc = crc32 (fwCrcInit crcInitValue)
          (NorFlash.read flash slot.start (fwSize flash slot.start - 4))) := by
  have hmod : fwSize flash slot.start / fwReadSize % 2 ^ 16 < 2 ^ 16 := Nat.mod_lt _ (by decide)
  obtain ⟨s, hs, hcrc⟩ := pages_eq slot flash hmod
    ⟨fwTmpdata, otaDat, fwCrcInit crcInitValue⟩
  have hdiv := Nat.div_add_mod (fwSize flash slot.start) fwReadSize
  -- in the slot, the number of pages fits its counter
  have hpages : fwSize flash slot.start ≤ slot.size →
      fwSize flash slot.start / fwReadSize % 2 ^ 16 * fwReadSize +
        (fwSize flash slot.start % fwReadSize - 4) = fwSize flash slot.start - 4 := by
    intro hsize
    have hslot := slot.size_le
    unfold fwReadSize at hdiv hrem ⊢
    omega
  by_cases hfour : fwSize flash slot.start % fwReadSize = 4
  · refine ⟨s.fwCrcInit, ?_, fun hsize => ?_⟩
    · refine Checked.bind_eq_ok.mpr ⟨s, hs, ?_⟩
      rw [if_neg (not_not.mpr hfour)]
      rfl
    · rw [hcrc, ← hpages hsize, hfour, Nat.sub_self, Nat.add_zero]
  · have hlt : fwSize flash slot.start % fwReadSize < fwReadSize := Nat.mod_lt _ (by decide)
    have hlen : (fwSize flash slot.start % fwReadSize + 2 ^ 32 - 4) % 2 ^ 32 =
        fwSize flash slot.start % fwReadSize - 4 := by
      unfold fwReadSize at hlt hrem ⊢
      omega
    obtain ⟨t, ht, hrest⟩ := hash_eq s flash ((slot.start + fwSize flash slot.start -
      fwSize flash slot.start % fwReadSize) % 2 ^ 32)
      (Nat.le_trans (Nat.sub_le _ 4) (Nat.le_of_lt hlt))
    refine ⟨t.fwCrcInit, ?_, fun hsize => ?_⟩
    · refine Checked.bind_eq_ok.mpr ⟨s, hs, ?_⟩
      rw [if_pos hfour, hlen]
      exact Checked.bind_eq_ok.mpr ⟨t, ht, rfl⟩
    · have haddr : (slot.start + fwSize flash slot.start -
          fwSize flash slot.start % fwReadSize) % 2 ^ 32 =
          slot.start + fwSize flash slot.start / fwReadSize % 2 ^ 16 * fwReadSize := by
        have hslot := slot.size_le
        have hstart := slot.start_le
        unfold fwReadSize at hdiv ⊢
        omega
      rw [hrest, hcrc, haddr, ← hpages hsize, NorFlash.read_add, crc32, Crc.crc_append]

/-- Otherwise it reads almost the whole address space into the array. -/
theorem flashFwCheck_fault (hrem : fwSize flash slot.start % fwReadSize < 4) :
    flashFwCheck flash slot.start fwTmpdata otaDat crcInitValue = .error .fwTmpdata := by
  have hmod : fwSize flash slot.start / fwReadSize % 2 ^ 16 < 2 ^ 16 := Nat.mod_lt _ (by decide)
  obtain ⟨s, hs, -⟩ := pages_eq slot flash hmod ⟨fwTmpdata, otaDat, fwCrcInit crcInitValue⟩
  -- the length of the rest wraps
  have hlen : fwReadSize < (fwSize flash slot.start % fwReadSize + 2 ^ 32 - 4) % 2 ^ 32 := by
    unfold fwReadSize at hrem ⊢
    omega
  have hhash := hash_fault s flash ((slot.start + fwSize flash slot.start -
    fwSize flash slot.start % fwReadSize) % 2 ^ 32) (fwSize flash slot.start % fwReadSize - 4) hlen
  rw [flashFwCheck]
  dsimp only
  rw [hs, Checked.bind_ok, if_pos (Nat.ne_of_lt hrem), hhash, Checked.bind_error]

/-- The check stays in its arrays, and a firmware of a size within the slot passes exactly if the
CRC of what is before its last four bytes is in them. -/
def FwCheckOk : Prop :=
  Checked.Ok (flashFwCheck flash slot.start fwTmpdata otaDat crcInitValue) ∧
    (4 ≤ fwSize flash slot.start → fwSize flash slot.start ≤ slot.size →
      (flashFwCheck flash slot.start fwTmpdata otaDat crcInitValue = .ok false ↔
        crc32 (fwCrcInit crcInitValue)
            (NorFlash.read flash slot.start (fwSize flash slot.start - 4)) =
          flashWord flash (slot.start + fwSize flash slot.start - 4)))

/-- The check is right exactly if its size has at least four bytes behind the last page. -/
theorem fwCheckOk_iff :
    FwCheckOk slot flash fwTmpdata otaDat crcInitValue ↔
      4 ≤ fwSize flash slot.start % fwReadSize := by
  constructor
  · rintro ⟨⟨_, hok⟩, -⟩
    by_contra hrem
    rw [flashFwCheck_fault slot flash fwTmpdata otaDat crcInitValue (Nat.lt_of_not_le hrem)] at hok
    cases hok
  · intro hrem
    obtain ⟨crc, hcheck, hcrc⟩ := flashFwCheck_eq slot flash fwTmpdata otaDat crcInitValue hrem
    refine ⟨⟨_, hcheck⟩, fun hfour hsize => ?_⟩
    have haddr : (slot.start + fwSize flash slot.start + 2 ^ 32 - 4) % 2 ^ 32 =
        slot.start + fwSize flash slot.start - 4 := by
      have hslot := slot.size_le
      have hstart := slot.start_le
      omega
    rw [hcheck, haddr, ← hcrc hsize]
    constructor
    · intro h
      have hdec := of_decide_eq_false (Except.ok.inj h)
      exact (not_not.mp hdec).symm
    · intro h
      exact congrArg _ (decide_eq_false (not_not.mpr h.symm))

/-- A firmware of a single page is not checked. -/
theorem not_fwCheckOk :
    ¬ FwCheckOk ⟨0, 0x20000, by decide, by decide⟩ (fun a => if a = 0x19 then 1 else 0)
      (Vector.replicate _ 0) (Vector.replicate _ 0) 0xFFFFFFFF := by
  rintro ⟨⟨_, hok⟩, -⟩
  rw [flashFwCheck_fault ⟨0, 0x20000, by decide, by decide⟩ _ _ _ _ (by decide)] at hok
  cases hok

end Check

/-! ## Damaged firmware -/

/-- The bytes of a word that is put together from bytes. -/
theorem leBytes_append (a b c d : UInt8) :
    Crc.leBytes 4 (a.toBitVec ++ b.toBitVec ++ c.toBitVec ++ d.toBitVec) = [d, c, b, a] := by
  have hbyte {n : ℕ} {x : BitVec n} (k : ℕ) (y : UInt8)
      (h : ∀ i < 8, x.getLsbD (k + i) = y.toBitVec.getLsbD i) :
      UInt8.ofBitVec ((x >>> k).setWidth 8) = y := by
    rw [← UInt8.toBitVec_inj]
    apply BitVec.eq_of_getLsbD_eq
    intro i hi
    rw [UInt8.toBitVec_ofBitVec, BitVec.getLsbD_setWidth, BitVec.getLsbD_ushiftRight, h i hi]
    simp [hi]
  have hskip {n : ℕ} (x : BitVec n) (y : UInt8) (i : ℕ) :
      (x ++ y.toBitVec).getLsbD (8 + i) = x.getLsbD i := by
    rw [BitVec.getLsbD_append, if_neg (by omega), Nat.add_sub_cancel_left]
  have htake {n : ℕ} (x : BitVec n) (y : UInt8) {i : ℕ} (hi : i < 8) :
      (x ++ y.toBitVec).getLsbD i = y.toBitVec.getLsbD i := by
    rw [BitVec.getLsbD_append, if_pos hi]
  have h0 := hbyte (x := a.toBitVec ++ b.toBitVec ++ c.toBitVec ++ d.toBitVec) 0 d fun i hi => by
    rw [Nat.zero_add, htake _ _ hi]
  have h1 := hbyte (x := a.toBitVec ++ b.toBitVec ++ c.toBitVec ++ d.toBitVec) 8 c fun i hi => by
    rw [hskip, htake _ _ hi]
  have h2 := hbyte (x := a.toBitVec ++ b.toBitVec ++ c.toBitVec ++ d.toBitVec) (8 + 8) b
    fun i hi => by rw [Nat.add_assoc 8 8 i, hskip, hskip, htake _ _ hi]
  have h3 := hbyte (x := a.toBitVec ++ b.toBitVec ++ c.toBitVec ++ d.toBitVec) (8 + 8 + 8) a
    fun i hi => by rw [Nat.add_assoc (8 + 8) 8 i, Nat.add_assoc 8 8 (8 + i), hskip, hskip, hskip]
  rw [BitVec.ushiftRight_zero] at h0
  simp only [Crc.leBytes, ← BitVec.shiftRight_add]
  rw [h0, h1, h2, h3]

/-- What is read from the flash ends with its CRC exactly if it leaves no remainder. -/
theorem crc32_read_eq_zero_iff (flash : NorFlash.Cells) (crc : BitVec 32) (addr n : ℕ) :
    crc32 crc (NorFlash.read flash addr (n + 4)) = 0 ↔
      crc32 crc (NorFlash.read flash addr n) = flashWord flash (addr + n) := by
  have hword : NorFlash.read flash (addr + n) 4 = Crc.leBytes 4 (flashWord flash (addr + n)) :=
    (leBytes_append _ _ _ _).symm
  have hself : crc32 (flashWord flash (addr + n)) (NorFlash.read flash (addr + n) 4) = 0 := by
    rw [hword, crc32, Crc.crc_leBytes]
    exact BitVec.ushiftRight_eq_zero (Nat.le_refl 32)
  have hrest : crc32 crc (NorFlash.read flash addr (n + 4)) =
      crc32 (crc32 crc (NorFlash.read flash addr n)) (NorFlash.read flash (addr + n) 4) := by
    rw [NorFlash.read_add, crc32, Crc.crc_append]
  rw [hrest]
  constructor
  · intro h
    have hpoly : (0xEDB88320#32).msb = true := by decide
    exact Crc.crc_injective hpoly _ (h.trans hself.symm)
  · intro h
    rw [h, hself]

section Damage

variable (slot : FwSlot) {flash flash' : NorFlash.Cells} {crcInitValue : BitVec 32}

/-- A firmware passes exactly if it leaves no remainder. -/
theorem flashFwCheck_ok_iff (hrem : 4 ≤ fwSize flash slot.start % fwReadSize)
    (hsize : fwSize flash slot.start ≤ slot.size) (fwTmpdata : Vector UInt8 fwReadSize)
    (otaDat : Vector UInt8 (fwReadSize * 2)) :
    flashFwCheck flash slot.start fwTmpdata otaDat crcInitValue =
      .ok (decide (crc32 (fwCrcInit crcInitValue)
        (NorFlash.read flash slot.start (fwSize flash slot.start)) ≠ 0)) := by
  obtain ⟨crc, hcheck, hcrc⟩ := flashFwCheck_eq slot flash fwTmpdata otaDat crcInitValue hrem
  have hfour : 4 ≤ fwSize flash slot.start := hrem.trans (Nat.mod_le _ _)
  have haddr : (slot.start + fwSize flash slot.start + 2 ^ 32 - 4) % 2 ^ 32 =
      slot.start + (fwSize flash slot.start - 4) := by
    have hslot := slot.size_le
    have hstart := slot.start_le
    omega
  have hiff := crc32_read_eq_zero_iff flash (fwCrcInit crcInitValue) slot.start
    (fwSize flash slot.start - 4)
  rw [Nat.sub_add_cancel hfour, ← hcrc hsize, ← haddr] at hiff
  rw [hcheck]
  refine congrArg Except.ok (decide_eq_decide.mpr (not_congr ?_))
  exact eq_comm.trans hiff.symm

/-- Damage within 32 consecutive bits of a firmware that passes does not pass, as long as the
firmware keeps its size. -/
theorem flashFwCheck_burst (hrem : 4 ≤ fwSize flash slot.start % fwReadSize)
    (hsize : fwSize flash slot.start ≤ slot.size)
    (hkeep : fwSize flash' slot.start = fwSize flash slot.start)
    (hburst : Crc.IsBurst 32 (List.zipWith (· ^^^ ·)
      (NorFlash.read flash slot.start (fwSize flash slot.start))
      (NorFlash.read flash' slot.start (fwSize flash slot.start))))
    (fwTmpdata fwTmpdata' : Vector UInt8 fwReadSize)
    (otaDat otaDat' : Vector UInt8 (fwReadSize * 2))
    (hpass : flashFwCheck flash slot.start fwTmpdata otaDat crcInitValue = .ok false) :
    flashFwCheck flash' slot.start fwTmpdata' otaDat' crcInitValue = .ok true := by
  rw [flashFwCheck_ok_iff slot hrem hsize] at hpass
  have hzero := not_not.mp (of_decide_eq_false (Except.ok.inj hpass))
  have hlen : (NorFlash.read flash slot.start (fwSize flash slot.start)).length =
      (NorFlash.read flash' slot.start (fwSize flash slot.start)).length := by
    rw [NorFlash.length_read, NorFlash.length_read]
  have hpoly : (0xEDB88320#32).msb = true := by decide
  have hne := Crc.crc_ne_of_isBurst hpoly (by decide) (fwCrcInit crcInitValue) hlen hburst
  rw [flashFwCheck_ok_iff slot (by rw [hkeep]; exact hrem) (by rw [hkeep]; exact hsize), hkeep]
  refine congrArg _ (decide_eq_true ?_)
  intro hzero'
  exact hne (hzero.trans hzero'.symm)

/-- A firmware of 32 bytes and its CRC. -/
def smallFw : List UInt8 :=
  let body : List UInt8 := List.replicate 24 7 ++ [36, 0, 0, 0] ++ List.replicate 4 7
  body ++ Crc.leBytes 4 (crc32 0xFFFFFFFF body)

/-- The flash that begins with the bytes. -/
def flashOf (l : List UInt8) : NorFlash.Cells := fun a => l.getD a 0xFF

theorem flashFwCheck_burst_smallFw :
    flashFwCheck (flashOf (smallFw.set 5 0)) 0 (Vector.replicate _ 0) (Vector.replicate _ 0)
      0xFFFFFFFF = .ok true := by
  have hrem : 4 ≤ fwSize (flashOf smallFw) 0 % fwReadSize := by decide +kernel
  have hpass : flashFwCheck (flashOf smallFw) 0 (Vector.replicate _ 0) (Vector.replicate _ 0)
      0xFFFFFFFF = .ok false :=
    (flashFwCheck_ok_iff ⟨0, 0x20000, by decide, by decide⟩ hrem (by decide +kernel) _ _).trans
      (congrArg Except.ok (decide_eq_false (by decide +kernel)))
  have hbytes : List.zipWith (· ^^^ ·)
      (NorFlash.read (flashOf smallFw) 0 (fwSize (flashOf smallFw) 0))
      (NorFlash.read (flashOf (smallFw.set 5 0)) 0 (fwSize (flashOf smallFw) 0)) =
        List.replicate 5 0 ++ [7] ++ List.replicate 30 0 := by
    decide +kernel
  exact flashFwCheck_burst ⟨0, 0x20000, by decide, by decide⟩ (by decide +kernel)
    (by decide +kernel) (by decide +kernel)
    (by rw [hbytes]; exact Crc.isBurst_of_bytes 5 30 (by decide) (by decide)) _ _ _ _ hpass

end Damage

end TlBleSdk.Ota
