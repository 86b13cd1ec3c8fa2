import TlBleSdk.Esl.ImagePower

/-!
# The objects of the label

The images of the label are objects of an object transfer service. `ots_write_cb` and `ots_read_cb`
of `app_esl.c` look an object up by its identifier and write and read the image storage in flash;
the display loop reads an image by its index. A label that is switched off and on again finds its
images in flash, and the service gives their objects new identifiers.

To the peer an object is a file: a write patches it, or truncates it behind the data, and a read
returns a part of it. The label refines an array of such files exactly in the runs in which a write
that truncates begins within its file.
-/

namespace TlBleSdk.Esl

open NorFlash Hci Machine

/-! ## Files -/

/-- A file with its bytes from `offset` on replaced. It keeps its length. -/
def patch (file : List UInt8) (offset : ℕ) (data : List UInt8) : List UInt8 :=
  (file.take offset ++ data ++ file.drop (offset + data.length)).take file.length

@[simp] theorem length_patch (file : List UInt8) (offset : ℕ) (data : List UInt8) :
    (patch file offset data).length = file.length := by
  unfold patch
  simp only [List.length_take, List.length_append, List.length_drop]
  omega

/-- The byte `k` of a patched file. -/
theorem getElem_patch {file data : List UInt8} {offset k : ℕ}
    (hk : k < (patch file offset data).length) :
    (patch file offset data)[k] = if offset ≤ k ∧ k < offset + data.length
      then data.getD (k - offset) 0xFF else file.getD k 0xFF := by
  have hk' : k < file.length := by rwa [length_patch] at hk
  simp only [patch, List.getElem_take]
  by_cases hlow : k < offset
  · rw [if_neg (by omega), List.getElem_append_left (by
        simp only [List.length_append, List.length_take]; omega),
      List.getElem_append_left (by rw [List.length_take]; omega), List.getElem_take,
      List.getD_eq_getElem _ _ hk']
  · have htake : (file.take offset).length = offset := by
      rw [List.length_take]
      omega
    by_cases hmid : k < offset + data.length
    · rw [if_pos ⟨by omega, hmid⟩, List.getElem_append_left (by
          rw [List.length_append, htake]; exact hmid),
        List.getElem_append_right (by omega), List.getD_eq_getElem _ _ (by omega)]
      simp only [htake]
    · rw [if_neg (by omega), List.getElem_append_right (by rw [List.length_append, htake]; omega),
        List.getElem_drop, List.getD_eq_getElem _ _ hk']
      congr 1
      rw [List.length_append, htake]
      omega

/-! ## Files in flash -/

theorem take_read (c : Cells) (addr : ℕ) {m n : ℕ} (h : m ≤ n) :
    (read c addr n).take m = read c addr m := by
  obtain ⟨k, rfl⟩ : ∃ k, n = m + k := ⟨n - m, by omega⟩
  rw [read_add, List.take_left' (length_read c addr m)]

theorem drop_read (c : Cells) (addr m n : ℕ) :
    (read c addr (m + n)).drop m = read c (addr + m) n := by
  rw [read_add, List.drop_left' (length_read c addr m)]

/-- A part of a file. -/
theorem read_part (c : Cells) (addr : ℕ) {offset n : ℕ} (len : ℕ) (h : offset + n ≤ len) :
    read c (addr + offset) n = ((read c addr len).drop offset).take n := by
  obtain ⟨k, rfl⟩ : ∃ k, len = offset + n + k := ⟨len - (offset + n), by omega⟩
  rw [Nat.add_assoc, drop_read, take_read _ _ (Nat.le_add_right n k)]

section Files

variable {c c' : Cells} {truncate : Bool} {addr offset : ℕ} {data : List UInt8}

/-- Where nothing is lost behind the data, they patch the file. -/
theorem Stores.read_patch (h : Stores c c' truncate (addr + offset) data)
    (htrunc : truncate = false) (len : ℕ) :
    read c' addr len = patch (read c addr len) offset data := by
  apply List.ext_getElem
  · rw [length_patch, length_read, length_read]
  intro k hk hk'
  rw [length_read] at hk
  rw [getElem_read, getElem_patch]
  by_cases hmid : offset ≤ k ∧ k < offset + data.length
  · have hdata := h.data_eq (k - offset) (by omega)
    rw [if_pos hmid, ← hdata]
    congr 1
    omega
  · rw [if_neg hmid, getD_read _ _ hk]
    by_cases hlow : k < offset
    · exact h.before_eq _ (by omega)
    · exact h.behind_eq htrunc _ (by omega)

/-- The data end the file. -/
theorem Stores.read_truncate (h : Stores c c' truncate (addr + offset) data) {len : ℕ}
    (hoffset : offset ≤ len) :
    read c' addr (offset + data.length) = (read c addr len).take offset ++ data := by
  have hbefore : read c' addr offset = read c addr offset :=
    read_congr fun i hi => h.before_eq _ (by omega)
  have hdata : read c' (addr + offset) data.length = data := by
    apply List.ext_getElem (length_read _ _ _)
    intro i hi hi'
    rw [getElem_read, h.data_eq i hi', List.getD_eq_getElem _ _ hi']
  rw [read_add, hbefore, hdata, take_read c addr hoffset]

end Files

/-! ## The label -/

/-- `blc_ots_object_id_t`. -/
abbrev ObjectId : Type := Vector UInt8 6

/-- `OTSS_L2CAP_MTU`, the size of `buf_temp`. -/
def otssL2capMtu : ℕ := 0x80

/-- `BLC_OTS_OACP_WRITE_MODE_TRUNCATE`. -/
def writeModeTruncate : UInt8 := 0x02

/-- The flag of a write that truncates. -/
def truncates (mode : UInt8) : Bool := mode &&& writeModeTruncate ≠ 0

/-- The image storage and `objectIds`. -/
structure OtsLabel where
  storage : ImageStorage
  objectIds : Fin maxImages → ObjectId

/-- The loop of the callbacks over `objectIds`. -/
def objectIdx (objectIds : Fin maxImages → ObjectId) (id : ObjectId) : Option (Fin maxImages) :=
  (List.finRange maxImages).find? fun i => objectIds i = id

/-- `ots_read_cb`: the bytes it puts into `buf_temp`, as many as it returns. -/
def otsReadCb (s : OtsLabel) (id : ObjectId) (offset length : ℕ) : List UInt8 :=
  match objectIdx s.objectIds id with
  | some i =>
    appImageStorageGetImageData s.storage.flash s.storage.ram i offset (min length otssL2capMtu)
  | none => []

/-- `ots_write_cb`: what it returns, and the storage. -/
def otsWriteCb (s : OtsLabel) (id : ObjectId) (mode : UInt8) (offset : ℕ) (data : List UInt8) :
    ℕ × ImageStorage :=
  match objectIdx s.objectIds id with
  | some i =>
    let ret := u16 (appImageStorageImageWrite s.storage.flash s.storage.ram i offset data
      (truncates mode)).1
    let storage := s.storage.call (.imageWrite i offset data (truncates mode))
    (ret, if truncates mode then storage.call (.updateImageInfo i (offset + data.length))
      else storage)
  | none => (0, s.storage)

/-- The label is switched off and on: `app_image_storage_init`, and the sizes with which
`app_esl_add_objects` adds the images. The service chooses their identifiers. -/
def otsRestart (s : OtsLabel) (objectIds : Fin maxImages → ObjectId) : List ℕ × OtsLabel :=
  let storage := (ImageStorage.powerOn s.storage.flash).call .init
  -- the size stays 0 where the length cannot be read
  ((List.finRange maxImages).map fun i : Fin maxImages =>
    (appImageStorageGetImageLength storage.ram i).getD 0, ⟨storage, objectIds⟩)

/-- The data of a call, with a length of 16 bits. -/
structure OtsData where
  bytes : List UInt8
  length_lt : bytes.length < 65536

/-- What happens to the label: the service writes or reads an object, the display loop reads an
image, the label is switched off and on. -/
inductive OtsEvent
  | write (id : ObjectId) (mode : UInt8) (offset : UInt16) (data : OtsData)
  | read (id : ObjectId) (offset length : UInt16)
  | image (imageIdx : UInt8) (imageSize : UInt16)
  | restart (objectIds : Fin maxImages → ObjectId)

/-- What is returned. -/
inductive OtsAnswer
  | count (n : ℕ)
  | bytes (l : List UInt8)
  | sizes (l : List ℕ)
deriving DecidableEq

/-- A call of the label. -/
def otsCall (s : OtsLabel) : OtsEvent → OtsLabel × OtsAnswer
  | .write id mode offset data =>
    let r := otsWriteCb s id mode offset.toNat data.bytes
    ({ s with storage := r.2 }, .count r.1)
  | .read id offset length => (s, .bytes (otsReadCb s id offset.toNat length.toNat))
  | .image imageIdx imageSize =>
    (s, .bytes (appImageStorageGetImageData s.storage.flash s.storage.ram imageIdx.toNat 0
      imageSize.toNat))
  | .restart objectIds =>
    let r := otsRestart s objectIds
    (r.2, .sizes r.1)

/-! ## The objects -/

/-- A file for each image, and the identifiers under which they are known. -/
structure OtsObjects where
  files : Fin maxImages → List UInt8
  ids : Fin maxImages → ObjectId

/-- A write ends the file with the data, or patches it. -/
def writeFile (file : List UInt8) (truncate : Bool) (offset : ℕ) (data : List UInt8) :
    List UInt8 :=
  if truncate then file.take offset ++ data else patch file offset data

/-- What a call means to the objects. -/
def otsSpec (t : OtsObjects) : OtsEvent → OtsObjects × OtsAnswer
  | .write id mode offset data =>
    match objectIdx t.ids id with
    | some i =>
      if offset.toNat + data.bytes.length ≤ maxImageSize then
        let file := writeFile (t.files i) (truncates mode) offset.toNat data.bytes
        ({ t with files := Function.update t.files i file }, .count data.bytes.length)
      else (t, .count 0)
    | none => (t, .count 0)
  | .read id offset length =>
    match objectIdx t.ids id with
    | some i =>
      (t, .bytes (((t.files i).drop offset.toNat).take (min length.toNat otssL2capMtu)))
    | none => (t, .bytes [])
  | .image imageIdx imageSize =>
    (t, .bytes (if h : imageIdx.toNat < maxImages
      then (t.files ⟨imageIdx.toNat, h⟩).take imageSize.toNat else []))
  | .restart ids =>
    ({ t with ids := ids }, .sizes ((List.finRange maxImages).map fun i => (t.files i).length))

/-- A write that truncates begins within its file. -/
def WriteInside (t : OtsObjects) : OtsEvent → Prop
  | .write id mode offset data => ∀ i, objectIdx t.ids id = some i → truncates mode = true →
      offset.toNat + data.bytes.length ≤ maxImageSize → offset.toNat ≤ (t.files i).length
  | _ => True

instance (t : OtsObjects) : (e : OtsEvent) → Decidable (WriteInside t e)
  | .write _ _ _ _ => inferInstanceAs (Decidable (∀ _, _ → _ → _ → _))
  | .read _ _ _ => inferInstanceAs (Decidable True)
  | .image _ _ => inferInstanceAs (Decidable True)
  | .restart _ => inferInstanceAs (Decidable True)

/-- The image `i` is the file: the storage reports its length and has its bytes in flash. -/
structure ImageStorage.HasFile (s : ImageStorage) (i : Fin maxImages) (file : List UInt8) :
    Prop where
  length_eq : s.length i = some file.length
  length_le : file.length ≤ maxImageSize
  read_eq : NorFlash.read s.flash (imageAddr i) file.length = file

/-- The label holds the objects. -/
structure OtsLabel.Holds (s : OtsLabel) (t : OtsObjects) : Prop where
  ids_eq : s.objectIds = t.ids
  hasFile : ∀ i, s.storage.HasFile i (t.files i)

/-! ## The storage under one call -/

section Storage

variable {s : ImageStorage}

theorem ImageStorage.InSync.call (h : s.InSync) {c : StorageCall} (hwrap : c.NoWrap) :
    (s.call c).InSync :=
  inSync_step h (show (StorageEvent.complete c).NoWrap from hwrap)

/-- A storage behind a start. -/
structure ImageStorage.Live (s : ImageStorage) : Prop where
  inSync : s.InSync
  initialized : s.ram.initialized = true

/-- A write that fits. -/
theorem ImageStorage.Live.imageWrite_eq (h : s.Live) (i : Fin maxImages) {offset : ℕ}
    {data : List UInt8} (truncate : Bool) (hfit : offset + data.length ≤ maxImageSize) :
    appImageStorageImageWrite s.flash s.ram i offset data truncate =
      (data.length, imageWriteLoop (imageAddr i) truncate s.flash offset data) :=
  Esl.imageWrite_eq h.inSync.1 h.initialized truncate i.isLt hfit

/-- What it makes of the flash. -/
theorem ImageStorage.Live.imageWrite_stores (h : s.Live) (i : Fin maxImages) {offset : ℕ}
    {data : List UInt8} (truncate : Bool) (hfit : offset + data.length ≤ maxImageSize) :
    Stores s.flash (s.call (.imageWrite i offset data truncate)).flash truncate
      (imageAddr i + offset) data := by
  have hidx := i.isLt
  have haddr : imageAddr i + offset + data.length < 4294967296 := by
    simp only [imageAddr, imageEntrySize_eq, maxImages, maxImageSize, partitionAddr,
      sectorSize] at hidx hfit ⊢
    omega
  show Stores s.flash (applyAll s.flash
    (appImageStorageImageWrite s.flash s.ram i offset data truncate).2) _ _ _
  rw [h.imageWrite_eq i truncate hfit]
  exact imageWriteLoop_stores s.flash truncate haddr

/-- The header and the other images are not touched. -/
theorem ImageStorage.Live.imageWrite_others (h : s.Live) (i : Fin maxImages) {offset : ℕ}
    {data : List UInt8} (truncate : Bool) (hfit : offset + data.length ≤ maxImageSize) :
    (s.call (.imageWrite i offset data truncate)).Live ∧
      ∀ j : ℕ, j ≠ i → imageBytes (s.call (.imageWrite i offset data truncate)).flash j =
        imageBytes s.flash j := by
  have hwrap : (StorageCall.imageWrite i offset data truncate).NoWrap := by
    show offset + data.length < 4294967296
    simp only [maxImageSize] at hfit
    omega
  have hwithin := imageWrite_within (s := s) h.inSync.1 hwrap
  refine ⟨⟨h.inSync.call hwrap, h.initialized⟩, fun j hj => ?_⟩
  rcases imageAddr_apart hj with hlow | hhigh
  · exact imageBytes_of_within hwithin (.inl hlow) s.flash
  · exact imageBytes_of_within hwithin (.inr hhigh) s.flash

/-- A write that does not fit is refused. -/
theorem ImageStorage.Live.imageWrite_refused (h : s.Live) (i : Fin maxImages) {offset : ℕ}
    {data : List UInt8} (truncate : Bool) (hwrap : offset + data.length < 4294967296)
    (hfit : maxImageSize < offset + data.length) :
    appImageStorageImageWrite s.flash s.ram i offset data truncate = (0, []) :=
  Esl.imageWrite_refused h.inSync.1 s.flash truncate hwrap fun hc => by omega

/-- Behind the last image there is none. -/
theorem ImageStorage.Live.length_none (h : s.Live) {i : ℕ} (hi : maxImages ≤ i) :
    appImageStorageGetImageLength s.ram i = none := by
  unfold appImageStorageGetImageLength
  rw [h.initialized, (h.inSync.1 h.initialized).numImages_eq]
  exact if_pos (by simpa using hi)

/-- An update of a length leaves all bytes and the other lengths. -/
theorem ImageStorage.Live.updateImageInfo (h : s.Live) (i : Fin maxImages) {length : ℕ}
    (hfit : length ≤ maxImageSize) :
    (s.call (.updateImageInfo i length)).Live ∧
      (s.call (.updateImageInfo i length)).length i = some length ∧
      (∀ j : Fin maxImages, j ≠ i →
        (s.call (.updateImageInfo i length)).length j = s.length j) ∧
      ∀ j : ℕ, imageBytes (s.call (.updateImageInfo i length)).flash j =
        imageBytes s.flash j := by
  obtain ⟨hram, hops⟩ := updateImageInfo_accepted h.inSync h.initialized i.isLt hfit
  have hok := (h.inSync.1 h.initialized).set i length
  refine ⟨⟨h.inSync.call trivial, ?_⟩,
    length_updateImageInfo h.inSync h.initialized i.isLt hfit, fun j hj => ?_, fun j => ?_⟩
  · rw [hram]
  · have hself : s.ram = ⟨true, s.ram.hdr⟩ := by rw [← h.initialized]
    rw [length_of_ram hram hok j.isLt, length_of_ram hself (h.inSync.1 h.initialized) j.isLt,
      hdrLength_set s.ram.hdr fun heq => hj (Fin.ext heq.symm)]
  · show imageBytes (applyAll s.flash (s.ops _)) j = _
    rw [hops]
    exact imageBytes_of_header (headerOps_within hok) s.flash j

/-- An update that does not fit is refused. -/
theorem ImageStorage.Live.updateImageInfo_refused (h : s.Live) (i : ℕ) {length : ℕ}
    (hfit : maxImageSize < length) : s.call (.updateImageInfo i length) = s := by
  rcases updateImageInfo_cases h.inSync.1 i length with ⟨heq, -⟩ | ⟨-, -, hle, -⟩
  · show (⟨(appImageStorageUpdateImageInfo s.ram i length).2.1,
      applyAll s.flash (appImageStorageUpdateImageInfo s.ram i length).2.2⟩ : ImageStorage) = s
    rw [heq]
    rfl
  · exact absurd hle (Nat.not_le.mpr hfit)

/-- Images with the same bytes have the same files. -/
theorem read_of_imageBytes {c c' : Cells} {j n : ℕ} (h : imageBytes c' j = imageBytes c j)
    (hn : n ≤ maxImageSize) : read c' (imageAddr j) n = read c (imageAddr j) n := by
  rw [← take_read c' (imageAddr j) hn, ← take_read c (imageAddr j) hn]
  exact congrArg (List.take n) h

/-- A start finds the images. -/
theorem ImageStorage.Live.restart (h : s.Live) :
    ((ImageStorage.powerOn s.flash).call .init).Live ∧
      (∀ j : Fin maxImages,
        ((ImageStorage.powerOn s.flash).call .init).length j = s.length j) ∧
      ∀ j : ℕ, imageBytes ((ImageStorage.powerOn s.flash).call .init).flash j =
        imageBytes s.flash j := by
  have hsync := inSync_powerOn s.flash
  refine ⟨⟨hsync.call trivial, init_initialized _ _⟩,
    fun j => ?_, fun j => call_init_imageBytes (ImageStorage.powerOn s.flash) j⟩
  have hself : s.ram = ⟨true, s.ram.hdr⟩ := by rw [← h.initialized]
  rw [length_call_init hsync j.isLt, length_of_ram hself (h.inSync.1 h.initialized) j.isLt]
  show some (hdrLength (bootHdr s.flash) j) = _
  rw [h.inSync.bootHdr_eq h.initialized]

/-! ## Files of the storage -/

variable {i j : Fin maxImages} {file data : List UInt8} {offset : ℕ}

/-- A file stays where neither its length nor its bytes change. -/
theorem ImageStorage.HasFile.keep (h : s.HasFile i file) {s' : ImageStorage}
    (hlength : s'.length i = s.length i) (hbytes : imageBytes s'.flash i = imageBytes s.flash i) :
    s'.HasFile i file where
  length_eq := hlength.trans h.length_eq
  length_le := h.length_le
  read_eq := (read_of_imageBytes hbytes h.length_le).trans h.read_eq

/-- What is read of a file. -/
theorem ImageStorage.HasFile.getImageData (h : s.HasFile i file) {n : ℕ} (hoffset : offset < 65536)
    (hn : n < 65536) :
    appImageStorageGetImageData s.flash s.ram i offset n = (file.drop offset).take n := by
  have hidx := i.isLt
  have hlen : appImageStorageGetImageLength s.ram i = some file.length := h.length_eq
  unfold appImageStorageGetImageData
  rw [hlen]
  dsimp only
  by_cases hend : file.length ≤ offset
  · rw [if_pos hend, List.drop_of_length_le hend, List.take_nil]
  have haddr : imageAddr i + offset < 4294967296 := by
    simp only [imageAddr, imageEntrySize_eq, maxImages, partitionAddr, sectorSize] at hidx ⊢
    omega
  rw [if_neg hend, u32_of_lt haddr, u32_of_lt (by omega)]
  by_cases hlast : file.length < offset + n
  · rw [if_pos hlast, read_part s.flash (imageAddr i) file.length (by omega), h.read_eq,
      List.take_of_length_le (by rw [List.length_drop]),
      List.take_of_length_le (by rw [List.length_drop]; omega)]
  · rw [if_neg hlast, read_part s.flash (imageAddr i) file.length (by omega), h.read_eq]

/-- A write patches its file. -/
theorem ImageStorage.HasFile.patch (h : s.HasFile i file) (hlive : s.Live)
    (hfit : offset + data.length ≤ maxImageSize) :
    (s.call (.imageWrite i offset data false)).HasFile i (patch file offset data) where
  length_eq := by
    rw [length_patch]
    exact h.length_eq
  length_le := by
    rw [length_patch]
    exact h.length_le
  read_eq := by
    rw [length_patch, (hlive.imageWrite_stores i false hfit).read_patch rfl, h.read_eq]

/-- A write that truncates, with the update of the length, ends its file. -/
theorem ImageStorage.HasFile.truncate (h : s.HasFile i file) (hlive : s.Live)
    (hfit : offset + data.length ≤ maxImageSize) (hoffset : offset ≤ file.length) :
    ((s.call (.imageWrite i offset data true)).call
      (.updateImageInfo i (offset + data.length))).HasFile i (file.take offset ++ data) := by
  have hlive' := (hlive.imageWrite_others i true hfit).1
  obtain ⟨-, hlength, -, hbytes⟩ := hlive'.updateImageInfo i hfit
  have hnew : (file.take offset ++ data).length = offset + data.length := by
    rw [List.length_append, List.length_take, Nat.min_eq_left hoffset]
  constructor
  · rw [hnew]
    exact hlength
  · rw [hnew]
    exact hfit
  · rw [hnew, read_of_imageBytes (hbytes i) hfit,
      (hlive.imageWrite_stores i true hfit).read_truncate hoffset, h.read_eq]

/-- The files of the other images are kept. -/
theorem ImageStorage.HasFile.imageWrite_ne (h : s.HasFile j file) (hlive : s.Live) (hj : j ≠ i)
    (truncate : Bool) (hfit : offset + data.length ≤ maxImageSize) :
    (s.call (.imageWrite i offset data truncate)).HasFile j file :=
  h.keep rfl ((hlive.imageWrite_others i truncate hfit).2 j fun heq => hj (Fin.ext heq))

theorem ImageStorage.HasFile.updateImageInfo_ne (h : s.HasFile j file) (hlive : s.Live)
    (hj : j ≠ i) {length : ℕ} (hfit : length ≤ maxImageSize) :
    (s.call (.updateImageInfo i length)).HasFile j file := by
  obtain ⟨-, -, hlengths, hbytes⟩ := hlive.updateImageInfo i hfit
  exact h.keep (hlengths j hj) (hbytes j)

end Storage

/-! ## The refinement -/

section Refinement

variable {s : OtsLabel} {t : OtsObjects}

/-- The label holds the objects behind a start. -/
structure OtsInv (s : OtsLabel) (t : OtsObjects) : Prop where
  holds : s.Holds t
  live : s.storage.Live

/-- A write to the object `i`. -/
theorem OtsInv.write (h : OtsInv s t) {id : ObjectId} {i : Fin maxImages}
    (hid : objectIdx t.ids id = some i) (mode : UInt8) {offset : ℕ} {data : List UInt8}
    (hfit : offset + data.length ≤ maxImageSize)
    (hinside : truncates mode = true → offset ≤ (t.files i).length) :
    OtsInv { s with storage := (otsWriteCb s id mode offset data).2 }
      { t with files :=
        Function.update t.files i (writeFile (t.files i) (truncates mode) offset data) } := by
  obtain ⟨⟨hids, hfiles⟩, hlive⟩ := h
  have hlive' := (hlive.imageWrite_others (i := i) (truncates mode) hfit).1
  have hcb : (otsWriteCb s id mode offset data).2 =
      if truncates mode then
        (s.storage.call (.imageWrite i offset data (truncates mode))).call
          (.updateImageInfo i (offset + data.length))
      else s.storage.call (.imageWrite i offset data (truncates mode)) := by
    unfold otsWriteCb
    rw [hids, hid]
  rw [hcb]
  cases htrunc : truncates mode with
  | false =>
    rw [htrunc] at hlive'
    refine ⟨⟨hids, fun j => ?_⟩, hlive'⟩
    by_cases hj : j = i
    · subst hj
      simp only [Function.update_self]
      exact (hfiles j).patch hlive hfit
    · simp only [Function.update_of_ne hj]
      exact (hfiles j).imageWrite_ne hlive hj false hfit
  | true =>
    rw [htrunc] at hlive'
    refine ⟨⟨hids, fun j => ?_⟩, (hlive'.updateImageInfo i hfit).1⟩
    by_cases hj : j = i
    · subst hj
      simp only [Function.update_self]
      exact (hfiles j).truncate hlive hfit (hinside htrunc)
    · simp only [Function.update_of_ne hj]
      exact ((hfiles j).imageWrite_ne hlive hj true hfit).updateImageInfo_ne hlive' hj hfit

/-- A write that does not fit changes nothing. -/
theorem OtsInv.write_refused (h : OtsInv s t) {id : ObjectId} {i : Fin maxImages}
    (hid : objectIdx t.ids id = some i) (mode : UInt8) {offset : ℕ} {data : List UInt8}
    (hwrap : offset + data.length < 4294967296) (hfit : maxImageSize < offset + data.length) :
    otsWriteCb s id mode offset data = (0, s.storage) := by
  have hrefused := h.live.imageWrite_refused i (truncates mode) hwrap hfit
  have hcall : s.storage.call (.imageWrite i offset data (truncates mode)) = s.storage := by
    show (⟨s.storage.ram, applyAll s.storage.flash (appImageStorageImageWrite s.storage.flash
      s.storage.ram i offset data (truncates mode)).2⟩ : ImageStorage) = s.storage
    rw [hrefused]
    rfl
  unfold otsWriteCb
  rw [h.holds.ids_eq, hid]
  dsimp only
  rw [hrefused, hcall, h.live.updateImageInfo_refused i hfit, ite_self]
  rfl

/-- One call of the label, where a write that truncates begins within its file. -/
theorem OtsInv.step (h : OtsInv s t) {e : OtsEvent} (hok : WriteInside t e) :
    (otsCall s e).2 = (otsSpec t e).2 ∧ OtsInv (otsCall s e).1 (otsSpec t e).1 := by
  cases e with
  | write id mode offset data =>
    have hoffset := offset.toNat_lt
    have hlength := data.length_lt
    cases hid : objectIdx t.ids id with
    | none =>
      have hcb : otsWriteCb s id mode offset.toNat data.bytes = (0, s.storage) := by
        unfold otsWriteCb
        rw [h.holds.ids_eq, hid]
      simp only [otsCall, otsSpec, hcb, hid]
      exact ⟨trivial, h⟩
    | some i =>
      by_cases hfit : offset.toNat + data.bytes.length ≤ maxImageSize
      · have hret : (otsWriteCb s id mode offset.toNat data.bytes).1 = data.bytes.length := by
          unfold otsWriteCb
          rw [h.holds.ids_eq, hid]
          dsimp only
          rw [h.live.imageWrite_eq i (truncates mode) hfit]
          exact u16_of_lt hlength
        simp only [otsCall, otsSpec, hid, if_pos hfit, hret]
        exact ⟨trivial, h.write hid mode hfit fun htrunc => hok i hid htrunc hfit⟩
      · have hcb : otsWriteCb s id mode offset.toNat data.bytes = (0, s.storage) :=
          h.write_refused hid mode (by omega) (Nat.lt_of_not_le hfit)
        simp only [otsCall, otsSpec, hid, if_neg hfit, hcb]
        exact ⟨trivial, h⟩
  | read id offset length =>
    have hoffset := offset.toNat_lt
    have hlength := length.toNat_lt
    cases hid : objectIdx t.ids id with
    | none =>
      simp only [otsCall, otsSpec, otsReadCb, h.holds.ids_eq, hid]
      exact ⟨trivial, h⟩
    | some i =>
      have hread := (h.holds.hasFile i).getImageData (n := min length.toNat otssL2capMtu) hoffset
        (Nat.lt_of_le_of_lt (Nat.min_le_left _ _) hlength)
      simp only [otsCall, otsSpec, otsReadCb, h.holds.ids_eq, hid, hread]
      exact ⟨trivial, h⟩
  | image imageIdx imageSize =>
    have hsize := imageSize.toNat_lt
    refine ⟨congrArg OtsAnswer.bytes ?_, h⟩
    by_cases hidx : imageIdx.toNat < maxImages
    · rw [dif_pos hidx]
      exact (h.holds.hasFile ⟨imageIdx.toNat, hidx⟩).getImageData (by decide) hsize
    · rw [dif_neg hidx]
      have hnone := h.live.length_none (Nat.le_of_not_lt hidx)
      unfold appImageStorageGetImageData
      rw [hnone]
  | restart ids =>
    obtain ⟨hlive, hlengths, hbytes⟩ := h.live.restart
    have hfiles (i : Fin maxImages) :
        ((ImageStorage.powerOn s.storage.flash).call .init).HasFile i (t.files i) :=
      (h.holds.hasFile i).keep (hlengths i) (hbytes i)
    have hsizes : (otsRestart s ids).1 =
        (List.finRange maxImages).map fun i => (t.files i).length := by
      unfold otsRestart
      apply List.map_congr_left
      intro i _
      exact congrArg (Option.getD · 0) (hfiles i).length_eq
    exact ⟨congrArg OtsAnswer.sizes hsizes, ⟨⟨rfl, hfiles⟩, hlive⟩⟩

/-- A write that truncates behind its file leaves a file that is longer than it should be. -/
theorem OtsInv.not_holds (h : OtsInv s t) {e : OtsEvent} (hbad : ¬ WriteInside t e) :
    ¬ (otsCall s e).1.Holds (otsSpec t e).1 := by
  cases e with
  | write id mode offset data =>
    have hoffset := offset.toNat_lt
    simp only [WriteInside, not_forall, not_le] at hbad
    obtain ⟨i, hid, htrunc, hfit, hbehind⟩ := hbad
    intro hholds
    have hlive := (h.live.imageWrite_others i (truncates mode) hfit).1
    have hlength := (hholds.hasFile i).length_eq
    have hcb : (otsWriteCb s id mode offset.toNat data.bytes).2 =
        (s.storage.call (.imageWrite i offset.toNat data.bytes (truncates mode))).call
          (.updateImageInfo i (offset.toNat + data.bytes.length)) := by
      unfold otsWriteCb
      rw [h.holds.ids_eq, hid]
      exact if_pos htrunc
    simp only [otsCall, otsSpec, hid, if_pos hfit, hcb, Function.update_self, writeFile,
      if_pos htrunc] at hlength
    rw [(hlive.updateImageInfo i hfit).2.1, List.length_append, List.length_take] at hlength
    have heq := Option.some.inj hlength
    omega
  | read => exact absurd trivial hbad
  | image => exact absurd trivial hbad
  | restart => exact absurd trivial hbad

end Refinement

/-- The label is switched on, and its images get their identifiers. -/
def OtsLabel.start (flash : Cells) (objectIds : Fin maxImages → ObjectId) : OtsLabel :=
  ⟨(ImageStorage.powerOn flash).call .init, objectIds⟩

/-- The files that are in the flash. -/
def OtsObjects.start (flash : Cells) (ids : Fin maxImages → ObjectId) : OtsObjects where
  files i := NorFlash.read flash (imageAddr i) (hdrLength (bootHdr flash) i)
  ids := ids

/-- The lengths in the flash are valid. -/
def LengthsValid (flash : Cells) : Prop :=
  ∀ i : Fin maxImages, hdrLength (bootHdr flash) i ≤ maxImageSize

theorem otsInv_start {flash : Cells} (hflash : LengthsValid flash)
    (ids : Fin maxImages → ObjectId) :
    OtsInv (OtsLabel.start flash ids) (OtsObjects.start flash ids) := by
  have hsync := inSync_powerOn flash
  refine ⟨⟨rfl, fun i => ⟨?_, ?_, ?_⟩⟩, ⟨hsync.call trivial,
    init_initialized _ _⟩⟩
  · rw [OtsObjects.start, length_read]
    exact length_call_init hsync i.isLt
  · rw [OtsObjects.start, length_read]
    exact hflash i
  · rw [OtsObjects.start, length_read]
    exact read_of_imageBytes (call_init_imageBytes (ImageStorage.powerOn flash) i) (hflash i)

/-- Every call of the label returns what the call of the objects returns, and the label holds the
objects throughout, over power cycles and whatever identifiers the service chooses, exactly if the
writes that truncate begin within their files. -/
theorem objects_refine_iff {flash : Cells} (hflash : LengthsValid flash)
    (ids : Fin maxImages → ObjectId) (es : List OtsEvent) :
    Refines (fun s e => some (otsCall s e)) otsSpec OtsLabel.Holds (OtsLabel.start flash ids)
        (OtsObjects.start flash ids) es ↔
      Along (fun t e => (otsSpec t e).1) WriteInside (OtsObjects.start flash ids) es := by
  refine refines_iff_along (fun s t (h : OtsInv s t) => h.holds) ?_ ?_ (otsInv_start hflash ids)
  · intro s t e h hok
    obtain ⟨hanswer, hinv⟩ := h.step hok
    exact ⟨(otsCall s e).1, by rw [← hanswer], hinv⟩
  · intro s t e h hbad s' hcall
    have hs' : (otsCall s e).1 = s' := congrArg Prod.fst (Option.some.inj hcall)
    rw [← hs']
    exact h.not_holds hbad

/-- An erased flash has no image yet. -/
theorem lengthsValid_erased : LengthsValid fun _ => 0xFF := by
  intro i
  rw [bootHdr_of_erased fun _ _ => rfl, hdrLength_freshHdr i.isLt]
  exact Nat.zero_le _

/-- Identifiers as the service counts them. -/
def countedId (n : UInt8) : ObjectId := #v[n, 1, 0, 0, 0, 0]

def countedIds (first : UInt8) (i : Fin maxImages) : ObjectId := countedId (first + UInt8.ofNat i)

/-- An image is written and patched, the label is switched off and on, and it is read under its new
identifier. -/
def imageTransfer : List OtsEvent :=
  [.write (countedId 3) 0x02 0 ⟨[1, 2, 3, 4], by decide⟩,
    .write (countedId 3) 0 2 ⟨[7, 8, 9], by decide⟩, .restart (countedIds 9),
    .read (countedId 12) 0 100, .image 3 2]

theorem objects_refine_iff_imageTransfer :
    Refines (fun s e => some (otsCall s e)) otsSpec OtsLabel.Holds
      (OtsLabel.start (fun _ => 0xFF) (countedIds 0))
      (OtsObjects.start (fun _ => 0xFF) (countedIds 0)) imageTransfer :=
  (objects_refine_iff lengthsValid_erased (countedIds 0) imageTransfer).mpr (by decide +kernel)

end TlBleSdk.Esl
