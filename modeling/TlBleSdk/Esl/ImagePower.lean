import TlBleSdk.Esl.ImageStorage

/-!
# The images of the label behind a power cut

The header of the image storage is updated by an erase and a program of its sector. A label
that loses its power between the two finds no header that matches when it starts again, and
takes all images as empty. Behind any other cut the images have the lengths they had, or the
one being updated has its new length, and no image is touched but the one that is written.
-/

namespace TlBleSdk.Esl

open NorFlash Hci Machine

/-- The header that `app_image_storage_init` ends with, after a reset. -/
def bootHdr (c : Cells) : StorageHdr := if (readHdr c).Matches then readHdr c else freshHdr

/-- The bytes of an image. -/
def imageBytes (c : Cells) (imageIdx : ℕ) : List UInt8 := read c (imageAddr imageIdx) maxImageSize

/-- The image a call updates. -/
def StorageCall.target : StorageCall → Option ℕ
  | .init => none
  | .imageWrite imageIdx .. => some imageIdx
  | .updateImageInfo imageIdx _ => some imageIdx

/-- `offset + length` does not wrap. -/
def StorageCall.NoWrap : StorageCall → Prop
  | .imageWrite _ offset data _ => offset + data.length < 4294967296
  | _ => True

def StorageEvent.NoWrap : StorageEvent → Prop
  | .complete c => c.NoWrap
  | .cut c _ => c.NoWrap

namespace ImageStorage

/-- The length that is reported for an image. -/
def length (s : ImageStorage) (imageIdx : ℕ) : Option ℕ :=
  appImageStorageGetImageLength s.ram imageIdx

/-- With the power cut behind `cut` operations of the call, the other images have their length
and their bytes, and the one that is updated has its old or its new length. -/
def Survives (s : ImageStorage) (c : StorageCall) (cut : ℕ) : Prop :=
  ∀ j < maxImages,
    (c.target ≠ some j → ((s.powerCut c cut).call .init).length j = (s.call .init).length j ∧
      imageBytes ((s.powerCut c cut).call .init).flash j =
        imageBytes (s.call .init).flash j) ∧
    (c.target = some j → ((s.powerCut c cut).call .init).length j = (s.call .init).length j ∨
      ((s.powerCut c cut).call .init).length j = ((s.call c).call .init).length j)

/-- The cut falls between the erase and the program of the header. -/
def HeaderGap (s : ImageStorage) (c : StorageCall) (cut : ℕ) : Prop :=
  cut = 1 ∧ ∃ imageIdx length, c = .updateImageInfo imageIdx length ∧
    s.ram.initialized = true ∧ imageIdx < maxImages ∧ length ≤ maxImageSize

end ImageStorage

/-! ## The header in flash -/

/-- The header depends on its sector alone. -/
theorem readHdr_congr {c c' : Cells}
    (h : ∀ a < sectorSize, c' (partitionAddr + a) = c (partitionAddr + a)) :
    readHdr c' = readHdr c := by
  have hread : ∀ k n, k + n ≤ sectorSize →
      read c' (partitionAddr + k) n = read c (partitionAddr + k) n := by
    intro k n hk
    apply read_congr
    intro i hi
    rw [Nat.add_assoc]
    exact h (k + i) (by omega)
  unfold readHdr
  congr 1
  · exact hread 0 8 (by decide)
  · exact h 8 (by decide)
  · exact hread 9 4 (by decide)
  · apply List.map_congr_left
    intro i hi
    have hi' : i < 32 := List.mem_range.mp hi
    rw [Nat.add_assoc]
    apply hread
    simp only [sectorSize]
    omega

theorem bootHdr_congr {c c' : Cells} (h : readHdr c' = readHdr c) : bootHdr c' = bootHdr c := by
  unfold bootHdr
  rw [h]

theorem bootHdr_ok (c : Cells) : (bootHdr c).Ok := by
  unfold bootHdr
  split
  · exact readHdr_ok ‹_›
  · exact freshHdr_ok

/-- No header matches in an erased sector. -/
theorem bootHdr_of_erased {c : Cells} (h : Erased c partitionAddr sectorSize) :
    bootHdr c = freshHdr := by
  apply if_neg
  intro hmatch
  have hmagic : read c partitionAddr 8 = magicMarker := hmatch.1
  have herased : Erased c partitionAddr 8 := fun i hi => h i (by simp only [sectorSize]; omega)
  rw [herased.read_eq] at hmagic
  exact absurd hmagic (by decide)

theorem StorageHdr.Ok.length_bytes {hdr : StorageHdr} (h : hdr.Ok) :
    hdr.bytes.length = 8 + 1 + 4 + 4 * maxImages := by
  have hflat : hdr.entries.flatten.length = 4 * maxImages := by
    rw [List.length_flatten, List.map_congr_left (g := fun _ => 4) h.length_entry,
      List.map_const', List.sum_replicate_nat, h.length_entries, Nat.mul_comm]
  rw [StorageHdr.bytes, List.length_append, List.length_append, List.length_append, hflat,
    h.length_max, h.matches_eq.1]
  rfl

/-- A header that is programmed into an erased sector is read back. -/
theorem readHdr_program {hdr : StorageHdr} (h : hdr.Ok) {c : Cells}
    (herased : Erased c partitionAddr sectorSize) :
    readHdr (program c partitionAddr hdr.bytes) = hdr := by
  have hlen := h.length_bytes
  have htakes : Takes c partitionAddr hdr.bytes := by
    apply herased.takes
    rw [hlen]
    decide
  have hread := htakes.read_program
  generalize program c partitionAddr hdr.bytes = c' at hread ⊢
  rw [hlen, read_add, read_add, read_add, StorageHdr.bytes] at hread
  obtain ⟨hfront, hentries⟩ := List.append_inj hread (by
    simp only [List.length_append, length_read, h.length_max, h.matches_eq.1]
    rfl)
  obtain ⟨hfront, hmax⟩ := List.append_inj hfront (by
    simp only [List.length_append, length_read, h.matches_eq.1]
    rfl)
  obtain ⟨hmagic, hnum⟩ := List.append_inj hfront (by rw [length_read, h.matches_eq.1]; rfl)
  have hrecords := read_records h.length_entry (by rw [h.length_entries]; exact hentries)
  rw [h.length_entries] at hrecords
  unfold readHdr
  cases hdr
  congr 1
  exact List.head_eq_of_cons_eq hnum

/-- The operations that replace the header. -/
def headerOps (hdr : StorageHdr) : List Op :=
  flashEraseSector partitionAddr :: flashWritePage partitionAddr hdr.bytes

theorem headerOps_eq {hdr : StorageHdr} (h : hdr.Ok) :
    headerOps hdr = [flashEraseSector partitionAddr, .program partitionAddr hdr.bytes] := by
  have hlen := h.length_bytes
  unfold headerOps
  rw [flashWritePage_eq_single]
  · intro hnil
    rw [hnil] at hlen
    exact absurd hlen (by decide)
  · rw [hlen]
    decide

theorem headerOps_within {hdr : StorageHdr} (h : hdr.Ok) :
    ∀ op ∈ headerOps hdr, op.Within partitionAddr (partitionAddr + sectorSize) := by
  apply rewrite_within
  rw [h.length_bytes]
  decide

/-- What a start finds behind a cut in the replacement of the header. -/
theorem bootHdr_headerOps {hdr : StorageHdr} (h : hdr.Ok) (c : Cells) (cut : ℕ) :
    bootHdr (applyAll c ((headerOps hdr).take cut)) =
      if cut = 0 then bootHdr c else if cut = 1 then freshHdr else hdr := by
  have herased : Erased (erase c partitionAddr sectorSize) partitionAddr sectorSize :=
    fun i hi => erase_apply c hi
  rw [headerOps_eq h]
  match cut with
  | 0 => rfl
  -- between the erase and the write there is no header
  | 1 => exact bootHdr_of_erased herased
  | cut + 2 =>
    rw [List.take_of_length_le (by simp), if_neg (by omega), if_neg (by omega)]
    show bootHdr (program (erase c partitionAddr sectorSize) partitionAddr hdr.bytes) = hdr
    unfold bootHdr
    rw [readHdr_program h herased]
    exact if_pos h.matches_eq

theorem readHdr_headerOps {hdr : StorageHdr} (h : hdr.Ok) (c : Cells) :
    readHdr (applyAll c (headerOps hdr)) = hdr := by
  rw [headerOps_eq h]
  exact readHdr_program h fun i hi => erase_apply c hi

/-! ## The entries -/

/-- The bytes of an image outside of the range that is changed. -/
theorem imageBytes_of_within {ops : List Op} {lo hi j : ℕ} (h : ∀ op ∈ ops, op.Within lo hi)
    (hout : imageAddr j + imageEntrySize ≤ lo ∨ hi ≤ imageAddr j) (c : Cells) :
    imageBytes (applyAll c ops) j = imageBytes c j := by
  apply read_congr
  intro i hi'
  apply applyAll_of_within h
  simp only [maxImageSize, imageEntrySize_eq] at hi' hout
  omega

/-- The header is in front of all images. -/
theorem imageBytes_of_header {ops : List Op}
    (h : ∀ op ∈ ops, op.Within partitionAddr (partitionAddr + sectorSize)) (c : Cells) (j : ℕ) :
    imageBytes (applyAll c ops) j = imageBytes c j :=
  imageBytes_of_within h (.inr (Nat.le_add_right _ _)) c

/-- The header does not see what happens to the images. -/
theorem readHdr_of_entry {ops : List Op} {imageIdx : ℕ}
    (h : ∀ op ∈ ops, op.Within (imageAddr imageIdx) (imageAddr imageIdx + imageEntrySize))
    (c : Cells) : readHdr (applyAll c ops) = readHdr c := by
  apply readHdr_congr
  intro a ha
  apply applyAll_of_within h (.inl _)
  simp only [imageAddr]
  omega

theorem within_take {ops : List Op} {lo hi : ℕ} (h : ∀ op ∈ ops, op.Within lo hi) (cut : ℕ) :
    ∀ op ∈ ops.take cut, op.Within lo hi :=
  fun op hop => h op (List.mem_of_mem_take hop)

/-- A write that does not wrap stays in the entry of its image. -/
theorem imageWrite_within {s : ImageStorage} (hok : s.ram.Ok) {imageIdx offset : ℕ}
    {data : List UInt8} {truncate : Bool}
    (hwrap : (StorageCall.imageWrite imageIdx offset data truncate).NoWrap) :
    ∀ op ∈ s.ops (.imageWrite imageIdx offset data truncate),
      op.Within (imageAddr imageIdx) (imageAddr imageIdx + imageEntrySize) := by
  by_cases hfit : s.ram.initialized = true ∧ imageIdx < maxImages ∧
      offset + data.length ≤ maxImageSize
  · obtain ⟨hinit, hidx, hfit⟩ := hfit
    have heq := @imageWrite_eq s.flash s.ram hok hinit imageIdx offset data truncate hidx hfit
    show ∀ op ∈ (appImageStorageImageWrite s.flash s.ram imageIdx offset data truncate).2, _
    rw [heq]
    exact imageWriteLoop_entry s.flash truncate hidx hfit
  · -- the call is refused
    have hnil := imageWrite_refused hok s.flash truncate hwrap hfit
    intro op hop
    rw [ImageStorage.ops, hnil] at hop
    cases hop

/-! ## Power cuts -/

/-- Behind a start, the header in the RAM is the one in the flash. -/
def ImageStorage.InSync (s : ImageStorage) : Prop :=
  s.ram.Ok ∧ (s.ram.initialized = true → readHdr s.flash = s.ram.hdr)

theorem inSync_powerOn (flash : Cells) : (ImageStorage.powerOn flash).InSync :=
  ⟨zero_ok, fun h => absurd h Bool.false_ne_true⟩

theorem inSync_step {s : ImageStorage} (h : s.InSync) {ev : StorageEvent} (hwrap : ev.NoWrap) :
    (storageStep s ev).InSync := by
  obtain ⟨hok, hsync⟩ := h
  cases ev with
  | cut c cut => exact ⟨zero_ok, fun h => absurd h Bool.false_ne_true⟩
  | complete c =>
    refine ⟨ramAfter_ok hok c, ?_⟩
    cases c with
    | init =>
      show (appImageStorageInit s.flash s.ram).1.initialized = true →
        readHdr (applyAll s.flash (appImageStorageInit s.flash s.ram).2) =
          (appImageStorageInit s.flash s.ram).1.hdr
      intro _
      rcases init_cases s.flash s.ram with ⟨hinit, heq⟩ | ⟨_, _, heq⟩ | ⟨_, _, heq⟩ <;> rw [heq]
      · exact hsync hinit
      · rfl
      · exact readHdr_headerOps freshHdr_ok s.flash
    | imageWrite imageIdx offset data truncate =>
      intro hinit
      show readHdr (applyAll s.flash _) = s.ram.hdr
      rw [readHdr_of_entry (imageWrite_within hok hwrap)]
      exact hsync hinit
    | updateImageInfo imageIdx length =>
      show (appImageStorageUpdateImageInfo s.ram imageIdx length).2.1.initialized = true →
        readHdr (applyAll s.flash (appImageStorageUpdateImageInfo s.ram imageIdx length).2.2) =
          (appImageStorageUpdateImageInfo s.ram imageIdx length).2.1.hdr
      rcases updateImageInfo_cases hok imageIdx length with ⟨heq, _⟩ | ⟨hinit, _, _, heq⟩ <;>
        rw [heq]
      · exact hsync
      · exact fun _ => readHdr_headerOps ((hok hinit).set imageIdx length) s.flash

theorem run_inSync (flash : Cells) {evs : List StorageEvent} (hwrap : ∀ ev ∈ evs, ev.NoWrap) :
    (run storageStep (.powerOn flash) evs).InSync := by
  have hstep : ∀ (s : ImageStorage) (ev : StorageEvent), s.InSync → ev.NoWrap →
      (storageStep s ev).InSync := fun s ev hs hev => inSync_step hs hev
  exact run_invariant hstep (inSync_powerOn flash) (along_of_forall_mem _ hwrap)

section Cut

variable {s : ImageStorage}

/-- The statics behind a start are those of the header in flash. -/
theorem call_init_ram (h : s.InSync) : (s.call .init).ram = ⟨true, bootHdr s.flash⟩ := by
  obtain ⟨hok, hsync⟩ := h
  show (appImageStorageInit s.flash s.ram).1 = _
  unfold bootHdr
  rcases init_cases s.flash s.ram with ⟨hinit, heq⟩ | ⟨_, hmatch, heq⟩ | ⟨_, hmatch, heq⟩ <;>
    rw [heq]
  · have hhdr := hsync hinit
    rw [hhdr, if_pos (hok hinit).matches_eq]
    show s.ram = ⟨true, s.ram.hdr⟩
    rw [← hinit]
  · rw [if_pos hmatch]
  · -- without a header in the flash the start makes one
    rw [if_neg hmatch]

/-- A start changes no image. -/
theorem call_init_imageBytes (s : ImageStorage) (j : ℕ) :
    imageBytes (s.call .init).flash j = imageBytes s.flash j := by
  show imageBytes (applyAll s.flash (appImageStorageInit s.flash s.ram).2) j = _
  rcases init_cases s.flash s.ram with ⟨_, heq⟩ | ⟨_, _, heq⟩ | ⟨_, _, heq⟩ <;> rw [heq]
  · rfl
  · rfl
  · exact imageBytes_of_header (headerOps_within freshHdr_ok) s.flash j

/-- The length of an image in a header. -/
def hdrLength (hdr : StorageHdr) (j : ℕ) : ℕ := bytesToUint32 (mem (hdr.entries.getD j [])) 0

theorem length_of_ram {hdr : StorageHdr} (hram : s.ram = ⟨true, hdr⟩) (h : hdr.Ok) {j : ℕ}
    (hj : j < maxImages) : s.length j = some (hdrLength hdr j) := by
  unfold ImageStorage.length appImageStorageGetImageLength
  rw [hram]
  simp only [Bool.not_true, Bool.false_or, decide_eq_true_eq, h.numImages_eq]
  exact if_neg (by omega)

theorem hdrLength_freshHdr {j : ℕ} (hj : j < maxImages) : hdrLength freshHdr j = 0 := by
  unfold hdrLength freshHdr
  rw [List.getD_eq_getElem _ _ (by rwa [List.length_replicate]), List.getElem_replicate]
  rfl

theorem hdrLength_set (hdr : StorageHdr) {imageIdx length j : ℕ}
    (hj : imageIdx ≠ j) :
    hdrLength { hdr with entries := hdr.entries.set imageIdx (u32ToStream length) } j =
      hdrLength hdr j := by
  unfold hdrLength
  simp only [List.getD_eq_getElem?_getD, List.getElem?_set_ne hj]

/-- An update that is accepted. -/
theorem updateImageInfo_accepted (h : s.InSync) (hinit : s.ram.initialized = true)
    {imageIdx length : ℕ} (hidx : imageIdx < maxImages) (hlength : length ≤ maxImageSize) :
    (s.call (.updateImageInfo imageIdx length)).ram = ⟨true, { s.ram.hdr with
        entries := s.ram.hdr.entries.set imageIdx (u32ToStream length) }⟩ ∧
      s.ops (.updateImageInfo imageIdx length) = headerOps { s.ram.hdr with
        entries := s.ram.hdr.entries.set imageIdx (u32ToStream length) } := by
  rcases updateImageInfo_cases h.1 imageIdx length with ⟨_, hrefused⟩ | ⟨_, _, _, heq⟩
  · exact absurd ⟨hinit, hidx, hlength⟩ hrefused
  · constructor
    · rw [ImageStorage.call, ImageStorage.ramAfter, heq]
    · rw [ImageStorage.ops, heq]
      rfl

/-- An accepted update sets the length that is reported. -/
theorem length_updateImageInfo (h : s.InSync) (hinit : s.ram.initialized = true)
    {imageIdx length : ℕ} (hidx : imageIdx < maxImages) (hlength : length ≤ maxImageSize) :
    (s.call (.updateImageInfo imageIdx length)).length imageIdx = some length := by
  have hok := h.1 hinit
  rw [length_of_ram (updateImageInfo_accepted h hinit hidx hlength).1 (hok.set imageIdx length)
    hidx]
  have hlen : imageIdx < (s.ram.hdr.entries.set imageIdx (u32ToStream length)).length := by
    rwa [List.length_set, hok.length_entries]
  unfold hdrLength
  rw [List.getD_eq_getElem _ _ hlen, List.getElem_set_self, bytesToUint32_u32ToStream]
  simp only [maxImageSize] at hlength
  omega

/-- The lengths that a start reports depend on the header in flash. -/
theorem length_call_init (h : s.InSync) {j : ℕ} (hj : j < maxImages) :
    (s.call .init).length j = some (hdrLength (bootHdr s.flash) j) :=
  length_of_ram (call_init_ram h) (bootHdr_ok _) hj

theorem inSync_powerCut (s : ImageStorage) (c : StorageCall) (cut : ℕ) :
    (s.powerCut c cut).InSync :=
  ⟨zero_ok, fun h => absurd h Bool.false_ne_true⟩

/-- A cut in a call leaves the images that it does not update. -/
theorem powerCut_imageBytes (h : s.InSync) {c : StorageCall} (hwrap : c.NoWrap) (cut : ℕ) {j : ℕ}
    (hj : c.target ≠ some j) :
    imageBytes (s.powerCut c cut).flash j = imageBytes s.flash j := by
  obtain ⟨hok, _⟩ := h
  cases c with
  | init =>
    apply imageBytes_of_header
    apply within_take
    show ∀ op ∈ (appImageStorageInit s.flash s.ram).2, _
    rcases init_cases s.flash s.ram with ⟨_, heq⟩ | ⟨_, _, heq⟩ | ⟨_, _, heq⟩ <;> rw [heq]
    · exact fun op hop => by cases hop
    · exact fun op hop => by cases hop
    · exact headerOps_within freshHdr_ok
  | imageWrite imageIdx offset data truncate =>
    have hne : imageIdx ≠ j := fun heq => hj (congrArg some heq)
    exact imageBytes_of_within (within_take (imageWrite_within hok hwrap) cut)
      (imageAddr_apart hne).symm s.flash
  | updateImageInfo imageIdx length =>
    apply imageBytes_of_header
    apply within_take
    show ∀ op ∈ (appImageStorageUpdateImageInfo s.ram imageIdx length).2.2, _
    rcases updateImageInfo_cases hok imageIdx length with ⟨heq, _⟩ | ⟨hinit, _, _, heq⟩ <;> rw [heq]
    · exact fun op hop => by cases hop
    · exact headerOps_within ((hok hinit).set imageIdx length)

/-- Behind a start, a header in flash matches. -/
theorem ImageStorage.InSync.bootHdr_eq (h : s.InSync) (hinit : s.ram.initialized = true) :
    bootHdr s.flash = s.ram.hdr := by
  have hhdr := h.2 hinit
  unfold bootHdr
  rw [hhdr, if_pos (h.1 hinit).matches_eq]

/-- A cut in a start: there was no header, or the new one has no image either. -/
theorem powerCut_init_bootHdr (s : ImageStorage) (cut : ℕ) :
    bootHdr (s.powerCut .init cut).flash = bootHdr s.flash := by
  show bootHdr (applyAll s.flash ((appImageStorageInit s.flash s.ram).2.take cut)) = _
  rcases init_cases s.flash s.ram with ⟨_, heq⟩ | ⟨_, _, heq⟩ | ⟨_, hmatch, heq⟩ <;> rw [heq]
  · rw [List.take_nil, applyAll_nil]
  · rw [List.take_nil, applyAll_nil]
  · have hold : bootHdr s.flash = freshHdr := if_neg hmatch
    have hcut := bootHdr_headerOps freshHdr_ok s.flash cut
    rw [hold, ite_self, ite_self] at hcut
    rw [hold]
    exact hcut

/-- A cut in an update that is accepted: the header is erased and then written. -/
theorem powerCut_updateImageInfo_bootHdr (h : s.InSync) (hinit : s.ram.initialized = true)
    {imageIdx length : ℕ} (hidx : imageIdx < maxImages) (hlength : length ≤ maxImageSize)
    (cut : ℕ) :
    bootHdr (s.powerCut (.updateImageInfo imageIdx length) cut).flash =
      if cut = 0 then bootHdr s.flash else if cut = 1 then freshHdr
      else bootHdr (s.call (.updateImageInfo imageIdx length)).flash := by
  obtain ⟨hram, hops⟩ := updateImageInfo_accepted h hinit hidx hlength
  have hsync : (s.call (.updateImageInfo imageIdx length)).InSync :=
    @inSync_step s h (.complete (.updateImageInfo imageIdx length)) trivial
  rw [hsync.bootHdr_eq (by rw [hram]), hram, ImageStorage.powerCut, hops]
  exact bootHdr_headerOps ((h.1 hinit).set imageIdx length) s.flash cut

/-- An update leaves the lengths of the other images. -/
theorem updateImageInfo_hdrLength (h : s.InSync) (hinit : s.ram.initialized = true)
    {imageIdx length : ℕ} (hidx : imageIdx < maxImages) (hlength : length ≤ maxImageSize) {j : ℕ}
    (hj : imageIdx ≠ j) :
    hdrLength (bootHdr (s.call (.updateImageInfo imageIdx length)).flash) j =
      hdrLength (bootHdr s.flash) j := by
  obtain ⟨hram, -⟩ := updateImageInfo_accepted h hinit hidx hlength
  have hsync : (s.call (.updateImageInfo imageIdx length)).InSync :=
    @inSync_step s h (.complete (.updateImageInfo imageIdx length)) trivial
  rw [hsync.bootHdr_eq (by rw [hram]), hram, h.bootHdr_eq hinit]
  exact hdrLength_set _ hj

/-- What a start finds behind a cut: no header, the old one, or the one of the complete call. -/
theorem powerCut_bootHdr (h : s.InSync) {c : StorageCall} (hwrap : c.NoWrap) (cut : ℕ) :
    (s.HeaderGap c cut ∧ bootHdr (s.powerCut c cut).flash = freshHdr) ∨
      (¬s.HeaderGap c cut ∧ bootHdr (s.powerCut c cut).flash = bootHdr s.flash) ∨
      (¬s.HeaderGap c cut ∧ bootHdr (s.powerCut c cut).flash = bootHdr (s.call c).flash ∧
        ∃ imageIdx, c.target = some imageIdx ∧ ∀ j, imageIdx ≠ j →
          hdrLength (bootHdr (s.call c).flash) j = hdrLength (bootHdr s.flash) j) := by
  have hok := h.1
  cases c with
  | init =>
    have hgap : ¬s.HeaderGap .init cut := by
      rintro ⟨_, _, _, heq, _⟩
      cases heq
    exact .inr (.inl ⟨hgap, powerCut_init_bootHdr s cut⟩)
  | imageWrite imageIdx offset data truncate =>
    have hgap : ¬s.HeaderGap (.imageWrite imageIdx offset data truncate) cut := by
      rintro ⟨_, _, _, heq, _⟩
      cases heq
    exact .inr (.inl ⟨hgap, bootHdr_congr
      (readHdr_of_entry (within_take (imageWrite_within hok hwrap) cut) s.flash)⟩)
  | updateImageInfo imageIdx length =>
    rcases updateImageInfo_cases hok imageIdx length with ⟨heq, hrefused⟩ |
      ⟨hinit, hidx, hlength, heq⟩
    · have hgap : ¬s.HeaderGap (.updateImageInfo imageIdx length) cut := by
        rintro ⟨_, _, _, hcall, hinit, hidx, hlength⟩
        cases hcall
        exact hrefused ⟨hinit, hidx, hlength⟩
      have hops : s.ops (.updateImageInfo imageIdx length) = [] := by
        rw [ImageStorage.ops, heq]
      refine .inr (.inl ⟨hgap, ?_⟩)
      rw [ImageStorage.powerCut, hops, List.take_nil, applyAll_nil]
    · have hcut := powerCut_updateImageInfo_bootHdr h hinit hidx hlength cut
      by_cases hcut0 : cut = 0
      · rw [if_pos hcut0] at hcut
        exact .inr (.inl ⟨fun hgap => by have := hgap.1; omega, hcut⟩)
      rw [if_neg hcut0] at hcut
      by_cases hcut1 : cut = 1
      · rw [if_pos hcut1] at hcut
        exact .inl ⟨⟨hcut1, imageIdx, length, rfl, hinit, hidx, hlength⟩, hcut⟩
      · rw [if_neg hcut1] at hcut
        exact .inr (.inr ⟨fun hgap => hcut1 hgap.1, hcut, imageIdx, rfl,
          fun j hj => updateImageInfo_hdrLength h hinit hidx hlength hj⟩)

/-- A start behind a cut in the header takes all images as empty. -/
theorem length_of_headerGap (h : s.InSync) {c : StorageCall} (hwrap : c.NoWrap) {cut : ℕ}
    (hgap : s.HeaderGap c cut) {j : ℕ} (hj : j < maxImages) :
    ((s.powerCut c cut).call .init).length j = some 0 := by
  rw [length_call_init (inSync_powerCut s c cut) hj]
  rcases powerCut_bootHdr h hwrap cut with ⟨_, hhdr⟩ | ⟨hno, _⟩ | ⟨hno, _⟩
  · rw [hhdr, hdrLength_freshHdr hj]
  · exact absurd hgap hno
  · exact absurd hgap hno

/-- Behind any other cut, the lengths are those before the call, or the new one of the image
that it updates. -/
theorem length_of_not_headerGap (h : s.InSync) {c : StorageCall} (hwrap : c.NoWrap) {cut : ℕ}
    (hgap : ¬s.HeaderGap c cut) {j : ℕ} (hj : j < maxImages) :
    ((s.powerCut c cut).call .init).length j = (s.call .init).length j ∨
      (c.target = some j ∧
        ((s.powerCut c cut).call .init).length j = ((s.call c).call .init).length j) := by
  have hcall : (s.call c).InSync := @inSync_step s h (.complete c) hwrap
  rw [length_call_init (inSync_powerCut s c cut) hj, length_call_init h hj,
    length_call_init hcall hj]
  rcases powerCut_bootHdr h hwrap cut with ⟨hyes, _⟩ | ⟨_, hhdr⟩ |
    ⟨_, hhdr, imageIdx, htarget, hlen⟩
  · exact absurd hyes hgap
  · rw [hhdr]
    exact .inl rfl
  · rw [hhdr]
    by_cases hidx : imageIdx = j
    · exact .inr ⟨by rw [htarget, hidx], rfl⟩
    · exact .inl (congrArg some (hlen j hidx))

end Cut

/-- Whatever calls and power cuts went before, none of them with an offset that wraps, and
wherever the power is cut in a call: the other images keep their bytes, and unless the cut falls
between the erase and the program of the header they keep their lengths, and the image of the
call has its old or its new one. Behind a cut in that gap all images are empty. -/
theorem power_cut_law (flash : Cells) (evs : List StorageEvent) (hwrap : ∀ ev ∈ evs, ev.NoWrap)
    (c : StorageCall) (hc : c.NoWrap) (cut : ℕ) :
    let s := run storageStep (.powerOn flash) evs
    (¬s.HeaderGap c cut → s.Survives c cut) ∧
      (s.HeaderGap c cut → ∀ j < maxImages,
        ((s.powerCut c cut).call .init).length j = some 0) ∧
      ∀ j < maxImages, c.target ≠ some j →
        imageBytes ((s.powerCut c cut).call .init).flash j =
          imageBytes (s.call .init).flash j := by
  intro s
  have hsync : s.InSync := run_inSync flash hwrap
  have hbytes : ∀ j < maxImages, c.target ≠ some j →
      imageBytes ((s.powerCut c cut).call .init).flash j = imageBytes (s.call .init).flash j := by
    intro j _ htarget
    rw [call_init_imageBytes, call_init_imageBytes, powerCut_imageBytes hsync hc cut htarget]
  refine ⟨fun hgap j hj => ⟨fun htarget => ⟨?_, hbytes j hj htarget⟩, fun _ => ?_⟩,
    fun hgap j hj => length_of_headerGap hsync hc hgap hj, hbytes⟩
  · rcases length_of_not_headerGap hsync hc hgap hj with hold | ⟨hsame, _⟩
    · exact hold
    · exact absurd hsame htarget
  · exact (length_of_not_headerGap hsync hc hgap hj).imp id And.right

/-- The power is cut in a write of another image, behind the erase of its sector. -/
theorem power_cut_law_write :
    (run storageStep (.powerOn fun _ => 0xFF)
      [.complete .init, .complete (.updateImageInfo 0 5)]).Survives
        (.imageWrite 1 3 [1, 2] false) 1 :=
  (power_cut_law (fun _ => 0xFF) [.complete .init, .complete (.updateImageInfo 0 5)]
    (by simp [StorageEvent.NoWrap, StorageCall.NoWrap]) (.imageWrite 1 3 [1, 2] false)
    (by simp [StorageCall.NoWrap]) 1).1 (by rintro ⟨_, _, _, heq, _⟩; cases heq)

/-- The power is cut in the update of the length of one image, and the other image is gone. -/
theorem power_cut_law_update :
    let s := run storageStep (.powerOn fun _ => 0xFF)
      [.complete .init, .complete (.updateImageInfo 0 5)]
    ¬s.Survives (.updateImageInfo 1 7) 1 := by
  intro s h
  have hsync : s.InSync := run_inSync _ (by simp [StorageEvent.NoWrap, StorageCall.NoWrap])
  have hgap : s.HeaderGap (.updateImageInfo 1 7) 1 :=
    ⟨rfl, 1, 7, rfl, by decide, by decide, by decide⟩
  have hkept := ((h 0 (by decide)).1 (by decide)).1
  have hc : (StorageCall.updateImageInfo 1 7).NoWrap := trivial
  rw [length_of_headerGap hsync hc hgap (by decide)] at hkept
  have hold : (s.call .init).length 0 = some 5 := by decide
  rw [hold] at hkept
  cases hkept

end TlBleSdk.Esl
