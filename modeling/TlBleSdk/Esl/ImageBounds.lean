import TlBleSdk.Esl.ImagePower

/-!
# Offsets near the end of the range

Both `app_image_storage_image_write` and `app_image_storage_get_image_data` add the offset to
the length in `u32` before they compare. Where the sum does not wrap they keep to the entry of
the image and to the stored image. Where it wraps, the write is accepted as if it were near
the start of the image, and the read is not cut.
-/

namespace TlBleSdk.Esl

open Hci NorFlash Machine

namespace ImageStorage

/-- What is wanted of a write of `data`, and of a read of as many bytes, at the offset. -/
structure ArgsOk (s : ImageStorage) (imageIdx offset : ℕ) (data : List UInt8) (truncate : Bool) :
    Prop where
  /-- No byte outside the entry of the image changes. -/
  frame : ∀ a, a < imageAddr imageIdx ∨ imageAddr imageIdx + imageEntrySize ≤ a →
    (s.call (.imageWrite imageIdx offset data truncate)).flash a = s.flash a
  /-- A write that does not end in the image is refused. -/
  refuses : ¬ offset + data.length ≤ maxImageSize →
    appImageStorageImageWrite s.flash s.ram imageIdx offset data truncate = (0, [])
  /-- A read is cut at the end of the stored image. -/
  copies : (appImageStorageGetImageData s.flash s.ram imageIdx offset data.length).length =
    min data.length ((s.length imageIdx).getD 0 - offset)

/-- The write is refused for an end of the image at `sum`. -/
def Refuses (s : ImageStorage) (imageIdx sum : ℕ) : Prop :=
  s.ram.initialized = false ∨ maxImages ≤ imageIdx ∨ maxImageSize < sum

variable {s : ImageStorage} {imageIdx offset : ℕ} {data : List UInt8} {truncate : Bool}

/-- The code refuses by the sum in `u32`. -/
theorem imageWrite_of_refuses (hok : s.ram.Ok)
    (h : s.Refuses imageIdx (u32 (offset + data.length))) :
    appImageStorageImageWrite s.flash s.ram imageIdx offset data truncate = (0, []) := by
  obtain ⟨⟨initialized, hdr⟩, flash⟩ := s
  unfold appImageStorageImageWrite
  cases initialized with
  | false => rfl
  | true =>
    have hdrOk : hdr.Ok := hok rfl
    simp only [Bool.not_true, Bool.false_or, decide_eq_true_eq, hdrOk.numImages_eq,
      hdrOk.maxLength_eq]
    rcases h with h | h | h
    · cases h
    · exact if_pos h
    · rw [if_pos h, ite_self]

theorem imageWrite_of_not_refuses (hok : s.ram.Ok)
    (h : ¬ s.Refuses imageIdx (u32 (offset + data.length))) :
    (appImageStorageImageWrite s.flash s.ram imageIdx offset data truncate).1 = data.length := by
  obtain ⟨⟨initialized, hdr⟩, flash⟩ := s
  unfold appImageStorageImageWrite
  cases initialized with
  | false => exact absurd (.inl rfl) h
  | true =>
    have hdrOk : hdr.Ok := hok rfl
    simp only [Refuses, not_or] at h
    simp only [Bool.not_true, Bool.false_or, decide_eq_true_eq, hdrOk.numImages_eq,
      hdrOk.maxLength_eq]
    rw [if_neg h.2.1, if_neg h.2.2]

/-- What a read copies. -/
theorem length_getImageData (s : ImageStorage) (imageIdx offset length : ℕ) :
    (appImageStorageGetImageData s.flash s.ram imageIdx offset length).length =
      if (s.length imageIdx).getD 0 ≤ offset then 0
      else if (s.length imageIdx).getD 0 < u32 (offset + length) then
        (s.length imageIdx).getD 0 - offset
      else length := by
  unfold appImageStorageGetImageData ImageStorage.length
  cases appImageStorageGetImageLength s.ram imageIdx with
  | none =>
    rw [Option.getD_none, if_pos (Nat.zero_le offset)]
    rfl
  | some imageLength =>
    rw [Option.getD_some]
    dsimp only
    split
    · rfl
    · rw [length_read]

theorem bytesToUint32_lt (p : ℕ → UInt8) (i : ℕ) : bytesToUint32 p i < 4294967296 := by
  have h0 := (p i).toNat_lt
  have h1 := (p (i + 1)).toNat_lt
  have h2 := (p (i + 2)).toNat_lt
  have h3 := (p (i + 3)).toNat_lt
  unfold bytesToUint32
  omega

theorem length_lt (s : ImageStorage) (imageIdx : ℕ) : (s.length imageIdx).getD 0 < 4294967296 := by
  unfold ImageStorage.length appImageStorageGetImageLength
  split
  · exact Nat.zero_lt_succ _
  · rw [Option.getD_some]
    exact bytesToUint32_lt _ _

/-- Where the sum does not wrap, all is as wanted. -/
theorem argsOk_of_noWrap (hok : s.ram.Ok) (hwrap : offset + data.length < 4294967296) :
    s.ArgsOk imageIdx offset data truncate where
  frame a ha := by
    have hin := imageWrite_within hok
      (show (StorageCall.imageWrite imageIdx offset data truncate).NoWrap from hwrap)
    exact applyAll_of_within hin ha s.flash
  refuses h := imageWrite_refused hok s.flash truncate hwrap fun hfit => h hfit.2.2
  copies := by
    rw [length_getImageData, u32_of_lt hwrap]
    split
    · omega
    · split <;> omega

/-- A wrapped sum is less than the offset. -/
theorem u32_lt_of_wrap (hoffset : offset < 4294967296) {length : ℕ} (hlength : length < 4294967296)
    (hwrap : 4294967296 ≤ offset + length) : u32 (offset + length) < offset := by
  unfold u32
  omega

/-- Where it wraps, the write has to be refused for its small sum, and the read to be behind
the stored image. -/
theorem argsOk_of_wrap (hok : s.ram.Ok) (hoffset : offset < 4294967296)
    (hlength : data.length < 4294967296) (hwrap : 4294967296 ≤ offset + data.length) :
    s.ArgsOk imageIdx offset data truncate ↔
      s.Refuses imageIdx (u32 (offset + data.length)) ∧ (s.length imageIdx).getD 0 ≤ offset := by
  have hlarge : ¬ offset + data.length ≤ maxImageSize := by
    have hmax : maxImageSize = 4736 := rfl
    omega
  have hlt := s.length_lt imageIdx
  have hsum := u32_lt_of_wrap hoffset hlength hwrap
  constructor
  · intro h
    have hrefused := h.refuses hlarge
    have hcopies := h.copies
    constructor
    · by_contra hnot
      have hlen : (appImageStorageImageWrite s.flash s.ram imageIdx offset data truncate).1 =
          data.length := imageWrite_of_not_refuses hok hnot
      rw [hrefused] at hlen
      omega
    · -- In the stored image, the read would be as long as it was asked to be.
      by_contra hin
      rw [length_getImageData, if_neg hin, if_neg (by omega)] at hcopies
      omega
  · rintro ⟨hrefuses, hbehind⟩
    have hrefused : appImageStorageImageWrite s.flash s.ram imageIdx offset data truncate =
        (0, []) := imageWrite_of_refuses hok hrefuses
    refine ⟨fun a _ => ?_, fun _ => hrefused, ?_⟩
    · rw [ImageStorage.call, ImageStorage.ops, hrefused]
      rfl
    · rw [length_getImageData, if_pos hbehind]
      omega

/-- Whatever happened to the storage before: a write and a read keep to the image exactly if
the sum of the offset and the length does not wrap, or what it wraps to is refused by the
write and the offset is behind the stored image. -/
theorem argsOk_iff (flash : Cells) (evs : List StorageEvent) (imageIdx offset : ℕ)
    (data : List UInt8) (truncate : Bool) (hoffset : offset < 4294967296)
    (hlength : data.length < 4294967296) :
    (run storageStep (.powerOn flash) evs).ArgsOk imageIdx offset data truncate ↔
      offset + data.length < 4294967296 ∨
        (run storageStep (.powerOn flash) evs).Refuses imageIdx (u32 (offset + data.length)) ∧
          ((run storageStep (.powerOn flash) evs).length imageIdx).getD 0 ≤ offset := by
  have hok := run_ram_ok flash evs
  by_cases hwrap : offset + data.length < 4294967296
  · exact iff_of_true (argsOk_of_noWrap hok hwrap) (.inl hwrap)
  · rw [argsOk_of_wrap hok hoffset hlength (Nat.not_lt.mp hwrap), or_iff_right hwrap]

theorem argsOk_iff_example :
    (run storageStep (.powerOn fun _ => 0) [.complete .init]).ArgsOk 3 4094 [1, 2, 3, 4] true ↔
      4094 + [(1 : UInt8), 2, 3, 4].length < 4294967296 ∨
        (run storageStep (.powerOn fun _ => 0) [.complete .init]).Refuses 3
          (u32 (4094 + [(1 : UInt8), 2, 3, 4].length)) ∧
            ((run storageStep (.powerOn fun _ => 0) [.complete .init]).length 3).getD 0 ≤ 4094 :=
  argsOk_iff (fun _ => 0) [.complete .init] 3 4094 [1, 2, 3, 4] true (by decide) (by decide)

/-- A byte at the last offset of all is written in front of the image. -/
theorem not_argsOk_last :
    ¬ ∀ (flash : Cells) (evs : List StorageEvent) (imageIdx offset : ℕ) (data : List UInt8)
      (truncate : Bool), offset < 4294967296 → data.length < 4294967296 →
        (run storageStep (.powerOn flash) evs).ArgsOk imageIdx offset data truncate := by
  intro h
  have hlast := (h (fun _ => 0) [.complete .init] 0 4294967295 [0x55] true (by decide)
    (by decide)).refuses (by decide)
  have hok := run_ram_ok (fun _ => 0) [.complete .init]
  have hinit : (run storageStep (.powerOn fun _ => 0) [.complete .init]).ram.initialized = true :=
    init_initialized _ _
  generalize run storageStep (.powerOn fun _ => 0) [.complete .init] = s at hlast hok hinit
  have hnot : ¬ s.Refuses 0 (u32 (4294967295 + [(0x55 : UInt8)].length)) := by
    rintro (hno | hidx | hmax)
    · rw [hinit] at hno
      cases hno
    · exact absurd hidx (by decide)
    · exact absurd hmax (by decide)
  have haccepted : (appImageStorageImageWrite s.flash s.ram 0 4294967295 [0x55] true).1 =
      [(0x55 : UInt8)].length := imageWrite_of_not_refuses hok hnot
  rw [hlast] at haccepted
  exact absurd haccepted (by decide)

end ImageStorage

end TlBleSdk.Esl
