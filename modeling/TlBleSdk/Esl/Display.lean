import TlBleSdk.Esl.Defs
import TlBleSdk.Esl.EpdDisplay
import TlBleSdk.Esl.ImageStorage

/-!
# From the command to the panel

The way of an image to the panel: a command or a timed command of `app_esl.c` asks for it,
`displayControlDataLoop` loads it from the image storage when the panel is free, and the driver
sends it. Between any two of these the object transfer service can write images and set their
lengths.

The label has one display, of the panel's size. The vendor image is drawn by code that is not
modelled; what it draws is a parameter of the load.
-/

namespace TlBleSdk.Esl

open Hci NorFlash Machine

/-- The label: the data of the application, the driver of the panel, the image storage and the
index of the vendor image. -/
structure Label where
  esl : EslApp
  epd : EpdDisplay
  storage : ImageStorage
  vendorImageIdx : ℕ

namespace Label

/-- `app_image_storage_get_image_length` as the commands call it, with zero where it fails. -/
def imageLength (s : Label) (imageIdx : ℕ) : ℕ :=
  (appImageStorageGetImageLength s.storage.ram imageIdx).getD 0

/-- What a command reads of the label. The rest comes from drivers that are not part of it. -/
def env (s : Label) (e : EslEnv) : EslEnv :=
  { e with
    imageLength := s.imageLength
    expectedImageLength := fun displayId => if displayId = 0 then appEpdDisplayImageSize else 0
    vendorImageIdx := s.vendorImageIdx }

/-- `ots_write_cb`, for the image of the object. -/
def otsWriteCb (s : Label) (imageIdx : ℕ) (truncate : Bool) (offset : ℕ) (data : List UInt8) :
    Label :=
  let storage := s.storage.call (.imageWrite imageIdx offset data truncate)
  { s with
    storage := if truncate then storage.call (.updateImageInfo imageIdx (offset + data.length))
      else storage }

/-- The data of the display, without a new image. -/
def noNewImage (s : Label) : EslApp :=
  s.esl.setDisplay 0 { s.esl.displayControlData 0 with newImage := false }

/-- `displayControlDataLoop`, at the time `now`. The size of the vendor image and the buffer
with it are `vendorSize` and `vendor`. -/
def displayControlDataLoop (s : Label) (now vendorSize : ℕ) (vendor : ℕ → UInt8) : Label :=
  let displayCtrl := s.esl.displayControlData 0
  if displayCtrl.newImage && !s.epd.isBusy then
    let epd :=
      if displayCtrl.imageIdx = s.vendorImageIdx then
        if vendorSize = appEpdDisplayImageSize then
          { s.epd with image := vendor }.displayImage now
        else s.epd
      else
        let data := appImageStorageGetImageData s.storage.flash s.storage.ram displayCtrl.imageIdx
          0 appEpdDisplayImageSize
        { s.epd with image := memcpy s.epd.image 0 data }.displayImage now
    { s with esl := s.noNewImage, epd := epd }
  else s

/-- What happens to the label. -/
inductive Event where
  | command (e : EslEnv) (c : EslCommand)
  | setTime (time now : ℕ)
  | timeLoop (now tick later : ℕ)
  | otsWrite (imageIdx : ℕ) (truncate : Bool) (offset : ℕ) (data : List UInt8)
  | displayLoop (now vendorSize : ℕ) (vendor : ℕ → UInt8)
  | epdLoop (now tick : ℕ) (busy : Bool)

def step (s : Label) : Event → Label
  | .command e c => { s with esl := (s.esl.handleCommand (s.env e) c).1 }
  | .setTime time now => { s with esl := s.esl.setCurrentTime time now }
  | .timeLoop now tick later => { s with esl := s.esl.currentTimeLoop now tick later }
  | .otsWrite imageIdx truncate offset data => s.otsWriteCb imageIdx truncate offset data
  | .displayLoop now vendorSize vendor => s.displayControlDataLoop now vendorSize vendor
  | .epdLoop now tick busy => { s with epd := s.epd.loop now tick busy }

/-- The label behind `app_esl_init`: the storage is read from flash, and the display is being
cleared. -/
def start (flash : Cells) (vendorImageIdx now : ℕ) : Label where
  esl := .powerOn
  epd := EpdDisplay.powerOn.clean now
  storage := (ImageStorage.powerOn flash).call .init
  vendorImageIdx := vendorImageIdx

/-! ## What is wanted -/

/-- The complete contents of a stored image. -/
def contents (s : Label) (imageIdx : ℕ) : Option (List UInt8) :=
  (appImageStorageGetImageLength s.storage.ram imageIdx).map
    fun length => read s.storage.flash (imageAddr imageIdx) length

/-- `displayControlDataLoop` has an update of a stored image, and the panel is free. -/
def Loads (s : Label) : Prop :=
  (s.esl.displayControlData 0).newImage = true ∧ s.epd.state = .idle ∧
    (s.esl.displayControlData 0).imageIdx ≠ s.vendorImageIdx

instance (s : Label) : Decidable s.Loads := inferInstanceAs (Decidable (_ ∧ _))

/-- A step holds an update that is under way, and an update of a stored image is accepted with
the complete contents of the image. -/
structure Faithful (s : Label) (e : Event) : Prop where
  held : s.epd.Held (s.step e).epd
  loaded : ∀ now vendorSize vendor, e = .displayLoop now vendorSize vendor → s.Loads →
    ∃ image, s.contents (s.esl.displayControlData 0).imageIdx = some image ∧
      (s.step e).epd.accepted = s.epd.accepted ++ [image]

/-- Where an update of a stored image is accepted, the image has the size of the display. -/
def LoadOk (s : Label) : Event → Prop
  | .displayLoop _ _ _ => s.Loads →
    appImageStorageGetImageLength s.storage.ram (s.esl.displayControlData 0).imageIdx =
      some appEpdDisplayImageSize
  | _ => True

instance (s : Label) : DecidablePred s.LoadOk
  | .displayLoop _ _ _ => inferInstanceAs (Decidable (_ → _))
  | .command _ _ => inferInstanceAs (Decidable True)
  | .setTime _ _ => inferInstanceAs (Decidable True)
  | .timeLoop _ _ _ => inferInstanceAs (Decidable True)
  | .otsWrite _ _ _ _ => inferInstanceAs (Decidable True)
  | .epdLoop _ _ _ => inferInstanceAs (Decidable True)

variable {s : Label}

/-- An image that the storage has lies in the flash. -/
theorem u32_imageAddr {imageIdx length : ℕ}
    (h : appImageStorageGetImageLength s.storage.ram imageIdx = some length) :
    u32 (imageAddr imageIdx + 0) = imageAddr imageIdx := by
  have hnum : s.storage.ram.hdr.numImages.toNat < 256 := UInt8.toNat_lt _
  have hidx : imageIdx < s.storage.ram.hdr.numImages.toNat := by
    unfold appImageStorageGetImageLength at h
    split at h
    · exact absurd h nofun
    next hok =>
      by_contra hge
      exact hok (by simp [Nat.not_lt.mp hge])
  rw [Nat.add_zero]
  apply u32_of_lt
  have haddr : imageAddr imageIdx = 0x80000 + 0x1000 + imageIdx * 0x2000 := rfl
  omega

/-- What is loaded from an image of the size of the display is all of it. -/
theorem getImageData_of_full {imageIdx : ℕ}
    (h : appImageStorageGetImageLength s.storage.ram imageIdx = some appEpdDisplayImageSize) :
    appImageStorageGetImageData s.storage.flash s.storage.ram imageIdx 0 appEpdDisplayImageSize =
      read s.storage.flash (imageAddr imageIdx) appEpdDisplayImageSize := by
  rw [appImageStorageGetImageData, h]
  dsimp only
  rw [if_neg (by decide), if_neg (by decide), u32_imageAddr h]

theorem displayControlDataLoop_of_loads (h : s.Loads) (now vendorSize : ℕ) (vendor : ℕ → UInt8) :
    (s.displayControlDataLoop now vendorSize vendor).epd.accepted = s.epd.accepted ++
      [bytes (memcpy s.epd.image 0 (appImageStorageGetImageData s.storage.flash s.storage.ram
        (s.esl.displayControlData 0).imageIdx 0 appEpdDisplayImageSize))
          appEpdDisplayImageSize] := by
  obtain ⟨hnew, hidle, hidx⟩ := h
  have hbusy : s.epd.isBusy = false := by simp [EpdDisplay.isBusy, hidle]
  unfold displayControlDataLoop
  simp only [hnew, hbusy, Bool.not_false, Bool.and_self, if_true, if_neg hidx,
    EpdDisplay.displayImage, hidle, ne_eq, not_true_eq_false, if_false]
  rfl

/-- The update shows the complete contents exactly if the image has the size of the display. -/
theorem loaded_iff (h : s.Loads) (now vendorSize : ℕ) (vendor : ℕ → UInt8) :
    (∃ image, s.contents (s.esl.displayControlData 0).imageIdx = some image ∧
      (s.displayControlDataLoop now vendorSize vendor).epd.accepted =
        s.epd.accepted ++ [image]) ↔
      appImageStorageGetImageLength s.storage.ram (s.esl.displayControlData 0).imageIdx =
        some appEpdDisplayImageSize := by
  rw [displayControlDataLoop_of_loads h]
  constructor
  · -- What is shown has the size of the display, so the contents have it.
    rintro ⟨image, hcontents, haccepted⟩
    obtain ⟨length, hlength, rfl⟩ := Option.map_eq_some_iff.mp hcontents
    have himage := (List.cons.inj (List.append_cancel_left haccepted)).1
    have hsize := congrArg List.length himage
    rw [length_bytes, length_read] at hsize
    rw [hlength, hsize]
  · intro hlength
    refine ⟨read s.storage.flash (imageAddr (s.esl.displayControlData 0).imageIdx)
      appEpdDisplayImageSize, ?_, ?_⟩
    · rw [contents, hlength, Option.map_some]
    · have hself := bytes_memcpy_self s.epd.image (read s.storage.flash
        (imageAddr (s.esl.displayControlData 0).imageIdx) appEpdDisplayImageSize)
      rw [length_read] at hself
      rw [getImageData_of_full hlength, hself]

theorem displayControlDataLoop_of_busy (h : s.epd.state ≠ .idle) (now vendorSize : ℕ)
    (vendor : ℕ → UInt8) : s.displayControlDataLoop now vendorSize vendor = s := by
  have hbusy : s.epd.isBusy = true := by simp [EpdDisplay.isBusy, h]
  unfold displayControlDataLoop
  simp only [hbusy, Bool.not_true, Bool.and_false, Bool.false_eq_true, if_false]

/-- Every step holds an update that is under way. -/
theorem held_step (s : Label) (e : Event) : s.epd.Held (s.step e).epd := by
  cases e with
  | command e c => exact fun _ => ⟨rfl, rfl⟩
  | setTime time now => exact fun _ => ⟨rfl, rfl⟩
  | timeLoop now tick later => exact fun _ => ⟨rfl, rfl⟩
  | otsWrite imageIdx truncate offset data => exact fun _ => ⟨rfl, rfl⟩
  | displayLoop now vendorSize vendor =>
    intro hne
    rw [step, displayControlDataLoop_of_busy hne]
    exact ⟨rfl, rfl⟩
  | epdLoop now tick busy => exact s.epd.held_loop now tick busy

theorem faithful_iff (s : Label) (e : Event) : s.Faithful e ↔ s.LoadOk e := by
  constructor
  · intro h
    cases e with
    | displayLoop now vendorSize vendor =>
      exact fun hloads => (loaded_iff hloads now vendorSize vendor).mp
        (h.loaded now vendorSize vendor rfl hloads)
    | _ => trivial
  · intro h
    refine ⟨s.held_step e, ?_⟩
    rintro now vendorSize vendor rfl hloads
    exact (loaded_iff hloads now vendorSize vendor).mpr (h hloads)

theorem inv_displayControlDataLoop (h : s.epd.Inv) (now vendorSize : ℕ) (vendor : ℕ → UInt8) :
    (s.displayControlDataLoop now vendorSize vendor).epd.Inv := by
  by_cases hidle : s.epd.state = .idle
  · -- Whatever image is loaded, or none.
    have haccept : ∀ image : ℕ → UInt8, ({ s.epd with image := image }.displayImage now).Inv := by
      intro image
      rw [EpdDisplay.displayImage, if_neg (not_not_intro hidle)]
      exact h.accept hidle image now
    unfold displayControlDataLoop
    dsimp only
    split
    · dsimp only
      split
      · split
        · exact haccept _
        · exact h
      · exact haccept _
    · exact h
  · rw [displayControlDataLoop_of_busy hidle]
    exact h

theorem inv_step (h : s.epd.Inv) (e : Event) : (s.step e).epd.Inv := by
  cases e with
  | command e c => exact h
  | setTime time now => exact h
  | timeLoop now tick later => exact h
  | otsWrite imageIdx truncate offset data => exact h
  | displayLoop now vendorSize vendor => exact inv_displayControlDataLoop h now vendorSize vendor
  | epdLoop now tick busy => exact h.loop now tick busy

/-- In a run all that is written to the panel are whole frames, and updates of stored images show
them as they are, exactly if an image that is loaded has the size of the display at that moment. -/
theorem display_faithful_iff (flash : Cells) (vendorImageIdx now : ℕ) (es : List Event) :
    Always step (fun s => s.epd.Whole) (start flash vendorImageIdx now) es ∧
        Along step Faithful (start flash vendorImageIdx now) es ↔
      Along step LoadOk (start flash vendorImageIdx now) es := by
  have hstart : (start flash vendorImageIdx now).epd.Inv :=
    EpdDisplay.inv_powerOn.accept rfl (fun _ => 0xff) now
  have hstep : ∀ s e, s.epd.Inv → True → (step s e).epd.Inv := fun _ e h _ => inv_step h e
  have hwhole : Always step (fun s => s.epd.Whole) (start flash vendorImageIdx now) es :=
    always_of_invariant hstep (fun _ h => h.whole) hstart (along_true _ es)
  rw [and_iff_right hwhole]
  exact along_congr faithful_iff

/-! ## An image that becomes shorter -/

/-- Calls of the driver's loop, two seconds apart. -/
def epdLoops (n : ℕ) : List Event :=
  (List.range n).map fun i => .epdLoop (u32 ((i + 1) * 32000000)) (u32 ((i + 1) * 32000000)) false

/-- An image of the size of the display, a command that shows it, a write that makes it shorter,
the end of the frame before it, and the load. -/
def shortened : List Event :=
  [.otsWrite 0 true 4735 [0], .command plainEnv ⟨1, .displayImage 0 0⟩, .otsWrite 0 true 99 [0]] ++
    epdLoops 160 ++ [.displayLoop 0 4736 fun _ => 0]

/-- The image has 100 bytes when it is loaded. -/
theorem not_display_faithful_shortened :
    ¬ ∀ (flash : Cells) (vendorImageIdx now : ℕ) (es : List Event),
      Always step (fun s => s.epd.Whole) (start flash vendorImageIdx now) es ∧
        Along step Faithful (start flash vendorImageIdx now) es := by
  intro h
  have hload := (along_congr faithful_iff).mp (h (fun _ => 0xff) 32 0 shortened).2
  exact absurd hload (by decide +kernel)

end Label
end TlBleSdk.Esl
