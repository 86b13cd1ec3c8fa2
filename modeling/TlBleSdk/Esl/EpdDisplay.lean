import TlBleSdk.Hci.TrDef

/-!
# The driver of the panel

`display/app_epd_display.c`. An update goes through ten states: reset, power-on, 4736 bytes of
clear, 4736 bytes of image, both in chunks of 64, refresh and power-off. What it writes to the
panel is recorded, and beside it the image of each update that was accepted. The pins other
than the bus are left out, but for the one that says that the panel is busy.
-/

namespace TlBleSdk.Esl

open Hci

/-- `APP_EPD_DISPLAY_IMAGE_SIZE`. -/
def appEpdDisplayImageSize : ℕ := 4736

/-- `APP_EPD_DISPLAY_IMAGE_LOAD_CHUNK_SIZE`. -/
def appEpdDisplayImageLoadChunkSize : ℕ := 64

/-- `app_epd_display_update_display_state_t`. -/
inductive EpdState where
  | idle
  | resetStage1
  | resetStage2
  | busyCheck1
  | clearImageContinue
  | loadImageContinue
  | loadImageDone
  | refreshDisplay
  | busyCheck2
  | teardown
  deriving DecidableEq

/-- `EPD_WriteCmd` and `EPD_WriteData`. -/
inductive EpdWrite where
  | cmd (value : UInt8)
  | data (value : UInt8)
  deriving DecidableEq

/-- `app_epd_display_state_t`, what was written to the panel, and the images of the updates. -/
structure EpdDisplay where
  state : EpdState
  image : ℕ → UInt8
  offset : ℕ
  lastTick : ℕ
  timeout : ℕ
  written : List EpdWrite
  accepted : List (List UInt8)

/-- Power on. -/
def epdPowerOn : List EpdWrite := [.cmd 0x06, .data 0x17, .data 0x17, .data 0x17, .cmd 0x04]

/-- Panel, resolution and interval settings. -/
def epdSettings : List EpdWrite :=
  [.cmd 0x00, .data 0x1f, .data 0x0f, .cmd 0x61, .data 0x80, .data 0x01, .data 0x28, .cmd 0x50,
    .data 0x97]

/-- Interval setting, power off and deep sleep. -/
def epdTeardown : List EpdWrite := [.cmd 0x50, .data 0xf7, .cmd 0x02, .cmd 0x07, .data 0xa5]

/-- The bytes of `EPD_ClearImageContinue`. -/
def epdClear (size : ℕ) : List EpdWrite := List.replicate size (.data 0xff)

/-- The bytes of `EPD_LoadImageContinue`. -/
def epdLoad (image : List UInt8) : List EpdWrite := image.map .data

namespace EpdDisplay

/-- Writes to the panel. -/
def write (s : EpdDisplay) (ws : List EpdWrite) : EpdDisplay :=
  { s with written := s.written ++ ws }

/-- The contents of `state.image`. -/
def shown (s : EpdDisplay) : List UInt8 := bytes s.image appEpdDisplayImageSize

/-- `app_display_epd_is_busy`. -/
def isBusy (s : EpdDisplay) : Bool := s.state ≠ .idle

/-- What `app_display_epd_image` sets for an update that it accepts. -/
def accept (s : EpdDisplay) (now : ℕ) : EpdDisplay :=
  { s with
    state := .resetStage1
    lastTick := now
    timeout := 1000 * 1400
    offset := 0
    accepted := s.accepted ++ [s.shown] }

/-- `app_display_epd_image`. -/
def displayImage (s : EpdDisplay) (now : ℕ) : EpdDisplay :=
  if s.state ≠ .idle then s else s.accept now

/-- `app_display_epd_clean`. -/
def clean (s : EpdDisplay) (now : ℕ) : EpdDisplay :=
  if s.state ≠ .idle then s else { s with image := fun _ => 0xff }.accept now

/-- The length of the next chunk. -/
def chunk (offset : ℕ) : ℕ :=
  if appEpdDisplayImageLoadChunkSize < appEpdDisplayImageSize - offset then
    appEpdDisplayImageLoadChunkSize
  else appEpdDisplayImageSize - offset

/-- The next state, and its timeout in milliseconds. -/
def goto (s : EpdDisplay) (state : EpdState) (ms : ℕ) : EpdDisplay :=
  { s with state := state, timeout := 1000 * ms }

/-- The case for the first chunk to clear. -/
def clearStart (s : EpdDisplay) : EpdDisplay :=
  { (s.write (epdSettings ++ .cmd 0x10 :: epdClear (chunk s.offset))).goto .clearImageContinue 0
    with offset := s.offset + chunk s.offset }

/-- The case `CLEAR_IMAGE_CONTINUE`. -/
def clearContinue (s : EpdDisplay) : EpdDisplay :=
  if chunk s.offset ≠ 0 then
    { (s.write (epdClear (chunk s.offset))).goto .clearImageContinue 0 with
      offset := s.offset + chunk s.offset }
  else
    { (s.write (.cmd 0x13 :: epdLoad (bytesAt s.image 0 (chunk 0)))).goto .loadImageContinue 0 with
      offset := chunk 0 }

/-- The case `LOAD_IMAGE_CONTINUE`. -/
def loadContinue (s : EpdDisplay) : EpdDisplay :=
  if chunk s.offset ≠ 0 then
    { (s.write (epdLoad (bytesAt s.image s.offset (chunk s.offset)))).goto .loadImageContinue 0 with
      offset := s.offset + chunk s.offset }
  else s.goto .loadImageDone 2

/-- The `switch` of `app_display_epd_loop`, with the pin that says that the panel is busy. -/
def advance (s : EpdDisplay) (busy : Bool) : EpdDisplay :=
  match s.state with
  | .idle => s
  | .resetStage1 => s.goto .resetStage2 1400
  | .resetStage2 => (s.write epdPowerOn).goto .busyCheck1 0
  | .busyCheck1 => if busy then { s with timeout := 1000 * 240 } else s.clearStart
  | .clearImageContinue => s.clearContinue
  | .loadImageContinue => s.loadContinue
  | .loadImageDone => (s.write [.cmd 0x12]).goto .refreshDisplay 140
  | .refreshDisplay => s.goto .busyCheck2 0
  | .busyCheck2 => if busy then { s with timeout := 1000 * 240 } else s.goto .teardown 0
  | .teardown => { s.write epdTeardown with state := .idle }

/-- `app_display_epd_loop`, which reads the clock at the time `now` for its condition and at
`tick` for the state. -/
def loop (s : EpdDisplay) (now tick : ℕ) (busy : Bool) : EpdDisplay :=
  if s.state = .idle ∨ !clockTimeExceed now s.lastTick s.timeout then s
  else { s with lastTick := tick }.advance busy

/-- The driver at power-on. -/
def powerOn : EpdDisplay where
  state := .idle
  image _ := 0
  offset := 0
  lastTick := 0
  timeout := 0
  written := []
  accepted := []

/-! ## Whole frames -/

/-- What an update with the image writes: the clear bytes behind the command 0x10, and the image
behind the command 0x13. -/
def frame (image : List UInt8) : List EpdWrite :=
  epdPowerOn ++ epdSettings ++ .cmd 0x10 :: epdClear appEpdDisplayImageSize ++
    .cmd 0x13 :: epdLoad image ++ .cmd 0x12 :: epdTeardown

/-- Some whole frames were written, and of the frame of an update under way the beginning. The
image of that is still the one that was accepted. -/
structure Whole (s : EpdDisplay) : Prop where
  idle : s.state = .idle → s.written = (s.accepted.map frame).flatten
  busy : s.state ≠ .idle → ∃ done part, s.accepted = done ++ [s.shown] ∧
    s.written = (done.map frame).flatten ++ part ∧ part <+: frame s.shown

/-- An update under way: no other one is accepted, and the image stays. -/
def Held (s s' : EpdDisplay) : Prop :=
  s.state ≠ .idle → s'.accepted = s.accepted ∧ s'.image = s.image

/-- What a frame begins with, up to `n` clear bytes. -/
def cleared (n : ℕ) : List EpdWrite :=
  epdPowerOn ++ epdSettings ++ .cmd 0x10 :: epdClear n

/-- What a frame begins with, up to `n` bytes of the image. -/
def loaded (image : ℕ → UInt8) (n : ℕ) : List EpdWrite :=
  cleared appEpdDisplayImageSize ++ .cmd 0x13 :: epdLoad (bytes image n)

/-- What was written of the frame in a state. -/
def part (state : EpdState) (offset : ℕ) (image : ℕ → UInt8) : List EpdWrite :=
  match state with
  | .idle => []
  | .resetStage1 => []
  | .resetStage2 => []
  | .busyCheck1 => epdPowerOn
  | .clearImageContinue => cleared offset
  | .loadImageContinue => loaded image offset
  | .loadImageDone => loaded image appEpdDisplayImageSize
  | .refreshDisplay => loaded image appEpdDisplayImageSize ++ [.cmd 0x12]
  | .busyCheck2 => loaded image appEpdDisplayImageSize ++ [.cmd 0x12]
  | .teardown => loaded image appEpdDisplayImageSize ++ [.cmd 0x12]

/-- The offset in a state. -/
def OffsetOk (state : EpdState) (offset : ℕ) : Prop :=
  match state with
  | .resetStage1 => offset = 0
  | .resetStage2 => offset = 0
  | .busyCheck1 => offset = 0
  | _ => offset ≤ appEpdDisplayImageSize

/-- What the driver keeps. -/
structure Inv (s : EpdDisplay) : Prop where
  offset : OffsetOk s.state s.offset
  idle : s.state = .idle → s.written = (s.accepted.map frame).flatten
  busy : s.state ≠ .idle → ∃ done, s.accepted = done ++ [s.shown] ∧
    s.written = (done.map frame).flatten ++ part s.state s.offset s.image

/-! ## A frame from its parts -/

theorem cleared_add (m n : ℕ) : cleared (m + n) = cleared m ++ epdClear n := by
  simp only [cleared, epdClear, List.append_assoc, List.cons_append,
    List.replicate_append_replicate]

theorem loaded_add (image : ℕ → UInt8) (m n : ℕ) :
    loaded image (m + n) = loaded image m ++ epdLoad (bytesAt image m n) := by
  unfold loaded epdLoad
  rw [bytes_add, List.map_append, List.append_assoc, List.cons_append]

theorem frame_eq (image : ℕ → UInt8) : frame (bytes image appEpdDisplayImageSize) =
    loaded image appEpdDisplayImageSize ++ .cmd 0x12 :: epdTeardown := rfl

theorem loaded_prefix_frame (image : ℕ → UInt8) {n : ℕ} (hn : n ≤ appEpdDisplayImageSize) :
    loaded image n <+: frame (bytes image appEpdDisplayImageSize) := by
  obtain ⟨k, hk⟩ := Nat.exists_eq_add_of_le hn
  rw [frame_eq, hk, loaded_add, List.append_assoc]
  exact List.prefix_append _ _

theorem cleared_prefix_frame (image : ℕ → UInt8) {n : ℕ} (hn : n ≤ appEpdDisplayImageSize) :
    cleared n <+: frame (bytes image appEpdDisplayImageSize) := by
  obtain ⟨k, hk⟩ := Nat.exists_eq_add_of_le hn
  have hclear : cleared n <+: cleared appEpdDisplayImageSize := by
    rw [hk, cleared_add]
    exact List.prefix_append _ _
  exact (hclear.trans (List.prefix_append _ _)).trans (loaded_prefix_frame image (Nat.zero_le _))

/-- In every state the beginning of the frame was written. -/
theorem part_prefix {state : EpdState} {offset : ℕ} (h : OffsetOk state offset)
    (image : ℕ → UInt8) :
    part state offset image <+: frame (bytes image appEpdDisplayImageSize) := by
  have hrefresh : loaded image appEpdDisplayImageSize ++ [.cmd 0x12] <+:
      frame (bytes image appEpdDisplayImageSize) := by
    rw [frame_eq]
    exact (List.prefix_append_right_inj _).mpr (List.prefix_append [.cmd 0x12] epdTeardown)
  cases state with
  -- Until the reset is over the panel gets nothing.
  | idle => exact List.nil_prefix
  | resetStage1 => exact List.nil_prefix
  | resetStage2 => exact List.nil_prefix
  | busyCheck1 =>
    have hpower : epdPowerOn <+: cleared 0 := by
      unfold cleared
      rw [List.append_assoc]
      exact List.prefix_append _ _
    exact hpower.trans (cleared_prefix_frame image (Nat.zero_le _))
  | clearImageContinue => exact cleared_prefix_frame image h
  | loadImageContinue => exact loaded_prefix_frame image h
  | loadImageDone => exact loaded_prefix_frame image (Nat.le_refl _)
  | refreshDisplay => exact hrefresh
  | busyCheck2 => exact hrefresh
  | teardown => exact hrefresh

variable {s : EpdDisplay}

theorem Inv.whole (h : s.Inv) : s.Whole where
  idle := h.idle
  busy hne := by
    obtain ⟨done, haccepted, hwritten⟩ := h.busy hne
    exact ⟨done, _, haccepted, hwritten, part_prefix h.offset s.image⟩

theorem inv_powerOn : powerOn.Inv where
  offset := Nat.zero_le _
  idle _ := rfl
  busy h := absurd rfl h

/-! ## One step -/

/-- An update is accepted by an idle driver alone. -/
theorem Inv.accept (h : s.Inv) (hidle : s.state = .idle) (image : ℕ → UInt8) (now : ℕ) :
    ({ s with image := image }.accept now).Inv where
  offset := rfl
  idle := nofun
  busy _ := ⟨s.accepted, rfl, by
    show s.written = _ ++ []
    rw [List.append_nil]
    exact h.idle hidle⟩

theorem chunk_le (offset : ℕ) : chunk offset ≤ appEpdDisplayImageSize - offset := by
  unfold chunk
  split <;> omega

theorem chunk_eq_zero {offset : ℕ} (h : chunk offset = 0) :
    appEpdDisplayImageSize ≤ offset := by
  unfold chunk appEpdDisplayImageLoadChunkSize at h
  split at h <;> omega

/-- An update goes on: it writes `ws`, and is in a state that has so much more of the frame. -/
theorem Inv.goOn (h : s.Inv) (hne : s.state ≠ .idle) {s' : EpdDisplay} {ws : List EpdWrite}
    (hne' : s'.state ≠ .idle) (hoffset : OffsetOk s'.state s'.offset)
    (himage : s'.image = s.image) (haccepted : s'.accepted = s.accepted)
    (hwritten : s'.written = s.written ++ ws)
    (hpart : part s'.state s'.offset s.image = part s.state s.offset s.image ++ ws) : s'.Inv where
  offset := hoffset
  idle hidle := absurd hidle hne'
  busy _ := by
    obtain ⟨done, hacc, hwr⟩ := h.busy hne
    refine ⟨done, ?_, ?_⟩
    · rw [haccepted, hacc, shown, shown, himage]
    · rw [hwritten, hwr, himage, hpart, List.append_assoc]

theorem Inv.clearContinue (h : s.Inv) (hstate : s.state = .clearImageContinue) :
    s.clearContinue.Inv := by
  have hne : s.state ≠ .idle := by rw [hstate]; nofun
  have hoffset : s.offset ≤ appEpdDisplayImageSize := by
    have := h.offset
    rwa [hstate] at this
  have hchunk := chunk_le s.offset
  have hchunk0 := chunk_le 0
  unfold EpdDisplay.clearContinue
  split
  · refine h.goOn hne nofun ?_ rfl rfl rfl ?_
    · show s.offset + chunk s.offset ≤ appEpdDisplayImageSize
      omega
    · rw [hstate]
      exact cleared_add _ _
  next hend =>
    have hfull : s.offset = appEpdDisplayImageSize :=
      Nat.le_antisymm hoffset (chunk_eq_zero (not_not.mp hend))
    -- All is white: the image starts over at offset 0.
    refine h.goOn hne nofun ?_ rfl rfl rfl ?_
    · show chunk 0 ≤ appEpdDisplayImageSize
      omega
    · rw [hstate, hfull]
      show loaded s.image (chunk 0) = cleared appEpdDisplayImageSize ++ _
      have h0 : bytesAt s.image 0 (chunk 0) = bytes s.image (chunk 0) :=
        bytes_congr fun i _ => by rw [Nat.zero_add]
      rw [h0]
      rfl

theorem Inv.loadContinue (h : s.Inv) (hstate : s.state = .loadImageContinue) :
    s.loadContinue.Inv := by
  have hne : s.state ≠ .idle := by rw [hstate]; nofun
  have hoffset : s.offset ≤ appEpdDisplayImageSize := by
    have := h.offset
    rwa [hstate] at this
  have hchunk := chunk_le s.offset
  unfold EpdDisplay.loadContinue
  split
  · refine h.goOn hne nofun ?_ rfl rfl rfl ?_
    · show s.offset + chunk s.offset ≤ appEpdDisplayImageSize
      omega
    · rw [hstate]
      exact loaded_add _ _ _
  next hend =>
    have hfull : s.offset = appEpdDisplayImageSize :=
      Nat.le_antisymm hoffset (chunk_eq_zero (not_not.mp hend))
    refine h.goOn hne nofun hoffset rfl rfl (List.append_nil _).symm ?_
    rw [hstate, hfull, List.append_nil]
    rfl

/-- The panel is busy. -/
theorem Inv.wait (h : s.Inv) (hne : s.state ≠ .idle) (timeout : ℕ) :
    { s with timeout := timeout }.Inv :=
  h.goOn hne hne h.offset rfl rfl (List.append_nil _).symm (List.append_nil _).symm

theorem Inv.advance (h : s.Inv) (hne : s.state ≠ .idle) (busy : Bool) : (s.advance busy).Inv := by
  have hoffset := h.offset
  unfold EpdDisplay.advance
  cases hstate : s.state with
  | idle => exact absurd hstate hne
  | resetStage1 =>
    rw [hstate] at hoffset
    refine h.goOn hne nofun hoffset rfl rfl (List.append_nil _).symm ?_
    rw [hstate]
    rfl
  | resetStage2 =>
    rw [hstate] at hoffset
    refine h.goOn hne nofun hoffset rfl rfl rfl ?_
    rw [hstate]
    rfl
  | busyCheck1 =>
    rw [hstate] at hoffset
    have h0 : s.offset = 0 := hoffset
    have hwait := h.wait hne (1000 * 240)
    rw [hstate] at hwait
    dsimp only
    split
    · exact hwait
    · have hchunk := chunk_le s.offset
      refine h.goOn hne nofun ?_ rfl rfl rfl ?_
      · show s.offset + chunk s.offset ≤ appEpdDisplayImageSize
        omega
      · rw [hstate]
        show cleared (s.offset + chunk s.offset) = epdPowerOn ++ _
        rw [h0, Nat.zero_add]
        rfl
  | clearImageContinue => exact h.clearContinue hstate
  | loadImageContinue => exact h.loadContinue hstate
  | loadImageDone =>
    rw [hstate] at hoffset
    refine h.goOn hne nofun hoffset rfl rfl rfl ?_
    rw [hstate]
    rfl
  | refreshDisplay =>
    rw [hstate] at hoffset
    refine h.goOn hne nofun hoffset rfl rfl (List.append_nil _).symm ?_
    rw [hstate, List.append_nil]
    rfl
  | busyCheck2 =>
    rw [hstate] at hoffset
    have hwait := h.wait hne (1000 * 240)
    rw [hstate] at hwait
    dsimp only
    split
    · exact hwait
    · refine h.goOn hne nofun hoffset rfl rfl (List.append_nil _).symm ?_
      rw [hstate, List.append_nil]
      rfl
  | teardown =>
    -- The frame is complete, so what was written are the frames of all accepted updates.
    rw [hstate] at hoffset
    refine ⟨hoffset, fun _ => ?_, fun h => absurd rfl h⟩
    obtain ⟨done, hacc, hwr⟩ := h.busy hne
    show s.written ++ epdTeardown = (s.accepted.map frame).flatten
    rw [hwr, hacc, hstate, List.map_append, List.flatten_append, List.append_assoc]
    show _ ++ ((loaded s.image appEpdDisplayImageSize ++ [.cmd 0x12]) ++ epdTeardown) =
      _ ++ [frame s.shown].flatten
    rw [List.flatten_singleton, shown, frame_eq, List.append_assoc, List.singleton_append]

/-- The clock is read. -/
theorem Inv.tick (h : s.Inv) (tick : ℕ) : { s with lastTick := tick }.Inv :=
  ⟨h.offset, h.idle, h.busy⟩

theorem Inv.loop (h : s.Inv) (now tick : ℕ) (busy : Bool) : (s.loop now tick busy).Inv := by
  unfold EpdDisplay.loop
  split
  · exact h
  next hgo => exact (h.tick tick).advance (fun hidle => hgo (.inl hidle)) busy

/-- The loop leaves the image alone, and accepts nothing. -/
theorem held_loop (s : EpdDisplay) (now tick : ℕ) (busy : Bool) :
    s.Held (s.loop now tick busy) := by
  intro _
  unfold EpdDisplay.loop
  split
  · exact ⟨rfl, rfl⟩
  unfold EpdDisplay.advance clearContinue loadContinue
  split <;> (try split) <;> exact ⟨rfl, rfl⟩

end EpdDisplay
end TlBleSdk.Esl
