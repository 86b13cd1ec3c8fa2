import TlBleSdk.Lib.Run
import TlBleSdk.Esl.Display

/-!
# Indices from the radio

The commands name a LED, a display, a sensor or an image by a byte. The drivers look the byte
up in their tables; `app_esl_handleControlPointCmds` itself takes it for an index into
`ledControlData` and `displayControlData`. What a failed lookup leaves in its output is what
was there: a length of zero, a sensor value that nobody wrote.
-/

namespace TlBleSdk.Esl

open EslApp

/-- The sensors that `app_esl_sensors_init` registers. -/
def appSensorNumSensors : ℕ := 1

/-- An entry of the two tables. -/
inductive EslEntry
  | led (ledId : ℕ)
  | display (displayId : ℕ)
deriving DecidableEq

/-- The entry exists. -/
def EslEntry.InTable : EslEntry → Prop
  | .led ledId => ledId < eslsLedsSupported
  | .display displayId => displayId < eslsDisplaysSupported

/-- The entry that the case of a command reads, and then writes, if it gets so far. The image
commands go on to it only behind their check of the length of the image. -/
def accessed (env : EslEnv) (c : EslCommand) : Option EslEntry :=
  match c.body with
  | .ledTimedControl ledId _ _ => some (.led ledId)
  | .refreshDisplay displayId => some (.display displayId)
  | .displayImage displayId imageId =>
    if imageAvailable env displayId imageId then some (.display displayId) else none
  | .displayTimedImage displayId imageId _ =>
    if imageAvailable env displayId imageId then some (.display displayId) else none
  | _ => none

/-- The LEDs and the displays are as they were. -/
structure EslApp.SameOutput (a b : EslApp) : Prop where
  ledControlData : b.ledControlData = a.ledControlData
  displayControlData : b.displayControlData = a.displayControlData
  ledCommand : b.ledCommand = a.ledCommand

namespace Label

variable (s : Label) (e : EslEnv)

/-- There is no image of this index. -/
def NoImage (imageId : ℕ) : Prop :=
  appImageStorageGetImageLength s.storage.ram imageId = none ∧ imageId ≠ s.vendorImageIdx

/-- The command names something there is not. -/
def OutOfRange (c : EslCommand) : Prop :=
  match c.body with
  | .ledControl ledId _ => eslsLedsSupported ≤ ledId
  | .ledTimedControl ledId _ _ => eslsLedsSupported ≤ ledId
  | .readSensorData sensorId => appSensorNumSensors ≤ sensorId
  | .refreshDisplay displayId => eslsDisplaysSupported ≤ displayId
  | .displayImage displayId imageId => eslsDisplaysSupported ≤ displayId ∨ s.NoImage imageId
  | .displayTimedImage displayId imageId _ =>
    eslsDisplaysSupported ≤ displayId ∨ s.NoImage imageId
  | _ => False

/-- The length a command finds for an image: zero where there is none. -/
def lengthOf (imageId : ℕ) : ℕ :=
  if imageId = s.vendorImageIdx then e.vendorImageSize else s.imageLength imageId

/-- What is wanted of a command. -/
structure CommandOk (a : EslApp) (c : EslCommand) : Prop where
  inTable : ∀ entry, accessed (s.env e) c = some entry → entry.InTable
  unchanged : s.OutOfRange c → a.SameOutput (handleCommand (s.env e) a c).1
  /-- The answer of its case is an error; where the buffer is full, another error takes its
  place. -/
  answered : s.OutOfRange c → c.unicast = true →
    ∃ err, (handleCommand (s.env e) a c).2 = some (.error err)

/-- The payload has too many unicast commands to be looked at. -/
def Dropped (cmds : List EslCommand) : Prop :=
  maxEslPayloadSize < u8 (unicastCount cmds) * cmdRspMinLength

instance (cmds : List EslCommand) : Decidable (Dropped cmds) :=
  inferInstanceAs (Decidable (_ < _))

/-- What is wanted of `app_esl_handleControlPointCmds`. A payload that is dropped has no
command left without the error it is due. -/
structure PayloadOk (cmds : List EslCommand) : Prop where
  dropped : Dropped cmds → ∀ c ∈ cmds, s.OutOfRange c → c.unicast = false
  handled : ¬ Dropped cmds →
    Machine.Along (fun a c => (handleCommand (s.env e) a c).1) (s.CommandOk e) s.esl cmds

/-- The indices are in range where nobody checks them. A LED or a sensor that there is not may
be named by a broadcast, a display by a command for an image of another length than zero. -/
def IndexCond (c : EslCommand) : Prop :=
  match c.body with
  | .ledControl ledId _ => ledId < eslsLedsSupported ∨ c.unicast = false
  | .ledTimedControl ledId _ _ => ledId < eslsLedsSupported
  | .readSensorData sensorId => sensorId < appSensorNumSensors ∨ c.unicast = false
  | .refreshDisplay displayId => displayId < eslsDisplaysSupported
  | .displayImage displayId imageId => displayId < eslsDisplaysSupported ∨ s.lengthOf e imageId ≠ 0
  | .displayTimedImage displayId imageId _ =>
    displayId < eslsDisplaysSupported ∨ s.lengthOf e imageId ≠ 0
  | _ => True

/-! ## One command -/

variable {s e}

theorem imageAvailable_env (displayId imageId : ℕ) : imageAvailable (s.env e) displayId imageId =
    decide (s.lengthOf e imageId = if displayId = 0 then appEpdDisplayImageSize else 0) := rfl

theorem lengthOf_of_noImage {imageId : ℕ} (h : s.NoImage imageId) : s.lengthOf e imageId = 0 := by
  rw [lengthOf, if_neg h.2, imageLength, h.1]
  rfl

/-- The image that a command with an index out of range asks for does not fit the display. -/
theorem not_imageAvailable {displayId imageId : ℕ}
    (hout : eslsDisplaysSupported ≤ displayId ∨ s.NoImage imageId)
    (hcond : displayId < eslsDisplaysSupported ∨ s.lengthOf e imageId ≠ 0) :
    imageAvailable (s.env e) displayId imageId = false := by
  rw [imageAvailable_env, decide_eq_false_iff_not]
  unfold eslsDisplaysSupported at hout hcond
  by_cases hdisp : displayId = 0
  · rw [if_pos hdisp, lengthOf_of_noImage (hout.resolve_left (by omega))]
    decide
  · rw [if_neg hdisp]
    exact hcond.resolve_left (by omega)

/-- A display that there is not expects an image of no length. -/
theorem imageAvailable_of_zero {displayId imageId : ℕ}
    (hdisp : ¬ displayId < eslsDisplaysSupported) (hlen : s.lengthOf e imageId = 0) :
    imageAvailable (s.env e) displayId imageId = true := by
  have hne : displayId ≠ 0 := by
    unfold eslsDisplaysSupported at hdisp
    omega
  rw [imageAvailable_env, if_neg hne, hlen]
  rfl

theorem sameOutput_refl (a : EslApp) : a.SameOutput a := ⟨rfl, rfl, rfl⟩

/-- A LED that is not registered gets no command. -/
theorem sameOutput_appLedCommandApply (a : EslApp) {ledId : ℕ} (h : eslsLedsSupported ≤ ledId)
    (command : AppLedCommand) : a.SameOutput (a.appLedCommandApply ledId command) where
  ledControlData := rfl
  displayControlData := rfl
  ledCommand := if_neg (Nat.not_lt.mpr h)

/-- A command whose image is not available does nothing, and has an error for an answer. -/
theorem commandOk_of_not_available (a : EslApp) {c : EslCommand}
    (hacc : accessed (s.env e) c = none)
    (hcmd : handleCommand (s.env e) a c =
      (a, if c.unicast then some (.error .imageNotAvailable) else none)) :
    s.CommandOk e a c where
  inTable entry h := by
    rw [hacc] at h
    cases h
  unchanged _ := by
    rw [hcmd]
    exact sameOutput_refl a
  answered _ hc := ⟨.imageNotAvailable, by rw [hcmd, hc]; rfl⟩

theorem handleCommand_displayImage_of_not {env : EslEnv} (a : EslApp) {displayId imageId : ℕ}
    (h : imageAvailable env displayId imageId = false) (eslId : ℕ) :
    handleCommand env a ⟨eslId, .displayImage displayId imageId⟩ =
      (a, if EslCommand.unicast ⟨eslId, .displayImage displayId imageId⟩ then
        some (.error .imageNotAvailable) else none) := by
  simp only [handleCommand, h, Bool.false_eq_true, if_false]

theorem handleCommand_displayTimedImage_of_not {env : EslEnv} (a : EslApp)
    {displayId imageId : ℕ} (h : imageAvailable env displayId imageId = false)
    (eslId time : ℕ) :
    handleCommand env a ⟨eslId, .displayTimedImage displayId imageId time⟩ =
      (a, if EslCommand.unicast ⟨eslId, .displayTimedImage displayId imageId time⟩ then
        some (.error .imageNotAvailable) else none) := by
  rw [handleCommand_displayTimedImage]
  simp only [displayTimedImage, h, Bool.not_false, if_true, displayTimedRsp]

/-- A command that accesses an entry there is, or none, and names nothing out of range. -/
theorem commandOk_of_inRange (a : EslApp) {c : EslCommand}
    (htab : ∀ entry, accessed (s.env e) c = some entry → entry.InTable)
    (hin : ¬ s.OutOfRange c) : s.CommandOk e a c :=
  ⟨htab, fun h => absurd h hin, fun h => absurd h hin⟩

/-- A command for an image of the storage or of the vendor. -/
theorem commandOk_image_iff (a : EslApp) {c : EslCommand} {displayId imageId : ℕ}
    (hacc : accessed (s.env e) c =
      if imageAvailable (s.env e) displayId imageId then some (.display displayId) else none)
    (hout : s.OutOfRange c ↔ eslsDisplaysSupported ≤ displayId ∨ s.NoImage imageId)
    (hcmd : imageAvailable (s.env e) displayId imageId = false →
      handleCommand (s.env e) a c =
        (a, if c.unicast then some (.error .imageNotAvailable) else none)) :
    s.CommandOk e a c ↔ displayId < eslsDisplaysSupported ∨ s.lengthOf e imageId ≠ 0 := by
  constructor
  · intro h
    by_contra hneg
    rw [not_or, not_not] at hneg
    have havail : imageAvailable (s.env e) displayId imageId = true :=
      imageAvailable_of_zero hneg.1 hneg.2
    exact hneg.1 (h.inTable (.display displayId) (by rw [hacc, if_pos havail]))
  · intro hcond
    by_cases hrange : eslsDisplaysSupported ≤ displayId ∨ s.NoImage imageId
    · have hnot := not_imageAvailable hrange hcond
      refine commandOk_of_not_available a ?_ (hcmd hnot)
      rw [hacc, hnot]
      rfl
    · refine commandOk_of_inRange a (fun entry h => ?_) (fun h => hrange (hout.mp h))
      rw [not_or] at hrange
      rw [hacc] at h
      split at h
      · cases h
        exact Nat.lt_of_not_le hrange.1
      · cases h

/-- A command that names a LED or a sensor nobody looks up in the tables. -/
theorem commandOk_reply_iff (a : EslApp) {c : EslCommand} {rsp : EslRsp}
    (hacc : accessed (s.env e) c = none)
    (hsame : s.OutOfRange c → a.SameOutput (handleCommand (s.env e) a c).1)
    (hrsp : (handleCommand (s.env e) a c).2 = if c.unicast then some rsp else none)
    (herr : ∀ err, rsp ≠ .error err) :
    s.CommandOk e a c ↔ ¬ s.OutOfRange c ∨ c.unicast = false := by
  constructor
  · intro h
    by_contra hneg
    rw [not_or, not_not, Bool.not_eq_false] at hneg
    obtain ⟨err, heq⟩ := h.answered hneg.1 hneg.2
    rw [hrsp, if_pos hneg.2] at heq
    exact herr err (Option.some.inj heq)
  · intro h
    refine ⟨fun entry hentry => ?_, hsame, fun hout hc => ?_⟩
    · rw [hacc] at hentry
      cases hentry
    · rw [h.resolve_left (not_not_intro hout)] at hc
      cases hc

/-- A command whose first access is at the index it names. -/
theorem commandOk_entry_iff (a : EslApp) {c : EslCommand} {entry : EslEntry}
    (hacc : accessed (s.env e) c = some entry) (hout : s.OutOfRange c ↔ ¬ entry.InTable) :
    s.CommandOk e a c ↔ entry.InTable := by
  constructor
  · exact fun h => h.inTable entry hacc
  · intro hin
    refine commandOk_of_inRange a (fun entry' h => ?_) (fun h => hout.mp h hin)
    rw [hacc] at h
    cases h
    exact hin

theorem commandOk_iff (a : EslApp) (c : EslCommand) : s.CommandOk e a c ↔ s.IndexCond e c := by
  obtain ⟨eslId, body⟩ := c
  have trivially (hacc : accessed (s.env e) ⟨eslId, body⟩ = none)
      (hout : ¬ s.OutOfRange ⟨eslId, body⟩) : s.CommandOk e a ⟨eslId, body⟩ := by
    refine commandOk_of_inRange a (fun entry h => ?_) hout
    rw [hacc] at h
    cases h
  cases body with
  | ledControl ledId params =>
    -- the answer is no error, so the index is not to be out of range
    have herr (err : EslErrorCode) : EslRsp.ledState ledId ≠ .error err := by
      intro h
      have hop : 0x01 = 0x00 := congrArg EslRsp.opcode h
      cases hop
    have hiff := commandOk_reply_iff (s := s) (e := e) a (c := ⟨eslId, .ledControl ledId params⟩)
      rfl (fun hout => sameOutput_appLedCommandApply a hout _) rfl herr
    rw [hiff]
    exact or_congr_left Nat.not_le
  | ledTimedControl ledId params time =>
    have hout : eslsLedsSupported ≤ ledId ↔ ¬ (EslEntry.led ledId).InTable := Nat.not_lt.symm
    change s.CommandOk e a ⟨eslId, .ledTimedControl ledId params time⟩ ↔
      (EslEntry.led ledId).InTable
    exact commandOk_entry_iff a rfl hout
  | readSensorData sensorId =>
    have herr (err : EslErrorCode) : EslRsp.sensorValue sensorId ((s.env e).sensorRead sensorId).1
        ((s.env e).sensorRead sensorId).2 ≠ .error err := by
      intro h
      have hop : 0x0E + ((s.env e).sensorRead sensorId).1.length * 16 = 0x00 :=
        congrArg EslRsp.opcode h
      omega
    have hiff := commandOk_reply_iff (s := s) (e := e) a
      (c := ⟨eslId, .readSensorData sensorId⟩) rfl (fun _ => sameOutput_refl a) rfl herr
    rw [hiff]
    exact or_congr_left Nat.not_le
  | refreshDisplay displayId =>
    have hout : eslsDisplaysSupported ≤ displayId ↔ ¬ (EslEntry.display displayId).InTable :=
      Nat.not_lt.symm
    change s.CommandOk e a ⟨eslId, .refreshDisplay displayId⟩ ↔
      (EslEntry.display displayId).InTable
    exact commandOk_entry_iff a rfl hout
  | displayImage displayId imageId =>
    exact commandOk_image_iff a rfl Iff.rfl fun h => handleCommand_displayImage_of_not a h eslId
  | displayTimedImage displayId imageId time =>
    exact commandOk_image_iff a rfl Iff.rfl fun h =>
      handleCommand_displayTimedImage_of_not a h eslId time
  -- the other commands have no index
  | _ => exact iff_of_true (trivially rfl id) trivial

/-! ## The payload -/

variable (s e) in
/-- A payload does no harm by its indices exactly if they are in range where nobody checks
them, or, where it is dropped, if no unicast command names anything there is not. -/
theorem payloadOk_iff (cmds : List EslCommand) :
    s.PayloadOk e cmds ↔
      (Dropped cmds → ∀ c ∈ cmds, s.OutOfRange c → c.unicast = false) ∧
        (¬ Dropped cmds → ∀ c ∈ cmds, s.IndexCond e c) := by
  have halong : Machine.Along (fun a c => (handleCommand (s.env e) a c).1) (s.CommandOk e) s.esl
      cmds ↔ ∀ c ∈ cmds, s.IndexCond e c :=
    (Machine.along_congr commandOk_iff).trans Machine.along_iff_forall_mem
  exact ⟨fun h => ⟨h.dropped, fun hd => halong.mp (h.handled hd)⟩,
    fun h => ⟨h.1, fun hd => halong.mpr (h.2 hd)⟩⟩

/-- The third of two LEDs. -/
theorem not_payloadOk_led :
    ¬ ∀ (s : Label) (e : EslEnv) (cmds : List EslCommand), s.PayloadOk e cmds := by
  intro h
  have hled := (h (start (fun _ => 0xFF) 32 0) plainEnv
    [⟨1, .ledTimedControl 2 ⟨0, 0, 0, 0, fun _ => 0, 0, 0⟩ 1000⟩]).handled (by decide)
  have hin : (EslEntry.led 2).InTable := hled.1.inTable _ rfl
  exact absurd hin (by decide : ¬ 2 < eslsLedsSupported)

end Label

end TlBleSdk.Esl
