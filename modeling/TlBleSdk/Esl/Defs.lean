import TlBleSdk.Hci.TrDef
import Mathlib.Algebra.Order.Ring.Nat
import Mathlib.Logic.Function.Basic

/-!
# Electronic shelf label

`app_esl.c`: the control data of the LEDs and displays, the clock of the label, and
`app_esl_handleControlPointCmds` with its responses.

A response announces its length in the upper half of its opcode; the handlers do not always write
as many bytes. What the application reads from its drivers and its image storage is an `EslEnv`. A
command is what the profile library passes on, decoded by its opcode.
-/

namespace TlBleSdk.Esl

open Hci

/-- `BLC_ESLS_ESL_ID_BROADCAST`. -/
def eslIdBroadcast : ℕ := 0xFF

/-- `MAX_ESL_PAYLOAD_SIZE`. -/
def maxEslPayloadSize : ℕ := 48

/-- `BLC_ESLS_CMD_RSP_MIN_LENGTH`. -/
def cmdRspMinLength : ℕ := 2

/-- `ESLS_LEDS_SUPPORTED`. -/
def eslsLedsSupported : ℕ := 2

/-- `ESLS_DISPLAYS_SUPPORTED`. -/
def eslsDisplaysSupported : ℕ := 1

/-- The LEDs that `app_esl_leds_init` registers. -/
def appLedNumLeds : ℕ := 2

/-- `IMPLAUSIBLE_TIME_OFFSET_MS`. -/
def implausibleTimeOffsetMs : ℕ := 48 * 24 * 60 * 60 * 100

/-! ## Commands and responses -/

/-- `blc_eslss_errorCode_t`, as far as the application uses it. -/
inductive EslErrorCode
  | invalidOpcode
  | imageNotAvailable
  | capacityLimit
  | queueFull
  | implausibleAbsoluteTime
deriving DecidableEq

/-- The code of an error. -/
def EslErrorCode.code : EslErrorCode → ℕ
  | .invalidOpcode => 0x02
  | .imageNotAvailable => 0x05
  | .capacityLimit => 0x07
  | .queueFull => 0x0B
  | .implausibleAbsoluteTime => 0x0C

/-- A response: its opcode, and the bytes behind it that are written. -/
structure EslRsp where
  opcode : ℕ
  parameters : List ℕ
  opcode_lt : opcode < 256
deriving DecidableEq

namespace EslRsp

/-- `blc_esl_getResponseSize`. -/
def responseSize (r : EslRsp) : ℕ := 2 + r.opcode / 16

/-- The bytes that are written, `rspLen`. -/
def size (r : EslRsp) : ℕ := 1 + r.parameters.length

/-- All bytes are written that the opcode announces. -/
def Whole (r : EslRsp) : Prop := r.size = r.responseSize

instance (r : EslRsp) : Decidable r.Whole := inferInstanceAs (Decidable (_ = _))

/-- `blc_eslss_controlPointResponseError_t`. -/
def error (e : EslErrorCode) : EslRsp := ⟨0x00, [e.code], by decide⟩

/-- `blc_eslss_controlPointResponseLedState_t`. -/
def ledState (ledId : ℕ) : EslRsp := ⟨0x01, [ledId], by decide⟩

/-- `blc_eslss_controlPointResponseBasicState_t`. The structure is packed, and its five flags
are one byte of the two that its opcode announces. -/
def basicState (flags : ℕ) : EslRsp := ⟨0x10, [flags], by decide⟩

/-- `blc_eslss_controlPointResponseDisplayState_t`. -/
def displayState (displayId imageId : ℕ) : EslRsp := ⟨0x11, [displayId, imageId], by decide⟩

/-- `blc_eslss_controlPointResponseSensorValue_t` with up to fifteen bytes of data. -/
def sensorValue (sensorId : ℕ) (val : List ℕ) (h : val.length ≤ 15) : EslRsp :=
  ⟨0x0E + val.length * 16, sensorId :: val, by omega⟩

@[simp] theorem size_error (e : EslErrorCode) : (error e).size = 2 := rfl

theorem whole_error (e : EslErrorCode) : (error e).Whole := by
  show 1 + 1 = 2 + 0x00 / 16
  rfl

theorem whole_ledState (ledId : ℕ) : (ledState ledId).Whole := by
  show 1 + 1 = 2 + 0x01 / 16
  rfl

theorem whole_displayState (displayId imageId : ℕ) :
    (displayState displayId imageId).Whole := by
  show 1 + 2 = 2 + 0x11 / 16
  rfl

theorem whole_sensorValue (sensorId : ℕ) (val : List ℕ) (h : val.length ≤ 15) :
    (sensorValue sensorId val h).Whole := by
  show 1 + (val.length + 1) = 2 + (0x0E + val.length * 16) / 16
  omega

end EslRsp

/-- The color, the flashing pattern and the repetition that a LED command carries. -/
structure EslLedParams where
  colorRed : ℕ
  colorGreen : ℕ
  colorBlue : ℕ
  brightness : ℕ
  flashingPattern : Fin 7 → ℕ
  repeatType : ℕ
  repeatDuration : ℕ

/-- The commands, by their opcode. The length of a vendor command is the upper half of its
opcode. An opcode that the application has no case for is `unknown`. -/
inductive EslCommandBody
  | ping
  | unassociateFromAp
  | serviceReset
  | factoryReset
  | updateComplete
  | vendor (length : Fin 16) (parameters : List ℕ)
  | readSensorData (sensorId : ℕ)
  | refreshDisplay (displayId : ℕ)
  | displayImage (displayId imageId : ℕ)
  | displayTimedImage (displayId imageId absoluteTime : ℕ)
  | ledControl (ledId : ℕ) (params : EslLedParams)
  | ledTimedControl (ledId : ℕ) (params : EslLedParams) (absoluteTime : ℕ)
  | unknown (opcode : ℕ)

/-- A command with the identifier of the label it is for. -/
structure EslCommand where
  eslId : ℕ
  body : EslCommandBody

/-- The command is for this label alone. -/
def EslCommand.unicast (c : EslCommand) : Bool := c.eslId ≠ eslIdBroadcast

/-! ## The state of the label -/

/-- `app_led_command_t`. -/
structure AppLedCommand where
  colorRed : ℕ
  colorGreen : ℕ
  colorBlue : ℕ
  brightness : ℕ
  bitOffPeriod : ℕ
  bitOnPeriod : ℕ
  repeatDuration : ℕ
  repeatType : ℕ
  pattern : List ℕ
deriving DecidableEq

/-- The command that the parameters ask for. -/
def EslLedParams.toCommand (p : EslLedParams) : AppLedCommand where
  colorRed := p.colorRed
  colorGreen := p.colorGreen
  colorBlue := p.colorBlue
  brightness := p.brightness
  bitOffPeriod := p.flashingPattern 5
  bitOnPeriod := p.flashingPattern 6
  repeatDuration := p.repeatDuration
  repeatType := p.repeatType
  pattern := (List.ofFn p.flashingPattern).take 5

/-- `ledControlData_t`. -/
structure LedControlData where
  pendingUpdate : Bool
  scheduledCommandTime : ℕ
  scheduledCommand : AppLedCommand

/-- `displayControl_t`. -/
structure DisplayControl where
  active : Bool
  pendingUpdate : Bool
  newImage : Bool
  imageIdx : ℕ
  pendingUpdateImageIdx : ℕ
  pendingUpdateAbsoluteTime : ℕ

/-- `currentTime_t`. -/
structure CurrentTime where
  active : Bool
  timer : ℕ
  lastTick : ℕ

/-- `unassociateTimer_t`. -/
structure UnassociateTimer where
  active : Bool
  start : ℕ
  timeout : ℕ

/-- A timed command that the loop applies. -/
inductive TimedAction
  | led (ledId : ℕ) (command : AppLedCommand)
  | display (displayId imageIdx : ℕ)
deriving DecidableEq

/-- The data of the application. The list `fired` holds the timed commands that were applied,
and `ledCommand` what `app_led_command_apply` set last. -/
structure EslApp where
  ledControlData : ℕ → LedControlData
  displayControlData : ℕ → DisplayControl
  currentTime : CurrentTime
  ledCommand : ℕ → Option AppLedCommand
  serviceNeeded : Bool
  serviceNeededTick : ℕ
  pendingUnassociate : Bool
  unTimer : UnassociateTimer
  fired : List TimedAction

/-- What the drivers, the image storage and the vendor images answer, and the time. -/
structure EslEnv where
  now : ℕ
  imageLength : ℕ → ℕ
  expectedImageLength : ℕ → ℕ
  vendorImageIdx : ℕ
  vendorImageSize : ℕ
  ledIsActive : ℕ → Bool
  isPaSynchronized : Bool
  sensorRead : ℕ → { val : List ℕ // val.length ≤ 15 }
  vendorCmd : List ℕ → Option { r : EslRsp // r.Whole }

/-- A label whose images all have the size that its display expects. -/
def plainEnv : EslEnv where
  now := 0
  imageLength _ := 4736
  expectedImageLength _ := 4736
  vendorImageIdx := 31
  vendorImageSize := 4736
  ledIsActive _ := false
  isPaSynchronized := true
  sensorRead _ := ⟨[], by decide⟩
  vendorCmd _ := none

namespace EslApp

/-- The data at power-on. -/
def powerOn : EslApp where
  ledControlData _ := ⟨false, 0, ⟨0, 0, 0, 0, 0, 0, 0, 0, []⟩⟩
  displayControlData _ := ⟨false, false, false, 0, 0, 0⟩
  currentTime := ⟨false, 0, 0⟩
  ledCommand _ := none
  serviceNeeded := false
  serviceNeededTick := 0
  pendingUnassociate := false
  unTimer := ⟨false, 0, 0⟩
  fired := []

/-- An update of the control data of a LED. -/
def setLed (s : EslApp) (ledId : ℕ) (d : LedControlData) : EslApp :=
  { s with ledControlData := Function.update s.ledControlData ledId d }

/-- An update of the control data of a display. -/
def setDisplay (s : EslApp) (displayId : ℕ) (d : DisplayControl) : EslApp :=
  { s with displayControlData := Function.update s.displayControlData displayId d }

/-- `app_led_command_apply`. It ignores a LED that is not registered. -/
def appLedCommandApply (s : EslApp) (ledId : ℕ) (c : AppLedCommand) : EslApp :=
  { s with
    ledCommand :=
      if ledId < appLedNumLeds then Function.update s.ledCommand ledId (some c)
      else s.ledCommand }

/-- `updateBasicState`. -/
def updateBasicState (env : EslEnv) (s : EslApp) : EslRsp :=
  let activeLed := (List.range eslsLedsSupported).any env.ledIsActive
  let pendingLed := (List.range eslsLedsSupported).any fun i => (s.ledControlData i).pendingUpdate
  let pendingDisplay :=
    (List.range eslsDisplaysSupported).any fun i => (s.displayControlData i).pendingUpdate
  .basicState (s.serviceNeeded.toNat + env.isPaSynchronized.toNat * 2 + activeLed.toNat * 4 +
    pendingLed.toNat * 8 + pendingDisplay.toNat * 16)

/-! ## The clock -/

/-- `currentTimeCheckTimedCommand`. A time below the timer gives the sum as a truth value. -/
def currentTimeCheckTimedCommand (s : EslApp) (time : ℕ) : Bool :=
  if !s.currentTime.active then false
  else if s.currentTime.timer ≤ time then
    decide (time - s.currentTime.timer ≤ implausibleTimeOffsetMs)
  else decide (u32 (0xFFFFFFFF - s.currentTime.timer + time) ≠ 0)

/-- `currentTimeExpired`. -/
def currentTimeExpired (prev next expirationTime : ℕ) : Bool :=
  if prev < next then decide (prev < expirationTime ∧ expirationTime ≤ next)
  else decide (expirationTime ≤ next ∨ prev < expirationTime)

/-- A LED in `currentTimeLoop`. -/
def ledLoop (prev next : ℕ) (s : EslApp) (i : ℕ) : EslApp :=
  let d := s.ledControlData i
  if d.pendingUpdate && currentTimeExpired prev next d.scheduledCommandTime then
    { (s.appLedCommandApply i d.scheduledCommand).setLed i { d with pendingUpdate := false } with
      fired := s.fired ++ [.led i d.scheduledCommand] }
  else s

/-- A display in `currentTimeLoop`. -/
def displayLoop (prev next : ℕ) (s : EslApp) (i : ℕ) : EslApp :=
  let d := s.displayControlData i
  if d.pendingUpdate && currentTimeExpired prev next d.pendingUpdateAbsoluteTime then
    { s.setDisplay i { d with
        newImage := true
        active := true
        imageIdx := d.pendingUpdateImageIdx
        pendingUpdate := false } with
      fired := s.fired ++ [.display i d.pendingUpdateImageIdx] }
  else s

/-- The timer, moved on to the time `tick`. -/
def advanceTimer (s : EslApp) (tick : ℕ) : EslApp :=
  { s with
    currentTime.timer := u32 (s.currentTime.timer +
      u32Sub tick s.currentTime.lastTick / (systemTimerTick1us * 1000))
    currentTime.lastTick := tick }

/-- The two loops of `currentTimeLoop`, over the LEDs and over the displays. -/
def fireTimed (prev : ℕ) (s : EslApp) : EslApp :=
  (List.range eslsDisplaysSupported).foldl (displayLoop prev s.currentTime.timer)
    ((List.range eslsLedsSupported).foldl (ledLoop prev s.currentTime.timer) s)

/-- The part of `currentTimeLoop` behind the condition that a millisecond is over. -/
def timedLoop (s : EslApp) (tick : ℕ) : EslApp :=
  fireTimed s.currentTime.timer (s.advanceTimer tick)

/-- The end of `currentTimeLoop`: half a minute behind the last reset, service is needed. -/
def checkServiceNeeded (s : EslApp) (now : ℕ) : EslApp :=
  if !s.serviceNeeded && clockTimeExceed now s.serviceNeededTick (30 * 1000 * 1000) then
    { s with serviceNeeded := true }
  else s

/-- `currentTimeLoop`, which reads the clock at the time `now` for its condition, at `tick` for
the timer and at `later` for the service flag. -/
def currentTimeLoop (s : EslApp) (now tick later : ℕ) : EslApp :=
  if s.currentTime.active && clockTimeExceed now s.currentTime.lastTick 1000 then
    (s.timedLoop tick).checkServiceNeeded later
  else s.checkServiceNeeded later

/-- The event `ESL_EVT_ESLP_ESL_CURRENT_ABSOLUTE_TIME` of `app_esl_prfEvtCb`. -/
def setCurrentTime (s : EslApp) (time now : ℕ) : EslApp :=
  { s with currentTime := ⟨true, time, now⟩ }

/-! ## Timed commands -/

/-- How a timed command ends. -/
inductive TimedResult
  | deleted
  | queueFull
  | implausibleTime
  | imageNotAvailable
  | accepted
deriving DecidableEq

/-- The case `LED_TIMED_CONTROL`. -/
def ledTimedControl (s : EslApp) (ledId : ℕ) (params : EslLedParams) (absoluteTime : ℕ) :
    EslApp × TimedResult :=
  let d := s.ledControlData ledId
  if d.pendingUpdate ∧ absoluteTime = 0 then
    (s.setLed ledId { d with pendingUpdate := false }, .deleted)
  else if d.pendingUpdate ∧ absoluteTime ≠ d.scheduledCommandTime then (s, .queueFull)
  else if !s.currentTimeCheckTimedCommand absoluteTime then (s, .implausibleTime)
  else (s.setLed ledId ⟨true, absoluteTime, params.toCommand⟩, .accepted)

/-- The response to `LED_TIMED_CONTROL`. The error for an implausible time is the one that does
not look at the address. -/
def ledTimedRsp (unicast : Bool) (ledId : ℕ) : TimedResult → Option EslRsp
  | .deleted | .accepted => if unicast then some (.ledState ledId) else none
  | .queueFull => if unicast then some (.error .queueFull) else none
  | .imageNotAvailable => if unicast then some (.error .imageNotAvailable) else none
  | .implausibleTime => some (.error .implausibleAbsoluteTime)

/-- The stored image has the size that the display expects. -/
def imageAvailable (env : EslEnv) (displayId imageId : ℕ) : Bool :=
  let imageLength :=
    if imageId = env.vendorImageIdx then env.vendorImageSize else env.imageLength imageId
  decide (imageLength = env.expectedImageLength displayId)

/-- The case `DISPLAY_TIMED_IMAGE`. Where the time is zero, the pending command stays. -/
def displayTimedImage (env : EslEnv) (s : EslApp) (displayId imageId absoluteTime : ℕ) :
    EslApp × TimedResult :=
  let d := s.displayControlData displayId
  if !imageAvailable env displayId imageId then (s, .imageNotAvailable)
  else if d.pendingUpdate ∧ absoluteTime = 0 then
    (s.setDisplay displayId { d with pendingUpdate := true }, .deleted)
  else if d.pendingUpdate ∧ absoluteTime ≠ d.pendingUpdateAbsoluteTime then (s, .queueFull)
  else if !s.currentTimeCheckTimedCommand absoluteTime then (s, .implausibleTime)
  else
    (s.setDisplay displayId { d with
      pendingUpdate := true
      pendingUpdateImageIdx := imageId
      pendingUpdateAbsoluteTime := absoluteTime }, .accepted)

/-- The response to `DISPLAY_TIMED_IMAGE`. -/
def displayTimedRsp (unicast : Bool) (displayId imageId : ℕ) : TimedResult → Option EslRsp
  | .deleted | .accepted => if unicast then some (.displayState displayId imageId) else none
  | .queueFull => if unicast then some (.error .queueFull) else none
  | .imageNotAvailable => if unicast then some (.error .imageNotAvailable) else none
  | .implausibleTime => if unicast then some (.error .implausibleAbsoluteTime) else none

/-! ## The control point -/

/-- The switch of `app_esl_handleControlPointCmds`: what a command does, and its response,
which is `none` where the length of the response stays zero. -/
def handleCommand (env : EslEnv) (s : EslApp) (c : EslCommand) : EslApp × Option EslRsp :=
  let reply (r : EslRsp) := if c.unicast then some r else none
  match c.body with
  | .ping => (s, reply (s.updateBasicState env))
  | .ledControl ledId params =>
    (s.appLedCommandApply ledId params.toCommand, reply (.ledState ledId))
  | .ledTimedControl ledId params absoluteTime =>
    let (s, result) := s.ledTimedControl ledId params absoluteTime
    (s, ledTimedRsp c.unicast ledId result)
  | .readSensorData sensorId =>
    let val := env.sensorRead sensorId
    (s, reply (.sensorValue sensorId val.1 val.2))
  | .refreshDisplay displayId =>
    let d := s.displayControlData displayId
    (s, reply (if d.active then .displayState displayId d.imageIdx else .error .imageNotAvailable))
  | .displayImage displayId imageId =>
    if imageAvailable env displayId imageId then
      (s.setDisplay displayId { s.displayControlData displayId with
        active := true, newImage := true, imageIdx := imageId },
        reply (.displayState displayId imageId))
    else (s, reply (.error .imageNotAvailable))
  | .displayTimedImage displayId imageId absoluteTime =>
    let (s, result) := displayTimedImage env s displayId imageId absoluteTime
    (s, displayTimedRsp c.unicast displayId imageId result)
  | .vendor length parameters =>
    -- `rspLen` is `blc_esl_getResponseSize` of what is answered
    let r := if length.val < 1 then none else env.vendorCmd parameters
    (s, reply (r.elim (.error .invalidOpcode) Subtype.val))
  | .serviceReset =>
    let s := { s with serviceNeededTick := env.now, serviceNeeded := false }
    (s, reply (s.updateBasicState env))
  | .unassociateFromAp =>
    ({ s with
      pendingUnassociate := true
      unTimer := ⟨true, env.now, 1000 * 1000⟩ }, some (s.updateBasicState env))
  | .factoryReset => ({ s with pendingUnassociate := true }, none)
  | .updateComplete => (s, none)
  | .unknown _ => (s, none)

theorem handleCommand_ledTimedControl (env : EslEnv) (s : EslApp) (eslId ledId : ℕ)
    (params : EslLedParams) (time : ℕ) :
    handleCommand env s ⟨eslId, .ledTimedControl ledId params time⟩ =
      ((s.ledTimedControl ledId params time).1,
        ledTimedRsp (EslCommand.unicast ⟨eslId, .ledTimedControl ledId params time⟩) ledId
          (s.ledTimedControl ledId params time).2) := rfl

theorem handleCommand_displayTimedImage (env : EslEnv) (s : EslApp)
    (eslId displayId imageId time : ℕ) :
    handleCommand env s ⟨eslId, .displayTimedImage displayId imageId time⟩ =
      ((displayTimedImage env s displayId imageId time).1,
        displayTimedRsp (EslCommand.unicast ⟨eslId, .displayTimedImage displayId imageId time⟩)
          displayId imageId (displayTimedImage env s displayId imageId time).2) := rfl

end EslApp

open EslApp

/-- The loop data of `app_esl_handleControlPointCmds`: the responses in the buffer, and how
many are still expected. -/
structure EslRspState where
  esl : EslApp
  rsps : List EslRsp
  rspLeft : ℕ

/-- The bytes of the buffer that are written. -/
def EslRspState.used (p : EslRspState) : ℕ := (p.rsps.map EslRsp.size).sum

/-- Decrement in `u8`. -/
def u8Pred (n : ℕ) : ℕ := u8 (n + 255)

/-- A round of the second loop. The free room is computed in `u32`. -/
def rspRound (env : EslEnv) (p : EslRspState) (c : EslCommand) : EslRspState :=
  match handleCommand env p.esl c with
  | (esl, none) => { p with esl := esl }
  | (esl, some r) =>
    let rspLeft := u8Pred p.rspLeft
    let r := if u32Sub maxEslPayloadSize p.used < r.size + rspLeft * cmdRspMinLength then
      .error .capacityLimit else r
    ⟨esl, p.rsps ++ [r], rspLeft⟩

/-- The number of responses that the first loop counts. -/
def unicastCount (cmds : List EslCommand) : ℕ := cmds.countP EslCommand.unicast

/-- `app_esl_handleControlPointCmds`. -/
def handleControlPointCmds (env : EslEnv) (s : EslApp) (cmds : List EslCommand) : EslRspState :=
  let rspLeft := u8 (unicastCount cmds)
  if maxEslPayloadSize < rspLeft * cmdRspMinLength then ⟨s, [], rspLeft⟩
  else cmds.foldl (rspRound env) ⟨s, [], rspLeft⟩

end TlBleSdk.Esl
