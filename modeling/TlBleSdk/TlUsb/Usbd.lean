import TlBleSdk.Lib.Checked
import Mathlib.Data.Nat.Notation

/-!
# The USB device core

`tl_usb`: the requests at endpoint 0 and the drivers behind them (`usbd_core.c`, `usbd_hid.c`,
`usbd_cdc.c`, `usbd_audio.c`). The descriptors and the callbacks of the application are parameters.
An access behind the end of a table, a call through a pointer that is not set and a data stage that
is longer than its destination are faults.
-/

namespace TlBleSdk.TlUsb

/-! ## Requests -/

/-- `usb_control_request_t`. -/
structure UsbControlRequest where
  bmRequestType : UInt8
  bRequest : UInt8
  wValue : UInt16
  wIndex : UInt16
  wLength : UInt16
deriving DecidableEq

namespace UsbControlRequest

/-- `bmRequestType_bit`. -/
def recipient (r : UsbControlRequest) : UInt8 := r.bmRequestType &&& 0x1F
def type (r : UsbControlRequest) : UInt8 := (r.bmRequestType >>> 5) &&& 3
def direction (r : UsbControlRequest) : UInt8 := r.bmRequestType >>> 7

/-- `U16_LOW_BYTE` and `U16_HIGH_BYTE`. -/
def valueL (r : UsbControlRequest) : UInt8 := r.wValue.toUInt8
def valueH (r : UsbControlRequest) : UInt8 := (r.wValue >>> 8).toUInt8
def indexL (r : UsbControlRequest) : UInt8 := r.wIndex.toUInt8
def indexH (r : UsbControlRequest) : UInt8 := (r.wIndex >>> 8).toUInt8

end UsbControlRequest

/-- `usb_get_ep_dir`. -/
def usbGetEpDir (addr : UInt8) : Fin 2 := if addr &&& 0x80 ≠ 0 then 1 else 0

/-- `usb_get_ep_number`. -/
def usbGetEpNumber (addr : UInt8) : UInt8 := addr &&& 0x7F

/-! ## State -/

/-- `USBD_SUPPORT_DRIVER_MAX`, `USBD_SUPPORT_INTERFACE_MAX` and `USBD_SUPPORT_ENDPOINT_MAX`. -/
abbrev usbdSupportDriverMax : ℕ := 16
abbrev usbdSupportInterfaceMax : ℕ := 16
abbrev usbdSupportEndpointMax : ℕ := 8

/-- `USBD_HID_INTERFACE_NUM`, `USBD_CDC_INTERFACE_NUM` and `USBD_AUDIO_INTERFACE_NUM`. -/
abbrev usbdHidInterfaceNum : ℕ := 4
abbrev usbdCdcInterfaceNum : ℕ := 1
abbrev usbdAudioInterfaceNum : ℕ := 2

/-- The request handlers. -/
inductive Handler
  | usbdHidInterfaceRequestHandler
  | usbdCdcInterfaceRequestHandler
  | usbdAudioInterfaceRequestHandler
deriving DecidableEq

/-- `usbd_driver_t`. -/
structure UsbdDriver where
  usbdDriverHandler : Handler
  driverNum : UInt8
deriving DecidableEq

/-- `usbd_hid_interface_t`; nothing reads its `report`. -/
structure UsbdHid where
  idleRate : UInt8
  protocolMode : UInt8
  regData : Vector UInt8 8

/-- `usbd_cdc_interface_t`, with the bytes of its `cdc_line_coding_t`: `bit_rate` (4), `stop_bits`,
`parity` and `data_bits`. -/
structure UsbdCdc where
  dtr : Bool
  rts : Bool
  lineCoding : Vector UInt8 7

/-- Where a data stage goes. -/
inductive Destination
  | regData (itf : Fin usbdHidInterfaceNum)
  | lineCoding (itf : Fin usbdCdcInterfaceNum)
  | cur
deriving DecidableEq

/-- The bytes that a destination holds. -/
def Destination.size : Destination → ℕ
  | regData _ => 8
  | lineCoding _ => 7
  | cur => 3

/-- What is asked of the hardware and of the application. -/
inductive Output
  | epWrite (data : List UInt8)
  | epOpen (desc : List UInt8)
  | epStall (addr : UInt8)
  | epClearStall (addr : UInt8)
  | setAddress (address : UInt8)
  | testMode (mode : UInt8)
  | setConfiguration (num : UInt8)
  | setReport (itf id type : UInt8) (report : Vector UInt8 8) (len : UInt16)
  | setLineCoding (itf : UInt8) (lineCoding : Vector UInt8 7)
  | setLineState (itf : UInt8) (dtr rts : Bool)
  | audioOpen (itf : UInt8)
  | audioClose (itf : UInt8)

/-- `usbd_info`, `remote_wakeup`, `usbd_hid`, `usbd_cdc` and `usbd_audio`, the data stage that is
armed, and the output. -/
structure Usbd where
  setup : UsbControlRequest
  address : UInt8
  configValue : UInt8
  testMode : Bool
  deviceStatus : UInt16
  remoteWakeup : Bool
  driver : Vector (Option UsbdDriver) usbdSupportDriverMax
  itf2drv : Vector UInt8 usbdSupportInterfaceMax
  ep2drv : Vector (Vector UInt8 2) usbdSupportEndpointMax
  epStatus : Vector (Vector UInt16 2) usbdSupportEndpointMax
  hid : Vector UsbdHid usbdHidInterfaceNum
  cdc : Vector UsbdCdc usbdCdcInterfaceNum
  audioCur : Vector (Vector UInt8 3) usbdAudioInterfaceNum
  armed : Option (Destination × UInt16)
  output : List Output

/-- The faults: the table or the pointer. -/
inductive Fault
  | itf2drv
  | ep2drv
  | epStatus
  | driver
  | unregistered
  | hid
  | cdc
  | destination
deriving DecidableEq

/-- The descriptors of the application, and what its audio callback answers, where it has one. -/
structure UsbdApp where
  deviceDescriptor : Option (List UInt8)
  configDescriptor : List UInt8
  stringDescriptor : UInt8 → Option (List UInt8)
  deviceQualifierDescriptor : Option (List UInt8)
  otherSpeedConfigurationDescriptor : UInt8 → Option (List UInt8)
  hidReportDescriptor : UInt8 → Option (List UInt8)
  audioInterfaceCb : Option (UsbControlRequest → Bool)

namespace Usbd

/-- Power-on. -/
def powerOn : Usbd where
  setup := ⟨0, 0, 0, 0, 0⟩
  address := 0
  configValue := 0
  testMode := false
  deviceStatus := 0
  remoteWakeup := false
  driver := .replicate _ none
  itf2drv := .replicate _ 0
  ep2drv := .replicate _ (.replicate _ 0)
  epStatus := .replicate _ (.replicate _ 0)
  hid := .replicate _ ⟨0, 0, .replicate _ 0⟩
  cdc := .replicate _ ⟨false, false, .replicate _ 0⟩
  audioCur := .replicate _ (.replicate _ 0)
  armed := none
  output := []

/-! ## Endpoints -/

/-- Something is asked. -/
def ask (s : Usbd) (o : Output) : Usbd := { s with output := s.output ++ [o] }

/-- `usbd_ep_write` at endpoint 0. -/
def usbdEpWrite (s : Usbd) (data : List UInt8) : Usbd := s.ask (.epWrite data)

/-- `usbd_ep_read` at endpoint 0, into `dst`. -/
def usbdEpRead (s : Usbd) (dst : Destination) (len : UInt16) : Except Fault Usbd := do
  Checked.require .destination (len.toNat ≤ dst.size)
  return { s with armed := some (dst, len) }

/-- `usbd_endpoint_set_status`. -/
def usbdEndpointSetStatus (s : Usbd) (epAddr : UInt8) (epStatus : UInt16) : Except Fault Usbd := do
  let status ← Checked.get .epStatus s.epStatus (usbGetEpNumber epAddr).toNat
  let table ← Checked.set .epStatus s.epStatus (usbGetEpNumber epAddr).toNat
    (status.set (usbGetEpDir epAddr) epStatus)
  return { s with epStatus := table }

/-- `usbd_endpoint_get_status`. -/
def usbdEndpointGetStatus (s : Usbd) (epAddr : UInt8) : Except Fault UInt16 := do
  let status ← Checked.get .epStatus s.epStatus (usbGetEpNumber epAddr).toNat
  return status[usbGetEpDir epAddr]

/-- `usbd_driver_register`. An endpoint number behind `USBD_SUPPORT_ENDPOINT_MAX` is ignored. -/
def usbdDriverRegister (s : Usbd) (driver : UsbdDriver) (intf epAddr : UInt8) :
    Except Fault Usbd := do
  let epIndex := (usbGetEpNumber epAddr).toNat
  if epIndex ≤ usbdSupportEndpointMax then
    let drv ← Checked.get .ep2drv s.ep2drv epIndex
    let drv := drv.set (usbGetEpDir epAddr) driver.driverNum
    let ep2drv ← Checked.set .ep2drv s.ep2drv epIndex drv
    let itf2drv ← Checked.set .itf2drv s.itf2drv intf.toNat driver.driverNum
    let table ← Checked.set .driver s.driver driver.driverNum.toNat (some driver)
    return { s with ep2drv, itf2drv, driver := table }
  else return s

/-! ## Standard requests -/

/-- The first byte of a descriptor, and its bytes 2 and 3. -/
def bLength (desc : List UInt8) : ℕ := (desc.headD 0).toNat
def wTotalLength (desc : List UInt8) : UInt16 :=
  let lo : UInt8 := (desc[2]?).getD 0
  let hi : UInt8 := (desc[3]?).getD 0
  (hi.toUInt16 <<< 8) ||| lo.toUInt16

/-- The descriptor is sent, cut to `len` and to what the host asks for. -/
def sendDescriptor (s : Usbd) (r : UsbControlRequest) (desc : List UInt8) (len : ℕ) : Usbd :=
  s.usbdEpWrite (desc.take (if len < r.wLength.toNat then len else r.wLength.toNat))

/-- `usbd_get_descriptor_process`. -/
def usbdGetDescriptorProcess (app : UsbdApp) (s : Usbd) (r : UsbControlRequest) : Bool × Usbd :=
  let short : Option (List UInt8) → Bool × Usbd
    | some desc => (true, s.sendDescriptor r desc (bLength desc))
    | none => (false, s)
  let long : Option (List UInt8) → Bool × Usbd
    | some desc => (true, s.sendDescriptor r desc (wTotalLength desc).toNat)
    | none => (false, s)
  if r.valueH = 1 then short app.deviceDescriptor
  else if r.valueH = 2 then long (some app.configDescriptor)
  else if r.valueH = 3 then short (app.stringDescriptor r.valueL)
  else if r.valueH = 6 then short app.deviceQualifierDescriptor
  else if r.valueH = 7 then long (app.otherSpeedConfigurationDescriptor r.valueL)
  else (false, s)

/-- The descriptors that a walk over a configuration descriptor visits. `current` is
`current_desc_len`, to which the length of the next descriptor is added. -/
def visited (desc : List UInt8) (current total : UInt16) : List (List UInt8) :=
  if bLength desc = 0 then []
  else
    let next := desc.drop (bLength desc)
    let current := current + UInt16.ofNat (bLength next)
    desc :: if total ≤ current then [] else visited next current total
termination_by desc.length
decreasing_by
  rename_i h _
  cases desc with
  | nil => exact absurd rfl h
  | cons x desc =>
    rw [List.length_drop, List.length_cons]
    omega

/-- `usbd_set_configuration`: the endpoints of the configuration are opened. -/
def usbdSetConfiguration (app : UsbdApp) (s : Usbd) : Usbd :=
  (visited app.configDescriptor 0 (wTotalLength app.configDescriptor)).foldl
    (fun s desc => if (desc[1]?).getD 0 = 5 then s.ask (.epOpen desc) else s) s

/-- `usbd_standard_request_process` for a request to the device. -/
def deviceRequest (app : UsbdApp) (s : Usbd) (r : UsbControlRequest) : Bool × Usbd :=
  if r.bRequest = 5 then
    (true, ({ s with address := r.valueL }.ask (.setAddress r.valueL)).usbdEpWrite [])
  else if r.bRequest = 6 then s.usbdGetDescriptorProcess app r
  else if r.bRequest = 8 then (true, s.usbdEpWrite [s.configValue])
  else if r.bRequest = 9 then
    let s : Usbd := { s with configValue := r.valueL }
    let s := if s.configValue ≠ 0 then
        (s.usbdSetConfiguration app).ask (.setConfiguration s.configValue)
      else s
    (true, s.usbdEpWrite [])
  else if r.bRequest = 0 then
    (true, s.usbdEpWrite [s.deviceStatus.toUInt8, (s.deviceStatus >>> 8).toUInt8])
  else if r.bRequest = 1 then
    if r.wValue = 1 then
      (true, { s with
        remoteWakeup := false
        deviceStatus := s.deviceStatus &&& 0xFFFD }.usbdEpWrite [])
    else (false, s)
  else if r.bRequest = 3 then
    if r.wValue = 1 then
      (true, { s with
        remoteWakeup := true
        deviceStatus := s.deviceStatus ||| 2 }.usbdEpWrite [])
    else if r.wValue = 2 then (true, { s.usbdEpWrite [] with testMode := true })
    else (false, s)
  else (false, s)

/-! ## HID -/

/-- `usbd_hid_request_descriptor`. -/
def usbdHidRequestDescriptor (app : UsbdApp) (s : Usbd) (r : UsbControlRequest) : Bool × Usbd :=
  if r.valueH = 0x21 then
    -- `cur_iface` is the interface of the descriptors that follow.
    let walk := (visited app.configDescriptor 0 (wTotalLength app.configDescriptor)).foldl
      (fun (p : UInt8 × Usbd) desc =>
        if (desc[1]?).getD 0 = 4 then ((desc[2]?).getD 0, p.2)
        else if (desc[1]?).getD 0 = 0x21 ∧ p.1 = r.indexL then
          (p.1, p.2.sendDescriptor r desc (bLength desc))
        else p) (0xFF, s)
    (true, walk.2)
  else if r.valueH = 0x22 then
    match app.hidReportDescriptor r.indexL with
    | some desc => (true, s.sendDescriptor r desc desc.length)
    | none => (true, s)
  else (false, s)

/-- `usbd_hid_interface_request_handler`. It does not look at what `usbd_hid_request_descriptor`
returns. -/
def usbdHidInterfaceRequestHandler (app : UsbdApp) (s : Usbd) (r : UsbControlRequest)
    (setupStage : Bool) : Except Fault (Bool × Usbd) :=
  let hidItf := r.indexL.toNat
  if r.type = 0 then
    if r.bRequest = 0 then do
      let status ← s.usbdEndpointGetStatus r.indexL
      return (true, s.usbdEpWrite [status.toUInt8, (status >>> 8).toUInt8])
    else if r.bRequest = 1 then
      if r.recipient = 2 ∧ r.wValue = 0 then do
        let s ← s.usbdEndpointSetStatus r.indexL 0
        return (true, (s.ask (.epClearStall r.indexL)).usbdEpWrite [])
      else return (false, s)
    else if r.bRequest = 3 then
      if r.recipient = 2 ∧ r.wValue = 0 then do
        let s ← s.usbdEndpointSetStatus r.indexL 1
        return (true, (s.ask (.epStall r.indexL)).usbdEpWrite [])
      else return (false, s)
    else if r.bRequest = 6 then return (true, (s.usbdHidRequestDescriptor app r).2)
    else return (false, s)
  else if r.type = 1 then
    if r.bRequest = 2 then do
      let hid ← Checked.get .hid s.hid hidItf
      return (true, s.usbdEpWrite [hid.idleRate])
    else if r.bRequest = 3 then do
      let hid ← Checked.get .hid s.hid hidItf
      return (true, s.usbdEpWrite [hid.protocolMode])
    else if r.bRequest = 9 then
      if setupStage then
        if h : hidItf < usbdHidInterfaceNum then do
          return (true, ← s.usbdEpRead (.regData ⟨hidItf, h⟩) r.wLength)
        else throw .hid
      else do
        let hid ← Checked.get .hid s.hid hidItf
        return (true, s.ask (.setReport r.indexL r.valueL r.valueH hid.regData r.wLength))
    else if r.bRequest = 10 then do
      let hid ← Checked.get .hid s.hid hidItf
      let table ← Checked.set .hid s.hid hidItf { hid with idleRate := r.valueH }
      return (true, { s with hid := table }.usbdEpWrite [])
    else if r.bRequest = 11 then do
      let hid ← Checked.get .hid s.hid hidItf
      let table ← Checked.set .hid s.hid hidItf { hid with protocolMode := r.valueL }
      return (true, { s with hid := table }.usbdEpWrite [])
    else return (false, s)
  else return (false, s)

/-! ## CDC -/

/-- `usbd_cdc_get_line_coding`: 115200 baud and 8 data bits, while the bit rate is 0. -/
def usbdCdcGetLineCoding (coding : Vector UInt8 7) : Vector UInt8 7 :=
  if coding[0] = 0 ∧ coding[1] = 0 ∧ coding[2] = 0 ∧ coding[3] = 0 then
    #v[0x00, 0xC2, 0x01, 0x00, 0, 0, 8]
  else coding

/-- `usbd_cdc_interface_request_handler`. -/
def usbdCdcInterfaceRequestHandler (s : Usbd) (r : UsbControlRequest) (setupStage : Bool) :
    Except Fault (Bool × Usbd) :=
  let cdcItf := r.indexL.toNat
  if r.type = 1 then
    if r.bRequest = 0x20 then
      if setupStage then
        if h : cdcItf < usbdCdcInterfaceNum then do
          return (true, ← s.usbdEpRead (.lineCoding ⟨cdcItf, h⟩) r.wLength)
        else throw .cdc
      else do
        let cdc ← Checked.get .cdc s.cdc cdcItf
        return (true, s.ask (.setLineCoding r.indexL cdc.lineCoding))
    else if r.bRequest = 0x21 then do
      let cdc ← Checked.get .cdc s.cdc cdcItf
      let coding := usbdCdcGetLineCoding cdc.lineCoding
      let table ← Checked.set .cdc s.cdc cdcItf { cdc with lineCoding := coding }
      return (true, { s with cdc := table }.usbdEpWrite coding.toList)
    else if r.bRequest = 0x22 then do
      let cdc ← Checked.get .cdc s.cdc cdcItf
      let dtr : Bool := r.wValue &&& 1 ≠ 0
      let rts : Bool := r.wValue &&& 2 ≠ 0
      let table ← Checked.set .cdc s.cdc cdcItf { cdc with dtr, rts }
      return (true, ({ s with cdc := table }.ask (.setLineState r.indexL dtr rts)).usbdEpWrite [])
    else return (false, s)
  else return (false, s)

/-! ## Audio -/

/-- `usbd_audio_interface_request_handler`. -/
def usbdAudioInterfaceRequestHandler (app : UsbdApp) (s : Usbd) (r : UsbControlRequest)
    (setupStage : Bool) : Except Fault (Bool × Usbd) :=
  if r.type = 0 then
    if r.bRequest = 11 then
      let s := s.ask (if r.valueL ≠ 0 then .audioOpen r.indexL else .audioClose r.indexL)
      return (true, s.usbdEpWrite [])
    else return (false, s)
  else if r.type = 1 then
    if r.recipient = 1 then
      if setupStage then
        if r.wLength ≠ 0 ∧ r.direction = 0 then do
          return (true, ← s.usbdEpRead .cur r.wLength)
        else
          match app.audioInterfaceCb with
          | some cb => return (cb r, s)
          | none => return (false, s)
      else return (true, s)
    else if r.recipient = 2 then
      if setupStage then do
        return (true, ← s.usbdEpRead .cur r.wLength)
      else return (true, s.usbdEpWrite [])
    else return (false, s)
  else return (false, s)

/-! ## Dispatch -/

/-- `usbd_driver_handler`. -/
def callHandler (app : UsbdApp) (s : Usbd) (r : UsbControlRequest) (setupStage : Bool) :
    Handler → Except Fault (Bool × Usbd)
  | .usbdHidInterfaceRequestHandler => s.usbdHidInterfaceRequestHandler app r setupStage
  | .usbdCdcInterfaceRequestHandler => s.usbdCdcInterfaceRequestHandler r setupStage
  | .usbdAudioInterfaceRequestHandler => s.usbdAudioInterfaceRequestHandler app r setupStage

/-- The request is handed to the driver with this number. -/
def callDriver (app : UsbdApp) (s : Usbd) (r : UsbControlRequest) (setupStage : Bool)
    (driverIndex : UInt8) : Except Fault (Bool × Usbd) := do
  let pointer ← Checked.get .driver s.driver driverIndex.toNat
  let driver ← Checked.deref .unregistered pointer
  s.callHandler app r setupStage driver.usbdDriverHandler

/-- A request to an interface. -/
def interfaceRequest (app : UsbdApp) (s : Usbd) (r : UsbControlRequest) (setupStage : Bool) :
    Except Fault (Bool × Usbd) := do
  let driverIndex ← Checked.get .itf2drv s.itf2drv r.indexL.toNat
  s.callDriver app r setupStage driverIndex

/-- A request to an endpoint. -/
def endpointRequest (app : UsbdApp) (s : Usbd) (r : UsbControlRequest) (setupStage : Bool) :
    Except Fault (Bool × Usbd) := do
  let driverIndexes ← Checked.get .ep2drv s.ep2drv (usbGetEpNumber r.indexL).toNat
  s.callDriver app r setupStage driverIndexes[usbGetEpDir r.indexL]

/-- `usbd_standard_request_process`. -/
def usbdStandardRequestProcess (app : UsbdApp) (s : Usbd) (r : UsbControlRequest)
    (setupStage : Bool) : Except Fault (Bool × Usbd) :=
  if r.recipient = 0 then return s.deviceRequest app r
  else if r.recipient = 1 then s.interfaceRequest app r setupStage
  else if r.recipient = 2 then s.endpointRequest app r setupStage
  else return (false, s)

/-- `usbd_class_request_process`. -/
def usbdClassRequestProcess (app : UsbdApp) (s : Usbd) (r : UsbControlRequest)
    (setupStage : Bool) : Except Fault (Bool × Usbd) :=
  if r.recipient = 1 then s.interfaceRequest app r setupStage
  else if r.recipient = 2 then s.endpointRequest app r setupStage
  else return (false, s)

/-- `usbd_control_request_process`. -/
def usbdControlRequestProcess (app : UsbdApp) (s : Usbd) (r : UsbControlRequest)
    (setupStage : Bool) : Except Fault (Bool × Usbd) :=
  let s := { s with setup := r }
  if r.type = 0 then s.usbdStandardRequestProcess app r setupStage
  else if r.type = 1 then s.usbdClassRequestProcess app r setupStage
  else return (false, s)

/-! ## Interrupts -/

/-- `usbd_bus_reset`. -/
def usbdBusReset (s : Usbd) : Usbd :=
  { s with
    address := 0
    configValue := 0
    deviceStatus := 0
    epStatus := .replicate _ (.replicate _ 0) }

/-- `usbd_ep0_in_complete_callback`. -/
def usbdEp0InCompleteCallback (s : Usbd) : Usbd :=
  if s.testMode then { s with testMode := false }.ask (.testMode s.setup.indexH) else s

/-- The bytes of a data stage are written over the start of its destination. -/
def overwrite {n : ℕ} (v : Vector UInt8 n) (data : List UInt8) : Vector UInt8 n :=
  Vector.ofFn fun i => (data[i.1]?).getD v[i]

/-- The data stage that is armed takes place. -/
def receive (s : Usbd) (data : List UInt8) : Usbd :=
  match s.armed with
  | none => s
  | some (dst, len) =>
    let data := data.take len.toNat
    let s := { s with armed := none }
    match dst with
    | .regData i =>
      let hid := s.hid[i]
      { s with hid := s.hid.set i { hid with regData := overwrite hid.regData data } }
    | .lineCoding i =>
      let cdc := s.cdc[i]
      { s with cdc := s.cdc.set i { cdc with lineCoding := overwrite cdc.lineCoding data } }
    | .cur => { s with audioCur := s.audioCur.set 0 (overwrite s.audioCur[0] data) }

end Usbd

/-- A driver is registered, a setup packet is processed in the setup stage or in the data stage, a
data stage takes place, a packet of endpoint 0 has been sent, and the bus is reset. -/
inductive UsbdEvent
  | driverRegister (driver : UsbdDriver) (intf epAddr : UInt8)
  | controlRequest (r : UsbControlRequest) (setupStage : Bool)
  | dataStage (data : List UInt8)
  | ep0InComplete
  | busReset

/-- A step. -/
def usbdStep (app : UsbdApp) (s : Usbd) : UsbdEvent → Except Fault Usbd
  | .driverRegister driver intf epAddr => s.usbdDriverRegister driver intf epAddr
  | .controlRequest r setupStage => do return (← s.usbdControlRequestProcess app r setupStage).2
  | .dataStage data => return s.receive data
  | .ep0InComplete => return s.usbdEp0InCompleteCallback
  | .busReset => return s.usbdBusReset

end TlBleSdk.TlUsb
