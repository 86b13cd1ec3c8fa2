import TlBleSdk.Lib.Run
import Mathlib.Data.Nat.Notation

/-!
# Control transfers of the USB device

`usb.c`: the requests at endpoint 0, and the descriptors that are sent in packets. The descriptors
and the interfaces of the build are parameters. What the class requests answer is given with the
event; they do not touch `g_response`.
-/

namespace TlBleSdk.Usb

/-! ## Descriptors -/

/-- A descriptor; its size is a `u16`. -/
abbrev Descriptor := {d : List UInt8 // d.length < 65536}

/-- The descriptors of a HID interface: `HID_DTYPE_HID` and `HID_DTYPE_Report`. -/
structure HidIntf where
  hid : Descriptor
  report : Descriptor

/-- The descriptors of the build, the HID interfaces (keyboard, mouse, somatic) by their number,
and `USB_CTR_ENDPOINT_SIZE`. -/
structure UsbDesc where
  device : Descriptor
  configuration : Descriptor
  stringVendor : List UInt8
  stringProduct : List UInt8
  stringSerial : List UInt8
  intf : UInt8 → Option HidIntf
  ctrEndpointSize : ℕ
  ctrEndpointSize_pos : 0 < ctrEndpointSize

/-- `usbdesc_get_str`. -/
def usbdescGetStr (src : List UInt8) : List UInt8 :=
  let charCount := if 32 < src.length then 32 else src.length
  [UInt8.ofNat (2 + charCount * 2), 3] ++ (src.take charCount).flatMap fun c => [c, 0]

/-- `language_desc`. -/
def languageDesc : List UInt8 := [4, 3, 0x09, 0x04]

/-! ## Requests -/

/-- `USB_Request_Hdr_t`. -/
structure UsbRequest where
  requestType : UInt8
  request : UInt8
  value : UInt16
  index : UInt16
  length : UInt16
deriving DecidableEq

namespace UsbRequest

/-- `value_l`, `value_h` and `index_l`. -/
def valueL (r : UsbRequest) : UInt8 := r.value.toUInt8
def valueH (r : UsbRequest) : UInt8 := (r.value >>> 8).toUInt8
def indexL (r : UsbRequest) : UInt8 := r.index.toUInt8

/-- A standard request to the device or to an interface, from the device to the host. -/
def toDevice (r : UsbRequest) : Bool := r.requestType = 0x80
def toInterface (r : UsbRequest) : Bool := r.requestType = 0x81

/-- `REQ_GetDescriptor`, to the device or to an interface. -/
def getDescriptor (r : UsbRequest) : Bool := (r.toDevice || r.toInterface) && r.request = 6

end UsbRequest

/-- What a class request answers: whether it stalls, and the bytes it writes. -/
structure ClassAnswer where
  stall : Bool
  written : List UInt8

/-- `control_request`, `g_response` (the bytes from it on), `g_response_len`, `g_stall`,
`g_usb_config_value` and the packet in the endpoint; whether the last setup packet was stalled, the
bytes sent since, and the number of calls since. -/
structure UsbCtl where
  controlRequest : UsbRequest
  gResponse : List UInt8
  gResponseLen : ℕ
  gStall : Bool
  gUsbConfigValue : UInt8
  ctrlEp : List UInt8
  stalled : Bool
  sent : List UInt8
  dataCalls : ℕ

namespace UsbCtl

/-- Power-on. -/
def powerOn : UsbCtl where
  controlRequest := ⟨0, 0, 0, 0, 0⟩
  gResponse := []
  gResponseLen := 0
  gStall := false
  gUsbConfigValue := 0
  ctrlEp := []
  stalled := false
  sent := []
  dataCalls := 0

/-- There is no response. -/
def clear (s : UsbCtl) : UsbCtl := { s with gResponse := [], gResponseLen := 0 }

/-- The response is a descriptor. -/
def respond (s : UsbCtl) (d : List UInt8) : UsbCtl :=
  { s with gResponse := d, gResponseLen := d.length }

/-- The response is a string descriptor, whose first byte is its size. -/
def respondStr (s : UsbCtl) (d : List UInt8) : UsbCtl :=
  { s with gResponse := d, gResponseLen := (d.headD 0).toNat }

/-- The request is stalled. -/
def stall (s : UsbCtl) : UsbCtl := { s with gStall := true }

/-- The response is cut to the length that the host asks for. -/
def clamp (s : UsbCtl) : UsbCtl :=
  { s with gResponseLen := if s.controlRequest.length.toNat < s.gResponseLen
    then s.controlRequest.length.toNat else s.gResponseLen }

section

variable (c : UsbDesc)

/-- `usb_send_response`. -/
def usbSendResponse (s : UsbCtl) : UsbCtl :=
  let n := if s.gResponseLen < c.ctrEndpointSize then s.gResponseLen else c.ctrEndpointSize
  { s with
    gResponseLen := s.gResponseLen - n
    ctrlEp := s.gResponse.take n
    gResponse := s.gResponse.drop n }

/-- `usb_prepare_desc_data`. -/
def usbPrepareDescData (s : UsbCtl) : UsbCtl :=
  let r := s.controlRequest
  let s := s.clear
  clamp <|
    if r.valueH = 1 then s.respond c.device.1
    else if r.valueH = 2 then s.respond c.configuration.1
    else if r.valueH = 3 then
      if r.valueL = 0 then s.respondStr languageDesc
      else if r.valueL = 1 then s.respondStr (usbdescGetStr c.stringVendor)
      else if r.valueL = 2 then s.respondStr (usbdescGetStr c.stringProduct)
      else if r.valueL = 3 then s.respondStr (usbdescGetStr c.stringSerial)
      else s.stall
    else s.stall

/-- `usb_handle_std_intf_req`. -/
def usbHandleStdIntfReq (s : UsbCtl) : UsbCtl :=
  let r := s.controlRequest
  clamp <|
    if r.valueH = 0x21 then
      match c.intf r.indexL with
      | some i => s.respond i.hid.1
      -- no stall: the response of the request before is left
      | none => s
    else if r.valueH = 0x22 then
      match c.intf r.indexL with
      | some i => s.respond i.report.1
      | none => s.stall
    else s

/-- A class request, or one for an alternate setting. -/
def answer (s : UsbCtl) (a : ClassAnswer) : UsbCtl :=
  { s with gStall := a.stall, ctrlEp := a.written }

/-- `usb_handle_request`. `dataRequest` is not set for the setup packet. -/
def usbHandleRequest (s : UsbCtl) (dataRequest : Bool) (a : ClassAnswer) : UsbCtl :=
  let r := s.controlRequest
  let s := { s with ctrlEp := [] }
  if r.requestType = 0x80 then
    -- a data packet goes on with the response that is left
    if r.request = 6 then usbSendResponse c (if dataRequest then s else usbPrepareDescData c s)
    else if r.request = 8 then { s with ctrlEp := [s.gUsbConfigValue] }
    else s
  else if r.requestType = 0x81 then
    if r.request = 6 then usbSendResponse c (if dataRequest then s else usbHandleStdIntfReq c s)
    else if r.request = 10 then s.answer a
    else s
  else if r.requestType = 0x21 ∨ r.requestType = 0x22 ∨ r.requestType = 0xA1 ∨
      r.requestType = 0xA2 then s.answer a
  else if r.requestType = 0x01 then
    if r.request = 3 then s.stall else s
  else if r.requestType = 0x00 then
    if r.request = 9 then { s with gUsbConfigValue := r.valueL } else s
  else s.stall

/-- `usb_handle_ctl_ep_setup`. -/
def usbHandleCtlEpSetup (s : UsbCtl) (r : UsbRequest) (a : ClassAnswer) : UsbCtl :=
  let s := usbHandleRequest c { s with controlRequest := r, gStall := false } false a
  { s with stalled := s.gStall, sent := if s.gStall then [] else s.ctrlEp, dataCalls := 0 }

/-- `usb_handle_ctl_ep_data`. -/
def usbHandleCtlEpData (s : UsbCtl) (a : ClassAnswer) : UsbCtl :=
  let s := usbHandleRequest c { s with gStall := false } true a
  { s with
    sent := if s.gStall then s.sent else s.sent ++ s.ctrlEp
    dataCalls := s.dataCalls + 1 }

end

end UsbCtl

/-- A setup packet, and a data packet of the transfer. -/
inductive CtlEvent
  | setup (r : UsbRequest) (a : ClassAnswer)
  | data (a : ClassAnswer)

/-- A step. -/
def ctlStep (c : UsbDesc) (s : UsbCtl) : CtlEvent → UsbCtl
  | .setup r a => s.usbHandleCtlEpSetup c r a
  | .data a => s.usbHandleCtlEpData c a

/-! ## What a transfer sends -/

/-- The descriptor that a request selects. -/
def UsbDesc.selected (c : UsbDesc) (r : UsbRequest) : Option (List UInt8) :=
  if r.toDevice then
    if r.valueH = 1 then some c.device.1
    else if r.valueH = 2 then some c.configuration.1
    else if r.valueH = 3 then
      if r.valueL = 0 then some languageDesc
      else if r.valueL = 1 then some (usbdescGetStr c.stringVendor)
      else if r.valueL = 2 then some (usbdescGetStr c.stringProduct)
      else if r.valueL = 3 then some (usbdescGetStr c.stringSerial)
      else none
    else none
  else if r.valueH = 0x21 then (c.intf r.indexL).map fun i => i.hid.1
  else if r.valueH = 0x22 then (c.intf r.indexL).map fun i => i.report.1
  else none

/-- A request for a descriptor has been sent, packet by packet, what the host asks for of the
descriptor that it selects. Where there is none, it is stalled, and nothing is sent. -/
def TransferOk (c : UsbDesc) (s : UsbCtl) : Prop :=
  s.controlRequest.getDescriptor = true →
    match c.selected s.controlRequest with
    | some d => s.stalled = false ∧
      s.sent = (d.take s.controlRequest.length.toNat).take ((s.dataCalls + 1) * c.ctrEndpointSize)
    | none => s.stalled = true ∧ s.sent = []

/-- The condition on a step: a request for a descriptor that an interface does not have is one for
a report descriptor, and no data packet follows a stalled request while bytes are left. -/
def CtlStepOk (c : UsbDesc) (s : UsbCtl) : CtlEvent → Prop
  | .setup r _ => r.getDescriptor = true → r.toInterface = true → c.selected r = none →
    r.valueH = 0x22
  | .data _ => s.controlRequest.getDescriptor = true → c.selected s.controlRequest = none →
    s.gResponseLen = 0

/-! ## Packets -/

namespace UsbCtl

variable {c : UsbDesc} {s : UsbCtl}

/-- The bytes that are left to send. -/
def rest (s : UsbCtl) : List UInt8 := s.gResponse.take s.gResponseLen

/-- `g_response_len` does not reach behind the descriptor. -/
def Bounded (s : UsbCtl) : Prop := s.gResponseLen ≤ s.gResponse.length

theorem bounded_usbSendResponse (h : s.Bounded) : (s.usbSendResponse c).Bounded := by
  simp only [Bounded, usbSendResponse, List.length_drop] at h ⊢
  omega

theorem ctrlEp_usbSendResponse (s : UsbCtl) :
    (s.usbSendResponse c).ctrlEp = s.rest.take c.ctrEndpointSize := by
  show s.gResponse.take _ = (s.gResponse.take _).take _
  rw [List.take_take]
  congr 1
  split_ifs <;> omega

theorem rest_usbSendResponse (s : UsbCtl) :
    (s.usbSendResponse c).rest = s.rest.drop c.ctrEndpointSize := by
  show (s.gResponse.drop _).take (s.gResponseLen - _) = (s.gResponse.take _).drop _
  rw [← List.drop_take]
  split_ifs with hlt
  · rw [List.drop_eq_nil_of_le (by rw [List.length_take]; omega),
      List.drop_eq_nil_of_le (by rw [List.length_take]; omega)]
  · rfl

theorem bounded_clamp (h : s.Bounded) : s.clamp.Bounded := by
  simp only [Bounded, clamp] at h ⊢
  split_ifs <;> omega

theorem rest_clamp (s : UsbCtl) : s.clamp.rest = s.rest.take s.controlRequest.length.toNat := by
  show s.gResponse.take (if _ then _ else _) = (s.gResponse.take _).take _
  rw [List.take_take]
  congr 1
  split_ifs <;> omega

theorem length_rest (h : s.Bounded) : s.rest.length = s.gResponseLen := by
  rw [rest, List.length_take]
  exact Nat.min_eq_left h

/-! ## The response -/

/-- The response is the descriptor `d`, cut to what the host asks for. -/
structure Responds (s : UsbCtl) (d : List UInt8) (s' : UsbCtl) : Prop where
  rest : s'.rest = d.take s.controlRequest.length.toNat
  bounded : s'.Bounded
  gStall : s'.gStall = s.gStall

theorem responds_respond {t : UsbCtl} (hreq : t.controlRequest = s.controlRequest)
    (hstall : t.gStall = s.gStall) (d : List UInt8) : Responds s d (t.respond d).clamp := by
  refine ⟨?_, bounded_clamp (Nat.le_refl _), hstall⟩
  rw [rest_clamp, ← hreq]
  show (d.take d.length).take _ = _
  rw [List.take_length]
  rfl

/-- The first byte of a string descriptor is its size. -/
theorem head_usbdescGetStr (src : List UInt8) :
    ((usbdescGetStr src).headD 0).toNat = (usbdescGetStr src).length := by
  have hflat : ∀ l : List UInt8, (l.flatMap fun c => [c, (0 : UInt8)]).length = l.length * 2 := by
    intro l
    induction l with
    | nil => rfl
    | cons x l ih =>
      rw [List.flatMap_cons, List.length_append, ih, List.length_cons]
      show 2 + l.length * 2 = (l.length + 1) * 2
      omega
  rw [usbdescGetStr, List.length_append, hflat, List.length_take]
  show (UInt8.ofNat _).toNat = 2 + _
  rw [UInt8.toNat_ofNat']
  split_ifs <;> omega

theorem responds_respondStr {t : UsbCtl} (hreq : t.controlRequest = s.controlRequest)
    (hstall : t.gStall = s.gStall) {d : List UInt8} (hd : (d.headD 0).toNat = d.length) :
    Responds s d (t.respondStr d).clamp := by
  have heq : t.respondStr d = t.respond d := by rw [respondStr, respond, hd]
  rw [heq]
  exact responds_respond hreq hstall d

/-- What is prepared for a request for a descriptor, or without one. -/
def Prepared (s : UsbCtl) : Option (List UInt8) → UsbCtl → Prop
  | some d, s' => Responds s d s'
  | none, s' => s'.gResponseLen = 0 ∧ s'.gStall = true

theorem prepared_ite {p : Prop} [Decidable p] {a b : Option (List UInt8)} {x y : UsbCtl}
    (hx : Prepared s a x.clamp) (hy : Prepared s b y.clamp) :
    Prepared s (if p then a else b) (if p then x else y).clamp := by
  by_cases h : p
  · rwa [if_pos h, if_pos h]
  · rwa [if_neg h, if_neg h]

theorem prepared_stall (s : UsbCtl) : Prepared s none s.clear.stall.clamp := by
  refine ⟨?_, rfl⟩
  show (if s.controlRequest.length.toNat < 0 then s.controlRequest.length.toNat else 0) = 0
  exact if_neg (Nat.not_lt_zero _)

/-- A request to the device starts with no response. -/
theorem usbPrepareDescData_spec (c : UsbDesc) (s : UsbCtl)
    (hdev : s.controlRequest.toDevice = true) :
    Prepared s (c.selected s.controlRequest) (s.usbPrepareDescData c) := by
  rw [UsbDesc.selected, if_pos hdev, usbPrepareDescData]
  refine prepared_ite (responds_respond rfl rfl _) <|
    prepared_ite (responds_respond rfl rfl _) <| prepared_ite ?string (prepared_stall s)
  case string =>
    have hstr (src : List UInt8) :
        Prepared s (some (usbdescGetStr src)) (s.clear.respondStr (usbdescGetStr src)).clamp :=
      responds_respondStr rfl rfl (head_usbdescGetStr src)
    exact prepared_ite (responds_respondStr rfl rfl rfl) <| prepared_ite (hstr _) <|
      prepared_ite (hstr _) <| prepared_ite (hstr _) (prepared_stall s)

/-- A request to an interface for a descriptor that it has. -/
theorem usbHandleStdIntfReq_some {c : UsbDesc} (hdev : s.controlRequest.toDevice = false)
    {d : List UInt8} (hsel : c.selected s.controlRequest = some d) :
    Responds s d (s.usbHandleStdIntfReq c) := by
  simp only [UsbDesc.selected, hdev, Bool.false_eq_true, if_false] at hsel
  rw [usbHandleStdIntfReq]
  split_ifs at hsel with hhid hreport
  · obtain ⟨i, hi, rfl⟩ := Option.map_eq_some_iff.mp hsel
    simp only [if_pos hhid, hi]
    exact responds_respond rfl rfl _
  · obtain ⟨i, hi, rfl⟩ := Option.map_eq_some_iff.mp hsel
    simp only [if_neg hhid, if_pos hreport, hi]
    exact responds_respond rfl rfl _

/-- A request to an interface for a descriptor that it does not have leaves the response of the
last transfer, and only a report descriptor is stalled. -/
theorem usbHandleStdIntfReq_none {c : UsbDesc} (hdev : s.controlRequest.toDevice = false)
    (hsel : c.selected s.controlRequest = none) :
    (s.usbHandleStdIntfReq c).gStall =
      if s.controlRequest.valueH = 0x22 then true else s.gStall := by
  simp only [UsbDesc.selected, hdev, Bool.false_eq_true, if_false] at hsel
  rw [usbHandleStdIntfReq]
  split_ifs at hsel with hhid hreport
  · simp only [Option.map_eq_none_iff.mp hsel, hhid]
    rfl
  · simp only [if_neg hhid, if_pos hreport, Option.map_eq_none_iff.mp hsel]
    rfl
  · simp only [if_neg hhid, if_neg hreport]
    rfl

theorem bounded_usbHandleStdIntfReq (h : s.Bounded) (c : UsbDesc) :
    (s.usbHandleStdIntfReq c).Bounded := by
  rw [usbHandleStdIntfReq]
  apply bounded_clamp
  split_ifs
  · split
    · exact Nat.le_refl _
    · exact h
  · split
    · exact Nat.le_refl _
    · exact h
  · exact h

@[simp] theorem controlRequest_clear (s : UsbCtl) : s.clear.controlRequest = s.controlRequest := rfl

@[simp] theorem controlRequest_stall (s : UsbCtl) : s.stall.controlRequest = s.controlRequest := rfl

@[simp] theorem controlRequest_respond (s : UsbCtl) (d : List UInt8) :
    (s.respond d).controlRequest = s.controlRequest := rfl

@[simp] theorem controlRequest_respondStr (s : UsbCtl) (d : List UInt8) :
    (s.respondStr d).controlRequest = s.controlRequest := rfl

theorem controlRequest_usbPrepareDescData (c : UsbDesc) (s : UsbCtl) :
    (s.usbPrepareDescData c).controlRequest = s.controlRequest := by
  rw [usbPrepareDescData]
  simp only [clamp, apply_ite UsbCtl.controlRequest, controlRequest_clear, controlRequest_respond,
    controlRequest_respondStr, controlRequest_stall, ite_self]

theorem controlRequest_usbHandleStdIntfReq (c : UsbDesc) (s : UsbCtl) :
    (s.usbHandleStdIntfReq c).controlRequest = s.controlRequest := by
  rw [usbHandleStdIntfReq]
  split_ifs
  · split <;> rfl
  · split <;> rfl
  · rfl

theorem bounded_usbPrepareDescData (c : UsbDesc) (hdev : s.controlRequest.toDevice = true) :
    (s.usbPrepareDescData c).Bounded := by
  have hspec := usbPrepareDescData_spec c s hdev
  cases hsel : c.selected s.controlRequest with
  | none =>
    rw [hsel] at hspec
    exact Nat.le_trans (Nat.le_of_eq hspec.1) (Nat.zero_le _)
  | some d =>
    rw [hsel] at hspec
    exact hspec.bounded

/-! ## Steps -/

/-- The response to a request for a descriptor, before its first packet. -/
def prepare (c : UsbDesc) (s : UsbCtl) : UsbCtl :=
  if s.controlRequest.toDevice then s.usbPrepareDescData c else s.usbHandleStdIntfReq c

theorem bounded_prepare (h : s.Bounded) (c : UsbDesc) : (prepare c s).Bounded := by
  rw [prepare]
  split_ifs with hdev
  · exact bounded_usbPrepareDescData c hdev
  · exact bounded_usbHandleStdIntfReq h c

theorem prepare_some {d : List UInt8} (hsel : c.selected s.controlRequest = some d) :
    Responds s d (prepare c s) := by
  rw [prepare]
  split_ifs with hdev
  · have hspec := usbPrepareDescData_spec c s hdev
    rw [hsel] at hspec
    exact hspec
  · exact usbHandleStdIntfReq_some (Bool.eq_false_iff.mpr hdev) hsel

theorem prepare_none (hsel : c.selected s.controlRequest = none) (hstall : s.gStall = false) :
    (prepare c s).gStall =
      (s.controlRequest.toDevice || s.controlRequest.valueH = 0x22) := by
  rw [prepare]
  split_ifs with hdev
  · have hspec := usbPrepareDescData_spec c s hdev
    rw [hsel] at hspec
    rw [hspec.2, hdev, Bool.true_or]
  · rw [usbHandleStdIntfReq_none (Bool.eq_false_iff.mpr hdev) hsel, hstall,
      Bool.eq_false_iff.mpr hdev, Bool.false_or]
    exact (Bool.if_true_left _ _).trans (Bool.or_false _)

/-- A request for a descriptor. -/
theorem usbHandleRequest_getDescriptor (h : s.controlRequest.getDescriptor = true)
    (dataRequest : Bool) (a : ClassAnswer) :
    s.usbHandleRequest c dataRequest a = usbSendResponse c
      (if dataRequest then { s with ctrlEp := [] } else prepare c { s with ctrlEp := [] }) := by
  simp only [UsbRequest.getDescriptor, UsbRequest.toDevice, UsbRequest.toInterface,
    Bool.and_eq_true, Bool.or_eq_true, decide_eq_true_eq] at h
  obtain ⟨hdev | hintf, hreq⟩ := h
  · simp only [usbHandleRequest, prepare, UsbRequest.toDevice, hdev, hreq, if_true, decide_true]
  · simp only [usbHandleRequest, prepare, UsbRequest.toDevice, hintf, hreq, if_true]
    rfl

/-- Any other request leaves the response alone. -/
theorem usbHandleRequest_other (h : s.controlRequest.getDescriptor = false) (dataRequest : Bool)
    (a : ClassAnswer) :
    (s.usbHandleRequest c dataRequest a).gResponse = s.gResponse ∧
      (s.usbHandleRequest c dataRequest a).gResponseLen = s.gResponseLen ∧
      (s.usbHandleRequest c dataRequest a).controlRequest = s.controlRequest := by
  have hget : ¬ ((s.controlRequest.requestType = 0x80 ∨ s.controlRequest.requestType = 0x81) ∧
      s.controlRequest.request = 6) := by
    simpa [UsbRequest.getDescriptor, UsbRequest.toDevice, UsbRequest.toInterface] using h
  simp only [usbHandleRequest]
  by_cases h80 : s.controlRequest.requestType = 0x80
  · rw [if_pos h80, if_neg fun h6 => hget ⟨.inl h80, h6⟩]
    split_ifs <;> exact ⟨rfl, rfl, rfl⟩
  · rw [if_neg h80]
    by_cases h81 : s.controlRequest.requestType = 0x81
    · rw [if_pos h81, if_neg fun h6 => hget ⟨.inr h81, h6⟩]
      split_ifs <;> exact ⟨rfl, rfl, rfl⟩
    · rw [if_neg h81]
      split_ifs <;> exact ⟨rfl, rfl, rfl⟩

theorem controlRequest_prepare (c : UsbDesc) (s : UsbCtl) :
    (prepare c s).controlRequest = s.controlRequest := by
  rw [prepare]
  split_ifs
  · exact controlRequest_usbPrepareDescData c s
  · exact controlRequest_usbHandleStdIntfReq c s

/-- The state in which `r` is handled. -/
def start (s : UsbCtl) (r : UsbRequest) : UsbCtl :=
  { s with controlRequest := r, gStall := false, ctrlEp := [] }

/-- `s'` comes from `t` by a packet of the response. -/
structure Sends (c : UsbDesc) (t s' : UsbCtl) : Prop where
  request : s'.controlRequest = t.controlRequest
  rest : s'.rest = t.rest.drop c.ctrEndpointSize
  bounded : t.Bounded → s'.Bounded

/-- A setup packet that asks for a descriptor. -/
theorem setup_getDescriptor {r : UsbRequest} (hget : r.getDescriptor = true) (s : UsbCtl)
    (a : ClassAnswer) :
    Sends c (prepare c (s.start r)) (s.usbHandleCtlEpSetup c r a) ∧
      (s.usbHandleCtlEpSetup c r a).stalled = (prepare c (s.start r)).gStall ∧
      (s.usbHandleCtlEpSetup c r a).sent = (if (prepare c (s.start r)).gStall then []
        else (prepare c (s.start r)).rest.take c.ctrEndpointSize) ∧
      (s.usbHandleCtlEpSetup c r a).dataCalls = 0 := by
  have hreq : usbHandleRequest c { s with controlRequest := r, gStall := false } false a =
      usbSendResponse c (prepare c (s.start r)) :=
    usbHandleRequest_getDescriptor (s := { s with controlRequest := r, gStall := false })
      hget false a
  simp only [usbHandleCtlEpSetup, hreq]
  refine ⟨⟨rfl, ?_, fun h => bounded_usbSendResponse h⟩, rfl, ?_, trivial⟩
  · exact rest_usbSendResponse _
  · rw [ctrlEp_usbSendResponse]
    rfl

/-- A data packet of a transfer of a descriptor. -/
theorem data_getDescriptor (hget : s.controlRequest.getDescriptor = true) (a : ClassAnswer) :
    Sends c s (s.usbHandleCtlEpData c a) ∧
      (s.usbHandleCtlEpData c a).stalled = s.stalled ∧
      (s.usbHandleCtlEpData c a).sent = s.sent ++ s.rest.take c.ctrEndpointSize ∧
      (s.usbHandleCtlEpData c a).dataCalls = s.dataCalls + 1 := by
  have hreq : usbHandleRequest c { s with gStall := false } true a =
      usbSendResponse c (s.start s.controlRequest) :=
    usbHandleRequest_getDescriptor (s := { s with gStall := false }) hget true a
  simp only [usbHandleCtlEpData, hreq]
  refine ⟨⟨rfl, ?_, fun h => ?_⟩, rfl, ?_, rfl⟩
  · exact rest_usbSendResponse (s.start s.controlRequest)
  · exact bounded_usbSendResponse (s := s.start s.controlRequest) h
  · rw [ctrlEp_usbSendResponse]
    rfl

/-- A setup packet that asks for anything else. -/
theorem setup_other {r : UsbRequest} (hget : r.getDescriptor = false) (s : UsbCtl)
    (a : ClassAnswer) :
    (s.usbHandleCtlEpSetup c r a).controlRequest = r ∧
      (s.Bounded → (s.usbHandleCtlEpSetup c r a).Bounded) := by
  obtain ⟨hresp, hlen, hreq⟩ := usbHandleRequest_other (c := c)
    (s := { s with controlRequest := r, gStall := false }) hget false a
  refine ⟨hreq, fun h => ?_⟩
  show (usbHandleRequest c _ _ a).gResponseLen ≤ (usbHandleRequest c _ _ a).gResponse.length
  rw [hlen, hresp]
  exact h

/-- A data packet of any other transfer. -/
theorem data_other (hget : s.controlRequest.getDescriptor = false) (a : ClassAnswer) :
    (s.usbHandleCtlEpData c a).controlRequest = s.controlRequest ∧
      (s.Bounded → (s.usbHandleCtlEpData c a).Bounded) := by
  obtain ⟨hresp, hlen, hreq⟩ := usbHandleRequest_other (c := c)
    (s := { s with gStall := false }) hget true a
  refine ⟨hreq, fun h => ?_⟩
  show (usbHandleRequest c _ _ a).gResponseLen ≤ (usbHandleRequest c _ _ a).gResponse.length
  rw [hlen, hresp]
  exact h

/-! ## What the states of a run meet -/

/-- `g_response_len` does not reach behind the descriptor, and what is left of a descriptor that
the request selects is what has not been sent. -/
structure CtlInv (c : UsbDesc) (s : UsbCtl) : Prop where
  bounded : s.Bounded
  rest : s.controlRequest.getDescriptor = true → ∀ d, c.selected s.controlRequest = some d →
    s.rest = (d.take s.controlRequest.length.toNat).drop ((s.dataCalls + 1) * c.ctrEndpointSize)

theorem ctlInv_of_other (h : s.Bounded) (hget : s.controlRequest.getDescriptor = false) :
    CtlInv c s :=
  ⟨h, fun hget' => nomatch hget.symm.trans hget'⟩

theorem ctlStep_inv {e : CtlEvent} (h : CtlInv c s) : CtlInv c (ctlStep c s e) := by
  cases e with
  | setup r a =>
    show CtlInv c (s.usbHandleCtlEpSetup c r a)
    cases hget : r.getDescriptor with
    | false =>
      obtain ⟨hreq, hbounded⟩ := setup_other (c := c) hget s a
      exact ctlInv_of_other (hbounded h.bounded)
        ((congrArg UsbRequest.getDescriptor hreq).trans hget)
    | true =>
      obtain ⟨hsends, -, -, hcalls⟩ := setup_getDescriptor (c := c) hget s a
      have hreq : (s.usbHandleCtlEpSetup c r a).controlRequest = r :=
        hsends.request.trans (controlRequest_prepare c (s.start r))
      refine ⟨hsends.bounded (bounded_prepare (s := s.start r) h.bounded c), fun _ d hsel => ?_⟩
      rw [hreq] at hsel
      rw [hsends.rest, (prepare_some (s := s.start r) hsel).rest, hreq, hcalls, Nat.zero_add,
        Nat.one_mul]
      rfl
  | data a =>
    show CtlInv c (s.usbHandleCtlEpData c a)
    cases hget : s.controlRequest.getDescriptor with
    | false =>
      obtain ⟨hreq, hbounded⟩ := data_other (c := c) hget a
      exact ctlInv_of_other (hbounded h.bounded)
        ((congrArg UsbRequest.getDescriptor hreq).trans hget)
    | true =>
      obtain ⟨hsends, -, -, hcalls⟩ := data_getDescriptor (c := c) hget a
      refine ⟨hsends.bounded h.bounded, fun _ d hsel => ?_⟩
      rw [hsends.request] at hsel ⊢
      rw [hsends.rest, h.rest hget d hsel, hcalls, List.drop_drop,
        Nat.add_mul (s.dataCalls + 1), Nat.one_mul]

/-- A setup packet keeps to what a transfer may send exactly if it meets the condition. -/
theorem transferOk_setup (s : UsbCtl) (r : UsbRequest) (a : ClassAnswer) :
    TransferOk c (s.usbHandleCtlEpSetup c r a) ↔ CtlStepOk c s (.setup r a) := by
  cases hget : r.getDescriptor with
  | false =>
    have hreq := (setup_other (c := c) hget s a).1
    refine iff_of_true (fun hget' => ?_) fun hget' => nomatch hget.symm.trans hget'
    rw [hreq] at hget'
    exact nomatch hget.symm.trans hget'
  | true =>
    obtain ⟨hsends, hstalled, hsent, hcalls⟩ := setup_getDescriptor (c := c) hget s a
    have hreq : (s.usbHandleCtlEpSetup c r a).controlRequest = r :=
      hsends.request.trans (controlRequest_prepare c (s.start r))
    rw [TransferOk, hreq, hstalled, hsent, hcalls, CtlStepOk]
    simp only [hget, true_implies]
    cases hsel : c.selected r with
    | some d =>
      have hprep : Responds (s.start r) d (prepare c (s.start r)) := prepare_some hsel
      refine iff_of_true ⟨hprep.gStall, ?_⟩ fun _ hnone => nomatch hnone
      rw [hprep.gStall, hprep.rest, Nat.zero_add, Nat.one_mul]
      rfl
    | none =>
      have hstall : (prepare c (s.start r)).gStall = (r.toDevice || r.valueH = 0x22) :=
        prepare_none (s := s.start r) hsel rfl
      rw [hstall]
      cases hdev : r.toDevice with
      | true =>
        refine iff_of_true ⟨rfl, if_pos rfl⟩ fun hintf => ?_
        simp only [UsbRequest.toDevice, UsbRequest.toInterface, decide_eq_true_eq] at hdev hintf
        rw [hdev] at hintf
        exact absurd hintf (by decide)
      | false =>
        have hintf : r.toInterface = true := by
          rw [UsbRequest.getDescriptor, hdev, Bool.false_or, Bool.and_eq_true] at hget
          exact hget.1
        rw [Bool.false_or]
        refine ⟨fun hboth _ _ => of_decide_eq_true hboth.1, fun hreport => ?_⟩
        have h22 := hreport hintf rfl
        rw [decide_eq_true h22]
        exact ⟨rfl, if_pos rfl⟩

/-- A data packet keeps to what a transfer may send exactly if it meets the condition. -/
theorem transferOk_data (h : CtlInv c s) (hok : TransferOk c s) (a : ClassAnswer) :
    TransferOk c (s.usbHandleCtlEpData c a) ↔ CtlStepOk c s (.data a) := by
  cases hget : s.controlRequest.getDescriptor with
  | false =>
    have hreq := (data_other (c := c) hget a).1
    refine iff_of_true (fun hget' => ?_) fun hget' => nomatch hget.symm.trans hget'
    rw [hreq] at hget'
    exact nomatch hget.symm.trans hget'
  | true =>
    obtain ⟨hsends, hstalled, hsent, hcalls⟩ := data_getDescriptor (c := c) hget a
    have hok := hok hget
    rw [TransferOk, hsends.request, hstalled, hsent, hcalls, CtlStepOk]
    simp only [hget, true_implies]
    cases hsel : c.selected s.controlRequest with
    | some d =>
      rw [hsel] at hok
      refine iff_of_true ⟨hok.1, ?_⟩ fun hnone => nomatch hnone
      rw [hok.2, h.rest hget d hsel, Nat.add_mul (s.dataCalls + 1), Nat.one_mul, List.take_add]
    | none =>
      rw [hsel] at hok
      simp only [hok.1, hok.2, List.nil_append, true_and, true_implies]
      have hlen : s.rest.length = s.gResponseLen := length_rest h.bounded
      constructor
      · intro hnil
        rcases List.take_eq_nil_iff.mp hnil with hsize | hrest
        · exact absurd hsize (Nat.ne_of_gt c.ctrEndpointSize_pos)
        · rw [← hlen, hrest]
          rfl
      · intro hzero
        rw [List.eq_nil_of_length_eq_zero (hlen.trans hzero), List.take_nil]

end UsbCtl

/-- In every run of control transfers, a request for a descriptor sends what the host asks for of
the descriptor that it selects, or is stalled without a byte of another one, exactly if all steps
meet the condition. -/
theorem control_transfers (c : UsbDesc) (events : List CtlEvent) :
    Machine.Always (ctlStep c) (TransferOk c) .powerOn events ↔
      Machine.Along (ctlStep c) (CtlStepOk c) .powerOn events := by
  have hinit : UsbCtl.CtlInv c .powerOn := UsbCtl.ctlInv_of_other (Nat.le_refl 0) rfl
  have hstep : ∀ s e, UsbCtl.CtlInv c s → TransferOk c s → True →
      (TransferOk c (ctlStep c s e) ↔ CtlStepOk c s e) := by
    intro s e h hok _
    cases e with
    | setup r a => exact UsbCtl.transferOk_setup s r a
    | data a => exact UsbCtl.transferOk_data h hok a
  exact Machine.always_iff_along hstep (fun _ _ h _ _ _ => UsbCtl.ctlStep_inv h)
    (Machine.along_true _ events) hinit fun hget => nomatch hget

/-- A device with one HID interface, and with packets of 8 bytes. -/
def exampleDesc : UsbDesc where
  device := ⟨[18, 1, 0, 2, 0, 0, 0, 8, 0x8A, 0x24, 0x01, 0x88, 1, 0, 1, 2, 0, 1], by decide⟩
  configuration := ⟨[9, 2, 9, 0, 1, 1, 0, 0xA0, 50], by decide⟩
  stringVendor := []
  stringProduct := []
  stringSerial := []
  intf n := if n = 0 then
      some ⟨⟨[9, 0x21, 0x11, 1, 0, 1, 0x22, 4, 0], by decide⟩, ⟨[5, 1, 9, 6], by decide⟩⟩
    else none
  ctrEndpointSize := 8
  ctrEndpointSize_pos := by decide

/-- The device descriptor is abandoned after its first packet. A request for the HID descriptor of
an interface that does not exist sends the next one, and so does the data packet behind a stalled
request for a report descriptor. -/
theorem control_transfers_counterexample :
    ¬ Machine.Always (ctlStep exampleDesc) (TransferOk exampleDesc) .powerOn
        [.setup ⟨0x80, 6, 0x0100, 0, 18⟩ ⟨false, []⟩,
          .setup ⟨0x81, 6, 0x2100, 1, 9⟩ ⟨false, []⟩] ∧
      ¬ Machine.Always (ctlStep exampleDesc) (TransferOk exampleDesc) .powerOn
        [.setup ⟨0x80, 6, 0x0100, 0, 18⟩ ⟨false, []⟩,
          .setup ⟨0x81, 6, 0x2200, 1, 9⟩ ⟨false, []⟩, .data ⟨false, []⟩] := by
  refine ⟨fun h => ?_, fun h => ?_⟩
  · exact absurd (h.last rfl).1 (by decide +kernel)
  · exact absurd (h.last rfl).2 (by decide +kernel)

end TlBleSdk.Usb
