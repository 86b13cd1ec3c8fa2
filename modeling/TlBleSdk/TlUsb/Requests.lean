import TlBleSdk.TlUsb.Usbd

/-!
# Which requests fault

`wIndex` and `wLength` come from the host, and nothing checks them before they are used. For each
handler there is the exact condition on a request under which it does not fault. A request that is
refused leaves the state as it was, but for the saved setup packet.
-/

namespace TlBleSdk.TlUsb

open Checked

/-! ## Conditions -/

/-- The condition on a request to a HID interface. -/
structure HidOk (r : UsbControlRequest) (setupStage : Bool) : Prop where
  status : r.type = 0 →
    r.bRequest = 0 ∨ (r.bRequest = 1 ∨ r.bRequest = 3) ∧ r.recipient = 2 ∧ r.wValue = 0 →
    (usbGetEpNumber r.indexL).toNat < usbdSupportEndpointMax
  itf : r.type = 1 → r.bRequest ∈ [2, 3, 9, 10, 11] → r.indexL.toNat < usbdHidInterfaceNum
  setReport : r.type = 1 → r.bRequest = 9 → setupStage = true → r.wLength.toNat ≤ 8

/-- The condition on a request to a CDC interface. -/
structure CdcOk (r : UsbControlRequest) (setupStage : Bool) : Prop where
  itf : r.type = 1 → r.bRequest ∈ [0x20, 0x21, 0x22] → r.indexL.toNat < usbdCdcInterfaceNum
  setLineCoding : r.type = 1 → r.bRequest = 0x20 → setupStage = true → r.wLength.toNat ≤ 7

/-- The condition on a request to an audio interface. -/
def AudioOk (r : UsbControlRequest) (setupStage : Bool) : Prop :=
  r.type = 1 → setupStage = true → (r.recipient = 1 ∧ r.direction = 0) ∨ r.recipient = 2 →
    r.wLength.toNat ≤ 3

/-- The condition on a request, for the handler of its driver. -/
def HandlerOk (r : UsbControlRequest) (setupStage : Bool) : Handler → Prop
  | .usbdHidInterfaceRequestHandler => HidOk r setupStage
  | .usbdCdcInterfaceRequestHandler => CdcOk r setupStage
  | .usbdAudioInterfaceRequestHandler => AudioOk r setupStage

/-- The driver with a number, where one is registered. -/
def Usbd.driverAt (s : Usbd) (n : UInt8) : Option UsbdDriver :=
  if h : n.toNat < usbdSupportDriverMax then s.driver[n.toNat] else none

/-- The condition on a standard or class request: the interface or the endpoint has an entry in its
table, the driver of the entry is registered, and its handler can do with the request. -/
structure RequestOk (s : Usbd) (r : UsbControlRequest) (setupStage : Bool) : Prop where
  interface : r.recipient = 1 → ∃ h : r.indexL.toNat < usbdSupportInterfaceMax,
    ∃ d, s.driverAt s.itf2drv[r.indexL.toNat] = some d ∧
      HandlerOk r setupStage d.usbdDriverHandler
  endpoint : r.recipient = 2 →
    ∃ h : (usbGetEpNumber r.indexL).toNat < usbdSupportEndpointMax,
      ∃ d, s.driverAt (s.ep2drv[(usbGetEpNumber r.indexL).toNat].get (usbGetEpDir r.indexL)) =
        some d ∧
        HandlerOk r setupStage d.usbdDriverHandler

/-- The condition on a step. -/
def UsbdStepOk (s : Usbd) : UsbdEvent → Prop
  | .driverRegister driver intf epAddr =>
    (usbGetEpNumber epAddr).toNat ≤ usbdSupportEndpointMax →
      (usbGetEpNumber epAddr).toNat ≠ usbdSupportEndpointMax ∧
        intf.toNat < usbdSupportInterfaceMax ∧ driver.driverNum.toNat < usbdSupportDriverMax
  | .controlRequest r setupStage => r.type = 0 ∨ r.type = 1 → RequestOk s r setupStage
  | .dataStage _ | .ep0InComplete | .busReset => True

/-- A request that is refused changes nothing but the saved setup packet. -/
def RefusedUnchanged (app : UsbdApp) (s : Usbd) : UsbdEvent → Prop
  | .controlRequest r setupStage => ∀ s',
    s.usbdControlRequestProcess app r setupStage = .ok (false, s') → s' = { s with setup := r }
  | _ => True

namespace Usbd

variable {app : UsbdApp} {s s' : Usbd} {r : UsbControlRequest} {setupStage : Bool}

/-! ## Handlers -/

@[simp] theorem ok_usbdEpRead {dst : Destination} {len : UInt16} :
    Ok (s.usbdEpRead dst len) ↔ len.toNat ≤ dst.size := by
  rw [usbdEpRead, ok_bind_iff fun _ _ => ok_pure _, ok_require]

@[simp] theorem ok_usbdEndpointSetStatus {epAddr : UInt8} {epStatus : UInt16} :
    Ok (s.usbdEndpointSetStatus epAddr epStatus) ↔
      (usbGetEpNumber epAddr).toNat < usbdSupportEndpointMax := by
  simp [usbdEndpointSetStatus]

@[simp] theorem ok_usbdEndpointGetStatus {epAddr : UInt8} :
    Ok (s.usbdEndpointGetStatus epAddr) ↔
      (usbGetEpNumber epAddr).toNat < usbdSupportEndpointMax := by
  simp [usbdEndpointGetStatus]

/-- A standard request reaches the status of an endpoint, or no table. -/
theorem ok_hid_standard (hstd : r.type = 0) :
    Ok (s.usbdHidInterfaceRequestHandler app r setupStage) ↔
      (r.bRequest = 0 ∨ (r.bRequest = 1 ∨ r.bRequest = 3) ∧ r.recipient = 2 ∧ r.wValue = 0 →
        (usbGetEpNumber r.indexL).toNat < usbdSupportEndpointMax) := by
  rw [usbdHidInterfaceRequestHandler, if_pos hstd]
  split_ifs <;> simp_all

/-- A report reaches the interface that `wIndex` names, and has to fit into `reg_data`. -/
theorem ok_hid_setReport (hclass : r.type = 1) (hreq : r.bRequest = 9) :
    Ok (s.usbdHidInterfaceRequestHandler app r setupStage) ↔
      r.indexL.toNat < usbdHidInterfaceNum ∧ (setupStage = true → r.wLength.toNat ≤ 8) := by
  simp only [usbdHidInterfaceRequestHandler, hclass, hreq, if_true]
  cases setupStage with
  | false => simp
  | true =>
    by_cases hitf : r.indexL.toNat < usbdHidInterfaceNum
    · simp [hitf, Destination.size]
    · simp [hitf]

/-- The other class requests reach that interface, or none. -/
theorem ok_hid_class (hclass : r.type = 1) (hreq : r.bRequest ≠ 9) :
    Ok (s.usbdHidInterfaceRequestHandler app r setupStage) ↔
      (r.bRequest ∈ [2, 3, 10, 11] → r.indexL.toNat < usbdHidInterfaceNum) := by
  have hstd : r.type ≠ 0 := by rw [hclass]; decide
  rw [usbdHidInterfaceRequestHandler, if_neg hstd, if_pos hclass]
  split_ifs <;> simp_all

theorem ok_hid : Ok (s.usbdHidInterfaceRequestHandler app r setupStage) ↔ HidOk r setupStage := by
  by_cases hstd : r.type = 0
  · have hclass : r.type ≠ 1 := by rw [hstd]; decide
    rw [ok_hid_standard hstd]
    exact ⟨fun h => ⟨fun _ => h, fun h' => absurd h' hclass, fun h' => absurd h' hclass⟩,
      fun h => h.status hstd⟩
  by_cases hclass : r.type = 1
  · by_cases hreq : r.bRequest = 9
    · rw [ok_hid_setReport hclass hreq]
      exact ⟨fun h => ⟨fun h' => absurd h' hstd, fun _ _ => h.1, fun _ _ => h.2⟩,
        fun h => ⟨h.itf hclass (by rw [hreq]; decide), h.setReport hclass hreq⟩⟩
    · rw [ok_hid_class hclass hreq]
      constructor
      · refine fun h => ⟨fun h' => absurd h' hstd, fun _ hmem => h ?_, fun _ h' => absurd h' hreq⟩
        simpa [hreq] using hmem
      · refine fun h hmem => h.itf hclass ?_
        simp only [List.mem_cons, List.not_mem_nil, or_false] at hmem ⊢
        tauto
  · rw [usbdHidInterfaceRequestHandler, if_neg hstd, if_neg hclass]
    exact iff_of_true (ok_pure _) ⟨fun h => absurd h hstd, fun h => absurd h hclass,
      fun h => absurd h hclass⟩

theorem ok_cdc : Ok (s.usbdCdcInterfaceRequestHandler r setupStage) ↔ CdcOk r setupStage := by
  rw [usbdCdcInterfaceRequestHandler]
  by_cases hclass : r.type = 1
  · have hiff : CdcOk r setupStage ↔
        (r.bRequest ∈ [0x20, 0x21, 0x22] → r.indexL.toNat < usbdCdcInterfaceNum) ∧
          (r.bRequest = 0x20 → setupStage = true → r.wLength.toNat ≤ 7) :=
      ⟨fun h => ⟨h.itf hclass, h.setLineCoding hclass⟩, fun h => ⟨fun _ => h.1, fun _ => h.2⟩⟩
    rw [hiff, if_pos hclass]
    split_ifs <;> simp_all [Destination.size]
  · rw [if_neg hclass]
    exact iff_of_true (ok_pure _) ⟨fun h => absurd h hclass, fun h => absurd h hclass⟩

/-- A class request to an audio interface only reaches `cur` if it has a data stage. -/
theorem ok_audio_interface (hclass : r.type = 1) (hitf : r.recipient = 1) :
    Ok (s.usbdAudioInterfaceRequestHandler app r setupStage) ↔
      (setupStage = true → r.direction = 0 → r.wLength.toNat ≤ 3) := by
  have hstd : r.type ≠ 0 := by rw [hclass]; decide
  rw [usbdAudioInterfaceRequestHandler, if_neg hstd, if_pos hclass, if_pos hitf]
  cases setupStage with
  | false => exact iff_of_true (ok_pure _) fun h => nomatch h
  | true =>
    rw [if_pos rfl]
    split_ifs with hread
    · simp [hread.2, Destination.size]
    · refine iff_of_true ?_ fun _ hout => ?_
      · cases app.audioInterfaceCb with
        | none => exact ok_pure _
        | some cb => exact ok_pure _
      · have hzero : r.wLength = 0 := by
          by_contra hlen
          exact hread ⟨hlen, hout⟩
        rw [hzero]
        exact Nat.zero_le 3

theorem ok_audio :
    Ok (s.usbdAudioInterfaceRequestHandler app r setupStage) ↔ AudioOk r setupStage := by
  by_cases hclass : r.type = 1
  · by_cases hitf : r.recipient = 1
    · rw [ok_audio_interface hclass hitf]
      simp [AudioOk, hclass, hitf]
    · have hstd : r.type ≠ 0 := by rw [hclass]; decide
      rw [usbdAudioInterfaceRequestHandler, if_neg hstd, if_pos hclass, if_neg hitf, AudioOk]
      split_ifs <;> simp_all [Destination.size]
  · rw [usbdAudioInterfaceRequestHandler, if_neg hclass]
    refine iff_of_true ?_ fun h => absurd h hclass
    split_ifs <;> exact ok_pure _

theorem ok_callHandler {handler : Handler} :
    Ok (s.callHandler app r setupStage handler) ↔ HandlerOk r setupStage handler := by
  cases handler with
  | usbdHidInterfaceRequestHandler => exact ok_hid
  | usbdCdcInterfaceRequestHandler => exact ok_cdc
  | usbdAudioInterfaceRequestHandler => exact ok_audio

/-! ## Dispatch -/

theorem ok_callDriver {n : UInt8} :
    Ok (s.callDriver app r setupStage n) ↔
      ∃ d, s.driverAt n = some d ∧ HandlerOk r setupStage d.usbdDriverHandler := by
  simp only [callDriver, ok_get_bind, ok_deref_bind, ok_callHandler, driverAt]
  constructor
  · rintro ⟨h, d, hd, hok⟩
    exact ⟨d, (dif_pos h).trans hd, hok⟩
  · rintro ⟨d, hd, hok⟩
    split_ifs at hd with h
    exact ⟨h, d, hd, hok⟩

/-- A request to an interface. -/
theorem ok_interfaceRequest (hitf : r.recipient = 1) :
    Ok (s.interfaceRequest app r setupStage) ↔ RequestOk s r setupStage := by
  simp only [interfaceRequest, ok_get_bind, ok_callDriver]
  exact ⟨fun h => ⟨fun _ => h, fun hep => absurd (hitf.symm.trans hep) (by decide)⟩,
    fun h => h.interface hitf⟩

/-- A request to an endpoint. -/
theorem ok_endpointRequest (hep : r.recipient = 2) :
    Ok (s.endpointRequest app r setupStage) ↔ RequestOk s r setupStage := by
  simp only [endpointRequest, ok_get_bind, ok_callDriver]
  exact ⟨fun h => ⟨fun hitf => absurd (hep.symm.trans hitf) (by decide), fun _ => h⟩,
    fun h => h.endpoint hep⟩

theorem ok_usbdStandardRequestProcess :
    Ok (s.usbdStandardRequestProcess app r setupStage) ↔ RequestOk s r setupStage := by
  rw [usbdStandardRequestProcess]
  split_ifs with hdev hitf hep
  · exact iff_of_true (ok_pure _) ⟨fun hitf => absurd (hdev.symm.trans hitf) (by decide),
      fun hep => absurd (hdev.symm.trans hep) (by decide)⟩
  · exact ok_interfaceRequest hitf
  · exact ok_endpointRequest hep
  · exact iff_of_true (ok_pure _) ⟨fun h => absurd h hitf, fun h => absurd h hep⟩

theorem ok_usbdClassRequestProcess :
    Ok (s.usbdClassRequestProcess app r setupStage) ↔ RequestOk s r setupStage := by
  rw [usbdClassRequestProcess]
  split_ifs with hitf hep
  · exact ok_interfaceRequest hitf
  · exact ok_endpointRequest hep
  · exact iff_of_true (ok_pure _) ⟨fun h => absurd h hitf, fun h => absurd h hep⟩

theorem ok_usbdControlRequestProcess :
    Ok (s.usbdControlRequestProcess app r setupStage) ↔
      (r.type = 0 ∨ r.type = 1 → RequestOk s r setupStage) := by
  have hsaved : RequestOk { s with setup := r } r setupStage ↔ RequestOk s r setupStage :=
    ⟨fun h => ⟨h.interface, h.endpoint⟩, fun h => ⟨h.interface, h.endpoint⟩⟩
  rw [usbdControlRequestProcess]
  split_ifs with hstd hclass
  · exact (ok_usbdStandardRequestProcess.trans hsaved).trans
      ⟨fun h _ => h, fun h => h (.inl hstd)⟩
  · exact (ok_usbdClassRequestProcess.trans hsaved).trans
      ⟨fun h _ => h, fun h => h (.inr hclass)⟩
  · exact iff_of_true (ok_pure _) fun h => absurd h (not_or.mpr ⟨hstd, hclass⟩)

theorem ok_usbdDriverRegister {driver : UsbdDriver} {intf epAddr : UInt8} :
    Ok (s.usbdDriverRegister driver intf epAddr) ↔
      UsbdStepOk s (.driverRegister driver intf epAddr) := by
  rw [usbdDriverRegister, UsbdStepOk]
  split_ifs with hep
  · simp only [ok_get_bind, ok_set_bind, ok_pure, exists_prop, and_true]
    exact ⟨fun h _ => ⟨Nat.ne_of_lt h.1, h.2.2⟩, fun h =>
      ⟨Nat.lt_of_le_of_ne hep (h hep).1, Nat.lt_of_le_of_ne hep (h hep).1, (h hep).2⟩⟩
  · exact iff_of_true (ok_pure s) fun h => absurd h hep

end Usbd

/-- A step is without a fault exactly if it meets the condition. -/
theorem ok_usbdStep {app : UsbdApp} {s : Usbd} {e : UsbdEvent} :
    Ok (usbdStep app s e) ↔ UsbdStepOk s e := by
  cases e with
  | driverRegister driver intf epAddr => exact Usbd.ok_usbdDriverRegister
  | controlRequest r setupStage =>
    refine (ok_bind_iff fun _ _ => ok_pure _).trans ?_
    exact Usbd.ok_usbdControlRequestProcess
  | dataStage data => exact iff_of_true (ok_pure _) trivial
  | ep0InComplete => exact iff_of_true (ok_pure _) trivial
  | busReset => exact iff_of_true (ok_pure _) trivial

/-! ## Refused requests -/

/-- Where the computation refuses, the state is `s`. -/
def Keeps (s : Usbd) (x : Except Fault (Bool × Usbd)) : Prop := ∀ s', x = .ok (false, s') → s' = s

section Keeps

variable {s t : Usbd}

theorem keeps_same (b : Bool) : Keeps s (pure (b, s)) := by
  intro s' h
  injection h with h
  exact (Prod.mk.inj h).2.symm

theorem keeps_accepted : Keeps s (pure (true, t)) := by
  intro s' h
  injection h with h
  exact nomatch (Prod.mk.inj h).1

theorem keeps_error (f : Fault) : Keeps s (.error f) := fun _ h => nomatch h

theorem keeps_bind {α : Type} {x : Except Fault α} {g : α → Except Fault (Bool × Usbd)}
    (h : ∀ a, Keeps s (g a)) : Keeps s (x >>= g) := by
  intro s' heq
  obtain ⟨a, -, hg⟩ := bind_eq_ok.mp heq
  exact h a s' hg

theorem keeps_ite {p : Prop} [Decidable p] {x y : Except Fault (Bool × Usbd)} (hx : Keeps s x)
    (hy : Keeps s y) : Keeps s (if p then x else y) := by
  by_cases h : p
  · rwa [if_pos h]
  · rwa [if_neg h]

theorem keeps_dite {p : Prop} [Decidable p] {x : p → Except Fault (Bool × Usbd)}
    {y : ¬ p → Except Fault (Bool × Usbd)} (hx : ∀ h, Keeps s (x h)) (hy : ∀ h, Keeps s (y h)) :
    Keeps s (if h : p then x h else y h) := by
  by_cases h : p
  · rw [dif_pos h]
    exact hx h
  · rw [dif_neg h]
    exact hy h

theorem keeps_pure_ite {p : Prop} [Decidable p] {a b : Bool × Usbd} (ha : Keeps s (pure a))
    (hb : Keeps s (pure b)) : Keeps s (pure (if p then a else b)) := by
  by_cases h : p
  · rwa [if_pos h]
  · rwa [if_neg h]

end Keeps

namespace Usbd

variable {app : UsbdApp} {s : Usbd} {r : UsbControlRequest} {setupStage : Bool}

theorem keeps_getDescriptor : Keeps s (pure (s.usbdGetDescriptorProcess app r)) := by
  rw [usbdGetDescriptorProcess]
  split_ifs
  · cases app.deviceDescriptor with
    | none => exact keeps_same false
    | some desc => exact keeps_accepted
  · exact keeps_accepted
  · cases app.stringDescriptor r.valueL with
    | none => exact keeps_same false
    | some desc => exact keeps_accepted
  · cases app.deviceQualifierDescriptor with
    | none => exact keeps_same false
    | some desc => exact keeps_accepted
  · cases app.otherSpeedConfigurationDescriptor r.valueL with
    | none => exact keeps_same false
    | some desc => exact keeps_accepted
  · exact keeps_same false

theorem keeps_deviceRequest : Keeps s (pure (s.deviceRequest app r)) := by
  rw [deviceRequest]
  refine keeps_pure_ite keeps_accepted <| keeps_pure_ite keeps_getDescriptor <|
    keeps_pure_ite keeps_accepted <| keeps_pure_ite keeps_accepted <|
    keeps_pure_ite keeps_accepted <| keeps_pure_ite ?clear <| keeps_pure_ite ?set <|
    keeps_same false
  case clear => exact keeps_pure_ite keeps_accepted (keeps_same false)
  case set =>
    exact keeps_pure_ite keeps_accepted (keeps_pure_ite keeps_accepted (keeps_same false))

/-- A feature of an endpoint: other recipients and other features are refused. -/
theorem keeps_feature {p : Prop} [Decidable p] {α : Type} {x : Except Fault α} {g : α → Usbd} :
    Keeps s (if p then x >>= fun a => pure (true, g a) else pure (false, s)) :=
  keeps_ite (keeps_bind fun _ => keeps_accepted) (keeps_same false)

theorem keeps_hid : Keeps s (s.usbdHidInterfaceRequestHandler app r setupStage) := by
  rw [usbdHidInterfaceRequestHandler]
  refine keeps_ite ?standardRequest (keeps_ite ?classRequest (keeps_same false))
  case standardRequest =>
    refine keeps_ite (keeps_bind fun _ => keeps_accepted) <| keeps_ite keeps_feature <|
      keeps_ite keeps_feature <| keeps_ite keeps_accepted (keeps_same false)
  case classRequest =>
    refine keeps_ite (keeps_bind fun _ => keeps_accepted) <|
      keeps_ite (keeps_bind fun _ => keeps_accepted) <| keeps_ite (keeps_ite ?report ?data) <|
      keeps_ite (keeps_bind fun _ => keeps_bind fun _ => keeps_accepted) <|
      keeps_ite (keeps_bind fun _ => keeps_bind fun _ => keeps_accepted) (keeps_same false)
    case report =>
      exact keeps_dite (fun _ => keeps_bind fun _ => keeps_accepted) fun _ => keeps_error .hid
    case data => exact keeps_bind fun _ => keeps_accepted

theorem keeps_cdc : Keeps s (s.usbdCdcInterfaceRequestHandler r setupStage) := by
  rw [usbdCdcInterfaceRequestHandler]
  refine keeps_ite (keeps_ite (keeps_ite ?coding ?data) <|
    keeps_ite (keeps_bind fun _ => keeps_bind fun _ => keeps_accepted) <|
    keeps_ite (keeps_bind fun _ => keeps_bind fun _ => keeps_accepted) (keeps_same false))
    (keeps_same false)
  case coding =>
    exact keeps_dite (fun _ => keeps_bind fun _ => keeps_accepted) fun _ => keeps_error .cdc
  case data => exact keeps_bind fun _ => keeps_accepted

theorem keeps_audio : Keeps s (s.usbdAudioInterfaceRequestHandler app r setupStage) := by
  rw [usbdAudioInterfaceRequestHandler]
  refine keeps_ite (keeps_ite keeps_accepted (keeps_same false)) <|
    keeps_ite (keeps_ite ?intf <| keeps_ite ?ep (keeps_same false)) (keeps_same false)
  case intf =>
    refine keeps_ite (keeps_ite (keeps_bind fun _ => keeps_accepted) ?callback) keeps_accepted
    cases app.audioInterfaceCb with
    | none => exact keeps_same false
    | some cb => exact keeps_same (cb r)
  case ep => exact keeps_ite (keeps_bind fun _ => keeps_accepted) keeps_accepted

theorem keeps_callDriver {n : UInt8} : Keeps s (s.callDriver app r setupStage n) := by
  refine keeps_bind fun _ => keeps_bind fun driver => ?_
  cases driver.usbdDriverHandler with
  | usbdHidInterfaceRequestHandler => exact keeps_hid
  | usbdCdcInterfaceRequestHandler => exact keeps_cdc
  | usbdAudioInterfaceRequestHandler => exact keeps_audio

theorem keeps_interfaceRequest : Keeps s (s.interfaceRequest app r setupStage) :=
  keeps_bind fun _ => keeps_callDriver

theorem keeps_endpointRequest : Keeps s (s.endpointRequest app r setupStage) :=
  keeps_bind fun _ => keeps_callDriver

theorem keeps_usbdControlRequestProcess :
    Keeps { s with setup := r } (s.usbdControlRequestProcess app r setupStage) := by
  rw [usbdControlRequestProcess]
  split_ifs
  · rw [usbdStandardRequestProcess]
    split_ifs
    · exact keeps_deviceRequest
    · exact keeps_interfaceRequest
    · exact keeps_endpointRequest
    · exact keeps_same false
  · rw [usbdClassRequestProcess]
    split_ifs
    · exact keeps_interfaceRequest
    · exact keeps_endpointRequest
    · exact keeps_same false
  · exact keeps_same false

end Usbd

theorem refusedUnchanged (app : UsbdApp) (s : Usbd) (e : UsbdEvent) : RefusedUnchanged app s e := by
  cases e with
  | controlRequest r setupStage => exact Usbd.keeps_usbdControlRequestProcess
  | driverRegister | dataStage | ep0InComplete | busReset => trivial

/-- In every run of registrations, setup packets and data stages, no table is left, no driver is
called that is not registered and no data stage is longer than its destination, exactly if all steps
meet the condition. A request that is refused changes nothing but the saved setup packet. -/
theorem control_requests (app : UsbdApp) (events : List UsbdEvent) :
    (Machine.Always (stepFrom (usbdStep app)) Ok (.ok .powerOn) events ↔
      Machine.Along (stepFrom (usbdStep app)) (At UsbdStepOk) (.ok .powerOn) events) ∧
    Machine.Along (stepFrom (usbdStep app)) (At (RefusedUnchanged app)) (.ok .powerOn) events :=
  ⟨always_ok_iff (fun _ _ => ok_usbdStep) .powerOn events,
    Machine.along_of_forall (fun _ e s _ => refusedUnchanged app s e) _ events⟩

/-- An application without descriptors. -/
def exampleApp : UsbdApp where
  deviceDescriptor := none
  configDescriptor := []
  stringDescriptor _ := none
  deviceQualifierDescriptor := none
  otherSpeedConfigurationDescriptor _ := none
  hidReportDescriptor _ := none
  audioInterfaceCb := none

/-- The HID handler at an interface. -/
def registerHid (intf : UInt8) : UsbdEvent :=
  .driverRegister ⟨.usbdHidInterfaceRequestHandler, 0⟩ intf 0x81

/-- An interface number behind the interface table; a report of 64 bytes; an interface that is
registered, but whose number is behind the HID interfaces; and a request without a driver. -/
theorem control_requests_counterexample :
    ¬ Machine.Always (stepFrom (usbdStep exampleApp)) Ok (.ok .powerOn)
        [registerHid 0, .controlRequest ⟨0xA1, 2, 0, 200, 1⟩ true] ∧
      ¬ Machine.Always (stepFrom (usbdStep exampleApp)) Ok (.ok .powerOn)
        [registerHid 0, .controlRequest ⟨0x21, 9, 0x0200, 0, 64⟩ true] ∧
      ¬ Machine.Always (stepFrom (usbdStep exampleApp)) Ok (.ok .powerOn)
        [registerHid 5, .controlRequest ⟨0xA1, 2, 0, 5, 1⟩ true] ∧
      ¬ Machine.Always (stepFrom (usbdStep exampleApp)) Ok (.ok .powerOn)
        [.controlRequest ⟨0x21, 10, 0, 0, 0⟩ true] := by
  refine ⟨fun h => ?_, fun h => ?_, fun h => ?_, fun h => ?_⟩
  · exact absurd h.last (by decide +kernel)
  · exact absurd h.last (by decide +kernel)
  · exact absurd h.last (by decide +kernel)
  · exact absurd h.last (by decide +kernel)

end TlBleSdk.TlUsb
