import TlBleSdk.Usb.HidReport
import Mathlib.Data.List.Forall2

/-!
# The order of the HID reports

A report that is written at once overtakes those of its endpoint that wait. Where this does not
happen, the reports of each endpoint are written in the order in which they were submitted.
-/

namespace TlBleSdk.Usb

open Hci UsbHid

/-- A call, with the answers of the endpoints, and a change of the protocol. -/
inductive HidEvent
  | keyboard (ctrlKey : UInt8) (keycode : ℕ → UInt8) (busy : Bool)
  | mouse (reportId : UInt8) (data : ℕ → UInt8) (cnt : ℕ) (busy : Bool)
  | fifoProc (busy busy' : Bool)
  | setProtocol (reportProto : Bool)

/-- A step. -/
def hidStep (s : UsbHid) : HidEvent → UsbHid
  | .keyboard ctrlKey keycode busy =>
    ((s.submit (.kb ctrlKey (bytes keycode keyboardReportKeyMax))).usbkbHidReportNormal
      ctrlKey keycode busy).1
  | .mouse reportId data cnt busy =>
    ((s.submit (.mouse reportId (bytes data cnt))).usbmouseHidReport reportId data cnt busy).1
  | .fifoProc busy busy' => (s.usbHidReportFifoProc busy busy').1
  | .setProtocol reportProto => { s with usbMouseReportProto := reportProto }

/-! ## What holds of the reports -/

/-- A report was written as it was submitted, in the protocol of that moment. -/
def WrittenAs (w : Bool × List UInt8) (r : HidReport) : Prop := w.2 = r.bytes w.1

/-- The reports written to each endpoint are some of those submitted, in their order. -/
def Ordered (s : UsbHid) : Prop :=
  ∀ ep, ∃ rs, rs.Sublist (s.submitted ep) ∧ List.Forall₂ WrittenAs (s.written ep) rs

/-- A report is queued and nothing is written: where `USB_FIFO_NUM` reports wait, the oldest is
dropped for it. -/
def Queues (s : UsbHid) (r : HidReport) (s' : UsbHid) : Prop :=
  s'.queued = (if s.queued.length < usbFifoNum then s.queued else s.queued.tail) ++ [r] ∧
    s'.written = s.written

/-- A report is written to its endpoint, in the protocol of this moment. -/
def Writes (s : UsbHid) (r : HidReport) (s' : UsbHid) : Prop :=
  s'.written = Function.update s.written r.ep
    (s.written r.ep ++ [(s.usbMouseReportProto, r.bytes s.usbMouseReportProto)])

/-- What a step does with the reports: a report that is submitted waits where its endpoint is busy,
and is written at once where it is idle. The oldest that waits is taken when it is written, as soon
as its endpoint is idle. -/
def QueueStep (s : UsbHid) (e : HidEvent) : Prop :=
  let submitted (r : HidReport) (busy : Bool) : Prop :=
    if busy then Queues s r (hidStep s e)
    else Writes s r (hidStep s e) ∧ (hidStep s e).queued = s.queued
  match e with
  | .keyboard ctrlKey keycode busy =>
    submitted (.kb ctrlKey (bytes keycode keyboardReportKeyMax)) busy
  | .mouse reportId data cnt busy => submitted (.mouse reportId (bytes data cnt)) busy
  | .fifoProc busy _ =>
    match s.queued with
    | [] => hidStep s e = s
    | r :: q =>
      if busy then hidStep s e = s
      else Writes s r (hidStep s e) ∧ (hidStep s e).queued = q
  | .setProtocol _ => (hidStep s e).queued = s.queued ∧ (hidStep s e).written = s.written

/-- A mouse report has at most four bytes. -/
def CntOk (_ : UsbHid) : HidEvent → Prop
  | .mouse _ _ cnt _ => cnt ≤ 4
  | _ => True

/-- In the boot protocol a mouse report has three bytes at least. -/
def ProtoOk (s : UsbHid) : HidReport → Prop
  | .kb _ _ => True
  | .mouse _ data => s.usbMouseReportProto = true ∨ 3 ≤ data.length

/-- No report of the endpoint waits. -/
def NoneWaits (s : UsbHid) (ep : Endpoint) : Prop := ∀ r ∈ s.queued, r.ep ≠ ep

/-- The condition on a step. -/
def HidStepOk (s : UsbHid) : HidEvent → Prop
  | .keyboard _ _ busy => busy = false → NoneWaits s .keyboard
  | .mouse reportId data cnt busy =>
    busy = false → NoneWaits s .mouse ∧ ProtoOk s (.mouse reportId (bytes data cnt))
  | .fifoProc busy busy' => busy = false → ∀ r ∈ s.queued.head?, busy' = false ∧ ProtoOk s r
  | .setProtocol _ => True

instance (s : UsbHid) (r : HidReport) : Decidable (ProtoOk s r) :=
  match r with
  | .kb _ _ => inferInstanceAs (Decidable True)
  | .mouse _ data => inferInstanceAs (Decidable (s.usbMouseReportProto = true ∨ 3 ≤ data.length))

instance (s : UsbHid) (ep : Endpoint) : Decidable (NoneWaits s ep) :=
  inferInstanceAs (Decidable (∀ r ∈ s.queued, r.ep ≠ ep))

instance (s : UsbHid) (e : HidEvent) : Decidable (CntOk s e) :=
  match e with
  | .mouse _ _ cnt _ => inferInstanceAs (Decidable (cnt ≤ 4))
  | .keyboard _ _ _ | .fifoProc _ _ | .setProtocol _ => inferInstanceAs (Decidable True)

instance (s : UsbHid) (e : HidEvent) : Decidable (HidStepOk s e) :=
  match e with
  | .keyboard _ _ busy => inferInstanceAs (Decidable (busy = false → NoneWaits s .keyboard))
  | .mouse reportId data cnt busy => inferInstanceAs (Decidable (busy = false →
      NoneWaits s .mouse ∧ ProtoOk s (.mouse reportId (bytes data cnt))))
  | .fifoProc busy busy' => inferInstanceAs (Decidable (busy = false →
      ∀ r ∈ s.queued.head?, busy' = false ∧ ProtoOk s r))
  | .setProtocol _ => inferInstanceAs (Decidable True)

/-! ## The order of one endpoint -/

/-- The reports `submitted` to an endpoint went, or are among the reports `waiting`. What was
`written` is some of those that went. -/
def InOrder (submitted : List HidReport) (written : List (Bool × List UInt8))
    (waiting : List HidReport) : Prop :=
  ∃ gone rs, submitted = gone ++ waiting ∧ rs.Sublist gone ∧ List.Forall₂ WrittenAs written rs

namespace InOrder

variable {submitted waiting : List HidReport} {written : List (Bool × List UInt8)} {r : HidReport}

/-- A report waits. -/
theorem push (h : InOrder submitted written waiting) (r : HidReport) :
    InOrder (submitted ++ [r]) written (waiting ++ [r]) := by
  obtain ⟨gone, rs, rfl, hsub, hall⟩ := h
  exact ⟨gone, rs, List.append_assoc _ _ _, hsub, hall⟩

/-- The oldest report is dropped. -/
theorem drop (h : InOrder submitted written (r :: waiting)) :
    InOrder submitted written waiting := by
  obtain ⟨gone, rs, rfl, hsub, hall⟩ := h
  exact ⟨gone ++ [r], rs, by simp, hsub.trans (List.sublist_append_left _ _), hall⟩

/-- The oldest report is written. -/
theorem write (h : InOrder submitted written (r :: waiting)) (proto : Bool) :
    InOrder submitted (written ++ [(proto, r.bytes proto)]) waiting := by
  obtain ⟨gone, rs, rfl, hsub, hall⟩ := h
  exact ⟨gone ++ [r], rs ++ [r], by simp, hsub.append (List.Sublist.refl _),
    List.rel_append hall (.cons rfl .nil)⟩

theorem ordered (h : InOrder submitted written waiting) :
    ∃ rs, rs.Sublist submitted ∧ List.Forall₂ WrittenAs written rs := by
  obtain ⟨gone, rs, rfl, hsub, hall⟩ := h
  exact ⟨rs, hsub.trans (List.sublist_append_left _ _), hall⟩

end InOrder

/-! ## The steps -/

/-- The reports of an endpoint that wait. -/
def UsbHid.waiting (s : UsbHid) (ep : Endpoint) : List HidReport :=
  s.queued.filter fun r => r.ep = ep

/-- The FIFO is a ring of reports, and each endpoint is in order. -/
structure HidInv (s : UsbHid) : Prop where
  fifo : s.Fifo
  inOrder : ∀ ep, InOrder (s.submitted ep) (s.written ep) (s.waiting ep)

section Steps

variable {s : UsbHid}

theorem waiting_nil {ep : Endpoint} (h : NoneWaits s ep) : s.waiting ep = [] :=
  List.filter_eq_nil_iff.mpr fun r hr => by simpa using h r hr

theorem submit_ne (s : UsbHid) {r : HidReport} {ep : Endpoint} (h : ep ≠ r.ep) :
    (s.submit r).submitted ep = s.submitted ep :=
  Function.update_of_ne h _ _

theorem submit_self (s : UsbHid) (r : HidReport) :
    (s.submit r).submitted r.ep = s.submitted r.ep ++ [r] :=
  Function.update_self _ _ _

/-- A report is submitted and waits. -/
theorem HidInv.queue (h : HidInv s) {r : HidReport} {s' : UsbHid} (hfifo : s'.Fifo)
    (hsubmitted : s'.submitted = (s.submit r).submitted) (hwritten : s'.written = s.written)
    (hqueued : s'.queued =
      (if s.queued.length < usbFifoNum then s.queued else s.queued.tail) ++ [r]) : HidInv s' := by
  refine ⟨hfifo, fun ep => ?_⟩
  -- what the others leave waiting, with or without the drop
  have hrest : InOrder (s.submitted ep) (s.written ep)
      ((if s.queued.length < usbFifoNum then s.queued else s.queued.tail).filter
        fun r => r.ep = ep) := by
    split_ifs
    · exact h.inOrder ep
    · have hin := h.inOrder ep
      rw [waiting] at hin
      cases hq : s.queued with
      | nil => rwa [hq] at hin
      | cons r' q =>
        rw [hq, List.filter_cons] at hin
        split at hin
        · exact hin.drop
        · exact hin
  rw [hwritten, hsubmitted, waiting, hqueued, List.filter_append]
  by_cases hep : ep = r.ep
  · subst hep
    rw [submit_self, List.filter_singleton, decide_eq_true rfl]
    exact hrest.push r
  · rw [submit_ne s hep, List.filter_singleton, decide_eq_false (Ne.symm hep)]
    exact (List.append_nil _).symm ▸ hrest

/-- A report is submitted and written at once. -/
theorem HidInv.writeEp (h : HidInv s) (r : HidReport) (hnone : NoneWaits s r.ep) :
    HidInv ((s.submit r).writeEp r.ep (r.bytes s.usbMouseReportProto)) := by
  refine ⟨⟨h.fifo.holds, h.fifo.datType⟩, fun ep => ?_⟩
  show InOrder ((s.submit r).submitted ep) (Function.update s.written r.ep _ ep) (s.waiting ep)
  by_cases hep : ep = r.ep
  · subst hep
    rw [submit_self, Function.update_self]
    have hin := h.inOrder r.ep
    rw [waiting_nil hnone] at hin ⊢
    exact (hin.push r).write _
  · rw [submit_ne s hep, Function.update_of_ne hep]
    exact h.inOrder ep

/-- The oldest report is written. -/
theorem HidInv.next (h : HidInv s) {r : HidReport} {q : List HidReport} (hq : s.queued = r :: q) :
    HidInv (s.writeEp r.ep (r.bytes s.usbMouseReportProto)).nextRptr := by
  obtain ⟨hfifo, hqueued⟩ := (h.fifo.writeEp r.ep (r.bytes s.usbMouseReportProto)).nextRptr hq
  refine ⟨hfifo, fun ep => ?_⟩
  have hin := h.inOrder ep
  rw [waiting, hq, List.filter_cons] at hin
  rw [waiting, hqueued]
  show InOrder (s.submitted ep) (Function.update s.written r.ep _ ep) _
  by_cases hep : r.ep = ep
  · subst hep
    rw [if_pos (decide_eq_true rfl)] at hin
    rw [Function.update_self]
    exact hin.write _
  · rw [if_neg (by simpa using hep)] at hin
    rw [Function.update_of_ne (Ne.symm hep)]
    exact hin

/-- Without a report, or with a busy endpoint, nothing happens. -/
theorem hidStep_fifoProc_quiet (h : s.Fifo) {busy busy' : Bool}
    (hquiet : busy = true ∨ s.queued = []) : hidStep s (.fifoProc busy busy') = s := by
  rcases hquiet with rfl | hq
  · exact usbHidReportFifoProc_busy busy'
  · exact usbHidReportFifoProc_empty h hq _ _

/-- The oldest report is written. -/
theorem hidStep_fifoProc_idle (h : s.Fifo) {busy' : Bool} {r : HidReport} {q : List HidReport}
    (hok : HidStepOk s (.fifoProc false busy')) (hq : s.queued = r :: q) :
    hidStep s (.fifoProc false busy') =
      (s.writeEp r.ep (r.bytes s.usbMouseReportProto)).nextRptr := by
  obtain ⟨hbusy, hproto⟩ := hok rfl r (by rw [hq]; rfl)
  subst hbusy
  refine usbHidReportFifoProc_idle h hq fun reportId data hr => ?_
  subst hr
  exact hproto

/-- A mouse report that is submitted is written. -/
theorem hidStep_mouse_idle {reportId : UInt8} {data : ℕ → UInt8} {cnt : ℕ}
    (hproto : ProtoOk s (.mouse reportId (bytes data cnt))) :
    hidStep s (.mouse reportId data cnt false) =
      (s.submit (.mouse reportId (bytes data cnt))).writeEp .mouse
        ((HidReport.mouse reportId (bytes data cnt)).bytes s.usbMouseReportProto) := by
  simp only [ProtoOk, length_bytes] at hproto
  exact usbmouseHidReport_idle (s := s.submit (.mouse reportId (bytes data cnt))) reportId data
    hproto

theorem hidStep_inv {e : HidEvent} (h : HidInv s) (hok : CntOk s e ∧ HidStepOk s e) :
    HidInv (hidStep s e) := by
  obtain ⟨hcnt, hok⟩ := hok
  cases e with
  | keyboard ctrlKey keycode busy =>
    have hsubmit : (s.submit (.kb ctrlKey (bytes keycode keyboardReportKeyMax))).Fifo :=
      ⟨h.fifo.holds, h.fifo.datType⟩
    cases busy with
    | true =>
      obtain ⟨hfifo, hqueued⟩ := usbkbHidReportNormal_busy hsubmit ctrlKey keycode
      exact h.queue hfifo rfl rfl hqueued
    | false => exact h.writeEp (.kb ctrlKey (bytes keycode keyboardReportKeyMax)) (hok rfl)
  | mouse reportId data cnt busy =>
    have hsubmit : (s.submit (.mouse reportId (bytes data cnt))).Fifo :=
      ⟨h.fifo.holds, h.fifo.datType⟩
    cases busy with
    | true =>
      obtain ⟨hfifo, hqueued⟩ := usbmouseHidReport_busy hsubmit reportId data hcnt
      exact h.queue hfifo rfl rfl hqueued
    | false =>
      obtain ⟨hnone, hproto⟩ := hok rfl
      rw [hidStep_mouse_idle hproto]
      exact h.writeEp (.mouse reportId (bytes data cnt)) hnone
  | fifoProc busy busy' =>
    cases busy with
    | true =>
      rw [hidStep_fifoProc_quiet h.fifo (.inl rfl)]
      exact h
    | false =>
      cases hq : s.queued with
      | nil =>
        rw [hidStep_fifoProc_quiet h.fifo (.inr hq)]
        exact h
      | cons r q =>
        rw [hidStep_fifoProc_idle h.fifo hok hq]
        exact h.next hq
  | setProtocol reportProto => exact ⟨⟨h.fifo.holds, h.fifo.datType⟩, h.inOrder⟩

theorem queueStep {e : HidEvent} (h : HidInv s) (hok : CntOk s e ∧ HidStepOk s e) :
    QueueStep s e := by
  obtain ⟨hcnt, hok⟩ := hok
  cases e with
  | keyboard ctrlKey keycode busy =>
    cases busy with
    | true =>
      have hsubmit : (s.submit (.kb ctrlKey (bytes keycode keyboardReportKeyMax))).Fifo :=
        ⟨h.fifo.holds, h.fifo.datType⟩
      exact ⟨(usbkbHidReportNormal_busy hsubmit ctrlKey keycode).2, rfl⟩
    | false => exact ⟨rfl, rfl⟩
  | mouse reportId data cnt busy =>
    cases busy with
    | true =>
      have hsubmit : (s.submit (.mouse reportId (bytes data cnt))).Fifo :=
        ⟨h.fifo.holds, h.fifo.datType⟩
      exact ⟨(usbmouseHidReport_busy hsubmit reportId data hcnt).2, rfl⟩
    | false =>
      have heq := hidStep_mouse_idle (hok rfl).2
      exact ⟨congrArg UsbHid.written heq, (congrArg UsbHid.queued heq).trans rfl⟩
  | fifoProc busy busy' =>
    simp only [QueueStep]
    cases hq : s.queued with
    | nil => exact hidStep_fifoProc_quiet h.fifo (.inr hq)
    | cons r q =>
      cases busy with
      | true => exact hidStep_fifoProc_quiet h.fifo (.inl rfl)
      | false =>
        have heq := hidStep_fifoProc_idle h.fifo hok hq
        refine ⟨congrArg UsbHid.written heq, ?_⟩
        rw [heq]
        exact ((h.fifo.writeEp r.ep _).nextRptr hq).2
  | setProtocol reportProto => exact ⟨rfl, rfl⟩

end Steps

/-- In every run in which no report overtakes another of its endpoint, the reports are written in
the order in which they were submitted. Each is written or waits, and only the oldest ones that
wait are dropped, where `USB_FIFO_NUM` wait already. -/
theorem hid_order (events : List HidEvent)
    (hok : Machine.Along hidStep (fun s e => CntOk s e ∧ HidStepOk s e) .powerOn events) :
    Machine.Always hidStep Ordered .powerOn events ∧
      Machine.Along hidStep QueueStep .powerOn events := by
  have hinit : HidInv .powerOn := ⟨.powerOn, fun _ => ⟨[], [], rfl, .slnil, .nil⟩⟩
  exact ⟨Machine.always_of_invariant (fun _ _ => hidStep_inv)
      (fun _ hs ep => (hs.inOrder ep).ordered) hinit hok,
    Machine.along_of_invariant (fun _ _ => hidStep_inv) (fun _ _ => queueStep) hinit hok⟩

/-- Five reports wait for the busy endpoints, and the four that are left are written. -/
theorem hid_order_example :
    let events := [.setProtocol true, .keyboard 2 (fun _ => 4) true, .mouse 1 (fun _ => 7) 4 true,
      .keyboard 0 (fun _ => 0) true, .mouse 3 (fun _ => 9) 2 true, .keyboard 0 (fun _ => 5) true,
      .fifoProc false false, .fifoProc true false, .fifoProc false false, .fifoProc false false,
      .fifoProc false false, .keyboard 0 (fun _ => 6) false]
    Machine.Always hidStep Ordered .powerOn events ∧
      Machine.Along hidStep QueueStep .powerOn events := by
  apply hid_order
  decide +kernel

/-- A report that waits is overtaken by the next one, for which the endpoint is idle. -/
theorem hid_order_counterexample :
    ¬ Machine.Always hidStep Ordered .powerOn [.keyboard 0 (fun _ => 4) true,
      .keyboard 0 (fun _ => 0) false, .fifoProc false false] := by
  intro h
  obtain ⟨rs, hsub, hall⟩ := h.last .keyboard
  have hwritten : (Machine.run hidStep .powerOn [.keyboard 0 (fun _ => 4) true,
      .keyboard 0 (fun _ => 0) false, .fifoProc false false]).written .keyboard =
        [(false, [0, 0, 0, 0, 0, 0, 0, 0]), (false, [0, 0, 4, 4, 4, 4, 4, 4])] := by
    decide +kernel
  have hsubmitted : (Machine.run hidStep .powerOn [.keyboard 0 (fun _ => 4) true,
      .keyboard 0 (fun _ => 0) false, .fifoProc false false]).submitted .keyboard =
        [.kb 0 [4, 4, 4, 4, 4, 4], .kb 0 [0, 0, 0, 0, 0, 0]] := by
    decide +kernel
  rw [hwritten] at hall
  rw [hsubmitted] at hsub
  have hlen := hall.length_eq
  rw [hsub.eq_of_length hlen.symm] at hall
  cases hall with
  | cons hfirst _ => exact absurd hfirst (by unfold WrittenAs; decide)

end TlBleSdk.Usb
