import TlBleSdk.Hci.TrDef
import TlBleSdk.Lib.Ring
import TlBleSdk.Lib.Run

/-!
# HID reports

`usbkb_hid_report_normal` and `usbmouse_hid_report` write a report to their endpoint, or queue it
in the FIFO that both share where the endpoint is busy; `usb_hid_report_fifo_proc` takes it from
there. Each question to `usbhw_is_ep_busy` is answered by the event.
-/

namespace TlBleSdk.Usb

open Hci

/-- `USB_FIFO_NUM`. -/
def usbFifoNum : ℕ := 4

/-- `DAT_TYPE_KB` and `DAT_TYPE_MOUSE`. -/
def datTypeKb : UInt8 := 1
def datTypeMouse : UInt8 := 2

/-- `KEYBOARD_REPORT_KEY_MAX`. -/
def keyboardReportKeyMax : ℕ := 6

/-- `USB_EDP_KEYBOARD_IN` and `USB_EDP_MOUSE`. -/
inductive Endpoint
  | keyboard
  | mouse
deriving DecidableEq

/-- A report as it is submitted. -/
inductive HidReport
  | kb (ctrlKey : UInt8) (keycode : List UInt8)
  | mouse (reportId : UInt8) (data : List UInt8)
deriving DecidableEq

/-- The endpoint of a report. -/
def HidReport.ep : HidReport → Endpoint
  | .kb _ _ => .keyboard
  | .mouse _ _ => .mouse

/-- The bytes of a report. In the boot protocol the mouse has no report id and three bytes. -/
def HidReport.bytes (reportProto : Bool) : HidReport → List UInt8
  | .kb ctrlKey keycode => ctrlKey :: 0 :: keycode
  | .mouse reportId data => if reportProto then reportId :: data else data.take 3

/-- The FIFO of reports and `usb_mouse_report_proto`; for each endpoint, the reports that were
submitted, and what was written in which protocol. -/
structure UsbHid where
  usbFifo : ℕ → ℕ → UInt8
  usbFfWptr : ℕ
  usbFfRptr : ℕ
  usbMouseReportProto : Bool
  submitted : Endpoint → List HidReport
  written : Endpoint → List (Bool × List UInt8)

namespace UsbHid

/-- Power-on: `usb_mouse_report_proto` is 0 until the first reset of the bus. -/
def powerOn : UsbHid where
  usbFifo _ _ := 0
  usbFfWptr := 0
  usbFfRptr := 0
  usbMouseReportProto := false
  submitted _ := []
  written _ := []

/-- The slot at `usb_ff_wptr` is written. Where the FIFO has too many reports then, the oldest is
dropped. -/
def put (s : UsbHid) (write : (ℕ → UInt8) → ℕ → UInt8) : UsbHid :=
  let idx := s.usbFfWptr &&& (usbFifoNum - 1)
  let wptr := (s.usbFfWptr + 1) % 256
  let fifoUse := (wptr + 256 - s.usbFfRptr) % 256 &&& (usbFifoNum * 2 - 1)
  { s with
    usbFifo := Function.update s.usbFifo idx (write (s.usbFifo idx))
    usbFfWptr := wptr
    usbFfRptr := if usbFifoNum < fifoUse then (s.usbFfRptr + 1) % 256 else s.usbFfRptr }

/-- The endpoint is written. -/
def writeEp (s : UsbHid) (ep : Endpoint) (data : List UInt8) : UsbHid :=
  let entry := (s.usbMouseReportProto, data)
  { s with written := Function.update s.written ep (s.written ep ++ [entry]) }

/-- `usbkb_hid_report_normal`. -/
def usbkbHidReportNormal (s : UsbHid) (ctrlKey : UInt8) (keycode : ℕ → UInt8) (busy : Bool) :
    UsbHid × Bool :=
  if busy then
    (s.put fun pData =>
      memcpy (memcpy pData 0 [datTypeKb, ctrlKey]) 2 (bytes keycode keyboardReportKeyMax), false)
  else (s.writeEp .keyboard (ctrlKey :: 0 :: bytes keycode keyboardReportKeyMax), true)

/-- `usbmouse_hid_report`. -/
def usbmouseHidReport (s : UsbHid) (reportId : UInt8) (data : ℕ → UInt8) (cnt : ℕ) (busy : Bool) :
    UsbHid × Bool :=
  if busy then
    (s.put fun pData =>
      memcpy (memcpy pData 0 [datTypeMouse, reportId, UInt8.ofNat cnt]) 4 (bytes data cnt), false)
  else if !s.usbMouseReportProto then (s.writeEp .mouse (bytes data 3), true)
  else (s.writeEp .mouse (reportId :: bytes data cnt), true)

/-- `usb_ff_rptr++`. -/
def nextRptr (s : UsbHid) : UsbHid := { s with usbFfRptr := (s.usbFfRptr + 1) % 256 }

/-- `usb_hid_report_fifo_proc`. The endpoint is asked here (`busy`), and by the function that
writes the report (`busy'`). -/
def usbHidReportFifoProc (s : UsbHid) (busy busy' : Bool) : UsbHid × Bool :=
  if s.usbFfRptr = s.usbFfWptr then (s, false)
  else
    let pData := s.usbFifo (s.usbFfRptr &&& (usbFifoNum - 1))
    if pData 0 = datTypeKb then
      if busy then (s, false)
      else ((s.usbkbHidReportNormal (pData 1) (fun i => pData (2 + i)) busy').1.nextRptr, true)
    else if pData 0 = datTypeMouse then
      if busy then (s, false)
      else ((s.usbmouseHidReport (pData 1) (fun i => pData (4 + i)) (pData 2).toNat
        busy').1.nextRptr, true)
    else (s, false)

/-- A report is submitted. -/
def submit (s : UsbHid) (r : HidReport) : UsbHid :=
  { s with submitted := Function.update s.submitted r.ep (s.submitted r.ep ++ [r]) }

/-! ## What waits -/

/-- The report in a slot. -/
def report (pData : ℕ → UInt8) : HidReport :=
  if pData 0 = datTypeKb then .kb (pData 1) (bytesAt pData 2 keyboardReportKeyMax)
  else .mouse (pData 1) (bytesAt pData 4 (pData 2).toNat)

/-- The slots from `usb_ff_rptr` on. -/
def slots (s : UsbHid) : List (ℕ → UInt8) :=
  (List.range ((s.usbFfWptr + 256 - s.usbFfRptr) % 256)).map fun k =>
    s.usbFifo ((s.usbFfRptr + k) % usbFifoNum)

/-- The reports that wait, the oldest first. -/
def queued (s : UsbHid) : List HidReport := s.slots.map report

/-- The FIFO is a ring of slots, each of which is a report. -/
structure Fifo (s : UsbHid) : Prop where
  holds : Ring.Holds 256 usbFifoNum s.usbFifo s.usbFfWptr s.usbFfRptr s.slots
  datType : ∀ pData ∈ s.slots, pData 0 = datTypeKb ∨ pData 0 = datTypeMouse

theorem slot_eq (ptr : ℕ) : ptr &&& (usbFifoNum - 1) = ptr % usbFifoNum :=
  Nat.and_two_pow_sub_one_eq_mod ptr 2

theorem slots_of_holds {s : UsbHid} {q : List (ℕ → UInt8)}
    (h : Ring.Holds 256 usbFifoNum s.usbFifo s.usbFfWptr s.usbFfRptr q) : s.slots = q :=
  h.eq_window (by decide) (by decide)

namespace Fifo

variable {s : UsbHid}

theorem of_holds {q : List (ℕ → UInt8)}
    (h : Ring.Holds 256 usbFifoNum s.usbFifo s.usbFfWptr s.usbFfRptr q)
    (hq : ∀ pData ∈ q, pData 0 = datTypeKb ∨ pData 0 = datTypeMouse) : s.Fifo := by
  have hslots := slots_of_holds h
  exact ⟨hslots ▸ h, hslots ▸ hq⟩

theorem powerOn : powerOn.Fifo := of_holds (.empty _ _ _) fun _ hp => nomatch hp

theorem length_le (h : s.Fifo) : s.queued.length ≤ usbFifoNum := by
  rw [queued, List.length_map]
  exact h.holds.length_le

/-- A slot is written behind the reports that wait, and the oldest is dropped where there are
`USB_FIFO_NUM` already. -/
theorem put (h : s.Fifo) (write : (ℕ → UInt8) → ℕ → UInt8)
    (hwrite : ∀ pData, write pData 0 = datTypeKb ∨ write pData 0 = datTypeMouse) :
    (s.put write).Fifo ∧ ∃ pData, (s.put write).queued =
      (if s.queued.length < usbFifoNum then s.queued else s.queued.tail) ++
        [report (write pData)] := by
  have hnum : usbFifoNum = 4 := rfl
  have hlen := h.holds.length_le
  have hqueued : s.queued.length = s.slots.length := List.length_map _
  have hholds : Ring.Holds 256 usbFifoNum (s.put write).usbFifo (s.put write).usbFfWptr
      (s.put write).usbFfRptr ((if s.queued.length < usbFifoNum then s.slots else s.slots.tail) ++
        [write (s.usbFifo (s.usbFfWptr % usbFifoNum))]) := by
    -- the difference of the pointers behind the write
    have huse : ((s.usbFfWptr + 1) % 256 + 256 - s.usbFfRptr) % 256 &&& (usbFifoNum * 2 - 1) =
        s.slots.length + 1 := by
      rw [show usbFifoNum * 2 - 1 = 2 ^ 3 - 1 from rfl, Nat.and_two_pow_sub_one_eq_mod]
      have hused := h.holds.used_eq (by decide)
      obtain ⟨hist, taken, ht, -⟩ := h.holds
      have hw : s.usbFfWptr < 256 := ht.wptr_eq ▸ Nat.mod_lt _ (by decide)
      have hr : s.usbFfRptr < 256 := ht.rptr_eq ▸ Nat.mod_lt _ (by decide)
      omega
    simp only [UsbHid.put, slot_eq, huse]
    by_cases hfree : s.queued.length < usbFifoNum
    · rw [if_pos hfree, if_neg (by omega)]
      exact h.holds.push (by decide) (by omega) _
    · rw [if_neg hfree, if_pos (by omega)]
      exact h.holds.overwrite (by decide) (by decide) (by omega) _
  have hslots := slots_of_holds hholds
  refine ⟨of_holds hholds fun pData hp => ?_, s.usbFifo (s.usbFfWptr % usbFifoNum), ?_⟩
  · rcases List.mem_append.mp hp with hp | hp
    · apply h.datType
      split at hp
      · exact hp
      · exact List.mem_of_mem_tail hp
    · rw [List.mem_singleton.mp hp]
      exact hwrite _
  · rw [queued, hslots, List.map_append, List.map_singleton]
    split_ifs
    · rfl
    · rw [List.map_tail]
      rfl

theorem writeEp (h : s.Fifo) (ep : Endpoint) (data : List UInt8) : (s.writeEp ep data).Fifo :=
  ⟨h.holds, h.datType⟩

/-- The oldest report is taken. -/
theorem nextRptr (h : s.Fifo) {r : HidReport} {q : List HidReport} (hq : s.queued = r :: q) :
    s.nextRptr.Fifo ∧ s.nextRptr.queued = q := by
  obtain ⟨pData, rest, hslots, -, rfl⟩ := List.map_eq_cons_iff.mp hq
  have hholds := h.holds
  have hdatType := h.datType
  rw [hslots] at hholds hdatType
  have hnext : Ring.Holds 256 usbFifoNum s.nextRptr.usbFifo s.nextRptr.usbFfWptr
      s.nextRptr.usbFfRptr rest := hholds.tail
  refine ⟨of_holds hnext fun p hp => hdatType p (List.mem_cons_of_mem _ hp), ?_⟩
  rw [queued, slots_of_holds hnext]

theorem nil_iff (h : s.Fifo) : s.usbFfRptr = s.usbFfWptr ↔ s.queued = [] := by
  rw [h.holds.nil_iff (by decide), queued, List.map_eq_nil_iff]

/-- The slot of the oldest report. -/
theorem front (h : s.Fifo) {r : HidReport} {q : List HidReport} (hq : s.queued = r :: q) :
    report (s.usbFifo (s.usbFfRptr &&& (usbFifoNum - 1))) = r ∧
      (s.usbFifo (s.usbFfRptr &&& (usbFifoNum - 1)) 0 = datTypeKb ∨
        s.usbFifo (s.usbFfRptr &&& (usbFifoNum - 1)) 0 = datTypeMouse) := by
  obtain ⟨pData, rest, hslots, rfl, rfl⟩ := List.map_eq_cons_iff.mp hq
  have hholds := h.holds
  rw [hslots] at hholds
  rw [slot_eq, hholds.head (by decide)]
  exact ⟨rfl, h.datType _ (hslots ▸ List.mem_cons_self)⟩

end Fifo

/-! ## The functions -/

section Functions

variable {s : UsbHid}

theorem report_kb (pData : ℕ → UInt8) (ctrlKey : UInt8) (keycode : ℕ → UInt8) :
    report (memcpy (memcpy pData 0 [datTypeKb, ctrlKey]) 2 (bytes keycode keyboardReportKeyMax)) =
      .kb ctrlKey (bytes keycode keyboardReportKeyMax) := by
  have hcopy := bytesAt_memcpy_self (memcpy pData 0 [datTypeKb, ctrlKey]) 2
    (bytes keycode keyboardReportKeyMax)
  rw [length_bytes] at hcopy
  have h0 : memcpy (memcpy pData 0 [datTypeKb, ctrlKey]) 2
      (bytes keycode keyboardReportKeyMax) 0 = datTypeKb := memcpy_of_lt _ _ (by decide)
  have h1 : memcpy (memcpy pData 0 [datTypeKb, ctrlKey]) 2
      (bytes keycode keyboardReportKeyMax) 1 = ctrlKey := memcpy_of_lt _ _ (by decide)
  rw [report, if_pos h0, h1, hcopy]

theorem report_mouse (pData : ℕ → UInt8) (reportId : UInt8) (data : ℕ → UInt8) {cnt : ℕ}
    (hcnt : cnt ≤ 4) :
    report (memcpy (memcpy pData 0 [datTypeMouse, reportId, UInt8.ofNat cnt]) 4 (bytes data cnt)) =
      .mouse reportId (bytes data cnt) := by
  have hcopy := bytesAt_memcpy_self (memcpy pData 0 [datTypeMouse, reportId, UInt8.ofNat cnt]) 4
    (bytes data cnt)
  rw [length_bytes] at hcopy
  generalize hq : memcpy (memcpy pData 0 [datTypeMouse, reportId, UInt8.ofNat cnt]) 4
    (bytes data cnt) = q at hcopy ⊢
  have h0 : q 0 = datTypeMouse := hq ▸ memcpy_of_lt _ _ (by decide)
  have h1 : q 1 = reportId := hq ▸ memcpy_of_lt _ _ (by decide)
  have h2 : q 2 = UInt8.ofNat cnt := hq ▸ memcpy_of_lt _ _ (by decide)
  have hcount : (q 2).toNat = cnt := by
    rw [h2, UInt8.toNat_ofNat']
    omega
  have hkb : ¬ q 0 = datTypeKb := by
    rw [h0]
    decide
  rw [report, if_neg hkb, h1, hcount, hcopy]

/-- The keyboard report is queued. -/
theorem usbkbHidReportNormal_busy (h : s.Fifo) (ctrlKey : UInt8) (keycode : ℕ → UInt8) :
    (s.usbkbHidReportNormal ctrlKey keycode true).1.Fifo ∧
      (s.usbkbHidReportNormal ctrlKey keycode true).1.queued =
        (if s.queued.length < usbFifoNum then s.queued else s.queued.tail) ++
          [.kb ctrlKey (bytes keycode keyboardReportKeyMax)] := by
  obtain ⟨hfifo, pData, hqueued⟩ := h.put (fun pData => memcpy
    (memcpy pData 0 [datTypeKb, ctrlKey]) 2 (bytes keycode keyboardReportKeyMax))
    fun pData => .inl (memcpy_of_lt _ _ (by decide))
  rw [report_kb] at hqueued
  exact ⟨hfifo, hqueued⟩

/-- The mouse report is queued. -/
theorem usbmouseHidReport_busy (h : s.Fifo) (reportId : UInt8) (data : ℕ → UInt8) {cnt : ℕ}
    (hcnt : cnt ≤ 4) :
    (s.usbmouseHidReport reportId data cnt true).1.Fifo ∧
      (s.usbmouseHidReport reportId data cnt true).1.queued =
        (if s.queued.length < usbFifoNum then s.queued else s.queued.tail) ++
          [.mouse reportId (bytes data cnt)] := by
  obtain ⟨hfifo, pData, hqueued⟩ := h.put (fun pData => memcpy
    (memcpy pData 0 [datTypeMouse, reportId, UInt8.ofNat cnt]) 4 (bytes data cnt))
    fun pData => .inr (memcpy_of_lt _ _ (by decide))
  rw [report_mouse _ _ _ hcnt] at hqueued
  exact ⟨hfifo, hqueued⟩

/-- The mouse report is written. In the boot protocol it has to have three bytes. -/
theorem usbmouseHidReport_idle (reportId : UInt8) (data : ℕ → UInt8) {cnt : ℕ}
    (hproto : s.usbMouseReportProto = true ∨ 3 ≤ cnt) :
    (s.usbmouseHidReport reportId data cnt false).1 =
      s.writeEp .mouse ((HidReport.mouse reportId (bytes data cnt)).bytes
        s.usbMouseReportProto) := by
  cases hp : s.usbMouseReportProto with
  | true => simp [usbmouseHidReport, HidReport.bytes, hp]
  | false =>
    have hcnt : 3 ≤ cnt := hproto.resolve_left (by simp [hp])
    simp [usbmouseHidReport, HidReport.bytes, hp, bytes_take_of_le data hcnt]

/-- The oldest report is written as it was submitted. -/
theorem usbHidReportFifoProc_idle (h : s.Fifo) {r : HidReport} {q : List HidReport}
    (hq : s.queued = r :: q)
    (hproto : ∀ reportId data, r = .mouse reportId data →
      s.usbMouseReportProto = true ∨ 3 ≤ data.length) :
    (s.usbHidReportFifoProc false false).1 =
      (s.writeEp r.ep (r.bytes s.usbMouseReportProto)).nextRptr := by
  have hne : s.usbFfRptr ≠ s.usbFfWptr := by
    rw [Ne, h.nil_iff, hq]
    exact List.cons_ne_nil r q
  obtain ⟨hreport, hdatType⟩ := h.front hq
  simp only [usbHidReportFifoProc, if_neg hne]
  generalize s.usbFifo (s.usbFfRptr &&& (usbFifoNum - 1)) = pData at hreport hdatType ⊢
  rcases hdatType with hkb | hmouse
  · rw [report, if_pos hkb] at hreport
    subst hreport
    rw [if_pos hkb]
    rfl
  · have hkb : ¬ pData 0 = datTypeKb := by
      rw [hmouse]
      decide
    rw [report, if_neg hkb] at hreport
    subst hreport
    have hproto' := hproto _ _ rfl
    rw [length_bytesAt] at hproto'
    rw [if_neg hkb, if_pos hmouse, if_neg (by decide), usbmouseHidReport_idle _ _ hproto']
    rfl

/-- A report whose endpoint is busy goes on waiting. -/
theorem usbHidReportFifoProc_busy (busy' : Bool) : (s.usbHidReportFifoProc true busy').1 = s := by
  simp only [usbHidReportFifoProc, if_true]
  split_ifs <;> rfl

theorem usbHidReportFifoProc_empty (h : s.Fifo) (hq : s.queued = []) (busy busy' : Bool) :
    (s.usbHidReportFifoProc busy busy').1 = s := by
  rw [usbHidReportFifoProc, if_pos (h.nil_iff.mpr hq)]

end Functions

end UsbHid
end TlBleSdk.Usb
