import TlBleSdk.Usb.HidReport

/-!
# The USB keyboard

`usbkb.c`: a frame of keys becomes a report, and keys that were reported are released by a frame
without keys or after a timeout. `usbkb_not_released` says which keys were reported; it changes
only where a report is written at once.
-/

namespace TlBleSdk.Usb

open Hci UsbHid

/-! ## Keys -/

/-- `VK_SYS_START`, where `VK_EXT_START` is too, and `VK_SYS_END`, which is `VK_MEDIA_START`. -/
def vkSysStart : UInt8 := 0xA0
def vkSysEnd : UInt8 := 0xA3

/-- `VK_MEDIA_END`, which is `VK_EXT_END`. -/
def vkMediaEnd : UInt8 := 0xB5

/-- `vk_sys_map`. -/
def vkSysMap : List UInt8 := [0x01, 0x02, 0x04]

/-- `vk_media_map`. -/
def vkMediaMap : List (List UInt8) :=
  [[0x21, 0x02], [0x23, 0x02], [0x24, 0x02], [0x25, 0x02], [0x26, 0x02], [0x27, 0x02],
    [0x2A, 0x02], [0x83, 0x01], [0x8A, 0x01], [0x92, 0x01], [0x94, 0x01], [0xB5, 0x00],
    [0xB6, 0x00], [0xB7, 0x00], [0xCD, 0x00], [0xE2, 0x00], [0xE9, 0x00], [0xEA, 0x00]]

/-- `USB_HID_KB_MEDIA` and `USB_HID_KB_SYS`. -/
def usbHidKbMedia : UInt8 := 3
def usbHidKbSys : UInt8 := 4

/-- `MEDIA_REPORT_DATA_LEN`. -/
def mediaReportDataLen : ℕ := 4

/-- `KB_RETURN_KEY_MAX`. -/
def kbReturnKeyMax : ℕ := 6

/-- `USB_KEYBOARD_RELEASE_TIMEOUT`, in microseconds. -/
def usbKeyboardReleaseTimeout : ℕ := 450000

/-- `kb_data_t`. -/
structure KbData where
  cnt : UInt8
  ctrlKey : UInt8
  keycode : Vector UInt8 6

/-- The keys of a frame. -/
def KbData.keys (d : KbData) : List UInt8 := d.keycode.toList.take d.cnt.toNat

/-- An extended key. -/
def isExtKey (keycode : UInt8) : Bool := vkSysStart ≤ keycode && keycode < vkMediaEnd

/-- `usbkb_separate_key_types`: the normal keys, and the last extended key. -/
def usbkbSeparateKeyTypes (keycode : List UInt8) : List UInt8 × UInt8 :=
  (keycode.filter fun k => !isExtKey k, (keycode.filter isExtKey).getLastD vkMediaEnd)

/-- `kb_is_data_same`. -/
def kbIsDataSame (a b : KbData) : Bool :=
  a.cnt = b.cnt && a.ctrlKey = b.ctrlKey &&
    a.keycode.toList.take a.cnt.toNat = b.keycode.toList.take a.cnt.toNat

/-- `clock_time_exceed(ref, us)` at the tick `now`. -/
def clockTimeExceed (now ref : BitVec 32) (us : ℕ) : Bool :=
  us * systemTimerTick1us < (now - ref).toNat

/-! ## The keyboard -/

/-- The reports, the bits of `usbkb_not_released`, `usbkb_data_report_time` and `last_data`; and
the report of the last frame, or the release behind it. -/
structure UsbKb where
  hid : UsbHid
  normalNotReleased : Bool
  sysNotReleased : Bool
  mediaNotReleased : Bool
  usbkbDataReportTime : BitVec 32
  lastData : KbData
  target : List UInt8

/-- The answers of the endpoints to the reports of one call. -/
structure EpAnswers where
  normal : Bool
  sys : Bool
  media : Bool

/-- The keyboard report without keys. -/
def zeroReport : List UInt8 := List.replicate 8 0

/-- The report of a frame: its modifier and its keys. -/
def frameReport (d : KbData) : List UInt8 :=
  d.ctrlKey :: 0 :: bytes (mem d.keys) keyboardReportKeyMax

namespace UsbKb

/-- Power-on. -/
def powerOn : UsbKb where
  hid := .powerOn
  normalNotReleased := false
  sysNotReleased := false
  mediaNotReleased := false
  usbkbDataReportTime := 0
  lastData := ⟨0, 0, Vector.replicate 6 0⟩
  target := zeroReport

/-- `usbkb_not_released` is not zero. -/
def notReleased (s : UsbKb) : Bool :=
  s.normalNotReleased || s.sysNotReleased || s.mediaNotReleased

/-- `usbkb_release_normal_key`. -/
def releaseNormalKey (s : UsbKb) (busy : Bool) : UsbKb :=
  if s.normalNotReleased then
    let r := s.hid.usbkbHidReportNormal 0 (fun _ => 0) busy
    { s with hid := r.1, normalNotReleased := !r.2 }
  else s

/-- `usbkb_release_sys_key`. -/
def releaseSysKey (s : UsbKb) (busy : Bool) : UsbKb :=
  if s.sysNotReleased then
    let r := s.hid.usbmouseHidReport usbHidKbSys (fun _ => 0) 1 busy
    { s with hid := r.1, sysNotReleased := !r.2 }
  else s

/-- `usbkb_release_media_key`. -/
def releaseMediaKey (s : UsbKb) (busy : Bool) : UsbKb :=
  if s.mediaNotReleased then
    let r := s.hid.usbmouseHidReport usbHidKbMedia (fun _ => 0) mediaReportDataLen busy
    { s with hid := r.1, mediaNotReleased := !r.2 }
  else s

/-- Keys are to be released. -/
def releaseDue (s : UsbKb) (now : BitVec 32) : Bool :=
  s.notReleased && clockTimeExceed now s.usbkbDataReportTime usbKeyboardReleaseTimeout

/-- `usbkb_release_check`. -/
def releaseCheck (s : UsbKb) (now : BitVec 32) (busy : EpAnswers) : UsbKb :=
  if s.releaseDue now then
    ((s.releaseSysKey busy.sys).releaseNormalKey busy.normal).releaseMediaKey busy.media
  else s

/-- `usbkb_report_normal_key`. -/
def reportNormalKey (s : UsbKb) (ctrlKey : UInt8) (keycode : List UInt8) (busy : Bool) : UsbKb :=
  if 0 < keycode.length ∨ ctrlKey ≠ 0 then
    let r := s.hid.usbkbHidReportNormal ctrlKey (mem keycode) busy
    { s with hid := r.1, normalNotReleased := s.normalNotReleased || r.2 }
  else s.releaseNormalKey busy

/-- `usbkb_report_sys_key`. -/
def reportSysKey (s : UsbKb) (extKey : UInt8) (busy : Bool) : UsbKb :=
  if vkSysStart ≤ extKey ∧ extKey < vkSysEnd then
    let r := s.hid.usbmouseHidReport usbHidKbSys
      (mem (vkSysMap.drop (extKey - vkSysStart).toNat)) 1 busy
    { s with hid := r.1, sysNotReleased := s.sysNotReleased || r.2 }
  else s.releaseSysKey busy

/-- `usbkb_report_media_key`. -/
def reportMediaKey (s : UsbKb) (extKey : UInt8) (busy : Bool) : UsbKb :=
  if vkSysEnd ≤ extKey ∧ extKey < vkMediaEnd then
    let r := s.hid.usbmouseHidReport usbHidKbMedia
      (mem (vkMediaMap.getD (extKey - vkSysEnd).toNat [])) mediaReportDataLen busy
    { s with hid := r.1, mediaNotReleased := s.mediaNotReleased || r.2 }
  else s.releaseMediaKey busy

/-- A frame has keys or a modifier. -/
def hasKeys (d : KbData) : Bool := 0 < d.cnt || d.ctrlKey ≠ 0

/-- The frame repeats the last one, and its keys were not released. -/
def repeats (s : UsbKb) (d : KbData) : Bool :=
  hasKeys d && kbIsDataSame s.lastData d && s.notReleased

/-- `usbkb_hid_report`. `last_data` is compared and saved only for a frame with keys. -/
def usbkbHidReport (s : UsbKb) (d : KbData) (now : BitVec 32) (busy : EpAnswers) : UsbKb :=
  if kbReturnKeyMax < d.cnt.toNat then s
  else if s.repeats d then { s with usbkbDataReportTime := now }
  else
    let s := if hasKeys d && !kbIsDataSame s.lastData d then { s with lastData := d } else s
    let keys := if 0 < d.cnt then usbkbSeparateKeyTypes d.keys else ([], vkMediaEnd)
    let s := s.reportNormalKey d.ctrlKey keys.1 busy.normal
    let s := s.reportSysKey keys.2 busy.sys
    let s := s.reportMediaKey keys.2 busy.media
    { s with usbkbDataReportTime := now }

end UsbKb

/-- A call, with the ticks of its moment and the answers of the endpoints. -/
inductive KbEvent
  | frame (d : KbData) (now : BitVec 32) (busy : EpAnswers)
  | releaseCheck (now : BitVec 32) (busy : EpAnswers)
  | fifoProc (busy busy' : Bool)

/-- A step. -/
def kbStep (s : UsbKb) : KbEvent → UsbKb
  | .frame d now busy => { s.usbkbHidReport d now busy with target := frameReport d }
  | .releaseCheck now busy =>
    { s.releaseCheck now busy with target := if s.releaseDue now then zeroReport else s.target }
  | .fifoProc busy busy' => { s with hid := (s.hid.usbHidReportFifoProc busy busy').1 }

/-! ## What the host gets -/

/-- The last report handed to the keyboard endpoint. -/
def UsbHid.kbLast (s : UsbHid) : List UInt8 :=
  ((s.written .keyboard).getLast?.map Prod.snd).getD zeroReport

/-- The FIFO is drained. -/
def UsbKb.drain (s : UsbKb) : UsbKb :=
  Machine.run kbStep s (List.replicate usbFifoNum (.fifoProc false false))

/-- Once the FIFO is drained, nothing waits, and the last report handed to the endpoint is that of
the last frame, or the release behind it. -/
structure UsbKb.Ok (s : UsbKb) : Prop where
  queued : s.drain.hid.queued = []
  kbLast : s.drain.hid.kbLast = s.target

/-- The frames have at most six keys and no extended ones. -/
def FrameOk (_ : UsbKb) : KbEvent → Prop
  | .frame d _ _ => d.cnt.toNat ≤ kbReturnKeyMax ∧ ∀ k ∈ d.keys, isExtKey k = false
  | _ => True

/-- The last report that waits, or else the last one handed to the endpoint. -/
def UsbHid.final (s : UsbHid) : List UInt8 :=
  (s.queued.getLast?.map (HidReport.bytes true)).getD s.kbLast

/-- Nothing is reported for the frame: it is taken for a repeated one, or it has no keys where
none were reported. -/
def UsbKb.skips (s : UsbKb) (d : KbData) : Bool :=
  s.repeats d || (!UsbKb.hasKeys d && !s.normalNotReleased)

/-- The condition on a step: where nothing is reported for a frame, or its report does not come
last, it is the last report anyway. -/
def KbStepOk (s : UsbKb) : KbEvent → Prop
  | .frame d _ busy => (s.skips d = true ∨ busy.normal = false ∧ s.hid.queued ≠ []) →
    s.hid.final = frameReport d
  | .releaseCheck now busy => s.releaseDue now = true → busy.normal = false → s.hid.queued ≠ [] →
    s.hid.final = zeroReport
  | .fifoProc busy busy' => busy = false → busy' = true →
    ∀ r ∈ s.hid.queued.head?, r.bytes true = s.hid.final

/-! ## Reports and the last one -/

/-- The FIFO is a ring of keyboard reports. -/
structure UsbHid.KbFifo (s : UsbHid) : Prop where
  fifo : s.Fifo
  kb : ∀ r ∈ s.queued, r.ep = .keyboard

namespace UsbHid

variable {s : UsbHid}

theorem bytes_of_kb {r : HidReport} (h : r.ep = .keyboard) (proto : Bool) :
    r.bytes proto = r.bytes true := by
  cases r with
  | kb ctrlKey keycode => rfl
  | mouse reportId data => exact nomatch h

theorem final_of_nil (h : s.queued = []) : s.final = s.kbLast := by
  simp [final, h]

theorem final_of_concat {q : List HidReport} {r : HidReport} (h : s.queued = q ++ [r]) :
    s.final = r.bytes true := by
  simp [final, h]

theorem kbLast_writeEp (s : UsbHid) (data : List UInt8) :
    (s.writeEp .keyboard data).kbLast = data := by
  simp [kbLast, writeEp]

namespace KbFifo

theorem put (h : s.KbFifo) (ctrlKey : UInt8) (keycode : ℕ → UInt8) :
    (s.usbkbHidReportNormal ctrlKey keycode true).1.KbFifo := by
  obtain ⟨hfifo, hqueued⟩ := usbkbHidReportNormal_busy h.fifo ctrlKey keycode
  refine ⟨hfifo, fun r hr => ?_⟩
  rw [hqueued] at hr
  rcases List.mem_append.mp hr with hr | hr
  · apply h.kb
    split at hr
    · exact hr
    · exact List.mem_of_mem_tail hr
  · rw [List.mem_singleton.mp hr]
    rfl

/-- A keyboard report is submitted. -/
theorem usbkbHidReportNormal (h : s.KbFifo) (ctrlKey : UInt8) (keycode : ℕ → UInt8)
    (busy : Bool) : (s.usbkbHidReportNormal ctrlKey keycode busy).1.KbFifo := by
  cases busy with
  | true => exact h.put ctrlKey keycode
  | false => exact ⟨h.fifo.writeEp _ _, h.kb⟩

/-- The report comes last, except where it is written at once and others wait. -/
theorem final_usbkbHidReportNormal (h : s.KbFifo) (ctrlKey : UInt8) (keycode : ℕ → UInt8)
    (busy : Bool) :
    (s.usbkbHidReportNormal ctrlKey keycode busy).1.final =
      if busy = false ∧ s.queued ≠ [] then s.final
      else ctrlKey :: 0 :: bytes keycode keyboardReportKeyMax := by
  cases busy with
  | true =>
    rw [if_neg (by simp)]
    exact final_of_concat (usbkbHidReportNormal_busy h.fifo ctrlKey keycode).2
  | false =>
    have hqueued : (s.usbkbHidReportNormal ctrlKey keycode false).1.queued = s.queued := rfl
    by_cases hq : s.queued = []
    · rw [if_neg (by simp [hq]), final_of_nil (hqueued.trans hq)]
      exact kbLast_writeEp s _
    · rw [if_pos ⟨rfl, hq⟩]
      obtain ⟨q, r, hcat⟩ := (List.eq_nil_or_concat' s.queued).resolve_left hq
      rw [final_of_concat hcat, final_of_concat (hqueued.trans hcat)]

/-- The oldest report is handed to the endpoint. -/
theorem fifoProc_idle (h : s.KbFifo) :
    (s.usbHidReportFifoProc false false).1.KbFifo ∧
      (s.usbHidReportFifoProc false false).1.queued = s.queued.tail ∧
      (s.usbHidReportFifoProc false false).1.final = s.final := by
  cases hq : s.queued with
  | nil =>
    rw [usbHidReportFifoProc_empty h.fifo hq]
    exact ⟨h, hq, rfl⟩
  | cons r q =>
    have hr : r.ep = .keyboard := h.kb r (hq ▸ List.mem_cons_self)
    have hproto : ∀ reportId data, r = .mouse reportId data →
        s.usbMouseReportProto = true ∨ 3 ≤ data.length := by
      rintro reportId data rfl
      cases hr
    rw [usbHidReportFifoProc_idle h.fifo hq hproto, bytes_of_kb hr, hr]
    obtain ⟨hfifo, hqueued⟩ := (h.fifo.writeEp .keyboard (r.bytes true)).nextRptr hq
    refine ⟨⟨hfifo, fun r' hr' => h.kb r' ?_⟩, hqueued, ?_⟩
    · rw [hqueued] at hr'
      rw [hq]
      exact List.mem_cons_of_mem _ hr'
    · rcases List.eq_nil_or_concat' q with rfl | ⟨q', r', rfl⟩
      · rw [final_of_nil hqueued, final_of_concat (q := []) hq]
        exact kbLast_writeEp s _
      · rw [final_of_concat hqueued, final_of_concat (q := r :: q') hq]

/-- The oldest report waits again, behind the others. -/
theorem fifoProc_again (h : s.KbFifo) {r : HidReport} {q : List HidReport}
    (hq : s.queued = r :: q) :
    (s.usbHidReportFifoProc false true).1.KbFifo ∧
      (s.usbHidReportFifoProc false true).1.final = r.bytes true := by
  have hr : r.ep = .keyboard := h.kb r (hq ▸ List.mem_cons_self)
  have hne : s.usbFfRptr ≠ s.usbFfWptr := by
    rw [Ne, h.fifo.nil_iff, hq]
    exact List.cons_ne_nil r q
  obtain ⟨hreport, -⟩ := h.fifo.front hq
  simp only [usbHidReportFifoProc, if_neg hne]
  generalize s.usbFifo (s.usbFfRptr &&& (usbFifoNum - 1)) = pData at hreport ⊢
  have hkb : pData 0 = datTypeKb := by
    by_contra hkb
    rw [report, if_neg hkb] at hreport
    subst hreport
    cases hr
  rw [report, if_pos hkb] at hreport
  simp only [if_pos hkb, Bool.false_eq_true, if_false]
  -- the reports behind the one that is queued again
  have hput := h.put (pData 1) fun i => pData (2 + i)
  have hqueued := (usbkbHidReportNormal_busy h.fifo (pData 1) fun i => pData (2 + i)).2
  obtain ⟨r', q', hsplit⟩ : ∃ r' q', (if s.queued.length < usbFifoNum then s.queued
      else s.queued.tail) = r' :: q' := by
    apply List.exists_cons_of_ne_nil
    split
    · rw [hq]
      exact List.cons_ne_nil r q
    case isFalse hfull =>
      rw [hq, List.length_cons] at hfull
      rw [hq, List.tail_cons]
      rintro rfl
      exact absurd hfull (by decide)
  rw [hsplit, List.cons_append] at hqueued
  obtain ⟨hfifo, hnext⟩ := hput.fifo.nextRptr hqueued
  refine ⟨⟨hfifo, fun x hx => hput.kb x ?_⟩, ?_⟩
  · rw [hnext] at hx
    rw [hqueued]
    exact List.mem_cons_of_mem _ hx
  · rw [final_of_concat hnext, ← hreport]
    rfl

end KbFifo
end UsbHid

/-! ## The steps -/

/-- The FIFO holds keyboard reports, and no extended key was reported. -/
structure KbInv (s : UsbKb) : Prop where
  kbFifo : s.hid.KbFifo
  sys : s.sysNotReleased = false
  media : s.mediaNotReleased = false

section Steps

variable {s : UsbKb}

theorem KbInv.notReleased (h : KbInv s) : s.notReleased = s.normalNotReleased := by
  simp [UsbKb.notReleased, h.sys, h.media]

/-- Draining hands over what waits. -/
theorem drain_replicate (h : KbInv s) {n : ℕ} (hn : s.hid.queued.length ≤ n) :
    (Machine.run kbStep s (List.replicate n (.fifoProc false false))).hid.queued = [] ∧
      (Machine.run kbStep s (List.replicate n (.fifoProc false false))).hid.kbLast =
        s.hid.final := by
  induction n generalizing s with
  | zero =>
    have hnil : s.hid.queued = [] := List.eq_nil_of_length_eq_zero (Nat.le_zero.mp hn)
    exact ⟨hnil, (final_of_nil hnil).symm⟩
  | succ n ih =>
    obtain ⟨hfifo, hqueued, hfinal⟩ := h.kbFifo.fifoProc_idle
    have hstep := ih (s := kbStep s (.fifoProc false false)) ⟨hfifo, h.sys, h.media⟩ (by
      show (s.hid.usbHidReportFifoProc false false).1.queued.length ≤ n
      rw [hqueued, List.length_tail]
      omega)
    rw [List.replicate_succ, Machine.run_cons]
    exact ⟨hstep.1, hstep.2.trans hfinal⟩

/-- The host gets the last frame exactly if its report comes last. -/
theorem ok_iff (h : KbInv s) : s.Ok ↔ s.hid.final = s.target := by
  obtain ⟨hqueued, hlast⟩ := drain_replicate h h.kbFifo.fifo.length_le
  constructor
  · intro hok
    exact hlast.symm.trans hok.kbLast
  · intro hfinal
    exact ⟨hqueued, hlast.trans hfinal⟩

/-- The release of a system key or a media key is not due. -/
theorem KbInv.reportExt (h : KbInv s) (sys media : Bool) :
    (s.reportSysKey vkMediaEnd sys).reportMediaKey vkMediaEnd media = s := by
  have hsys : s.reportSysKey vkMediaEnd sys = s := by
    rw [UsbKb.reportSysKey, if_neg (by decide), UsbKb.releaseSysKey, if_neg (by simp [h.sys])]
  rw [hsys, UsbKb.reportMediaKey, if_neg (by decide), UsbKb.releaseMediaKey,
    if_neg (by simp [h.media])]

/-- A report of normal keys, or their release. -/
theorem KbInv.reportNormalKey (h : KbInv s) (ctrlKey : UInt8) (keycode : List UInt8)
    (busy : Bool) :
    KbInv (s.reportNormalKey ctrlKey keycode busy) ∧ (s.reportNormalKey ctrlKey keycode busy).hid =
      if keycode = [] ∧ ctrlKey = 0 ∧ s.normalNotReleased = false then s.hid
      else (s.hid.usbkbHidReportNormal ctrlKey (mem keycode) busy).1 := by
  have hfifo := h.kbFifo.usbkbHidReportNormal ctrlKey (mem keycode) busy
  by_cases hkeys : 0 < keycode.length ∨ ctrlKey ≠ 0
  · rw [UsbKb.reportNormalKey, if_pos hkeys, if_neg]
    · exact ⟨⟨hfifo, h.sys, h.media⟩, rfl⟩
    · rintro ⟨rfl, rfl, -⟩
      exact absurd hkeys (by simp)
  · obtain ⟨hnil, hctrl⟩ := not_or.mp hkeys
    obtain rfl : keycode = [] := List.eq_nil_of_length_eq_zero (by omega)
    obtain rfl : ctrlKey = 0 := not_not.mp hctrl
    rw [UsbKb.reportNormalKey, if_neg hkeys, UsbKb.releaseNormalKey]
    cases hflag : s.normalNotReleased with
    | true => exact ⟨⟨hfifo, h.sys, h.media⟩, rfl⟩
    | false => exact ⟨h, rfl⟩

/-- Without extended keys, only the normal keys are reported. -/
theorem usbkbHidReport_normal (h : KbInv s) {d : KbData}
    (hd : d.cnt.toNat ≤ kbReturnKeyMax ∧ ∀ k ∈ d.keys, isExtKey k = false) (now : BitVec 32)
    (busy : EpAnswers) :
    KbInv (s.usbkbHidReport d now busy) ∧ (s.usbkbHidReport d now busy).hid =
      if s.skips d then s.hid
      else (s.hid.usbkbHidReportNormal d.ctrlKey (mem d.keys) busy.normal).1 := by
  obtain ⟨hcnt, hext⟩ := hd
  rw [UsbKb.usbkbHidReport, if_neg (by omega)]
  by_cases hrepeats : s.repeats d
  · rw [if_pos hrepeats, if_pos (by simp [UsbKb.skips, hrepeats])]
    exact ⟨⟨h.kbFifo, h.sys, h.media⟩, rfl⟩
  rw [if_neg hrepeats]
  -- all keys are normal
  have hseparate : (if 0 < d.cnt then usbkbSeparateKeyTypes d.keys else ([], vkMediaEnd)) =
      (d.keys, vkMediaEnd) := by
    have hnormal : d.keys.filter (fun k => !isExtKey k) = d.keys :=
      List.filter_eq_self.mpr fun k hk => by simp [hext k hk]
    have hnone : d.keys.filter isExtKey = [] :=
      List.filter_eq_nil_iff.mpr fun k hk => by simp [hext k hk]
    split_ifs with hpos
    · rw [usbkbSeparateKeyTypes, hnormal, hnone]
      rfl
    · have hzero : d.cnt.toNat = 0 := Nat.eq_zero_of_not_pos hpos
      rw [KbData.keys, hzero, List.take_zero]
  have hkeys : UsbKb.hasKeys d = false ↔ d.keys = [] ∧ d.ctrlKey = 0 := by
    have hlen : d.keys.length = d.cnt.toNat := by
      rw [KbData.keys, List.length_take, Vector.length_toList]
      exact Nat.min_eq_left hcnt
    have hpos : 0 < d.cnt ↔ d.keys ≠ [] := by
      rw [← List.length_pos_iff, hlen]
      rfl
    simp only [UsbKb.hasKeys, Bool.or_eq_false_iff, decide_eq_false_iff_not, hpos, not_not]
  dsimp only
  rw [hseparate]
  generalize hs' : (if UsbKb.hasKeys d && !kbIsDataSame s.lastData d then { s with lastData := d }
    else s : UsbKb) = s'
  have hs'' : KbInv s' ∧ s'.hid = s.hid ∧ s'.normalNotReleased = s.normalNotReleased := by
    rw [← hs']
    split_ifs
    · exact ⟨⟨h.kbFifo, h.sys, h.media⟩, rfl, rfl⟩
    · exact ⟨h, rfl, rfl⟩
  obtain ⟨hinv, hhid, hflag⟩ := hs''
  obtain ⟨hinv', hhid'⟩ := hinv.reportNormalKey d.ctrlKey d.keys busy.normal
  rw [hinv'.reportExt]
  refine ⟨⟨hinv'.kbFifo, hinv'.sys, hinv'.media⟩, ?_⟩
  rw [hhid, hflag] at hhid'
  have hskips : s.skips d = true ↔ d.keys = [] ∧ d.ctrlKey = 0 ∧ s.normalNotReleased = false := by
    rw [Bool.not_eq_true] at hrepeats
    rw [UsbKb.skips, hrepeats, Bool.false_or, Bool.and_eq_true, Bool.not_eq_true',
      Bool.not_eq_true', hkeys, and_assoc]
  rw [if_congr hskips rfl rfl]
  exact hhid'

/-- The keys that are released after the timeout are the normal ones. -/
theorem releaseCheck_normal (h : KbInv s) (now : BitVec 32) (busy : EpAnswers) :
    KbInv (s.releaseCheck now busy) ∧ (s.releaseCheck now busy).hid =
      if s.releaseDue now then (s.hid.usbkbHidReportNormal 0 (fun _ => 0) busy.normal).1
      else s.hid := by
  rw [UsbKb.releaseCheck]
  split_ifs with hdue
  · have hnormal : s.normalNotReleased = true := by
      rw [UsbKb.releaseDue, Bool.and_eq_true, h.notReleased] at hdue
      exact hdue.1
    have hsys : s.releaseSysKey busy.sys = s := by
      rw [UsbKb.releaseSysKey, if_neg (by simp [h.sys])]
    rw [hsys, UsbKb.releaseNormalKey, if_pos hnormal, UsbKb.releaseMediaKey,
      if_neg (by simp [h.media])]
    exact ⟨⟨h.kbFifo.usbkbHidReportNormal 0 (fun _ => 0) busy.normal, h.sys, h.media⟩, rfl⟩
  · exact ⟨h, rfl⟩

theorem kbStep_inv {e : KbEvent} (h : KbInv s) (hframe : FrameOk s e) : KbInv (kbStep s e) := by
  cases e with
  | frame d now busy =>
    obtain ⟨hinv, -⟩ := usbkbHidReport_normal h hframe now busy
    exact ⟨hinv.kbFifo, hinv.sys, hinv.media⟩
  | releaseCheck now busy =>
    obtain ⟨hinv, -⟩ := releaseCheck_normal h now busy
    exact ⟨hinv.kbFifo, hinv.sys, hinv.media⟩
  | fifoProc busy busy' =>
    refine ⟨?_, h.sys, h.media⟩
    show (s.hid.usbHidReportFifoProc busy busy').1.KbFifo
    cases busy with
    | true =>
      rw [usbHidReportFifoProc_busy]
      exact h.kbFifo
    | false =>
      cases busy' with
      | false => exact h.kbFifo.fifoProc_idle.1
      | true =>
        cases hq : s.hid.queued with
        | nil =>
          rw [usbHidReportFifoProc_empty h.kbFifo.fifo hq]
          exact h.kbFifo
        | cons r q => exact (h.kbFifo.fifoProc_again hq).1

/-- A report that does not come last has to be the last one anyway. -/
theorem final_eq_iff {hid : UsbHid} (h : hid.KbFifo) (ctrlKey : UInt8) (keycode : ℕ → UInt8)
    (busy : Bool) :
    (hid.usbkbHidReportNormal ctrlKey keycode busy).1.final =
        ctrlKey :: 0 :: bytes keycode keyboardReportKeyMax ↔
      (busy = false ∧ hid.queued ≠ [] →
        hid.final = ctrlKey :: 0 :: bytes keycode keyboardReportKeyMax) := by
  rw [h.final_usbkbHidReportNormal]
  split_ifs with hc
  · exact ⟨fun heq _ => heq, fun heq => heq hc⟩
  · exact iff_of_true rfl fun hc' => absurd hc' hc

/-- A step keeps what the host gets exactly if it meets the condition. -/
theorem kbStep_ok {e : KbEvent} (h : KbInv s) (hok : s.Ok) (hframe : FrameOk s e) :
    (kbStep s e).Ok ↔ KbStepOk s e := by
  rw [ok_iff (kbStep_inv h hframe)]
  have hfinal := (ok_iff h).mp hok
  cases e with
  | frame d now busy =>
    have hhid := (usbkbHidReport_normal h hframe now busy).2
    show (s.usbkbHidReport d now busy).hid.final = frameReport d ↔ _
    rw [hhid, KbStepOk]
    by_cases hskips : s.skips d = true
    · rw [if_pos hskips]
      exact ⟨fun heq _ => heq, fun heq => heq (.inl hskips)⟩
    · rw [if_neg hskips, frameReport, final_eq_iff h.kbFifo _ _ _]
      constructor
      · rintro himp (hskips' | hc)
        · exact absurd hskips' hskips
        · exact himp hc
      · exact fun himp hc => himp (.inr hc)
  | releaseCheck now busy =>
    have hhid := (releaseCheck_normal h now busy).2
    show (s.releaseCheck now busy).hid.final = (if s.releaseDue now then zeroReport else s.target) ↔
      _
    rw [hhid, KbStepOk]
    by_cases hdue : s.releaseDue now = true
    · rw [if_pos hdue, if_pos hdue]
      refine (final_eq_iff h.kbFifo 0 (fun _ => 0) busy.normal).trans ⟨?_, ?_⟩
      · exact fun himp _ hb hq => himp ⟨hb, hq⟩
      · exact fun himp hc => himp hdue hc.1 hc.2
    · rw [if_neg hdue, if_neg hdue]
      exact iff_of_true hfinal fun hdue' => absurd hdue' hdue
  | fifoProc busy busy' =>
    show (s.hid.usbHidReportFifoProc busy busy').1.final = s.target ↔ _
    rw [← hfinal, KbStepOk]
    cases busy with
    | true =>
      rw [usbHidReportFifoProc_busy]
      exact iff_of_true rfl fun hb => nomatch hb
    | false =>
      cases busy' with
      | false => exact iff_of_true h.kbFifo.fifoProc_idle.2.2 fun _ hb => nomatch hb
      | true =>
        cases hq : s.hid.queued with
        | nil =>
          rw [usbHidReportFifoProc_empty h.kbFifo.fifo hq]
          exact iff_of_true rfl fun _ _ r hr => nomatch hr
        | cons r q =>
          rw [(h.kbFifo.fifoProc_again hq).2]
          constructor
          · rintro heq - - r' ⟨⟩
            exact heq
          · exact fun himp => himp rfl rfl r rfl

end Steps

/-- In every run, draining the FIFO always hands over the report of the last frame, or the release
behind it, as the last one, exactly if all steps meet the condition. -/
theorem keyboard_catches_up (events : List KbEvent)
    (hframe : Machine.Along kbStep FrameOk .powerOn events) :
    Machine.Always kbStep UsbKb.Ok .powerOn events ↔
      Machine.Along kbStep KbStepOk .powerOn events := by
  have hinit : KbInv .powerOn := ⟨⟨.powerOn, fun _ hr => nomatch hr⟩, rfl, rfl⟩
  exact Machine.always_iff_along (fun _ _ => kbStep_ok) (fun _ _ h _ hf _ => kbStep_inv h hf)
    hframe hinit ((ok_iff hinit).mpr (final_of_nil rfl))

/-- The frame of the key `k`, or of none. -/
def keyFrame (cnt k : UInt8) : KbData := ⟨cnt, 0, Vector.replicate 6 k⟩

/-- A key is pressed, its release waits, another key waits behind it, and the FIFO is drained. -/
theorem keyboard_catches_up_example :
    let events := [.frame (keyFrame 1 4) 0 ⟨false, false, false⟩,
      .frame (keyFrame 0 0) 16 ⟨true, false, false⟩, .frame (keyFrame 1 5) 32 ⟨true, false, false⟩,
      .fifoProc false false, .fifoProc true false, .fifoProc false false,
      .releaseCheck 7200100 ⟨false, false, false⟩]
    Machine.Always kbStep UsbKb.Ok .powerOn events ↔
      Machine.Along kbStep KbStepOk .powerOn events := by
  apply keyboard_catches_up
  have hframe : ∀ (cnt k : UInt8) (now : BitVec 32) (busy : EpAnswers) (s : UsbKb),
      cnt.toNat ≤ kbReturnKeyMax → isExtKey k = false →
      FrameOk s (.frame (keyFrame cnt k) now busy) := by
    refine fun cnt k now busy s hcnt hk => ⟨hcnt, fun x hx => ?_⟩
    have hmem : x ∈ (Vector.replicate 6 k).toList := List.mem_of_mem_take hx
    rw [Vector.toList_replicate] at hmem
    rw [List.eq_of_mem_replicate hmem]
    exact hk
  exact ⟨hframe _ _ _ _ _ (by decide) (by decide), hframe _ _ _ _ _ (by decide) (by decide),
    hframe _ _ _ _ _ (by decide) (by decide), trivial, trivial, trivial, trivial, trivial⟩

/-- A key whose press waits is never released. A press behind a release that waits is taken for a
repeated one. A press that is written at once is overtaken by the report that waits. -/
theorem keyboard_counterexample :
    ¬ Machine.Always kbStep UsbKb.Ok .powerOn [.frame (keyFrame 1 4) 0 ⟨true, false, false⟩,
        .frame (keyFrame 0 0) 16 ⟨false, false, false⟩] ∧
      ¬ Machine.Always kbStep UsbKb.Ok .powerOn [.frame (keyFrame 1 4) 0 ⟨false, false, false⟩,
        .frame (keyFrame 0 0) 16 ⟨true, false, false⟩,
        .frame (keyFrame 1 4) 32 ⟨false, false, false⟩] ∧
      ¬ Machine.Always kbStep UsbKb.Ok .powerOn [.frame (keyFrame 1 4) 0 ⟨true, false, false⟩,
        .frame (keyFrame 1 5) 16 ⟨false, false, false⟩] := by
  refine ⟨fun h => ?_, fun h => ?_, fun h => ?_⟩
  · exact absurd h.last.kbLast (by decide +kernel)
  · exact absurd h.last.kbLast (by decide +kernel)
  · exact absurd h.last.kbLast (by decide +kernel)

end TlBleSdk.Usb
