import TlBleSdk.Debug.PrintFifo
import TlBleSdk.Lib.Run

/-!
# The log over UART

`tlkapi_debug.c` for the UART channel: the producers of records, the handler of the main loop and
the handler of the interrupt, which both drain the log FIFO into the UART.
-/

namespace TlBleSdk.Debug

open Hci

/-! ## Records -/

/-- `hex_table`. -/
def hexTable (n : ℕ) : UInt8 := if n < 10 then UInt8.ofNat (48 + n) else UInt8.ofNat (87 + n)

/-- The serial number of a record in brackets. -/
def serialText (serial : ℕ) : List UInt8 :=
  [0x5B, hexTable (serial / 4096), hexTable (serial / 256 % 16), hexTable (serial / 16 % 16),
    hexTable (serial % 16), 0x5D]

/-- The bytes of `data` in hexadecimal digits. -/
def hexText (data : List UInt8) : List UInt8 :=
  data.flatMap fun b => [0x20, hexTable (b.toNat / 16), hexTable (b.toNat % 16)]

/-- The record of `tlkapi_send_str_data`, with the number `serial`. -/
def sendStrDataRecord (fifoDataLen serial : ℕ) (str data : List UInt8) : LogRecord :=
  let ns := if fifoDataLen < str.length then fifoDataLen else str.length
  let dataLen :=
    if fifoDataLen < str.length then 0
    else if fifoDataLen < data.length + ns then fifoDataLen - ns
    else data.length
  -- `u16 max_len`: the division is one of `int`
  let maxLen := ((((fifoDataLen : ℤ) - ns - 3 - 4 - 6).tdiv 3) % 65536).toNat
  let dataLen := if maxLen < dataLen then maxLen else dataLen
  { len := ns + dataLen * 3 + 3 + 6
    body := serialText serial ++ str.take ns ++ [0x3A] ++ hexText (data.take dataLen) ++
      [0x0D, 0x0A] }

/-- What `vsnprintf` writes of `text` to `n` bytes. -/
def vsnprintf (n : ℕ) (text : List UInt8) : List UInt8 :=
  if n = 0 then [] else text.take (n - 1) ++ [0]

/-- The record of `tlk_printf`. The length is that of the whole text. -/
def printfRecord (fifoDataLen serial : ℕ) (text : List UInt8) : LogRecord where
  len := text.length + 6
  body := serialText serial ++ vsnprintf fifoDataLen text

/-- The record of `_write`. -/
def writeRecord (buf : List UInt8) : LogRecord where
  len := buf.length
  body := buf

/-! ## The handlers -/

/-- The DMA channel of the UART while it sends: the address that it reads next, how many bytes are
left, and what the UART has put out. -/
structure UartDma where
  addr : ℕ
  left : ℕ
  out : List UInt8

/-- The FIFO, `uartSendIsBusy` and `g_debug_serial`; the DMA channel, and whether the end of the
transmission is pending in the status of the UART; the records that were queued, what was sent, and
how many bytes the last record occupies. -/
structure TlkDbg where
  fifo : MyFifo
  uartSendIsBusy : Bool
  gDebugSerial : ℕ
  dma : Option UartDma
  txDone : Bool
  queued : List (List UInt8)
  sent : List (List UInt8)
  written : ℕ

namespace TlkDbg

/-- `tlkapi_debug_init`. -/
def debugInit (f : MyFifo) (serial : ℕ) : TlkDbg where
  fifo := f.reset
  uartSendIsBusy := false
  gDebugSerial := serial
  dma := none
  txDone := false
  queued := []
  sent := []
  written := 0

/-- `fifo_data_len`; `fifo_format_len` is 0 here. -/
def fifoDataLen (s : TlkDbg) : ℕ := s.fifo.size

/-- The number that the next record has. -/
def nextSerial (s : TlkDbg) : ℕ := (s.gDebugSerial + 1) % 65536

/-- A record is queued. -/
def queue (s : TlkDbg) (r : LogRecord) : TlkDbg :=
  { s with
    fifo := s.fifo.log r
    queued := s.queued ++ [r.payload]
    written := r.image.length }

/-- `uart_debug_prepare_dma_data`, and in it `uart_send_dma`: the channel gets the address and the
length. Without a byte to send it is not started. -/
def prepareDmaData (s : TlkDbg) (addr len : ℕ) : TlkDbg :=
  if len ≠ 0 then { s with txDone := false, dma := some ⟨addr, len, []⟩ }
  else { s with dma := none, sent := s.sent ++ [[]] }

/-- `tlkapi_debug_handler`. -/
def debugHandler (s : TlkDbg) : TlkDbg :=
  if !s.uartSendIsBusy ∧ s.fifo.wptr ≠ s.fifo.rptr then
    let pData := s.fifo.slot s.fifo.rptr
    { s.prepareDmaData (pData + 4) (bytesToUint16 s.fifo.p pData) with
      uartSendIsBusy := true
      fifo := s.fifo.next }
  else s

/-- `tlkapi_uart_irq_handler`. -/
def uartIrqHandler (s : TlkDbg) : TlkDbg :=
  if s.txDone then
    let s := { s with txDone := false }
    if s.uartSendIsBusy then
      if s.fifo.wptr ≠ s.fifo.rptr then
        let pData := s.fifo.slot s.fifo.rptr
        { s.prepareDmaData (pData + 4) (s.fifo.p pData).toNat with
          uartSendIsBusy := true
          fifo := s.fifo.next }
      else { s with uartSendIsBusy := false }
    else s
  else s

/-- The UART puts out `n` bytes, which the channel reads from the memory now. Behind the last one,
the end of the transmission is pending. -/
def putOut (s : TlkDbg) (n : ℕ) : TlkDbg :=
  match s.dma with
  | none => s
  | some d =>
    if d.left ≤ n then
      { s with
        dma := none
        txDone := true
        sent := s.sent ++ [d.out ++ bytesAt s.fifo.p d.addr d.left] }
    else
      { s with dma := some ⟨d.addr + n, d.left - n, d.out ++ bytesAt s.fifo.p d.addr n⟩ }

end TlkDbg

/-- A call of a producer or of a handler, or some bytes that the UART puts out. -/
inductive DebugEvent
  | sendStrData (str data : List UInt8)
  | printf (text : List UInt8)
  | write (buf : List UInt8)
  | handler
  | irq
  | putOut (n : ℕ)

/-- The record that a call queues. -/
def TlkDbg.record (s : TlkDbg) : DebugEvent → Option LogRecord
  | .sendStrData str data =>
    if 500 < data.length then none
    else some (sendStrDataRecord s.fifoDataLen s.nextSerial str data)
  | .printf text => some (printfRecord s.fifoDataLen s.nextSerial text)
  | .write buf => some (writeRecord buf)
  | _ => none

/-- The number of the last record behind a call. -/
def TlkDbg.serialBehind (s : TlkDbg) : DebugEvent → ℕ
  | .sendStrData _ data => if 500 < data.length then s.gDebugSerial else s.nextSerial
  | .printf _ => s.nextSerial
  | _ => s.gDebugSerial

/-- A step. -/
def debugStep (s : TlkDbg) : DebugEvent → TlkDbg
  | .handler => s.debugHandler
  | .irq => s.uartIrqHandler
  | .putOut n => s.putOut n
  | e =>
    match s.record e with
    | none => s
    | some r => { s.queue r with gDebugSerial := s.serialBehind e }

/-! ## What the log promises -/

/-- What was sent are the first records, each once, in order and with its length, and the next one
as far as the UART has got with it; all of them where nothing waits. Whoever is busy waits for an
interrupt that comes. No record is queued to the slot of one that was not sent, or leaves its
slot. -/
structure TlkDbg.Ok (s : TlkDbg) : Prop where
  sent : s.sent <+: s.queued
  sending : ∀ d, s.dma = some d →
    ∃ r, s.sent ++ [r] <+: s.queued ∧ d.out <+: r ∧ d.out.length + d.left = r.length
  complete : s.dma = none → s.fifo.wptr = s.fifo.rptr → s.sent = s.queued
  busy : s.uartSendIsBusy = true → s.dma ≠ none ∨ s.txDone = true
  room : s.queued.length ≤ s.sent.length + s.fifo.num
  written : s.written ≤ s.fifo.size

/-- The UART is handed the oldest record that waits, with its length. -/
def Hands (s s' : TlkDbg) : Prop :=
  s'.uartSendIsBusy = true ∧ s'.fifo = s.fifo.next ∧
    ∃ r, s.sent ++ [r] <+: s.queued ∧ ∃ addr, s'.dma = some ⟨addr, r.length, []⟩

/-- A handler that is called when the UART is free, or has just become free, hands it the next
record, if one waits, and both handlers do the same. When the UART has put out all of it, the record
is sent, and the interrupt comes. A producer queues the record that it makes. -/
def Drains (s : TlkDbg) : DebugEvent → Prop
  | .handler => s.uartSendIsBusy = false → s.fifo.wptr ≠ s.fifo.rptr →
    Hands s (debugStep s .handler)
  | .irq => s.txDone = true →
    (s.fifo.wptr ≠ s.fifo.rptr → Hands s (debugStep s .irq)) ∧
      debugStep s .irq = debugStep { s with uartSendIsBusy := false, txDone := false } .handler
  | .putOut n => ∀ d, s.dma = some d → d.left ≤ n → (debugStep s (.putOut n)).txDone = true ∧
    ∃ r, s.sent ++ [r] <+: s.queued ∧ (debugStep s (.putOut n)).sent = s.sent ++ [r]
  | e => ∀ r, s.record e = some r → (debugStep s e).queued = s.queued ++ [r.payload]

/-- Whether a record is being sent. -/
def TlkDbg.inFlight (s : TlkDbg) : ℕ := if s.dma.isSome then 1 else 0

/-- A record is queued only to a slot that it fits, and that no record has which waits or is being
sent. A handler finds no record without a byte, and the interrupt only records whose length is one
byte. -/
def DebugStepOk (s : TlkDbg) : DebugEvent → Prop
  | .handler => s.uartSendIsBusy = false → s.fifo.wptr ≠ s.fifo.rptr →
    bytesToUint16 s.fifo.p (s.fifo.slot s.fifo.rptr) ≠ 0
  | .irq => s.txDone = true → s.fifo.wptr ≠ s.fifo.rptr →
    bytesToUint16 s.fifo.p (s.fifo.slot s.fifo.rptr) ≠ 0 ∧
      bytesToUint16 s.fifo.p (s.fifo.slot s.fifo.rptr) ≤ 255
  | .putOut _ => True
  | e => ∀ r, s.record e = some r →
    s.fifo.used + s.inFlight < s.fifo.num ∧ r.image.length ≤ s.fifo.size

/-! ## Lemmas -/

theorem length_image (r : LogRecord) : r.image.length = r.body.length + 4 := by
  simp [LogRecord.image, uint16ToBstream]

theorem length_hexText (data : List UInt8) : (hexText data).length = 3 * data.length := by
  induction data with
  | nil => rfl
  | cons b data ih =>
    rw [hexText, List.flatMap_cons, List.length_append, ← hexText, ih, List.length_cons]
    show 3 + 3 * data.length = 3 * (data.length + 1)
    omega

theorem length_vsnprintf {n : ℕ} (hn : n ≠ 0) (text : List UInt8) :
    (vsnprintf n text).length = min (n - 1) text.length + 1 := by
  rw [vsnprintf, if_neg hn, List.length_append, List.length_take, List.length_singleton]

/-- The length in the header of `tlkapi_send_str_data` is that of the bytes behind it. -/
theorem len_sendStrDataRecord (fifoDataLen serial : ℕ) (str data : List UInt8) :
    (sendStrDataRecord fifoDataLen serial str data).len =
      (sendStrDataRecord fifoDataLen serial str data).body.length := by
  simp only [sendStrDataRecord, List.length_append, length_hexText, List.length_take]
  show _ = 6 + _ + 1 + _ + 2
  split_ifs <;> omega

/-- A record that fits its slot has the bytes that its header announces. -/
theorem len_le_of_record {s : TlkDbg} {e : DebugEvent} {r : LogRecord} (hr : s.record e = some r)
    (hfits : r.image.length ≤ s.fifo.size) : r.len ≤ r.body.length := by
  rw [length_image] at hfits
  cases e with
  | sendStrData str data =>
    simp only [TlkDbg.record] at hr
    split at hr
    · exact nomatch hr
    · cases hr
      exact (len_sendStrDataRecord _ _ _ _).le
  | printf text =>
    cases hr
    have hserial : (serialText s.nextSerial).length = 6 := rfl
    simp only [printfRecord, TlkDbg.fifoDataLen, List.length_append, hserial] at hfits ⊢
    rw [length_vsnprintf (by omega)] at hfits ⊢
    omega
  | write buf =>
    cases hr
    exact Nat.le_refl _
  | handler => exact nomatch hr
  | irq => exact nomatch hr
  | putOut n => exact nomatch hr

theorem bytesAt_append (p : ℕ → UInt8) (a m n : ℕ) :
    bytesAt p a m ++ bytesAt p (a + m) n = bytesAt p a (m + n) := by
  apply List.ext_getElem
  · simp only [List.length_append, length_bytesAt]
  intro i hi hi'
  rw [List.getElem_append]
  split
  · simp [bytesAt]
  next hge =>
    rw [length_bytesAt] at hge
    simp only [bytesAt, getElem_bytes, length_bytes]
    congr 1
    omega

namespace TlkDbg

variable {s : TlkDbg}

/-- The number of records that the handlers took. -/
def taken (s : TlkDbg) : ℕ := s.sent.length + s.inFlight

/-- The record that is being sent: what was put out, and the rest, which is still in its slot. -/
def rest (s : TlkDbg) : List (List UInt8) :=
  match s.dma with
  | none => []
  | some d => [d.out ++ bytesAt s.fifo.p d.addr d.left]

/-- The FIFO holds what was queued and not taken. What was taken is sent, but for the record that is
being sent and is still in its slot. -/
structure Inv (s : TlkDbg) : Prop where
  holds : s.fifo.Holds s.queued s.taken
  conserve : s.sent ++ s.rest = s.queued.take s.taken
  region : ∀ d, s.dma = some d →
    ∃ k, d.addr = (s.taken - 1) % s.fifo.num * s.fifo.size + k ∧ k + d.left ≤ s.fifo.size
  waits : s.uartSendIsBusy = true ↔ s.dma ≠ none ∨ s.txDone = true
  apart : s.dma ≠ none → s.txDone = false
  room : s.queued.length ≤ s.sent.length + s.fifo.num
  written : s.written ≤ s.fifo.size

theorem inFlight_none (h : s.dma = none) : s.inFlight = 0 := by simp [inFlight, h]

theorem inFlight_some {d : UartDma} (h : s.dma = some d) : s.inFlight = 1 := by simp [inFlight, h]

namespace Inv

theorem debugInit (f : MyFifo) (serial : ℕ) : (debugInit f serial).Inv where
  holds := .reset f
  conserve := rfl
  region _ hd := nomatch hd
  waits := by simp [TlkDbg.debugInit]
  apart h := absurd rfl h
  room := Nat.zero_le _
  written := Nat.zero_le _

theorem toOk (h : s.Inv) : s.Ok where
  sent := (List.prefix_append _ _).trans (h.conserve ▸ List.take_prefix _ _)
  sending d hd := by
    have hconserve := h.conserve
    have hrest : s.rest = [d.out ++ bytesAt s.fifo.p d.addr d.left] := by simp [rest, hd]
    rw [hrest] at hconserve
    refine ⟨_, hconserve ▸ List.take_prefix _ _, List.prefix_append _ _, ?_⟩
    rw [List.length_append, length_bytesAt]
  complete hdma hempty := by
    have hconserve := h.conserve
    have hrest : s.rest = [] := by simp [rest, hdma]
    rwa [hrest, List.append_nil, ← h.holds.empty_iff.mp hempty, List.take_length] at hconserve
  busy hbusy := h.waits.mp hbusy
  room := h.room
  written := h.written

/-- A record is queued. -/
theorem queue (h : s.Inv) {r : LogRecord} {serial : ℕ}
    (hfree : s.fifo.used + s.inFlight < s.fifo.num)
    (hfits : r.image.length ≤ s.fifo.size) (hlen : r.len ≤ r.body.length) :
    ({ s.queue r with gDebugSerial := serial } : TlkDbg).Inv := by
  have hused := h.holds.used_eq
  have hle := h.holds.tracks.taken_le
  have htaken : s.taken = s.sent.length + s.inFlight := rfl
  -- the record that is being sent has another slot
  have hslot : ∀ d, s.dma = some d →
      (s.taken - 1) % s.fifo.num ≠ s.fifo.wptr % s.fifo.num := by
    intro d hd
    have hone := inFlight_some hd
    rw [h.holds.tracks.wptr_eq, Nat.mod_mod_of_dvd _ s.fifo.num_dvd]
    exact Ring.mod_ne_of_lt (by omega) (by omega)
  have hrest : (s.queue r).rest = s.rest := by
    unfold rest
    show (match s.dma with
      | none => []
      | some d => [d.out ++ bytesAt (s.fifo.log r).p d.addr d.left]) = _
    cases hd : s.dma with
    | none => rfl
    | some d =>
      obtain ⟨k, haddr, hk⟩ := h.region d hd
      dsimp only
      rw [haddr, MyFifo.bytesAt_log hfits (hslot d hd) hk]
  refine ⟨h.holds.log (by omega) hfits hlen, ?_, h.region, h.waits, h.apart, ?_, hfits⟩
  · show s.sent ++ (s.queue r).rest = (s.queued ++ [r.payload]).take s.taken
    rw [hrest, h.conserve, List.take_append_of_le_length hle]
  · show (s.queued ++ [r.payload]).length ≤ s.sent.length + s.fifo.num
    rw [List.length_append, List.length_singleton]
    omega

/-- A record waits where the pointers differ. -/
theorem next_lt (h : s.Inv) (hdma : s.dma = none) (hne : s.fifo.wptr ≠ s.fifo.rptr) :
    s.taken = s.sent.length ∧ s.sent.length < s.queued.length := by
  have htaken : s.taken = s.sent.length := by rw [taken, inFlight_none hdma, Nat.add_zero]
  have hle := h.holds.tracks.taken_le
  have hempty := mt h.holds.empty_iff.mpr hne
  exact ⟨htaken, by omega⟩

/-- The header of the record that waits, and the record. -/
theorem header (h : s.Inv) (hdma : s.dma = none) (hne : s.fifo.wptr ≠ s.fifo.rptr) :
    ∃ r, s.sent ++ [r] <+: s.queued ∧
      bytesToUint16 s.fifo.p (s.fifo.slot s.fifo.rptr) = r.length ∧
      bytesAt s.fifo.p (s.fifo.slot s.fifo.rptr + 4) r.length = r ∧ 4 + r.length ≤ s.fifo.size := by
  obtain ⟨htaken, hlt⟩ := h.next_lt hdma hne
  have hsent : s.sent = s.queued.take s.sent.length := List.prefix_iff_eq_take.mp h.toOk.sent
  obtain ⟨hlen, hfront⟩ := h.holds.front (htaken ▸ hlt)
  simp only [htaken] at hlen hfront
  refine ⟨s.queued[s.sent.length], ?_, hlen, hfront, h.holds.fits _ (List.getElem_mem _)⟩
  have hsucc := List.take_succ_eq_append_getElem hlt
  rw [← hsent] at hsucc
  rw [← hsucc]
  exact List.take_prefix _ _

/-- The next record is handed with its length. -/
theorem hand (h : s.Inv) (hdma : s.dma = none) (hne : s.fifo.wptr ≠ s.fifo.rptr) :
    ({ s with
      txDone := false
      dma := some ⟨s.fifo.slot s.fifo.rptr + 4,
        bytesToUint16 s.fifo.p (s.fifo.slot s.fifo.rptr), []⟩
      uartSendIsBusy := true
      fifo := s.fifo.next } : TlkDbg).Inv := by
  obtain ⟨htaken, hlt⟩ := h.next_lt hdma hne
  obtain ⟨r, hr, hlen, hbytes, hfits⟩ := h.header hdma hne
  have hrest : s.rest = [] := by simp [rest, hdma]
  have hnext := h.holds.next (htaken ▸ hlt)
  rw [htaken] at hnext
  refine ⟨hnext, ?_, ?_, by simp, fun _ => rfl, h.room, h.written⟩
  · show s.sent ++ [[] ++ bytesAt s.fifo.p (s.fifo.slot s.fifo.rptr + 4)
      (bytesToUint16 s.fifo.p (s.fifo.slot s.fifo.rptr))] = s.queued.take (s.sent.length + 1)
    rw [hlen, hbytes, List.nil_append, List.prefix_iff_eq_take.mp hr, List.length_append,
      List.length_singleton]
  · rintro d ⟨⟩
    refine ⟨4, ?_, ?_⟩
    · show s.fifo.slot s.fifo.rptr + 4 = (s.sent.length + 1 - 1) % s.fifo.num * s.fifo.size + 4
      rw [MyFifo.slot_eq, h.holds.tracks.rptr_eq, Nat.mod_mod_of_dvd _ s.fifo.num_dvd, htaken,
        Nat.add_sub_cancel]
    · show 4 + bytesToUint16 s.fifo.p (s.fifo.slot s.fifo.rptr) ≤ s.fifo.size
      rw [hlen]
      exact hfits

/-- Some bytes are put out. -/
theorem putOut (h : s.Inv) (n : ℕ) : (s.putOut n).Inv := by
  unfold TlkDbg.putOut
  cases hdma : s.dma with
  | none => exact h
  | some d =>
    have hone := inFlight_some hdma
    have htaken : s.taken = s.sent.length + 1 := by rw [taken, hone]
    have hrest : s.rest = [d.out ++ bytesAt s.fifo.p d.addr d.left] := by simp [rest, hdma]
    have hconserve := h.conserve
    have hbusy : s.uartSendIsBusy = true := h.waits.mpr (Or.inl (by simp [hdma]))
    rw [hrest, htaken] at hconserve
    have hholds := h.holds
    rw [htaken] at hholds
    dsimp only
    split
    · -- the record is out
      have hlen : (s.sent ++ [d.out ++ bytesAt s.fifo.p d.addr d.left]).length =
          s.sent.length + 1 := by simp
      constructor
      case holds =>
        show s.fifo.Holds s.queued (s.sent ++ [_]).length
        rw [hlen]
        exact hholds
      case conserve =>
        show (s.sent ++ [_]) ++ [] = s.queued.take (s.sent ++ [_]).length
        rw [List.append_nil, hlen, hconserve]
      case region => exact fun d hd => nomatch hd
      case waits => exact iff_of_true hbusy (Or.inr rfl)
      case apart => exact fun hne => absurd rfl hne
      case room =>
        show s.queued.length ≤ (s.sent ++ [_]).length + s.fifo.num
        rw [hlen]
        have hroom := h.room
        omega
      case written => exact h.written
    next hlt =>
      constructor
      case holds => exact hholds
      case conserve =>
        have hsplit : bytesAt s.fifo.p d.addr n ++ bytesAt s.fifo.p (d.addr + n) (d.left - n) =
            bytesAt s.fifo.p d.addr d.left := by
          rw [bytesAt_append]
          congr 1
          omega
        show s.sent ++ [d.out ++ bytesAt s.fifo.p d.addr n ++
          bytesAt s.fifo.p (d.addr + n) (d.left - n)] = s.queued.take (s.sent.length + 1)
        rw [List.append_assoc, hsplit, hconserve]
      case region =>
        rintro d' ⟨⟩
        obtain ⟨k, haddr, hk⟩ := h.region d hdma
        refine ⟨k + n, ?_, ?_⟩
        · show d.addr + n = (s.sent.length + 1 - 1) % s.fifo.num * s.fifo.size + (k + n)
          rw [haddr, htaken, Nat.add_assoc]
        · show k + n + (d.left - n) ≤ s.fifo.size
          omega
      case waits => exact iff_of_true hbusy (Or.inl (by simp))
      case apart => exact fun _ => h.apart (by simp [hdma])
      case room => exact h.room
      case written => exact h.written

/-- Nothing is being sent while the UART is free, or has just become free. -/
theorem dma_of_free (h : s.Inv) (hfree : s.uartSendIsBusy = false) : s.dma = none := by
  by_contra hdma
  exact Bool.false_ne_true (hfree.symm.trans (h.waits.mpr (Or.inl hdma)))

theorem dma_of_txDone (h : s.Inv) (htx : s.txDone = true) : s.dma = none := by
  by_contra hdma
  exact Bool.false_ne_true ((h.apart hdma).symm.trans htx)

end Inv
end TlkDbg

/-! ## The steps -/

/-- Where the length is one byte, the interrupt reads all of it. -/
theorem irq_len {p : ℕ → UInt8} {a : ℕ} (h : bytesToUint16 p a ≤ 255) :
    (p a).toNat = bytesToUint16 p a := by
  unfold bytesToUint16 at h ⊢
  omega

section Steps

variable {s : TlkDbg} {e : DebugEvent}

/-- The state behind a handler that hands the next record with the length `len`. -/
def TlkDbg.handOut (s : TlkDbg) (len : ℕ) : TlkDbg :=
  { s.prepareDmaData (s.fifo.slot s.fifo.rptr + 4) len with
    txDone := false
    uartSendIsBusy := true
    fifo := s.fifo.next }

theorem TlkDbg.handOut_eq {len : ℕ} (hlen : len ≠ 0) : s.handOut len =
    { s with
      txDone := false
      dma := some ⟨s.fifo.slot s.fifo.rptr + 4, len, []⟩
      uartSendIsBusy := true
      fifo := s.fifo.next } := by
  unfold handOut prepareDmaData
  rw [if_pos hlen]

/-- The handler of the main loop, when it finds the UART free and a record. -/
theorem debugHandler_eq (htx : s.txDone = false) (hfree : s.uartSendIsBusy = false)
    (hne : s.fifo.wptr ≠ s.fifo.rptr) :
    s.debugHandler = s.handOut (bytesToUint16 s.fifo.p (s.fifo.slot s.fifo.rptr)) := by
  unfold TlkDbg.debugHandler TlkDbg.handOut TlkDbg.prepareDmaData
  rw [if_pos ⟨by rw [hfree]; rfl, hne⟩]
  dsimp only
  split
  · rfl
  · rw [htx]

/-- The handler of the interrupt, when a transmission has ended and a record waits. -/
theorem uartIrqHandler_eq (htx : s.txDone = true) (hbusy : s.uartSendIsBusy = true)
    (hne : s.fifo.wptr ≠ s.fifo.rptr) :
    s.uartIrqHandler = s.handOut (s.fifo.p (s.fifo.slot s.fifo.rptr)).toNat := by
  unfold TlkDbg.uartIrqHandler TlkDbg.handOut TlkDbg.prepareDmaData
  simp only [if_pos htx, hbusy, if_true, if_pos hne]
  split
  · rfl
  · rfl

namespace TlkDbg.Inv

theorem txDone_of_free (h : s.Inv) (hfree : s.uartSendIsBusy = false) : s.txDone = false := by
  by_contra htx
  rw [Bool.not_eq_false] at htx
  exact Bool.false_ne_true (hfree.symm.trans (h.waits.mpr (Or.inr htx)))

/-- A record of which the UART was handed as many bytes as `len` says, in a state that is all
right. -/
theorem len_of_handOut (h : s.Inv) (hdma : s.dma = none) (hne : s.fifo.wptr ≠ s.fifo.rptr)
    {len : ℕ} (hok : (s.handOut len).Ok) :
    len ≠ 0 ∧ len = bytesToUint16 s.fifo.p (s.fifo.slot s.fifo.rptr) := by
  -- without a byte there is no interrupt to wait for
  have hpos : len ≠ 0 := by
    rintro rfl
    rcases hok.busy rfl with hsome | htx
    · exact hsome rfl
    · exact Bool.false_ne_true htx
  rw [TlkDbg.handOut_eq hpos] at hok
  obtain ⟨r', hr', -, hlen'⟩ := hok.sending _ rfl
  obtain ⟨r, hr, hlen, -, -⟩ := h.header hdma hne
  -- both are the record behind those that were sent
  have hsame : s.sent ++ [r'] = s.sent ++ [r] :=
    (List.prefix_of_prefix_length_le hr' hr (by simp)).eq_of_length (by simp)
  obtain rfl : r' = r := by simpa using hsame
  refine ⟨hpos, ?_⟩
  rw [hlen, ← hlen']
  exact (Nat.zero_add len).symm

end TlkDbg.Inv

/-- What a producer, both handlers and the UART keep. -/
theorem debugStep_inv (h : s.Inv) (hok : DebugStepOk s e) : (debugStep s e).Inv := by
  have hproducer : ∀ e' : DebugEvent, (∀ r, s.record e' = some r →
      s.fifo.used + s.inFlight < s.fifo.num ∧ r.image.length ≤ s.fifo.size) →
      (match s.record e' with
        | none => s
        | some r => { s.queue r with gDebugSerial := s.serialBehind e' }).Inv := by
    intro e' hrecord
    cases hr : s.record e' with
    | none => exact h
    | some r =>
      obtain ⟨hfree, hfits⟩ := hrecord r hr
      exact h.queue hfree hfits (len_le_of_record hr hfits)
  cases e with
  | sendStrData str data => exact hproducer _ hok
  | printf text => exact hproducer _ hok
  | write buf => exact hproducer _ hok
  | putOut n => exact h.putOut n
  | handler =>
    show s.debugHandler.Inv
    by_cases hc : s.uartSendIsBusy = false ∧ s.fifo.wptr ≠ s.fifo.rptr
    · obtain ⟨hfree, hne⟩ := hc
      rw [debugHandler_eq (h.txDone_of_free hfree) hfree hne, TlkDbg.handOut_eq (hok hfree hne)]
      exact h.hand (h.dma_of_free hfree) hne
    · unfold TlkDbg.debugHandler
      rw [if_neg (by simpa using hc)]
      exact h
  | irq =>
    show s.uartIrqHandler.Inv
    cases htx : s.txDone with
    | false =>
      unfold TlkDbg.uartIrqHandler
      rw [htx]
      exact h
    | true =>
      have hbusy : s.uartSendIsBusy = true := h.waits.mpr (Or.inr htx)
      have hdma := h.dma_of_txDone htx
      by_cases hne : s.fifo.wptr ≠ s.fifo.rptr
      · obtain ⟨hpos, hbyte⟩ := hok htx hne
        rw [uartIrqHandler_eq htx hbusy hne, irq_len hbyte, TlkDbg.handOut_eq hpos]
        exact h.hand hdma hne
      · unfold TlkDbg.uartIrqHandler
        simp only [if_pos htx, hbusy, if_true, if_neg hne]
        exact ⟨h.holds, h.conserve, h.region, by simp [hdma], fun _ => rfl, h.room, h.written⟩

/-- A step that does not meet the condition loses a record, hands a part of it, or waits for an
interrupt that does not come. -/
theorem debugStep_not_ok (h : s.Inv) (hok : (debugStep s e).Ok) : DebugStepOk s e := by
  have hproducer : ∀ e' : DebugEvent, (match s.record e' with
        | none => s
        | some r => { s.queue r with gDebugSerial := s.serialBehind e' } : TlkDbg).Ok →
      ∀ r, s.record e' = some r →
        s.fifo.used + s.inFlight < s.fifo.num ∧ r.image.length ≤ s.fifo.size := by
    intro e' hok' r hr
    rw [hr] at hok'
    have hroom : (s.queued ++ [r.payload]).length ≤ s.sent.length + s.fifo.num := hok'.room
    have hused := h.holds.used_eq
    have hle := h.holds.tracks.taken_le
    have htaken : s.taken = s.sent.length + s.inFlight := rfl
    rw [List.length_append, List.length_singleton] at hroom
    exact ⟨by omega, hok'.written⟩
  cases e with
  | sendStrData str data => exact hproducer _ hok
  | printf text => exact hproducer _ hok
  | write buf => exact hproducer _ hok
  | putOut n => trivial
  | handler =>
    intro hfree hne
    change s.debugHandler.Ok at hok
    rw [debugHandler_eq (h.txDone_of_free hfree) hfree hne] at hok
    exact (h.len_of_handOut (h.dma_of_free hfree) hne hok).1
  | irq =>
    intro htx hne
    change s.uartIrqHandler.Ok at hok
    rw [uartIrqHandler_eq htx (h.waits.mpr (Or.inr htx)) hne] at hok
    obtain ⟨hpos, hlen⟩ := h.len_of_handOut (h.dma_of_txDone htx) hne hok
    have hbyte := (s.fifo.p (s.fifo.slot s.fifo.rptr)).toNat_lt
    omega

theorem TlkDbg.Inv.hands (h : s.Inv) (hdma : s.dma = none) (hne : s.fifo.wptr ≠ s.fifo.rptr)
    (hpos : bytesToUint16 s.fifo.p (s.fifo.slot s.fifo.rptr) ≠ 0) :
    Hands s (s.handOut (bytesToUint16 s.fifo.p (s.fifo.slot s.fifo.rptr))) := by
  obtain ⟨r, hr, hlen, -, -⟩ := h.header hdma hne
  rw [TlkDbg.handOut_eq hpos]
  exact ⟨rfl, rfl, r, hr, _, by rw [hlen]⟩

/-- The last byte of a record is put out. -/
theorem TlkDbg.Inv.sends (h : s.Inv) {n : ℕ} {d : UartDma} (hd : s.dma = some d)
    (hn : d.left ≤ n) : (s.putOut n).txDone = true ∧
      ∃ r, s.sent ++ [r] <+: s.queued ∧ (s.putOut n).sent = s.sent ++ [r] := by
  have hout : s.putOut n = { s with
      dma := none
      txDone := true
      sent := s.sent ++ [d.out ++ bytesAt s.fifo.p d.addr d.left] } := by
    unfold TlkDbg.putOut
    rw [hd]
    exact if_pos hn
  have hsent := (h.putOut n).toOk.sent
  have hqueued : (s.putOut n).queued = s.queued := by rw [hout]
  rw [hqueued] at hsent
  rw [hout] at hsent ⊢
  exact ⟨rfl, _, hsent, rfl⟩

theorem queued_of_record {e : DebugEvent} (hstep : debugStep s e = match s.record e with
    | none => s
    | some r => { s.queue r with gDebugSerial := s.serialBehind e }) {r : LogRecord}
    (hr : s.record e = some r) : (debugStep s e).queued = s.queued ++ [r.payload] := by
  rw [hstep, hr]
  rfl

theorem drains (h : s.Inv) (hok : DebugStepOk s e) : Drains s e := by
  cases e with
  | handler =>
    intro hfree hne
    show Hands s s.debugHandler
    rw [debugHandler_eq (h.txDone_of_free hfree) hfree hne]
    exact h.hands (h.dma_of_free hfree) hne (hok hfree hne)
  | irq =>
    intro htx
    have hbusy : s.uartSendIsBusy = true := h.waits.mpr (Or.inr htx)
    by_cases hne : s.fifo.wptr ≠ s.fifo.rptr
    · obtain ⟨hpos, hbyte⟩ := hok htx hne
      have heq : s.uartIrqHandler =
          s.handOut (bytesToUint16 s.fifo.p (s.fifo.slot s.fifo.rptr)) := by
        rw [uartIrqHandler_eq htx hbusy hne, irq_len hbyte]
      refine ⟨fun _ => ?_, ?_⟩
      · show Hands s s.uartIrqHandler
        rw [heq]
        exact h.hands (h.dma_of_txDone htx) hne hpos
      · have hfree := debugHandler_eq
          (s := { s with uartSendIsBusy := false, txDone := false }) rfl rfl hne
        show s.uartIrqHandler = TlkDbg.debugHandler _
        rw [heq, hfree, TlkDbg.handOut_eq hpos, TlkDbg.handOut_eq hpos]
    · refine ⟨fun hne' => absurd hne' hne, ?_⟩
      show s.uartIrqHandler = TlkDbg.debugHandler _
      unfold TlkDbg.uartIrqHandler TlkDbg.debugHandler
      simp only [if_pos htx, hbusy, if_true, if_neg hne]
      rw [if_neg fun hc => hne hc.2]
  | putOut n => exact fun d => h.sends
  | sendStrData str data => exact fun r => queued_of_record rfl
  | printf text => exact fun r => queued_of_record rfl
  | write buf => exact fun r => queued_of_record rfl

end Steps

/-- In every order of records, handlers, interrupts and bytes put out, the UART sends each record
once, in order and with its length, exactly if no record is queued to a slot that is too small for
it or not free yet, and the handlers find no empty record, nor the interrupt one of more than 255
bytes. Then every record that waits is handed over as soon as a handler finds the UART free, is sent
when it is put out, and both handlers do the same. -/
theorem uart_log (f : MyFifo) (serial : ℕ) (events : List DebugEvent) :
    (Machine.Always debugStep TlkDbg.Ok (.debugInit f serial) events ↔
        Machine.Along debugStep DebugStepOk (.debugInit f serial) events) ∧
      (Machine.Along debugStep DebugStepOk (.debugInit f serial) events →
        Machine.Along debugStep Drains (.debugInit f serial) events) := by
  have hinit := TlkDbg.Inv.debugInit f serial
  have hstep : ∀ s e, TlkDbg.Inv s → s.Ok → True → ((debugStep s e).Ok ↔ DebugStepOk s e) :=
    fun s e hs _ _ => ⟨debugStep_not_ok hs, fun hok => (debugStep_inv hs hok).toOk⟩
  refine ⟨Machine.always_iff_along hstep (fun s e hs hs' _ hok => ?_)
    (Machine.along_true _ events) hinit hinit.toOk, fun hok => ?_⟩
  · exact debugStep_inv hs ((hstep s e hs hs' trivial).mp hok)
  · exact Machine.along_of_invariant (fun _ _ => debugStep_inv) (fun _ _ => drains) hinit hok

/-- Of the second record of 260 bytes, which the interrupt finds, the UART is handed 4 bytes. A
record that the handler has taken is overwritten before it is sent. And behind a record without a
byte, the handlers wait for an interrupt that does not come. -/
theorem uart_log_counterexample :
    ¬ Machine.Always debugStep TlkDbg.Ok (.debugInit printFifo 0)
        [.write (.replicate 260 0x41), .write (.replicate 260 0x42), .handler, .putOut 260, .irq,
          .putOut 4] ∧
      (Machine.run debugStep (.debugInit printFifo 0)
        (.write [0x41] :: .handler :: List.replicate 16 (.write [0x42]) ++ [.putOut 1])).sent =
          [[0x42]] ∧
      ¬ Machine.Always debugStep TlkDbg.Ok (.debugInit printFifo 0)
        [.write [], .handler, .write [0x41]] := by
  refine ⟨fun h => ?_, by decide +kernel, fun h => ?_⟩
  · have hprefix := h.last.sent.map List.length
    have hsent : ((Machine.run debugStep (.debugInit printFifo 0)
        [.write (.replicate 260 0x41), .write (.replicate 260 0x42), .handler, .putOut 260, .irq,
          .putOut 4]).sent.map List.length) = [260, 4] := by decide +kernel
    have hqueued : ((Machine.run debugStep (.debugInit printFifo 0)
        [.write (.replicate 260 0x41), .write (.replicate 260 0x42), .handler, .putOut 260, .irq,
          .putOut 4]).queued.map List.length) = [260, 260] := by decide +kernel
    rw [hsent, hqueued] at hprefix
    exact absurd hprefix (by decide)
  · rcases h.last.busy (by decide +kernel) with hdma | htx
    · exact hdma (by decide +kernel)
    · exact absurd htx (by decide +kernel)

end TlBleSdk.Debug
