import TlBleSdk.Hci.Fifo
import TlBleSdk.Lib.Run

/-!
# The H4 transmitter

`HCI_TxHandler` of `hci_tr.c` over `ext_hci_uart.c` and `uart_send_dma`. Two FIFOs of the
stack feed one DMA buffer; a slot is a 16-bit length with the packet behind it. The busy flag
goes down before the DMA is started and up in the interrupt that follows a transfer. That
interrupt touches nothing else, and while no transfer runs it does not come, so a call of the
handler is one step.

The memory `uartTxBuf` goes on behind the buffer of that name: the assertion on the length
stands behind the copy and is empty in this build.
-/

namespace TlBleSdk.Hci

open Machine

/-- `hci_type_t`, as far as the transmitter uses it. -/
inductive HciType where
  | aclData
  | isoData
  deriving DecidableEq

/-- The size of `uartTxBuf`. -/
def uartTxBufSize : ℕ := 4 + hciTrTxBufSize

/-- The length at the start of a slot. -/
def txLen (slot : List UInt8) : ℕ := bytesToUint16 (mem slot) 0

/-- The packet of a slot: as many bytes as its length says. -/
def txPacket (slot : List UInt8) : List UInt8 := bytesAt (mem slot) 2 (txLen slot)

@[simp] theorem length_txPacket (slot : List UInt8) : (txPacket slot).length = txLen slot :=
  length_bytesAt _ _ _

/-- The transmitter: `bltHci_outIsofifo` and `bltHci_txfifo` are `fifo .isoData` and
`fifo .aclData`, `dma` is the length of the transfer that runs. As history, the packets that
were queued, those that were handed to the UART, those that it has sent, and the lengths of
the copies into the buffer. -/
structure TrTx where
  uartTxBuf : ℕ → UInt8
  fifo : HciType → HciFifo
  uartDmaSendFlag : Bool
  dma : Option ℕ
  queued : HciType → List (List UInt8)
  handed : List (HciType × List UInt8)
  sent : List (List UInt8)
  copies : List ℕ

namespace TrTx

/-- `uart_send_dma`: the channel is stopped, and started if there is something to send. -/
def uartSendDma (s : TrTx) (len : ℕ) : Bool × TrTx :=
  if len ≠ 0 then (true, { s with dma := some len }) else (false, { s with dma := none })

/-- `ext_hci_uartSendData`. -/
def extHciUartSendData (s : TrTx) (len : ℕ) : Bool × TrTx :=
  { s with uartDmaSendFlag := false }.uartSendDma len

/-- `ext_hci_getTxCompleteDone`. -/
def extHciGetTxCompleteDone (s : TrTx) : Bool := s.uartDmaSendFlag

/-- `memcpy(pBuf, p, len)`. -/
def copy (s : TrTx) (data : List UInt8) : TrTx :=
  { s with uartTxBuf := memcpy s.uartTxBuf 0 data, copies := s.copies ++ [data.length] }

/-- The read pointer of a FIFO moves on behind a packet that the UART took. -/
def taken (s : TrTx) (type : HciType) (len : ℕ) : TrTx :=
  { s with
    fifo := Function.update s.fifo type ((s.fifo type).drop 1)
    handed := s.handed ++ [(type, bytes s.uartTxBuf len)] }

/-- The second half of `HCI_TxHandler`, for the slot `p`. -/
def sendSlot (s : TrTx) (type : HciType) (p : List UInt8) : TrTx :=
  let len := txLen p
  let r := (s.copy (bytesAt (mem p) 2 len)).extHciUartSendData len
  if r.1 then r.2.taken type len else r.2

/-- `HCI_TxHandler`. -/
def hciTxHandler (s : TrTx) : TrTx :=
  if !s.extHciGetTxCompleteDone then s
  else if (s.fifo .isoData).wptr ≠ (s.fifo .isoData).rptr then
    s.sendSlot .isoData (s.fifo .isoData).front
  else if (s.fifo .aclData).wptr ≠ (s.fifo .aclData).rptr then
    s.sendSlot .aclData (s.fifo .aclData).front
  else s

/-- The DMA has read the buffer to its end. -/
def transferred (s : TrTx) (len : ℕ) : TrTx :=
  { s with dma := none, sent := s.sent ++ [bytes s.uartTxBuf len] }

/-- `ext_hci_irq_handler` for a transfer that is done. -/
def extHciIrqHandler (s : TrTx) : TrTx := { s with uartDmaSendFlag := true }

/-- The stack puts a packet into a FIFO. -/
def queue (s : TrTx) (type : HciType) (slot : List UInt8) : TrTx :=
  { s with
    fifo := Function.update s.fifo type ((s.fifo type).push slot)
    queued := Function.update s.queued type (s.queued type ++ [txPacket slot]) }

/-- The slot has room for its packet, and the FIFO for the slot. -/
def Fits (f : HciFifo) (slot : List UInt8) : Prop := txLen slot + 2 ≤ f.size ∧ f.used < f.num

instance (f : HciFifo) (slot : List UInt8) : Decidable (Fits f slot) :=
  inferInstanceAs (Decidable (_ ∧ _))

/-- What can happen: the stack queues a packet, the main loop calls the handler, a transfer
ends. -/
inductive Event where
  | queue (type : HciType) (slot : List UInt8)
  | txHandler
  | txDone

/-- One event. The stack queues only what fits, and only a transfer that runs can end. -/
def step (s : TrTx) : Event → TrTx
  | .queue type slot => if Fits (s.fifo type) slot then s.queue type slot else s
  | .txHandler => s.hciTxHandler
  | .txDone =>
    match s.dma with
    | some len => (s.transferred len).extHciIrqHandler
    | none => s

/-- Two empty FIFOs and an idle UART. -/
def start (isoSize aclSize isoExp aclExp : ℕ) (hIso : isoExp ≤ 7) (hAcl : aclExp ≤ 7) :
    TrTx where
  uartTxBuf _ := 0
  fifo
    | .isoData => .empty isoSize isoExp hIso
    | .aclData => .empty aclSize aclExp hAcl
  uartDmaSendFlag := true
  dma := none
  queued _ := []
  handed := []
  sent := []
  copies := []

/-! ## What is wanted -/

/-- The packets of one FIFO that were handed to the UART. -/
def handedOf (s : TrTx) (type : HciType) : List (List UInt8) :=
  (s.handed.filter fun h => h.1 = type).map Prod.snd

/-- The slots of a FIFO that wait. -/
def waiting (s : TrTx) (type : HciType) : List (List UInt8) :=
  (List.range (s.fifo type).used).map fun k =>
    (s.fifo type).p ((s.fifo type).slotIdx ((s.fifo type).rptr + k))

/-- The packet that the DMA reads from the buffer. -/
def underWay (s : TrTx) : List (List UInt8) :=
  match s.dma with
  | some len => [bytes s.uartTxBuf len]
  | none => []

/-- `n` times the end of a transfer and a call of the handler. -/
def rounds (n : ℕ) : List Event := (List.replicate n [Event.txDone, Event.txHandler]).flatten

/-- The number of packets that wait. -/
def backlog (s : TrTx) : ℕ := (s.fifo .isoData).used + (s.fifo .aclData).used

/-- In a state every queued packet was handed over once, in order and as it was queued, or
waits; the UART has sent what it was handed, up to the transfer that runs; no copy exceeded
the buffer; and where the transmitter is busy a transfer runs. -/
structure Sound (s : TrTx) : Prop where
  once : ∀ type, s.handedOf type ++ (s.waiting type).map txPacket = s.queued type
  sent : s.sent ++ s.underWay = s.handed.map Prod.snd
  copies : ∀ n ∈ s.copies, n ≤ uartTxBufSize
  busy : s.uartDmaSendFlag = false → s.dma ≠ none

/-- The state is sound, and a round for each packet that waits hands it over soundly. -/
structure Delivers (s : TrTx) : Prop extends Sound s where
  drained : ∀ type, (run step s (rounds s.backlog)).waiting type = []
  drainedSound : (run step s (rounds s.backlog)).Sound

/-- A step leaves the buffer alone while a transfer runs, and hands over a packet of the ACL
FIFO only if none of the ISO FIFO waits. -/
structure Orderly (s : TrTx) (e : Event) : Prop where
  buffer : s.dma ≠ none → (s.step e).uartTxBuf = s.uartTxBuf
  isoFirst : ∀ data, (s.step e).handed = s.handed ++ [(.aclData, data)] →
    s.waiting .isoData = []

/-- A packet that joins a FIFO has a length that is not zero and not above the size of the
transmit buffer. -/
def LenOk (s : TrTx) : Event → Prop
  | .queue type slot =>
    Fits (s.fifo type) slot → 0 < txLen slot ∧ txLen slot ≤ uartTxBufSize
  | .txHandler => True
  | .txDone => True

/-! ## One step -/

/-- The handler sends from this FIFO. -/
structure Sends (s : TrTx) (type : HciType) : Prop where
  idle : s.uartDmaSendFlag = true
  nonempty : (s.fifo type).wptr ≠ (s.fifo type).rptr
  isoFirst : type = .aclData → (s.fifo .isoData).wptr = (s.fifo .isoData).rptr

/-- A call that sends nothing, because nothing waits or the transmitter is busy, is no
change; the others send the oldest packet of a FIFO. -/
theorem hciTxHandler_cases (s : TrTx) :
    (s.hciTxHandler = s ∧ (s.uartDmaSendFlag = true →
      ∀ type, (s.fifo type).wptr = (s.fifo type).rptr)) ∨
    ∃ type, s.Sends type ∧ s.hciTxHandler = s.sendSlot type (s.fifo type).front := by
  unfold hciTxHandler extHciGetTxCompleteDone
  cases hflag : s.uartDmaSendFlag with
  | false => exact .inl ⟨rfl, nofun⟩
  | true =>
    simp only [Bool.not_true, Bool.false_eq_true, ↓reduceIte]
    by_cases hiso : (s.fifo .isoData).wptr = (s.fifo .isoData).rptr
    · rw [if_neg (not_not_intro hiso)]
      by_cases hacl : (s.fifo .aclData).wptr = (s.fifo .aclData).rptr
      · rw [if_neg (not_not_intro hacl)]
        refine .inl ⟨rfl, fun _ type => ?_⟩
        cases type with
        | aclData => exact hacl
        | isoData => exact hiso
      · rw [if_pos hacl]
        exact .inr ⟨.aclData, ⟨hflag, hacl, fun _ => hiso⟩, rfl⟩
    · rw [if_pos hiso]
      exact .inr ⟨.isoData, ⟨hflag, hiso, nofun⟩, rfl⟩

/-- A packet that the DMA takes. -/
def sends (s : TrTx) (type : HciType) (p : List UInt8) : TrTx where
  uartTxBuf := memcpy s.uartTxBuf 0 (txPacket p)
  fifo := Function.update s.fifo type ((s.fifo type).drop 1)
  uartDmaSendFlag := false
  dma := some (txLen p)
  queued := s.queued
  handed := s.handed ++ [(type, txPacket p)]
  sent := s.sent
  copies := s.copies ++ [txLen p]

/-- A packet that the DMA refuses. -/
def refuses (s : TrTx) (p : List UInt8) : TrTx :=
  { s with
    uartTxBuf := memcpy s.uartTxBuf 0 (txPacket p)
    uartDmaSendFlag := false
    dma := none
    copies := s.copies ++ [txLen p] }

theorem bytes_memcpy_txPacket (p : ℕ → UInt8) (slot : List UInt8) :
    bytes (memcpy p 0 (txPacket slot)) (txLen slot) = txPacket slot := by
  have h := bytes_memcpy_self p (txPacket slot)
  rwa [length_txPacket] at h

/-- The DMA refuses a packet of length zero, and only that. -/
theorem sendSlot_eq (s : TrTx) (type : HciType) (p : List UInt8) :
    s.sendSlot type p = if txLen p = 0 then s.refuses p else s.sends type p := by
  have hcopy : s.copy (bytesAt (mem p) 2 (txLen p)) =
      { s with
        uartTxBuf := memcpy s.uartTxBuf 0 (txPacket p)
        copies := s.copies ++ [txLen p] } := by
    rw [copy, length_bytesAt, txPacket]
  simp only [sendSlot, hcopy, extHciUartSendData, uartSendDma]
  by_cases h : txLen p = 0
  · rw [if_neg (not_not_intro h), if_pos h]
    rfl
  · rw [if_pos h, if_neg h]
    simp only [taken, sends, bytes_memcpy_txPacket, if_true]

/-- What a step can do. -/
theorem step_cases (s : TrTx) (e : Event) :
    s.step e = s ∨
    (∃ type slot, e = .queue type slot ∧ Fits (s.fifo type) slot ∧
      s.step e = s.queue type slot) ∨
    (∃ type, s.Sends type ∧ txLen (s.fifo type).front = 0 ∧
      s.step e = s.refuses (s.fifo type).front) ∨
    (∃ type, s.Sends type ∧ txLen (s.fifo type).front ≠ 0 ∧
      s.step e = s.sends type (s.fifo type).front) ∨
    ∃ len, s.dma = some len ∧ s.step e = (s.transferred len).extHciIrqHandler := by
  cases e with
  | queue type slot =>
    unfold step
    by_cases h : Fits (s.fifo type) slot
    · exact .inr (.inl ⟨type, slot, rfl, h, if_pos h⟩)
    · exact .inl (if_neg h)
  | txHandler =>
    obtain ⟨heq, -⟩ | ⟨type, hsends, heq⟩ := s.hciTxHandler_cases
    · exact .inl heq
    · rw [sendSlot_eq] at heq
      by_cases hlen : txLen (s.fifo type).front = 0
      · rw [if_pos hlen] at heq
        exact .inr (.inr (.inl ⟨type, hsends, hlen, heq⟩))
      · rw [if_neg hlen] at heq
        exact .inr (.inr (.inr (.inl ⟨type, hsends, hlen, heq⟩)))
  | txDone =>
    cases hdma : s.dma with
    | none => exact .inl (by simp only [step, hdma])
    | some len =>
      exact .inr (.inr (.inr (.inr ⟨len, rfl, by simp only [step, hdma]⟩)))

/-! ## What holds in every state -/

/-- What the transmitter keeps whatever is queued. The copies are as long as queued packets,
what was handed over is not empty and was copied, and only a packet of length zero leaves the
transmitter busy without a transfer. -/
structure Inv (s : TrTx) : Prop where
  once : ∀ type, ∃ q, (s.fifo type).Waits q ∧
    s.handedOf type ++ q.map txPacket = s.queued type
  sent : s.sent ++ s.underWay = s.handed.map Prod.snd
  idle : s.uartDmaSendFlag = true → s.dma = none
  copies : ∀ n ∈ s.copies, ∃ type, ∃ data ∈ s.queued type, data.length = n
  handed : ∀ h ∈ s.handed, h.2.length ≠ 0 ∧ h.2.length ∈ s.copies
  busy : s.uartDmaSendFlag = false → s.dma ≠ none ∨ ∃ type, ∃ data ∈ s.queued type,
    data.length = 0

variable {s : TrTx} {type : HciType}

/-- What a FIFO from which the handler sends holds. -/
theorem Inv.front (h : s.Inv) (hsends : s.Sends type) :
    ∃ q, (s.fifo type).Waits ((s.fifo type).front :: q) ∧
      s.handedOf type ++ txPacket (s.fifo type).front :: q.map txPacket = s.queued type := by
  obtain ⟨q, hq, honce⟩ := h.once type
  cases q with
  | nil => exact absurd (hq.nil_iff.mpr rfl) hsends.nonempty
  | cons p q =>
    rw [hq.front_eq]
    exact ⟨q, hq, honce⟩

theorem Inv.front_mem (h : s.Inv) (hsends : s.Sends type) :
    txPacket (s.fifo type).front ∈ s.queued type := by
  obtain ⟨q, -, honce⟩ := h.front hsends
  rw [← honce]
  simp

theorem handedOf_sends (s : TrTx) (type type' : HciType) (p : List UInt8) :
    (s.sends type p).handedOf type' =
      if type = type' then s.handedOf type' ++ [txPacket p] else s.handedOf type' := by
  unfold handedOf sends
  by_cases h : type = type'
  · simp [h]
  · simp [h]

/-- What was queued stays queued. -/
theorem mem_queue {type' : HciType} {slot data : List UInt8} (h : data ∈ s.queued type') :
    data ∈ (s.queue type slot).queued type' := by
  show data ∈ Function.update s.queued type _ type'
  by_cases heq : type' = type
  · rw [heq, Function.update_self]
    exact List.mem_append_left _ (heq ▸ h)
  · rwa [Function.update_of_ne heq]

theorem Inv.queue (h : s.Inv) {slot : List UInt8} (hfits : Fits (s.fifo type) slot) :
    (s.queue type slot).Inv where
  once := by
    intro type'
    obtain ⟨q, hq, honce⟩ := h.once type'
    show ∃ q, (Function.update s.fifo type _ type').Waits q ∧
      s.handedOf type' ++ q.map txPacket = Function.update s.queued type _ type'
    by_cases heq : type' = type
    · subst heq
      rw [Function.update_self, Function.update_self, ← honce]
      exact ⟨q ++ [slot], hq.push hfits.2 slot, by simp⟩
    · rw [Function.update_of_ne heq, Function.update_of_ne heq]
      exact ⟨q, hq, honce⟩
  sent := h.sent
  idle := h.idle
  copies n hn := by
    obtain ⟨type', data, hdata, hlen⟩ := h.copies n hn
    exact ⟨type', data, mem_queue hdata, hlen⟩
  handed := h.handed
  busy hflag := by
    obtain hdma | ⟨type', data, hdata, hlen⟩ := h.busy hflag
    · exact .inl hdma
    · exact .inr ⟨type', data, mem_queue hdata, hlen⟩

/-- A refused packet stays in its FIFO. -/
theorem Inv.refuses (h : s.Inv) (hsends : s.Sends type)
    (hlen : txLen (s.fifo type).front = 0) : (s.refuses (s.fifo type).front).Inv where
  once := h.once
  sent := by
    have hsent := h.sent
    rw [underWay, h.idle hsends.idle] at hsent
    exact hsent
  idle := nofun
  -- The copy is made before `uart_dma_send` looks at the length.
  copies n hn := by
    rcases List.mem_append.mp hn with hn | hn
    · exact h.copies n hn
    · refine ⟨type, _, h.front_mem hsends, ?_⟩
      rw [List.mem_singleton.mp hn, length_txPacket]
  handed p hp := ⟨(h.handed p hp).1, List.mem_append_left _ (h.handed p hp).2⟩
  busy _ := .inr ⟨type, _, h.front_mem hsends, (length_txPacket _).trans hlen⟩

theorem Inv.sends (h : s.Inv) (hsends : s.Sends type)
    (hlen : txLen (s.fifo type).front ≠ 0) :
    (s.sends type (s.fifo type).front).Inv where
  once := by
    intro type'
    rw [handedOf_sends]
    show ∃ q, (Function.update s.fifo type _ type').Waits q ∧ _ = s.queued type'
    by_cases heq : type' = type
    · subst heq
      obtain ⟨q, hq, honce⟩ := h.front hsends
      rw [Function.update_self, if_pos rfl, ← honce]
      exact ⟨q, hq.drop, by simp⟩
    · rw [Function.update_of_ne heq, if_neg (Ne.symm heq)]
      exact h.once type'
  sent := by
    have hsent := h.sent
    rw [underWay, h.idle hsends.idle] at hsent
    show s.sent ++ [bytes (memcpy s.uartTxBuf 0 _) _] = (s.handed ++ [_]).map Prod.snd
    rw [bytes_memcpy_txPacket, List.map_append, ← hsent]
    simp
  idle := nofun
  copies n hn := by
    rcases List.mem_append.mp hn with hn | hn
    · exact h.copies n hn
    · refine ⟨type, _, h.front_mem hsends, ?_⟩
      rw [List.mem_singleton.mp hn, length_txPacket]
  handed p hp := by
    rcases List.mem_append.mp hp with hp | hp
    · exact ⟨(h.handed p hp).1, List.mem_append_left _ (h.handed p hp).2⟩
    · rw [List.mem_singleton.mp hp, length_txPacket]
      exact ⟨hlen, List.mem_append_right _ (List.mem_singleton.mpr rfl)⟩
  busy _ := .inl nofun

theorem Inv.txDone (h : s.Inv) {len : ℕ} (hdma : s.dma = some len) :
    (s.transferred len).extHciIrqHandler.Inv where
  once := h.once
  sent := by
    have hsent := h.sent
    rw [underWay, hdma] at hsent
    show (s.sent ++ [bytes s.uartTxBuf len]) ++ [] = _
    rw [List.append_nil]
    exact hsent
  idle _ := rfl
  copies := h.copies
  handed := h.handed
  busy := nofun

theorem inv_step (h : s.Inv) (e : Event) : (s.step e).Inv := by
  obtain heq | ⟨type, slot, -, hfits, heq⟩ | ⟨type, hsends, hlen, heq⟩ |
    ⟨type, hsends, hlen, heq⟩ | ⟨len, hdma, heq⟩ := s.step_cases e
  all_goals rw [heq]
  · exact h
  · exact h.queue hfits
  · exact h.refuses hsends hlen
  · exact h.sends hsends hlen
  · exact h.txDone hdma

/-- Only the stack queues. -/
theorem queued_step (s : TrTx) {e : Event} (he : ∀ type slot, e ≠ .queue type slot) :
    (s.step e).queued = s.queued := by
  obtain heq | ⟨type, slot, hqueue, -, -⟩ | ⟨type, -, -, heq⟩ | ⟨type, -, -, heq⟩ |
    ⟨len, -, heq⟩ := s.step_cases e
  · rw [heq]
  · exact absurd hqueue (he type slot)
  · rw [heq]
    rfl
  · rw [heq]
    rfl
  · rw [heq]
    rfl

theorem queued_txHandler (s : TrTx) : (s.step .txHandler).queued = s.queued :=
  s.queued_step fun _ _ h => Event.noConfusion h

theorem queued_txDone (s : TrTx) : (s.step .txDone).queued = s.queued :=
  s.queued_step fun _ _ h => Event.noConfusion h

theorem waiting_eq {q : List (List UInt8)} (h : (s.fifo type).Waits q) : s.waiting type = q :=
  h.eq_window

theorem waiting_eq_nil (h : (s.fifo type).used = 0) : s.waiting type = [] := by
  rw [waiting, h]
  rfl

/-! ## The rounds that drain the FIFOs -/

/-- All queued packets have a length that is not zero and fit the transmit buffer. -/
def QueuedOk (s : TrTx) : Prop :=
  ∀ type, ∀ data ∈ s.queued type, 0 < data.length ∧ data.length ≤ uartTxBufSize

theorem Inv.sound (h : s.Inv) (hok : s.QueuedOk) : s.Sound where
  once type := by
    obtain ⟨q, hq, honce⟩ := h.once type
    rwa [waiting_eq hq]
  sent := h.sent
  copies n hn := by
    obtain ⟨type, data, hdata, rfl⟩ := h.copies n hn
    exact (hok type data hdata).2
  busy hflag := by
    obtain hdma | ⟨type, data, hdata, hlen⟩ := h.busy hflag
    · exact hdma
    · exact absurd hlen (hok type data hdata).1.ne'

/-- Behind the end of a transfer the transmitter is idle. -/
theorem flag_txDone (h : s.Sound) : (s.step .txDone).uartDmaSendFlag = true := by
  cases hdma : s.dma with
  | none =>
    simp only [step, hdma]
    by_contra hflag
    exact h.busy (Bool.eq_false_iff.mpr hflag) hdma
  | some len =>
    simp only [step, hdma]
    rfl

theorem fifo_txDone (s : TrTx) : (s.step .txDone).fifo = s.fifo := by
  cases hdma : s.dma with
  | none => simp only [step, hdma]
  | some len =>
    simp only [step, hdma]
    rfl

/-- An idle transmitter hands over one of the packets that wait. -/
theorem backlog_txHandler (h : s.Inv) (hok : s.QueuedOk) (hflag : s.uartDmaSendFlag = true) :
    (s.step .txHandler).backlog = s.backlog - 1 := by
  obtain ⟨heq, hempty⟩ | ⟨type, hsends, heq⟩ := s.hciTxHandler_cases
  · have hused : ∀ type, (s.fifo type).used = 0 := by
      intro type
      obtain ⟨q, hq, -⟩ := h.once type
      rw [hq.used_eq, hq.nil_iff.mp (hempty hflag type), List.length_nil]
    have hstep : s.step .txHandler = s := heq
    rw [hstep, backlog, hused, hused]
  · -- An empty packet would be refused, and would keep the transmitter busy.
    have hlen : txLen (s.fifo type).front ≠ 0 := by
      have := (hok type _ (h.front_mem hsends)).1
      rw [length_txPacket] at this
      exact this.ne'
    obtain ⟨q, hq, -⟩ := h.front hsends
    have hused := hq.used_eq
    have hused' := hq.drop.used_eq
    rw [List.length_cons] at hused
    have hstep : s.step .txHandler = s.sends type (s.fifo type).front := by
      rw [step, heq, sendSlot_eq, if_neg hlen]
    rw [hstep]
    cases type with
    | aclData =>
      show (s.fifo .isoData).used + ((s.fifo .aclData).drop 1).used = _
      unfold backlog
      omega
    | isoData =>
      show ((s.fifo .isoData).drop 1).used + (s.fifo .aclData).used = _
      unfold backlog
      omega

theorem rounds_succ (n : ℕ) : rounds (n + 1) = .txDone :: .txHandler :: rounds n := rfl

theorem queued_rounds (s : TrTx) (n : ℕ) : (run step s (rounds n)).queued = s.queued := by
  induction n generalizing s with
  | zero => rfl
  | succ n ih =>
    rw [rounds_succ, run_cons, run_cons, ih, queued_txHandler, queued_txDone]

theorem inv_run (h : s.Inv) (es : List Event) : (run step s es).Inv := by
  have hstep : ∀ s e, Inv s → True → Inv (step s e) := fun _ e h _ => inv_step h e
  exact run_invariant hstep h (along_true s es)

/-- As many rounds as packets wait leave none. -/
theorem backlog_rounds (h : s.Inv) (hok : s.QueuedOk) {n : ℕ} (hn : s.backlog ≤ n) :
    (run step s (rounds n)).backlog = 0 := by
  induction n generalizing s with
  | zero => exact Nat.le_zero.mp hn
  | succ n ih =>
    have hdone : (s.step .txDone).QueuedOk := by
      rw [QueuedOk, queued_txDone]
      exact hok
    have hhandler : ((s.step .txDone).step .txHandler).QueuedOk := by
      rw [QueuedOk, queued_txHandler]
      exact hdone
    have hbacklog := backlog_txHandler (inv_step h .txDone) hdone (flag_txDone (h.sound hok))
    have hsame : (s.step .txDone).backlog = s.backlog := by rw [backlog, fifo_txDone, backlog]
    rw [rounds_succ, run_cons, run_cons]
    exact ih (inv_step (inv_step h _) _) hhandler (by omega)

/-- What is wanted of a state holds exactly if what was queued is as it should be: a packet
that is drained was copied, and was not empty. -/
theorem delivers_iff (h : s.Inv) : s.Delivers ↔ s.QueuedOk := by
  have hinv := inv_run h (rounds s.backlog)
  constructor
  · -- What was queued is what the drained transmitter handed over, and that was copied.
    intro hd type data hdata
    have honce := hd.drainedSound.once type
    rw [hd.drained type, List.map_nil, List.append_nil, queued_rounds] at honce
    rw [← honce, handedOf] at hdata
    obtain ⟨p, hp, rfl⟩ := List.mem_map.mp hdata
    obtain ⟨hne, hcopied⟩ := hinv.handed p (List.mem_of_mem_filter hp)
    exact ⟨Nat.pos_of_ne_zero hne, hd.drainedSound.copies _ hcopied⟩
  · intro hok
    have hok' : (run step s (rounds s.backlog)).QueuedOk := by
      rw [QueuedOk, queued_rounds]
      exact hok
    have hbacklog := backlog_rounds h hok (Nat.le_refl _)
    rw [backlog, Nat.add_eq_zero_iff] at hbacklog
    refine ⟨h.sound hok, fun type => waiting_eq_nil ?_, hinv.sound hok'⟩
    cases type with
    | aclData => exact hbacklog.2
    | isoData => exact hbacklog.1

/-- A step keeps the queued packets in order exactly if the packet that joins is. -/
theorem queuedOk_step_iff (hok : s.QueuedOk) (e : Event) :
    (s.step e).QueuedOk ↔ s.LenOk e := by
  cases e with
  | queue type slot =>
    simp only [LenOk, step]
    by_cases hfits : Fits (s.fifo type) slot
    · rw [if_pos hfits]
      constructor
      · intro h _
        have hmem : txPacket slot ∈ (s.queue type slot).queued type := by
          show _ ∈ Function.update s.queued type _ type
          rw [Function.update_self]
          exact List.mem_append_right _ (List.mem_singleton.mpr rfl)
        have := h type _ hmem
        rwa [length_txPacket] at this
      · -- Only the FIFO of `type` has a packet more.
        intro hlen type' data hdata
        change data ∈ Function.update s.queued type _ type' at hdata
        by_cases heq : type' = type
        · subst heq
          rw [Function.update_self] at hdata
          rcases List.mem_append.mp hdata with hdata | hdata
          · exact hok _ data hdata
          · rw [List.mem_singleton.mp hdata, length_txPacket]
            exact hlen hfits
        · rw [Function.update_of_ne heq] at hdata
          exact hok _ data hdata
    · rw [if_neg hfits]
      exact iff_of_true hok fun h => absurd h hfits
  | txHandler =>
    rw [QueuedOk, queued_txHandler]
    exact iff_of_true hok trivial
  | txDone =>
    rw [QueuedOk, queued_txDone]
    exact iff_of_true hok trivial

theorem isoFirst_of_handed {e : Event} (h : (s.step e).handed = s.handed)
    (data : List UInt8) (hdata : (s.step e).handed = s.handed ++ [(.aclData, data)]) :
    s.waiting .isoData = [] := by
  rw [h] at hdata
  simp at hdata

/-- Every step is orderly: the buffer is written only by an idle transmitter, and the ACL FIFO
has its turn when the ISO FIFO is empty. -/
theorem Inv.orderly (h : s.Inv) (e : Event) : s.Orderly e := by
  obtain heq | ⟨type, slot, -, -, heq⟩ | ⟨type, hsends, -, heq⟩ | ⟨type, hsends, -, heq⟩ |
    ⟨len, -, heq⟩ := s.step_cases e
  · exact ⟨fun _ => by rw [heq], isoFirst_of_handed (by rw [heq])⟩
  · exact ⟨fun _ => by rw [heq]; rfl, isoFirst_of_handed (by rw [heq]; rfl)⟩
  · exact ⟨fun hdma => absurd (h.idle hsends.idle) hdma, isoFirst_of_handed (by rw [heq]; rfl)⟩
  · refine ⟨fun hdma => absurd (h.idle hsends.idle) hdma, fun data hdata => ?_⟩
    rw [heq] at hdata
    have hlast := List.append_cancel_left hdata
    have htype : type = .aclData := congrArg Prod.fst (List.cons.inj hlast).1
    obtain ⟨q, hq, -⟩ := h.once .isoData
    rw [waiting_eq hq]
    exact hq.nil_iff.mp (hsends.isoFirst htype)
  · exact ⟨fun _ => by rw [heq]; rfl, isoFirst_of_handed (by rw [heq]; rfl)⟩

theorem inv_start (isoSize aclSize isoExp aclExp : ℕ) (hIso : isoExp ≤ 7)
    (hAcl : aclExp ≤ 7) : (start isoSize aclSize isoExp aclExp hIso hAcl).Inv where
  once type := by
    cases type with
    | aclData => exact ⟨[], HciFifo.waits_empty aclSize aclExp hAcl, rfl⟩
    | isoData => exact ⟨[], HciFifo.waits_empty isoSize isoExp hIso, rfl⟩
  sent := rfl
  idle _ := rfl
  copies := nofun
  handed := nofun
  busy := nofun

/-- In a run every state delivers and every step is orderly exactly if all packets that join
the FIFOs have lengths from 1 to the size of the transmit buffer. -/
theorem txHandler_delivers_iff (isoSize aclSize isoExp aclExp : ℕ) (hIso : isoExp ≤ 7)
    (hAcl : aclExp ≤ 7) (es : List Event) :
    Always step Delivers (start isoSize aclSize isoExp aclExp hIso hAcl) es ∧
        Along step Orderly (start isoSize aclSize isoExp aclExp hIso hAcl) es ↔
      Along step LenOk (start isoSize aclSize isoExp aclExp hIso hAcl) es := by
  have hinv := inv_start isoSize aclSize isoExp aclExp hIso hAcl
  have hkeep : ∀ s e, Inv s → True → Inv (step s e) := fun _ e h _ => inv_step h e
  have horderly : Along step Orderly (start isoSize aclSize isoExp aclExp hIso hAcl) es :=
    along_of_invariant hkeep (fun _ e h _ => h.orderly e) hinv (along_true _ es)
  have hstep : ∀ s e, Inv s → Delivers s → True → (Delivers (step s e) ↔ LenOk s e) :=
    fun _ e h hd _ =>
      (delivers_iff (inv_step h e)).trans (queuedOk_step_iff ((delivers_iff h).mp hd) e)
  rw [and_iff_left horderly]
  exact always_iff_along hstep (fun _ e h _ _ _ => inv_step h e) (along_true _ es) hinv
    ((delivers_iff hinv).mpr nofun)

theorem txHandler_delivers_iff_two :
    Always step Delivers (start 260 260 2 3 (by decide) (by decide))
          [.queue .aclData [1, 0, 7], .txHandler, .queue .isoData [2, 0, 8, 9], .txDone] ∧
        Along step Orderly (start 260 260 2 3 (by decide) (by decide))
          [.queue .aclData [1, 0, 7], .txHandler, .queue .isoData [2, 0, 8, 9], .txDone] ↔
      Along step LenOk (start 260 260 2 3 (by decide) (by decide))
        [.queue .aclData [1, 0, 7], .txHandler, .queue .isoData [2, 0, 8, 9], .txDone] :=
  txHandler_delivers_iff 260 260 2 3 (by decide) (by decide)
    [.queue .aclData [1, 0, 7], .txHandler, .queue .isoData [2, 0, 8, 9], .txDone]

/-- A packet of length zero is refused, and leaves the transmitter busy without a transfer. -/
theorem not_txHandler_delivers_zero :
    ¬ ∀ (isoSize aclSize isoExp aclExp : ℕ) (hIso : isoExp ≤ 7) (hAcl : aclExp ≤ 7)
      (es : List Event),
      Always step Delivers (start isoSize aclSize isoExp aclExp hIso hAcl) es ∧
        Along step Orderly (start isoSize aclSize isoExp aclExp hIso hAcl) es := by
  intro h
  obtain ⟨hdelivers, -⟩ := h 260 260 2 3 (by decide) (by decide)
    [.queue .aclData [0, 0], .txHandler]
  have hbusy := hdelivers.last.busy
  exact hbusy (by decide) (by decide)

end TrTx
end TlBleSdk.Hci
