import TlBleSdk.Hci.H5Steps
import TlBleSdk.Lib.Run

/-!
# The sliding window of H5

The entries of `pHciTxFifo` are numbered from the last reset on, and entry `i` goes out with
the sequence number `i % 8`. A window of `txSlidWinSize` entries from the oldest one that is
not released is in flight.

The functions lose this numbering in four ways: `HCI_H5_ReSendCheck` and
`HCI_H5_DecodeDataPdu` release nothing on an acknowledgement of a part of the window, but
the first keeps its number, from which `HCI_H5_ResendStart` goes on; an acknowledgement
that comes after a resend has narrowed the window counts as such a part too;
`HCI_H5_SendData` compares the pointers without reducing them modulo 256; and an entry of
an unreliable type widens the window without using a sequence number.
-/

namespace TlBleSdk.Hci

/-- The window is within its bounds, the sequence numbers are those of the entries, and the
entries released are those acknowledged. -/
structure WindowOk (cb : HciH5Cb) : Prop where
  slid_le : cb.txSlidWinSize ≤ cb.config.slidWinSize
  slid_le_used : cb.txSlidWinSize ≤ cb.pHciTxFifo.used
  seq_eq : cb.txSeq = (cb.history.released + cb.txSlidWinSize) % 8
  sent_same : ∀ x ∈ cb.history.sent, ∀ y ∈ cb.history.sent, x.1 = y.1 → x.2 = y.2
  released_eq : cb.history.released = cb.history.acked

/-- The acknowledgement number is that of the whole window, or acknowledges nothing that
was sent and is still queued. -/
def AckNumOk (cb : HciH5Cb) (ackNum : ℕ) : Prop :=
  ackNum = cb.txSeq ∨ (cb.history.ack ackNum).acked = cb.history.acked

/-- The step keeps the window in order. -/
def WindowStepOk (cb : HciH5Cb) : HciH5Event → Prop
  | .poll now slip _ =>
    -- a resend goes on from the oldest entry, and what is sent is reliable and was given
    cb.linkState = .active → ¬ cb.Waits now →
      (cb.ResendDue now → cb.rxAck = cb.history.released % 8) ∧
      ((cb.rewound now).Sends →
        hciH5IsReliablePacket (cb.rewound now).nextType = true ∧
          (slip = true → (cb.rewound now).txSlidWinSize < cb.pHciTxFifo.used))
  | .packet _ _ p len =>
    match cb.kind p len with
    | .pureAck | .expected | .unexpected => AckNumOk cb (hciH5UnpackHeader p).ackNum
    | _ => True
  | .hostTx _ => cb.txSlidWinSize = 0 ∨ cb.pHciTxFifo.used ≠ 255
  | .hostRx => True

instance (cb : HciH5Cb) (ackNum : ℕ) : Decidable (AckNumOk cb ackNum) :=
  inferInstanceAs (Decidable (_ ∨ _))

theorem windowStepOk_packet (cb : HciH5Cb) (now : ℕ) (slip : Bool) (p : ℕ → UInt8) (len : ℕ) :
    (cb.kind p len = .pureAck ∨ cb.kind p len = .expected ∨ cb.kind p len = .unexpected →
      AckNumOk cb (hciH5UnpackHeader p).ackNum) ↔ WindowStepOk cb (.packet now slip p len) := by
  cases hkind : cb.kind p len <;> simp [WindowStepOk, hkind]

instance (cb : HciH5Cb) : (e : HciH5Event) → Decidable (WindowStepOk cb e)
  | .poll _ _ _ => inferInstanceAs (Decidable (_ → _ → _ ∧ _))
  | .packet now slip p len => decidable_of_iff _ (windowStepOk_packet cb now slip p len)
  | .hostTx _ => inferInstanceAs (Decidable (_ ∨ _))
  | .hostRx => inferInstanceAs (Decidable True)

/-- The invariant behind `WindowOk`. -/
structure WindowInv (cb : HciH5Cb) : Prop where
  range : cb.InRange
  slid_le : cb.txSlidWinSize ≤ cb.config.slidWinSize
  slid_le_used : cb.txSlidWinSize ≤ cb.pHciTxFifo.used
  seq_eq : cb.txSeq = (cb.history.released + cb.txSlidWinSize) % 8
  sent_eq : ∀ x ∈ cb.history.sent, x.2 = x.1 % 8
  le_top : cb.history.released + cb.txSlidWinSize ≤ cb.history.top
  released_eq : cb.history.released = cb.history.acked

variable {cb : HciH5Cb} {now : ℕ} {slip : Bool}

theorem WindowInv.ok (h : WindowInv cb) : WindowOk cb where
  slid_le := h.slid_le
  slid_le_used := h.slid_le_used
  seq_eq := h.seq_eq
  sent_same x hx y hy hxy := by rw [h.sent_eq x hx, h.sent_eq y hy, hxy]
  released_eq := h.released_eq

namespace WindowInv

theorem init (own : HciH5Config) (rx tx : HciFifo) (now : ℕ) :
    WindowInv (hciH5Init own rx tx now) where
  range := HciH5Cb.InRange.init own rx tx now
  slid_le := le_rfl
  slid_le_used := Nat.zero_le _
  seq_eq := rfl
  sent_eq _ hx := nomatch hx
  le_top := le_rfl
  released_eq := rfl

/-! ## Sending -/

theorem top_append {history history' : HciH5History} {i seq : ℕ}
    (h : history'.sent = history.sent ++ [(i, seq)]) :
    history'.top = max history.top (i + 1) := by
  unfold HciH5History.top
  rw [h, List.map_append, List.map_singleton]
  generalize history.sent.map (fun e => e.1 + 1) = l
  induction l with
  | nil => simp
  | cons x l ih =>
    rw [List.cons_append, List.foldr_cons, List.foldr_cons, ih]
    omega

theorem sendData (h : WindowInv cb)
    (hok : cb.Sends → hciH5IsReliablePacket cb.nextType = true ∧
      (slip = true → cb.txSlidWinSize < cb.pHciTxFifo.used)) :
    WindowInv (hciH5SendData cb now slip) := by
  have hrange : (hciH5SendData cb now slip).InRange := h.range.sendData
  have hwin : cb.config.slidWinSize < 256 := by
    have := h.range.slidWinSize_le
    omega
  by_cases hsends : cb.Sends
  · obtain ⟨hrel, hused⟩ := hok hsends
    have hseq : nextSeq cb.txSeq cb.nextType = (cb.txSeq + 1) % 8 := if_pos hrel
    have hlt := h.range.txSeq_lt
    cases slip with
    | false =>
      -- the sequence number is taken back
      rw [sendData_refused hsends hwin] at hrange ⊢
      have hback : (nextSeq cb.txSeq cb.nextType + 8 - 1) % 8 = cb.txSeq := by
        rw [hseq]
        omega
      exact { h with range := hrange, seq_eq := hback.trans h.seq_eq }
    | true =>
      rw [sendData_sent hsends hwin] at hrange ⊢
      refine ⟨hrange, hsends.1, hused rfl, ?_, ?_, ?_, h.released_eq⟩
      · dsimp only
        rw [hseq, h.seq_eq]
        omega
      · intro x hx
        rcases List.mem_append.mp hx with hx | hx
        · exact h.sent_eq x hx
        · rw [List.mem_singleton.mp hx]
          show (if hciH5IsReliablePacket cb.nextType then cb.txSeq else 0) = _
          rw [if_pos hrel, h.seq_eq]
      · rw [top_append rfl]
        dsimp only
        omega
  · rwa [sendData_of_not_sends hsends]

/-- A resend goes on from the oldest entry. -/
theorem rewound (h : WindowInv cb)
    (hok : cb.ResendDue now → cb.rxAck = cb.history.released % 8) :
    WindowInv (cb.rewound now) := by
  have hrange : (cb.rewound now).InRange := h.range.rewound
  have htop := h.le_top
  unfold HciH5Cb.rewound at hrange ⊢
  split at hrange
  · rename_i hdue
    rw [if_pos hdue]
    exact
      { range := hrange
        slid_le := Nat.zero_le _
        slid_le_used := Nat.zero_le _
        seq_eq := hok hdue
        sent_eq := h.sent_eq
        le_top := by
          dsimp only
          omega
        released_eq := h.released_eq }
  · rename_i hdue
    rwa [if_neg hdue]

theorem poll (h : WindowInv cb) {slipAck : Bool} (hok : WindowStepOk cb (.poll now slip slipAck)) :
    WindowInv (hciH5Poll cb now slip slipAck) := by
  have hrange : (hciH5Poll cb now slip slipAck).InRange := h.range.poll slipAck
  unfold hciH5Poll at hrange ⊢
  cases hlink : cb.linkState with
  | idle =>
    rw [hlink] at hrange
    dsimp only at hrange ⊢
    split at hrange
    · rename_i hdue
      rw [if_pos hdue]
      exact { h with range := hrange }
    · rename_i hdue
      rwa [if_neg hdue]
  | init =>
    rw [hlink] at hrange
    dsimp only at hrange ⊢
    split at hrange
    · rename_i hdue
      rw [if_pos hdue]
      exact { h with range := hrange }
    · rename_i hdue
      rwa [if_neg hdue]
  | active =>
    have hok := hok hlink
    have hsent : WindowInv (hciH5PollTx cb now slip) := by
      rw [pollTx_eq]
      split
      · exact h
      · rename_i hwait
        obtain ⟨hresend, hsends⟩ := hok hwait
        apply (h.rewound hresend).sendData
        rwa [show (cb.rewound now).pHciTxFifo = cb.pHciTxFifo from (rewound_frame cb now).2.2.1]
    dsimp only
    unfold hciH5PollAck
    split
    · exact { hsent with range := { hsent.range with } }
    · exact hsent

/-! ## Receiving -/

/-- Acknowledging all of the window or nothing. -/
theorem ack_acked (h : WindowInv cb) {ackNum : ℕ} (hok : AckNumOk cb ackNum) :
    (cb.history.ack ackNum).acked =
      cb.history.released + if ackNum = cb.txSeq then cb.txSlidWinSize else 0 := by
  have hslid := h.slid_le.trans h.range.slidWinSize_le
  have htop := h.le_top
  have hseq := h.seq_eq
  have hacked := h.released_eq
  split
  · rename_i hall
    have hn : (ackNum + 8 - cb.history.acked % 8) % 8 = cb.txSlidWinSize := by
      rw [hall, hseq, hacked]
      omega
    unfold HciH5History.ack
    dsimp only
    rw [hn, if_pos (by omega), hacked]
  · rename_i hnot
    rw [hok.resolve_left hnot, hacked]
    rfl

theorem ack_frame (history : HciH5History) (ackNum : ℕ) :
    (history.ack ackNum).released = history.released ∧
      (history.ack ackNum).sent = history.sent := by
  unfold HciH5History.ack
  dsimp only
  split <;> exact ⟨rfl, rfl⟩

/-- The window behind an acknowledgement number. -/
structure Acked (cb cb' : HciH5Cb) (ackNum : ℕ) : Prop where
  txSeq_eq : cb'.txSeq = cb.txSeq
  config_eq : cb'.config = cb.config
  slid_eq : cb'.txSlidWinSize = if ackNum = cb.txSeq then 0 else cb.txSlidWinSize
  fifo_eq : ackNum ≠ cb.txSeq → cb'.pHciTxFifo = cb.pHciTxFifo
  sent_eq : cb'.history.sent = cb.history.sent
  released_eq : cb'.history.released =
    cb.history.released + if ackNum = cb.txSeq then cb.txSlidWinSize else 0
  acked_eq : cb'.history.acked = (cb.history.ack ackNum).acked

theorem acked (h : WindowInv cb) {cb' : HciH5Cb} {ackNum : ℕ} (hcb' : Acked cb cb' ackNum)
    (hrange : cb'.InRange) (hok : AckNumOk cb ackNum) : WindowInv cb' := by
  have htop : cb'.history.top = cb.history.top := by
    unfold HciH5History.top
    rw [hcb'.sent_eq]
  have hseq := h.seq_eq
  have hle := h.le_top
  have hslid := h.slid_le
  have hused := h.slid_le_used
  have hrel := hcb'.released_eq
  have hslid' := hcb'.slid_eq
  constructor
  case range => exact hrange
  case slid_le =>
    rw [hcb'.config_eq, hslid']
    split <;> omega
  case slid_le_used =>
    rw [hslid']
    split
    · exact Nat.zero_le _
    · rename_i hnot
      rwa [hcb'.fifo_eq hnot]
  case seq_eq =>
    rw [hcb'.txSeq_eq, hrel, hslid', hseq]
    split <;> omega
  case sent_eq =>
    rw [hcb'.sent_eq]
    exact h.sent_eq
  case le_top =>
    rw [htop, hrel, hslid']
    split <;> omega
  case released_eq => rw [hcb'.released_eq, hcb'.acked_eq, h.ack_acked hok]

/-- A control block that differs from `cb` in what the checks of an acknowledgement number
do not read. -/
structure SameTx (cb cb₁ : HciH5Cb) : Prop where
  txSeq_eq : cb₁.txSeq = cb.txSeq
  config_eq : cb₁.config = cb.config
  slid_eq : cb₁.txSlidWinSize = cb.txSlidWinSize
  fifo_eq : cb₁.pHciTxFifo = cb.pHciTxFifo
  sent_eq : cb₁.history.sent = cb.history.sent
  released_eq : cb₁.history.released = cb.history.released

theorem SameTx.trans {cb₁ cb₂ : HciH5Cb} (h : SameTx cb cb₁) (h' : SameTx cb₁ cb₂) :
    SameTx cb cb₂ where
  txSeq_eq := h'.txSeq_eq.trans h.txSeq_eq
  config_eq := h'.config_eq.trans h.config_eq
  slid_eq := h'.slid_eq.trans h.slid_eq
  fifo_eq := h'.fifo_eq.trans h.fifo_eq
  sent_eq := h'.sent_eq.trans h.sent_eq
  released_eq := h'.released_eq.trans h.released_eq

theorem sameTx_ack (cb : HciH5Cb) (ackNum : ℕ) :
    SameTx cb { cb with history := cb.history.ack ackNum } := by
  obtain ⟨hrel, hsent⟩ := ack_frame cb.history ackNum
  generalize cb.history.ack ackNum = history at hrel hsent ⊢
  exact ⟨rfl, rfl, rfl, rfl, hsent, hrel⟩

theorem sameTx_rxSeqOk (cb : HciH5Cb) (now : ℕ) (slip : Bool) (head : HciH5Head)
    (p : ℕ → UInt8) : SameTx cb (hciH5RxSeqOk cb now slip head p) := by
  rw [rxSeqOk_eq]
  cases cb
  exact ⟨rfl, rfl, rfl, rfl, rfl, rfl⟩

theorem sameTx_rxSeqError (cb : HciH5Cb) (head : HciH5Head) :
    SameTx cb (hciH5RxSeqError cb head) := by
  unfold hciH5RxSeqError
  cases cb
  exact ⟨rfl, rfl, rfl, rfl, rfl, rfl⟩

theorem rxSeqOk_acked (cb : HciH5Cb) (now : ℕ) (slip : Bool) (head : HciH5Head)
    (p : ℕ → UInt8) : (hciH5RxSeqOk cb now slip head p).history.acked = cb.history.acked := by
  rw [rxSeqOk_eq]

theorem rxSeqError_acked (cb : HciH5Cb) (head : HciH5Head) :
    (hciH5RxSeqError cb head).history.acked = cb.history.acked := by
  unfold hciH5RxSeqError
  rfl

theorem acked_dataAck {cb₁ : HciH5Cb} {ackNum : ℕ} (h : SameTx cb cb₁)
    (hacked : cb₁.history.acked = (cb.history.ack ackNum).acked) :
    Acked cb (hciH5DataAck cb₁ now ackNum) ackNum := by
  obtain ⟨hseq, hconfig, hslid, hfifo, hsent, hrel⟩ := h
  unfold hciH5DataAck hciH5Release
  by_cases hall : ackNum = cb.txSeq
  · rw [if_pos (hall.trans hseq.symm)]
    exact ⟨hseq, hconfig, (if_pos hall).symm, fun hnot => absurd hall hnot, hsent,
      by rw [if_pos hall, ← hrel, ← hslid], hacked⟩
  · rw [if_neg fun heq => hall (heq.trans hseq)]
    exact ⟨hseq, hconfig, by rw [if_neg hall, ← hslid], fun _ => hfifo, hsent,
      by rw [if_neg hall, ← hrel, Nat.add_zero], hacked⟩

theorem acked_reSendCheck {cb₁ : HciH5Cb} (h : SameTx cb cb₁)
    (hacked : cb₁.history.acked = (cb.history.ack cb₁.rxAck).acked) :
    Acked cb (hciH5ReSendCheck cb₁ now) cb₁.rxAck := by
  obtain ⟨hseq, hconfig, hslid, hfifo, hsent, hrel⟩ := h
  unfold hciH5ReSendCheck hciH5Release
  by_cases hall : cb₁.rxAck = cb.txSeq
  · rw [if_pos (hall.trans hseq.symm)]
    exact ⟨hseq, hconfig, (if_pos hall).symm, fun hnot => absurd hall hnot, hsent,
      by rw [if_pos hall, ← hrel, ← hslid], hacked⟩
  · rw [if_neg fun heq => hall (heq.trans hseq)]
    exact ⟨hseq, hconfig, by rw [if_neg hall, ← hslid], fun _ => hfifo, hsent,
      by rw [if_neg hall, ← hrel, Nat.add_zero], hacked⟩

theorem linkPdu (blcHciReset : HciFifo → HciFifo → HciFifo × HciFifo) (h : WindowInv cb)
    (p : ℕ → UInt8) : WindowInv (hciH5DecodeLinkPdu blcHciReset cb now slip p) := by
  have hrange : (hciH5DecodeLinkPdu blcHciReset cb now slip p).InRange :=
    h.range.decodeLinkPdu blcHciReset p
  rcases decodeLinkPdu_cases blcHciReset cb now slip p with heq | ⟨_, heq⟩ | ⟨_, -, heq⟩ |
    ⟨cfg, -, heq⟩ | ⟨_, _, _, -, heq⟩ <;> rw [heq] at hrange ⊢
  · exact h
  · exact { h with range := hrange }
  · exact { h with range := hrange }
  · exact ⟨hrange, Nat.zero_le _, Nat.zero_le _, rfl, (fun _ hx => nomatch hx), le_rfl, rfl⟩
  · exact ⟨hrange, Nat.zero_le _, Nat.zero_le _, rfl, (fun _ hx => nomatch hx), le_rfl, rfl⟩

theorem packet (blcHciReset : HciFifo → HciFifo → HciFifo × HciFifo) (h : WindowInv cb)
    {p : ℕ → UInt8} {len : ℕ} (hok : WindowStepOk cb (.packet now slip p len)) :
    WindowInv (hciH5PacketHandler blcHciReset cb now slip p len) := by
  have hrange : (hciH5PacketHandler blcHciReset cb now slip p len).InRange :=
    h.range.packetHandler blcHciReset p len
  unfold WindowStepOk at hok
  dsimp only at hok
  cases hkind : cb.kind p len with
  | dropped => rwa [packetHandler_dropped hkind]
  | linkCtrl =>
    rw [packetHandler_linkCtrl hkind]
    exact h.linkPdu blcHciReset p
  | unreliable =>
    rw [packetHandler_unreliable hkind] at hrange ⊢
    exact { h with range := hrange }
  | pureAck =>
    rw [hkind] at hok
    rw [packetHandler_pureAck hkind] at hrange ⊢
    obtain ⟨hrel, hsent⟩ := ack_frame cb.history (hciH5UnpackHeader p).ackNum
    have hsame : SameTx cb { cb with
        rxAck := (hciH5UnpackHeader p).ackNum
        history := cb.history.ack (hciH5UnpackHeader p).ackNum } :=
      ⟨rfl, rfl, rfl, rfl, hsent, hrel⟩
    exact h.acked (acked_reSendCheck hsame rfl) hrange hok
  | expected =>
    rw [hkind] at hok
    rw [packetHandler_expected hkind] at hrange ⊢
    have hsame := (sameTx_ack cb (hciH5UnpackHeader p).ackNum).trans
      (sameTx_rxSeqOk _ now slip (hciH5UnpackHeader p) p)
    exact h.acked (acked_dataAck hsame (rxSeqOk_acked _ _ _ _ _)) hrange hok
  | unexpected =>
    rw [hkind] at hok
    rw [packetHandler_unexpected hkind] at hrange ⊢
    have hsame := (sameTx_ack cb (hciH5UnpackHeader p).ackNum).trans
      (sameTx_rxSeqError _ (hciH5UnpackHeader p))
    exact h.acked (acked_dataAck hsame (rxSeqError_acked _ _)) hrange hok

/-! ## Runs -/

theorem hostTx (h : WindowInv cb) {slot : List UInt8} (hok : WindowStepOk cb (.hostTx slot)) :
    WindowInv (hostTx cb slot) := by
  have hw := cb.pHciTxFifo.wptr_lt
  have hr := cb.pHciTxFifo.rptr_lt
  have hused : (cb.pHciTxFifo.push slot).used = (cb.pHciTxFifo.used + 1) % 256 := by
    show ((cb.pHciTxFifo.wptr + 1) % 256 + 256 - cb.pHciTxFifo.rptr) % 256 = _
    unfold HciFifo.used
    omega
  have hlt : cb.pHciTxFifo.used < 256 := Nat.mod_lt _ (by decide)
  have hle := h.slid_le_used
  refine { h with range := { h.range with }, slid_le_used := ?_ }
  show cb.txSlidWinSize ≤ (cb.pHciTxFifo.push slot).used
  rw [hused]
  rcases hok with hnone | hroom <;> omega

theorem hostRx (h : WindowInv cb) : WindowInv (hciRxHandler cb) := by
  unfold hciRxHandler
  split
  · exact h
  · exact { h with range := { h.range with } }

theorem step (blcHciReset : HciFifo → HciFifo → HciFifo × HciFifo) (h : WindowInv cb)
    (e : HciH5Event) (hok : WindowStepOk cb e) : WindowInv (hciH5Step blcHciReset cb e) := by
  cases e with
  | poll now slip slipAck => exact h.poll hok
  | packet now slip p len => exact h.packet blcHciReset hok
  | hostTx slot => exact h.hostTx hok
  | hostRx => exact h.hostRx

end WindowInv

/-- In every run from `HCI_H5_Init` whose steps meet `WindowStepOk`, the window is in order at
every moment. -/
theorem window_ok (blcHciReset : HciFifo → HciFifo → HciFifo × HciFifo) (own : HciH5Config)
    (rx tx : HciFifo) (now : ℕ) (es : List HciH5Event)
    (hok : Machine.Along (hciH5Step blcHciReset) WindowStepOk (hciH5Init own rx tx now) es) :
    Machine.Always (hciH5Step blcHciReset) WindowOk (hciH5Init own rx tx now) es :=
  Machine.always_of_invariant (fun _ e h he => h.step blcHciReset e he) (fun _ h => h.ok)
    (WindowInv.init own rx tx now) hok

/-- A window of two packets is sent, resent from its start after a timeout and acknowledged. -/
def windowExample : List HciH5Event :=
  h5Establish 2 ++
    [.hostTx h5Entry, .hostTx h5Entry, .poll 0 true true, .poll 0 true true,
      .poll 900000 false true, .poll 900000 true true, .poll 900000 true true, h5Ack 900000 2]

theorem window_ok_example :
    Machine.Always (hciH5Step fun rx tx => (rx, tx)) WindowOk (h5Start 2) windowExample :=
  window_ok _ ⟨2, 0, 0, 0⟩ _ _ 0 windowExample (by decide +kernel)

/-- With a window of two packets, the acknowledgement of the first does not release it, and
the resend sends it as packet 1. With a window of one, so does the acknowledgement that
follows a refused resend. -/
theorem not_windowOk_example :
    ¬ WindowOk (h5Run 2 [.hostTx h5Entry, .hostTx h5Entry, .poll 0 true true, .poll 0 true true,
        h5Ack 0 1]) ∧
      ¬ WindowOk (h5Run 1 [.hostTx h5Entry, .poll 0 true true, .poll 900000 false true,
        h5Ack 900000 1]) ∧
      (h5Run 1 [.hostTx h5Entry, .poll 0 true true, .poll 900000 false true, h5Ack 900000 1,
        .poll 1800000 true true]).history.sent = [(0, 0), (0, 1)] := by
  refine ⟨fun h => absurd h.released_eq ?_, fun h => absurd h.released_eq ?_, ?_⟩
  · decide +kernel
  · decide +kernel
  · decide +kernel

end TlBleSdk.Hci
