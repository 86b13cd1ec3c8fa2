import TlBleSdk.Hci.H5

/-!
# What a step of H5 can do

One lemma for each function of the protocol that sends, receives or polls. Every invariant
is read off them; nothing else unfolds the functions.
-/

namespace TlBleSdk.Hci

theorem clockTimeOr1_ne_zero (now : ℕ) : clockTimeOr1 now ≠ 0 := by
  unfold clockTimeOr1
  intro h
  have hbit := congrArg (Nat.testBit · 0) h
  simp at hbit

/-! ## Sending -/

/-- `HCI_H5_SendData` calls `HCI_H5_Send`. -/
def HciH5Cb.Sends (cb : HciH5Cb) : Prop :=
  cb.txSlidWinSize < cb.config.slidWinSize ∧
    cb.pHciTxFifo.wptr ≠ cb.pHciTxFifo.rptr + cb.txSlidWinSize

instance (cb : HciH5Cb) : Decidable cb.Sends := inferInstanceAs (Decidable (_ ∧ _))

/-- The type of the next packet. -/
def HciH5Cb.nextType (cb : HciH5Cb) : ℕ := slotType (hciH5TxSlot cb)

variable {cb : HciH5Cb} {now : ℕ} {slip : Bool}

theorem sendData_of_not_sends (h : ¬ cb.Sends) : hciH5SendData cb now slip = cb := by
  unfold hciH5SendData
  by_cases hwin : cb.config.slidWinSize ≤ cb.txSlidWinSize
  · rw [if_pos hwin]
  · rw [if_neg hwin, if_pos]
    by_contra hne
    exact h ⟨Nat.lt_of_not_le hwin, hne⟩

/-- The sequence number behind a packet of type `type`. -/
def nextSeq (txSeq type : ℕ) : ℕ :=
  if hciH5IsReliablePacket type then (txSeq + 1) % 8 else txSeq

/-- A refused packet. -/
theorem sendData_refused (h : cb.Sends) (hwin : cb.config.slidWinSize < 256) :
    hciH5SendData cb now false =
      { cb with txSeq := (nextSeq cb.txSeq cb.nextType + 8 - 1) % 8, txTick := 0 } := by
  have hslid : u8 (cb.txSlidWinSize + 1) - 1 = cb.txSlidWinSize := by
    have := h.1
    rw [u8_of_lt (by omega)]
    rfl
  unfold hciH5SendData
  rw [if_neg (Nat.not_le_of_lt h.1), if_neg h.2]
  simp only [hciH5Send, if_true, hslid]
  rfl

/-- A packet that went to the UART. -/
theorem sendData_sent (h : cb.Sends) (hwin : cb.config.slidWinSize < 256) :
    hciH5SendData cb now true =
      { cb with
        txSeq := nextSeq cb.txSeq cb.nextType
        txSlidWinSize := cb.txSlidWinSize + 1
        rxSlidWinSize := 0
        txTick := clockTimeOr1 now
        rxTick := 0
        uartTx := cb.uartTx ++ [hciH5Frame
          (hciH5SendHead cb cb.nextType (slotPayload (hciH5TxSlot cb)).length)
          (slotPayload (hciH5TxSlot cb))]
        history :=
          { cb.history with
            owed := false
            sent := cb.history.sent ++ [(cb.history.released + cb.txSlidWinSize,
              (hciH5SendHead cb cb.nextType 0).seqNum)] } } := by
  have hslid : u8 (cb.txSlidWinSize + 1) = cb.txSlidWinSize + 1 := by
    have := h.1
    rw [u8_of_lt (by omega)]
  unfold hciH5SendData
  rw [if_neg (Nat.not_le_of_lt h.1), if_neg h.2]
  simp only [hciH5Send, if_true, hslid]
  rfl

/-! ## Polling -/

/-- A resend timer of `HCI_H5_Poll` expires. -/
def HciH5Cb.ResendDue (cb : HciH5Cb) (now : ℕ) : Prop :=
  if cb.resendTick ≠ 0 then clockTimeExceed now cb.resendTick (h5ResendTo * 1000) = true
  else cb.config.slidWinSize ≤ cb.txSlidWinSize ∧ cb.txTick ≠ 0 ∧
    clockTimeExceed now cb.txTick (h5ResendTo * 1000) = true

instance (cb : HciH5Cb) (now : ℕ) : Decidable (cb.ResendDue now) := by
  unfold HciH5Cb.ResendDue
  infer_instance

/-- The timer of `HCI_H5_Poll` for the pure ACK expires. -/
def HciH5Cb.AckDue (cb : HciH5Cb) (now : ℕ) : Prop :=
  cb.config.slidWinSize = 1 ∧ cb.rxTick ≠ 0 ∧
    clockTimeExceed now cb.rxTick (h5PureAckTo * 1000) = true

instance (cb : HciH5Cb) (now : ℕ) : Decidable (cb.AckDue now) :=
  inferInstanceAs (Decidable (_ ∧ _))

/-- The control block with which `HCI_H5_Poll` calls `HCI_H5_SendData`: rewound to the
oldest packet in flight where a resend is due. -/
def HciH5Cb.rewound (cb : HciH5Cb) (now : ℕ) : HciH5Cb :=
  if cb.ResendDue now then
    { cb with
      txSeq := cb.rxAck
      txSlidWinSize := 0
      resendTick := 0
      txTick := if cb.resendTick ≠ 0 then cb.txTick else 0 }
  else cb

/-- `HCI_H5_Poll` waits for a timer. -/
def HciH5Cb.Waits (cb : HciH5Cb) (now : ℕ) : Prop := ¬ cb.ResendDue now ∧ cb.resendTick ≠ 0

instance (cb : HciH5Cb) (now : ℕ) : Decidable (cb.Waits now) :=
  inferInstanceAs (Decidable (_ ∧ _))

theorem pollTx_eq (cb : HciH5Cb) (now : ℕ) (slip : Bool) :
    hciH5PollTx cb now slip =
      if cb.Waits now then cb else hciH5SendData (cb.rewound now) now slip := by
  unfold hciH5PollTx HciH5Cb.Waits HciH5Cb.rewound HciH5Cb.ResendDue
  by_cases hresend : cb.resendTick = 0
  · by_cases hwin : cb.config.slidWinSize ≤ cb.txSlidWinSize
    · by_cases htimer : cb.txTick ≠ 0 ∧
          clockTimeExceed now cb.txTick (h5ResendTo * 1000) = true
      · simp [hresend, hwin, htimer, hciH5ResendStart]
      · -- the window is full, so `HCI_H5_SendData` would return at once
        have hfull : hciH5SendData cb now slip = cb :=
          sendData_of_not_sends fun h => Nat.not_le_of_lt h.1 hwin
        simp [hresend, hwin, htimer, hfull]
    · simp [hresend, hwin]
  · by_cases htimer : clockTimeExceed now cb.resendTick (h5ResendTo * 1000) = true
    · simp [hresend, htimer, hciH5ResendStart]
    · simp [hresend, htimer]

/-- `HCI_H5_SendData` only reads the FIFO. -/
theorem sendData_frame (cb : HciH5Cb) (now : ℕ) (slip : Bool) :
    (hciH5SendData cb now slip).linkState = cb.linkState ∧
      (hciH5SendData cb now slip).config = cb.config ∧
      (hciH5SendData cb now slip).pHciTxFifo = cb.pHciTxFifo := by
  unfold hciH5SendData
  dsimp only
  split_ifs <;> exact ⟨rfl, rfl, rfl⟩

theorem rewound_frame (cb : HciH5Cb) (now : ℕ) :
    (cb.rewound now).linkState = cb.linkState ∧ (cb.rewound now).config = cb.config ∧
      (cb.rewound now).pHciTxFifo = cb.pHciTxFifo ∧
      (cb.rewound now).history = cb.history ∧ (cb.rewound now).rxTick = cb.rxTick := by
  unfold HciH5Cb.rewound
  split <;> exact ⟨rfl, rfl, rfl, rfl, rfl⟩

theorem pollTx_frame (cb : HciH5Cb) (now : ℕ) (slip : Bool) :
    (hciH5PollTx cb now slip).linkState = cb.linkState ∧
      (hciH5PollTx cb now slip).config = cb.config ∧
      (hciH5PollTx cb now slip).pHciTxFifo = cb.pHciTxFifo := by
  obtain ⟨hstate, hconfig, hfifo, -, -⟩ := rewound_frame cb now
  rw [pollTx_eq]
  split
  · exact ⟨rfl, rfl, rfl⟩
  · rw [← hstate, ← hfifo, ← hconfig]
    exact sendData_frame _ now slip

/-! ## Receiving -/

/-- What `HCI_H5_PacketHandler` makes of a packet. -/
inductive PacketKind
  | dropped
  | pureAck
  | linkCtrl
  | unreliable
  | expected
  | unexpected
deriving DecidableEq

/-- The branch `HCI_H5_PacketHandler` takes. -/
def HciH5Cb.kind (cb : HciH5Cb) (p : ℕ → UInt8) (len : ℕ) : PacketKind :=
  let head := hciH5UnpackHeader p
  if !hciH5IsCheckSumValid p then .dropped
  else if !hciH5LenValid head len then .dropped
  else if head.pktType = hciH5PktTypeAck then
    if cb.linkState ≠ .active then .dropped else .pureAck
  else if head.pktType = hciH5PktTypeLinkCtrl then .linkCtrl
  else if hciH5IsDataType head.pktType then
    if cb.linkState ≠ .active then .dropped
    else if !hciH5DataValid cb head p len then .dropped
    else if head.reliable ≠ 0 then
      if head.seqNum = cb.txAck then .expected else .unexpected
    else .unreliable
  else .dropped

section Stack

variable (blcHciReset : HciFifo → HciFifo → HciFifo × HciFifo)

variable {blcHciReset} {p : ℕ → UInt8} {len : ℕ}

/-- The branches of `HCI_H5_PacketHandler`. -/
theorem packetHandler_eq :
    hciH5PacketHandler blcHciReset cb now slip p len =
      let head := hciH5UnpackHeader p
      match cb.kind p len with
      | .dropped => cb
      | .pureAck => hciH5ReSendCheck
        { cb with rxAck := head.ackNum, history := cb.history.ack head.ackNum } now
      | .linkCtrl => hciH5DecodeLinkPdu blcHciReset cb now slip p
      | .unreliable => hciH5PackHciPdu { cb with txAck := (cb.txAck + 1) % 8 } head.pktType
        (hciH5Payload head p)
      | .expected => hciH5DataAck
        (hciH5RxSeqOk { cb with history := cb.history.ack head.ackNum } now slip head p) now
        head.ackNum
      | .unexpected => hciH5DataAck
        (hciH5RxSeqError { cb with history := cb.history.ack head.ackNum } head) now
        head.ackNum := by
  unfold HciH5Cb.kind hciH5PacketHandler hciH5DecodeDataPdu
  dsimp only
  generalize hciH5UnpackHeader p = head
  by_cases hsum : (!hciH5IsCheckSumValid p) = true
  · simp only [if_pos hsum]
  simp only [if_neg hsum]
  by_cases hlen : (!hciH5LenValid head len) = true
  · simp only [if_pos hlen]
  simp only [if_neg hlen]
  by_cases hack : head.pktType = hciH5PktTypeAck
  · simp only [if_pos hack]
    split_ifs <;> rfl
  simp only [if_neg hack]
  by_cases hlink : head.pktType = hciH5PktTypeLinkCtrl
  · simp only [if_pos hlink]
  simp only [if_neg hlink]
  split_ifs <;> rfl

theorem packetHandler_dropped (h : cb.kind p len = .dropped) :
    hciH5PacketHandler blcHciReset cb now slip p len = cb := by
  rw [packetHandler_eq, h]

theorem packetHandler_pureAck (h : cb.kind p len = .pureAck) :
    hciH5PacketHandler blcHciReset cb now slip p len =
      hciH5ReSendCheck
        { cb with
          rxAck := (hciH5UnpackHeader p).ackNum
          history := cb.history.ack (hciH5UnpackHeader p).ackNum } now := by
  rw [packetHandler_eq, h]

theorem packetHandler_linkCtrl (h : cb.kind p len = .linkCtrl) :
    hciH5PacketHandler blcHciReset cb now slip p len =
      hciH5DecodeLinkPdu blcHciReset cb now slip p := by
  rw [packetHandler_eq, h]

theorem packetHandler_unreliable (h : cb.kind p len = .unreliable) :
    hciH5PacketHandler blcHciReset cb now slip p len =
      hciH5PackHciPdu { cb with txAck := (cb.txAck + 1) % 8 } (hciH5UnpackHeader p).pktType
        (hciH5Payload (hciH5UnpackHeader p) p) := by
  rw [packetHandler_eq, h]

theorem packetHandler_expected (h : cb.kind p len = .expected) :
    hciH5PacketHandler blcHciReset cb now slip p len =
      hciH5DataAck
        (hciH5RxSeqOk { cb with history := cb.history.ack (hciH5UnpackHeader p).ackNum } now slip
          (hciH5UnpackHeader p) p) now (hciH5UnpackHeader p).ackNum := by
  rw [packetHandler_eq, h]

theorem packetHandler_unexpected (h : cb.kind p len = .unexpected) :
    hciH5PacketHandler blcHciReset cb now slip p len =
      hciH5DataAck
        (hciH5RxSeqError { cb with history := cb.history.ack (hciH5UnpackHeader p).ackNum }
          (hciH5UnpackHeader p)) now (hciH5UnpackHeader p).ackNum := by
  rw [packetHandler_eq, h]

theorem kind_link (h : cb.kind p len = .linkCtrl) :
    (hciH5UnpackHeader p).pktType = hciH5PktTypeLinkCtrl := by
  unfold HciH5Cb.kind at h
  dsimp only at h
  split_ifs at h
  assumption

variable (blcHciReset) in
/-- A link control packet is answered, activates the link or resets it. -/
theorem decodeLinkPdu_cases (cb : HciH5Cb) (now : ℕ) (slip : Bool) (p : ℕ → UInt8) :
    hciH5DecodeLinkPdu blcHciReset cb now slip p = cb ∨
    (∃ packet, hciH5DecodeLinkPdu blcHciReset cb now slip p =
      hciH5Send cb slip hciH5PktTypeLinkCtrl packet) ∨
    (∃ packet, cb.linkState = .idle ∧ hciH5DecodeLinkPdu blcHciReset cb now slip p =
      hciH5Send { cb with linkState := .init } slip hciH5PktTypeLinkCtrl packet) ∨
    (∃ cfg, cb.linkState = .init ∧ hciH5DecodeLinkPdu blcHciReset cb now slip p =
      { hciH5Reset { cb with linkState := .active } now with
        config := hciH5Negotiate cb.hciH5Config cfg }) ∨
    (∃ rx tx packet, cb.linkState = .active ∧ hciH5DecodeLinkPdu blcHciReset cb now slip p =
      hciH5Send
        { hciH5Reset { cb with linkState := .idle } now with
          pHciRxFifo := rx
          pHciTxFifo := tx }
        slip hciH5PktTypeLinkCtrl packet) := by
  unfold hciH5DecodeLinkPdu
  dsimp only
  cases hstate : cb.linkState with
  | idle =>
    dsimp only
    split_ifs
    · exact Or.inr (Or.inl ⟨_, rfl⟩)
    · exact Or.inr (Or.inr (Or.inl ⟨_, rfl, rfl⟩))
    · exact Or.inr (Or.inl ⟨_, rfl⟩)
  | init =>
    dsimp only
    split_ifs
    · exact Or.inr (Or.inl ⟨_, rfl⟩)
    · exact Or.inr (Or.inl ⟨_, rfl⟩)
    · exact Or.inr (Or.inr (Or.inr (Or.inl ⟨_, rfl, rfl⟩)))
    · exact Or.inl rfl
  | active =>
    dsimp only
    split_ifs
    · exact Or.inr (Or.inl ⟨_, rfl⟩)
    · exact Or.inr (Or.inr (Or.inr (Or.inr ⟨_, _, _, rfl, rfl⟩)))
    · exact Or.inl rfl

end Stack

/-- The window is full of packets that were not acknowledged. -/
def HciH5Cb.AckFull (cb : HciH5Cb) : Prop :=
  cb.config.slidWinSize ≠ 1 ∧ cb.config.slidWinSize ≤ u8 (cb.rxSlidWinSize + 1)

instance (cb : HciH5Cb) : Decidable cb.AckFull := inferInstanceAs (Decidable (_ ∧ _))

/-- The entry a packet leaves in `pHciRxFifo`. -/
def rxSlot (head : HciH5Head) (p : ℕ → UInt8) : List UInt8 :=
  UInt8.ofNat head.pktType :: hciH5Payload head p

/-- The pure ACK with the acknowledgement number `ackNum`. -/
def pureAckFrame (ackNum : ℕ) : List UInt8 :=
  hciH5Frame ⟨0, ackNum, 0, 0, hciH5PktTypeAck, 0, 0⟩ []

theorem sendPureAck_eq (cb : HciH5Cb) (slip : Bool) :
    hciH5SendPureAck cb slip =
      { cb with
        uartTx := if slip then cb.uartTx ++ [pureAckFrame cb.txAck] else cb.uartTx
        history := { cb.history with owed := if slip then false else cb.history.owed } } := rfl

/-- The expected packet is acknowledged, now or later, and put into `pHciRxFifo`. -/
theorem rxSeqOk_eq (cb : HciH5Cb) (now : ℕ) (slip : Bool) (head : HciH5Head) (p : ℕ → UInt8) :
    hciH5RxSeqOk cb now slip head p =
      { cb with
        txAck := (cb.txAck + 1) % 8
        rxSlidWinSize := if cb.AckFull then 0 else u8 (cb.rxSlidWinSize + 1)
        rxTick := clockTimeOr1 now
        pHciRxFifo := cb.pHciRxFifo.push (rxSlot head p)
        uartTx := if cb.AckFull ∧ slip = true then
          cb.uartTx ++ [pureAckFrame ((cb.txAck + 1) % 8)] else cb.uartTx
        history :=
          { cb.history with
            owed := !decide (cb.AckFull ∧ slip = true)
            put := cb.history.put ++ [rxSlot head p] } } := by
  unfold hciH5RxSeqOk HciH5Cb.AckFull
  dsimp only
  by_cases hfull : cb.config.slidWinSize ≠ 1 ∧
      cb.config.slidWinSize ≤ u8 (cb.rxSlidWinSize + 1)
  · cases slip with
    | false => simp [hfull, sendPureAck_eq, hciH5PackHciPdu, rxSlot]
    | true => simp [hfull, sendPureAck_eq, hciH5PackHciPdu, rxSlot]
  · simp [hfull, hciH5PackHciPdu, rxSlot]

/-! ## The ranges of the counters -/

/-- The counters and the configuration of a control block are within their widths. -/
structure HciH5Cb.InRange (cb : HciH5Cb) : Prop where
  txSeq_lt : cb.txSeq < 8
  txAck_lt : cb.txAck < 8
  rxAck_lt : cb.rxAck < 8
  slidWinSize_le : cb.config.slidWinSize ≤ 7
  crc_le : cb.config.dataIntgrtChkType ≤ 1

namespace HciH5Cb.InRange

theorem init (own : HciH5Config) (rx tx : HciFifo) (now : ℕ) :
    (hciH5Init own rx tx now).InRange := by
  constructor <;> simp [hciH5Init]

theorem sendData (h : cb.InRange) : (hciH5SendData cb now slip).InRange := by
  have hwin := h.slidWinSize_le
  by_cases hsends : cb.Sends
  · cases slip with
    | false =>
      rw [sendData_refused hsends (by omega)]
      exact { h with txSeq_lt := Nat.mod_lt _ (by decide) }
    | true =>
      rw [sendData_sent hsends (by omega)]
      refine { h with txSeq_lt := ?_ }
      dsimp only [nextSeq]
      split
      · exact Nat.mod_lt _ (by decide)
      · exact h.txSeq_lt
  · rwa [sendData_of_not_sends hsends]

theorem rewound (h : cb.InRange) : (cb.rewound now).InRange := by
  unfold HciH5Cb.rewound
  split
  · exact { h with txSeq_lt := h.rxAck_lt }
  · exact h

theorem pollTx (h : cb.InRange) : (hciH5PollTx cb now slip).InRange := by
  rw [pollTx_eq]
  split
  · exact h
  · exact h.rewound.sendData

theorem pollAck (h : cb.InRange) : (hciH5PollAck cb now slip).InRange := by
  unfold hciH5PollAck
  split
  · exact { h with }
  · exact h

theorem poll (h : cb.InRange) (slipAck : Bool) : (hciH5Poll cb now slip slipAck).InRange := by
  unfold hciH5Poll
  split
  · split
    · exact { h with }
    · exact h
  · split
    · exact { h with }
    · exact h
  · exact h.pollTx.pollAck

theorem reSendCheck (h : cb.InRange) : (hciH5ReSendCheck cb now).InRange := by
  unfold hciH5ReSendCheck
  split
  · exact { h with }
  · exact { h with }

theorem dataAck (h : cb.InRange) {ackNum : ℕ} (hack : ackNum < 8) :
    (hciH5DataAck cb now ackNum).InRange := by
  unfold hciH5DataAck
  split
  · exact { h with rxAck_lt := hack }
  · exact { h with }

theorem rxSeqError (h : cb.InRange) (head : HciH5Head) : (hciH5RxSeqError cb head).InRange := by
  unfold hciH5RxSeqError
  exact { h with }

theorem negotiate_le (own : HciH5Config) (cfg : ℕ) :
    (hciH5Negotiate own cfg).slidWinSize ≤ 7 ∧
      (hciH5Negotiate own cfg).dataIntgrtChkType ≤ 1 :=
  ⟨(Nat.min_le_right _ _).trans Nat.and_le_right, Nat.and_le_right.trans Nat.and_le_right⟩

theorem unpackHeader_lt (p : ℕ → UInt8) :
    (hciH5UnpackHeader p).seqNum < 8 ∧ (hciH5UnpackHeader p).ackNum < 8 :=
  ⟨Nat.lt_succ_of_le Nat.and_le_right, Nat.lt_succ_of_le Nat.and_le_right⟩

theorem decodeLinkPdu (blcHciReset : HciFifo → HciFifo → HciFifo × HciFifo) (h : cb.InRange)
    (p : ℕ → UInt8) : (hciH5DecodeLinkPdu blcHciReset cb now slip p).InRange := by
  rcases decodeLinkPdu_cases blcHciReset cb now slip p with heq | ⟨_, heq⟩ | ⟨_, -, heq⟩ |
    ⟨cfg, -, heq⟩ | ⟨_, _, _, -, heq⟩ <;> rw [heq]
  · exact h
  · exact { h with }
  · exact { h with }
  · obtain ⟨hwin, hcrc⟩ := negotiate_le cb.hciH5Config cfg
    exact ⟨Nat.zero_lt_succ 7, Nat.zero_lt_succ 7, Nat.zero_lt_succ 7, hwin, hcrc⟩
  · exact ⟨Nat.zero_lt_succ 7, Nat.zero_lt_succ 7, Nat.zero_lt_succ 7, h.slidWinSize_le, h.crc_le⟩

theorem packetHandler (blcHciReset : HciFifo → HciFifo → HciFifo × HciFifo) (h : cb.InRange)
    (p : ℕ → UInt8) (len : ℕ) :
    (hciH5PacketHandler blcHciReset cb now slip p len).InRange := by
  obtain ⟨-, hack⟩ := unpackHeader_lt p
  cases hkind : cb.kind p len with
  | dropped => rwa [packetHandler_dropped hkind]
  | pureAck =>
    rw [packetHandler_pureAck hkind]
    exact reSendCheck { h with rxAck_lt := hack }
  | linkCtrl =>
    rw [packetHandler_linkCtrl hkind]
    exact h.decodeLinkPdu blcHciReset p
  | unreliable =>
    rw [packetHandler_unreliable hkind]
    exact { h with txAck_lt := Nat.mod_lt _ (Nat.zero_lt_succ 7) }
  | expected =>
    rw [packetHandler_expected hkind, rxSeqOk_eq]
    apply dataAck _ hack
    exact { h with txAck_lt := Nat.mod_lt _ (Nat.zero_lt_succ 7) }
  | unexpected =>
    rw [packetHandler_unexpected hkind]
    apply dataAck _ hack
    apply rxSeqError
    exact { h with }

theorem step (blcHciReset : HciFifo → HciFifo → HciFifo × HciFifo) (h : cb.InRange)
    (e : HciH5Event) : (hciH5Step blcHciReset cb e).InRange := by
  cases e with
  | poll now slip slipAck => exact h.poll slipAck
  | packet now slip p len => exact h.packetHandler blcHciReset p len
  | hostTx slot => exact { h with }
  | hostRx =>
    show (hciRxHandler cb).InRange
    unfold hciRxHandler
    split
    · exact h
    · exact { h with }

end HciH5Cb.InRange

/-! ## Packets for examples -/

/-- The peer's packet arrives at tick `now`. -/
def h5Receive (now : ℕ) (head : HciH5Head) (packet : List UInt8) : HciH5Event :=
  .packet now true (mem (hciH5Frame head packet)) (hciH5Frame head packet).length

/-- The peer's link control packets that lead to the active state, with the window `win`. -/
def h5Establish (win : ℕ) : List HciH5Event :=
  [h5Receive 0 ⟨0, 0, 0, 0, hciH5PktTypeLinkCtrl, 0, 2⟩ (uint16ToBstream hciH5MsgSyncRsp),
    h5Receive 0 ⟨0, 0, 0, 0, hciH5PktTypeLinkCtrl, 0, 3⟩
      (uint16ToBstream hciH5MsgConfigRsp ++ [UInt8.ofNat win])]

/-- The peer's data packet `seqNum`, an ACL packet of one byte. -/
def h5Data (now seqNum ackNum : ℕ) : HciH5Event :=
  h5Receive now ⟨seqNum, ackNum, 0, 1, hciH5PktTypeAcl, 0, 1⟩ [0x55]

/-- The peer's pure ACK. -/
def h5Ack (now ackNum : ℕ) : HciH5Event :=
  h5Receive now ⟨0, ackNum, 0, 0, hciH5PktTypeAck, 0, 0⟩ []

/-- The host's entry for an ACL packet of one byte. -/
def h5Entry : List UInt8 := [2, 0, trTypeAcl, 0x55]

/-- An endpoint with FIFOs of 8 slots. -/
def h5Start (win : ℕ) : HciH5Cb :=
  hciH5Init ⟨win, 0, 0, 0⟩ (HciFifo.empty 260 3 HciFifo.three_le_seven)
    (HciFifo.empty 260 3 HciFifo.three_le_seven) 0

/-- A run of this endpoint behind link establishment. -/
def h5Run (win : ℕ) (es : List HciH5Event) : HciH5Cb :=
  es.foldl (hciH5Step fun rx tx => (rx, tx))
    ((h5Establish win).foldl (hciH5Step fun rx tx => (rx, tx)) (h5Start win))

end TlBleSdk.Hci
