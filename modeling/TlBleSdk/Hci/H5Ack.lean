import TlBleSdk.Hci.H5Steps
import TlBleSdk.Lib.Run

/-!
# The acknowledgements H5 owes

A reliable packet, new or retransmitted, has to be acknowledged. The acknowledgement is
pending while a data frame is queued, or while `rxTick` runs, if the window is one packet: for
a larger one `HCI_H5_Poll` does not look at it. It gets lost where nothing is queued and that
timer does not run: a retransmission does not start it, a refused pure ACK stops it, and an
acknowledgement of the peer empties the queue.
-/

namespace TlBleSdk.Hci

/-- A FIFO holds an entry. -/
def HciFifo.Queued (f : HciFifo) : Prop := f.wptr ≠ f.rptr

instance (f : HciFifo) : Decidable f.Queued := inferInstanceAs (Decidable (_ ≠ _))

/-- The timer of the pure ACK runs, and `HCI_H5_Poll` looks at it. -/
def HciH5Cb.AckTimer (cb : HciH5Cb) : Prop := cb.config.slidWinSize = 1 ∧ cb.rxTick ≠ 0

instance (cb : HciH5Cb) : Decidable cb.AckTimer := inferInstanceAs (Decidable (_ ∧ _))

/-- An acknowledgement that was not sent is pending. -/
def AckKept (cb : HciH5Cb) : Prop :=
  cb.linkState = .active → cb.history.owed = true → cb.AckTimer ∨ cb.pHciTxFifo.Queued

instance (cb : HciH5Cb) : Decidable (AckKept cb) :=
  inferInstanceAs (Decidable (_ → _ → _))

/-- `pHciTxFifo` behind the acknowledgement number `ackNum`. -/
def HciH5Cb.ackedFifo (cb : HciH5Cb) (ackNum : ℕ) : HciFifo :=
  if ackNum = cb.txSeq then cb.pHciTxFifo.drop cb.txSlidWinSize else cb.pHciTxFifo

/-- The step loses no acknowledgement. -/
def AckOk (cb : HciH5Cb) : HciH5Event → Prop
  | .poll now _ slipAck =>
    cb.linkState = .active → cb.history.owed = true → cb.AckDue now → slipAck = false →
      cb.pHciTxFifo.Queued
  | .packet _ slip p len =>
    let head := hciH5UnpackHeader p
    match cb.kind p len with
    | .expected =>
      cb.config.slidWinSize = 1 ∨ (cb.AckFull ∧ slip = true) ∨ (cb.ackedFifo head.ackNum).Queued
    | .pureAck =>
      cb.history.owed = true → cb.AckTimer ∨ (cb.ackedFifo head.ackNum).Queued
    | .unexpected =>
      (cb.history.owed = true ∨ (head.seqNum + 1) % 8 = cb.txAck) →
        cb.AckTimer ∨ (cb.ackedFifo head.ackNum).Queued
    | _ => True
  | .hostTx _ =>
    cb.linkState = .active → cb.history.owed = true → cb.AckTimer ∨ cb.pHciTxFifo.used ≠ 255
  | .hostRx => True

variable {cb : HciH5Cb} {now : ℕ} {slip : Bool}

/-! ## Polling -/

/-- Sending a data frame sends the acknowledgement; otherwise nothing about it changes. -/
theorem sendData_owed (hwin : cb.config.slidWinSize < 256) :
    (hciH5SendData cb now slip).history.owed = false ∨
      (hciH5SendData cb now slip).history.owed = cb.history.owed ∧
        (hciH5SendData cb now slip).rxTick = cb.rxTick := by
  by_cases hsends : cb.Sends
  · cases slip with
    | false =>
      rw [sendData_refused hsends hwin]
      exact Or.inr ⟨rfl, rfl⟩
    | true =>
      rw [sendData_sent hsends hwin]
      exact Or.inl rfl
  · rw [sendData_of_not_sends hsends]
    exact Or.inr ⟨rfl, rfl⟩

theorem pollTx_owed (hwin : cb.config.slidWinSize < 256) :
    (hciH5PollTx cb now slip).history.owed = false ∨
      (hciH5PollTx cb now slip).history.owed = cb.history.owed ∧
        (hciH5PollTx cb now slip).rxTick = cb.rxTick := by
  obtain ⟨-, hconfig, -, hhist, htick⟩ := rewound_frame cb now
  rw [pollTx_eq]
  split
  · exact Or.inr ⟨rfl, rfl⟩
  · rw [← hhist, ← htick]
    apply sendData_owed
    rwa [hconfig]

/-- With a window of one packet and nothing queued, nothing is sent. -/
theorem pollTx_of_empty (hwin : cb.config.slidWinSize = 1) (hempty : ¬ cb.pHciTxFifo.Queued) :
    (hciH5PollTx cb now slip).history.owed = cb.history.owed ∧
      (hciH5PollTx cb now slip).rxTick = cb.rxTick := by
  obtain ⟨-, hconfig, hfifo, hhist, htick⟩ := rewound_frame cb now
  have hnot : ¬ (cb.rewound now).Sends := by
    rintro ⟨hslid, hne⟩
    rw [hconfig, hwin] at hslid
    rw [hfifo, show (cb.rewound now).txSlidWinSize = 0 by omega] at hne
    exact hempty hne
  rw [pollTx_eq]
  split
  · exact ⟨rfl, rfl⟩
  · rw [sendData_of_not_sends hnot, hhist, htick]
    exact ⟨rfl, rfl⟩

/-- The pure ACK handler: a due acknowledgement that is refused is lost. -/
theorem pollAck_kept_iff (h : AckKept cb) :
    AckKept (hciH5PollAck cb now slip) ↔
      (cb.linkState = .active → cb.history.owed = true → cb.AckDue now → slip = false →
        cb.pHciTxFifo.Queued) := by
  by_cases hdue : cb.AckDue now
  · have heq : hciH5PollAck cb now slip =
        { hciH5SendPureAck { cb with rxTick := 0 } slip with rxSlidWinSize := 0 } := if_pos hdue
    rw [heq]
    cases slip with
    | false => simp [AckKept, HciH5Cb.AckTimer, sendPureAck_eq, hdue]
    | true => simp [AckKept, sendPureAck_eq]
  · have heq : hciH5PollAck cb now slip = cb := if_neg hdue
    rw [heq]
    exact ⟨fun _ _ _ hdue' => absurd hdue' hdue, fun _ => h⟩

theorem poll_kept_iff (h : AckKept cb) (hwin : cb.config.slidWinSize < 256) (slipAck : Bool) :
    AckKept (hciH5Poll cb now slip slipAck) ↔ AckOk cb (.poll now slip slipAck) := by
  obtain ⟨hstate, hconfig, hfifo⟩ := pollTx_frame cb now slip
  have howed := @pollTx_owed cb now slip hwin
  have hempty := @pollTx_of_empty cb now slip
  by_cases hactive : cb.linkState = .active
  · have hpoll : hciH5Poll cb now slip slipAck =
        hciH5PollAck (hciH5PollTx cb now slip) now slipAck := by
      unfold hciH5Poll
      rw [hactive]
    rw [hpoll]
    generalize hciH5PollTx cb now slip = cb₁ at *
    -- what is sent first takes an owed acknowledgement along
    have hkept : AckKept cb₁ := by
      intro _ ho
      rcases howed with hf | ⟨ho', ht⟩
      · rw [hf] at ho
        exact absurd ho (by decide)
      · unfold HciH5Cb.AckTimer
        rw [ht, hfifo, hconfig]
        exact h hactive (ho' ▸ ho)
    have hdue : cb₁.rxTick = cb.rxTick → (cb₁.AckDue now ↔ cb.AckDue now) := by
      intro ht
      unfold HciH5Cb.AckDue
      rw [hconfig, ht]
    rw [pollAck_kept_iff hkept, hstate, hfifo]
    constructor
    · intro hall _ ho hdue' hslip
      by_contra hq
      obtain ⟨ho', ht⟩ := hempty hdue'.1 hq
      exact hq (hall hactive (ho'.trans ho) ((hdue ht).mpr hdue') hslip)
    · intro hok _ ho hdue' hslip
      rcases howed with hf | ⟨ho', ht⟩
      · rw [hf] at ho
        exact absurd ho (by decide)
      · exact hok hactive (ho' ▸ ho) ((hdue ht).mp hdue') hslip
  · -- the other states send link control packets only
    have hstate' : (hciH5Poll cb now slip slipAck).linkState = cb.linkState := by
      unfold hciH5Poll
      cases hlink : cb.linkState with
      | idle => dsimp only; split <;> simp [hciH5SendSync, hciH5Send, hlink]
      | init => dsimp only; split <;> simp [hciH5SendConfig, hciH5Send, hlink]
      | active => exact absurd hlink hactive
    constructor
    · intro _ hactive'
      exact absurd hactive' hactive
    · intro _ hactive'
      exact absurd (hstate'.symm.trans hactive') hactive

/-! ## Receiving -/

@[simp] theorem ack_owed (history : HciH5History) (ackNum : ℕ) :
    (history.ack ackNum).owed = history.owed := by
  unfold HciH5History.ack
  dsimp only
  split <;> rfl

theorem dataAck_frame (cb : HciH5Cb) (now ackNum : ℕ) :
    (hciH5DataAck cb now ackNum).linkState = cb.linkState ∧
      (hciH5DataAck cb now ackNum).config = cb.config ∧
      (hciH5DataAck cb now ackNum).history.owed = cb.history.owed ∧
      (hciH5DataAck cb now ackNum).rxTick = cb.rxTick ∧
      (hciH5DataAck cb now ackNum).pHciTxFifo = cb.ackedFifo ackNum := by
  unfold hciH5DataAck HciH5Cb.ackedFifo
  split <;> exact ⟨rfl, rfl, rfl, rfl, rfl⟩

theorem reSendCheck_frame (cb : HciH5Cb) (now : ℕ) :
    (hciH5ReSendCheck cb now).linkState = cb.linkState ∧
      (hciH5ReSendCheck cb now).config = cb.config ∧
      (hciH5ReSendCheck cb now).history.owed = cb.history.owed ∧
      (hciH5ReSendCheck cb now).rxTick = cb.rxTick ∧
      (hciH5ReSendCheck cb now).pHciTxFifo = cb.ackedFifo cb.rxAck := by
  unfold hciH5ReSendCheck HciH5Cb.ackedFifo
  split <;> exact ⟨rfl, rfl, rfl, rfl, rfl⟩

/-- Behind the check of an acknowledgement number. -/
theorem kept_of_acked {cb' : HciH5Cb} {ackNum : ℕ}
    (hframe : cb'.linkState = cb.linkState ∧ cb'.config = cb.config ∧
      cb'.history.owed = cb.history.owed ∧ cb'.rxTick = cb.rxTick ∧
      cb'.pHciTxFifo = cb.ackedFifo ackNum)
    (hactive : cb.linkState = .active) :
    AckKept cb' ↔
      (cb.history.owed = true → cb.AckTimer ∨ (cb.ackedFifo ackNum).Queued) := by
  obtain ⟨hstate, hconfig, howed, htick, hfifo⟩ := hframe
  unfold AckKept HciH5Cb.AckTimer
  rw [hstate, hconfig, howed, htick, hfifo]
  exact ⟨fun h => h hactive, fun h _ => h⟩

/-- Only link control packets are handled before the link is active. -/
theorem kind_active {p : ℕ → UInt8} {len : ℕ} (h : cb.kind p len ≠ .dropped)
    (hlink : cb.kind p len ≠ .linkCtrl) : cb.linkState = .active := by
  by_contra hne
  unfold HciH5Cb.kind at h hlink
  simp only [if_pos hne] at h hlink
  split_ifs at h hlink <;> simp_all

theorem linkPdu_kept (blcHciReset : HciFifo → HciFifo → HciFifo × HciFifo) (h : AckKept cb)
    (p : ℕ → UInt8) : AckKept (hciH5DecodeLinkPdu blcHciReset cb now slip p) := by
  rcases decodeLinkPdu_cases blcHciReset cb now slip p with heq | ⟨_, heq⟩ | ⟨_, -, heq⟩ |
    ⟨cfg, -, heq⟩ | ⟨_, _, _, -, heq⟩ <;> rw [heq]
  · exact h
  · intro hactive howed
    cases slip with
    | false => exact h hactive howed
    | true => exact absurd howed Bool.false_ne_true
  · exact fun hactive => absurd hactive (by simp [hciH5Send])
  · exact fun _ howed => absurd howed (by simp [hciH5Reset])
  · exact fun hactive => absurd hactive (by simp [hciH5Send, hciH5Reset])

/-- The expected packet starts the timer of its acknowledgement, which counts with a window of one
packet. With a larger one it is acknowledged when the window is full. -/
theorem rxSeqOk_kept_iff (hactive : cb.linkState = .active) (head : HciH5Head)
    (p : ℕ → UInt8) (ackNum : ℕ) :
    AckKept (hciH5DataAck (hciH5RxSeqOk cb now slip head p) now ackNum) ↔
      (cb.config.slidWinSize = 1 ∨ (cb.AckFull ∧ slip = true) ∨
        (cb.ackedFifo ackNum).Queued) := by
  have htick := clockTimeOr1_ne_zero now
  rw [rxSeqOk_eq]
  generalize clockTimeOr1 now = tick at htick ⊢
  refine (kept_of_acked (dataAck_frame _ now ackNum) ?_).trans ?_
  · exact hactive
  unfold HciH5Cb.AckTimer HciH5Cb.ackedFifo
  dsimp only
  by_cases hsent : cb.AckFull ∧ slip = true
  · simp [hsent]
  · simp [hsent, htick]

/-- Another packet does not start it, not even the one whose acknowledgement was lost. -/
theorem rxSeqError_kept_iff (hactive : cb.linkState = .active) (head : HciH5Head)
    (ackNum : ℕ) :
    AckKept (hciH5DataAck (hciH5RxSeqError cb head) now ackNum) ↔
      ((cb.history.owed = true ∨ (head.seqNum + 1) % 8 = cb.txAck) →
        cb.AckTimer ∨ (cb.ackedFifo ackNum).Queued) := by
  rw [kept_of_acked (dataAck_frame (hciH5RxSeqError cb head) now ackNum) hactive]
  unfold hciH5RxSeqError HciH5Cb.ackedFifo HciH5Cb.AckTimer
  dsimp only
  rw [Bool.or_eq_true, decide_eq_true_eq]

theorem reSendCheck_kept_iff (hactive : cb.linkState = .active) :
    AckKept (hciH5ReSendCheck cb now) ↔
      (cb.history.owed = true → cb.AckTimer ∨ (cb.ackedFifo cb.rxAck).Queued) :=
  kept_of_acked (reSendCheck_frame cb now) hactive

theorem packet_kept_iff (blcHciReset : HciFifo → HciFifo → HciFifo × HciFifo) (h : AckKept cb)
    (p : ℕ → UInt8) (len : ℕ) :
    AckKept (hciH5PacketHandler blcHciReset cb now slip p len) ↔
      AckOk cb (.packet now slip p len) := by
  have hactive := @kind_active cb p len
  unfold AckOk
  dsimp only
  cases hkind : cb.kind p len with
  | dropped =>
    rw [packetHandler_dropped hkind]
    exact iff_of_true h trivial
  | linkCtrl =>
    rw [packetHandler_linkCtrl hkind]
    exact iff_of_true (linkPdu_kept blcHciReset h p) trivial
  | unreliable =>
    rw [packetHandler_unreliable hkind]
    exact iff_of_true h trivial
  | expected =>
    rw [hkind] at hactive
    rw [packetHandler_expected hkind, rxSeqOk_kept_iff]
    · unfold HciH5Cb.ackedFifo HciH5Cb.AckFull
      exact Iff.rfl
    · exact hactive (by decide) (by decide)
  | pureAck =>
    rw [hkind] at hactive
    rw [packetHandler_pureAck hkind, reSendCheck_kept_iff, ack_owed]
    · unfold HciH5Cb.ackedFifo HciH5Cb.AckTimer
      exact Iff.rfl
    · exact hactive (by decide) (by decide)
  | unexpected =>
    rw [hkind] at hactive
    rw [packetHandler_unexpected hkind, rxSeqError_kept_iff, ack_owed]
    · unfold HciH5Cb.ackedFifo HciH5Cb.AckTimer
      exact Iff.rfl
    · exact hactive (by decide) (by decide)

/-! ## Runs -/

theorem hostTx_kept_iff (cb : HciH5Cb) (slot : List UInt8) :
    AckKept (hostTx cb slot) ↔ AckOk cb (.hostTx slot) := by
  have hw := cb.pHciTxFifo.wptr_lt
  have hr := cb.pHciTxFifo.rptr_lt
  have hqueued : (cb.pHciTxFifo.push slot).Queued ↔ cb.pHciTxFifo.used ≠ 255 := by
    show (cb.pHciTxFifo.wptr + 1) % 256 ≠ cb.pHciTxFifo.rptr ↔ _
    unfold HciFifo.used
    omega
  show (cb.linkState = .active → cb.history.owed = true →
    cb.AckTimer ∨ (cb.pHciTxFifo.push slot).Queued) ↔ _
  rw [hqueued]
  exact Iff.rfl

theorem hostRx_kept (h : AckKept cb) : AckKept (hciRxHandler cb) := by
  unfold hciRxHandler
  split <;> exact h

theorem step_kept_iff (blcHciReset : HciFifo → HciFifo → HciFifo × HciFifo)
    (hrange : cb.InRange) (h : AckKept cb) (e : HciH5Event) :
    AckKept (hciH5Step blcHciReset cb e) ↔ AckOk cb e := by
  have hwin := hrange.slidWinSize_le
  cases e with
  | poll now slip slipAck => exact poll_kept_iff h (by omega) slipAck
  | packet now slip p len => exact packet_kept_iff blcHciReset h p len
  | hostTx slot => exact hostTx_kept_iff cb slot
  | hostRx => exact iff_of_true (hostRx_kept h) trivial

/-- From `HCI_H5_Init` on, an acknowledgement that is owed stays pending until it is sent
exactly as long as each step meets `AckOk`. -/
theorem ack_kept_iff (blcHciReset : HciFifo → HciFifo → HciFifo × HciFifo)
    (own : HciH5Config) (rx tx : HciFifo) (now : ℕ) (es : List HciH5Event) :
    Machine.Always (hciH5Step blcHciReset) AckKept (hciH5Init own rx tx now) es ↔
      Machine.Along (hciH5Step blcHciReset) AckOk (hciH5Init own rx tx now) es := by
  have hinit : AckKept (hciH5Init own rx tx now) := fun h => nomatch h
  exact Machine.always_iff_along (fun s e hs hP _ => step_kept_iff blcHciReset hs hP e)
    (fun s e hs _ _ _ => hs.step blcHciReset e) (Machine.along_true _ es)
    (HciH5Cb.InRange.init own rx tx now) hinit

/-- The acknowledgement of a packet was lost, and its retransmission is received: no
acknowledgement is pending. And with a window of two packets, a single one is not
acknowledged, however often the main loop runs. -/
theorem not_ackKept_example :
    (h5Run 1 [h5Data 0 0 0, .poll 200000 true true]).rxTick = 0 ∧
      ¬ AckKept (h5Run 1 [h5Data 0 0 0, .poll 200000 true true, h5Data 200000 0 0]) ∧
      (h5Run 2 [h5Data 0 0 0, .poll 4000000 true true, h5Data 4000000 0 0,
        .poll 8000000 true true]).uartTx = (h5Run 2 []).uartTx ∧
      ¬ AckKept (h5Run 2 [h5Data 0 0 0]) := by
  decide +kernel

end TlBleSdk.Hci
