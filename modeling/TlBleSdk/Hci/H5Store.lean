import TlBleSdk.Hci.H5Steps
import TlBleSdk.Lib.Run

/-!
# What H5 acknowledges and what it stores

`HCI_H5_DecodeDataPdu` advances `txAck` before `HCI_H5_PackHciPdu` stores the packet, and
that function neither looks whether a slot of `pHciRxFifo` is free nor stops where the
packet does not fit it. An unreliable packet advances `txAck` too.
-/

namespace TlBleSdk.Hci

/-- The slot at the write pointer holds no unread entry. -/
def HciFifo.FreeSlot (f : HciFifo) : Prop :=
  ∀ k < f.used, f.slotIdx f.wptr ≠ f.slotIdx (f.rptr + k)

/-- A slot is free exactly if the FIFO is not full. -/
theorem HciFifo.freeSlot_iff (f : HciFifo) : f.FreeSlot ↔ f.used < f.num := by
  have hw := f.wptr_lt
  have hr := f.rptr_lt
  have hsum : f.wptr = (f.rptr + f.used) % 256 := by
    unfold HciFifo.used
    omega
  have hslot : f.slotIdx f.wptr = (f.rptr + f.used) % f.num := by
    rw [f.slotIdx_eq, hsum, Nat.mod_mod_of_dvd _ f.num_dvd]
  unfold HciFifo.FreeSlot
  constructor
  · intro h
    by_contra hfull
    have hpos : 0 < f.num := by
      obtain ⟨k, -, hnum⟩ := f.num_pow
      rw [hnum]
      exact Nat.two_pow_pos k
    apply h (f.used - f.num) (by omega)
    rw [hslot, f.slotIdx_eq, show f.rptr + f.used = f.rptr + (f.used - f.num) + f.num by omega,
      Nat.add_mod_right]
  · intro h k hk
    rw [hslot, f.slotIdx_eq]
    exact (Ring.mod_ne_of_lt (by omega) (by omega)).symm

/-- A data packet is acknowledged only if it is stored: where `txAck` moves, the packet is
reliable and in sequence and is in `pHciRxFifo`, and what is put there goes to a free slot
and fits it. -/
def StoreSafe (cb cb' : HciH5Cb) (head : HciH5Head) (p : ℕ → UInt8) : Prop :=
  (cb'.txAck ≠ cb.txAck →
    head.reliable ≠ 0 ∧ head.seqNum = cb.txAck ∧
      cb'.pHciRxFifo = cb.pHciRxFifo.push (rxSlot head p) ∧ cb.pHciRxFifo.FreeSlot) ∧
  (cb'.pHciRxFifo.wptr ≠ cb.pHciRxFifo.wptr →
    cb.pHciRxFifo.FreeSlot ∧ (rxSlot head p).length ≤ cb.pHciRxFifo.size)

/-- The steps that receive a data packet are safe. -/
def StepStoreSafe (step : HciH5Cb → HciH5Event → HciH5Cb) (cb : HciH5Cb) (e : HciH5Event) :
    Prop :=
  match e with
  | .packet _ _ p _ =>
    let head := hciH5UnpackHeader p
    hciH5IsDataType head.pktType = true → StoreSafe cb (step cb e) head p
  | _ => True

/-- A data packet that is not dropped is reliable, and the expected one finds a free slot
that it fits. -/
def StoreOk (cb : HciH5Cb) : HciH5Event → Prop
  | .packet _ _ p len =>
    match cb.kind p len with
    | .unreliable => False
    | .expected =>
      cb.pHciRxFifo.used < cb.pHciRxFifo.num ∧
        (hciH5UnpackHeader p).payloadLen + 1 ≤ cb.pHciRxFifo.size
    | _ => True
  | _ => True

theorem storeOk_packet (cb : HciH5Cb) (now : ℕ) (slip : Bool) (p : ℕ → UInt8) (len : ℕ) :
    (cb.kind p len ≠ .unreliable ∧ (cb.kind p len = .expected →
      cb.pHciRxFifo.used < cb.pHciRxFifo.num ∧
        (hciH5UnpackHeader p).payloadLen + 1 ≤ cb.pHciRxFifo.size)) ↔
      StoreOk cb (.packet now slip p len) := by
  cases hkind : cb.kind p len <;> simp [StoreOk, hkind]

instance (cb : HciH5Cb) : (e : HciH5Event) → Decidable (StoreOk cb e)
  | .packet now slip p len => decidable_of_iff _ (storeOk_packet cb now slip p len)
  | .poll _ _ _ => inferInstanceAs (Decidable True)
  | .hostTx _ => inferInstanceAs (Decidable True)
  | .hostRx => inferInstanceAs (Decidable True)

variable {cb : HciH5Cb} {now : ℕ} {slip : Bool} {head : HciH5Head} {p : ℕ → UInt8} {len : ℕ}

theorem storeSafe_of_unchanged {cb' : HciH5Cb} (hack : cb'.txAck = cb.txAck)
    (hfifo : cb'.pHciRxFifo = cb.pHciRxFifo) : StoreSafe cb cb' head p :=
  ⟨fun h => absurd hack h, fun h => absurd (congrArg HciFifo.wptr hfifo) h⟩

theorem dataAck_rx (cb : HciH5Cb) (now ackNum : ℕ) :
    (hciH5DataAck cb now ackNum).txAck = cb.txAck ∧
      (hciH5DataAck cb now ackNum).pHciRxFifo = cb.pHciRxFifo := by
  unfold hciH5DataAck
  split <;> exact ⟨rfl, rfl⟩

theorem reSendCheck_rx (cb : HciH5Cb) (now : ℕ) :
    (hciH5ReSendCheck cb now).txAck = cb.txAck ∧
      (hciH5ReSendCheck cb now).pHciRxFifo = cb.pHciRxFifo := by
  unfold hciH5ReSendCheck
  split <;> exact ⟨rfl, rfl⟩

theorem txAck_advances (n : ℕ) : (n + 1) % 8 ≠ n := by omega

theorem push_wptr_ne (f : HciFifo) (slot : List UInt8) : (f.push slot).wptr ≠ f.wptr := by
  have := f.wptr_lt
  show (f.wptr + 1) % 256 ≠ f.wptr
  omega

/-- What the kind of a data packet says of its header. -/
theorem kind_expected (h : cb.kind p len = .expected) :
    hciH5IsDataType (hciH5UnpackHeader p).pktType = true ∧
      (hciH5UnpackHeader p).reliable ≠ 0 ∧ (hciH5UnpackHeader p).seqNum = cb.txAck := by
  unfold HciH5Cb.kind at h
  dsimp only at h
  split_ifs at h
  exact ⟨by assumption, by assumption, by assumption⟩

theorem kind_unreliable (h : cb.kind p len = .unreliable) :
    hciH5IsDataType (hciH5UnpackHeader p).pktType = true ∧
      (hciH5UnpackHeader p).reliable = 0 := by
  unfold HciH5Cb.kind at h
  dsimp only at h
  split_ifs at h with _ _ _ _ _ hdata _ _ hrel
  exact ⟨hdata, not_not.mp hrel⟩

theorem length_rxSlot (head : HciH5Head) (p : ℕ → UInt8) :
    (rxSlot head p).length = head.payloadLen + 1 := by
  simp [rxSlot, hciH5Payload]

/-- The expected packet behind `HCI_H5_DecodeDataPdu`. -/
theorem rxSeqOk_rx (cb : HciH5Cb) (now : ℕ) (slip : Bool) (head : HciH5Head) (p : ℕ → UInt8)
    (ackNum : ℕ) :
    (hciH5DataAck (hciH5RxSeqOk cb now slip head p) now ackNum).txAck = (cb.txAck + 1) % 8 ∧
      (hciH5DataAck (hciH5RxSeqOk cb now slip head p) now ackNum).pHciRxFifo =
        cb.pHciRxFifo.push (rxSlot head p) := by
  obtain ⟨hack, hfifo⟩ := dataAck_rx (hciH5RxSeqOk cb now slip head p) now ackNum
  rw [hack, hfifo, rxSeqOk_eq]
  exact ⟨rfl, rfl⟩

theorem rxSeqError_rx (cb : HciH5Cb) (now : ℕ) (head : HciH5Head) (ackNum : ℕ) :
    (hciH5DataAck (hciH5RxSeqError cb head) now ackNum).txAck = cb.txAck ∧
      (hciH5DataAck (hciH5RxSeqError cb head) now ackNum).pHciRxFifo = cb.pHciRxFifo := by
  obtain ⟨hack, hfifo⟩ := dataAck_rx (hciH5RxSeqError cb head) now ackNum
  rw [hack, hfifo]
  unfold hciH5RxSeqError
  exact ⟨rfl, rfl⟩

/-- A packet that was acknowledged and put into the FIFO. -/
theorem storeSafe_of_put {cb' : HciH5Cb} (hack : cb'.txAck = (cb.txAck + 1) % 8)
    (hfifo : cb'.pHciRxFifo = cb.pHciRxFifo.push (rxSlot head p)) :
    StoreSafe cb cb' head p ↔
      (head.reliable ≠ 0 ∧ head.seqNum = cb.txAck) ∧
        cb.pHciRxFifo.used < cb.pHciRxFifo.num ∧
        head.payloadLen + 1 ≤ cb.pHciRxFifo.size := by
  have hne : cb'.txAck ≠ cb.txAck := hack ▸ txAck_advances cb.txAck
  have hwptr : cb'.pHciRxFifo.wptr ≠ cb.pHciRxFifo.wptr := hfifo ▸ push_wptr_ne _ _
  unfold StoreSafe
  rw [← cb.pHciRxFifo.freeSlot_iff, ← length_rxSlot head p]
  constructor
  · rintro ⟨hstored, hwrite⟩
    obtain ⟨hrel, hseq, -, hfree⟩ := hstored hne
    exact ⟨⟨hrel, hseq⟩, hwrite hwptr⟩
  · rintro ⟨⟨hrel, hseq⟩, hfree, hsize⟩
    exact ⟨fun _ => ⟨hrel, hseq, hfifo, hfree⟩, fun _ => ⟨hfree, hsize⟩⟩

theorem packet_storeSafe_iff (blcHciReset : HciFifo → HciFifo → HciFifo × HciFifo)
    (hdata : hciH5IsDataType (hciH5UnpackHeader p).pktType = true) :
    StoreSafe cb (hciH5PacketHandler blcHciReset cb now slip p len) (hciH5UnpackHeader p) p ↔
      StoreOk cb (.packet now slip p len) := by
  unfold StoreOk
  dsimp only
  cases hkind : cb.kind p len with
  | dropped =>
    rw [packetHandler_dropped hkind]
    exact iff_of_true (storeSafe_of_unchanged rfl rfl) trivial
  | pureAck =>
    rw [packetHandler_pureAck hkind]
    refine iff_of_true ?_ trivial
    obtain ⟨hack, hfifo⟩ := reSendCheck_rx
      { cb with
        rxAck := (hciH5UnpackHeader p).ackNum
        history := cb.history.ack (hciH5UnpackHeader p).ackNum } now
    exact storeSafe_of_unchanged hack hfifo
  | linkCtrl =>
    rw [kind_link hkind] at hdata
    exact absurd hdata (by decide)
  | unreliable =>
    rw [packetHandler_unreliable hkind, storeSafe_of_put rfl rfl,
      (kind_unreliable hkind).2]
    simp
  | expected =>
    obtain ⟨hack, hfifo⟩ := rxSeqOk_rx
      { cb with history := cb.history.ack (hciH5UnpackHeader p).ackNum } now slip
      (hciH5UnpackHeader p) p (hciH5UnpackHeader p).ackNum
    rw [packetHandler_expected hkind, @storeSafe_of_put cb _ p _ hack hfifo]
    exact and_iff_right (kind_expected hkind).2
  | unexpected =>
    rw [packetHandler_unexpected hkind]
    refine iff_of_true ?_ trivial
    obtain ⟨hack, hfifo⟩ := rxSeqError_rx
      { cb with history := cb.history.ack (hciH5UnpackHeader p).ackNum } now
      (hciH5UnpackHeader p) (hciH5UnpackHeader p).ackNum
    exact storeSafe_of_unchanged hack hfifo

/-! ## Runs -/

theorem step_storeSafe_iff (blcHciReset : HciFifo → HciFifo → HciFifo × HciFifo) (cb : HciH5Cb)
    (e : HciH5Event) : StepStoreSafe (hciH5Step blcHciReset) cb e ↔ StoreOk cb e := by
  cases e with
  | poll => exact Iff.rfl
  | hostTx => exact Iff.rfl
  | hostRx => exact Iff.rfl
  | packet now slip p len =>
    by_cases hdata : hciH5IsDataType (hciH5UnpackHeader p).pktType = true
    · exact (imp_iff_right hdata).trans (packet_storeSafe_iff blcHciReset hdata)
    · refine iff_of_true (fun h => absurd h hdata) ?_
      unfold StoreOk
      dsimp only
      cases hkind : cb.kind p len with
      | expected => exact absurd (kind_expected hkind).1 hdata
      | unreliable => exact absurd (kind_unreliable hkind).1 hdata
      | _ => trivial

/-- From `HCI_H5_Init` on, every data packet received is stored before it is acknowledged
exactly if no unreliable one is accepted and each expected one finds a free slot that it
fits. -/
theorem store_safe_iff (blcHciReset : HciFifo → HciFifo → HciFifo × HciFifo)
    (own : HciH5Config) (rx tx : HciFifo) (now : ℕ) (es : List HciH5Event) :
    Machine.Along (hciH5Step blcHciReset) (StepStoreSafe (hciH5Step blcHciReset))
        (hciH5Init own rx tx now) es ↔
      Machine.Along (hciH5Step blcHciReset) StoreOk (hciH5Init own rx tx now) es :=
  Machine.along_congr (step_storeSafe_iff blcHciReset)

/-- An unreliable packet is acknowledged, and the ninth packet into a FIFO of 8 slots
overwrites the first. -/
theorem not_storeSafe_example :
    ¬ Machine.Along (hciH5Step fun rx tx => (rx, tx))
        (StepStoreSafe (hciH5Step fun rx tx => (rx, tx))) (h5Run 1 [])
        [h5Receive 0 ⟨0, 0, 0, 0, hciH5PktTypeSco, 0, 1⟩ [0x55]] ∧
      ¬ Machine.Along (hciH5Step fun rx tx => (rx, tx))
        (StepStoreSafe (hciH5Step fun rx tx => (rx, tx))) (h5Run 1 [])
        ((List.range 9).map fun i => h5Data 0 (i % 8) 0) := by
  rw [Machine.along_congr (step_storeSafe_iff _), Machine.along_congr (step_storeSafe_iff _)]
  decide +kernel

end TlBleSdk.Hci
