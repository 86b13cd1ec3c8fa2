import TlBleSdk.Ota.Slave

/-!
# What a step of a slave can do

`OtaSlave.core` is the part of a slave that its image and the end of a transfer depend on.
`SlaveOutcome` and `BatchOutcome` list what a call of the two state machines makes of it, with
the guard of each case. The results about runs are derived from `slaveOutcome` and
`batchOutcome`, and do not unfold a state machine again.
-/

namespace TlBleSdk.Ota

open Hci NorFlash

/-- The part of a slave that its image and the end of a transfer depend on. -/
structure SlaveCore where
  flashAddr : ℕ
  totalBinSize : ℕ
  maxBlockNum : ℕ
  blockNum : ℕ
  fwCRC : BitVec 16
  pktCRC : BitVec 16
  state : OtaSlaveState
  recvBlkNum : ℕ
  lossPacketBlock : List ℕ
  devMac : List UInt8
  flash : Cells
  running : Bool
  rebooted : Bool
  crashed : Bool

/-- Lengths are not negative and end with the frame or the object, and writes stay in the slot
that is erased. -/
def OtaOp.Safe (flashAddr : ℕ) : OtaOp → Prop
  | .access object off n => 0 ≤ n ∧ off + n ≤ object.size
  | .flashWrite addr n left =>
    0 ≤ n ∧ n ≤ left ∧ flashAddr ≤ addr ∧ addr + n ≤ flashAddr + otaSlotLen
  | .flashRead _ _ | .send _ => True

instance (flashAddr : ℕ) : ∀ op : OtaOp, Decidable (op.Safe flashAddr)
  | .access _ _ _ => inferInstanceAs (Decidable (_ ∧ _))
  | .flashWrite _ _ _ => inferInstanceAs (Decidable (_ ∧ _ ∧ _ ∧ _))
  | .flashRead _ _ | .send _ => inferInstanceAs (Decidable True)

namespace OtaSlave

@[simps] def core (s : OtaSlave) : SlaveCore where
  flashAddr := s.flashAddr
  totalBinSize := s.totalBinSize
  maxBlockNum := s.maxBlockNum
  blockNum := s.blockNum
  fwCRC := s.fwCRC
  pktCRC := s.pktCRC
  state := s.state
  recvBlkNum := s.recvBlkNum
  lossPacketBlock := s.lossPacketBlock
  devMac := s.devMac
  flash := s.flash
  running := s.running
  rebooted := s.rebooted
  crashed := s.crashed

/-- The last call only made safe accesses. -/
def SafeOps (s : OtaSlave) : Prop := ∀ op ∈ s.ops, op.Safe s.flashAddr

instance (s : OtaSlave) : Decidable s.SafeOps := inferInstanceAs (Decidable (∀ op ∈ _, _))

variable {s : OtaSlave} {Data : ℕ → UInt8}

theorem safeOps_of_nil (h : s.ops = []) : s.SafeOps := by
  intro op hop
  rw [h] at hop
  exact absurd hop List.not_mem_nil

@[simp] theorem core_clearOps (s : OtaSlave) : s.clearOps.core = s.core := rfl

/-- An access behind the others. -/
theorem forall_mem_snoc {P : OtaOp → Prop} {ops : List OtaOp} {op : OtaOp} :
    (∀ op' ∈ ops ++ [op], P op') ↔ (∀ op' ∈ ops, P op') ∧ P op := by
  simp only [List.mem_append, List.mem_singleton, or_imp, forall_and, forall_eq]

@[simp] theorem safeOps_macSendData (n : ℕ) : (s.macSendData n).SafeOps ↔ s.SafeOps :=
  forall_mem_snoc.trans (and_iff_left trivial)

@[simp] theorem safeOps_macBroadcastData (n : ℕ) : (s.macBroadcastData n).SafeOps ↔ s.SafeOps :=
  forall_mem_snoc.trans (and_iff_left trivial)

/-- A frame fits into `RxFrame` exactly if its length byte is at most 51. -/
theorem safeOps_rx (hne : Data 0 ≠ 0) :
    (s.rx Data).SafeOps ↔ s.SafeOps ∧ (Data 0).toNat ≤ otaFramePayloadMax + 1 := by
  refine forall_mem_snoc.trans (and_congr_right fun _ => ?_)
  have hpos : (Data 0).toNat ≠ 0 := fun h => hne (UInt8.toNat_inj.mp h)
  have hsize : OtaObject.rxFramePayload.size = otaFramePayloadMax := rfl
  show (0 : ℤ) ≤ (Data 0).toNat - 1 ∧ (0 : ℤ) + ((Data 0).toNat - 1) ≤ OtaObject.size _ ↔ _
  rw [hsize]
  omega

/-- A write of the `n` bytes of the frame behind the first `off` of its payload. -/
theorem safeOps_flashWritePage (addr : ℕ) (n : ℤ) (off : ℕ) :
    (s.flashWritePage addr n off).SafeOps ↔
      s.SafeOps ∧ 0 ≤ n ∧ n ≤ s.len - 1 - off ∧ s.flashAddr ≤ addr ∧
        addr + n ≤ s.flashAddr + otaSlotLen :=
  forall_mem_snoc

@[simp] theorem len_flashWritePage (addr : ℕ) (n : ℤ) (off : ℕ) :
    (s.flashWritePage addr n off).len = s.len := rfl

@[simp] theorem flashAddr_flashWritePage (addr : ℕ) (n : ℤ) (off : ℕ) :
    (s.flashWritePage addr n off).flashAddr = s.flashAddr := rfl

/-! ## The frame received -/

@[simp] theorem len_rx : (s.rx Data).len = (Data 0).toNat := rfl

@[simp] theorem type_rx : (s.rx Data).rxFrame.type = Data 1 := rfl

@[simp] theorem core_rx : (s.rx Data).core = s.core := rfl

@[simp] theorem core_sendLossRsp (s : OtaSlave) : s.sendLossRsp.core = s.core := rfl

/-- What a frame brings is in `RxFrame`. -/
theorem payload_rx {i : ℕ} (hi : i + 1 < (Data 0).toNat) :
    (s.rx Data).rxFrame.payload i = Data (i + 2) := by
  have hlen : i < (Data 0).toNat - 1 := by omega
  show memcpy _ 0 (bytes (fun i => Data (i + 2)) ((Data 0).toNat - 1)) i = _
  unfold memcpy
  rw [if_pos ⟨Nat.zero_le i, by rwa [length_bytes, Nat.zero_add]⟩, Nat.sub_zero,
    getD_bytes _ hlen]

end OtaSlave

/-! ## The ready states of the slave of one master -/

/-- How a ready state ends: the frame is answered, or the slave goes on to listen. -/
inductive Readied (answer : OtaSlave → Option OtaSlave) (s : OtaSlave) (msg : OtaMsg) :
    OtaSlave → Prop
  | answered {Data : ℕ → UInt8} {t : OtaSlave} (h : Data 0 ≠ 0) (hmsg : msg = .data Data h)
    (hlen : (Data 0).toNat ≤ otaFramePayloadMax + 1) (hans : answer (s.rx Data) = some t) :
    Readied answer s msg t
  | listens {t : OtaSlave}
    (hnone : ∀ Data h, msg = .data Data h → (Data 0).toNat ≤ otaFramePayloadMax + 1 →
      answer (s.rx Data) = none)
    (hcore : t.core = s.core ∨ t.core = { s.core with state := .error })
    (hsafe : s.SafeOps → t.SafeOps) : Readied answer s msg t

variable {s : OtaSlave}

theorem core_otaSlaveRetry (s : OtaSlave) (msg : OtaMsg) :
    (otaSlaveRetry s msg).core = s.core ∨
      (otaSlaveRetry s msg).core = { s.core with state := .error } := by
  unfold otaSlaveRetry
  split
  · exact .inr rfl
  · cases msg <;> exact .inl rfl

theorem safeOps_otaSlaveRetry (msg : OtaMsg) (h : s.SafeOps) :
    (otaSlaveRetry s msg).SafeOps := by
  unfold otaSlaveRetry
  split
  · exact h
  · cases msg <;> exact h

/-- A frame that is too long for `RxFrame`. -/
theorem otaSlaveReady_long (answer : OtaSlave → Option OtaSlave) (s : OtaSlave)
    {Data : ℕ → UInt8} (h : Data 0 ≠ 0) (hlen : otaFramePayloadMax + 1 < (Data 0).toNat) :
    otaSlaveReady answer s (.data Data h) = { s.rxHeader Data with state := .error } :=
  if_pos hlen

/-- A frame that fits into `RxFrame`. -/
theorem otaSlaveReady_data (answer : OtaSlave → Option OtaSlave) (s : OtaSlave)
    {Data : ℕ → UInt8} (h : Data 0 ≠ 0) (hlen : (Data 0).toNat ≤ otaFramePayloadMax + 1) :
    otaSlaveReady answer s (.data Data h) =
      (answer (s.rx Data)).getD (otaSlaveRetry (s.rx Data) (.data Data h)) :=
  if_neg (Nat.not_lt_of_le hlen)

theorem readied (answer : OtaSlave → Option OtaSlave) (s : OtaSlave) (msg : OtaMsg) :
    Readied answer s msg (otaSlaveReady answer s msg) := by
  cases msg with
  | data Data h =>
    by_cases hlen : (Data 0).toNat ≤ otaFramePayloadMax + 1
    · rw [otaSlaveReady_data answer s h hlen]
      cases hans : answer (s.rx Data) with
      | some t => exact .answered h rfl hlen hans
      | none =>
        rw [Option.getD_none]
        refine .listens (fun D _ hmsg _ => ?_) (core_otaSlaveRetry _ _) fun hs => ?_
        · cases hmsg
          exact hans
        · exact safeOps_otaSlaveRetry _ ((OtaSlave.safeOps_rx h).mpr ⟨hs, hlen⟩)
    · rw [otaSlaveReady_long answer s h (Nat.lt_of_not_le hlen)]
      refine .listens (fun D _ hmsg hle => ?_) (.inr rfl) fun hs => hs
      cases hmsg
      exact absurd hle hlen
  | invalidData | timeout | txDone =>
    exact .listens (fun _ _ hmsg => nomatch hmsg) (core_otaSlaveRetry _ _)
      (safeOps_otaSlaveRetry _)

/-- The slave of one master programs a block: it is ready for data, and the frame received fits
and carries the block that follows the last one. -/
structure OtaSlave.Stores (s : OtaSlave) (Data : ℕ → UInt8) : Prop where
  state : s.state = .dataReady
  len : (Data 0).toNat ≤ otaFramePayloadMax + 1
  type : Data 1 = otaFrameTypeData
  next : (s.rx Data).rxBlockNum = s.blockNum + 1

instance (s : OtaSlave) (Data : ℕ → UInt8) : Decidable (s.Stores Data) :=
  decidable_of_iff (s.state = .dataReady ∧ (Data 0).toNat ≤ otaFramePayloadMax + 1 ∧
    Data 1 = otaFrameTypeData ∧ (s.rx Data).rxBlockNum = s.blockNum + 1)
    ⟨fun h => ⟨h.1, h.2.1, h.2.2.1, h.2.2.2⟩, fun h => ⟨h.state, h.len, h.type, h.next⟩⟩

/-- A call with this message does not program a block. -/
def OtaSlave.StoresNone (s : OtaSlave) (msg : Option OtaMsg) : Prop :=
  ∀ Data h, msg = some (.data Data h) → ¬ s.Stores Data

/-- The frame asks to start a transfer. -/
def OtaSlave.Starts (s : OtaSlave) (Data : ℕ → UInt8) : Prop :=
  Data 1 = otaFrameTypeCmd ∧ (s.rx Data).rxFrame.payload 0 = otaCmdIdStartReq

/-- The states that a call may lead to without a look at the image. -/
def OtaSlaveState.Moves (a b : OtaSlaveState) : Prop :=
  b = a ∨ b = .error ∨ (a = .idle ∧ b = .fwVersionReady) ∨ (a = .fwVersionReady ∧ b = .startReady)

/-- What a call of `OTA_SlaveStart` makes of a slave. -/
inductive SlaveOutcome (s : OtaSlave) (msg : Option OtaMsg) (t : OtaSlave) : Prop
  | keep (state : OtaSlaveState) (hmove : s.state.Moves state) (hnone : s.StoresNone msg)
    (hcore : t.core = { s.core with state := state }) (hsafe : t.SafeOps)
  | started (Data : ℕ → UInt8) (h : Data 0 ≠ 0) (hmsg : msg = some (.data Data h))
    (hstate : s.state = .startReady) (hreq : s.Starts Data)
    (hcore : t.core = { s.core with
      maxBlockNum := bytesToUint16 (s.rx Data).rxFrame.payload 1
      state := .dataReady })
    (hsafe : t.SafeOps)
  | store (Data : ℕ → UInt8) (h : Data 0 ≠ 0) (hmsg : msg = some (.data Data h))
    (hstores : s.Stores Data) (heq : t = (s.rx Data).storeBlock (s.blockNum + 1))
  | ended (hstate : s.state = .endReady) (hcore : t.core = { s.core with state := .ended })
    (hsafe : t.SafeOps)
  | verify (hstate : s.state = .ended) (heq : t = s.verify fun fwCRC => fwCRC = s.pktCRC)
  | erase (hstate : s.state = .error)
    (heq : t = { s with flash := otaFlashErase s.flash s.flashAddr, running := false })

section Outcome

variable {msg : Option OtaMsg} {m : OtaMsg} {t : OtaSlave} {Data : ℕ → UInt8}

theorem storesNone_of_state (h : s.state ≠ .dataReady) : s.StoresNone msg :=
  fun _ _ _ hs => h hs.state

/-- A call that changes nothing but buffers. -/
theorem SlaveOutcome.same (hnone : s.StoresNone msg) (hcore : t.core = s.core)
    (hsafe : t.SafeOps) : SlaveOutcome s msg t :=
  .keep s.state (.inl rfl) hnone hcore hsafe

@[simp] theorem safeOps_sendCmd {cmdId : UInt8} {value : Option (List UInt8)} :
    (s.sendCmd cmdId value).SafeOps ↔ s.SafeOps := OtaSlave.safeOps_macSendData _

/-- A ready state, from its answers. -/
theorem SlaveOutcome.of_ready {answer : OtaSlave → Option OtaSlave} (hs : s.SafeOps)
    (hanswer : ∀ Data h t, m = .data Data h → (s.rx Data).SafeOps →
      (Data 0).toNat ≤ otaFramePayloadMax + 1 → answer (s.rx Data) = some t →
        SlaveOutcome s (some m) t)
    (hstores : ∀ Data, s.Stores Data → answer (s.rx Data) ≠ none) :
    SlaveOutcome s (some m) (otaSlaveReady answer s m) := by
  cases readied answer s m with
  | answered h hmsg hlen hans =>
    exact hanswer _ h _ hmsg ((OtaSlave.safeOps_rx h).mpr ⟨hs, hlen⟩) hlen hans
  | listens hnone hcore hsafe =>
    have hstoresNone : s.StoresNone (some m) := by
      intro Data h hmsg hst
      exact hstores Data hst (hnone Data h (Option.some.inj hmsg) hst.len)
    rcases hcore with hcore | hcore
    · exact .same hstoresNone hcore (hsafe hs)
    · exact .keep .error (.inr (.inl rfl)) hstoresNone hcore (hsafe hs)

theorem outcome_fwVersionReady (hs : s.SafeOps) (hstate : s.state = .fwVersionReady) :
    SlaveOutcome s (some m) (otaSlaveReady otaSlaveFwVersionReady s m) := by
  have hnone : ∀ msg, s.StoresNone msg := fun _ => storesNone_of_state (by rw [hstate]; decide)
  refine .of_ready hs (fun Data h t hmsg hsafe hlen hans => ?_) fun Data hst => ?_
  · rw [otaSlaveFwVersionReady] at hans
    split at hans
    · injection hans with hans
      rw [← hans]
      exact .keep .startReady (.inr (.inr (.inr ⟨hstate, rfl⟩))) (hnone _) rfl
        (safeOps_sendCmd.mpr hsafe)
    · cases hans
  · exact absurd hst.state (by rw [hstate]; decide)

theorem outcome_startReady (hs : s.SafeOps) (hstate : s.state = .startReady) :
    SlaveOutcome s (some m) (otaSlaveReady otaSlaveStartReady s m) := by
  have hnone : ∀ msg, s.StoresNone msg := fun _ => storesNone_of_state (by rw [hstate]; decide)
  refine .of_ready hs (fun Data h t hmsg hsafe hlen hans => ?_) fun Data hst => ?_
  · rw [otaSlaveStartReady] at hans
    split_ifs at hans with hcmd hversion hstart
    · injection hans with hans
      rw [← hans]
      exact .same (hnone _) rfl ((OtaSlave.safeOps_macSendData _).mpr hsafe)
    · injection hans with hans
      rw [← hans]
      exact .started Data h (congrArg some hmsg) hstate ⟨hcmd, hstart⟩ rfl
        (safeOps_sendCmd.mpr hsafe)
  · exact absurd hst.state (by rw [hstate]; decide)

theorem outcome_dataReady (hs : s.SafeOps) (hstate : s.state = .dataReady) :
    SlaveOutcome s (some m) (otaSlaveReady otaSlaveDataReady s m) := by
  refine .of_ready hs (fun Data h t hmsg hsafe hlen hans => ?_) fun Data hst => ?_
  · have hagain : (s.rx Data).sendAgain.SafeOps := (OtaSlave.safeOps_macSendData _).mpr hsafe
    rw [otaSlaveDataReady] at hans
    split_ifs at hans with hreq hdata hsame hnext
    · injection hans with hans
      rw [← hans]
      refine .same (fun D _ hD hst => ?_) rfl hagain
      cases hmsg
      cases hD
      exact absurd (hst.type.symm.trans hreq.1) (by decide)
    · injection hans with hans
      rw [← hans]
      refine .same (fun D _ hD hst => ?_) rfl hagain
      cases hmsg
      cases hD
      exact Nat.succ_ne_self s.blockNum (hst.next.symm.trans hsame)
    · injection hans with hans
      rw [← hans, hnext]
      exact .store Data h (congrArg some hmsg) ⟨hstate, hlen, hdata, hnext⟩ rfl
  · have hcmd : ¬ ((s.rx Data).rxFrame.type = otaFrameTypeCmd ∧
        (s.rx Data).rxFrame.payload 0 = otaCmdIdStartReq) :=
      fun hreq => absurd (hst.type.symm.trans hreq.1) (by decide)
    have hsame : (s.rx Data).rxBlockNum ≠ (s.rx Data).blockNum :=
      fun hsame => Nat.succ_ne_self s.blockNum (hst.next.symm.trans hsame)
    have heq : otaSlaveDataReady (s.rx Data) =
        some ((s.rx Data).storeBlock (s.rx Data).rxBlockNum) :=
      (if_neg hcmd).trans ((if_pos hst.type).trans ((if_neg hsame).trans (if_pos hst.next)))
    rw [heq]
    exact Option.some_ne_none _

theorem outcome_endReady (hs : s.SafeOps) (hstate : s.state = .endReady) :
    SlaveOutcome s (some m) (otaSlaveReady otaSlaveEndReady s m) := by
  have hnone : ∀ msg, s.StoresNone msg := fun _ => storesNone_of_state (by rw [hstate]; decide)
  refine .of_ready hs (fun Data h t hmsg hsafe hlen hans => ?_) fun Data hst => ?_
  · rw [otaSlaveEndReady] at hans
    split_ifs at hans with hsame hend
    · injection hans with hans
      rw [← hans]
      exact .same (hnone _) rfl ((OtaSlave.safeOps_macSendData _).mpr hsafe)
    · dsimp only at hans
      split at hans
      · injection hans with hans
        rw [← hans]
        exact .keep .error (.inr (.inl rfl)) (hnone _) rfl hsafe
      · injection hans with hans
        rw [← hans]
        exact .ended hstate rfl (safeOps_sendCmd.mpr hsafe)
  · exact absurd hst.state (by rw [hstate]; decide)

theorem slaveOutcome (now : ℕ) (hs : s.SafeOps) (msg : Option OtaMsg) :
    SlaveOutcome s msg (otaSlaveStart now s msg) := by
  have hnone : s.state ≠ .dataReady → s.StoresNone msg := storesNone_of_state
  cases hstate : s.state with
  | idle =>
    rw [otaSlaveStart.eq_def, hstate]
    exact .keep .fwVersionReady (.inr (.inr (.inl ⟨hstate, rfl⟩)))
      (hnone (by rw [hstate]; decide)) rfl hs
  | ended =>
    rw [otaSlaveStart.eq_def, hstate]
    exact .verify hstate rfl
  | error => exact .erase hstate (by rw [otaSlaveStart.eq_def, hstate])
  | dataLossCheck =>
    rw [otaSlaveStart.eq_def, hstate]
    exact .same (hnone (by rw [hstate]; decide)) rfl hs
  | fwVersionReady | startReady | dataReady | endReady =>
    cases msg with
    | none =>
      rw [otaSlaveStart.eq_def, hstate]
      exact .same (fun _ _ hmsg => nomatch hmsg) rfl hs
    | some m =>
      rw [otaSlaveStart.eq_def, hstate]
      first
        | exact outcome_fwVersionReady hs hstate
        | exact outcome_startReady hs hstate
        | exact outcome_dataReady hs hstate
        | exact outcome_endReady hs hstate

end Outcome

/-! ## The batch slave -/

/-- The state takes the frames that it is given: its time is not over. -/
def OtaSlave.Listens (s : OtaSlave) (now : ℕ) : Prop :=
  match s.state with
  | .startReady => ¬ (s.stateTick ≠ 0 ∧
      clockTimeExceed now s.stateTick otaWaitBatchOtaStartDuration = true)
  | .dataReady => ¬ (s.stateTick ≠ 0 ∧ clockTimeExceed now s.stateTick otaProcessDuration = true)
  | .dataLossCheck => ¬ (s.lossCheckTick ≠ 0 ∧
      clockTimeExceed now s.lossCheckTick otaLossCheckDuration = true)
  | _ => False

instance (s : OtaSlave) (now : ℕ) : Decidable (s.Listens now) := by
  unfold OtaSlave.Listens
  cases s.state <;> infer_instance

/-- The frame that is taken fits into `RxFrame`. -/
def OtaSlave.Fits (s : OtaSlave) (now : ℕ) (msg : Option OtaMsg) : Prop :=
  ∀ Data h, msg = some (.data Data h) → s.Listens now → (Data 0).toNat ≤ otaFramePayloadMax + 1

/-- The batch slave notes the last blocks as lost and answers. -/
structure OtaSlave.NotesLoss (s : OtaSlave) (now : ℕ) (Data : ℕ → UInt8) : Prop where
  state : s.state = .dataReady
  listens : s.Listens now
  type : Data 1 = otaFrameTypeCmd
  id : (s.rx Data).rxFrame.payload 0 = otaCmdIdDataLossReq
  ne : s.maxBlockNum ≠ s.recvBlkNum
  le : (s.maxBlockNum : ℤ) - s.recvBlkNum ≤ dataLossCheckCnt

/-- The batch slave programs a later block. -/
structure OtaSlave.BatchStores (s : OtaSlave) (now : ℕ) (Data : ℕ → UInt8) : Prop where
  state : s.state = .dataReady
  listens : s.Listens now
  type : Data 1 = otaFrameTypeData
  next : s.blockNum + 1 ≤ (s.rx Data).rxBlockNum

/-- The batch slave programs a block that was lost. -/
structure OtaSlave.Supplements (s : OtaSlave) (now : ℕ) (Data : ℕ → UInt8) : Prop where
  state : s.state = .dataLossCheck
  listens : s.Listens now
  mac : bytes (fun i => (s.rx Data).rxFrame.payload (i + 2)) 6 = s.devMac
  mem : (s.rx Data).rxBlockNum ∈ s.lossPacketBlock

instance (s : OtaSlave) (now : ℕ) (Data : ℕ → UInt8) : Decidable (s.BatchStores now Data) :=
  decidable_of_iff (s.state = .dataReady ∧ s.Listens now ∧ Data 1 = otaFrameTypeData ∧
    s.blockNum + 1 ≤ (s.rx Data).rxBlockNum)
    ⟨fun h => ⟨h.1, h.2.1, h.2.2.1, h.2.2.2⟩, fun h => ⟨h.state, h.listens, h.type, h.next⟩⟩

instance (s : OtaSlave) (now : ℕ) (Data : ℕ → UInt8) : Decidable (s.Supplements now Data) :=
  decidable_of_iff (s.state = .dataLossCheck ∧ s.Listens now ∧
    bytes (fun i => (s.rx Data).rxFrame.payload (i + 2)) 6 = s.devMac ∧
      (s.rx Data).rxBlockNum ∈ s.lossPacketBlock)
    ⟨fun h => ⟨h.1, h.2.1, h.2.2.1, h.2.2.2⟩, fun h => ⟨h.state, h.listens, h.mac, h.mem⟩⟩

/-- A call with this message neither notes a loss nor programs a block. -/
def OtaSlave.BatchQuiet (s : OtaSlave) (now : ℕ) (msg : Option OtaMsg) : Prop :=
  ∀ Data h, msg = some (.data Data h) →
    ¬ s.NotesLoss now Data ∧ ¬ s.BatchStores now Data ∧ ¬ s.Supplements now Data

/-- The states that a call of the batch slave may lead to without a look at the image. -/
def OtaSlaveState.BatchMoves (a b : OtaSlaveState) : Prop :=
  b = a ∨ b = .error ∨ (a = .idle ∧ b = .startReady) ∨ (a = .startReady ∧ b = .idle) ∨
    (a = .dataLossCheck ∧ b = .dataReady)

/-- What a call of `OTA_Batch_SlaveStart` makes of a slave. -/
inductive BatchOutcome (now : ℕ) (s : OtaSlave) (msg : Option OtaMsg) (t : OtaSlave) : Prop
  | keep (state : OtaSlaveState) (hmove : s.state.BatchMoves state)
    (hquiet : s.BatchQuiet now msg) (hcore : t.core = { s.core with state := state })
    (hsafe : t.SafeOps ↔ s.Fits now msg)
  | started (Data : ℕ → UInt8) (h : Data 0 ≠ 0) (hmsg : msg = some (.data Data h))
    (hstate : s.state = .startReady)
    (hcore : t.core = { s.core with
      maxBlockNum := bytesToUint16 (s.rx Data).rxFrame.payload 8
      state := .dataReady })
    (hsafe : t.SafeOps ↔ s.Fits now msg)
  /-- The master does not want an update, and the slave looks at its slot. -/
  | declined (hstate : s.state = .startReady) (hcore : t.core = { s.core with state := .ended })
    (hsafe : t.SafeOps ↔ s.Fits now msg)
  | complete (hstate : s.state = .dataReady) (hall : s.maxBlockNum = s.recvBlkNum)
    (hquiet : s.BatchQuiet now msg) (hcore : t.core = { s.core with state := .ended })
    (hsafe : t.SafeOps ↔ s.Fits now msg)
  | noteLoss (Data : ℕ → UInt8) (h : Data 0 ≠ 0) (hmsg : msg = some (.data Data h))
    (hnotes : s.NotesLoss now Data)
    (heq : t = { ((s.rx Data).noteLost (s.maxBlockNum - s.blockNum)).sendLossRsp with
      state := .dataLossCheck
      lossCheckTick := clockTimeOr1 now })
  | store (Data : ℕ → UInt8) (h : Data 0 ≠ 0) (hmsg : msg = some (.data Data h))
    (hstores : s.BatchStores now Data)
    (heq : t = otaBatchSlaveStoreBlock (s.rx Data) (s.rx Data).rxBlockNum)
  | supplement (Data : ℕ → UInt8) (h : Data 0 ≠ 0) (hmsg : msg = some (.data Data h))
    (hsup : s.Supplements now Data)
    (heq : t = otaBatchSlaveSupplement (s.rx Data) (s.rx Data).rxBlockNum)
  | verify (hstate : s.state = .ended) (heq : t = s.verify fun _ => true)
  | erase (hstate : s.state = .error)
    (heq : t = { s with flash := otaFlashErase s.flash s.flashAddr, running := false })

section BatchOutcome

variable {now : ℕ} {msg : Option OtaMsg} {m : OtaMsg} {Data : ℕ → UInt8}

theorem not_listens_of_state (hstart : s.state ≠ .startReady) (hdata : s.state ≠ .dataReady)
    (hloss : s.state ≠ .dataLossCheck) : ¬ s.Listens now := by
  unfold OtaSlave.Listens
  split
  next h => exact absurd h hstart
  next h => exact absurd h hdata
  next h => exact absurd h hloss
  next => exact not_false

theorem fits_of_not_listens (h : ¬ s.Listens now) : s.Fits now msg :=
  fun _ _ _ hl => absurd hl h

/-- A message without a frame. -/
theorem fits_of_no_data (h : ∀ Data hne, msg ≠ some (.data Data hne)) : s.Fits now msg :=
  fun Data hne hmsg => absurd hmsg (h Data hne)

/-- A frame is taken. -/
theorem safeOps_rx_iff_fits (hs : s.SafeOps) (hl : s.Listens now) (h : Data 0 ≠ 0) :
    (s.rx Data).SafeOps ↔ s.Fits now (some (.data Data h)) := by
  rw [OtaSlave.safeOps_rx h]
  constructor
  · rintro ⟨-, hlen⟩ D hD hmsg -
    cases hmsg
    exact hlen
  · intro hfits
    exact ⟨hs, hfits Data h rfl hl⟩

theorem batchQuiet_of_state (hdata : s.state ≠ .dataReady) (hloss : s.state ≠ .dataLossCheck) :
    s.BatchQuiet now msg :=
  fun _ _ _ => ⟨fun h => hdata h.state, fun h => hdata h.state, fun h => hloss h.state⟩

theorem batchQuiet_of_not_listens (hdeaf : ¬ s.Listens now) : s.BatchQuiet now msg :=
  fun _ _ _ => ⟨fun h => hdeaf h.listens, fun h => hdeaf h.listens, fun h => hdeaf h.listens⟩

theorem batchQuiet_of_no_data (h : ∀ Data hne, msg ≠ some (.data Data hne)) :
    s.BatchQuiet now msg :=
  fun Data hne hmsg => absurd hmsg (h Data hne)

theorem batchQuiet_data {h : Data 0 ≠ 0} (hnotes : ¬ s.NotesLoss now Data)
    (hstores : ¬ s.BatchStores now Data) (hsup : ¬ s.Supplements now Data) :
    s.BatchQuiet now (some (.data Data h)) := by
  intro D hD hmsg
  cases hmsg
  exact ⟨hnotes, hstores, hsup⟩

theorem batchOutcome_startReady (hs : s.SafeOps) (hstate : s.state = .startReady) :
    BatchOutcome now s (some m) (otaBatchSlaveStartReady now s m) := by
  have hquiet : s.BatchQuiet now (some m) :=
    batchQuiet_of_state (by rw [hstate]; decide) (by rw [hstate]; decide)
  have hlistens : s.Listens now ↔ ¬ (s.stateTick ≠ 0 ∧
      clockTimeExceed now s.stateTick otaWaitBatchOtaStartDuration = true) := by
    rw [OtaSlave.Listens, hstate]
  unfold otaBatchSlaveStartReady
  split
  next hover =>
    have hdeaf : ¬ s.Listens now := fun hl => hlistens.mp hl hover
    exact .keep .error (.inr (.inl rfl)) hquiet rfl
      (iff_of_true hs (fits_of_not_listens hdeaf))
  next hover =>
    cases m with
    | data Data h =>
      have hrx := safeOps_rx_iff_fits hs (hlistens.mpr hover) h
      dsimp only
      split
      · unfold otaBatchSlaveStartReq
        split
        · exact .keep .idle (.inr (.inr (.inr (.inl ⟨hstate, rfl⟩)))) hquiet rfl hrx
        · dsimp only
          split
          · exact .declined hstate rfl hrx
          · split
            · exact .keep .error (.inr (.inl rfl)) hquiet rfl hrx
            · exact .started Data h rfl hstate rfl hrx
      · exact .keep s.state (.inl rfl) hquiet rfl hrx
    | invalidData | timeout | txDone =>
      exact .keep s.state (.inl rfl) hquiet rfl
        (iff_of_true hs (fits_of_no_data fun _ _ hmsg => by cases hmsg))

/-- The request that ends a transfer. -/
theorem batchOutcome_lossReq (hstate : s.state = .dataReady) (hl : s.Listens now) (h : Data 0 ≠ 0)
    (hrx : (s.rx Data).SafeOps ↔ s.Fits now (some (.data Data h)))
    (htype : Data 1 = otaFrameTypeCmd)
    (hid : (s.rx Data).rxFrame.payload 0 = otaCmdIdDataLossReq) :
    BatchOutcome now s (some (.data Data h)) (otaBatchSlaveLossReq now (s.rx Data)) := by
  have hstores : ¬ s.BatchStores now Data := by
    intro hst
    exact absurd (hst.type.symm.trans htype) (by decide)
  have hsup : ¬ s.Supplements now Data := by
    intro hst
    exact absurd (hst.state.symm.trans hstate) (by decide)
  unfold otaBatchSlaveLossReq
  split
  next hall =>
    exact .complete hstate hall (batchQuiet_data (fun hn => hn.ne hall) hstores hsup) rfl hrx
  next hne =>
    split
    next hmany =>
      exact .keep .error (.inr (.inl rfl))
        (batchQuiet_data (fun hn => absurd hn.le (Int.not_le.mpr hmany)) hstores hsup) rfl hrx
    next hmany =>
      exact .noteLoss Data h rfl ⟨hstate, hl, htype, hid, hne, Int.not_lt.mp hmany⟩ rfl

theorem batchOutcome_dataReady (hs : s.SafeOps) (hstate : s.state = .dataReady) :
    BatchOutcome now s (some m) (otaBatchSlaveDataReady now s m) := by
  have hlistens : s.Listens now ↔ ¬ (s.stateTick ≠ 0 ∧
      clockTimeExceed now s.stateTick otaProcessDuration = true) := by
    rw [OtaSlave.Listens, hstate]
  unfold otaBatchSlaveDataReady
  split
  next hover =>
    have hdeaf : ¬ s.Listens now := fun hl => hlistens.mp hl hover
    exact .keep .error (.inr (.inl rfl)) (batchQuiet_of_not_listens hdeaf) rfl
      (iff_of_true hs (fits_of_not_listens hdeaf))
  next hover =>
    cases m with
    | data Data h =>
      have hl : s.Listens now := hlistens.mpr hover
      have hrx := safeOps_rx_iff_fits hs hl h
      have hsup : ¬ s.Supplements now Data := by
        intro hst
        exact absurd (hst.state.symm.trans hstate) (by decide)
      -- a frame that is neither the request nor a later block
      have hsame : ¬ (Data 1 = otaFrameTypeCmd ∧
            (s.rx Data).rxFrame.payload 0 = otaCmdIdDataLossReq) →
          ¬ (Data 1 = otaFrameTypeData ∧ s.blockNum + 1 ≤ (s.rx Data).rxBlockNum) →
          ∀ t : OtaSlave, t.core = s.core → (t.SafeOps ↔ (s.rx Data).SafeOps) →
            BatchOutcome now s (some (.data Data h)) t := by
        intro hreq hnext t hcore hsafe
        exact .keep s.state (.inl rfl) (batchQuiet_data (fun hn => hreq ⟨hn.type, hn.id⟩)
          (fun hst => hnext ⟨hst.type, hst.next⟩) hsup) hcore (hsafe.trans hrx)
      dsimp only
      split
      next htype =>
        have hnext : ¬ (Data 1 = otaFrameTypeData ∧ s.blockNum + 1 ≤ (s.rx Data).rxBlockNum) :=
          fun hst => absurd (hst.1.symm.trans htype) (by decide)
        split
        next hid =>
          exact hsame (fun hreq => absurd (hreq.2.symm.trans hid) (by decide)) hnext _ rfl Iff.rfl
        next hid =>
          split
          next hreq => exact batchOutcome_lossReq hstate hl h hrx htype hreq
          next hreq => exact hsame (fun hn => hreq hn.2) hnext _ rfl Iff.rfl
      next htype =>
        have hreq : ¬ (Data 1 = otaFrameTypeCmd ∧
            (s.rx Data).rxFrame.payload 0 = otaCmdIdDataLossReq) := fun hn => htype hn.1
        split
        next hdata =>
          unfold otaBatchSlaveData
          split
          next hequal =>
            refine hsame hreq (fun hst => ?_) _ rfl Iff.rfl
            exact absurd (hequal.symm.trans_ge hst.2) (Nat.not_succ_le_self _)
          next hequal =>
            split
            next hnext => exact .store Data h rfl ⟨hstate, hl, hdata, hnext⟩ rfl
            next hnext => exact hsame hreq (fun hst => hnext hst.2) _ rfl Iff.rfl
        next hdata => exact hsame hreq (fun hst => hdata hst.1) _ rfl Iff.rfl
    | invalidData | timeout | txDone =>
      exact .keep s.state (.inl rfl) (batchQuiet_of_no_data fun _ _ hmsg => by cases hmsg) rfl
        (iff_of_true hs (fits_of_no_data fun _ _ hmsg => by cases hmsg))

theorem batchOutcome_dataLossCheck (hs : s.SafeOps) (hstate : s.state = .dataLossCheck) :
    BatchOutcome now s (some m) (otaBatchSlaveDataLossCheck now s m) := by
  have hlistens : s.Listens now ↔ ¬ (s.lossCheckTick ≠ 0 ∧
      clockTimeExceed now s.lossCheckTick otaLossCheckDuration = true) := by
    rw [OtaSlave.Listens, hstate]
  unfold otaBatchSlaveDataLossCheck
  split
  next hover =>
    have hdeaf : ¬ s.Listens now := fun hl => hlistens.mp hl hover
    exact .keep .dataReady (.inr (.inr (.inr (.inr ⟨hstate, rfl⟩))))
      (batchQuiet_of_not_listens hdeaf) rfl (iff_of_true hs (fits_of_not_listens hdeaf))
  next hover =>
    cases m with
    | data Data h =>
      have hl : s.Listens now := hlistens.mpr hover
      have hrx := safeOps_rx_iff_fits hs hl h
      dsimp only
      split
      next hsup =>
        exact .supplement Data h rfl ⟨hstate, hl, hsup.1, List.contains_iff_mem.mp hsup.2⟩ rfl
      next hsup =>
        refine .keep s.state (.inl rfl) (batchQuiet_data (fun hn => ?_) (fun hst => ?_)
          fun hst => ?_) rfl hrx
        · exact absurd (hn.state.symm.trans hstate) (by decide)
        · exact absurd (hst.state.symm.trans hstate) (by decide)
        · exact hsup ⟨hst.mac, List.contains_iff_mem.mpr hst.mem⟩
    | invalidData | timeout | txDone =>
      exact .keep s.state (.inl rfl) (batchQuiet_of_no_data fun _ _ hmsg => by cases hmsg) rfl
        (iff_of_true hs (fits_of_no_data fun _ _ hmsg => by cases hmsg))

theorem batchOutcome (now : ℕ) (hs : s.SafeOps) (msg : Option OtaMsg) :
    BatchOutcome now s msg (otaBatchSlaveStart now s msg) := by
  have hdeaf : s.state ≠ .startReady → s.state ≠ .dataReady → s.state ≠ .dataLossCheck →
      ¬ s.Listens now := not_listens_of_state
  cases hstate : s.state with
  | idle =>
    rw [otaBatchSlaveStart.eq_def, hstate]
    have hdeaf := hdeaf (by rw [hstate]; decide) (by rw [hstate]; decide) (by rw [hstate]; decide)
    exact .keep .startReady (.inr (.inr (.inl ⟨hstate, rfl⟩))) (batchQuiet_of_not_listens hdeaf)
      rfl (iff_of_true hs (fits_of_not_listens hdeaf))
  | ended =>
    rw [otaBatchSlaveStart.eq_def, hstate]
    exact .verify hstate rfl
  | error => exact .erase hstate (by rw [otaBatchSlaveStart.eq_def, hstate])
  | fwVersionReady | endReady =>
    rw [otaBatchSlaveStart.eq_def, hstate]
    have hdeaf := hdeaf (by rw [hstate]; decide) (by rw [hstate]; decide) (by rw [hstate]; decide)
    exact .keep s.state (.inl rfl) (batchQuiet_of_not_listens hdeaf) rfl
      (iff_of_true hs (fits_of_not_listens hdeaf))
  | startReady | dataReady | dataLossCheck =>
    cases msg with
    | none =>
      rw [otaBatchSlaveStart.eq_def, hstate]
      exact .keep s.state (.inl rfl) (batchQuiet_of_no_data fun _ _ hmsg => by cases hmsg) rfl
        (iff_of_true hs (fits_of_no_data fun _ _ hmsg => by cases hmsg))
    | some m =>
      rw [otaBatchSlaveStart.eq_def, hstate]
      first
        | exact batchOutcome_startReady hs hstate
        | exact batchOutcome_dataReady hs hstate
        | exact batchOutcome_dataLossCheck hs hstate

end BatchOutcome

end TlBleSdk.Ota
