import TlBleSdk.Lib.Run
import TlBleSdk.Ota.SlaveSteps

/-!
# Safe accesses of the slaves

Whether the slaves of the 2.4G OTA keep within the slot that is erased, the frame received and the
list of lost blocks. The slave of one master does not look whether the first block reaches behind
the boot word, whether another one is long enough for its header, and where the slot ends. The
batch slave does not look at any length or block number at all. `slavesSafe_iff` states which runs
are safe all the same.
-/

namespace TlBleSdk.Ota

open Hci NorFlash

namespace OtaSlave

/-- The last call was safe, and the lost blocks fit into `loss_packet_block`. -/
structure Safe (s : OtaSlave) : Prop where
  ops : s.SafeOps
  loss : s.lossPacketBlock.length ≤ otaLossPktMaxNum

instance (s : OtaSlave) : Decidable s.Safe :=
  decidable_of_iff (s.SafeOps ∧ s.lossPacketBlock.length ≤ otaLossPktMaxNum)
    ⟨fun h => ⟨h.1, h.2⟩, fun h => ⟨h.ops, h.loss⟩⟩

/-- `main_idle_loop` calls the state machine. -/
def Active (s : OtaSlave) : Prop := s.running = true ∧ ¬ (s.rebooted = true ∨ s.crashed = true)

instance (s : OtaSlave) : Decidable s.Active := inferInstanceAs (Decidable (_ ∧ _))

/-- The condition on a block that the slave of one master programs. -/
def BlockOk (s : OtaSlave) (len : ℕ) : Prop :=
  if s.blockNum = 0 then 3 + otaBootFlagOffset + 4 ≤ len
  else 3 ≤ len ∧ s.totalBinSize + (len - 3) ≤ otaSlotLen

instance (s : OtaSlave) (len : ℕ) : Decidable (s.BlockOk len) := by
  unfold BlockOk
  infer_instance

/-- The condition on a step of the slave of one master. -/
def StoreOk (s : OtaSlave) : OtaSlaveEvent → Prop
  | .start _ (some (.data Data _)) => s.Active → s.Stores Data → s.BlockOk (Data 0).toNat
  | _ => True

/-- The `n` bytes of block `blkn` end within the slot. -/
def InSlot (blkn n : ℕ) : Prop := blockLen * (blkn - 1) + n ≤ otaSlotLen

/-- The condition on a frame that the batch slave takes. -/
structure BatchFrameOk (s : OtaSlave) (now : ℕ) (Data : ℕ → UInt8) : Prop where
  len : (Data 0).toNat ≤ otaFramePayloadMax + 1
  notes : s.NotesLoss now Data →
    s.lossPacketBlock.length + (s.maxBlockNum - s.blockNum) ≤ otaLossPktMaxNum
  stores : s.BatchStores now Data →
    3 ≤ (Data 0).toNat ∧ InSlot (s.rx Data).rxBlockNum ((Data 0).toNat - 3) ∧
      s.lossPacketBlock.length + ((s.rx Data).rxBlockNum - s.blockNum - 1) ≤ otaLossPktMaxNum
  supplements : s.Supplements now Data →
    9 ≤ (Data 0).toNat ∧ InSlot (s.rx Data).rxBlockNum ((Data 0).toNat - 9)

/-- The condition on a step of the batch slave. -/
def BatchOk (s : OtaSlave) : OtaSlaveEvent → Prop
  | .start now (some (.data Data _)) => s.Active → s.Listens now → s.BatchFrameOk now Data
  | _ => True

/-! ## The steps of the loop -/

variable {s t : OtaSlave} {start : ℕ → OtaSlave → Option OtaMsg → OtaSlave} {now : ℕ}
  {msg : Option OtaMsg} {Data : ℕ → UInt8}

theorem step_active (h : s.Active) :
    otaSlaveStep start s (.start now msg) = start now s.clearOps msg := by
  unfold otaSlaveStep
  rw [if_neg h.2]
  exact if_pos h.1

theorem step_inactive (h : ¬ s.Active) : otaSlaveStep start s (.start now msg) = s := by
  unfold otaSlaveStep
  split
  · rfl
  next hup => exact if_neg fun hrun => h ⟨hrun, hup⟩

/-- A trigger is taken or has no effect. -/
theorem step_trigger (start : ℕ → OtaSlave → Option OtaMsg → OtaSlave) (s : OtaSlave) :
    otaSlaveStep start s .trigger = s ∨
    otaSlaveStep start s .trigger = otaSlaveInit s (otaSlaveBinAddr s.flash) := by
  unfold otaSlaveStep
  split
  · exact .inl rfl
  · dsimp only
    split
    · exact .inl rfl
    · exact .inr rfl

theorem otaSlaveBinAddr_le (flash : Cells) : otaSlaveBinAddr flash ≤ otaSlaveBinAddr2 := by
  unfold otaSlaveBinAddr
  split
  · exact Nat.le_refl _
  · exact Nat.zero_le _

/-- A safe state stays safe where the accesses are. -/
theorem Safe.of_core (h : s.Safe) (hsafe : t.SafeOps)
    (hloss : t.lossPacketBlock = s.lossPacketBlock) : t.Safe :=
  ⟨hsafe, (congrArg List.length hloss).trans_le h.loss⟩

theorem safe_trigger (h : s.Safe) : (otaSlaveStep start s .trigger).Safe := by
  rcases step_trigger start s with heq | heq
  · rwa [heq]
  · rw [heq]
    exact ⟨safeOps_of_nil rfl, h.loss⟩

/-! ## The slave of one master -/

/-- What the steps rely on: the slot is one of two, and the bytes counted are within it. -/
structure SlotOk (s : OtaSlave) : Prop where
  flashAddr_le : s.flashAddr ≤ otaSlaveBinAddr2
  total_le : s.totalBinSize ≤ otaSlotLen
  total_zero : s.blockNum = 0 → s.totalBinSize = 0

theorem slotOk_powerOn (flash : Cells) : (OtaSlave.powerOn flash).SlotOk :=
  ⟨Nat.zero_le _, Nat.zero_le _, fun _ => rfl⟩

theorem slotOk_init (s : OtaSlave) : (otaSlaveInit s (otaSlaveBinAddr s.flash)).SlotOk :=
  ⟨otaSlaveBinAddr_le s.flash, Nat.zero_le _, fun _ => rfl⟩

theorem SlotOk.congr (h : s.SlotOk) (hflashAddr : t.core.flashAddr = s.core.flashAddr)
    (htotal : t.core.totalBinSize = s.core.totalBinSize)
    (hblockNum : t.core.blockNum = s.core.blockNum) : t.SlotOk := by
  simp only [core] at hflashAddr htotal hblockNum
  refine ⟨hflashAddr ▸ h.flashAddr_le, htotal ▸ h.total_le, fun hzero => ?_⟩
  rw [htotal]
  exact h.total_zero (hblockNum ▸ hzero)

/-- The writes of a block. -/
theorem safeOps_writeBlock (h : s.SlotOk) (hs : s.SafeOps) (hlen : s.len ≤ otaFramePayloadMax + 1) :
    (s.writeBlock (s.blockNum + 1)).SafeOps ↔ s.BlockOk s.len := by
  have haddr := h.flashAddr_le
  have htotal := h.total_le
  unfold writeBlock BlockOk
  simp only [otaSlaveBinAddr2, otaSlotLen, otaFramePayloadMax] at haddr htotal hlen
  by_cases hfirst : s.blockNum = 0
  · have hsecond : u32 (s.flashAddr + otaBootFlagOffset + 4) = s.flashAddr + 36 :=
      u32_of_lt (by simp only [otaBootFlagOffset]; omega)
    rw [if_pos (by omega), if_pos hfirst, hsecond]
    simp only [safeOps_flashWritePage, len_flashWritePage, flashAddr_flashWritePage, hs, true_and,
      otaBootFlagOffset, otaSlotLen]
    omega
  · have hnext : u32 (s.flashAddr + s.totalBinSize) = s.flashAddr + s.totalBinSize :=
      u32_of_lt (by omega)
    rw [if_neg (by omega), if_neg hfirst, hnext]
    simp only [safeOps_flashWritePage, hs, true_and, otaSlotLen]
    omega

/-- A block of a frame that fits into `RxFrame`. -/
theorem safeOps_storeBlock (h : s.SlotOk) (hs : s.SafeOps) (hlen : s.len ≤ otaFramePayloadMax + 1) :
    (s.storeBlock (s.blockNum + 1)).SafeOps ↔ s.BlockOk s.len := by
  have hslot : SlotOk { s with retryTimes := 0 } := h.congr rfl rfl rfl
  exact (safeOps_macSendData 3).trans (safeOps_writeBlock hslot hs hlen)

/-- The bytes counted stay within the slot. -/
theorem slotOk_storeBlock (h : s.SlotOk) (hlen : s.len ≤ otaFramePayloadMax + 1)
    (hok : s.BlockOk s.len) : (s.storeBlock (s.blockNum + 1)).SlotOk := by
  have htotal : (s.storeBlock (s.blockNum + 1)).totalBinSize =
      u32Add s.totalBinSize (s.len - 3) := rfl
  have hzero := h.total_zero
  have hle := h.total_le
  refine ⟨?_, ?_, fun hblock => absurd hblock (Nat.succ_ne_zero _)⟩
  · have haddr : (s.storeBlock (s.blockNum + 1)).flashAddr = s.flashAddr := by
      show ({ s with retryTimes := 0 }.writeBlock _).flashAddr = _
      unfold writeBlock
      split <;> rfl
    rw [haddr]
    exact h.flashAddr_le
  · rw [htotal]
    unfold BlockOk at hok
    unfold u32Add
    simp only [otaSlotLen, otaBootFlagOffset, otaFramePayloadMax] at hok hle hlen ⊢
    split at hok <;> omega

theorem lossPacketBlock_storeBlock (s : OtaSlave) (blockNum : ℕ) :
    (s.storeBlock blockNum).lossPacketBlock = s.lossPacketBlock := by
  show ({ s with retryTimes := 0 }.writeBlock _).lossPacketBlock = _
  unfold writeBlock
  split <;> rfl

theorem stores_clearOps : s.clearOps.Stores Data ↔ s.Stores Data :=
  ⟨fun h => ⟨h.state, h.len, h.type, h.next⟩, fun h => ⟨h.state, h.len, h.type, h.next⟩⟩

theorem storeOk_of_storesNone (h : s.clearOps.StoresNone msg) :
    s.StoreOk (.start now msg) := by
  rcases msg with - | m
  · trivial
  cases m with
  | data Data hne => exact fun _ hst => absurd (stores_clearOps.mpr hst) (h Data hne rfl)
  | invalidData | timeout | txDone => trivial

theorem storeOk_of_inactive (h : ¬ s.Active) : s.StoreOk (.start now msg) := by
  rcases msg with - | m
  · trivial
  cases m with
  | data Data hne => exact fun hactive => absurd hactive h
  | invalidData | timeout | txDone => trivial

/-- The check of the image touches neither the counters nor the lists. -/
theorem core_verify (s : OtaSlave) (pktOk : BitVec 16 → Bool) : (s.verify pktOk).ops = s.ops ∧
    ∃ fwCRC state flash rebooted crashed, (s.verify pktOk).core =
      { s.core with
        fwCRC := fwCRC, state := state, flash := flash, rebooted := rebooted
        crashed := crashed } := by
  unfold verify
  split
  · exact ⟨rfl, _, _, _, _, _, rfl⟩
  · dsimp only
    split
    · exact ⟨rfl, _, _, _, _, _, rfl⟩
    · exact ⟨rfl, _, _, _, _, _, rfl⟩

theorem safe_verify (hs : s.SafeOps) (hloss : s.lossPacketBlock.length ≤ otaLossPktMaxNum)
    (pktOk : BitVec 16 → Bool) : (s.verify pktOk).Safe := by
  obtain ⟨hops, fwCRC, state, flash, rebooted, crashed, hcore⟩ := core_verify s pktOk
  have haddr : (s.verify pktOk).flashAddr = s.flashAddr := congrArg SlaveCore.flashAddr hcore
  have hlist : (s.verify pktOk).lossPacketBlock = s.lossPacketBlock :=
    congrArg SlaveCore.lossPacketBlock hcore
  refine ⟨fun op hop => ?_, hlist ▸ hloss⟩
  rw [haddr]
  exact hs op (hops ▸ hop)

/-- A step is safe exactly if it meets the condition. -/
theorem safe_step_iff (h : s.SlotOk) (hs : s.Safe) (e : OtaSlaveEvent) :
    (otaSlaveStep otaSlaveStart s e).Safe ↔ s.StoreOk e := by
  cases e with
  | trigger => exact iff_of_true (safe_trigger hs) trivial
  | start now msg =>
    by_cases hactive : s.Active
    · rw [step_active hactive]
      -- nothing is stored but in this state
      have hstate : s.state ≠ .dataReady → s.StoreOk (.start now msg) :=
        fun hne => storeOk_of_storesNone (storesNone_of_state hne)
      cases slaveOutcome (s := s.clearOps) now (safeOps_of_nil rfl) msg with
      | keep state hmove hnone hcore hsafe =>
        exact iff_of_true
          (hs.of_core hsafe (by simpa using congrArg SlaveCore.lossPacketBlock hcore))
          (storeOk_of_storesNone hnone)
      | started Data hne hmsg hready hreq hcore hsafe =>
        exact iff_of_true
          (hs.of_core hsafe (by simpa using congrArg SlaveCore.lossPacketBlock hcore))
          (hstate fun hdata => absurd (hready.symm.trans hdata) (by decide))
      | ended hready hcore hsafe =>
        exact iff_of_true
          (hs.of_core hsafe (by simpa using congrArg SlaveCore.lossPacketBlock hcore))
          (hstate fun hdata => absurd (hready.symm.trans hdata) (by decide))
      | verify hended heq =>
        rw [heq]
        exact iff_of_true (safe_verify (s := s.clearOps) (safeOps_of_nil rfl) hs.loss _)
          (hstate fun hdata => absurd (hended.symm.trans hdata) (by decide))
      | erase herror heq =>
        rw [heq]
        exact iff_of_true ⟨safeOps_of_nil rfl, hs.loss⟩
          (hstate fun hdata => absurd (herror.symm.trans hdata) (by decide))
      | store Data hne hmsg hstores heq =>
        subst hmsg
        have hrx : (s.clearOps.rx Data).SafeOps :=
          (safeOps_rx hne).mpr ⟨safeOps_of_nil rfl, hstores.len⟩
        have hslot : (s.clearOps.rx Data).SlotOk := h.congr rfl rfl rfl
        have hblock := safeOps_storeBlock hslot hrx hstores.len
        rw [heq]
        constructor
        · exact fun hsafe _ _ => hblock.mp hsafe.ops
        · intro hok
          refine ⟨hblock.mpr (hok hactive (stores_clearOps.mp hstores)), ?_⟩
          rw [lossPacketBlock_storeBlock]
          exact hs.loss
    · rw [step_inactive hactive]
      exact iff_of_true hs (storeOk_of_inactive hactive)

/-- The counters stay in order. -/
theorem slotOk_step (h : s.SlotOk) {e : OtaSlaveEvent} (hok : s.StoreOk e) :
    (otaSlaveStep otaSlaveStart s e).SlotOk := by
  cases e with
  | trigger =>
    rcases step_trigger otaSlaveStart s with heq | heq
    · rwa [heq]
    · rw [heq]
      exact slotOk_init s
  | start now msg =>
    by_cases hactive : s.Active
    · rw [step_active hactive]
      cases slaveOutcome (s := s.clearOps) now (safeOps_of_nil rfl) msg with
      | keep state hmove hnone hcore hsafe =>
        exact h.congr (by rw [hcore]; rfl) (by rw [hcore]; rfl) (by rw [hcore]; rfl)
      | started Data hne hmsg hready hreq hcore hsafe =>
        exact h.congr (by rw [hcore]; rfl) (by rw [hcore]; rfl) (by rw [hcore]; rfl)
      | ended hready hcore hsafe =>
        exact h.congr (by rw [hcore]; rfl) (by rw [hcore]; rfl) (by rw [hcore]; rfl)
      | verify hended heq =>
        obtain ⟨-, fwCRC, state, flash, rebooted, crashed, hcore⟩ :=
          core_verify s.clearOps fun fwCRC => fwCRC = s.clearOps.pktCRC
        rw [heq]
        exact h.congr (by rw [hcore]; rfl) (by rw [hcore]; rfl) (by rw [hcore]; rfl)
      | erase herror heq =>
        rw [heq]
        exact h.congr rfl rfl rfl
      | store Data hne hmsg hstores heq =>
        subst hmsg
        have hslot : (s.clearOps.rx Data).SlotOk := h.congr rfl rfl rfl
        rw [heq]
        exact slotOk_storeBlock hslot hstores.len (hok hactive (stores_clearOps.mp hstores))
    · rwa [step_inactive hactive]

/-! ## The batch slave -/

/-- A write of the rest of the frame to a block. -/
theorem safeOps_writeAt (haddr : s.flashAddr ≤ otaSlaveBinAddr2) (hs : s.SafeOps) {blkn : ℕ}
    (hblkn : blkn < 65536) {n : ℤ} {off : ℕ} (hn : n = s.len - (off + 1 : ℕ)) :
    (s.flashWritePage (s.blockAddr blkn) n off).SafeOps ↔
      off + 1 ≤ s.len ∧ InSlot blkn (s.len - (off + 1)) := by
  have hblock : s.blockAddr blkn = s.flashAddr + 48 * (blkn - 1) := by
    unfold blockAddr blockLen otaFramePayloadMax
    unfold otaSlaveBinAddr2 at haddr
    exact u32_of_lt (by omega)
  have hlen : blockLen = 48 := rfl
  rw [safeOps_flashWritePage, hblock]
  simp only [hs, true_and, InSlot, otaSlotLen, hlen]
  omega

theorem notesLoss_clearOps : s.clearOps.NotesLoss now Data ↔ s.NotesLoss now Data :=
  ⟨fun h => ⟨h.state, h.listens, h.type, h.id, h.ne, h.le⟩,
    fun h => ⟨h.state, h.listens, h.type, h.id, h.ne, h.le⟩⟩

theorem batchStores_clearOps : s.clearOps.BatchStores now Data ↔ s.BatchStores now Data :=
  ⟨fun h => ⟨h.state, h.listens, h.type, h.next⟩, fun h => ⟨h.state, h.listens, h.type, h.next⟩⟩

theorem supplements_clearOps : s.clearOps.Supplements now Data ↔ s.Supplements now Data :=
  ⟨fun h => ⟨h.state, h.listens, h.mac, h.mem⟩, fun h => ⟨h.state, h.listens, h.mac, h.mem⟩⟩

theorem batchOk_of_inactive (h : ¬ s.Active) : s.BatchOk (.start now msg) := by
  rcases msg with - | m
  · trivial
  cases m with
  | data Data hne => exact fun hactive => absurd hactive h
  | invalidData | timeout | txDone => trivial

/-- A call that neither notes a loss nor programs a block has to take frames that fit. -/
theorem batchOk_iff_fits (hactive : s.Active) (hquiet : s.clearOps.BatchQuiet now msg) :
    s.BatchOk (.start now msg) ↔ s.clearOps.Fits now msg := by
  rcases msg with - | m
  · exact iff_of_true trivial fun _ _ hmsg => by cases hmsg
  cases m with
  | data Data hne =>
    obtain ⟨hnotes, hstores, hsup⟩ := hquiet Data hne rfl
    constructor
    · intro hok D hD hmsg hl
      cases hmsg
      exact (hok hactive hl).len
    · intro hfits _ hl
      exact ⟨hfits Data hne rfl hl, fun hn => absurd (notesLoss_clearOps.mpr hn) hnotes,
        fun hst => absurd (batchStores_clearOps.mpr hst) hstores,
        fun hst => absurd (supplements_clearOps.mpr hst) hsup⟩
  | invalidData | timeout | txDone =>
    exact iff_of_true trivial fun _ _ hmsg => by cases hmsg

/-- Nothing is taken in the other states. -/
theorem batchOk_of_deaf (hdeaf : ¬ s.Listens now) : s.BatchOk (.start now msg) := by
  rcases msg with - | m
  · trivial
  cases m with
  | data Data hne => exact fun _ hl => absurd hl hdeaf
  | invalidData | timeout | txDone => trivial

theorem safeOps_rx_clearOps (hne : Data 0 ≠ 0) :
    (s.clearOps.rx Data).SafeOps ↔ (Data 0).toNat ≤ otaFramePayloadMax + 1 :=
  (safeOps_rx hne).trans (and_iff_right (safeOps_of_nil rfl))

theorem length_noteLost (s : OtaSlave) (n : ℕ) :
    (s.noteLost n).lossPacketBlock.length = s.lossPacketBlock.length + n := by
  simp [noteLost]

/-- The last blocks are noted as lost. -/
theorem safe_noteLoss_iff (hne : Data 0 ≠ 0) (hactive : s.Active)
    (hnotes : s.clearOps.NotesLoss now Data) (tick : ℕ) :
    Safe { ((s.clearOps.rx Data).noteLost (s.maxBlockNum - s.blockNum)).sendLossRsp with
      state := .dataLossCheck, lossCheckTick := tick } ↔
      s.BatchOk (.start now (some (.data Data hne))) := by
  have hops : ((s.clearOps.rx Data).noteLost (s.maxBlockNum - s.blockNum)).sendLossRsp.SafeOps ↔
      (s.clearOps.rx Data).SafeOps := safeOps_macBroadcastData _
  rw [safeOps_rx_clearOps hne] at hops
  have hlen := length_noteLost (s.clearOps.rx Data) (s.maxBlockNum - s.blockNum)
  constructor
  · intro hsafe _ _
    refine ⟨hops.mp hsafe.ops, fun _ => hlen.symm.trans_le hsafe.loss, fun hst => ?_, fun hst => ?_⟩
    · exact absurd (hst.type.symm.trans hnotes.type) (by decide)
    · exact absurd (hst.state.symm.trans hnotes.state) (by decide)
  · intro hok
    obtain ⟨hfits, hcount, -, -⟩ := hok hactive hnotes.listens
    exact ⟨hops.mpr hfits, hlen.trans_le (hcount (notesLoss_clearOps.mp hnotes))⟩

/-- The accesses of a later block are those of its write. -/
theorem safeOps_batchStore (s : OtaSlave) (blkn : ℕ) :
    (otaBatchSlaveStoreBlock s blkn).SafeOps ↔
      (s.flashWritePage (s.blockAddr blkn) (s.len - 3) 2).SafeOps := Iff.rfl

theorem safeOps_supplement (s : OtaSlave) (blkn : ℕ) :
    (otaBatchSlaveSupplement s blkn).SafeOps ↔
      (s.flashWritePage (s.blockAddr blkn) (s.len - 3 - 6) 8).SafeOps := by
  unfold otaBatchSlaveSupplement
  dsimp only
  split <;> exact Iff.rfl

/-- A later block is programmed. -/
theorem safe_batchStore_iff (haddr : s.flashAddr ≤ otaSlaveBinAddr2) (hne : Data 0 ≠ 0)
    (hactive : s.Active) (hstores : s.clearOps.BatchStores now Data) :
    (otaBatchSlaveStoreBlock (s.clearOps.rx Data) (s.clearOps.rx Data).rxBlockNum).Safe ↔
      s.BatchOk (.start now (some (.data Data hne))) := by
  have hblkn : (s.clearOps.rx Data).rxBlockNum < 65536 := bytesToUint16_lt _ _
  have hops := safeOps_batchStore (s.clearOps.rx Data) (s.clearOps.rx Data).rxBlockNum
  have hlen := length_noteLost (s.clearOps.rx Data)
    ((s.clearOps.rx Data).rxBlockNum - s.blockNum - 1)
  constructor
  · intro hsafe _ _
    have hwritten := hops.mp hsafe.ops
    have hfits : (s.clearOps.rx Data).SafeOps :=
      fun op hop => hwritten op (List.mem_append_left _ hop)
    have hwrite := (safeOps_writeAt (s := s.clearOps.rx Data) haddr hfits hblkn rfl).mp hwritten
    refine ⟨(safeOps_rx_clearOps hne).mp hfits, fun hn => ?_, fun _ => ?_, fun hst => ?_⟩
    · exact absurd (hn.type.symm.trans hstores.type) (by decide)
    · exact ⟨hwrite.1, hwrite.2, hlen.symm.trans_le hsafe.loss⟩
    · exact absurd (hst.state.symm.trans hstores.state) (by decide)
  · intro hok
    have hframe := hok hactive hstores.listens
    obtain ⟨hshort, hslot, hcount⟩ := hframe.stores (batchStores_clearOps.mp hstores)
    have hfits := (safeOps_rx_clearOps (s := s) hne).mpr hframe.len
    exact ⟨hops.mpr ((safeOps_writeAt (s := s.clearOps.rx Data) haddr hfits hblkn rfl).mpr
      ⟨hshort, hslot⟩), hlen.trans_le hcount⟩

/-- A block of the list is programmed. -/
theorem safe_supplement_iff (haddr : s.flashAddr ≤ otaSlaveBinAddr2) (hs : s.Safe)
    (hne : Data 0 ≠ 0) (hactive : s.Active) (hsup : s.clearOps.Supplements now Data) :
    (otaBatchSlaveSupplement (s.clearOps.rx Data) (s.clearOps.rx Data).rxBlockNum).Safe ↔
      s.BatchOk (.start now (some (.data Data hne))) := by
  have hblkn : (s.clearOps.rx Data).rxBlockNum < 65536 := bytesToUint16_lt _ _
  have hn : ((s.clearOps.rx Data).len : ℤ) - 3 - 6 = (s.clearOps.rx Data).len - (8 + 1 : ℕ) := by
    omega
  have hops := safeOps_supplement (s.clearOps.rx Data) (s.clearOps.rx Data).rxBlockNum
  have hloss : (otaBatchSlaveSupplement (s.clearOps.rx Data)
      (s.clearOps.rx Data).rxBlockNum).lossPacketBlock =
        s.lossPacketBlock.erase (s.clearOps.rx Data).rxBlockNum := by
    unfold otaBatchSlaveSupplement
    dsimp only
    split <;> rfl
  constructor
  · intro hsafe _ _
    have hwritten := hops.mp hsafe.ops
    have hfits : (s.clearOps.rx Data).SafeOps :=
      fun op hop => hwritten op (List.mem_append_left _ hop)
    have hwrite := (safeOps_writeAt (s := s.clearOps.rx Data) haddr hfits hblkn hn).mp hwritten
    refine ⟨(safeOps_rx_clearOps hne).mp hfits, fun hst => ?_, fun hst => ?_, fun _ => hwrite⟩
    · exact absurd (hst.state.symm.trans hsup.state) (by decide)
    · exact absurd (hst.state.symm.trans hsup.state) (by decide)
  · intro hok
    have hframe := hok hactive hsup.listens
    have hfits := (safeOps_rx_clearOps (s := s) hne).mpr hframe.len
    refine ⟨hops.mpr ((safeOps_writeAt (s := s.clearOps.rx Data) haddr hfits hblkn hn).mpr
      (hframe.supplements (supplements_clearOps.mp hsup))), ?_⟩
    rw [hloss]
    exact (List.erase_sublist.length_le).trans hs.loss

theorem safe_batchStep_iff (haddr : s.flashAddr ≤ otaSlaveBinAddr2) (hs : s.Safe)
    (e : OtaSlaveEvent) : (otaSlaveStep otaBatchSlaveStart s e).Safe ↔ s.BatchOk e := by
  cases e with
  | trigger => exact iff_of_true (safe_trigger hs) trivial
  | start now msg =>
    by_cases hactive : s.Active
    · rw [step_active hactive]
      -- a call that leaves the flash and the list of the lost packets alone
      have hkeep : ∀ t : OtaSlave, t.lossPacketBlock = s.lossPacketBlock →
          (t.SafeOps ↔ s.clearOps.Fits now msg) → s.clearOps.BatchQuiet now msg →
            (t.Safe ↔ s.BatchOk (.start now msg)) := by
        intro t hloss hsafe hquiet
        rw [batchOk_iff_fits hactive hquiet, ← hsafe]
        exact ⟨fun h => h.ops, fun h => hs.of_core h hloss⟩
      cases batchOutcome (s := s.clearOps) now (safeOps_of_nil rfl) msg with
      | keep state hmove hquiet hcore hsafe =>
        exact hkeep _ (by simpa using congrArg SlaveCore.lossPacketBlock hcore) hsafe hquiet
      | started Data hne hmsg hready hcore hsafe =>
        exact hkeep _ (by simpa using congrArg SlaveCore.lossPacketBlock hcore) hsafe
          (batchQuiet_of_state (by rw [hready]; decide) (by rw [hready]; decide))
      | declined hready hcore hsafe =>
        exact hkeep _ (by simpa using congrArg SlaveCore.lossPacketBlock hcore) hsafe
          (batchQuiet_of_state (by rw [hready]; decide) (by rw [hready]; decide))
      | complete hready hall hquiet hcore hsafe =>
        exact hkeep _ (by simpa using congrArg SlaveCore.lossPacketBlock hcore) hsafe hquiet
      | noteLoss Data hne hmsg hnotes heq =>
        subst hmsg
        rw [heq]
        exact safe_noteLoss_iff hne hactive hnotes _
      | store Data hne hmsg hstores heq =>
        subst hmsg
        rw [heq]
        exact safe_batchStore_iff haddr hne hactive hstores
      | supplement Data hne hmsg hsup heq =>
        subst hmsg
        rw [heq]
        exact safe_supplement_iff haddr hs hne hactive hsup
      | verify hended heq =>
        rw [heq]
        have hended : s.state = .ended := hended
        exact iff_of_true (safe_verify (s := s.clearOps) (safeOps_of_nil rfl) hs.loss _)
          (batchOk_of_deaf (not_listens_of_state (by rw [hended]; decide) (by rw [hended]; decide)
            (by rw [hended]; decide)))
      | erase herror heq =>
        rw [heq]
        have herror : s.state = .error := herror
        exact iff_of_true ⟨safeOps_of_nil rfl, hs.loss⟩
          (batchOk_of_deaf (not_listens_of_state (by rw [herror]; decide) (by rw [herror]; decide)
            (by rw [herror]; decide)))
    · rw [step_inactive hactive]
      exact iff_of_true hs (batchOk_of_inactive hactive)

theorem flashAddr_supplement (s : OtaSlave) (blkn : ℕ) :
    (otaBatchSlaveSupplement s blkn).flashAddr = s.flashAddr := by
  unfold otaBatchSlaveSupplement
  dsimp only
  split <;> rfl


theorem flashAddr_batchStore (s : OtaSlave) (blockNum : ℕ) :
    (otaBatchSlaveStoreBlock s blockNum).flashAddr = s.flashAddr := rfl

/-- The slot is one of two. -/
theorem flashAddr_batchStep (h : s.flashAddr ≤ otaSlaveBinAddr2) (e : OtaSlaveEvent) :
    (otaSlaveStep otaBatchSlaveStart s e).flashAddr ≤ otaSlaveBinAddr2 := by
  cases e with
  | trigger =>
    rcases step_trigger otaBatchSlaveStart s with heq | heq
    · rwa [heq]
    · rw [heq]
      exact otaSlaveBinAddr_le s.flash
  | start now msg =>
    by_cases hactive : s.Active
    · rw [step_active hactive]
      have hkeep : ∀ t : OtaSlave, t.flashAddr = s.flashAddr → t.flashAddr ≤ otaSlaveBinAddr2 :=
        fun t heq => heq.trans_le h
      cases batchOutcome (s := s.clearOps) now (safeOps_of_nil rfl) msg with
      | keep state hmove hquiet hcore hsafe =>
        exact hkeep _ (by simpa using congrArg SlaveCore.flashAddr hcore)
      | started Data hne hmsg hready hcore hsafe =>
        exact hkeep _ (by simpa using congrArg SlaveCore.flashAddr hcore)
      | declined hready hcore hsafe =>
        exact hkeep _ (by simpa using congrArg SlaveCore.flashAddr hcore)
      | complete hready hall hquiet hcore hsafe =>
        exact hkeep _ (by simpa using congrArg SlaveCore.flashAddr hcore)
      | noteLoss Data hne hmsg hnotes heq =>
        rw [heq]
        exact hkeep _ (congrArg SlaveCore.flashAddr (core_sendLossRsp
          ((s.clearOps.rx Data).noteLost (s.maxBlockNum - s.blockNum))))
      | store Data hne hmsg hstores heq =>
        rw [heq]
        exact hkeep _ (flashAddr_batchStore _ _)
      | supplement Data hne hmsg hsup heq =>
        rw [heq]
        exact hkeep _ (flashAddr_supplement _ _)
      | verify hended heq =>
        obtain ⟨-, fwCRC, state, flash, rebooted, crashed, hcore⟩ :=
          core_verify s.clearOps fun _ => true
        rw [heq]
        exact hkeep _ (by simpa using congrArg SlaveCore.flashAddr hcore)
      | erase herror heq =>
        rw [heq]
        exact h
    · rwa [step_inactive hactive]

theorem safe_powerOn (flash : Cells) : (OtaSlave.powerOn flash).Safe :=
  ⟨safeOps_of_nil rfl, Nat.zero_le _⟩

end OtaSlave

/-- A run of a slave is safe exactly if its frames are: the slave of one master needs a first block
that reaches behind the boot word, and further ones that are no shorter than their header and end
within the slot; the batch slave needs that of every block, and besides frames that fit into
`RxFrame` and no more than 42 lost blocks. -/
theorem slavesSafe_iff (flash : Cells) (events : List OtaSlaveEvent) :
    (Machine.Always (otaSlaveStep otaSlaveStart) OtaSlave.Safe (.powerOn flash) events ↔
        Machine.Along (otaSlaveStep otaSlaveStart) OtaSlave.StoreOk (.powerOn flash) events) ∧
      (Machine.Always (otaSlaveStep otaBatchSlaveStart) OtaSlave.Safe (.powerOn flash) events ↔
        Machine.Along (otaSlaveStep otaBatchSlaveStart) OtaSlave.BatchOk (.powerOn flash)
          events) := by
  constructor
  · exact Machine.always_iff_along (fun s e hinv hsafe _ => OtaSlave.safe_step_iff hinv hsafe e)
      (fun s e hinv hsafe _ hsafe' =>
        OtaSlave.slotOk_step hinv ((OtaSlave.safe_step_iff hinv hsafe e).mp hsafe'))
      (Machine.along_true _ _) (OtaSlave.slotOk_powerOn flash) (OtaSlave.safe_powerOn flash)
  · exact Machine.always_iff_along
      (fun s e hinv hsafe _ => OtaSlave.safe_batchStep_iff hinv hsafe e)
      (fun s e hinv _ _ _ => OtaSlave.flashAddr_batchStep hinv e)
      (Machine.along_true _ _) (Nat.zero_le _) (OtaSlave.safe_powerOn flash)

/-- A message with a frame. -/
def rxFrameMsg (frame : List UInt8) (h : mem frame 0 ≠ 0) : OtaSlaveEvent :=
  .start 1 (some (.data (mem frame) h))

/-- The length byte of a version request. -/
theorem versionReq_ne_zero : mem [2, otaFrameTypeCmd, otaCmdIdVersionReq] 0 ≠ 0 := by decide

/-- The length byte of a request to start a transfer of one block. -/
theorem startOneReq_ne_zero : mem [4, otaFrameTypeCmd, otaCmdIdStartReq, 1, 0] 0 ≠ 0 := by decide

/-- A first block of one byte. -/
def shortBlock : List OtaSlaveEvent :=
  [.trigger, .start 0 none, rxFrameMsg [2, otaFrameTypeCmd, otaCmdIdVersionReq] versionReq_ne_zero,
    rxFrameMsg [4, otaFrameTypeCmd, otaCmdIdStartReq, 1, 0] startOneReq_ne_zero,
    rxFrameMsg [4, otaFrameTypeData, 1, 0, 0x55] (by decide)]

/-- A request of a batch master, and a frame with the length byte 52. -/
def longFrame : List OtaSlaveEvent :=
  [.trigger, .start 0 none,
    rxFrameMsg [13, otaFrameTypeCmd, otaCmdIdBatchStartReq, 0x6f, 0x74, 0x61, 0, 0, 0, 0, 1, 0,
      otaDataChannel, 1] (by decide),
    rxFrameMsg [52, otaFrameTypeCmd] (by decide)]

theorem not_slavesSafe :
    ¬ Machine.Always (otaSlaveStep otaSlaveStart) OtaSlave.Safe (.powerOn fun _ => 0xFF)
        shortBlock ∧
      ¬ Machine.Always (otaSlaveStep otaBatchSlaveStart) OtaSlave.Safe (.powerOn fun _ => 0xFF)
        longFrame := by
  decide +kernel

end TlBleSdk.Ota
