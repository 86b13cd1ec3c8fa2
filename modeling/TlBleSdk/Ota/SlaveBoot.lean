import TlBleSdk.Ota.SlaveSafe

/-!
# The boot words

An image must not be bootable before its check. The slave of one master leaves the boot word out of
the first block, but takes a first block of any length, and the next one follows it. The batch slave
programs the boot word with its block. `bootKept_of_along` states when neither the boot word of the
slot that is updated nor that of the running slot changes before the check.
-/

namespace TlBleSdk.Ota

open Hci NorFlash

/-- The slot that runs: `SlaveCtrl.FlashAddr ? 0 : OTA_SLAVE_BIN_ADDR_0x20000`. -/
def otaRunningAddr (flashAddr : ℕ) : ℕ :=
  if flashAddr ≠ 0 then otaSlaveBinAddr1 else otaSlaveBinAddr2

/-- The boot word of the slot at `flashAddr` is erased, that of the running slot is as in `old`. -/
structure BootWords (old : Cells) (flashAddr : ℕ) (flash : Cells) : Prop where
  erased : Erased flash (flashAddr + otaBootFlagOffset) 4
  running : ∀ i < 4, flash (otaRunningAddr flashAddr + otaBootFlagOffset + i) =
    old (otaRunningAddr flashAddr + otaBootFlagOffset + i)

/-- The `n` bytes at the offset `off` of the slot lie beside both boot words. -/
def BesideBoot (flashAddr off n : ℕ) : Prop :=
  (off + n ≤ otaBootFlagOffset ∨ otaBootFlagOffset + 4 ≤ off) ∧
    (flashAddr = 0 → off + n ≤ otaSlaveBinAddr2 + otaBootFlagOffset ∨
      otaSlaveBinAddr2 + otaBootFlagOffset + 4 ≤ off)

instance (flashAddr off n : ℕ) : Decidable (BesideBoot flashAddr off n) :=
  inferInstanceAs (Decidable ((_ ∨ _) ∧ (_ → _ ∨ _)))

/-! ## The slots -/

/-- Erasing a slot, sector by sector. -/
theorem otaFlashErase_apply (flash : Cells) (flashAddr a : ℕ) :
    otaFlashErase flash flashAddr a =
      if flashAddr ≤ a ∧ a < flashAddr + otaSlotLen then 0xFF else flash a := by
  -- induction on the number of sectors
  have hsectors : ∀ n, (List.range n).foldl
      (fun flash i => erase flash (flashAddr + i * 0x1000) 0x1000) flash a =
        if flashAddr ≤ a ∧ a < flashAddr + n * 0x1000 then 0xFF else flash a := by
    intro n
    induction n with
    | zero => exact (if_neg (by omega)).symm
    | succ n ih =>
      rw [List.range_succ, List.foldl_append, List.foldl_cons, List.foldl_nil]
      generalize (List.range n).foldl _ flash = c at ih ⊢
      unfold erase
      by_cases hlast : flashAddr + n * 0x1000 ≤ a ∧ a < flashAddr + n * 0x1000 + 0x1000
      · have hin : flashAddr ≤ a ∧ a < flashAddr + (n + 1) * 0x1000 := by omega
        rw [if_pos hlast, if_pos hin]
      · rw [if_neg hlast, ih]
        have hiff : (flashAddr ≤ a ∧ a < flashAddr + n * 0x1000) ↔
            (flashAddr ≤ a ∧ a < flashAddr + (n + 1) * 0x1000) := by omega
        exact if_congr hiff rfl rfl
  exact hsectors 15

theorem otaSlaveBinAddr_cases (flash : Cells) :
    (otaSlaveBinAddr flash = otaSlaveBinAddr2 ∧
        flash (otaSlaveBinAddr1 + otaBootFlagOffset) = 0x4b) ∨
      (otaSlaveBinAddr flash = otaSlaveBinAddr1 ∧
        flash (otaSlaveBinAddr1 + otaBootFlagOffset) ≠ 0x4b) := by
  unfold otaSlaveBinAddr
  split
  next h => exact .inl ⟨rfl, h⟩
  next h => exact .inr ⟨rfl, h⟩

section BootWords

variable {old flash : Cells} {flashAddr : ℕ}

/-- Erasing the slot. -/
theorem bootWords_erase (hslot : flashAddr = otaSlaveBinAddr1 ∨ flashAddr = otaSlaveBinAddr2)
    (hrunning : ∀ i < 4, flash (otaRunningAddr flashAddr + otaBootFlagOffset + i) =
      old (otaRunningAddr flashAddr + otaBootFlagOffset + i)) :
    BootWords old flashAddr (otaFlashErase flash flashAddr) := by
  refine ⟨fun i hi => ?_, fun i hi => ?_⟩
  · rw [otaFlashErase_apply, if_pos]
    unfold otaBootFlagOffset otaSlotLen
    omega
  · rw [otaFlashErase_apply, if_neg, hrunning i hi]
    unfold otaRunningAddr otaBootFlagOffset otaSlotLen
    unfold otaSlaveBinAddr1 otaSlaveBinAddr2 at *
    split <;> omega

/-- A block beside the boot words. -/
theorem BootWords.program (h : BootWords old flashAddr flash)
    (hslot : flashAddr = otaSlaveBinAddr1 ∨ flashAddr = otaSlaveBinAddr2) {off : ℕ}
    {data : List UInt8} (hbeside : BesideBoot flashAddr off data.length) :
    BootWords old flashAddr (program flash (flashAddr + off) data) := by
  obtain ⟨hown, hother⟩ := hbeside
  unfold otaBootFlagOffset at hown hother
  refine ⟨fun i hi => ?_, fun i hi => ?_⟩
  · rw [program_of_disjoint, h.erased i hi]
    unfold otaBootFlagOffset
    omega
  · rw [program_of_disjoint, h.running i hi]
    unfold otaRunningAddr otaBootFlagOffset
    unfold otaSlaveBinAddr1 otaSlaveBinAddr2 at *
    split <;> omega

/-- The boot words still tell which slot runs. -/
theorem BootWords.otaSlaveBinAddr_eq (h : BootWords old (otaSlaveBinAddr old) flash) :
    otaSlaveBinAddr flash = otaSlaveBinAddr old := by
  rcases otaSlaveBinAddr_cases old with ⟨haddr, hflag⟩ | ⟨haddr, hflag⟩
  · have hsame := h.running 0 (by decide)
    rw [haddr] at hsame ⊢
    exact if_pos (hsame.trans hflag)
  · have herased := h.erased 0 (by decide)
    rw [haddr] at herased ⊢
    refine if_neg fun hset => ?_
    exact absurd (herased.symm.trans hset) (by decide)

end BootWords

namespace OtaSlave

/-- Before the check of the image has succeeded, the boot words are kept. -/
def BootKept (old : Cells) (s : OtaSlave) : Prop :=
  s.rebooted = false → BootWords old s.flashAddr s.flash

/-- The condition on a block that the slave of one master programs. -/
def BootBlockOk (s : OtaSlave) (len : ℕ) : Prop :=
  if s.blockNum = 0 then 3 + otaBootFlagOffset + 4 ≤ len
  else 3 ≤ len ∧ BesideBoot s.flashAddr s.totalBinSize (len - 3)

instance (s : OtaSlave) (len : ℕ) : Decidable (s.BootBlockOk len) := by
  unfold BootBlockOk
  infer_instance

/-- The condition on a step of the slave of one master. -/
def BootOk (s : OtaSlave) : OtaSlaveEvent → Prop
  | .start _ (some (.data Data _)) => s.Active → s.Stores Data → s.BootBlockOk (Data 0).toNat
  | _ => True

instance (s : OtaSlave) : (e : OtaSlaveEvent) → Decidable (s.BootOk e)
  | .start _ (some (.data _ _)) => inferInstanceAs (Decidable (_ → _ → _))
  | .start _ (some .invalidData) | .start _ (some .timeout) | .start _ (some .txDone)
  | .start _ none | .trigger => inferInstanceAs (Decidable True)

/-- The condition on a block that the batch slave programs, of a frame with `k` other bytes. -/
def BatchBlockOk (s : OtaSlave) (blkn len k : ℕ) : Prop :=
  k ≤ len ∧ BesideBoot s.flashAddr (blockLen * (blkn - 1)) (len - k)

instance (s : OtaSlave) (blkn len k : ℕ) : Decidable (s.BatchBlockOk blkn len k) :=
  inferInstanceAs (Decidable (_ ∧ _))

/-- The condition on a step of the batch slave. -/
def BatchBootOk (s : OtaSlave) : OtaSlaveEvent → Prop
  | .start now (some (.data Data _)) => s.Active →
      (s.BatchStores now Data → s.BatchBlockOk (s.rx Data).rxBlockNum (Data 0).toNat 3) ∧
      (s.Supplements now Data → s.BatchBlockOk (s.rx Data).rxBlockNum (Data 0).toNat 9)
  | _ => True

instance (s : OtaSlave) : (e : OtaSlaveEvent) → Decidable (s.BatchBootOk e)
  | .start _ (some (.data _ _)) => inferInstanceAs (Decidable (_ → (_ → _) ∧ (_ → _)))
  | .start _ (some .invalidData) | .start _ (some .timeout) | .start _ (some .txDone)
  | .start _ none | .trigger => inferInstanceAs (Decidable True)

/-! ## The run -/

variable {old : Cells} {s t : OtaSlave} {start : ℕ → OtaSlave → Option OtaMsg → OtaSlave}
  {now : ℕ} {msg : Option OtaMsg} {Data : ℕ → UInt8} {e : OtaSlaveEvent}

/-- The slot is the one that does not run, and the boot words are kept. -/
structure BootInv (old : Cells) (s : OtaSlave) : Prop where
  flashAddr_eq : s.flashAddr = otaSlaveBinAddr old
  kept : s.BootKept old

theorem BootInv.slot (h : s.BootInv old) :
    s.flashAddr = otaSlaveBinAddr1 ∨ s.flashAddr = otaSlaveBinAddr2 := by
  rw [h.flashAddr_eq]
  exact (otaSlaveBinAddr_cases old).elim (fun h => .inr h.1) fun h => .inl h.1

theorem BootInv.congr (h : s.BootInv old) (hflashAddr : t.flashAddr = s.flashAddr)
    (hflash : t.flash = s.flash) (hrebooted : t.rebooted = s.rebooted) : t.BootInv old := by
  refine ⟨hflashAddr.trans h.flashAddr_eq, fun hup => ?_⟩
  rw [hflashAddr, hflash]
  exact h.kept (hrebooted ▸ hup)

/-- A trigger starts over. -/
theorem BootInv.init (hwords : ∀ i < 4,
      s.flash (otaRunningAddr (otaSlaveBinAddr old) + otaBootFlagOffset + i) =
        old (otaRunningAddr (otaSlaveBinAddr old) + otaBootFlagOffset + i)) :
    (otaSlaveInit s (otaSlaveBinAddr old)).BootInv old := by
  have hslot : otaSlaveBinAddr old = otaSlaveBinAddr1 ∨ otaSlaveBinAddr old = otaSlaveBinAddr2 :=
    (otaSlaveBinAddr_cases old).elim (fun h => .inr h.1) fun h => .inl h.1
  exact ⟨rfl, fun _ => bootWords_erase hslot hwords⟩

theorem BootInv.trigger (h : s.BootInv old) (hup : s.rebooted = false) :
    (otaSlaveInit s (otaSlaveBinAddr s.flash)).BootInv old := by
  have hwords := h.kept hup
  rw [h.flashAddr_eq] at hwords
  rw [hwords.otaSlaveBinAddr_eq]
  exact BootInv.init hwords.running

/-- The slot is erased again. -/
theorem BootInv.erase (h : s.BootInv old) {running : Bool} :
    BootInv old { s with flash := otaFlashErase s.flash s.flashAddr, running := running } :=
  ⟨h.flashAddr_eq, fun hup => bootWords_erase h.slot (h.kept hup).running⟩

/-- The check either ends the update or programs nothing. -/
theorem BootInv.verify (h : s.BootInv old) (pktOk : BitVec 16 → Bool) :
    (s.verify pktOk).BootInv old := by
  unfold OtaSlave.verify
  split
  · exact h.congr rfl rfl rfl
  · dsimp only
    split
    · exact ⟨h.flashAddr_eq, fun hup => by cases hup⟩
    · exact h.congr rfl rfl rfl

/-- A block beside the boot words. -/
theorem BootInv.flashWritePage (h : s.BootInv old) (pos : ℕ) {addr off : ℕ} {n : ℤ}
    (haddr : addr = s.flashAddr + pos) (hn : 0 ≤ n) (hlt : n < 4294967296)
    (hbeside : BesideBoot s.flashAddr pos n.toNat) :
    (s.flashWritePage addr n off).BootInv old := by
  refine ⟨h.flashAddr_eq, fun hup => ?_⟩
  have hlen : (s.payload off (u32Add 0 n)).length = n.toNat := by
    unfold payload
    rw [length_bytes, u32Add_of_nonneg hn (by omega), Nat.zero_add, Int.toNat_natCast]
  show BootWords old s.flashAddr (NorFlash.program s.flash addr (s.payload off (u32Add 0 n)))
  rw [haddr]
  exact (h.kept hup).program h.slot (hlen ▸ hbeside)

/-- The steps of the loop, from those of the state machine. -/
theorem BootInv.step (h : s.BootInv old)
    (hcall : ∀ now msg, e = .start now msg → s.Active → (start now s.clearOps msg).BootInv old) :
    (otaSlaveStep start s e).BootInv old := by
  cases e with
  | trigger =>
    unfold otaSlaveStep
    split
    · exact h
    next hup =>
      dsimp only
      split
      · exact h
      · exact h.trigger (by simpa using fun hre => hup (.inl hre))
  | start now msg =>
    by_cases hactive : s.Active
    · rw [step_active hactive]
      exact hcall now msg rfl hactive
    · rwa [step_inactive hactive]

/-! ## The slave of one master -/

/-- No more bytes are counted than the blocks have. -/
def Counted (s : OtaSlave) : Prop := s.totalBinSize ≤ blockLen * s.blockNum

theorem BootInv.writeBlock (h : s.BootInv old) (hcounted : s.Counted)
    (hblock : s.blockNum + 1 < 65536) (hlen : s.len ≤ otaFramePayloadMax + 1)
    (hok : s.BootBlockOk s.len) : (s.writeBlock (s.blockNum + 1)).BootInv old := by
  have haddr : s.flashAddr ≤ otaSlaveBinAddr2 := h.flashAddr_eq.trans_le (otaSlaveBinAddr_le old)
  unfold Counted blockLen at hcounted
  unfold otaSlaveBinAddr2 at haddr
  unfold otaFramePayloadMax at hlen hcounted
  unfold OtaSlave.writeBlock
  unfold BootBlockOk at hok
  split at hok
  next hfirst =>
    unfold otaBootFlagOffset at hok
    rw [if_pos (by omega)]
    refine (h.flashWritePage 0 rfl (by decide) (by decide) ?_).flashWritePage 36 ?_ ?_ ?_ ?_
    · exact ⟨.inl (by decide), fun _ => .inl (by decide)⟩
    · exact u32_of_lt (by unfold otaBootFlagOffset; omega)
    · unfold otaBootFlagOffset
      omega
    · unfold otaBootFlagOffset
      omega
    · refine ⟨.inr (by decide), fun _ => .inl ?_⟩
      unfold otaBootFlagOffset otaSlaveBinAddr2
      omega
  next hfirst =>
    rw [if_neg (by omega)]
    refine h.flashWritePage s.totalBinSize ?_ (by omega) (by omega) ?_
    · exact u32_of_lt (by omega)
    · rw [show ((s.len : ℤ) - 3).toNat = s.len - 3 by omega]
      exact hok.2

/-- A block keeps the boot words and the count. -/
theorem BootInv.storeBlock (h : s.BootInv old) (hcounted : s.Counted)
    (hblock : s.blockNum + 1 < 65536) (hlen : s.len ≤ otaFramePayloadMax + 1)
    (hok : s.BootBlockOk s.len) :
    (s.storeBlock (s.blockNum + 1)).BootInv old ∧ (s.storeBlock (s.blockNum + 1)).Counted := by
  have hretry : BootInv old { s with retryTimes := 0 } := h.congr rfl rfl rfl
  refine ⟨(hretry.writeBlock hcounted hblock hlen hok).congr rfl rfl rfl, ?_⟩
  have hshort : 3 ≤ s.len := by
    unfold BootBlockOk otaBootFlagOffset at hok
    split at hok <;> omega
  show u32Add s.totalBinSize (s.len - 3) ≤ blockLen * (s.blockNum + 1)
  unfold Counted blockLen at hcounted
  unfold blockLen
  unfold otaFramePayloadMax at *
  rw [u32Add_of_nonneg (by omega) (by omega)]
  omega

/-- A trigger counts from the first block on. -/
theorem counted_step (h : s.Counted)
    (hcall : ∀ now msg, e = .start now msg → s.Active → (start now s.clearOps msg).Counted) :
    (otaSlaveStep start s e).Counted := by
  cases e with
  | trigger =>
    rcases step_trigger start s with heq | heq
    · rwa [heq]
    · rw [heq]
      exact Nat.zero_le _
  | start now msg =>
    by_cases hactive : s.Active
    · rw [step_active hactive]
      exact hcall now msg rfl hactive
    · rwa [step_inactive hactive]

theorem bootInv_slaveStart (h : s.BootInv old) (hcounted : s.Counted) (hactive : s.Active)
    (hok : s.BootOk (.start now msg)) : (otaSlaveStart now s.clearOps msg).BootInv old ∧
      (otaSlaveStart now s.clearOps msg).Counted := by
  have hkeep : ∀ t : OtaSlave, t.core.flashAddr = s.core.flashAddr →
      t.core.flash = s.core.flash → t.core.rebooted = s.core.rebooted →
        t.core.totalBinSize = s.core.totalBinSize → t.core.blockNum = s.core.blockNum →
          t.BootInv old ∧ t.Counted := by
    intro t haddr hflash hre htotal hblock
    simp only [core] at haddr hflash hre htotal hblock
    refine ⟨h.congr haddr hflash hre, ?_⟩
    unfold Counted
    rwa [htotal, hblock]
  have hclear : s.clearOps.BootInv old := h.congr rfl rfl rfl
  cases slaveOutcome (s := s.clearOps) now (safeOps_of_nil rfl) msg with
  | keep state hmove hnone hcore hsafe =>
    exact hkeep _ (by rw [hcore]; rfl) (by rw [hcore]; rfl) (by rw [hcore]; rfl)
      (by rw [hcore]; rfl) (by rw [hcore]; rfl)
  | started Data hne hmsg hready hreq hcore hsafe =>
    exact hkeep _ (by rw [hcore]; rfl) (by rw [hcore]; rfl) (by rw [hcore]; rfl)
      (by rw [hcore]; rfl) (by rw [hcore]; rfl)
  | ended hready hcore hsafe =>
    exact hkeep _ (by rw [hcore]; rfl) (by rw [hcore]; rfl) (by rw [hcore]; rfl)
      (by rw [hcore]; rfl) (by rw [hcore]; rfl)
  | store Data hne hmsg hstores heq =>
    subst hmsg
    have hrx : (s.clearOps.rx Data).BootInv old := h.congr rfl rfl rfl
    have hblock : s.blockNum + 1 < 65536 := hstores.next.symm.trans_lt (bytesToUint16_lt _ _)
    rw [heq]
    exact hrx.storeBlock hcounted hblock hstores.len (hok hactive (stores_clearOps.mp hstores))
  | verify hended heq =>
    rw [heq]
    refine ⟨hclear.verify _, ?_⟩
    obtain ⟨-, fwCRC, state, flash, rebooted, crashed, hcore⟩ :=
      core_verify s.clearOps fun fwCRC => fwCRC = s.clearOps.pktCRC
    have htotal := congrArg SlaveCore.totalBinSize hcore
    have hblock := congrArg SlaveCore.blockNum hcore
    simp only [core] at htotal hblock
    unfold Counted
    rw [htotal, hblock]
    exact hcounted
  | erase herror heq =>
    rw [heq]
    exact ⟨hclear.erase, hcounted⟩

/-! ## The batch slave -/

/-- A write of the rest of the frame to a block beside the boot words. -/
theorem BootInv.writeAt (h : s.BootInv old) {blkn : ℕ} (hblkn : blkn < 65536) {n : ℤ} {off k : ℕ}
    (hn : n = s.len - (k : ℕ)) (hlen : s.len < 256) (hok : s.BatchBlockOk blkn s.len k) :
    (s.flashWritePage (s.blockAddr blkn) n off).BootInv old := by
  have haddr : s.flashAddr ≤ otaSlaveBinAddr2 := h.flashAddr_eq.trans_le (otaSlaveBinAddr_le old)
  have hblock : s.blockAddr blkn = s.flashAddr + blockLen * (blkn - 1) := by
    unfold otaSlaveBinAddr2 at haddr
    refine u32_of_lt ?_
    rw [show blockLen = 48 from rfl]
    omega
  obtain ⟨hk, hbeside⟩ := hok
  refine h.flashWritePage _ hblock (by omega) (by omega) ?_
  rwa [show n.toNat = s.len - k by omega]

/-- A later block beside the boot words. -/
theorem BootInv.batchStore (h : s.BootInv old) {blkn : ℕ} (hblkn : blkn < 65536)
    (hlen : s.len < 256) (hok : s.BatchBlockOk blkn s.len 3) :
    (otaBatchSlaveStoreBlock s blkn).BootInv old := by
  have hnoted : BootInv old
      { s.noteLost (blkn - s.blockNum - 1) with retryTimes := 0 } := h.congr rfl rfl rfl
  have hwrite : BootInv old (OtaSlave.flashWritePage
      { s.noteLost (blkn - s.blockNum - 1) with retryTimes := 0 } (s.blockAddr blkn) (s.len - 3)
        2) := hnoted.writeAt hblkn rfl hlen hok
  exact hwrite.congr rfl rfl rfl

/-- A block of the list beside the boot words. -/
theorem BootInv.supplement (h : s.BootInv old) {blkn : ℕ} (hblkn : blkn < 65536)
    (hlen : s.len < 256) (hok : s.BatchBlockOk blkn s.len 9) :
    (otaBatchSlaveSupplement s blkn).BootInv old := by
  have hwrite : (s.flashWritePage (s.blockAddr blkn) (s.len - 3 - 6) 8).BootInv old :=
    h.writeAt hblkn (by omega) hlen hok
  unfold otaBatchSlaveSupplement
  dsimp only
  split
  · exact hwrite.congr rfl rfl rfl
  · exact hwrite.congr rfl rfl rfl

/-- The last blocks are noted as lost. -/
theorem BootInv.noteLoss (h : s.BootInv old) (n tick : ℕ) : BootInv old
    { (s.noteLost n).sendLossRsp with state := .dataLossCheck, lossCheckTick := tick } :=
  h.congr rfl rfl rfl

theorem bootInv_batchStart (h : s.BootInv old) (hactive : s.Active)
    (hok : s.BatchBootOk (.start now msg)) :
    (otaBatchSlaveStart now s.clearOps msg).BootInv old := by
  have hkeep : ∀ t : OtaSlave, t.core.flashAddr = s.core.flashAddr →
      t.core.flash = s.core.flash → t.core.rebooted = s.core.rebooted → t.BootInv old :=
    fun t haddr hflash hre => h.congr haddr hflash hre
  have hclear : s.clearOps.BootInv old := h.congr rfl rfl rfl
  have hrx : ∀ Data, (s.clearOps.rx Data).BootInv old := fun Data => h.congr rfl rfl rfl
  have hblkn : ∀ Data, (s.clearOps.rx Data).rxBlockNum < 65536 := fun Data => bytesToUint16_lt _ _
  cases batchOutcome (s := s.clearOps) now (safeOps_of_nil rfl) msg with
  | keep state hmove hquiet hcore hsafe =>
    exact hkeep _ (by rw [hcore]; rfl) (by rw [hcore]; rfl) (by rw [hcore]; rfl)
  | started Data hne hmsg hready hcore hsafe =>
    exact hkeep _ (by rw [hcore]; rfl) (by rw [hcore]; rfl) (by rw [hcore]; rfl)
  | declined hready hcore hsafe =>
    exact hkeep _ (by rw [hcore]; rfl) (by rw [hcore]; rfl) (by rw [hcore]; rfl)
  | complete hready hall hquiet hcore hsafe =>
    exact hkeep _ (by rw [hcore]; rfl) (by rw [hcore]; rfl) (by rw [hcore]; rfl)
  | noteLoss Data hne hmsg hnotes heq =>
    rw [heq]
    exact (hrx Data).noteLoss _ _
  | store Data hne hmsg hstores heq =>
    subst hmsg
    rw [heq]
    exact (hrx Data).batchStore (hblkn Data) (Data 0).toNat_lt
      ((hok hactive).1 (batchStores_clearOps.mp hstores))
  | supplement Data hne hmsg hsup heq =>
    subst hmsg
    rw [heq]
    exact (hrx Data).supplement (hblkn Data) (Data 0).toNat_lt
      ((hok hactive).2 (supplements_clearOps.mp hsup))
  | verify hended heq =>
    rw [heq]
    exact hclear.verify _
  | erase herror heq =>
    rw [heq]
    exact hclear.erase

end OtaSlave

/-- The boot words are kept in every run in which the slave of one master is sent a first block
that reaches behind the boot word and further blocks that end below the running one, and the batch
slave no block that covers a boot word. -/
theorem bootKept_of_along (flash : Cells) {events events' : List OtaSlaveEvent}
    (h : Machine.Along (otaSlaveStep otaSlaveStart) OtaSlave.BootOk
      (otaSlaveInit (.powerOn flash) (otaSlaveBinAddr flash)) events)
    (h' : Machine.Along (otaSlaveStep otaBatchSlaveStart) OtaSlave.BatchBootOk
      (otaSlaveInit (.powerOn flash) (otaSlaveBinAddr flash)) events') :
    Machine.Always (otaSlaveStep otaSlaveStart) (OtaSlave.BootKept flash)
        (otaSlaveInit (.powerOn flash) (otaSlaveBinAddr flash)) events ∧
      Machine.Always (otaSlaveStep otaBatchSlaveStart) (OtaSlave.BootKept flash)
        (otaSlaveInit (.powerOn flash) (otaSlaveBinAddr flash)) events' := by
  have hinit : (otaSlaveInit (.powerOn flash) (otaSlaveBinAddr flash)).BootInv flash :=
    OtaSlave.BootInv.init fun _ _ => rfl
  constructor
  · have hstep : ∀ (s : OtaSlave) (e : OtaSlaveEvent), s.BootInv flash ∧ s.Counted → s.BootOk e →
        (otaSlaveStep otaSlaveStart s e).BootInv flash ∧
          (otaSlaveStep otaSlaveStart s e).Counted := by
      intro s e hinv hok
      refine ⟨hinv.1.step fun now msg he hactive => ?_,
        OtaSlave.counted_step hinv.2 fun now msg he hactive => ?_⟩
      · subst he
        exact (OtaSlave.bootInv_slaveStart hinv.1 hinv.2 hactive hok).1
      · subst he
        exact (OtaSlave.bootInv_slaveStart hinv.1 hinv.2 hactive hok).2
    exact Machine.always_of_invariant hstep (fun s hinv => hinv.1.kept) ⟨hinit, Nat.zero_le _⟩ h
  · refine Machine.always_of_invariant
      (fun s e hinv hok => hinv.step fun now msg he hactive => ?_)
      (fun s hinv => hinv.kept) hinit h'
    subst he
    exact OtaSlave.bootInv_batchStart hinv hactive hok

/-- A flash from the first slot of which the chip runs. -/
def firstSlotRuns : Cells := fun a =>
  if a = otaSlaveBinAddr1 + otaBootFlagOffset then 0x4b else 0xFF

/-- A first block with the boot word. -/
def bootBlock : List UInt8 :=
  [51, otaFrameTypeData, 1, 0] ++ List.replicate 32 0 ++ [0x4b, 0x4e, 0x4c, 0x54] ++
    List.replicate 12 0

theorem bootBlock_ne_zero : mem bootBlock 0 ≠ 0 := by decide

/-- The length byte of a request to start a transfer of two blocks. -/
theorem startTwoReq_ne_zero : mem [4, otaFrameTypeCmd, otaCmdIdStartReq, 2, 0] 0 ≠ 0 := by decide

/-- The first block of a transfer, behind the requests of its master. -/
def firstBlock : List OtaSlaveEvent :=
  [.start 0 none, rxFrameMsg [2, otaFrameTypeCmd, otaCmdIdVersionReq] versionReq_ne_zero,
    rxFrameMsg [4, otaFrameTypeCmd, otaCmdIdStartReq, 2, 0] startTwoReq_ne_zero,
    rxFrameMsg bootBlock bootBlock_ne_zero]

/-- A block of a broadcast, behind the request of its master. -/
def batchBlock (frame : List UInt8) (h : mem frame 0 ≠ 0) : List OtaSlaveEvent :=
  [.start 0 none,
    rxFrameMsg [13, otaFrameTypeCmd, otaCmdIdBatchStartReq, 0x6f, 0x74, 0x61, 0, 0, 0, 0, 2, 0,
      otaDataChannel, 1] (by decide),
    rxFrameMsg frame h]

theorem bootKept_firstSlotRuns :
    Machine.Always (otaSlaveStep otaSlaveStart) (OtaSlave.BootKept firstSlotRuns)
        (otaSlaveInit (.powerOn firstSlotRuns) (otaSlaveBinAddr firstSlotRuns)) firstBlock ∧
      Machine.Always (otaSlaveStep otaBatchSlaveStart) (OtaSlave.BootKept firstSlotRuns)
        (otaSlaveInit (.powerOn firstSlotRuns) (otaSlaveBinAddr firstSlotRuns))
          (batchBlock [5, otaFrameTypeData, 2, 0, 1, 2] (by decide)) :=
  bootKept_of_along firstSlotRuns (by decide +kernel) (by decide +kernel)

theorem not_bootKept :
    ¬ Machine.Always (otaSlaveStep otaBatchSlaveStart) (OtaSlave.BootKept firstSlotRuns)
      (otaSlaveInit (.powerOn firstSlotRuns) (otaSlaveBinAddr firstSlotRuns))
        (batchBlock bootBlock (by decide)) := by
  intro h
  exact absurd (h.last (by decide +kernel)).erased (by decide +kernel)

end TlBleSdk.Ota
