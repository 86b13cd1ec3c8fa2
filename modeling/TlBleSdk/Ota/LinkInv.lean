import TlBleSdk.Ota.Link

/-!
# A transfer between a master and a slave

`OtaLink.Inv` ties master, slave and the frame on its way together, and every event of a link keeps
it. The slave then stores the image of a single key of the master, block by block, and restarts only
with the whole of it.
-/

namespace TlBleSdk.Ota

open Hci NorFlash

/-! ## The slave -/

namespace OtaSlave

variable {img : OtaImage} {s t : OtaSlave} {msg : Option OtaMsg} {Data : ℕ → UInt8} {now : ℕ}

/-- The last answer of the slave is in `TxFrame`. -/
structure Answers (s : OtaSlave) : Prop where
  version : s.state = .startReady → s.txFrame.Begins otaFrameTypeCmd [otaCmdIdVersionRsp]
  start : s.state = .dataReady → s.blockNum = 0 →
    s.txFrame.Begins otaFrameTypeCmd [otaCmdIdStartRsp]
  ack : s.state = .dataReady ∨ s.state = .endReady → 0 < s.blockNum →
    s.txFrame.Begins otaFrameTypeAck (uint16ToBstream s.blockNum)

/-- The slot is erased behind the blocks that are stored. -/
def Blank (s : OtaSlave) : Prop := s.Active → s.state ≠ .error →
  ∀ i, s.totalBinSize ≤ i → i < otaSlotLen → s.flash (s.flashAddr + i) = 0xFF

/-- The command of a frame. -/
theorem begins_head {frame : OtaFrame} {type id : UInt8} {l : List UInt8}
    (h : frame.Begins type (id :: l)) : frame.Begins type [id] :=
  ⟨h.type_eq, hasBytes_cons.mpr ⟨(hasBytes_cons.mp h.payload).1, hasBytes_nil _ _⟩⟩

theorem answers_of_other (hstart : s.state ≠ .startReady) (hdata : s.state ≠ .dataReady)
    (hend : s.state ≠ .endReady) : s.Answers :=
  ⟨fun hs => absurd hs hstart, fun hs => absurd hs hdata, fun hs => absurd hs (not_or.mpr ⟨hdata, hend⟩)⟩

/-- The answers are the same in the same state. -/
theorem Answers.congr (h : s.Answers) (hstate : t.state = s.state) (hnum : t.blockNum = s.blockNum)
    (htx : t.txFrame = s.txFrame) : t.Answers := by
  constructor
  · rw [hstate, htx]
    exact h.version
  · rw [hstate, hnum, htx]
    exact h.start
  · rw [hstate, hnum, htx]
    exact h.ack

theorem state_verify (s : OtaSlave) (pktOk : BitVec 16 → Bool) :
    (s.verify pktOk).state = s.state ∨ (s.verify pktOk).state = .error := by
  unfold verify
  split
  · exact .inl rfl
  · dsimp only
    split
    · exact .inl rfl
    · exact .inr rfl

/-- A call keeps the answers. -/
theorem Answers.turn (h : s.Answers) (hturn : SlaveTurn s msg t)
    (hfresh : s.state = .startReady → s.blockNum = 0) : t.Answers := by
  cases hturn with
  | quiet state hmove hcore htx hair =>
    have hstate : t.state = state := congrArg SlaveCore.state hcore
    rcases hmove with rfl | rfl | ⟨-, rfl⟩
    · exact h.congr hstate (congrArg SlaveCore.blockNum hcore) htx
    · apply answers_of_other <;> rw [hstate] <;> decide
    · apply answers_of_other <;> rw [hstate] <;> decide
  | version Data hD hmsg hstate hreq hcore hsends =>
    obtain ⟨l, hsends⟩ := hsends
    have hstate' : t.state = .startReady := congrArg SlaveCore.state hcore
    exact ⟨fun _ => begins_head hsends.tx, (fun hs => by simp [hstate'] at hs),
      fun hs => by simp [hstate'] at hs⟩
  | again Data hD hmsg hasked hcore htx hlen hair =>
    exact h.congr (congrArg SlaveCore.state hcore) (congrArg SlaveCore.blockNum hcore) htx
  | started Data hD hmsg hstate hreq hcore hsends =>
    have hstate' : t.state = .dataReady := congrArg SlaveCore.state hcore
    have hnum : t.blockNum = s.blockNum := congrArg SlaveCore.blockNum hcore
    refine ⟨(fun hs => by simp [hstate'] at hs), fun _ _ => hsends.tx, fun _ hpos => ?_⟩
    rw [hnum, hfresh hstate] at hpos
    exact absurd hpos (Nat.lt_irrefl 0)
  | store Data hD hmsg hstores heq =>
    have hcore := core_storeBlock (s.rx Data) (s.blockNum + 1)
    rw [← heq] at hcore
    have hnum : t.blockNum = s.blockNum + 1 := congrArg SlaveCore.blockNum hcore
    have hdata : (s.rx Data).state = .dataReady := hstores.state
    have hstate : t.state ≠ .startReady := by
      rw [show t.state = _ from congrArg SlaveCore.state hcore]
      dsimp only
      rw [hdata]
      split <;> decide
    refine ⟨fun hs => absurd hs hstate, fun _ hzero => ?_, fun _ _ => ?_⟩
    · rw [hnum] at hzero
      cases hzero
    · rw [hnum, heq]
      exact begins_buildAckFrame s.txFrame (s.blockNum + 1)
  | ended Data hD hmsg hstate hreq hcore hsends =>
    have hstate' : t.state = .ended := congrArg SlaveCore.state hcore
    apply answers_of_other <;> rw [hstate'] <;> decide
  | verify hstate heq =>
    rw [heq]
    rcases state_verify s fun fwCRC => fwCRC = s.pktCRC with hkeep | herror
    · apply answers_of_other <;> rw [hkeep, hstate] <;> decide
    · apply answers_of_other <;> rw [herror] <;> decide
  | erase hstate heq =>
    have hstate' : t.state = .error := by
      rw [heq]
      exact hstate
    apply answers_of_other <;> rw [hstate'] <;> decide

/-- A session begins with an erased slot. -/
theorem blank_init (s : OtaSlave) : (otaSlaveInit s (otaSlaveBinAddr s.flash)).Blank := by
  intro _ _ i _ hi
  show otaFlashErase s.flash (otaSlaveBinAddr s.flash) (otaSlaveBinAddr s.flash + i) = 0xFF
  rw [otaFlashErase_apply, if_pos ⟨Nat.le_add_right _ _, Nat.add_lt_add_left hi _⟩]

/-- Nothing of the image changes. -/
theorem Blank.congr (h : s.Blank) (hactive : s.Active) (hne : s.state ≠ .error)
    (hflash : t.flash = s.flash) (haddr : t.flashAddr = s.flashAddr)
    (htotal : t.totalBinSize = s.totalBinSize) : t.Blank := by
  intro _ _ i hlo hhi
  rw [hflash, haddr]
  exact h hactive hne i (htotal ▸ hlo) hhi

/-- A block is written in front of what is erased. -/
theorem Blank.storeBlock (h : s.Blank) (himage : s.ImageInv img) (hactive : s.Active)
    (hstate : s.state = .dataReady) (hmax : s.maxBlockNum < 65536)
    (hl : s.Loaded (img.block s.blockNum)) : (s.storeBlock (s.blockNum + 1)).Blank := by
  have hcore := core_storeBlock s (s.blockNum + 1)
  have happ := himage.appends hstate hmax
  have hcount := himage.total_storeBlock hstate hmax hl
  have hlength := img.length_block s.blockNum
  have htotal := happ.total_eq
  intro _ _ i hlo hhi
  have hlo' : min (blockLen * (s.blockNum + 1)) img.size ≤ i := by
    rw [← hcount]
    exact hlo
  rw [show (s.storeBlock (s.blockNum + 1)).flash = _ from congrArg SlaveCore.flash hcore,
    show (s.storeBlock (s.blockNum + 1)).flashAddr = _ from congrArg SlaveCore.flashAddr hcore]
  dsimp only [core]
  have hfit := img.block_lt_iff.mp (himage.data hstate).2
  have hbehind : s.totalBinSize ≤ i := by
    unfold blockLen otaFramePayloadMax at *
    omega
  have hblank : s.flash (s.flashAddr + i) = 0xFF :=
    h hactive (by rw [hstate]; decide) i hbehind hhi
  rw [flash_writeBlock hl happ]
  split
  · have hend : (img.block s.blockNum).length ≤ i - blockLen * s.blockNum := by
      rw [hlength]
      unfold blockLen otaFramePayloadMax at *
      omega
    rw [List.getD_eq_default _ _ hend, and_ones, hblank]
  · exact hblank

/-- A call keeps the rest of the slot erased. -/
theorem blank_call (h : s.Blank) (hrun : s.RunInv img) (hactive : s.Active)
    (hok : Faithful img s (.start now msg)) : (otaSlaveStart now s.clearOps msg).Blank := by
  cases slaveOutcome (s := s.clearOps) now (safeOps_of_nil rfl) msg with
  | keep state hmove hnone hcore hsafe =>
    by_cases hne : s.state = .error
    · intro hup hup'
      have hstate : (otaSlaveStart now s.clearOps msg).state = state :=
        congrArg SlaveCore.state hcore
      rw [hstate] at hup'
      -- only a trigger leads out of the error state
      have hmove : s.state.Moves state := hmove
      rw [hne] at hmove
      rcases hmove with rfl | rfl | ⟨hidle, -⟩ | ⟨hready, -⟩
      · exact absurd rfl hup'
      · exact absurd rfl hup'
      · cases hidle
      · cases hready
    · exact h.congr hactive hne (congrArg SlaveCore.flash hcore)
        (congrArg SlaveCore.flashAddr hcore) (congrArg SlaveCore.totalBinSize hcore)
  | started Data hD hmsg hready hreq hcore hsafe =>
    have hready : s.state = .startReady := hready
    exact h.congr hactive (by rw [hready]; decide) (congrArg SlaveCore.flash hcore)
      (congrArg SlaveCore.flashAddr hcore) (congrArg SlaveCore.totalBinSize hcore)
  | store Data hD hmsg hstores heq =>
    subst hmsg
    have hdata : s.state = .dataReady := hstores.state
    have himage := hrun.image hactive (by rw [hdata]; decide)
    have hcarries := (hok hactive).2 (stores_clearOps.mp hstores)
    have hrx : (s.clearOps.rx Data).ImageInv img :=
      himage.of_core rfl himage.fresh himage.data himage.complete
    have hblank : (s.clearOps.rx Data).Blank :=
      h.congr hactive (by rw [hdata]; decide) rfl rfl rfl
    rw [heq]
    exact hblank.storeBlock hrx hactive hdata hrun.max_lt
      ⟨hcarries.loaded.len, hcarries.loaded.data⟩
  | ended hready hcore hsafe =>
    have hready : s.state = .endReady := hready
    exact h.congr hactive (by rw [hready]; decide) (congrArg SlaveCore.flash hcore)
      (congrArg SlaveCore.flashAddr hcore) (congrArg SlaveCore.totalBinSize hcore)
  | verify hended heq =>
    rw [heq]
    unfold verify
    split
    · exact fun hup => absurd hup.2 (by simp)
    · dsimp only
      split
      · exact fun hup => absurd hup.2 (by simp [switchBootFlag])
      · exact fun _ hne => absurd rfl hne
  | erase herror heq =>
    rw [heq]
    exact fun hup => by cases hup.1

/-! ### The restart -/

/-- The switch of the boot words keeps the rest of the slot. -/
theorem flash_switchBootFlag_of_not_inBootWord
    (haddr : s.flashAddr = otaSlaveBinAddr1 ∨ s.flashAddr = otaSlaveBinAddr2) {i : ℕ}
    (hi : i < otaSlotLen) (hboot : ¬ InBootWord i) :
    s.switchBootFlag.flash (s.flashAddr + i) = s.flash (s.flashAddr + i) := by
  unfold InBootWord otaBootFlagOffset at hboot
  unfold otaSlotLen at hi
  have hnew : program s.flash (s.flashAddr + otaBootFlagOffset) [0x4b, 0x4e, 0x4c, 0x54]
      (s.flashAddr + i) = s.flash (s.flashAddr + i) := by
    apply program_of_disjoint
    show _ ∨ s.flashAddr + 32 + 4 ≤ _
    unfold otaBootFlagOffset
    omega
  rw [← hnew]
  apply program_of_disjoint
  show _ ∨ _ + 1 ≤ _
  rcases haddr with haddr | haddr
  · rw [haddr, if_neg (by decide)]
    unfold otaSlaveBinAddr1 otaSlaveBinAddr2 otaBootFlagOffset
    omega
  · rw [haddr, if_pos (by decide)]
    unfold otaSlaveBinAddr2 otaBootFlagOffset
    omega

/-- The slot holds the whole image, and the image is good. -/
def Booted (img : OtaImage) (s : OtaSlave) : Prop :=
  img.CrcOk ∧ NorFlash.read s.flash s.flashAddr img.size = img.bytes

/-- With its boot word the image is complete. -/
theorem booted_switchBootFlag (himage : s.ImageInv img) (hended : s.state = .ended)
    (hfits : img.size ≤ otaSlotLen) (hcrc : img.CrcOk) (hflash : t.flash = s.flash)
    (haddr : t.flashAddr = s.flashAddr) : t.switchBootFlag.Booted img := by
  refine ⟨hcrc, List.ext_getElem (length_read _ _ _) fun i hi hi' => ?_⟩
  have hlt : i < img.size := hi'
  have hslot : t.flashAddr = otaSlaveBinAddr1 ∨ t.flashAddr = otaSlaveBinAddr2 := haddr ▸ himage.slot
  rw [getElem_read]
  refine Eq.trans ?_ (List.getD_eq_getElem _ 0xFF hi')
  show t.switchBootFlag.flash (t.flashAddr + i) = img.byte i
  by_cases hboot : InBootWord i
  · obtain ⟨hlo, hhi⟩ := hboot
    have herased : ∀ i, InBootWord i → t.flash (t.flashAddr + i) = 0xFF := by
      rw [hflash, haddr]
      exact himage.erased
    have hword := (flash_switchBootFlag hslot herased).1
    have hcell := congrArg (fun l => l.getD (i - otaBootFlagOffset) 0) hword
    rw [getD_read _ _ (by omega), Nat.add_assoc, Nat.add_sub_cancel' hlo] at hcell
    rw [hcell, img.byte_of_inBootWord ⟨hlo, hhi⟩]
  · rw [flash_switchBootFlag_of_not_inBootWord hslot (by omega) hboot, hflash, haddr]
    exact himage.stored i (by rw [total_of_ended himage hended]; exact hlt) hboot

/-- The slave restarts with a good image only, and it is complete then. -/
theorem booted_verify (h : s.RunInv img) (hactive : s.Active) (hended : s.state = .ended)
    (hfits : img.size ≤ otaSlotLen)
    (hboot : (s.clearOps.verify fun fwCRC => fwCRC = s.pktCRC).rebooted = true) :
    (s.clearOps.verify fun fwCRC => fwCRC = s.pktCRC).Booted img := by
  have himage := h.image hactive (by rw [hended]; decide)
  have hlt := size_lt h hactive hended
  have hread := readFwCRC_eq himage hended hlt
  have hup : s.rebooted = false := Bool.eq_false_iff.mpr fun hs => hactive.2 (.inl hs)
  unfold verify at hboot ⊢
  cases hfw : s.clearOps.readFwCRC with
  | none =>
    rw [hfw] at hboot
    exact absurd (hup.symm.trans hboot) Bool.false_ne_true
  | some fwCRC =>
    rw [hfw] at hboot
    dsimp only at hboot ⊢
    have hfw' : s.readFwCRC = some fwCRC := hfw
    split
    next hok =>
      obtain ⟨hpkt, htarget⟩ := hok
      have hres : img.size % blockLen ≠ 1 := by
        intro hone
        rw [hread, if_pos hone] at hfw'
        cases hfw'
      have hcrc : fwCRC = img.crc :=
        (of_decide_eq_true hpkt).trans (pktCRC_of_ended himage hended hres)
      rw [hread, if_neg hres] at hfw'
      have hsize : blockLen < img.size := by
        refine Nat.lt_of_not_le fun hshort => crc_seen_ne himage hended hshort ?_
        rw [← hcrc]
        exact Option.some.inj hfw'
      have htarget' := readTargetFwCRC_eq himage hended hlt hsize
      have hgood : img.CrcOk := hcrc.symm.trans (htarget.symm.trans htarget')
      exact booted_switchBootFlag himage hended hfits hgood rfl rfl
    next hbad =>
      rw [if_neg hbad] at hboot
      exact absurd (hup.symm.trans hboot) Bool.false_ne_true

/-- Before the first block the slot may be meant for any image. -/
theorem RunInv.other (h : s.RunInv img) (hactive : s.Active) (hstate : s.state = .startReady)
    (img' : OtaImage) : s.RunInv img' := by
  refine .of_image h.max_lt fun _ => ?_
  have himage := h.image hactive (by rw [hstate]; decide)
  have hzero := himage.fresh (.inr (.inr hstate))
  have htotal : s.totalBinSize = 0 := by
    rw [himage.total_eq, hzero, Nat.mul_zero, Nat.zero_min]
  refine ⟨himage.slot, himage.fwCRC_eq, ?_, himage.erased, fun i hi => ?_, ?_, himage.fresh,
    (fun hs => by simp [hstate] at hs), fun hs => by simp [hstate] at hs⟩
  · rw [htotal, hzero, Nat.mul_zero, Nat.zero_min]
  · rw [htotal] at hi
    exact absurd hi (Nat.not_lt_zero i)
  · have hcrc := himage.pktCRC_eq
    rw [hzero, OtaImage.pktBytes, if_pos img.blocks_pos, Nat.mul_zero, List.take_zero] at hcrc
    rw [hcrc, hzero, OtaImage.pktBytes, if_pos img'.blocks_pos, Nat.mul_zero, List.take_zero]

end OtaSlave

/-! ## The frame on its way -/

/-- The master has no request with data on the air. -/
def OtaMaster.Free (m : OtaMaster) : Prop := m.state ≠ .startRspWait ∧ m.state ≠ .dataAckWait

/-- What may be on its way between a master that sends the image of `km` and a slave that stores
that of `ks`. -/
inductive InFlight (image : OtaKey → OtaImage) (km ks : OtaKey) (m : OtaMaster) (s : OtaSlave) :
    Option OtaFlight → Prop
  | none : InFlight image km ks m s none
  | versionReq {f : List UInt8} (hlen : f.length ≤ otaFrameSize)
    (hf : [otaFrameTypeCmd, otaCmdIdVersionReq] <+: f) (hm : m.Free) :
    InFlight image km ks m s (some (.toSlave f))
  | startReq (k : OtaKey) {f : List UInt8} (hlen : f.length ≤ otaFrameSize)
    (hf : otaFrameTypeCmd :: otaCmdIdStartReq :: uint16ToBstream (image k).blocks <+: f)
    (hm : m.state ≠ .dataAckWait) (hk : m.state = .startRspWait → k = km) :
    InFlight image km ks m s (some (.toSlave f))
  | dataReq (k : OtaKey) {n : ℕ} (hpos : 0 < n) (hlt : n < 65536)
    (hm : m.state ≠ .startRspWait) (hk : m.state = .dataAckWait → k = km ∧ n = m.blockNum)
    (hs : s.Active → s.state = .dataReady → k = ks) :
    InFlight image km ks m s (some (.toSlave ((image k).dataFrame n)))
  | endReq {f : List UInt8} (hlen : f.length ≤ otaFrameSize)
    (hf : [otaFrameTypeCmd, otaCmdIdEndReq] <+: f) (hm : m.Free) :
    InFlight image km ks m s (some (.toSlave f))
  | versionRsp {f : List UInt8} (hlen : f.length ≤ otaFrameSize)
    (hf : [otaFrameTypeCmd, otaCmdIdVersionRsp] <+: f) (hm : m.Free)
    (hs : s.Active → s.state ≠ .dataReady ∧ s.state ≠ .endReady ∧ s.state ≠ .ended) :
    InFlight image km ks m s (some (.toMaster f))
  | startRsp {f : List UInt8} (hlen : f.length ≤ otaFrameSize)
    (hf : [otaFrameTypeCmd, otaCmdIdStartRsp] <+: f) (hm : m.state ≠ .dataAckWait)
    (hs : s.Active → s.state ≠ .startReady ∧ s.state ≠ .endReady ∧
      (s.state = .dataReady → s.blockNum = 0)) :
    InFlight image km ks m s (some (.toMaster f))
  | ack {n : ℕ} {f : List UInt8} (hlen : f.length ≤ otaFrameSize)
    (hf : otaFrameTypeAck :: uint16ToBstream n <+: f) (hlt : n < 65536)
    (hm : m.state ≠ .startRspWait) (hk : m.state = .dataAckWait → n = m.blockNum)
    (hs : s.Active → s.state ≠ .startReady ∧
      (s.state = .dataReady ∨ s.state = .endReady → s.blockNum = n)) :
    InFlight image km ks m s (some (.toMaster f))
  | endRsp {f : List UInt8} (hlen : f.length ≤ otaFrameSize)
    (hf : [otaFrameTypeCmd, otaCmdIdEndRsp] <+: f) (hm : m.Free) :
    InFlight image km ks m s (some (.toMaster f))

/-- While the master has a request with data on the air, a slave that has not given up is where that
request finds it. -/
structure Joined (km ks : OtaKey) (m : OtaMaster) (s : OtaSlave) : Prop where
  start : m.state = .startRspWait → s.Active →
    s.state ≠ .endReady ∧ s.state ≠ .ended ∧ (s.state = .dataReady → ks = km ∧ s.blockNum = 0)
  data : m.state = .dataAckWait → s.Active →
    s.state ≠ .startReady ∧ s.state ≠ .ended ∧
      (s.state = .dataReady → ks = km ∧
        (s.blockNum = m.blockNum ∨ s.blockNum + 1 = m.blockNum)) ∧
      (s.state = .endReady → ks = km ∧ s.blockNum = m.blockNum)

section Pair

variable {image : OtaKey → OtaImage} {km ks : OtaKey} {m m' : OtaMaster} {s t : OtaSlave}
  {flight : Option OtaFlight}

theorem joined_of_free (hm : m.Free) (km ks : OtaKey) (s : OtaSlave) : Joined km ks m s :=
  ⟨fun hs => absurd hs hm.1, fun hs => absurd hs hm.2⟩

/-- A frame on its way is no matter to a master without a request with data. -/
theorem InFlight.of_free (h : InFlight image km ks m s flight) (hm : m'.Free) (km' : OtaKey) :
    InFlight image km' ks m' s flight := by
  cases h with
  | none => exact .none
  | versionReq hlen hf _ => exact .versionReq hlen hf hm
  | startReq k hlen hf _ _ => exact .startReq k hlen hf hm.2 fun hs => absurd hs hm.1
  | dataReq k hpos hlt _ _ hs => exact .dataReq k hpos hlt hm.1 (fun h => absurd h hm.2) hs
  | endReq hlen hf _ => exact .endReq hlen hf hm
  | versionRsp hlen hf _ hs => exact .versionRsp hlen hf hm hs
  | startRsp hlen hf _ hs => exact .startRsp hlen hf hm.2 hs
  | ack hlen hf hlt _ _ hs => exact .ack hlen hf hlt hm.1 (fun h => absurd h hm.2) hs
  | endRsp hlen hf _ => exact .endRsp hlen hf hm

/-- The master is in the same state. -/
theorem InFlight.master_same (h : InFlight image km ks m s flight) (hstate : m'.state = m.state)
    (hnum : m'.blockNum = m.blockNum) : InFlight image km ks m' s flight := by
  have hfree : m.Free → m'.Free := by
    unfold OtaMaster.Free
    rw [hstate]
    exact id
  cases h with
  | none => exact .none
  | versionReq hlen hf hm => exact .versionReq hlen hf (hfree hm)
  | startReq k hlen hf hm hk => exact .startReq k hlen hf (hstate ▸ hm) (hstate ▸ hk)
  | dataReq k hpos hlt hm hk hs =>
    exact .dataReq k hpos hlt (hstate ▸ hm) (by rw [hstate, hnum]; exact hk) hs
  | endReq hlen hf hm => exact .endReq hlen hf (hfree hm)
  | versionRsp hlen hf hm hs => exact .versionRsp hlen hf (hfree hm) hs
  | startRsp hlen hf hm hs => exact .startRsp hlen hf (hstate ▸ hm) hs
  | ack hlen hf hlt hm hk hs =>
    exact .ack hlen hf hlt (hstate ▸ hm) (by rw [hstate, hnum]; exact hk) hs
  | endRsp hlen hf hm => exact .endRsp hlen hf (hfree hm)

theorem Joined.master_same (h : Joined km ks m s) (hstate : m'.state = m.state)
    (hnum : m'.blockNum = m.blockNum) : Joined km ks m' s :=
  ⟨by rw [hstate]; exact h.start, by rw [hstate, hnum]; exact h.data⟩

/-- The slave stays where it is, or leaves the transfer. -/
def OtaSlave.Stays (s t : OtaSlave) : Prop := t.Active →
  (s.Active ∧ t.state = s.state ∧ t.blockNum = s.blockNum) ∨
    t.state = .idle ∨ t.state = .fwVersionReady ∨ t.state = .error

/-- A condition on the states of a transfer. -/
theorem stays_imp (h : s.Stays t) {P : OtaSlaveState → ℕ → Prop}
    (hP : s.Active → P s.state s.blockNum)
    (hleft : ∀ n, P .idle n ∧ P .fwVersionReady n ∧ P .error n) (hactive : t.Active) :
    P t.state t.blockNum := by
  rcases h hactive with ⟨hs, hstate, hnum⟩ | hidle | hready | herror
  · rw [hstate, hnum]
    exact hP hs
  · rw [hidle]
    exact (hleft _).1
  · rw [hready]
    exact (hleft _).2.1
  · rw [herror]
    exact (hleft _).2.2

theorem InFlight.slave_stays (h : InFlight image km ks m s flight) (hstays : s.Stays t) :
    InFlight image km ks m t flight := by
  cases h with
  | none => exact .none
  | versionReq hlen hf hm => exact .versionReq hlen hf hm
  | startReq k hlen hf hm hk => exact .startReq k hlen hf hm hk
  | dataReq k hpos hlt hm hk hs =>
    exact .dataReq k hpos hlt hm hk
      (stays_imp hstays (P := fun state _ => state = .dataReady → k = ks) hs (by simp))
  | endReq hlen hf hm => exact .endReq hlen hf hm
  | versionRsp hlen hf hm hs =>
    exact .versionRsp hlen hf hm (stays_imp hstays
      (P := fun state _ => state ≠ .dataReady ∧ state ≠ .endReady ∧ state ≠ .ended) hs (by simp))
  | startRsp hlen hf hm hs =>
    exact .startRsp hlen hf hm (stays_imp hstays
      (P := fun state n => state ≠ .startReady ∧ state ≠ .endReady ∧ (state = .dataReady → n = 0))
      hs (by simp))
  | @ack n f hlen hf hlt hm hk hs =>
    exact .ack hlen hf hlt hm hk (stays_imp hstays
      (P := fun state k => state ≠ .startReady ∧ (state = .dataReady ∨ state = .endReady → k = n))
      hs (by simp))
  | endRsp hlen hf hm => exact .endRsp hlen hf hm

theorem Joined.slave_stays (h : Joined km ks m s) (hstays : s.Stays t) : Joined km ks m t := by
  constructor
  · intro hm
    exact stays_imp hstays (P := fun state n => state ≠ .endReady ∧ state ≠ .ended ∧
      (state = .dataReady → ks = km ∧ n = 0)) (h.start hm) (by simp)
  · intro hm
    exact stays_imp hstays (P := fun state n => state ≠ .startReady ∧ state ≠ .ended ∧
      (state = .dataReady → ks = km ∧ (n = m.blockNum ∨ n + 1 = m.blockNum)) ∧
      (state = .endReady → ks = km ∧ n = m.blockNum)) (h.data hm) (by simp)

end Pair

end TlBleSdk.Ota
