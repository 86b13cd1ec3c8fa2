import TlBleSdk.Ota.LinkSafe

/-!
# Transfers between a master and a slave complete

A transfer goes through as long as no block, with its acknowledgement, is lost more than
`OTA_RETRY_MAX` times. Both losses end with the timeout of the master, which sends its last frame
again.
-/

namespace TlBleSdk.Ota

open Hci NorFlash

/-- How an attempt to get a block across fails. -/
inductive OtaLoss
  /-- The frame with the block is lost. -/
  | request
  /-- Its acknowledgement is lost. -/
  | answer

/-- An attempt that fails. -/
def OtaLoss.events (now : ℕ) : OtaLoss → List OtaLinkEvent
  | .request => [.lose, .master now .timeout false]
  | .answer => [.slave now .frame false, .lose, .master now .timeout false]

/-- A block gets across behind the attempts that fail. -/
def exchange (now : ℕ) (losses : List OtaLoss) : List OtaLinkEvent :=
  losses.flatMap (OtaLoss.events now) ++ [.slave now .frame false, .master now .frame false]

/-- The way to the first block: the slave is triggered, and versions and start are exchanged. -/
def handshake (now : ℕ) : List OtaLinkEvent :=
  [.trigger, .slave now .nothing false, .master now .nothing false, .slave now .frame false,
    .master now .frame false, .slave now .frame false, .master now .frame false]

/-- What is left of a transfer: the blocks, the end and the check of the slave. -/
def restOfTransfer (now : ℕ) (losses : List (List OtaLoss)) : List OtaLinkEvent :=
  losses.flatMap (exchange now) ++
    [.slave now .frame false, .master now .frame false, .slave now .nothing false]

/-- An image that the slave takes. -/
def OtaImage.Good (img : OtaImage) : Prop :=
  blockLen < img.size ∧ img.size % blockLen ≠ 1 ∧ img.CrcOk

instance (img : OtaImage) : Decidable img.Good := inferInstanceAs (Decidable (_ ∧ _ ∧ _))

/-! ## Calls that go on -/

section Slave

variable {s : OtaSlave} {Data : ℕ → UInt8} {n now : ℕ}

/-- A number of 32 bits in memory. -/
theorem hasBytes_uint32 {p : ℕ → UInt8} {a : ℕ} (h : HasBytes p a (uint32ToBstream n))
    (hn : n < 4294967296) : bytesToUint32 p a = n := by
  obtain ⟨h0, h⟩ := hasBytes_cons.mp h
  obtain ⟨h1, h⟩ := hasBytes_cons.mp h
  obtain ⟨h2, h⟩ := hasBytes_cons.mp h
  have h3 := (hasBytes_cons.mp h).1
  unfold bytesToUint32
  rw [h0, h1, h2, h3]
  simp only [UInt8.toNat_ofNat']
  omega

/-- A slave is asked for its next block or for its last one again. -/
structure OtaSlave.Takes (s t : OtaSlave) (n : ℕ) : Prop where
  active : s.Active → t.Active
  state : t.state = .dataReady ∨ t.state = .endReady
  blockNum : t.blockNum = n
  air : ∃ len, 3 ≤ len ∧ len ≤ otaFrameSize ∧ t.air = s.air ++ [t.txFrame.bytes len]

/-- The last acknowledgement is sent again. -/
theorem takes_sendAgain (hstate : s.state = .dataReady ∨ s.state = .endReady)
    (hlo : 3 ≤ (Data 0).toNat) (hhi : (Data 0).toNat ≤ otaFrameSize) :
    s.Takes (s.rx Data).sendAgain s.blockNum :=
  ⟨id, hstate, rfl, (Data 0).toNat, hlo, hhi, air_macSendData _ hhi⟩

theorem active_congr {t : OtaSlave} (hs : s.Active) (hrun : t.running = s.running)
    (hboot : t.rebooted = s.rebooted) (hcrash : t.crashed = s.crashed) : t.Active := by
  refine ⟨hrun.trans hs.1, fun hup => hs.2 ?_⟩
  exact hup.imp (fun h => hboot.symm.trans h) fun h => hcrash.symm.trans h

theorem active_sendCmd (hs : s.Active) (cmdId : UInt8) (value : Option (List UInt8)) :
    (s.sendCmd cmdId value).Active :=
  active_congr hs rfl rfl rfl

/-- A block is stored. -/
theorem takes_storeBlock (hstate : s.state = .dataReady) :
    s.Takes ((s.rx Data).storeBlock n) n := by
  have hcore := OtaSlave.core_storeBlock (s.rx Data) n
  refine ⟨fun hs => active_congr hs ?_ ?_ ?_, ?_, congrArg SlaveCore.blockNum hcore, 3, Nat.le_refl 3,
    by decide, air_storeBlock (s.rx Data) n⟩
  · exact congrArg SlaveCore.running hcore
  · exact congrArg SlaveCore.rebooted hcore
  · exact congrArg SlaveCore.crashed hcore
  · rw [show ((s.rx Data).storeBlock n).state = _ from congrArg SlaveCore.state hcore]
    dsimp only
    split
    · exact .inr rfl
    · exact .inl hstate

/-- A frame that the slave is ready for. -/
theorem otaSlaveReady_answer {answer : OtaSlave → Option OtaSlave} {t : OtaSlave} (h : Data 0 ≠ 0)
    (hlen : (Data 0).toNat ≤ otaFrameSize) (hans : answer (s.rx Data) = some t) :
    otaSlaveReady answer s (.data Data h) = t := by
  have hle : (Data 0).toNat ≤ otaFramePayloadMax + 1 := by
    unfold otaFrameSize at hlen
    omega
  rw [otaSlaveReady_data answer s h hle, hans]
  rfl

/-- A data frame with the block that is next or with the last one is answered. -/
theorem takes_slaveStart (h : Data 0 ≠ 0)
    (hnum : (s.state = .dataReady ∧ s.blockNum + 1 = n) ∨
      ((s.state = .dataReady ∨ s.state = .endReady) ∧ s.blockNum = n))
    (hlo : 3 ≤ (Data 0).toNat) (hhi : (Data 0).toNat ≤ otaFrameSize)
    (htype : (s.rx Data).rxFrame.type = otaFrameTypeData) (hblock : (s.rx Data).rxBlockNum = n) :
    s.Takes (otaSlaveStart now s (some (.data Data h))) n := by
  have hcmd : ¬ ((s.rx Data).rxFrame.type = otaFrameTypeCmd ∧
      (s.rx Data).rxFrame.payload 0 = otaCmdIdStartReq) := by
    rw [htype]
    exact fun hs => absurd hs.1 (by decide)
  rcases hnum with ⟨hs, hnext⟩ | ⟨hs | hs, hsame⟩
  · -- the next block
    have hne : (s.rx Data).rxBlockNum ≠ (s.rx Data).blockNum := by
      rw [hblock]
      show n ≠ s.blockNum
      omega
    have hnext' : (s.rx Data).rxBlockNum = (s.rx Data).blockNum + 1 := hblock.trans hnext.symm
    have hans : otaSlaveDataReady (s.rx Data) = some ((s.rx Data).storeBlock n) := by
      rw [otaSlaveDataReady, if_neg hcmd, if_pos htype, if_neg hne, if_pos hnext', hblock]
    rw [otaSlaveStart.eq_def, hs]
    show s.Takes (otaSlaveReady otaSlaveDataReady s (.data Data h)) n
    rw [otaSlaveReady_answer h hhi hans]
    exact takes_storeBlock hs
  · have hsame' : (s.rx Data).rxBlockNum = (s.rx Data).blockNum := hblock.trans hsame.symm
    have hans : otaSlaveDataReady (s.rx Data) = some (s.rx Data).sendAgain := by
      rw [otaSlaveDataReady, if_neg hcmd, if_pos htype, if_pos hsame']
    rw [otaSlaveStart.eq_def, hs, ← hsame]
    show s.Takes (otaSlaveReady otaSlaveDataReady s (.data Data h)) s.blockNum
    rw [otaSlaveReady_answer h hhi hans]
    exact takes_sendAgain (.inl hs) hlo hhi
  · have hans : otaSlaveEndReady (s.rx Data) = some (s.rx Data).sendAgain := by
      rw [otaSlaveEndReady, if_pos ⟨htype, hblock.trans hsame.symm⟩]
    rw [otaSlaveStart.eq_def, hs, ← hsame]
    show s.Takes (otaSlaveReady otaSlaveEndReady s (.data Data h)) s.blockNum
    rw [otaSlaveReady_answer h hhi hans]
    exact takes_sendAgain (.inr hs) hlo hhi

/-- The slave answers with its version. -/
theorem otaSlaveStart_version (h : Data 0 ≠ 0) (hstate : s.state = .fwVersionReady)
    (hlen : (Data 0).toNat ≤ otaFrameSize)
    (hbegins : (s.rx Data).rxFrame.Begins otaFrameTypeCmd [otaCmdIdVersionReq]) :
    otaSlaveStart now s (some (.data Data h)) =
      { s.rx Data with retryTimes := 0, state := .startReady }.sendCmd otaCmdIdVersionRsp
        (some (uint32ToBstream s.fwVersion)) := by
  have hans : otaSlaveFwVersionReady (s.rx Data) = some
      ({ s.rx Data with retryTimes := 0, state := .startReady }.sendCmd otaCmdIdVersionRsp
        (some (uint32ToBstream s.fwVersion))) :=
    if_pos ⟨hbegins.type_eq, begins_id hbegins⟩
  rw [← otaSlaveReady_answer h hlen hans, otaSlaveStart.eq_def, hstate]

/-- The slave starts. -/
theorem otaSlaveStart_start (h : Data 0 ≠ 0) (hstate : s.state = .startReady)
    (hlen : (Data 0).toNat ≤ otaFrameSize)
    (hbegins : (s.rx Data).rxFrame.Begins otaFrameTypeCmd [otaCmdIdStartReq]) :
    otaSlaveStart now s (some (.data Data h)) =
      { s.rx Data with
        retryTimes := 0
        maxBlockNum := bytesToUint16 (s.rx Data).rxFrame.payload 1
        state := .dataReady }.sendCmd otaCmdIdStartRsp none := by
  have hid := begins_id hbegins
  have hne : (s.rx Data).rxFrame.payload 0 ≠ otaCmdIdVersionReq := by
    rw [hid]
    decide
  have hans : otaSlaveStartReady (s.rx Data) = some ({ s.rx Data with
      retryTimes := 0
      maxBlockNum := bytesToUint16 (s.rx Data).rxFrame.payload 1
      state := .dataReady }.sendCmd otaCmdIdStartRsp none) := by
    rw [otaSlaveStartReady, if_pos hbegins.type_eq, if_neg hne, if_pos hid]
  rw [← otaSlaveReady_answer h hlen hans, otaSlaveStart.eq_def, hstate]

/-- The slave that has all blocks ends. -/
theorem otaSlaveStart_end (h : Data 0 ≠ 0) (hstate : s.state = .endReady)
    (hlen : (Data 0).toNat ≤ otaFrameSize)
    (hbegins : (s.rx Data).rxFrame.Begins otaFrameTypeCmd
      (otaCmdIdEndReq :: uint32ToBstream s.totalBinSize))
    (hsize : s.totalBinSize < 4294967296) :
    otaSlaveStart now s (some (.data Data h)) =
      { s.rx Data with retryTimes := 0, state := .ended }.sendCmd otaCmdIdEndRsp none := by
  have hdata : ¬ ((s.rx Data).rxFrame.type = otaFrameTypeData ∧
      (s.rx Data).rxBlockNum = (s.rx Data).blockNum) := by
    rw [hbegins.type_eq]
    exact fun hs => absurd hs.1 (by decide)
  obtain ⟨hid, hvalue⟩ := hasBytes_cons.mp hbegins.payload
  have htotal : ¬ (s.rx Data).totalBinSize ≠ bytesToUint32 (s.rx Data).rxFrame.payload 1 := by
    rw [hasBytes_uint32 hvalue hsize]
    exact not_not.mpr rfl
  have hans : otaSlaveEndReady (s.rx Data) = some
      ({ s.rx Data with retryTimes := 0, state := .ended }.sendCmd otaCmdIdEndRsp none) := by
    rw [otaSlaveEndReady, if_neg hdata, if_pos ⟨hbegins.type_eq, hid⟩]
    exact if_neg htotal
  rw [← otaSlaveReady_answer h hlen hans, otaSlaveStart.eq_def, hstate]

/-- A slave with a good image restarts. -/
theorem rebooted_verify {img : OtaImage} (h : s.RunInv img) (hactive : s.Active)
    (hended : s.state = .ended) (hsize : blockLen < img.size) (hres : img.size % blockLen ≠ 1)
    (hcrc : img.CrcOk) :
    (otaSlaveStart now s.clearOps none).rebooted = true := by
  have himage := h.image hactive (by rw [hended]; decide)
  have hlt := OtaSlave.size_lt h hactive hended
  have hok : OtaSlave.EndOk img s now none :=
    (OtaSlave.endOk_iff h hactive hended).mpr ⟨hsize, hres⟩
  have hfw : s.clearOps.readFwCRC = some s.pktCRC := hok.fwCRC_eq
  have htarget : s.clearOps.readTargetFwCRC = s.pktCRC :=
    (OtaSlave.readTargetFwCRC_eq himage hended hlt hsize).trans
      (hcrc.symm.trans (OtaSlave.pktCRC_of_ended himage hended hres).symm)
  have hcond : decide (s.pktCRC = s.pktCRC) = true ∧ s.clearOps.readTargetFwCRC = s.pktCRC :=
    ⟨decide_eq_true rfl, htarget⟩
  rw [OtaSlave.otaSlaveStart_ended hended, OtaSlave.verify, hfw]
  dsimp only
  rw [if_pos hcond]
  rfl

end Slave

section Master

variable {m : OtaMaster} {Data : ℕ → UInt8} {now : ℕ}

/-- On a timeout the master sends its last frame again. -/
theorem otaMasterStart_timeout (hstate : m.state = .dataAckWait)
    (hretry : m.retryTimes < otaRetryMax) :
    otaMasterStart now m (some .timeout) =
      { m with retryTimes := m.retryTimes + 1 }.macSendData m.len := by
  have hcall : otaMasterStart now m (some .timeout) = otaMasterRetry m .timeout := by
    rw [otaMasterStart.eq_def, hstate]
    rfl
  have hretried : otaMasterRetry m .timeout =
      { m with retryTimes := u8 (m.retryTimes + 1) }.macSendData m.len :=
    if_neg (Nat.ne_of_lt hretry)
  rw [hcall, hretried, u8_of_lt (Nat.lt_of_le_of_lt hretry (by decide))]

/-- A frame that the master waits for. -/
theorem otaMasterWait_data {answer : OtaMaster → Option OtaMaster} {t : OtaMaster} (h : Data 0 ≠ 0)
    (hlen : (Data 0).toNat ≤ otaFrameSize) (hans : answer (m.rx Data) = some t) :
    otaMasterWait answer m (.data Data h) = t := by
  have hle : ¬ otaFramePayloadMax + 1 < (m.rxHeader Data).len := by
    unfold otaFrameSize at hlen
    show ¬ otaFramePayloadMax + 1 < (Data 0).toNat
    omega
  exact (if_neg hle).trans (congrArg (Option.getD · _) hans)

theorem sends_sendCmd_none (m : OtaMaster) (cmdId : UInt8) :
    m.Sends (m.sendCmd cmdId none) otaFrameTypeCmd [cmdId] 2 :=
  ⟨(begins_buildCmdFrame_none m.txFrame cmdId).1, rfl, rfl⟩

/-- The master asks for the version. -/
theorem otaMasterStart_ask (hstate : m.state = .idle) (htick : m.stateTick = 0) :
    otaMasterStart now m none = { m with
      stateTick := clockTimeOr1 now, state := .fwVerWait }.sendCmd otaCmdIdVersionReq none := by
  rw [otaMasterStart.eq_def, hstate]
  exact if_pos htick

/-- The master asks a slave with an older version to start. -/
theorem otaMasterStart_version {version : ℕ} (h : Data 0 ≠ 0) (hstate : m.state = .fwVerWait)
    (hlen : (Data 0).toNat ≤ otaFrameSize)
    (hbegins : (m.rx Data).rxFrame.Begins otaFrameTypeCmd
      (otaCmdIdVersionRsp :: uint32ToBstream version)) (hlt : version < 4294967296)
    (hold : version < m.fwVersion) :
    otaMasterStart now m (some (.data Data h)) =
      { m.rx Data with retryTimes := 0, state := .startRspWait }.sendCmd otaCmdIdStartReq
        (some (uint16ToBstream m.maxBlockNum)) := by
  obtain ⟨hid, hvalue⟩ := hasBytes_cons.mp hbegins.payload
  have hversion : bytesToUint32 (m.rx Data).rxFrame.payload 1 < (m.rx Data).fwVersion := by
    rw [hasBytes_uint32 hvalue hlt]
    exact hold
  have hans : otaMasterFwVerWait (m.rx Data) = some
      ({ m.rx Data with retryTimes := 0, state := .startRspWait }.sendCmd otaCmdIdStartReq
        (some (uint16ToBstream m.maxBlockNum))) := by
    rw [otaMasterFwVerWait, if_pos ⟨hbegins.type_eq, hid⟩]
    exact if_pos hversion
  rw [← otaMasterWait_data h hlen hans, otaMasterStart.eq_def, hstate]

/-- The master sends its first block. -/
theorem otaMasterStart_start (h : Data 0 ≠ 0) (hstate : m.state = .startRspWait)
    (hlen : (Data 0).toNat ≤ otaFrameSize)
    (hbegins : (m.rx Data).rxFrame.Begins otaFrameTypeCmd [otaCmdIdStartRsp]) :
    otaMasterStart now m (some (.data Data h)) =
      { m.rx Data with retryTimes := 0, state := .dataAckWait }.sendBlock := by
  have hans : otaMasterStartRspWait (m.rx Data) =
      some { m.rx Data with retryTimes := 0, state := .dataAckWait }.sendBlock :=
    if_pos ⟨hbegins.type_eq, begins_id hbegins⟩
  rw [← otaMasterWait_data h hlen hans, otaMasterStart.eq_def, hstate]

/-- On the acknowledgement the master goes on. -/
theorem otaMasterStart_ack (h : Data 0 ≠ 0) (hstate : m.state = .dataAckWait)
    (hawaits : m.Awaits Data) (hlen : (Data 0).toNat ≤ otaFrameSize) :
    otaMasterStart now m (some (.data Data h)) =
      if m.finishFlag then
        { m.rx Data with retryTimes := 0, state := .endRspWait }.sendCmd otaCmdIdEndReq
          (some (uint32ToBstream m.totalBinSize))
      else { m.rx Data with retryTimes := 0 }.sendBlock := by
  have hans : otaMasterDataAckWait (m.rx Data) = some (if m.finishFlag then
      { m.rx Data with retryTimes := 0, state := .endRspWait }.sendCmd otaCmdIdEndReq
        (some (uint32ToBstream m.totalBinSize))
      else { m.rx Data with retryTimes := 0 }.sendBlock) := by
    rw [otaMasterDataAckWait, if_pos ((awaits_dataAckWait hstate).mp hawaits), apply_ite some]
    rfl
  rw [← otaMasterWait_data h hlen hans, otaMasterStart.eq_def, hstate]

/-- The master ends. -/
theorem otaMasterStart_end (h : Data 0 ≠ 0) (hstate : m.state = .endRspWait)
    (hawaits : m.Awaits Data) (hlen : (Data 0).toNat ≤ otaFrameSize) :
    otaMasterStart now m (some (.data Data h)) =
      { m.rx Data with retryTimes := 0, state := .ended } := by
  have hans : otaMasterEndRspWait (m.rx Data) =
      some { m.rx Data with retryTimes := 0, state := .ended } :=
    if_pos ((awaits_endRspWait hstate).mp hawaits)
  rw [← otaMasterWait_data h hlen hans, otaMasterStart.eq_def, hstate]

end Master

/-! ## Blocks -/

namespace OtaLink

variable {image : OtaKey → OtaImage} {k : OtaKey} {link : OtaLink} (now : ℕ)

/-- The next frame of the master is a block, and the slave is in the transfer. -/
structure Waits (image : OtaKey → OtaImage) (k : OtaKey) (link : OtaLink) : Prop where
  inv : link.Inv image k k
  master : link.master.state = .dataAckWait
  active : link.slave.Active
  slave : link.slave.state = .dataReady ∨ link.slave.state = .endReady

/-- The block of the master is on its way. -/
structure Asks (image : OtaKey → OtaImage) (k : OtaKey) (link : OtaLink) : Prop
    extends link.Waits image k where
  flight : link.flight = some (.toSlave ((image k).dataFrame link.master.blockNum))

/-- The acknowledgement of the slave is on its way. -/
structure Acks (image : OtaKey → OtaImage) (k : OtaKey) (link : OtaLink) : Prop
    extends link.Waits image k where
  blockNum : link.slave.blockNum = link.master.blockNum
  flight : ∃ f, link.flight = some (.toMaster f)

/-- While the master waits for an acknowledgement, the slave stores its image. -/
theorem key_eq {km ks : OtaKey} (h : link.Inv image km ks)
    (hm : link.master.state = .dataAckWait) (hactive : link.slave.Active)
    (hs : link.slave.state = .dataReady ∨ link.slave.state = .endReady) : ks = km := by
  obtain ⟨-, -, hready, hend⟩ := h.joined.data hm hactive
  rcases hs with hs | hs
  · exact (hready hs).1
  · exact (hend hs).1

theorem packet_zero_le {f : List UInt8} (h : f.length ≤ otaFrameSize) :
    (packet f 0).toNat ≤ otaFrameSize := by
  rw [packet_zero (Nat.lt_of_le_of_lt h (by decide))]
  exact h

/-- A command frame that begins with the value. -/
structure CmdFrame (id : UInt8) (value f : List UInt8) : Prop where
  length_le : f.length ≤ otaFrameSize
  begins : otaFrameTypeCmd :: id :: value <+: f

theorem CmdFrame.two_le {id : UInt8} {value f : List UInt8} (h : CmdFrame id value f) :
    2 ≤ f.length :=
  Nat.le_trans (Nat.le_add_left 2 value.length) h.begins.length_le

theorem CmdFrame.nil {id : UInt8} {value f : List UInt8} (h : CmdFrame id value f) :
    CmdFrame id [] f :=
  ⟨h.length_le, (List.prefix_append [otaFrameTypeCmd, id] value).trans h.begins⟩

/-- A frame that is on its way is heard. -/
theorem msg_frame {f : List UInt8} (hlo : 2 ≤ f.length) (hhi : f.length ≤ otaFrameSize) :
    ∃ h, OtaHeard.frame.msg (some f) = some (.data (packet f) h) := by
  obtain ⟨h, hmsg⟩ := otaRxIrq_packet (Nat.lt_of_lt_of_le Nat.zero_lt_two hlo) hhi
  exact ⟨h, congrArg some hmsg⟩

/-- Nothing else is on its way. -/
theorem transmit_none (keep : Bool) (f : OtaFlight) : transmit keep none (some f) = some f :=
  if_neg (by simp)

/-- The answer of the slave is on its way. -/
theorem flight_slaveCall {f g : List UInt8} (hflight : link.flight = some (.toSlave f))
    (hair : (link.slaveCall now .frame false).slave.air = link.slave.air ++ [g]) :
    (link.slaveCall now .frame false).flight = some (.toMaster g) := by
  rw [slaveCall_eq rfl]
  dsimp only
  rw [hair, hflight, sentFrame_snoc]
  exact transmit_none false (.toMaster g)

/-- The answer of the slave is a command frame. -/
theorem slaveCall_sends {s t : OtaSlave} {id : UInt8} {value f : List UInt8}
    (hflight : link.flight = some (.toSlave f))
    (hcall : (link.slaveCall now .frame false).slave = t) (hsends : s.SendsCmd t (id :: value))
    (hair : s.air = link.slave.air) :
    ∃ g, (link.slaveCall now .frame false).flight = some (.toMaster g) ∧ CmdFrame id value g := by
  subst hcall
  obtain ⟨htx, n, hn, hn', hsent⟩ := hsends
  rw [hair] at hsent
  refine ⟨_, flight_slaveCall now hflight hsent, ?_, begins_bytes htx hn⟩
  rw [length_frame_bytes]
  exact hn'

/-- What the slave makes of a frame. -/
theorem slaveCall_frame {f : List UInt8} (hactive : link.slave.Active)
    (hflight : link.flight = some (.toSlave f)) (hlo : 2 ≤ f.length)
    (hhi : f.length ≤ otaFrameSize) : ∃ h, (link.slaveCall now .frame false).slave =
      otaSlaveStart now link.slave.clearOps (some (.data (packet f) h)) := by
  obtain ⟨h, hmsg⟩ := msg_frame hlo hhi
  refine ⟨h, ?_⟩
  rw [← hmsg, ← show OtaFlight.forSlave link.flight = some f by rw [hflight]; rfl]
  exact OtaSlave.step_active hactive

/-- The slave answers the block of the master. -/
theorem Asks.answered (h : link.Asks image k) :
    (link.slaveCall now .frame false).Acks image k := by
  have hdata := h.inv.joined.data h.master h.active
  have hflight := h.inv.flight
  rw [h.flight] at hflight
  obtain ⟨hlo, hhi⟩ := hflight.bounds_slave
  obtain ⟨hD, hcall⟩ := slaveCall_frame now h.active h.flight hlo hhi
  have hlen := packet_zero (Nat.lt_of_le_of_lt hhi (by decide))
  have hbegins := begins_dataFrame link.slave.clearOps (image k) link.master.blockNum
  obtain ⟨_, -, -, -, hblock, -⟩ := hflight.dataReq_of_rx hbegins.type_eq
  have htakes : link.slave.clearOps.Takes (link.slaveCall now .frame false).slave
      link.master.blockNum := by
    rw [hcall]
    refine takes_slaveStart hD ?_ ?_ (hlen ▸ hhi) hbegins.type_eq (hblock h.master).2
    · obtain ⟨-, -, hready, hend⟩ := hdata
      rcases h.slave with hs | hs
      · rcases (hready hs).2 with hsame | hnext
        · exact .inr ⟨.inl hs, hsame⟩
        · exact .inl ⟨hs, hnext⟩
      · exact .inr ⟨.inr hs, (hend hs).2⟩
    · rw [hlen, length_dataFrame]
      omega
  have hactive := htakes.active h.active
  obtain ⟨ks', hinv, hkey⟩ := inv_slaveCall h.inv now .frame false
  have hne : link.slave.state ≠ .startReady := by
    rcases h.slave with hs | hs <;> rw [hs] <;> decide
  obtain rfl := hkey hne
  obtain ⟨len, -, -, hair⟩ := htakes.air
  exact ⟨⟨hinv, h.master, hactive, htakes.state⟩, htakes.blockNum, _,
    flight_slaveCall now h.flight hair⟩

/-- The last request of the master is on its way to a slave that has all blocks. -/
structure Ends (image : OtaKey → OtaImage) (k : OtaKey) (link : OtaLink) : Prop where
  inv : link.Inv image k k
  master : link.master.state = .endRspWait
  active : link.slave.Active
  slave : link.slave.state = .endReady
  flight : ∃ f, link.flight = some (.toSlave f) ∧
    CmdFrame otaCmdIdEndReq (uint32ToBstream (image k).size) f

/-- What the master makes of a frame. -/
theorem masterCall_frame {f : List UInt8} (hflight : link.flight = some (.toMaster f))
    (hlo : 2 ≤ f.length) (hhi : f.length ≤ otaFrameSize) :
    ∃ h, (link.masterCall now .frame false).master =
      otaMasterStart now { link.master with ops := [] } (some (.data (packet f) h)) := by
  obtain ⟨h, hmsg⟩ := msg_frame hlo hhi
  refine ⟨h, ?_⟩
  rw [← hmsg, ← show OtaFlight.forMaster link.flight = some f by rw [hflight]; rfl]
  rfl

theorem left_frame {f : List UInt8} (hflight : link.flight = some (.toMaster f)) :
    OtaHeard.frame.left (OtaFlight.forMaster link.flight) link.flight = none := by
  rw [hflight]
  rfl

/-- The request of the master is on its way. -/
theorem flight_masterCall {heard : OtaHeard} {g : List UInt8}
    (hleft : heard.left (OtaFlight.forMaster link.flight) link.flight = none)
    (hair : (link.masterCall now heard false).master.air = link.master.air ++ [g]) :
    (link.masterCall now heard false).flight = some (.toSlave g) := by
  show transmit false (heard.left (OtaFlight.forMaster link.flight) link.flight)
    ((sentFrame link.master.air (link.masterCall now heard false).master.air).map .toSlave) = _
  rw [hair, hleft, sentFrame_snoc]
  exact transmit_none false (.toSlave g)

/-- The request of the master is a command frame. -/
theorem masterCall_sends {m t : OtaMaster} {heard : OtaHeard} {id : UInt8} {value : List UInt8}
    {n : ℕ} (hleft : heard.left (OtaFlight.forMaster link.flight) link.flight = none)
    (hcall : (link.masterCall now heard false).master = t)
    (hsends : m.Sends t otaFrameTypeCmd (id :: value) n) (hair : m.air = link.master.air)
    (hn : value.length + 1 < n) (hn' : n ≤ otaFrameSize) :
    ∃ g, (link.masterCall now heard false).flight = some (.toSlave g) ∧ CmdFrame id value g := by
  subst hcall
  have hsent := hsends.air
  rw [hair] at hsent
  refine ⟨_, flight_masterCall now hleft hsent, ?_, begins_bytes hsends.tx hn⟩
  rw [length_frame_bytes]
  exact hn'

/-- The master takes the acknowledgement. -/
theorem Acks.call (h : link.Acks image k) :
    ∃ Data, (link.masterCall now .frame false).master =
      if link.master.finishFlag then
        { ({ link.master with ops := [] } : OtaMaster).rx Data with
          retryTimes := 0, state := .endRspWait }.sendCmd otaCmdIdEndReq
          (some (uint32ToBstream link.master.totalBinSize))
      else { ({ link.master with ops := [] } : OtaMaster).rx Data with
        retryTimes := 0 }.sendBlock := by
  obtain ⟨f, hflight⟩ := h.flight
  have hinv := h.inv.flight
  rw [hflight] at hinv
  have hinv' : InFlight image k k { link.master with ops := [] } link.slave (some (.toMaster f)) :=
    hinv.master_same rfl rfl
  obtain ⟨hlo, hhi⟩ := hinv.bounds
  obtain ⟨hD, hcall⟩ := masterCall_frame now hflight hlo hhi
  exact ⟨packet f, hcall.trans (otaMasterStart_ack hD h.master (hinv'.awaits (.inr h.master))
    (packet_zero_le hhi))⟩

/-- The next block of the master is on its way. -/
theorem asks_masterCall {ks : OtaKey} {m : OtaMaster} {f : List UInt8} (h : link.Inv image k ks)
    (hflight : link.flight = some (.toMaster f)) (hactive : link.slave.Active)
    (hslave : link.slave.state = .dataReady ∨ link.slave.state = .endReady)
    (hcall : (link.masterCall now .frame false).master = m.sendBlock)
    (hcore : m.core = { link.master.core with state := .dataAckWait })
    (hair : m.air = link.master.air) (hlt : link.master.blockNum < (image k).blocks)
    (hmore : link.master.finishFlag = false)
    (haddr : link.master.flashAddr = link.master.binAddr + blockLen * link.master.blockNum) :
    (link.masterCall now .frame false).Asks image k ∧
      (link.masterCall now .frame false).master.blockNum = link.master.blockNum + 1 := by
  obtain ⟨-, -, hstate, hnum, hsent⟩ := h.serves.sendBlock hcore hlt hmore haddr
  rw [← hcall] at hstate hnum hsent
  rw [hair] at hsent
  have hinv := inv_masterCall h now .frame false
  obtain rfl := key_eq hinv hstate hactive hslave
  refine ⟨⟨⟨hinv, hstate, hactive, hslave⟩, ?_⟩, hnum⟩
  rw [flight_masterCall now (left_frame hflight) hsent, hnum]

/-- The master goes on to its next block. -/
theorem Acks.next (h : link.Acks image k) (hlt : link.master.blockNum < (image k).blocks) :
    (link.masterCall now .frame false).Asks image k ∧
      (link.masterCall now .frame false).master.blockNum = link.master.blockNum + 1 ∧
      (link.masterCall now .frame false).master.retryTimes = 0 := by
  obtain ⟨f, hflight⟩ := h.flight
  obtain ⟨Data, hcall⟩ := h.call now
  have hsent := h.inv.serves.data h.master
  have hmore : link.master.finishFlag = false :=
    Bool.eq_false_iff.mpr fun hs => Nat.ne_of_lt hlt (hsent.finish_iff.mp hs)
  rw [hmore, if_neg Bool.false_ne_true] at hcall
  have hcore : ({ ({ link.master with ops := [] } : OtaMaster).rx Data with
      retryTimes := 0 } : OtaMaster).core = { link.master.core with state := .dataAckWait } := by
    rw [← h.master]
    rfl
  obtain ⟨hasks, hnum⟩ := asks_masterCall now h.inv hflight h.active h.slave hcall hcore rfl hlt
    hmore (hsent.addr_eq hlt)
  refine ⟨hasks, hnum, ?_⟩
  rw [hcall]
  rfl

/-- The master goes on to the end of the transfer. -/
theorem Acks.last (h : link.Acks image k) (heq : link.master.blockNum = (image k).blocks) :
    (link.masterCall now .frame false).Ends image k := by
  obtain ⟨f, hflight⟩ := h.flight
  obtain ⟨Data, hcall⟩ := h.call now
  have hsent := h.inv.serves.data h.master
  rw [hsent.finish_iff.mpr heq, if_pos rfl] at hcall
  have hlength : (uint32ToBstream link.master.totalBinSize).length ≤ otaFramePayloadMax - 1 :=
    Nat.le_of_ble_eq_true rfl
  have hsends := sends_sendCmd { ({ link.master with ops := [] } : OtaMaster).rx Data with
    retryTimes := 0, state := .endRspWait } otaCmdIdEndReq hlength
  obtain ⟨g, hsent', hg⟩ := masterCall_sends now (left_frame hflight) hcall hsends rfl
    (Nat.lt_succ_self _) (Nat.le_of_ble_eq_true rfl)
  rw [h.inv.serves.total_eq] at hg
  have hstate : (link.masterCall now .frame false).master.state = .endRspWait := by
    rw [hcall]
    rfl
  have hready : link.slave.state = .endReady := by
    refine h.slave.resolve_left fun hs => ?_
    obtain ⟨-, hlt⟩ := (h.inv.run.image h.active (by rw [hs]; decide)).data hs
    rw [h.blockNum, heq] at hlt
    exact Nat.lt_irrefl _ hlt
  exact ⟨inv_masterCall h.inv now .frame false, hstate, h.active, hready, g, hsent', hg⟩

/-! ## Losses -/

theorem Waits.lose (h : link.Waits image k) : (link.step .lose).Waits image k :=
  ⟨inv_lose h.inv, h.master, h.active, h.slave⟩

/-- The master sends its block again. -/
theorem Waits.timeout (h : link.Waits image k) (hnone : link.flight = none)
    (hretry : link.master.retryTimes < otaRetryMax) :
    (link.masterCall now .timeout false).Asks image k ∧
      (link.masterCall now .timeout false).master.blockNum = link.master.blockNum ∧
      (link.masterCall now .timeout false).master.retryTimes = link.master.retryTimes + 1 := by
  have hcall : (link.masterCall now .timeout false).master =
      { link.master with ops := [], retryTimes := link.master.retryTimes + 1 }.macSendData
        link.master.len :=
    otaMasterStart_timeout (m := { link.master with ops := [] }) h.master hretry
  have hsent := h.inv.serves.data h.master
  have hlen : link.master.len ≤ otaFrameSize := by
    rw [hsent.len_eq, ← length_dataFrame]
    exact length_dataFrame_le
  have hair : (link.masterCall now .timeout false).master.air =
      link.master.air ++ [(image k).dataFrame link.master.blockNum] := by
    rw [hcall, ← hsent.frame]
    exact if_neg (Nat.not_lt_of_le (Nat.le_trans hlen (by decide)))
  have hnum : (link.masterCall now .timeout false).master.blockNum = link.master.blockNum := by
    rw [hcall]
    rfl
  have hstate : (link.masterCall now .timeout false).master.state = .dataAckWait := by
    rw [hcall]
    exact h.master
  refine ⟨⟨⟨inv_masterCall h.inv now .timeout false, hstate, h.active, h.slave⟩, ?_⟩, hnum, ?_⟩
  · rw [hnum]
    exact flight_masterCall now hnone hair
  · rw [hcall]
    rfl

/-- An attempt that fails costs the master one retry. -/
theorem Asks.retry (h : link.Asks image k) (loss : OtaLoss)
    (hretry : link.master.retryTimes < otaRetryMax) :
    (Machine.run step link (loss.events now)).Asks image k ∧
      (Machine.run step link (loss.events now)).master.blockNum = link.master.blockNum ∧
      (Machine.run step link (loss.events now)).master.retryTimes =
        link.master.retryTimes + 1 := by
  cases loss with
  | request => exact h.toWaits.lose.timeout now rfl hretry
  | answer => exact (h.answered now).toWaits.lose.timeout now rfl hretry

theorem Asks.retries (h : link.Asks image k) (losses : List OtaLoss)
    (hretry : link.master.retryTimes + losses.length ≤ otaRetryMax) :
    (Machine.run step link (losses.flatMap (OtaLoss.events now))).Asks image k ∧
      (Machine.run step link (losses.flatMap (OtaLoss.events now))).master.blockNum =
        link.master.blockNum := by
  induction losses generalizing link with
  | nil => exact ⟨h, rfl⟩
  | cons loss losses ih =>
    rw [List.length_cons] at hretry
    obtain ⟨hasks, hnum, hcount⟩ := h.retry now loss (by omega)
    rw [List.flatMap_cons, Machine.run_append, ← hnum]
    exact ih hasks (by omega)

/-- A block gets across. -/
theorem Asks.exchange (h : link.Asks image k) (losses : List OtaLoss)
    (hretry : link.master.retryTimes + losses.length ≤ otaRetryMax) :
    ∃ link' : OtaLink, link'.Acks image k ∧ link'.master.blockNum = link.master.blockNum ∧
      Machine.run step link (exchange now losses) = link'.masterCall now .frame false := by
  obtain ⟨hasks, hnum⟩ := h.retries now losses hretry
  refine ⟨_, hasks.answered now, hnum, ?_⟩
  rw [Ota.exchange, Machine.run_append]
  rfl

/-- All blocks that are left get across. -/
theorem Asks.exchanges (h : link.Asks image k) (first : List OtaLoss) (rest : List (List OtaLoss))
    (hnum : link.master.blockNum + rest.length = (image k).blocks)
    (hfirst : link.master.retryTimes + first.length ≤ otaRetryMax)
    (hrest : ∀ losses ∈ rest, losses.length ≤ otaRetryMax) :
    (Machine.run step link ((first :: rest).flatMap (Ota.exchange now))).Ends image k := by
  induction rest generalizing link first with
  | nil =>
    obtain ⟨link', hacks, heq, hrun⟩ := h.exchange now first hfirst
    rw [List.flatMap_singleton, hrun]
    exact hacks.last now (heq.trans hnum)
  | cons losses rest ih =>
    obtain ⟨link', hacks, heq, hrun⟩ := h.exchange now first hfirst
    rw [List.length_cons] at hnum
    obtain ⟨hasks, hnext, hretry⟩ := hacks.next now (by omega)
    rw [List.flatMap_cons, Machine.run_append, hrun]
    refine ih hasks losses (by omega) ?_ fun l hl => hrest l (List.mem_cons_of_mem _ hl)
    rw [hretry, Nat.zero_add]
    exact hrest losses List.mem_cons_self

/-! ## The end -/

/-- The slave ends. -/
theorem Ends.answered (h : link.Ends image k) :
    (link.slaveCall now .frame false).slave.RunInv (image k) ∧
      (link.slaveCall now .frame false).slave.Active ∧
      (link.slaveCall now .frame false).slave.state = .ended ∧
      ∃ f, (link.slaveCall now .frame false).flight = some (.toMaster f) ∧
        CmdFrame otaCmdIdEndRsp [] f := by
  obtain ⟨f, hflight, hf⟩ := h.flight
  obtain ⟨hD, hcall⟩ := slaveCall_frame now h.active hflight hf.two_le hf.length_le
  have himage := h.inv.run.image h.active (by rw [h.slave]; decide)
  have htotal : link.slave.totalBinSize = (image k).size := by
    rw [himage.total_eq, (himage.complete (.inl h.slave)).2]
    exact Nat.min_eq_right (image k).size_le
  have hsize := (h.inv.sizes k).1
  unfold otaSlotLen at hsize
  rw [← htotal] at hf hsize
  have hbegins := begins_slaveRx link.slave.clearOps hf.length_le hf.begins
  have hanswer := hcall.trans (otaSlaveStart_end hD h.slave (packet_zero_le hf.length_le) hbegins
    (Nat.lt_of_le_of_lt hsize (by decide)))
  obtain ⟨ks', hinv, hkey⟩ := inv_slaveCall h.inv now .frame false
  obtain rfl := hkey (by rw [h.slave]; decide)
  refine ⟨hinv.run, ?_, ?_, slaveCall_sends now hflight hanswer (sendsCmd_none _ _) rfl⟩
  · rw [hanswer]
    refine active_sendCmd ?_ _ _
    exact active_congr h.active rfl rfl rfl
  · rw [hanswer]
    rfl

/-- The slave has restarted with the image, and the master has ended. -/
structure Completed (img : OtaImage) (link : OtaLink) : Prop where
  rebooted : link.slave.rebooted = true
  booted : link.slave.Booted img
  master : link.master.state = .ended

/-- The end of a transfer and the check of the slave. -/
theorem Ends.finish (h : link.Ends image k) (hsize : blockLen < (image k).size)
    (hres : (image k).size % blockLen ≠ 1) (hcrc : (image k).CrcOk) :
    (Machine.run step link [.slave now .frame false, .master now .frame false,
      .slave now .nothing false]).Completed (image k) := by
  obtain ⟨hrun, hactive, hended, f, hflight, hf⟩ := h.answered now
  obtain ⟨hD, hcall⟩ := masterCall_frame now hflight hf.two_le hf.length_le
  have hbegins := begins_masterRx { link.master with ops := [] } hf.length_le hf.begins
  have hstate : ({ link.master with ops := [] } : OtaMaster).state = .endRspWait := h.master
  have hawaits : ({ link.master with ops := [] } : OtaMaster).Awaits (packet f) :=
    (awaits_endRspWait hstate).mpr ⟨hbegins.type_eq, begins_id hbegins⟩
  have hmaster := hcall.trans
    (otaMasterStart_end hD hstate hawaits (packet_zero_le hf.length_le))
  have hslave : (((link.slaveCall now .frame false).masterCall now .frame false).slaveCall now
      .nothing false).slave =
        otaSlaveStart now (link.slaveCall now .frame false).slave.clearOps none :=
    OtaSlave.step_active hactive
  have hboot : (((link.slaveCall now .frame false).masterCall now .frame false).slaveCall now
      .nothing false).slave.rebooted = true := by
    rw [hslave]
    exact rebooted_verify hrun hactive hended hsize hres hcrc
  refine ⟨hboot, ?_, ?_⟩
  · have hturn := slaveTurn now (link.slaveCall now .frame false).slave.clearOps none
    rw [← hslave] at hturn
    exact booted_turn hrun hactive (h.inv.sizes k).1 hturn hboot
  · show ((link.slaveCall now .frame false).masterCall now .frame false).master.state = .ended
    rw [hmaster]

/-- What is left of a transfer goes through. -/
theorem Asks.completes (h : link.Asks image k) (first : List OtaLoss) (rest : List (List OtaLoss))
    (hnum : link.master.blockNum + rest.length = (image k).blocks)
    (hfirst : link.master.retryTimes + first.length ≤ otaRetryMax)
    (hrest : ∀ losses ∈ rest, losses.length ≤ otaRetryMax) (hgood : (image k).Good) :
    (Machine.run step link (restOfTransfer now (first :: rest))).Completed (image k) := by
  have hends := h.exchanges now first rest hnum hfirst hrest
  rw [restOfTransfer, Machine.run_append]
  exact hends.finish now hgood.1 hgood.2.1 hgood.2.2

/-! ## The handshake -/

/-- The master asks a slave that waits, and its image is newer. -/
structure Greets (image : OtaKey → OtaImage) (k : OtaKey) (link : OtaLink) : Prop where
  inv : ∃ ks, link.Inv image k ks
  master : link.master.state = .fwVerWait
  active : link.slave.Active
  slave : link.slave.state = .fwVersionReady
  older : link.slave.fwVersion < link.master.fwVersion
  version_lt : link.slave.fwVersion < 4294967296
  flight : ∃ f, link.flight = some (.toSlave f) ∧ CmdFrame otaCmdIdVersionReq [] f

/-- The master asks the slave to start. -/
structure Starts (image : OtaKey → OtaImage) (k : OtaKey) (link : OtaLink) : Prop where
  inv : ∃ ks, link.Inv image k ks
  master : link.master.state = .startRspWait
  active : link.slave.Active
  slave : link.slave.state = .startReady
  flight : ∃ f, link.flight = some (.toSlave f) ∧ CmdFrame otaCmdIdStartReq [] f

/-- The versions are exchanged. -/
theorem Greets.starts (h : link.Greets image k) :
    ((link.slaveCall now .frame false).masterCall now .frame false).Starts image k := by
  obtain ⟨ks, hinv⟩ := h.inv
  obtain ⟨f, hflight, hf⟩ := h.flight
  obtain ⟨hD, hcall⟩ := slaveCall_frame now h.active hflight hf.two_le hf.length_le
  have hanswer := hcall.trans (otaSlaveStart_version hD h.slave (packet_zero_le hf.length_le)
    (begins_slaveRx link.slave.clearOps hf.length_le hf.begins))
  obtain ⟨g, hback, hg⟩ := slaveCall_sends now hflight hanswer
    (sendsCmd_some _ otaCmdIdVersionRsp (Nat.le_of_ble_eq_true rfl)) rfl
  obtain ⟨ks', hinv', -⟩ := inv_slaveCall hinv now .frame false
  obtain ⟨hD', hcall'⟩ := masterCall_frame now hback hg.two_le hg.length_le
  have hasked := hcall'.trans (otaMasterStart_version hD' h.master (packet_zero_le hg.length_le)
    (begins_masterRx _ hg.length_le hg.begins) h.version_lt h.older)
  obtain ⟨e, hsent, he⟩ := masterCall_sends now (left_frame hback) hasked
    (sends_sendCmd _ otaCmdIdStartReq (Nat.le_of_ble_eq_true rfl)) rfl (Nat.lt_succ_self _)
    (Nat.le_of_ble_eq_true rfl)
  refine ⟨⟨ks', inv_masterCall hinv' now .frame false⟩, ?_, ?_, ?_, e, hsent, he.nil⟩
  · rw [hasked]
    rfl
  · show (link.slaveCall now .frame false).slave.Active
    rw [hanswer]
    refine active_sendCmd ?_ _ _
    exact active_congr h.active rfl rfl rfl
  · show (link.slaveCall now .frame false).slave.state = .startReady
    rw [hanswer]
    rfl

/-- The slave starts, and the master sends its first block. -/
theorem Starts.asks (h : link.Starts image k) (hblocks : 0 < (image k).blocks) :
    ((link.slaveCall now .frame false).masterCall now .frame false).Asks image k ∧
      ((link.slaveCall now .frame false).masterCall now .frame false).master.blockNum = 1 ∧
      ((link.slaveCall now .frame false).masterCall now .frame false).master.retryTimes = 0 := by
  obtain ⟨ks, hinv⟩ := h.inv
  obtain ⟨f, hflight, hf⟩ := h.flight
  obtain ⟨hD, hcall⟩ := slaveCall_frame now h.active hflight hf.two_le hf.length_le
  have hanswer := hcall.trans (otaSlaveStart_start hD h.slave (packet_zero_le hf.length_le)
    (begins_slaveRx link.slave.clearOps hf.length_le hf.begins))
  obtain ⟨g, hback, hg⟩ := slaveCall_sends now hflight hanswer
    (sendsCmd_none _ otaCmdIdStartRsp) rfl
  obtain ⟨ks', hinv', -⟩ := inv_slaveCall hinv now .frame false
  obtain ⟨hD', hcall'⟩ := masterCall_frame now hback hg.two_le hg.length_le
  have hasked := hcall'.trans (otaMasterStart_start hD' h.master (packet_zero_le hg.length_le)
    (begins_masterRx _ hg.length_le hg.begins))
  obtain ⟨hzero, hmore, haddr⟩ := hinv'.serves.fresh (.inr (.inr h.master))
  have haddr' : (link.slaveCall now .frame false).master.flashAddr =
      (link.slaveCall now .frame false).master.binAddr +
        blockLen * (link.slaveCall now .frame false).master.blockNum := by
    rw [hzero]
    exact haddr
  have hactive : (link.slaveCall now .frame false).slave.Active := by
    rw [hanswer]
    refine active_sendCmd ?_ _ _
    exact active_congr h.active rfl rfl rfl
  have hready : (link.slaveCall now .frame false).slave.state = .dataReady := by
    rw [hanswer]
    rfl
  obtain ⟨hasks, hnum⟩ := asks_masterCall now hinv' hback hactive (.inl hready) hasked rfl rfl
    (hzero.symm ▸ hblocks) hmore haddr'
  rw [hzero] at hnum
  refine ⟨hasks, hnum, ?_⟩
  rw [hasked]
  rfl

/-- The version of the slave is a number of 32 bits. -/
theorem fwVersion_lt (s : OtaSlave) (addr : ℕ) : (otaSlaveInit s addr).fwVersion < 4294967296 := by
  unfold otaSlaveInit otaVersion
  exact BitVec.isLt _

/-- The slave waits, and the master asks for its version. -/
theorem greets_idle {ks : OtaKey} (h : link.Inv image k ks) (hmaster : link.master.state = .idle)
    (htick : link.master.stateTick = 0) (hactive : link.slave.Active)
    (hslave : link.slave.state = .idle) (hflight : link.flight = none)
    (hold : link.slave.fwVersion < link.master.fwVersion)
    (hlt : link.slave.fwVersion < 4294967296) :
    ((link.slaveCall now .nothing false).masterCall now .nothing false).Greets image k := by
  have hwaits : (link.slaveCall now .nothing false).slave =
      { link.slave.clearOps with state := .fwVersionReady } := by
    have hidle : otaSlaveStart now link.slave.clearOps none =
        { link.slave.clearOps with state := .fwVersionReady } := by
      rw [otaSlaveStart.eq_def, show link.slave.clearOps.state = .idle from hslave]
    exact (OtaSlave.step_active hactive).trans hidle
  have hquiet : (link.slaveCall now .nothing false).flight = none := by
    rw [slaveCall_eq hwaits, hflight]
    show transmit false none ((sentFrame link.slave.air link.slave.air).map .toMaster) = none
    rw [sentFrame_self]
    rfl
  obtain ⟨ks', hinv, -⟩ := inv_slaveCall h now .nothing false
  have hasks : ((link.slaveCall now .nothing false).masterCall now .nothing false).master = _ :=
    otaMasterStart_ask hmaster htick
  have hleft : OtaHeard.nothing.left
      (OtaFlight.forMaster (link.slaveCall now .nothing false).flight)
      (link.slaveCall now .nothing false).flight = none := hquiet
  obtain ⟨f, hsent, hf⟩ := masterCall_sends now hleft hasks (sends_sendCmd_none _ _) rfl
    (Nat.lt_succ_self 1) (Nat.le_of_ble_eq_true rfl)
  refine ⟨⟨ks', inv_masterCall hinv now .nothing false⟩, ?_, ?_, ?_, ?_, ?_, f, hsent, hf⟩
  · rw [hasks]
    rfl
  · show (link.slaveCall now .nothing false).slave.Active
    rw [hwaits]
    exact hactive
  · show (link.slaveCall now .nothing false).slave.state = .fwVersionReady
    rw [hwaits]
  · show (link.slaveCall now .nothing false).slave.fwVersion < _
    rw [hwaits, hasks]
    exact hold
  · show (link.slaveCall now .nothing false).slave.fwVersion < 4294967296
    rw [hwaits]
    exact hlt

/-- The slave is triggered, and the master asks for its version. -/
theorem greets_start {masterFlash : Cells} (himage : ∀ k, (image k).At masterFlash k.binAddr)
    (slaveFlash : Cells) (key : OtaKey)
    (hold : (otaSlaveInit (.powerOn slaveFlash) (otaSlaveBinAddr slaveFlash)).fwVersion <
      (otaMasterInit (.powerOn masterFlash) key.binAddr).fwVersion) :
    (Machine.run step (start masterFlash slaveFlash key)
      [.trigger, .slave now .nothing false, .master now .nothing false]).Greets image key := by
  have hslave : ((start masterFlash slaveFlash key).step .trigger).slave =
      otaSlaveInit (.powerOn slaveFlash) (otaSlaveBinAddr slaveFlash) := by
    show otaSlaveStep otaSlaveStart (.powerOn slaveFlash) .trigger = _
    have hup : ¬ ((OtaSlave.powerOn slaveFlash).rebooted = true ∨
        (OtaSlave.powerOn slaveFlash).crashed = true) := by
      rintro (hs | hs) <;> cases hs
    unfold otaSlaveStep
    rw [if_neg hup]
    exact if_neg Bool.false_ne_true
  have hactive : (otaSlaveInit (.powerOn slaveFlash) (otaSlaveBinAddr slaveFlash)).Active :=
    ⟨rfl, by rintro (hs | hs) <;> cases hs⟩
  rw [← hslave] at hactive hold
  refine greets_idle now (inv_trigger (inv_start himage slaveFlash key)) rfl rfl hactive ?_ rfl
    hold ?_
  · rw [hslave]
    rfl
  · rw [hslave]
    exact fwVersion_lt _ _

/-- A block of the master is on its way to a slave that is in a transfer. -/
structure InTransfer (link : OtaLink) : Prop where
  master : link.master.state = .dataAckWait
  active : link.slave.Active
  slave : link.slave.state = .dataReady ∨ link.slave.state = .endReady
  flight : link.flight = some (.toSlave (link.master.txFrame.bytes link.master.len))

theorem InTransfer.asks {km ks : OtaKey} (h : link.InTransfer) (hinv : link.Inv image km ks) :
    link.Asks image km := by
  obtain rfl := key_eq hinv h.master h.active h.slave
  refine ⟨⟨hinv, h.master, h.active, h.slave⟩, ?_⟩
  rw [h.flight, (hinv.serves.data h.master).frame]

end OtaLink

/-- Whatever happened before: once a block is on its way to a slave that is in the transfer, the
slave restarts with a whole image and the master ends, if no block is lost more often than the
master sends it again. -/
theorem transfer_completes (image : OtaKey → OtaImage) {masterFlash : Cells}
    (himage : ∀ k, (image k).At masterFlash k.binAddr) (hgood : ∀ k, (image k).Good)
    (slaveFlash : Cells) (key : OtaKey) (events : List OtaLinkEvent) (now : ℕ)
    (first : List OtaLoss) (rest : List (List OtaLoss)) {link : OtaLink}
    (hlink : Machine.run OtaLink.step (.start masterFlash slaveFlash key) events = link)
    (htransfer : link.InTransfer)
    (hnum : link.master.blockNum + rest.length = link.master.maxBlockNum)
    (hfirst : link.master.retryTimes + first.length ≤ otaRetryMax)
    (hrest : ∀ losses ∈ rest, losses.length ≤ otaRetryMax) :
    ∃ k, (Machine.run OtaLink.step link (restOfTransfer now (first :: rest))).Completed
      (image k) := by
  obtain ⟨km, ks, hinv⟩ := OtaLink.inv_run himage slaveFlash key events
  rw [hlink] at hinv
  have hasks := htransfer.asks hinv
  rw [hinv.serves.max_eq] at hnum
  exact ⟨km, hasks.completes now first rest hnum hfirst hrest (hgood km)⟩

/-- A transfer whose first block is lost once. -/
def lostBlock : List OtaLinkEvent := handshake 0 ++ [.lose, .master 0 .timeout false]

theorem transfer_completes_lostBlock :
    ∃ k : OtaKey, (Machine.run OtaLink.step
      (Machine.run OtaLink.step (.start sizedFlash (fun _ => 0xFF) .key1) lostBlock)
      (restOfTransfer 0 [[.answer], [.request]])).Completed ((fun _ => sizedImage) k) :=
  transfer_completes (fun _ => sizedImage) sizedFlash_at (fun _ => by decide +kernel)
    (fun _ => 0xFF) .key1 lostBlock 0 [.answer] [[.request]] rfl
    ⟨by decide +kernel, by decide +kernel, by decide +kernel, by decide +kernel⟩
    (by decide +kernel) (by decide +kernel) (by decide)

/-- From power-on: a slave with an older version restarts with the image of the key, if no block is
lost more often than the master sends it again. -/
theorem firmware_update_completes (image : OtaKey → OtaImage) {masterFlash : Cells}
    (himage : ∀ k, (image k).At masterFlash k.binAddr) (slaveFlash : Cells) (key : OtaKey)
    (hgood : (image key).Good) (now : ℕ) (losses : List (List OtaLoss))
    (hold : (otaSlaveInit (.powerOn slaveFlash) (otaSlaveBinAddr slaveFlash)).fwVersion <
      (otaMasterInit (.powerOn masterFlash) key.binAddr).fwVersion)
    (hnum : losses.length = (image key).blocks)
    (hretry : ∀ l ∈ losses, l.length ≤ otaRetryMax) :
    (Machine.run OtaLink.step (.start masterFlash slaveFlash key)
      (handshake now ++ restOfTransfer now losses)).Completed (image key) := by
  have hblocks : 0 < (image key).blocks := OtaImage.block_lt_iff.mpr (by
    rw [Nat.mul_zero]
    exact Nat.zero_lt_of_lt hgood.1)
  obtain ⟨hasks, hone, hzero⟩ :=
    ((OtaLink.greets_start now himage slaveFlash key hold).starts now).asks now hblocks
  rw [Machine.run_append]
  cases losses with
  | nil => exact absurd hnum (Nat.ne_of_lt hblocks)
  | cons first rest =>
    rw [List.length_cons, Nat.add_comm] at hnum
    refine hasks.completes now first rest ?_ ?_ ?_ hgood
    · rw [hone]
      exact hnum
    · rw [hzero, Nat.zero_add]
      exact hretry first List.mem_cons_self
    · exact fun l hl => hretry l (List.mem_cons_of_mem _ hl)

theorem firmware_update_completes_lossy :
    (Machine.run OtaLink.step (.start sizedFlash (fun _ => 0xFF) .key2)
      (handshake 0 ++ restOfTransfer 0 [[.request, .answer], [.answer]])).Completed sizedImage :=
  firmware_update_completes (fun _ => sizedImage) sizedFlash_at (fun _ => 0xFF) .key2
    (by decide +kernel) 0 [[.request, .answer], [.answer]] (by decide +kernel) (by decide +kernel)
    (by decide)

end TlBleSdk.Ota
