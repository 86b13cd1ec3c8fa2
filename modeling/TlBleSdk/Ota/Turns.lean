import TlBleSdk.Ota.Master
import TlBleSdk.Ota.SlaveCheck

/-!
# What master and slave send

`SlaveTurn` and `MasterTurn` list what a call of `OTA_SlaveStart` and of `OTA_MasterStart` makes of
a party and puts on the air, with the frame that it answers. A party keeps one frame and one length:
an answer that is sent again goes out with the length of the frame received, and so does a request
behind a frame that the master does not wait for.
-/

namespace TlBleSdk.Ota

open Hci NorFlash

/-! ## Frames -/

/-- The frame has this type, and its payload begins with the bytes. -/
structure OtaFrame.Begins (frame : OtaFrame) (type : UInt8) (l : List UInt8) : Prop where
  type_eq : frame.type = type
  payload : HasBytes frame.payload 0 l

/-- What `MAC_RxIrqHandler` hands over of a frame: its length byte and its bytes. -/
def packet (f : List UInt8) : ℕ → UInt8 := mem (UInt8.ofNat f.length :: f)

section Frames

variable {frame : OtaFrame} {type : UInt8} {l f : List UInt8}

@[simp] theorem length_frame_bytes (frame : OtaFrame) (n : ℕ) : (frame.bytes n).length = n := by
  rw [OtaFrame.bytes, List.length_take, List.length_cons, length_bytes]
  omega

theorem hasBytes_zero {p : ℕ → UInt8} : HasBytes p 0 l ↔ bytes p l.length = l := by
  unfold HasBytes bytesAt
  simp only [Nat.zero_add]

/-- A frame that is long enough is sent with its first bytes. -/
theorem begins_bytes (h : frame.Begins type l) {n : ℕ} (hn : l.length < n) :
    type :: l <+: frame.bytes n := by
  obtain ⟨k, rfl⟩ := Nat.exists_eq_add_of_lt hn
  have hpayload : bytes frame.payload (l.length + k) = l ++ bytesAt frame.payload l.length k := by
    rw [bytes_add, hasBytes_zero.mp h.payload]
  have hbytes : frame.bytes (l.length + k + 1) =
      type :: (l ++ bytesAt frame.payload l.length k) := by
    rw [OtaFrame.bytes, Nat.add_sub_cancel, hpayload, h.type_eq]
    exact List.take_of_length_le (by simp)
  rw [hbytes]
  exact ⟨bytesAt frame.payload l.length k, rfl⟩

/-- A frame that is just long enough is its first bytes. -/
theorem bytes_of_begins (h : frame.Begins type l) :
    frame.bytes (l.length + 1) = type :: l := by
  have hhead := begins_bytes h (Nat.lt_succ_self l.length)
  exact (hhead.eq_of_length (by simp)).symm

theorem packet_zero (hf : f.length < 256) : (packet f 0).toNat = f.length := by
  show (UInt8.ofNat f.length).toNat = f.length
  rw [UInt8.toNat_ofNat']
  omega

theorem packet_succ (f : List UInt8) (i : ℕ) : packet f (i + 1) = mem f i := by
  simp [packet, mem]

/-- A frame that is received begins as it was sent. -/
theorem begins_received (payload : ℕ → UInt8) (hf : f.length < 256) (h : type :: l <+: f) :
    OtaFrame.Begins ⟨packet f 1, memcpy payload 0
      (bytes (fun i => packet f (i + 2)) ((packet f 0).toNat - 1))⟩ type l := by
  rw [packet_zero hf]
  obtain ⟨rest, rfl⟩ := h
  have hdata : bytes (fun i => packet (type :: l ++ rest) (i + 2))
      ((type :: l ++ rest).length - 1) = l ++ rest := by
    have hbytes := bytes_mem (l ++ rest)
    have hlen : (type :: l ++ rest).length - 1 = (l ++ rest).length := by simp
    rw [hlen]
    refine (bytes_congr fun i _ => ?_).trans hbytes
    rw [packet_succ]
    simp [mem]
  rw [hdata]
  have hall : HasBytes (memcpy payload 0 (l ++ rest)) 0 (l ++ rest) :=
    hasBytes_zero.mpr (bytes_memcpy_self payload (l ++ rest))
  exact ⟨rfl, (hasBytes_append.mp hall).1⟩

/-- A command frame. -/
theorem begins_buildCmdFrame (frame : OtaFrame) (cmdId : UInt8) {value : List UInt8}
    (hlen : value.length ≤ otaFramePayloadMax - 1) :
    (otaBuildCmdFrame frame cmdId (some value)).1.Begins otaFrameTypeCmd (cmdId :: value) ∧
      (otaBuildCmdFrame frame cmdId (some value)).2 = value.length + 2 := by
  have hbuild : otaBuildCmdFrame frame cmdId (some value) =
      (⟨otaFrameTypeCmd, memcpy (memcpy frame.payload 0 [cmdId]) (0 + [cmdId].length) value⟩,
        value.length + 2) := if_neg (Nat.not_lt_of_le hlen)
  rw [hbuild, memcpy_memcpy]
  exact ⟨⟨rfl, hasBytes_zero.mpr (bytes_memcpy_self frame.payload (cmdId :: value))⟩, rfl⟩

/-- A command frame without a value. -/
theorem begins_buildCmdFrame_none (frame : OtaFrame) (cmdId : UInt8) :
    (otaBuildCmdFrame frame cmdId none).1.Begins otaFrameTypeCmd [cmdId] ∧
      (otaBuildCmdFrame frame cmdId none).2 = 2 :=
  ⟨⟨rfl, hasBytes_zero.mpr (bytes_memcpy_self frame.payload [cmdId])⟩, rfl⟩

theorem begins_buildAckFrame (frame : OtaFrame) (blockNum : ℕ) :
    (otaBuildAckFrame frame blockNum).Begins otaFrameTypeAck (uint16ToBstream blockNum) :=
  ⟨rfl, hasBytes_zero.mpr (bytes_memcpy_self frame.payload (uint16ToBstream blockNum))⟩

end Frames

/-! ## The slave -/

section Slave

variable {s t : OtaSlave} {msg : Option OtaMsg} {m : OtaMsg}

theorem air_macSendData (s : OtaSlave) {n : ℕ} (hn : n ≤ otaFrameSize) :
    (s.macSendData n).air = s.air ++ [s.txFrame.bytes n] :=
  if_neg (Nat.not_lt_of_le (Nat.le_trans hn (by decide)))

/-- The slave sends a command frame that begins with the bytes. -/
structure OtaSlave.SendsCmd (s t : OtaSlave) (l : List UInt8) : Prop where
  tx : t.txFrame.Begins otaFrameTypeCmd l
  air : ∃ n, l.length < n ∧ n ≤ otaFrameSize ∧ t.air = s.air ++ [t.txFrame.bytes n]

theorem sendsCmd_some (s : OtaSlave) (cmdId : UInt8) {value : List UInt8}
    (hlen : value.length ≤ otaFramePayloadMax - 1) :
    s.SendsCmd (s.sendCmd cmdId (some value)) (cmdId :: value) := by
  obtain ⟨htx, hlength⟩ := begins_buildCmdFrame s.txFrame cmdId hlen
  have hsize : value.length + 2 ≤ otaFrameSize := by
    unfold otaFramePayloadMax at hlen
    unfold otaFrameSize otaFramePayloadMax
    omega
  refine ⟨htx, value.length + 2, by simp, hsize, ?_⟩
  unfold OtaSlave.sendCmd
  dsimp only
  rw [hlength]
  exact air_macSendData _ hsize

theorem sendsCmd_none (s : OtaSlave) (cmdId : UInt8) :
    s.SendsCmd (s.sendCmd cmdId none) [cmdId] :=
  ⟨(begins_buildCmdFrame_none s.txFrame cmdId).1, 2, Nat.lt_succ_self 1, by decide, rfl⟩

/-- The last answer fits what the slave is asked again. -/
inductive OtaSlave.AskedAgain (s : OtaSlave) (Data : ℕ → UInt8) : Prop
  | version (hstate : s.state = .startReady)
    (hreq : (s.rx Data).rxFrame.type = otaFrameTypeCmd ∧
      (s.rx Data).rxFrame.payload 0 = otaCmdIdVersionReq)
  | start (hstate : s.state = .dataReady) (hreq : s.Starts Data)
  | block (hstate : s.state = .dataReady ∨ s.state = .endReady)
    (htype : (s.rx Data).rxFrame.type = otaFrameTypeData)
    (hblock : (s.rx Data).rxBlockNum = s.blockNum)

/-- What a call of `OTA_SlaveStart` sends. -/
inductive SlaveTurn (s : OtaSlave) (msg : Option OtaMsg) (t : OtaSlave) : Prop
  | quiet (state : OtaSlaveState)
    (hmove : state = s.state ∨ state = .error ∨ (s.state = .idle ∧ state = .fwVersionReady))
    (hcore : t.core = { s.core with state := state }) (htx : t.txFrame = s.txFrame)
    (hair : t.air = s.air)
  | version (Data : ℕ → UInt8) (h : Data 0 ≠ 0) (hmsg : msg = some (.data Data h))
    (hstate : s.state = .fwVersionReady)
    (hreq : (s.rx Data).rxFrame.type = otaFrameTypeCmd ∧
      (s.rx Data).rxFrame.payload 0 = otaCmdIdVersionReq)
    (hcore : t.core = { s.core with state := .startReady })
    (hsends : ∃ l, s.SendsCmd t (otaCmdIdVersionRsp :: l))
  | again (Data : ℕ → UInt8) (h : Data 0 ≠ 0) (hmsg : msg = some (.data Data h))
    (hasked : s.AskedAgain Data) (hcore : t.core = s.core) (htx : t.txFrame = s.txFrame)
    (hlen : (Data 0).toNat ≤ otaFrameSize) (hair : t.air = s.air ++ [t.txFrame.bytes (Data 0).toNat])
  | started (Data : ℕ → UInt8) (h : Data 0 ≠ 0) (hmsg : msg = some (.data Data h))
    (hstate : s.state = .startReady) (hreq : s.Starts Data)
    (hcore : t.core = { s.core with
      maxBlockNum := bytesToUint16 (s.rx Data).rxFrame.payload 1
      state := .dataReady })
    (hsends : s.SendsCmd t [otaCmdIdStartRsp])
  | store (Data : ℕ → UInt8) (h : Data 0 ≠ 0) (hmsg : msg = some (.data Data h))
    (hstores : s.Stores Data) (heq : t = (s.rx Data).storeBlock (s.blockNum + 1))
  | ended (Data : ℕ → UInt8) (h : Data 0 ≠ 0) (hmsg : msg = some (.data Data h))
    (hstate : s.state = .endReady)
    (hreq : (s.rx Data).rxFrame.type = otaFrameTypeCmd ∧
      (s.rx Data).rxFrame.payload 0 = otaCmdIdEndReq)
    (hcore : t.core = { s.core with state := .ended })
    (hsends : s.SendsCmd t [otaCmdIdEndRsp])
  | verify (hstate : s.state = .ended) (heq : t = s.verify fun fwCRC => fwCRC = s.pktCRC)
  | erase (hstate : s.state = .error)
    (heq : t = { s with flash := otaFlashErase s.flash s.flashAddr, running := false })

/-- The end of a ready state sends nothing. -/
theorem turn_retry (s : OtaSlave) (m : OtaMsg) :
    ((otaSlaveRetry s m).core = s.core ∨
        (otaSlaveRetry s m).core = { s.core with state := .error }) ∧
      (otaSlaveRetry s m).txFrame = s.txFrame ∧ (otaSlaveRetry s m).air = s.air := by
  refine ⟨core_otaSlaveRetry s m, ?_⟩
  unfold otaSlaveRetry
  split
  · exact ⟨rfl, rfl⟩
  · cases m <;> exact ⟨rfl, rfl⟩

/-- A ready state answers a frame that fits, or is quiet. -/
theorem turn_ready (answer : OtaSlave → Option OtaSlave)
    (hanswer : ∀ Data h t, m = .data Data h → (Data 0).toNat ≤ otaFrameSize →
      answer (s.rx Data) = some t → SlaveTurn s (some m) t) :
    SlaveTurn s (some m) (otaSlaveReady answer s m) := by
  have hretry : ∀ s', s'.core = s.core → s'.txFrame = s.txFrame → s'.air = s.air →
      SlaveTurn s (some m) (otaSlaveRetry s' m) := by
    intro s' hcore htx hair
    obtain ⟨hretry, htx', hair'⟩ := turn_retry s' m
    rcases hretry with hkeep | herror
    · exact .quiet s.state (.inl rfl) (hkeep.trans hcore) (htx'.trans htx) (hair'.trans hair)
    · rw [hcore] at herror
      exact .quiet .error (.inr (.inl rfl)) herror (htx'.trans htx) (hair'.trans hair)
  cases m with
  | data Data h =>
    by_cases hlen : (Data 0).toNat ≤ otaFramePayloadMax + 1
    · rw [otaSlaveReady_data answer s h hlen]
      cases hans : answer (s.rx Data) with
      | some t =>
        refine hanswer Data h t rfl ?_ hans
        unfold otaFrameSize
        omega
      | none => exact hretry (s.rx Data) rfl rfl rfl
    · rw [otaSlaveReady_long answer s h (Nat.lt_of_not_le hlen)]
      exact .quiet .error (.inr (.inl rfl)) rfl rfl rfl
  | invalidData | timeout | txDone => exact hretry s rfl rfl rfl

theorem turn_fwVersionReady (hstate : s.state = .fwVersionReady) :
    SlaveTurn s (some m) (otaSlaveReady otaSlaveFwVersionReady s m) := by
  refine turn_ready _ fun Data h t hmsg hlen hans => ?_
  rw [otaSlaveFwVersionReady] at hans
  split at hans
  next hreq =>
    injection hans with hans
    rw [← hans]
    have hlength : (uint32ToBstream (s.rx Data).fwVersion).length ≤ otaFramePayloadMax - 1 :=
      Nat.le_of_ble_eq_true rfl
    have hsends := sendsCmd_some { s.rx Data with retryTimes := 0, state := .startReady }
      otaCmdIdVersionRsp hlength
    exact .version Data h (congrArg some hmsg) hstate hreq rfl ⟨_, hsends.tx, hsends.air⟩
  · cases hans

theorem turn_startReady (hstate : s.state = .startReady) :
    SlaveTurn s (some m) (otaSlaveReady otaSlaveStartReady s m) := by
  refine turn_ready _ fun Data h t hmsg hlen hans => ?_
  rw [otaSlaveStartReady] at hans
  split_ifs at hans with hcmd hversion hstart
  · injection hans with hans
    rw [← hans]
    exact .again Data h (congrArg some hmsg) (.version hstate ⟨hcmd, hversion⟩) rfl rfl hlen
      (air_macSendData _ hlen)
  · injection hans with hans
    rw [← hans]
    have hsends := sendsCmd_none { s.rx Data with
      retryTimes := 0
      maxBlockNum := bytesToUint16 (s.rx Data).rxFrame.payload 1
      state := .dataReady } otaCmdIdStartRsp
    exact .started Data h (congrArg some hmsg) hstate ⟨hcmd, hstart⟩ rfl ⟨hsends.tx, hsends.air⟩

theorem turn_dataReady (hstate : s.state = .dataReady) :
    SlaveTurn s (some m) (otaSlaveReady otaSlaveDataReady s m) := by
  refine turn_ready _ fun Data h t hmsg hlen hans => ?_
  rw [otaSlaveDataReady] at hans
  split_ifs at hans with hreq hdata hsame hnext
  · injection hans with hans
    rw [← hans]
    exact .again Data h (congrArg some hmsg) (.start hstate hreq) rfl rfl hlen
      (air_macSendData _ hlen)
  · injection hans with hans
    rw [← hans]
    exact .again Data h (congrArg some hmsg) (.block (.inl hstate) hdata hsame) rfl rfl hlen
      (air_macSendData _ hlen)
  · injection hans with hans
    rw [← hans, hnext]
    exact .store Data h (congrArg some hmsg) ⟨hstate, hlen, hdata, hnext⟩ rfl

theorem turn_endReady (hstate : s.state = .endReady) :
    SlaveTurn s (some m) (otaSlaveReady otaSlaveEndReady s m) := by
  refine turn_ready _ fun Data h t hmsg hlen hans => ?_
  rw [otaSlaveEndReady] at hans
  split_ifs at hans with hsame hend
  · injection hans with hans
    rw [← hans]
    exact .again Data h (congrArg some hmsg) (.block (.inr hstate) hsame.1 hsame.2) rfl rfl hlen
      (air_macSendData _ hlen)
  · dsimp only at hans
    split at hans
    · injection hans with hans
      rw [← hans]
      exact .quiet .error (.inr (.inl rfl)) rfl rfl rfl
    · injection hans with hans
      rw [← hans]
      have hsends := sendsCmd_none { s.rx Data with retryTimes := 0, state := .ended }
        otaCmdIdEndRsp
      exact .ended Data h (congrArg some hmsg) hstate hend rfl ⟨hsends.tx, hsends.air⟩

theorem slaveTurn (now : ℕ) (s : OtaSlave) (msg : Option OtaMsg) :
    SlaveTurn s msg (otaSlaveStart now s msg) := by
  cases hstate : s.state with
  | idle =>
    rw [otaSlaveStart.eq_def, hstate]
    exact .quiet .fwVersionReady (.inr (.inr ⟨hstate, rfl⟩)) rfl rfl rfl
  | ended =>
    rw [otaSlaveStart.eq_def, hstate]
    exact .verify hstate rfl
  | error => exact .erase hstate (by rw [otaSlaveStart.eq_def, hstate])
  | dataLossCheck =>
    rw [otaSlaveStart.eq_def, hstate]
    exact .quiet s.state (.inl rfl) rfl rfl rfl
  | fwVersionReady | startReady | dataReady | endReady =>
    cases msg with
    | none =>
      rw [otaSlaveStart.eq_def, hstate]
      exact .quiet s.state (.inl rfl) rfl rfl rfl
    | some m =>
      rw [otaSlaveStart.eq_def, hstate]
      first
        | exact turn_fwVersionReady hstate
        | exact turn_startReady hstate
        | exact turn_dataReady hstate
        | exact turn_endReady hstate

end Slave

/-! ## The master -/

/-- The part of a master that its image and its blocks depend on. -/
structure MasterCore where
  flashAddr : ℕ
  totalBinSize : ℕ
  maxBlockNum : ℕ
  blockNum : ℕ
  state : OtaMasterState
  finishFlag : Bool
  flash : Cells
  binAddr : ℕ

/-- The states in which a request is on the air or lost. -/
def OtaMasterState.Waits (state : OtaMasterState) : Prop :=
  state = .fwVerWait ∨ state = .startRspWait ∨ state = .dataAckWait ∨ state = .endRspWait

namespace OtaMaster

@[simps] def core (m : OtaMaster) : MasterCore where
  flashAddr := m.flashAddr
  totalBinSize := m.totalBinSize
  maxBlockNum := m.maxBlockNum
  blockNum := m.blockNum
  state := m.state
  finishFlag := m.finishFlag
  flash := m.flash
  binAddr := m.binAddr

/-- A frame is received. -/
def rx (m : OtaMaster) (Data : ℕ → UInt8) : OtaMaster := (m.rxHeader Data).rxPayload Data

/-- The frame is the one that a waiting state waits for. -/
def Awaits (m : OtaMaster) (Data : ℕ → UInt8) : Prop :=
  match m.state with
  | .fwVerWait => (m.rx Data).rxFrame.type = otaFrameTypeCmd ∧
      (m.rx Data).rxFrame.payload 0 = otaCmdIdVersionRsp
  | .startRspWait => (m.rx Data).rxFrame.type = otaFrameTypeCmd ∧
      (m.rx Data).rxFrame.payload 0 = otaCmdIdStartRsp
  | .dataAckWait => (m.rx Data).rxFrame.type = otaFrameTypeAck ∧ otaIsBlockNumMatch (m.rx Data)
  | .endRspWait => (m.rx Data).rxFrame.type = otaFrameTypeCmd ∧
      (m.rx Data).rxFrame.payload 0 = otaCmdIdEndRsp
  | _ => False

/-- The master sends `n` bytes of a frame that begins with the bytes. -/
structure Sends (m t : OtaMaster) (type : UInt8) (l : List UInt8) (n : ℕ) : Prop where
  tx : t.txFrame.Begins type l
  len : t.len = n
  air : t.air = m.air ++ [t.txFrame.bytes n]

end OtaMaster

/-- What a call of `OTA_MasterStart` sends. -/
inductive MasterTurn (m : OtaMaster) (msg : Option OtaMsg) (t : OtaMaster) : Prop
  | quiet (hcore : t.core = m.core) (htx : t.txFrame = m.txFrame) (hlen : t.len = m.len)
    (hair : t.air = m.air)
  | failed (hcore : t.core = { m.core with state := .error }) (hair : t.air = m.air)
  | resend (hstate : m.state.Waits) (hcore : t.core = m.core) (htx : t.txFrame = m.txFrame)
    (hlen : t.len = m.len ∨ ∃ Data h, msg = some (.data Data h) ∧ ¬ m.Awaits Data ∧
      t.len = (Data 0).toNat ∧ t.len ≤ otaFrameSize)
    (hair : t.air = if macTxBufLen < t.len then m.air else m.air ++ [t.txFrame.bytes t.len])
  | ask (hstate : m.state = .idle) (hcore : t.core = { m.core with state := .fwVerWait })
    (hsends : m.Sends t otaFrameTypeCmd [otaCmdIdVersionReq] 2)
  | start (Data : ℕ → UInt8) (h : Data 0 ≠ 0) (hmsg : msg = some (.data Data h))
    (hstate : m.state = .fwVerWait) (hawaits : m.Awaits Data)
    (hcore : t.core = { m.core with state := .startRspWait })
    (hsends : m.Sends t otaFrameTypeCmd (otaCmdIdStartReq :: uint16ToBstream m.maxBlockNum) 4)
  | block (Data : ℕ → UInt8) (h : Data 0 ≠ 0) (hmsg : msg = some (.data Data h))
    (hstate : m.state = .startRspWait ∨ (m.state = .dataAckWait ∧ m.finishFlag = false))
    (hawaits : m.Awaits Data) (m' : OtaMaster)
    (hcore : m'.core = { m.core with state := .dataAckWait }) (hair : m'.air = m.air)
    (heq : t = m'.sendBlock)
  | finish (Data : ℕ → UInt8) (h : Data 0 ≠ 0) (hmsg : msg = some (.data Data h))
    (hstate : m.state = .dataAckWait) (hawaits : m.Awaits Data)
    (hfinish : m.finishFlag = true) (hcore : t.core = { m.core with state := .endRspWait })
    (hsends : m.Sends t otaFrameTypeCmd (otaCmdIdEndReq :: uint32ToBstream m.totalBinSize) 6)
  | ended (hstate : m.state = .endRspWait) (hcore : t.core = { m.core with state := .ended })
    (hair : t.air = m.air)

section Master

variable {m t : OtaMaster} {msg : OtaMsg}

theorem sends_sendCmd (m : OtaMaster) (cmdId : UInt8) {value : List UInt8}
    (hlen : value.length ≤ otaFramePayloadMax - 1) :
    m.Sends (m.sendCmd cmdId (some value)) otaFrameTypeCmd (cmdId :: value) (value.length + 2) := by
  obtain ⟨htx, hlength⟩ := begins_buildCmdFrame m.txFrame cmdId hlen
  refine ⟨htx, hlength, ?_⟩
  unfold OtaMaster.sendCmd
  dsimp only
  rw [hlength]
  refine if_neg (Nat.not_lt_of_le ?_)
  unfold otaFramePayloadMax at hlen
  unfold macTxBufLen
  omega

/-! The frame of each waiting state. -/

theorem awaits_fwVerWait {Data : ℕ → UInt8} (hstate : m.state = .fwVerWait) :
    m.Awaits Data ↔ (m.rx Data).rxFrame.type = otaFrameTypeCmd ∧
      (m.rx Data).rxFrame.payload 0 = otaCmdIdVersionRsp := by
  unfold OtaMaster.Awaits
  rw [hstate]

theorem awaits_startRspWait {Data : ℕ → UInt8} (hstate : m.state = .startRspWait) :
    m.Awaits Data ↔ (m.rx Data).rxFrame.type = otaFrameTypeCmd ∧
      (m.rx Data).rxFrame.payload 0 = otaCmdIdStartRsp := by
  unfold OtaMaster.Awaits
  rw [hstate]

theorem awaits_dataAckWait {Data : ℕ → UInt8} (hstate : m.state = .dataAckWait) :
    m.Awaits Data ↔ (m.rx Data).rxFrame.type = otaFrameTypeAck ∧
      otaIsBlockNumMatch (m.rx Data) := by
  unfold OtaMaster.Awaits
  rw [hstate]

theorem awaits_endRspWait {Data : ℕ → UInt8} (hstate : m.state = .endRspWait) :
    m.Awaits Data ↔ (m.rx Data).rxFrame.type = otaFrameTypeCmd ∧
      (m.rx Data).rxFrame.payload 0 = otaCmdIdEndRsp := by
  unfold OtaMaster.Awaits
  rw [hstate]

/-- The end of a waiting state sends the last request again, or nothing. -/
theorem turn_masterRetry (m m' : OtaMaster) (msg : OtaMsg) (hstate : m.state.Waits)
    (hcore : m'.core = m.core)
    (htx : m'.txFrame = m.txFrame) (hair : m'.air = m.air)
    (hlen : m'.len = m.len ∨ ∃ Data h, msg = .data Data h ∧ ¬ m.Awaits Data ∧
      m'.len = (Data 0).toNat ∧ m'.len ≤ otaFrameSize) :
    MasterTurn m (some msg) (otaMasterRetry m' msg) := by
  have hmsg : m'.len = m.len ∨ ∃ Data h, some msg = some (.data Data h) ∧ ¬ m.Awaits Data ∧
      m'.len = (Data 0).toNat ∧ m'.len ≤ otaFrameSize := by
    rcases hlen with hkeep | ⟨Data, h, rfl, hrest⟩
    · exact .inl hkeep
    · exact .inr ⟨Data, h, rfl, hrest⟩
  unfold otaMasterRetry
  split
  · refine .failed ?_ hair
    show { m'.core with state := .error } = _
    rw [hcore]
  · have hsend : MasterTurn m (some msg)
        ({ m' with retryTimes := u8 (m'.retryTimes + 1) }.macSendData m'.len) := by
      refine .resend hstate hcore htx hmsg ?_
      show (if macTxBufLen < m'.len then m'.air else m'.air ++ [m'.txFrame.bytes m'.len]) = _
      rw [hair]
      rfl
    cases msg with
    | txDone =>
      rcases hlen with hkeep | ⟨Data, h, hdata, hrest⟩
      · exact .quiet hcore htx hkeep hair
      · cases hdata
    | data Data h => exact hsend
    | invalidData => exact hsend
    | timeout => exact hsend

/-- A waiting state, from what it does on the frame it waits for. -/
theorem turn_wait (answer : OtaMaster → Option OtaMaster) (hstate : m.state.Waits)
    (hanswer : ∀ Data h t, msg = .data Data h → answer (m.rx Data) = some t →
      MasterTurn m (some msg) t)
    (hnone : ∀ Data, answer (m.rx Data) = none → ¬ m.Awaits Data) :
    MasterTurn m (some msg) (otaMasterWait answer m msg) := by
  cases msg with
  | data Data h =>
    unfold otaMasterWait
    dsimp only
    split
    · exact .failed rfl rfl
    next hlen =>
      show MasterTurn m _ ((answer (m.rx Data)).getD (otaMasterRetry (m.rx Data) (.data Data h)))
      cases hans : answer (m.rx Data) with
      | some t => exact hanswer Data h t rfl hans
      | none =>
        refine turn_masterRetry m (m.rx Data) _ hstate rfl rfl rfl
          (.inr ⟨Data, h, rfl, hnone Data hans, rfl, ?_⟩)
        unfold otaFrameSize
        have hle : (m.rx Data).len ≤ otaFramePayloadMax + 1 := Nat.le_of_not_lt hlen
        omega
  | invalidData => exact turn_masterRetry m m .invalidData hstate rfl rfl rfl (.inl rfl)
  | timeout => exact turn_masterRetry m m .timeout hstate rfl rfl rfl (.inl rfl)
  | txDone => exact turn_masterRetry m m .txDone hstate rfl rfl rfl (.inl rfl)

theorem turn_fwVerWait (hstate : m.state = .fwVerWait) :
    MasterTurn m (some msg) (otaMasterWait otaMasterFwVerWait m msg) := by
  refine turn_wait _ (.inl hstate) (fun Data h t hmsg hans => ?_) fun Data hans => ?_
  · rw [otaMasterFwVerWait] at hans
    split at hans
    next hreq =>
      dsimp only at hans
      have hawaits : m.Awaits Data := (awaits_fwVerWait hstate).mpr hreq
      split at hans
      · injection hans with hans
        rw [← hans]
        have hlength : (uint16ToBstream (m.rx Data).maxBlockNum).length ≤ otaFramePayloadMax - 1 :=
          Nat.le_of_ble_eq_true rfl
        have hsends := sends_sendCmd { m.rx Data with retryTimes := 0, state := .startRspWait }
          otaCmdIdStartReq hlength
        exact .start Data h (congrArg some hmsg) hstate hawaits rfl
          ⟨hsends.tx, hsends.len, hsends.air⟩
      · injection hans with hans
        rw [← hans]
        exact .failed rfl rfl
    · cases hans
  · intro hawaits
    rw [otaMasterFwVerWait, if_pos ((awaits_fwVerWait hstate).mp hawaits)] at hans
    dsimp only at hans
    split at hans <;> cases hans

theorem turn_startRspWait (hstate : m.state = .startRspWait) :
    MasterTurn m (some msg) (otaMasterWait otaMasterStartRspWait m msg) := by
  refine turn_wait _ (.inr (.inl hstate)) (fun Data h t hmsg hans => ?_) fun Data hans => ?_
  · rw [otaMasterStartRspWait] at hans
    split at hans
    next hreq =>
      injection hans with hans
      have hawaits : m.Awaits Data := (awaits_startRspWait hstate).mpr hreq
      exact .block Data h (congrArg some hmsg) (.inl hstate) hawaits
        { m.rx Data with retryTimes := 0, state := .dataAckWait } rfl rfl hans.symm
    · cases hans
  · intro hawaits
    rw [otaMasterStartRspWait, if_pos ((awaits_startRspWait hstate).mp hawaits)] at hans
    cases hans

theorem turn_dataAckWait (hstate : m.state = .dataAckWait) :
    MasterTurn m (some msg) (otaMasterWait otaMasterDataAckWait m msg) := by
  refine turn_wait _ (.inr (.inr (.inl hstate))) (fun Data h t hmsg hans => ?_) fun Data hans => ?_
  · rw [otaMasterDataAckWait] at hans
    split at hans
    next hreq =>
      dsimp only at hans
      have hawaits : m.Awaits Data := (awaits_dataAckWait hstate).mpr hreq
      split at hans
      next hfinish =>
        injection hans with hans
        rw [← hans]
        have hlength : (uint32ToBstream (m.rx Data).totalBinSize).length ≤
            otaFramePayloadMax - 1 := Nat.le_of_ble_eq_true rfl
        have hsends := sends_sendCmd { m.rx Data with retryTimes := 0, state := .endRspWait }
          otaCmdIdEndReq hlength
        exact .finish Data h (congrArg some hmsg) hstate hawaits hfinish rfl
          ⟨hsends.tx, hsends.len, hsends.air⟩
      next hmore =>
        injection hans with hans
        refine .block Data h (congrArg some hmsg)
          (.inr ⟨hstate, Bool.eq_false_iff.mpr hmore⟩) hawaits { m.rx Data with retryTimes := 0 }
          ?_ rfl hans.symm
        rw [← hstate]
        rfl
    · cases hans
  · intro hawaits
    rw [otaMasterDataAckWait, if_pos ((awaits_dataAckWait hstate).mp hawaits)] at hans
    dsimp only at hans
    split at hans <;> cases hans

theorem turn_endRspWait (hstate : m.state = .endRspWait) :
    MasterTurn m (some msg) (otaMasterWait otaMasterEndRspWait m msg) := by
  refine turn_wait _ (.inr (.inr (.inr hstate))) (fun Data h t hmsg hans => ?_) fun Data hans => ?_
  · rw [otaMasterEndRspWait] at hans
    split at hans
    · injection hans with hans
      rw [← hans]
      exact .ended hstate rfl rfl
    · cases hans
  · intro hawaits
    rw [otaMasterEndRspWait, if_pos ((awaits_endRspWait hstate).mp hawaits)] at hans
    cases hans

theorem masterTurn (now : ℕ) (m : OtaMaster) (msg : Option OtaMsg) :
    MasterTurn m msg (otaMasterStart now m msg) := by
  cases hstate : m.state with
  | idle =>
    rw [otaMasterStart.eq_def, hstate]
    dsimp only
    split
    · obtain ⟨htx, hlength⟩ := begins_buildCmdFrame_none m.txFrame otaCmdIdVersionReq
      exact .ask hstate rfl ⟨htx, hlength, rfl⟩
    · exact .quiet rfl rfl rfl rfl
  | dataLossCheck | dataLossSupp | ended | error =>
    rw [otaMasterStart.eq_def, hstate]
    exact .quiet rfl rfl rfl rfl
  | fwVerWait | startRspWait | dataAckWait | endRspWait =>
    cases msg with
    | none =>
      rw [otaMasterStart.eq_def, hstate]
      exact .quiet rfl rfl rfl rfl
    | some msg =>
      rw [otaMasterStart.eq_def, hstate]
      first
        | exact turn_fwVerWait hstate
        | exact turn_startRspWait hstate
        | exact turn_dataAckWait hstate
        | exact turn_endRspWait hstate

end Master

end TlBleSdk.Ota
