import TlBleSdk.Hci.H5Pdu

/-!
# What an endpoint tells its peer about its configuration

Only the CONFIG and CONFIG_RSP messages carry a configuration, and both carry the static
one. An endpoint becomes active on a CONFIG_RSP message and takes what it and the message
both support, so its `config` is a function of the two static configurations
(`H5Sound.packetHandler`), whatever else was received before.
-/

namespace TlBleSdk.Hci

/-! ## The negotiated configuration -/

/-- The byte of the CONFIG messages holds the configuration. -/
structure HciH5Config.Fits (config : HciH5Config) : Prop where
  slidWinSize_le : config.slidWinSize ≤ 7
  oofFlowCtrl_le : config.oofFlowCtrl ≤ 1
  dataIntgrtChkType_le : config.dataIntgrtChkType ≤ 1
  version_le : config.version ≤ 7

/-- What two configurations support both: the smaller window and version, and the flow
control and data check that both have. -/
def HciH5Config.meet (own peer : HciH5Config) : HciH5Config where
  slidWinSize := min own.slidWinSize peer.slidWinSize
  oofFlowCtrl := own.oofFlowCtrl &&& peer.oofFlowCtrl
  dataIntgrtChkType := own.dataIntgrtChkType &&& peer.dataIntgrtChkType
  version := min own.version peer.version

theorem HciH5Config.meet_comm (own peer : HciH5Config) : own.meet peer = peer.meet own := by
  unfold meet
  rw [Nat.min_comm, Nat.min_comm own.version, Nat.and_comm, Nat.and_comm own.dataIntgrtChkType]

/-- The configuration byte as a number. -/
theorem configByte_toNat {config : HciH5Config} (h : config.Fits) :
    (hciH5ConfigByte config).toNat = config.slidWinSize + 8 * config.oofFlowCtrl +
      16 * config.dataIntgrtChkType + 32 * config.version := by
  obtain ⟨hwin, hflow, hcheck, hversion⟩ := h
  have h0 : config.slidWinSize < 2 ^ 3 := by omega
  have h1 : config.slidWinSize + 2 ^ 3 * config.oofFlowCtrl < 2 ^ 4 := by omega
  have h2 : config.slidWinSize + 2 ^ 3 * config.oofFlowCtrl +
    2 ^ 4 * config.dataIntgrtChkType < 2 ^ 5 := by omega
  unfold hciH5ConfigByte
  rw [or_shiftLeft h0, or_shiftLeft h1, or_shiftLeft h2, UInt8.toNat_ofNat']
  omega

/-- With the peer's byte, `HCI_H5_DecodeLinkPdu` sets what both support. -/
theorem negotiate_configByte (own : HciH5Config) {peer : HciH5Config} (h : peer.Fits) :
    hciH5Negotiate own (hciH5ConfigByte peer).toNat = own.meet peer := by
  have hbyte := configByte_toNat h
  obtain ⟨hwin, hflow, hcheck, hversion⟩ := h
  generalize (hciH5ConfigByte peer).toNat = cfg at hbyte ⊢
  have hwin' : cfg % 8 = peer.slidWinSize := by omega
  have hflow' : cfg / 2 ^ 3 % 2 = peer.oofFlowCtrl := by omega
  have hcheck' : cfg / 2 ^ 4 % 2 = peer.dataIntgrtChkType := by omega
  have hversion' : cfg / 2 ^ 5 % 8 = peer.version := by omega
  unfold hciH5Negotiate HciH5Config.meet
  rw [Nat.shiftRight_eq_div_pow, Nat.shiftRight_eq_div_pow, Nat.shiftRight_eq_div_pow, and_mask3,
    and_mask3, and_mask1, and_mask1, hwin', hflow', hcheck', hversion']

/-! ## Honest frames -/

/-- A frame that reads as a CONFIG_RSP message carries the static configuration `own` of its
sender. -/
def HonestFrame (own : HciH5Config) (frame : List UInt8) : Prop :=
  (hciH5UnpackHeader (mem frame)).pktType = hciH5PktTypeLinkCtrl →
    bytesToUint16 (mem frame) hciH5HeadLen = hciH5MsgConfigRsp →
      mem frame (hciH5HeadLen + 2) = hciH5ConfigByte own

/-- A frame reads with the type of its header, unless it is cut before it. -/
theorem pktType_frame (head : HciH5Head) (packet : List UInt8) :
    (hciH5UnpackHeader (mem (hciH5Frame head packet))).pktType = 0 ∨
      (hciH5UnpackHeader (mem (hciH5Frame head packet))).pktType = head.pktType % 16 := by
  have hread (p : ℕ → UInt8) : (hciH5UnpackHeader p).pktType = (p 1).toNat % 16 := by
    have h0 := (p 0).toNat_lt
    unfold hciH5UnpackHeader bytesToUint32
    simp only [and_mask4, Nat.shiftRight_eq_div_pow, Nat.zero_add]
    omega
  -- the lower four bits of the second byte are those of the type
  have htype (len : ℕ) : (UInt8.ofNat (u16 (head.pktType ||| (len <<< 4 &&& 0x0fff)))).toNat % 16 =
      head.pktType % 16 := by
    have hlen : (len <<< 4 &&& 0x0fff) % 2 ^ 4 = 0 := by
      rw [and_mask12, Nat.shiftLeft_eq]
      omega
    have hor := Nat.or_mod_two_pow (a := head.pktType) (b := len <<< 4 &&& 0x0fff) (n := 4)
    rw [hlen, Nat.or_zero] at hor
    rw [UInt8.toNat_ofNat']
    unfold u16
    omega
  rw [hread]
  unfold hciH5Frame
  generalize u16 (hciH5HeadLen + packet.length + if head.crc ≠ 0 then hciH5CrcLen else 0) = n
  unfold hciH5PackHeader mem
  match n with
  -- A frame of over 65530 bytes: its 16-bit length leaves no type.
  | 0 | 1 => exact Or.inl rfl
  | n + 2 => exact Or.inr (htype head.payloadLen)

/-- A frame of another type is honest. -/
theorem honest_of_type (own : HciH5Config) (head : HciH5Head) (packet : List UInt8)
    (h : head.pktType % 16 ≠ hciH5PktTypeLinkCtrl) : HonestFrame own (hciH5Frame head packet) := by
  intro htype
  rcases pktType_frame head packet with h0 | h1
  · rw [h0] at htype
    exact absurd htype (by decide)
  · exact absurd (h1.symm.trans htype) h

/-- A message reads as it was sent. -/
theorem bytesToUint16_frame {head : HciH5Head} {packet : List UInt8} (hcrc : head.crc = 0)
    {msg : ℕ} (hmsg : msg < 65536) {rest : List UInt8} (hrest : rest.length ≤ 1)
    (hpacket : packet = uint16ToBstream msg ++ rest) :
    bytesToUint16 (mem (hciH5Frame head packet)) hciH5HeadLen = msg ∧
      mem (hciH5Frame head packet) (hciH5HeadLen + 2) = mem rest 0 := by
  have hlen : packet.length < 65532 := by
    rw [hpacket, List.length_append]
    change 2 + rest.length < 65532
    omega
  have h0 := mem_packHeader head packet 0
  have h1 := mem_packHeader head packet 1
  have h2 := mem_packHeader head packet 2
  rw [frame_of_crc_eq_zero hcrc hlen]
  constructor
  · rw [← bytesToUint16_message hmsg rest, ← hpacket]
    unfold bytesToUint16
    rw [Nat.add_zero] at h0
    rw [h0, h1]
  · rw [h2, hpacket]
    rfl

/-- The four messages are honest. -/
theorem honest_message (own : HciH5Config) {head : HciH5Head} (hcrc : head.crc = 0)
    {msg : ℕ} (hmsg : msg < 65536) {rest : List UInt8} (hrest : rest.length ≤ 1)
    (h : msg = hciH5MsgConfigRsp → rest = [hciH5ConfigByte own]) :
    HonestFrame own (hciH5Frame head (uint16ToBstream msg ++ rest)) := by
  obtain ⟨hread, hbyte⟩ := bytesToUint16_frame hcrc hmsg hrest rfl
  intro _ hrsp
  rw [hbyte, h (hread.symm.trans hrsp)]
  rfl

/-! ## One endpoint -/

/-- No slot of the FIFO has the type of the link control packets. -/
def HciFifo.NoLinkCtrl (f : HciFifo) : Prop :=
  ∀ i, slotType (f.p i) % 16 ≠ hciH5PktTypeLinkCtrl

theorem HciFifo.noLinkCtrl_empty (size k : ℕ) (hk : k ≤ 7) :
    (HciFifo.empty size k hk).NoLinkCtrl := fun _ =>
  show slotType [] % 16 ≠ hciH5PktTypeLinkCtrl by decide

theorem HciFifo.NoLinkCtrl.push {f : HciFifo} (h : f.NoLinkCtrl) {slot : List UInt8}
    (hslot : slotType slot % 16 ≠ hciH5PktTypeLinkCtrl) : (f.push slot).NoLinkCtrl := by
  intro i
  change slotType (Function.update f.p (f.slotIdx f.wptr) slot i) % 16 ≠ _
  by_cases hi : i = f.slotIdx f.wptr
  · rwa [hi, Function.update_self]
  · rw [Function.update_of_ne hi]
    exact h i

/-- An endpoint with the static configuration `own` uses what it and `peer` support, and its
frames are honest. -/
structure H5Sound (own peer : HciH5Config) (cb : HciH5Cb) : Prop where
  own_eq : cb.hciH5Config = own
  config_eq : cb.linkState = .active → cb.config = own.meet peer
  slots : cb.pHciTxFifo.NoLinkCtrl
  frames : ∀ frame ∈ cb.uartTx, HonestFrame own frame

namespace H5Sound

variable {own peer : HciH5Config} {cb cb' : HciH5Cb} {now : ℕ} {slip : Bool}

/-- The start, behind `HCI_H5_Init`. -/
theorem init {rx tx : HciFifo} (htx : tx.NoLinkCtrl) : H5Sound own peer (hciH5Init own rx tx now) :=
  ⟨rfl, fun h => HciH5LinkState.noConfusion h, htx, fun _ h => absurd h List.not_mem_nil⟩

theorem initAgain (h : H5Sound own peer cb) : H5Sound own peer (hciH5InitAgain cb now) :=
  ⟨h.own_eq, fun h => HciH5LinkState.noConfusion h, h.slots, h.frames⟩

/-- Every other field may change. -/
theorem congr (h : H5Sound own peer cb) (hown : cb'.hciH5Config = cb.hciH5Config)
    (hstate : cb'.linkState = cb.linkState) (hconfig : cb'.config = cb.config)
    (hslots : cb'.pHciTxFifo.p = cb.pHciTxFifo.p) (hframes : cb'.uartTx = cb.uartTx) :
    H5Sound own peer cb' where
  own_eq := hown.trans h.own_eq
  config_eq hactive := hconfig.trans (h.config_eq (hstate.symm.trans hactive))
  slots i := by
    rw [hslots]
    exact h.slots i
  frames frame hmem := h.frames frame (hframes ▸ hmem)

/-- The frames went to the UART. -/
theorem drain (h : H5Sound own peer cb) : H5Sound own peer { cb with uartTx := [] } :=
  ⟨h.own_eq, h.config_eq, h.slots, fun _ h => absurd h List.not_mem_nil⟩

theorem send (h : H5Sound own peer cb) {h5Type : ℕ} {packet : List UInt8}
    (hframe : HonestFrame own (hciH5Frame (hciH5SendHead cb h5Type packet.length) packet)) :
    H5Sound own peer (hciH5Send cb slip h5Type packet) where
  own_eq := h.own_eq
  config_eq := h.config_eq
  slots := h.slots
  frames frame hmem := by
    change frame ∈ (if slip then cb.uartTx ++ [_] else cb.uartTx) at hmem
    cases slip with
    | false => exact h.frames frame hmem
    | true =>
      rcases List.mem_append.mp hmem with hold | hnew
      · exact h.frames frame hold
      · rw [List.mem_singleton.mp hnew]
        exact hframe

theorem sendPureAck (h : H5Sound own peer cb) : H5Sound own peer (hciH5SendPureAck cb slip) :=
  h.send (honest_of_type own _ _
    (show hciH5PktTypeAck % 16 ≠ hciH5PktTypeLinkCtrl by decide))

theorem sendMsg (h : H5Sound own peer cb) {msg : ℕ} (hmsg : msg < 65536) (rest : List UInt8)
    (hrest : rest.length ≤ 1) (hrsp : msg = hciH5MsgConfigRsp → rest = [hciH5ConfigByte own]) :
    H5Sound own peer (hciH5Send cb slip hciH5PktTypeLinkCtrl (uint16ToBstream msg ++ rest)) :=
  h.send (honest_message own rfl hmsg hrest hrsp)

theorem sendSync (h : H5Sound own peer cb) : H5Sound own peer (hciH5SendSync cb slip) :=
  h.sendMsg (by decide) [] (Nat.zero_le 1) fun h => absurd h (by decide)

theorem sendSyncRsp (h : H5Sound own peer cb) : H5Sound own peer (hciH5SendSyncRsp cb slip) :=
  h.sendMsg (by decide) [] (Nat.zero_le 1) fun h => absurd h (by decide)

theorem sendConfig (h : H5Sound own peer cb) : H5Sound own peer (hciH5SendConfig cb slip) :=
  h.sendMsg (by decide) _ (Nat.le_refl 1) fun h => absurd h (by decide)

theorem sendConfigRsp (h : H5Sound own peer cb) :
    H5Sound own peer (hciH5SendConfigRsp cb slip) := by
  refine h.sendMsg (by decide) _ (Nat.le_refl 1) fun _ => ?_
  rw [h.own_eq]

theorem sendData (h : H5Sound own peer cb) : H5Sound own peer (hciH5SendData cb now slip) := by
  have hslot : slotType (hciH5TxSlot cb) % 16 ≠ hciH5PktTypeLinkCtrl := h.slots _
  have hopen : H5Sound own peer { cb with txSlidWinSize := u8 (cb.txSlidWinSize + 1) } :=
    h.congr rfl rfl rfl rfl rfl
  have hsend : H5Sound own peer (hciH5Send { cb with txSlidWinSize := u8 (cb.txSlidWinSize + 1) }
      slip (slotType (hciH5TxSlot cb)) (slotPayload (hciH5TxSlot cb))) :=
    hopen.send (honest_of_type own _ _ hslot)
  unfold hciH5SendData
  split
  · exact h
  split
  · exact h
  dsimp only
  split
  · exact hsend.congr rfl rfl rfl rfl rfl
  · exact hsend.congr rfl rfl rfl rfl rfl

theorem rewound (h : H5Sound own peer cb) : H5Sound own peer (cb.rewound now) := by
  unfold HciH5Cb.rewound
  split
  · exact h.congr rfl rfl rfl rfl rfl
  · exact h

theorem pollTx (h : H5Sound own peer cb) : H5Sound own peer (hciH5PollTx cb now slip) := by
  rw [pollTx_eq]
  split
  · exact h
  · exact h.rewound.sendData

theorem pollAck (h : H5Sound own peer cb) : H5Sound own peer (hciH5PollAck cb now slip) := by
  have hquiet : H5Sound own peer { cb with rxTick := 0 } := h.congr rfl rfl rfl rfl rfl
  unfold hciH5PollAck
  split
  · exact hquiet.sendPureAck.congr rfl rfl rfl rfl rfl
  · exact h

theorem poll (h : H5Sound own peer cb) (slipAck : Bool) :
    H5Sound own peer (hciH5Poll cb now slip slipAck) := by
  unfold hciH5Poll
  split
  · split
    · exact h.sendSync.congr rfl rfl rfl rfl rfl
    · exact h
  · split
    · exact h.sendConfig.congr rfl rfl rfl rfl rfl
    · exact h
  · exact h.pollTx.pollAck

/-- The peer's link control packet. An endpoint becomes active on a CONFIG_RSP message only,
which carries what the peer has. -/
theorem decodeLinkPdu {blcHciReset : HciFifo → HciFifo → HciFifo × HciFifo}
    (hreset : ∀ rx tx, tx.NoLinkCtrl → (blcHciReset rx tx).2.NoLinkCtrl)
    (h : H5Sound own peer cb) (hpeer : peer.Fits) {p : ℕ → UInt8}
    (hp : bytesToUint16 p hciH5HeadLen = hciH5MsgConfigRsp →
      p (hciH5HeadLen + 2) = hciH5ConfigByte peer) :
    H5Sound own peer (hciH5DecodeLinkPdu blcHciReset cb now slip p) := by
  unfold hciH5DecodeLinkPdu
  dsimp only
  cases hstate : cb.linkState with
  | idle =>
    have hinit : H5Sound own peer { cb with linkState := .init } :=
      ⟨h.own_eq, fun h => HciH5LinkState.noConfusion h, h.slots, h.frames⟩
    dsimp only
    split_ifs
    · exact h.sendSyncRsp
    · exact hinit.sendConfig
    · exact h.sendSync
  | init =>
    dsimp only
    split_ifs with _ _ hrsp
    · exact h.sendSyncRsp
    · exact h.sendConfigRsp
    · -- The one way to become active.
      refine ⟨h.own_eq, fun _ => ?_, h.slots, h.frames⟩
      change hciH5Negotiate cb.hciH5Config (p (hciH5HeadLen + 2)).toNat = _
      rw [hp hrsp, negotiate_configByte _ hpeer, h.own_eq]
    · exact h
  | active =>
    dsimp only
    split_ifs
    · exact h.sendConfigRsp
    · refine H5Sound.sendSyncRsp ⟨h.own_eq, fun h => HciH5LinkState.noConfusion h, ?_, h.frames⟩
      exact hreset _ _ h.slots
    · exact h

theorem dataAck (h : H5Sound own peer cb) (ackNum : ℕ) :
    H5Sound own peer (hciH5DataAck cb now ackNum) := by
  unfold hciH5DataAck
  split
  · exact h.congr rfl rfl rfl rfl rfl
  · exact h.congr rfl rfl rfl rfl rfl

theorem reSendCheck (h : H5Sound own peer cb) : H5Sound own peer (hciH5ReSendCheck cb now) := by
  unfold hciH5ReSendCheck
  split
  · exact h.congr rfl rfl rfl rfl rfl
  · exact h.congr rfl rfl rfl rfl rfl

theorem rxSeqOk (h : H5Sound own peer cb) (head : HciH5Head) (p : ℕ → UInt8) :
    H5Sound own peer (hciH5RxSeqOk cb now slip head p) := by
  have hnext : H5Sound own peer
      { cb with
        txAck := (cb.txAck + 1) % 8
        rxSlidWinSize := u8 (cb.rxSlidWinSize + 1)
        rxTick := clockTimeOr1 now
        history := { cb.history with owed := true } } := h.congr rfl rfl rfl rfl rfl
  unfold hciH5RxSeqOk hciH5PackHciPdu
  dsimp only
  split
  · exact hnext.sendPureAck.congr rfl rfl rfl rfl rfl
  · exact hnext.congr rfl rfl rfl rfl rfl

/-- Whatever arrives, if the CONFIG_RSP messages among it are the peer's. -/
theorem packetHandler {blcHciReset : HciFifo → HciFifo → HciFifo × HciFifo}
    (hreset : ∀ rx tx, tx.NoLinkCtrl → (blcHciReset rx tx).2.NoLinkCtrl)
    (h : H5Sound own peer cb) (hpeer : peer.Fits) {frame : List UInt8}
    (hframe : HonestFrame peer frame) :
    H5Sound own peer
      (hciH5PacketHandler blcHciReset cb now slip (mem frame) frame.length) := by
  have hack : H5Sound own peer { cb with
      history := cb.history.ack (hciH5UnpackHeader (mem frame)).ackNum } :=
    h.congr rfl rfl rfl rfl rfl
  cases hkind : cb.kind (mem frame) frame.length with
  | dropped =>
    rw [packetHandler_dropped hkind]
    exact h
  | pureAck =>
    rw [packetHandler_pureAck hkind]
    exact reSendCheck (h.congr rfl rfl rfl rfl rfl)
  | linkCtrl =>
    rw [packetHandler_linkCtrl hkind]
    exact h.decodeLinkPdu hreset hpeer (hframe (kind_link hkind))
  | unreliable =>
    rw [packetHandler_unreliable hkind]
    exact h.congr rfl rfl rfl rfl rfl
  | expected =>
    rw [packetHandler_expected hkind]
    exact (hack.rxSeqOk _ _).dataAck _
  | unexpected =>
    have hdrop : H5Sound own peer (hciH5RxSeqError
        { cb with history := cb.history.ack (hciH5UnpackHeader (mem frame)).ackNum }
        (hciH5UnpackHeader (mem frame))) := hack.congr rfl rfl rfl rfl rfl
    rw [packetHandler_unexpected hkind]
    exact hdrop.dataAck _

theorem hostTx (h : H5Sound own peer cb) {slot : List UInt8}
    (hslot : slotType slot % 16 ≠ hciH5PktTypeLinkCtrl) : H5Sound own peer (hostTx cb slot) :=
  ⟨h.own_eq, h.config_eq, h.slots.push hslot, h.frames⟩

theorem hostRx (h : H5Sound own peer cb) : H5Sound own peer (hciRxHandler cb) := by
  unfold hciRxHandler
  split
  · exact h
  · exact h.congr rfl rfl rfl rfl rfl

end H5Sound

end TlBleSdk.Hci
