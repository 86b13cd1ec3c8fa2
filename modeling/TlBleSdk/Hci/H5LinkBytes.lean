import TlBleSdk.Hci.H5Config

/-!
# Which bytes decide about the link

`HCI_H5_DecodeLinkPdu` reads a message of two bytes and a configuration byte behind the
header, whatever the length of the payload. What lies behind the payload is what earlier
packets left in the decode buffer. Two memories with the same header and payload have the
same effect on the link exactly if the payload has every byte that the link state looks at.
-/

namespace TlBleSdk.Hci

section Stack

variable (blcHciReset : HciFifo → HciFifo → HciFifo × HciFifo)

/-- What the peer and the upper layers see of a link. -/
def HciH5Cb.linkView (cb : HciH5Cb) : HciH5LinkState × HciH5Config × List (List UInt8) :=
  (cb.linkState, cb.config, cb.uartTx)

/-- The packet at `p` and every other memory with its header and payload have one effect on
the link. -/
def LinkDependsOnPayload (cb : HciH5Cb) (p : ℕ → UInt8) (len : ℕ) : Prop :=
  ∀ now slip q, (∀ i < hciH5HeadLen + (hciH5UnpackHeader p).payloadLen, q i = p i) →
    (hciH5PacketHandler blcHciReset cb now slip q len).linkView =
      (hciH5PacketHandler blcHciReset cb now slip p len).linkView

/-- The messages a link state acts on in a way of its own. -/
def linkMsgs : HciH5LinkState → List ℕ
  | .idle => [hciH5MsgSync, hciH5MsgSyncRsp]
  | .init => [hciH5MsgSync, hciH5MsgConfig, hciH5MsgConfigRsp]
  | .active => [hciH5MsgConfig, hciH5MsgSync]

/-- A configuration that no configuration byte of the peer changes. -/
structure HciH5Config.Neutral (own : HciH5Config) : Prop where
  slidWinSize : own.slidWinSize = 0
  oofFlowCtrl : own.oofFlowCtrl % 2 = 0
  dataIntgrtChkType : own.dataIntgrtChkType % 2 = 0
  version : own.version = 0

/-- The payload at `p` has every byte that matters to the link: more than none; of a single
byte, one that begins no message the state acts on; of two bytes, not the message
CONFIG_RSP that is waited for. -/
structure HciH5Cb.PayloadDecides (cb : HciH5Cb) (p : ℕ → UInt8) : Prop where
  pos : (hciH5UnpackHeader p).payloadLen ≠ 0
  one : (hciH5UnpackHeader p).payloadLen = 1 →
    ∀ m ∈ linkMsgs cb.linkState, m % 256 ≠ (p hciH5HeadLen).toNat
  two : (hciH5UnpackHeader p).payloadLen = 2 → cb.linkState = .init →
    bytesToUint16 p hciH5HeadLen = hciH5MsgConfigRsp → cb.hciH5Config.Neutral

/-! ## The bytes read -/

variable {blcHciReset} {cb : HciH5Cb} {now : ℕ} {slip : Bool} {p q : ℕ → UInt8} {len : ℕ}

/-- The message and the configuration byte are all that is read behind the header. -/
theorem decodeLinkPdu_congr
    (hmsg : bytesToUint16 q hciH5HeadLen = bytesToUint16 p hciH5HeadLen)
    (hcfg : q (hciH5HeadLen + 2) = p (hciH5HeadLen + 2)) :
    hciH5DecodeLinkPdu blcHciReset cb now slip q =
      hciH5DecodeLinkPdu blcHciReset cb now slip p := by
  simp only [hciH5DecodeLinkPdu, hmsg, hcfg]

/-- The effect of a message that the state does not act on. -/
def HciH5Cb.ignored (cb : HciH5Cb) (slip : Bool) : HciH5Cb :=
  if cb.linkState = .idle then hciH5SendSync cb slip else cb

theorem decodeLinkPdu_of_not_mem (h : bytesToUint16 p hciH5HeadLen ∉ linkMsgs cb.linkState) :
    hciH5DecodeLinkPdu blcHciReset cb now slip p = cb.ignored slip := by
  unfold hciH5DecodeLinkPdu HciH5Cb.ignored
  cases hstate : cb.linkState <;> rw [hstate] at h <;>
    simp only [linkMsgs, List.mem_cons, List.not_mem_nil, or_false, not_or] at h <;> simp [h]

/-- Link control packets have no CRC. -/
theorem linkFrame_eq (cb : HciH5Cb) {packet : List UInt8} (h : packet.length < 65532) :
    hciH5Frame (hciH5SendHead cb hciH5PktTypeLinkCtrl packet.length) packet =
      hciH5PackHeader (hciH5SendHead cb hciH5PktTypeLinkCtrl packet.length) ++ packet :=
  frame_of_crc_eq_zero (by simp [hciH5SendHead]) h

theorem uartTx_send (cb : HciH5Cb) (h5Type : ℕ) (packet : List UInt8) :
    (hciH5Send cb true h5Type packet).uartTx =
      cb.uartTx ++ [hciH5Frame (hciH5SendHead cb h5Type packet.length) packet] := rfl

/-- SYNC and its answer are different frames. -/
theorem syncRsp_ne_sync (cb : HciH5Cb) :
    (hciH5SendSyncRsp cb true).uartTx ≠ (hciH5SendSync cb true).uartTx := by
  intro h
  rw [hciH5SendSyncRsp, hciH5SendSync, uartTx_send, uartTx_send,
    linkFrame_eq cb (by decide), linkFrame_eq cb (by decide)] at h
  have hframe := (List.cons.inj (List.append_cancel_left h)).1
  have hpayload := List.append_cancel_left (hframe : _ ++ uint16ToBstream hciH5MsgSyncRsp =
    _ ++ uint16ToBstream hciH5MsgSync)
  exact absurd hpayload (by decide)

/-- A frame that is sent can be seen. -/
theorem send_ne (cb : HciH5Cb) (h5Type : ℕ) (packet : List UInt8) :
    (hciH5Send cb true h5Type packet).uartTx ≠ cb.uartTx := by
  rw [uartTx_send]
  intro h
  simpa using congrArg List.length h

/-- SYNC_RSP starts the negotiation. -/
theorem linkState_syncRsp (hstate : cb.linkState = .idle)
    (h : bytesToUint16 p hciH5HeadLen = hciH5MsgSyncRsp) :
    (hciH5DecodeLinkPdu blcHciReset cb now slip p).linkState = .init := by
  unfold hciH5DecodeLinkPdu
  dsimp only
  rw [hstate]
  dsimp only
  rw [h, if_neg (by decide), if_pos rfl]
  rfl

/-- CONFIG_RSP ends the negotiation. -/
theorem decodeLinkPdu_configRsp (hstate : cb.linkState = .init)
    (h : bytesToUint16 p hciH5HeadLen = hciH5MsgConfigRsp) :
    hciH5DecodeLinkPdu blcHciReset cb now slip p =
      { hciH5Reset { cb with linkState := .active } now with
        config := hciH5Negotiate cb.hciH5Config (p (hciH5HeadLen + 2)).toNat } := by
  unfold hciH5DecodeLinkPdu
  dsimp only
  rw [hstate]
  dsimp only
  rw [h, if_neg (by decide), if_neg (by decide), if_pos rfl]

/-- SYNC resets an active link. -/
theorem linkState_sync (hstate : cb.linkState = .active)
    (h : bytesToUint16 p hciH5HeadLen = hciH5MsgSync) :
    (hciH5DecodeLinkPdu blcHciReset cb now slip p).linkState = .idle := by
  unfold hciH5DecodeLinkPdu
  dsimp only
  rw [hstate]
  dsimp only
  rw [h, if_neg (by decide), if_pos rfl]
  rfl

/-- SYNC and CONFIG are answered in the other states too. -/
theorem decodeLinkPdu_answers (hstate : cb.linkState ≠ .idle)
    (h : bytesToUint16 p hciH5HeadLen = hciH5MsgConfig ∨
      cb.linkState = .init ∧ bytesToUint16 p hciH5HeadLen = hciH5MsgSync) :
    ∃ packet, hciH5DecodeLinkPdu blcHciReset cb now slip p =
      hciH5Send cb slip hciH5PktTypeLinkCtrl packet := by
  unfold hciH5DecodeLinkPdu
  dsimp only
  rcases h with h | ⟨hinit, h⟩
  · rw [h]
    cases hst : cb.linkState with
    | idle => exact absurd hst hstate
    | init =>
      dsimp only
      rw [if_neg (by decide), if_pos rfl]
      exact ⟨_, rfl⟩
    | active =>
      dsimp only
      rw [if_pos rfl]
      exact ⟨_, rfl⟩
  · rw [hinit, h]
    dsimp only
    rw [if_pos rfl]
    exact ⟨_, rfl⟩

theorem linkState_ignored (cb : HciH5Cb) (slip : Bool) :
    (cb.ignored slip).linkState = cb.linkState := by
  unfold HciH5Cb.ignored
  split <;> rfl

theorem ignored_of_ne (h : cb.linkState ≠ .idle) : cb.ignored slip = cb := if_neg h

/-- The effect of a message that the state acts on differs from the one of all others. -/
theorem decodeLinkPdu_of_mem (h : bytesToUint16 p hciH5HeadLen ∈ linkMsgs cb.linkState) :
    (hciH5DecodeLinkPdu blcHciReset cb now true p).linkView ≠ (cb.ignored true).linkView := by
  intro hview
  -- A change of the state shows there, an answer in what is sent.
  have hst : (hciH5DecodeLinkPdu blcHciReset cb now true p).linkState = cb.linkState :=
    (congrArg Prod.fst hview).trans (linkState_ignored cb true)
  have htx : (hciH5DecodeLinkPdu blcHciReset cb now true p).uartTx = (cb.ignored true).uartTx :=
    congrArg (·.2.2) hview
  have answered (hne : cb.linkState ≠ .idle)
      (hmsg : bytesToUint16 p hciH5HeadLen = hciH5MsgConfig ∨
        cb.linkState = .init ∧ bytesToUint16 p hciH5HeadLen = hciH5MsgSync) : False := by
    have hanswer : ∃ packet, hciH5DecodeLinkPdu blcHciReset cb now true p =
        hciH5Send cb true hciH5PktTypeLinkCtrl packet := decodeLinkPdu_answers hne hmsg
    obtain ⟨packet, hsend⟩ := hanswer
    rw [hsend, ignored_of_ne hne] at htx
    exact send_ne _ _ _ htx
  cases hstate : cb.linkState with
  | idle =>
    simp only [hstate, linkMsgs, List.mem_cons, List.not_mem_nil, or_false] at h
    rcases h with h | h
    · have hsync : hciH5DecodeLinkPdu blcHciReset cb now true p = hciH5SendSyncRsp cb true := by
        simp [hciH5DecodeLinkPdu, hstate, h]
      rw [hsync, HciH5Cb.ignored, if_pos hstate] at htx
      exact syncRsp_ne_sync cb htx
    · rw [linkState_syncRsp hstate h, hstate] at hst
      cases hst
  | init =>
    have hne : cb.linkState ≠ .idle := by
      rw [hstate]
      decide
    simp only [hstate, linkMsgs, List.mem_cons, List.not_mem_nil, or_false] at h
    rcases h with h | h | h
    · exact answered hne (.inr ⟨hstate, h⟩)
    · exact answered hne (.inl h)
    · rw [decodeLinkPdu_configRsp hstate h, hstate] at hst
      cases hst
  | active =>
    have hne : cb.linkState ≠ .idle := by
      rw [hstate]
      decide
    simp only [hstate, linkMsgs, List.mem_cons, List.not_mem_nil, or_false] at h
    rcases h with h | h
    · exact answered hne (.inl h)
    · rw [linkState_sync hstate h, hstate] at hst
      cases hst

/-! ## Memories with the same payload -/

theorem unpackHeader_congr (h : ∀ i < hciH5HeadLen, q i = p i) :
    hciH5UnpackHeader q = hciH5UnpackHeader p := by
  have hword : bytesToUint32 q 0 = bytesToUint32 p 0 := by
    simp only [bytesToUint32, h 0 (by decide), h 1 (by decide), h 2 (by decide), h 3 (by decide)]
  simp only [hciH5UnpackHeader, hword]

theorem isCheckSumValid_congr (h : ∀ i < hciH5HeadLen, q i = p i) :
    hciH5IsCheckSumValid q = hciH5IsCheckSumValid p := by
  simp only [hciH5IsCheckSumValid, h 0 (by decide), h 1 (by decide), h 2 (by decide),
    h 3 (by decide)]

/-- A link control packet that passes the checks. -/
structure IsLinkPdu (p : ℕ → UInt8) (len : ℕ) : Prop where
  checkSum : hciH5IsCheckSumValid p
  len : hciH5LenValid (hciH5UnpackHeader p) len
  type : (hciH5UnpackHeader p).pktType = hciH5PktTypeLinkCtrl

theorem IsLinkPdu.congr (hp : IsLinkPdu p len) (h : ∀ i < hciH5HeadLen, q i = p i) :
    IsLinkPdu q len where
  checkSum := by
    rw [isCheckSumValid_congr h]
    exact hp.checkSum
  len := by
    rw [unpackHeader_congr h]
    exact hp.len
  type := by
    rw [unpackHeader_congr h]
    exact hp.type

theorem IsLinkPdu.packetHandler (hp : IsLinkPdu p len) :
    hciH5PacketHandler blcHciReset cb now slip p len =
      hciH5DecodeLinkPdu blcHciReset cb now slip p := by
  apply packetHandler_linkCtrl
  simp [HciH5Cb.kind, hp.checkSum, hp.len, hp.type, hciH5PktTypeLinkCtrl, hciH5PktTypeAck]

/-- The memory with the message `msg` behind the header. -/
def withMsg (p : ℕ → UInt8) (msg : ℕ) : ℕ → UInt8 :=
  memcpy p hciH5HeadLen (uint16ToBstream msg)

/-- The memory with the configuration byte `cfg` behind the message. -/
def withCfg (p : ℕ → UInt8) (cfg : UInt8) : ℕ → UInt8 := memcpy p (hciH5HeadLen + 2) [cfg]

theorem withMsg_of_lt {i : ℕ} (h : i < hciH5HeadLen) (msg : ℕ) : withMsg p msg i = p i :=
  if_neg (by omega)

theorem withCfg_of_lt {i : ℕ} (h : i < hciH5HeadLen + 2) (cfg : UInt8) : withCfg p cfg i = p i :=
  if_neg (by omega)

theorem withMsg_low {msg : ℕ} (h : msg % 256 = (p hciH5HeadLen).toNat) :
    withMsg p msg hciH5HeadLen = p hciH5HeadLen := by
  have hval : withMsg p msg hciH5HeadLen = UInt8.ofNat msg := rfl
  rw [hval, ← UInt8.toNat_inj, UInt8.toNat_ofNat']
  exact h

theorem bytesToUint16_withMsg {msg : ℕ} (h : msg < 65536) :
    bytesToUint16 (withMsg p msg) hciH5HeadLen = msg := by
  have h0 : withMsg p msg hciH5HeadLen = UInt8.ofNat msg := rfl
  have h1 : withMsg p msg (hciH5HeadLen + 1) = UInt8.ofNat (msg / 256) := rfl
  rw [bytesToUint16, h0, h1, UInt8.toNat_ofNat', UInt8.toNat_ofNat']
  omega

theorem linkMsgs_lt {state : HciH5LinkState} {msg : ℕ} (h : msg ∈ linkMsgs state) :
    256 ≤ msg ∧ msg < 65536 := by
  cases state <;> revert msg <;> decide

/-- A message that is not wholly in the payload may be one the state acts on, and may be none. -/
theorem LinkDependsOnPayload.not_mem (h : LinkDependsOnPayload blcHciReset cb p len)
    (hp : IsLinkPdu p len) {msg : ℕ} (hmsg : msg ∈ linkMsgs cb.linkState)
    (hone : (hciH5UnpackHeader p).payloadLen ≤ 1)
    (hlow : (hciH5UnpackHeader p).payloadLen = 1 → msg % 256 = (p hciH5HeadLen).toNat) :
    False := by
  obtain ⟨hlo, hlt⟩ := linkMsgs_lt hmsg
  have same (m : ℕ) (hm : m % 256 = msg % 256) :
      (hciH5DecodeLinkPdu blcHciReset cb 0 true (withMsg p m)).linkView =
        (hciH5DecodeLinkPdu blcHciReset cb 0 true p).linkView := by
    have hhead : ∀ i < hciH5HeadLen, withMsg p m i = p i := fun i hi => withMsg_of_lt hi m
    have heq := h 0 true (withMsg p m) fun i hi => by
      by_cases hin : i < hciH5HeadLen
      · exact hhead i hin
      · have hi4 : i = hciH5HeadLen := by omega
        rw [hi4, withMsg_low]
        exact hm.trans (hlow (by omega))
    rwa [(hp.congr hhead).packetHandler, hp.packetHandler] at heq
  have hacts : (hciH5DecodeLinkPdu blcHciReset cb 0 true (withMsg p msg)).linkView ≠
      (cb.ignored true).linkView :=
    decodeLinkPdu_of_mem (by rwa [bytesToUint16_withMsg hlt])
  -- With a zero as its upper byte it is no message of the state.
  have hnone : hciH5DecodeLinkPdu blcHciReset cb 0 true (withMsg p (msg % 256)) =
      cb.ignored true := by
    apply decodeLinkPdu_of_not_mem
    rw [bytesToUint16_withMsg (by omega)]
    intro hmem
    have := (linkMsgs_lt hmem).1
    omega
  have hboth := (same msg rfl).trans (same (msg % 256) (Nat.mod_mod _ _)).symm
  rw [hnone] at hboth
  exact hacts hboth

/-- No state acts on no message. -/
theorem exists_mem_linkMsgs (state : HciH5LinkState) : ∃ msg, msg ∈ linkMsgs state :=
  ⟨hciH5MsgSync, by cases state <;> decide⟩

/-- Where no negotiation tells the byte 255 from 0, none tells any two bytes apart. -/
theorem neutral_of_negotiate {own : HciH5Config}
    (h : hciH5Negotiate own 255 = hciH5Negotiate own 0) : own.Neutral := by
  have hslid := congrArg HciH5Config.slidWinSize h
  have hoof := congrArg HciH5Config.oofFlowCtrl h
  have hdata := congrArg HciH5Config.dataIntgrtChkType h
  have hversion := congrArg HciH5Config.version h
  simp only [hciH5Negotiate] at hslid hoof hdata hversion
  have hone (x : ℕ) (hx : x &&& 1 = x &&& 0) : x % 2 = 0 := by
    rw [and_mask1, Nat.and_zero] at hx
    exact hx
  exact
    { slidWinSize := by
        have h7 : min own.slidWinSize 7 = min own.slidWinSize 0 := hslid
        omega
      oofFlowCtrl := hone _ hoof
      dataIntgrtChkType := hone _ hdata
      version := by
        have h7 : min own.version 7 = min own.version 0 := hversion
        omega }

theorem HciH5Config.Neutral.negotiate {own : HciH5Config} (h : own.Neutral) (c d : ℕ) :
    hciH5Negotiate own c = hciH5Negotiate own d := by
  have hone (x y : ℕ) (hx : x % 2 = 0) : x &&& (y &&& 1) = 0 := by
    rw [Nat.and_comm y, ← Nat.and_assoc, and_mask1, hx, Nat.zero_and]
  simp only [hciH5Negotiate, h.slidWinSize, h.version, Nat.zero_min,
    hone _ _ h.oofFlowCtrl, hone _ _ h.dataIntgrtChkType]

/-- Only CONFIG_RSP, where it is waited for, has its configuration byte read. -/
theorem decodeLinkPdu_congr_msg
    (hmsg : bytesToUint16 q hciH5HeadLen = bytesToUint16 p hciH5HeadLen)
    (h : ¬ (cb.linkState = .init ∧ bytesToUint16 p hciH5HeadLen = hciH5MsgConfigRsp)) :
    hciH5DecodeLinkPdu blcHciReset cb now slip q =
      hciH5DecodeLinkPdu blcHciReset cb now slip p := by
  unfold hciH5DecodeLinkPdu
  dsimp only
  rw [hmsg]
  cases hstate : cb.linkState with
  | idle => rfl
  | init =>
    have hne : bytesToUint16 p hciH5HeadLen ≠ hciH5MsgConfigRsp := fun heq => h ⟨hstate, heq⟩
    dsimp only
    rw [if_neg hne, if_neg hne]
  | active => rfl

/-- A payload that has every byte that matters. -/
theorem HciH5Cb.PayloadDecides.linkView_eq (h : cb.PayloadDecides p)
    (heq : ∀ i < hciH5HeadLen + (hciH5UnpackHeader p).payloadLen, q i = p i) :
    (hciH5DecodeLinkPdu blcHciReset cb now slip q).linkView =
      (hciH5DecodeLinkPdu blcHciReset cb now slip p).linkView := by
  have hpos := h.pos
  have hlow : q hciH5HeadLen = p hciH5HeadLen := heq _ (by omega)
  have hmsg (h2 : 2 ≤ (hciH5UnpackHeader p).payloadLen) :
      bytesToUint16 q hciH5HeadLen = bytesToUint16 p hciH5HeadLen :=
    bytesToUint16_congr hlow (heq _ (by omega))
  rcases Nat.lt_trichotomy (hciH5UnpackHeader p).payloadLen 2 with h1 | h2 | h3
  · -- Of a single byte, both memories have a message the state does not act on.
    have hout (m : ℕ → UInt8) (hm : m hciH5HeadLen = p hciH5HeadLen) :
        bytesToUint16 m hciH5HeadLen ∉ linkMsgs cb.linkState := by
      intro hmem
      have hne := h.one (by omega) _ hmem
      have hlt := (p hciH5HeadLen).toNat_lt
      rw [bytesToUint16, hm] at hne
      omega
    rw [decodeLinkPdu_of_not_mem (hout q hlow), decodeLinkPdu_of_not_mem (hout p rfl)]
  · by_cases hrsp : cb.linkState = .init ∧ bytesToUint16 p hciH5HeadLen = hciH5MsgConfigRsp
    · obtain ⟨hinit, hp⟩ := hrsp
      have hneutral := h.two h2 hinit hp
      rw [decodeLinkPdu_configRsp hinit hp, decodeLinkPdu_configRsp hinit ((hmsg h2.ge).trans hp),
        hneutral.negotiate (q (hciH5HeadLen + 2)).toNat (p (hciH5HeadLen + 2)).toNat]
    · rw [decodeLinkPdu_congr_msg (hmsg h2.ge) hrsp]
  · rw [decodeLinkPdu_congr (hmsg (by omega)) (heq _ (by omega))]

/-- Where any byte of the buffer will do for the configuration byte, none matters. -/
theorem LinkDependsOnPayload.neutral (h : LinkDependsOnPayload blcHciReset cb p len)
    (hp : IsLinkPdu p len) (h2 : (hciH5UnpackHeader p).payloadLen = 2)
    (hinit : cb.linkState = .init) (hrsp : bytesToUint16 p hciH5HeadLen = hciH5MsgConfigRsp) :
    cb.hciH5Config.Neutral := by
  have config (cfg : UInt8) : hciH5Negotiate cb.hciH5Config cfg.toNat =
      (hciH5DecodeLinkPdu blcHciReset cb 0 true p).config := by
    have hsame : ∀ i < hciH5HeadLen + 2, withCfg p cfg i = p i := fun i hi => withCfg_of_lt hi cfg
    have hmsg : bytesToUint16 (withCfg p cfg) hciH5HeadLen = hciH5MsgConfigRsp :=
      (bytesToUint16_congr (hsame _ (by omega)) (hsame _ (by omega))).trans hrsp
    have hpdu : IsLinkPdu (withCfg p cfg) len := hp.congr fun i hi => hsame i (by omega)
    have hview := h 0 true (withCfg p cfg) fun i hi => hsame i (by omega)
    rw [hpdu.packetHandler, hp.packetHandler, decodeLinkPdu_configRsp hinit hmsg] at hview
    exact congrArg (·.2.1) hview
  exact neutral_of_negotiate ((config 255).trans (config 0).symm)

variable (blcHciReset) in
/-- What lies behind the payload has no effect on the link exactly if the payload itself has
every byte the link state looks at. -/
theorem linkDependsOnPayload_iff (cb : HciH5Cb) (p : ℕ → UInt8) (len : ℕ)
    (hp : IsLinkPdu p len) : LinkDependsOnPayload blcHciReset cb p len ↔ cb.PayloadDecides p := by
  constructor
  · intro h
    refine ⟨fun h0 => ?_, fun h1 m hm heq => ?_, h.neutral hp⟩
    · obtain ⟨msg, hmsg⟩ := exists_mem_linkMsgs cb.linkState
      exact h.not_mem hp hmsg (by omega) (by omega)
    · exact h.not_mem hp hm h1.le fun _ => heq
  · intro h now slip q heq
    have hq : IsLinkPdu q len := hp.congr fun i hi => heq i (by omega)
    rw [hq.packetHandler, hp.packetHandler]
    exact h.linkView_eq heq

/-! ## Left in the buffer -/

/-- The packet `l`, decoded into a buffer with the contents `left`. -/
def decodedInto (left : ℕ → UInt8) (l : List UInt8) : ℕ → UInt8 := memcpy left 0 l

/-- A packet without a valid header is dropped, and leaves in the buffer what it likes. -/
theorem packetHandler_leaves (left : ℕ → UInt8) (l : List UInt8) (len : ℕ) :
    hciH5PacketHandler blcHciReset cb now slip (decodedInto left ([0, 0, 0, 0] ++ l)) len = cb := by
  apply packetHandler_dropped
  have hsum : hciH5IsCheckSumValid (decodedInto left ([0, 0, 0, 0] ++ l)) = false := by
    simp [hciH5IsCheckSumValid, decodedInto, memcpy]
  unfold HciH5Cb.kind
  rw [hsum]
  rfl

/-- A link control packet without payload, behind a dropped one with the payload `left`. -/
def emptyLinkPdu (left : List UInt8) : ℕ → UInt8 :=
  decodedInto (decodedInto (fun _ => 0) ([0, 0, 0, 0] ++ left)) [0x00, 0x0F, 0x00, 0xF0]

theorem isLinkPdu_empty (left : List UInt8) : IsLinkPdu (emptyLinkPdu left) 4 := by
  have hsame : ∀ i < hciH5HeadLen, emptyLinkPdu left i = mem [0x00, 0x0F, 0x00, 0xF0] i := by
    intro i hi
    have hin : 0 ≤ i ∧ i < 0 + [(0x00 : UInt8), 0x0F, 0x00, 0xF0].length := ⟨Nat.zero_le i, by
      simpa [hciH5HeadLen] using hi⟩
    exact if_pos hin
  have hmem : IsLinkPdu (mem [0x00, 0x0F, 0x00, 0xF0]) 4 :=
    ⟨by decide, by decide, by decide⟩
  exact hmem.congr hsame

theorem linkDependsOnPayload_iff_empty :
    IsLinkPdu (emptyLinkPdu [0x01, 0x7E]) 4 ∧
      (LinkDependsOnPayload (fun rx tx => (rx, tx)) (h5Start 4) (emptyLinkPdu [0x01, 0x7E]) 4 ↔
        (h5Start 4).PayloadDecides (emptyLinkPdu [0x01, 0x7E])) :=
  ⟨isLinkPdu_empty _, linkDependsOnPayload_iff _ _ _ 4 (isLinkPdu_empty _)⟩

/-- A packet that is dropped leaves a SYNC in the buffer and the state as it was. Behind the header
of an empty packet the link reads the SYNC, and answers it. -/
theorem not_linkDependsOnPayload_empty :
    (∀ blcHciReset cb now slip, hciH5PacketHandler blcHciReset cb now slip
        (decodedInto (fun _ => 0) ([0, 0, 0, 0] ++ [0x01, 0x7E])) 6 = cb) ∧
      ¬ ∀ (blcHciReset : HciFifo → HciFifo → HciFifo × HciFifo) (cb : HciH5Cb) (p : ℕ → UInt8)
        (len : ℕ), IsLinkPdu p len → LinkDependsOnPayload blcHciReset cb p len := by
  refine ⟨fun _ _ _ _ => packetHandler_leaves _ _ _, fun h => ?_⟩
  have hsync := isLinkPdu_empty [0x01, 0x7E]
  have hview := h (fun rx tx => (rx, tx)) (h5Start 4) _ 4 hsync 0 true (emptyLinkPdu [])
    (by decide)
  exact absurd (congrArg (·.2.2) hview) (by decide)

end Stack

end TlBleSdk.Hci
