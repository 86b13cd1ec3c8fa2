import TlBleSdk.Hci.H5Exchange
import TlBleSdk.Hci.H5Store

/-!
# Delivery over H5

Both ends start behind `HCI_H5_Init` and establish the link; from then on each host gives
packets and takes packets. What a host takes is what the other one gave, in that order,
nothing twice and nothing left out, whatever the channels lose and whatever the timers do.
For the window of one packet that the SDK negotiates this needs that no resend is refused;
for a larger one that a resend goes on from the oldest entry.
-/

namespace TlBleSdk.Hci

/-- What is related to a list is related, in part, to a part of it. -/
theorem forall₂_sublist {α β : Type*} {R : α → β → Prop} {l l' : List α} {m : List β}
    (h : List.Forall₂ R l m) (hsub : l'.Sublist l) :
    ∃ m', List.Forall₂ R l' m' ∧ m'.Sublist m := by
  induction hsub generalizing m with
  | slnil => exact ⟨m, h, List.Sublist.refl m⟩
  | cons a _ ih =>
    obtain ⟨b, rest, -, hrest, rfl⟩ := List.forall₂_cons_left_iff.mp h
    obtain ⟨m', hm', hsub'⟩ := ih hrest
    exact ⟨m', hm', hsub'.cons b⟩
  | cons_cons a _ ih =>
    obtain ⟨b, rest, hab, hrest, rfl⟩ := List.forall₂_cons_left_iff.mp h
    obtain ⟨m', hm', hsub'⟩ := ih hrest
    exact ⟨b :: m', .cons hab hm', hsub'.cons_cons b⟩

/-! ## The packets stored -/

/-- The step changes neither `pHciRxFifo` nor what was put there. -/
def SameRx (cb cb' : HciH5Cb) : Prop :=
  cb'.pHciRxFifo = cb.pHciRxFifo ∧ cb'.history.put = cb.history.put

/-- Behind what the host took, the entries of `pHciRxFifo` are those that were put there. -/
def Stored (cb : HciH5Cb) (got : List (List UInt8)) : Prop :=
  ∃ q, cb.history.put = got ++ q ∧ cb.pHciRxFifo.Waits q

theorem SameRx.stored {cb cb' : HciH5Cb} {got : List (List UInt8)} (h : SameRx cb cb')
    (hcb : Stored cb got) : Stored cb' got := by
  obtain ⟨q, hput, hwaits⟩ := hcb
  exact ⟨q, h.2.trans hput, h.1 ▸ hwaits⟩

section

variable (cb : HciH5Cb) (now : ℕ) (slip : Bool)

theorem sameRx_rxSeqError (head : HciH5Head) : SameRx cb (hciH5RxSeqError cb head) :=
  ⟨rfl, rfl⟩

theorem sameRx_sendData : SameRx cb (hciH5SendData cb now slip) := by
  unfold hciH5SendData
  dsimp only
  split_ifs <;> exact ⟨rfl, rfl⟩

theorem sameRx_pollTx : SameRx cb (hciH5PollTx cb now slip) := by
  have hrew : SameRx cb (cb.rewound now) := by
    unfold HciH5Cb.rewound
    split <;> exact ⟨rfl, rfl⟩
  rw [pollTx_eq]
  split
  · exact ⟨rfl, rfl⟩
  · have hsend := sameRx_sendData (cb.rewound now) now slip
    exact ⟨hsend.1.trans hrew.1, hsend.2.trans hrew.2⟩

theorem sameRx_poll (slipAck : Bool) : SameRx cb (hciH5Poll cb now slip slipAck) := by
  unfold hciH5Poll
  split
  · split <;> exact ⟨rfl, rfl⟩
  · split <;> exact ⟨rfl, rfl⟩
  · have htx := sameRx_pollTx cb now slip
    unfold hciH5PollAck
    split <;> exact htx

theorem sameRx_dataAck (ackNum : ℕ) : SameRx cb (hciH5DataAck cb now ackNum) := by
  unfold hciH5DataAck
  split <;> exact ⟨rfl, rfl⟩

theorem sameRx_reSendCheck : SameRx cb (hciH5ReSendCheck cb now) := by
  unfold hciH5ReSendCheck
  split <;> exact ⟨rfl, rfl⟩

end

@[simp] theorem ack_put (history : HciH5History) (n : ℕ) :
    (history.ack n).put = history.put := by
  obtain ⟨acked, hacked⟩ := ack_eq_with history n
  rw [hacked]

section Stack

variable (blcHciReset : HciFifo → HciFifo → HciFifo × HciFifo)

namespace Pair

variable {One : Prop} {s r : HciH5Cb} {bin fin : List (List UInt8)} {bm fm : List H5Msg}
  {frame : List UInt8} {m : H5Msg} (now : ℕ) (slip : Bool)

/-- A link control frame that an active end meets is a late message of link establishment. -/
theorem active_linkCtrl (P : Pair One s r (frame :: bin) fin (m :: bm) fm)
    (hactive : s.linkState = .active) (hkind : s.kind (mem frame) frame.length = .linkCtrl) :
    hciH5PacketHandler blcHciReset s now slip (mem frame) frame.length = s ∨
      hciH5PacketHandler blcHciReset s now slip (mem frame) frame.length =
        hciH5SendConfigRsp s slip := by
  have hin := P.carries
  cases m with
  | sync => exact absurd List.mem_cons_self (P.back.greeted hactive).2
  | syncRsp =>
    obtain ⟨n, hn, rfl⟩ := hin
    obtain ⟨-, hmsg⟩ := receive_link hn hciH5MsgSyncRsp (by decide) [] (Nat.zero_le 1) s
    rw [packetHandler_linkCtrl hkind]
    unfold hciH5DecodeLinkPdu
    dsimp only
    rw [hmsg, hactive]
    exact .inl rfl
  | pdu x =>
    cases x with
    | config => exact receive_config blcHciReset hactive hin now slip
    | ack n =>
      have hframe : frame = pureAckFrame (n % 8) := hin
      have hack := (receive_ack hactive (Nat.mod_lt n (by decide))).1
      rw [hframe, hack] at hkind
      exact absurd hkind (by decide)
    | data k n =>
      obtain ⟨slot, crc, -, hrel, hcrc, hframe⟩ := hin
      rcases receive_data hactive k n hrel hcrc with hdata | ⟨hdata, -⟩
      · rw [hframe, hdata] at hkind
        exact absurd hkind (by decide)
      · rw [hframe, hdata] at hkind
        split at hkind <;> exact absurd hkind (by decide)

/-- What arrives is stored behind the rest. -/
theorem stored (P : Pair One s r (frame :: bin) fin (m :: bm) fm) {got : List (List UInt8)}
    (h : Stored s got) (hok : StoreOk s (.packet now slip (mem frame) frame.length)) :
    Stored (hciH5PacketHandler blcHciReset s now slip (mem frame) frame.length) got := by
  unfold StoreOk at hok
  dsimp only at hok
  cases hkind : s.kind (mem frame) frame.length with
  | dropped => rwa [packetHandler_dropped hkind]
  | pureAck =>
    rw [packetHandler_pureAck hkind]
    generalize (hciH5UnpackHeader (mem frame)).ackNum = ackNum
    have hsame : SameRx s { s with rxAck := ackNum, history := s.history.ack ackNum } :=
      ⟨rfl, ack_put s.history ackNum⟩
    exact (sameRx_reSendCheck _ now).stored (hsame.stored h)
  | linkCtrl =>
    by_cases hactive : s.linkState = .active
    · rcases P.active_linkCtrl blcHciReset now slip hactive hkind with heq | heq
      · rwa [heq]
      · have hsame : SameRx s (hciH5SendConfigRsp s slip) := ⟨rfl, rfl⟩
        rw [heq]
        exact hsame.stored h
    · -- nothing was put, and the link starts with an empty FIFO
      obtain ⟨q, hput, hwaits⟩ := h
      have hnil := P.back.unheard hactive
      rw [hnil] at hput
      obtain ⟨rfl, rfl⟩ := List.append_eq_nil_iff.mp hput.symm
      rw [packetHandler_linkCtrl hkind]
      rcases decodeLinkPdu_cases blcHciReset s now slip (mem frame) with heq | ⟨_, heq⟩ |
        ⟨_, -, heq⟩ | ⟨cfg, -, heq⟩ | ⟨_, _, _, hact, -⟩
      · rw [heq]
        exact ⟨[], hnil, hwaits⟩
      · rw [heq]
        exact ⟨[], hnil, hwaits⟩
      · rw [heq]
        exact ⟨[], hnil, hwaits⟩
      · rw [heq]
        exact ⟨[], rfl, HciFifo.waits_reset _⟩
      · exact absurd hact hactive
  | unreliable =>
    rw [hkind] at hok
    exact hok.elim
  | expected =>
    rw [hkind] at hok
    rw [packetHandler_expected hkind, rxSeqOk_eq]
    refine (sameRx_dataAck _ now _).stored ?_
    obtain ⟨q, hput, hwaits⟩ := h
    refine ⟨q ++ [rxSlot (hciH5UnpackHeader (mem frame)) (mem frame)], ?_, hwaits.push hok.1 _⟩
    dsimp only
    rw [ack_put, hput, List.append_assoc]
  | unexpected =>
    rw [packetHandler_unexpected hkind]
    generalize (hciH5UnpackHeader (mem frame)).ackNum = ackNum
    have hsame : SameRx s { s with history := s.history.ack ackNum } :=
      ⟨rfl, ack_put s.history ackNum⟩
    have hdrop := sameRx_rxSeqError { s with history := s.history.ack ackNum }
      (hciH5UnpackHeader (mem frame))
    exact (sameRx_dataAck _ now ackNum).stored (hdrop.stored (hsame.stored h))

end Pair

end Stack

/-! ## Two hosts -/

/-- Two ends of a link, and the packets each host took. -/
structure H5Hosts where
  link : H5Link
  got : Side → List (List UInt8)

namespace H5Hosts

/-- Both ends behind `HCI_H5_Init`. -/
def start (own : Side → HciH5Config) (rx tx : Side → HciFifo) (now : Side → ℕ) : H5Hosts :=
  ⟨H5Link.start own rx tx now, fun _ => []⟩

/-- What a host took after the step: `HCI_RxHandler` hands it the oldest entry. -/
def take (cb : HciH5Cb) (got : List (List UInt8)) : H5EndEvent → List (List UInt8)
  | .hostRx => if cb.pHciRxFifo.wptr = cb.pHciRxFifo.rptr then got else got ++ [cb.pHciRxFifo.front]
  | _ => got

/-- One step, at `i.1`. -/
def step (blcHciReset : Side → HciFifo → HciFifo → HciFifo × HciFifo) (x : H5Hosts)
    (i : Side × H5EndEvent) : H5Hosts where
  link := x.link.step blcHciReset i
  got := Function.update x.got i.1 (take (x.link i.1).cb (x.got i.1) i.2)

/-- What is given at `side.peer` arrives at `side`: the host there took a prefix of it, and
what it did not take waits in one of the two FIFOs. -/
structure Delivers (x : H5Hosts) (side : Side) : Prop where
  inOrder : x.got side <+: (x.link side.peer).cb.history.given.map packetOf
  kept : (x.link side.peer).cb.linkState = .active →
    (x.link side.peer).cb.history.given.length ≤ (x.got side).length +
      (x.link side).cb.pHciRxFifo.used + (x.link side.peer).cb.pHciTxFifo.used

end H5Hosts

/-- What the hosts and the UART keep to: the host gives HCI packets that fit into a slot, and
only where one is free; a packet that is taken finds a free slot that it fits; and the end is
not initialised again. -/
def H5End.Regular (e : H5End) : H5EndEvent → Prop
  | .deliver now slip =>
    ∀ m ∈ e.inbox.head?, StoreOk e.cb (.packet now slip (mem m.msg) m.msg.length)
  | .init _ => False
  | .hostTx slot =>
    hciH5IsReliablePacket (slotType slot) = true ∧ e.cb.pHciTxFifo.used < e.cb.pHciTxFifo.num ∧
      slot.length ≤ e.cb.pHciTxFifo.size
  | _ => True

/-- An active end goes on from the oldest entry whenever it sends. -/
def H5End.GoesOn (e : H5End) : H5EndEvent → Prop
  | .poll now _ _ => e.cb.linkState = .active → e.cb.GoesOn now
  | _ => True

/-- No resend of an active end is refused. -/
def H5End.Resends (e : H5End) : H5EndEvent → Prop
  | .poll now slip _ => e.cb.linkState = .active → e.cb.ResendDue now → slip = true
  | _ => True

instance (e : H5End) : (i : H5EndEvent) → Decidable (e.Regular i)
  | .poll _ _ _ => inferInstanceAs (Decidable True)
  | .deliver now slip => inferInstanceAs (Decidable
      (∀ m ∈ e.inbox.head?, StoreOk e.cb (.packet now slip (mem m.msg) m.msg.length)))
  | .lose _ => inferInstanceAs (Decidable True)
  | .init _ => inferInstanceAs (Decidable False)
  | .hostTx _ => inferInstanceAs (Decidable (_ ∧ _))
  | .hostRx => inferInstanceAs (Decidable True)

instance (e : H5End) : (i : H5EndEvent) → Decidable (e.GoesOn i)
  | .poll now _ _ => inferInstanceAs (Decidable (e.cb.linkState = .active → e.cb.GoesOn now))
  | .deliver _ _ | .lose _ | .init _ | .hostTx _ | .hostRx => inferInstanceAs (Decidable True)

instance (e : H5End) : (i : H5EndEvent) → Decidable (e.Resends i)
  | .poll now slip _ => inferInstanceAs (Decidable
      (e.cb.linkState = .active → e.cb.ResendDue now → slip = true))
  | .deliver _ _ | .lose _ | .init _ | .hostTx _ | .hostRx => inferInstanceAs (Decidable True)

/-! ## What a step keeps -/

/-- The frames in front of an end. -/
def H5End.frames (e : H5End) : List (List UInt8) := e.inbox.map (·.msg)

/-- The invariant of both hosts, seen from `side`. -/
structure H5Hosts.At (One : Prop) (x : H5Hosts) (side : Side) : Prop where
  pair : ∃ bm fm, Pair One (x.link side).cb (x.link side.peer).cb (x.link side).frames
    (x.link side.peer).frames bm fm
  range : (x.link side).cb.InRange
  stored : Stored (x.link side).cb (x.got side)
  sent : (x.link side).cb.uartTx = []

section Step

variable {One : Prop} {s r : HciH5Cb} {bin fin : List (List UInt8)} {bm fm : List H5Msg}

theorem Pair.swap (P : Pair One s r bin fin bm fm) : Pair One r s fin bin fm bm :=
  ⟨P.back, P.out⟩

/-- What was sent is on its way. -/
theorem Pair.drain (P : Pair One s r bin fin bm fm) :
    Pair One { s with uartTx := [] } r bin (fin ++ s.uartTx) bm fm :=
  ⟨{ P.out with
      carried := by
        show List.Forall₂ (H5Msg.In s.history.given) (fin ++ s.uartTx ++ []) fm
        rw [List.append_nil]
        exact P.out.carried },
    { P.back with }⟩

/-- Frames in front of an end get lost. -/
theorem Pair.loseFrames (P : Pair One s r bin fin bm fm) {bin' : List (List UInt8)}
    (hsub : bin'.Sublist bin) : ∃ bm', Pair One s r bin' fin bm' fm := by
  obtain ⟨bm', hcarried, hmsgs⟩ := forall₂_sublist P.back.carried
    (hsub.append_right r.uartTx)
  exact ⟨bm', P.out.lose P.out.carried (List.Sublist.refl _) hmsgs,
    P.back.lose hcarried hmsgs (List.Sublist.refl _)⟩

theorem Pair.give (P : Pair One s r bin fin bm fm) {slot : List UInt8}
    (hrel : hciH5IsReliablePacket (slotType slot) = true)
    (hroom : s.pHciTxFifo.used < s.pHciTxFifo.num) : Pair One (hostTx s slot) r bin fin bm fm :=
  ⟨P.out.give hrel hroom, P.back.receiver rfl rfl Iff.rfl⟩

theorem Pair.take (P : Pair One s r bin fin bm fm) : Pair One (hciRxHandler s) r bin fin bm fm := by
  unfold hciRxHandler
  split
  · exact P
  · exact ⟨{ P.out with }, { P.back with }⟩

variable (blcHciReset : HciFifo → HciFifo → HciFifo × HciFifo) {e : H5End}

/-- The message that the oldest frame carries. -/
theorem Pair.uncons (P : Pair One e.cb r e.frames fin bm fm) {m : Stamped (List UInt8)}
    {rest : List (Stamped (List UInt8))} (hinbox : e.inbox = m :: rest) :
    ∃ b bm', bm = b :: bm' ∧ Pair One e.cb r (m.msg :: rest.map (·.msg)) fin (b :: bm') fm := by
  have hframes : e.frames = m.msg :: rest.map (·.msg) := by
    unfold H5End.frames
    rw [hinbox, List.map_cons]
  rw [hframes] at P
  obtain ⟨b, bm', -, -, rfl⟩ := List.forall₂_cons_left_iff.mp P.back.carried
  exact ⟨b, bm', rfl, P⟩

/-- What happens at one end keeps the pair. -/
theorem Pair.endStep (P : Pair One e.cb r e.frames fin bm fm) (hrange : e.cb.InRange)
    {i : H5EndEvent} (hreg : e.Regular i) (htx : One ∧ e.Resends i ∨ ¬ One ∧ e.GoesOn i) :
    ∃ bm' fm', Pair One (e.step blcHciReset i).cb r (e.step blcHciReset i).frames fin bm' fm' := by
  cases i with
  | poll now slip slipAck =>
    obtain ⟨fm', hpoll⟩ := P.poll now slip hrange slipAck fun hactive => by
      rcases htx with ⟨one, hresends⟩ | ⟨hno, hgo⟩
      · exact P.pollTx_one now slip one hrange hactive (hresends hactive)
      · exact P.pollTx now slip hrange hactive (hgo hactive) fun one => absurd one hno
    exact ⟨bm, fm', hpoll⟩
  | deliver now slip =>
    cases hinbox : e.inbox with
    | nil =>
      have hstep : e.step blcHciReset (.deliver now slip) = e := by
        simp only [H5End.step, hinbox]
      rw [hstep]
      exact ⟨bm, fm, P⟩
    | cons m rest =>
      have hstep : e.step blcHciReset (.deliver now slip) =
          e.receive blcHciReset now slip m rest := by
        simp only [H5End.step, hinbox]
      obtain ⟨b, bm', rfl, hhead⟩ := P.uncons hinbox
      obtain ⟨fm', hpair⟩ := hhead.packet now slip blcHciReset hrange
      rw [hstep]
      exact ⟨bm', fm', hpair⟩
  | lose k =>
    obtain ⟨bm', hlost⟩ := P.loseFrames ((List.eraseIdx_sublist e.inbox k).map _)
    exact ⟨bm', fm, hlost⟩
  | init now => exact hreg.elim
  | hostTx slot => exact ⟨bm, fm, P.give hreg.1 hreg.2.1⟩
  | hostRx => exact ⟨bm, fm, P.take⟩

/-- What happens at one end keeps what is stored there. -/
theorem Pair.endStored (P : Pair One e.cb r e.frames fin bm fm) {got : List (List UInt8)}
    (h : Stored e.cb got) {i : H5EndEvent} (hreg : e.Regular i) :
    Stored (e.step blcHciReset i).cb (H5Hosts.take e.cb got i) := by
  cases i with
  | poll now slip slipAck => exact (sameRx_poll e.cb now slip slipAck).stored h
  | deliver now slip =>
    cases hinbox : e.inbox with
    | nil =>
      have hstep : e.step blcHciReset (.deliver now slip) = e := by
        simp only [H5End.step, hinbox]
      rw [hstep]
      exact h
    | cons m rest =>
      have hstep : e.step blcHciReset (.deliver now slip) =
          e.receive blcHciReset now slip m rest := by
        simp only [H5End.step, hinbox]
      obtain ⟨b, bm', rfl, hhead⟩ := P.uncons hinbox
      have hok : StoreOk e.cb (.packet now slip (mem m.msg) m.msg.length) :=
        hreg m (by rw [hinbox]; rfl)
      rw [hstep]
      exact hhead.stored blcHciReset now slip h hok
  | lose k => exact h
  | init now => exact hreg.elim
  | hostTx slot => exact h
  | hostRx =>
    obtain ⟨q, hput, hwaits⟩ := h
    show Stored (hciRxHandler e.cb)
      (if e.cb.pHciRxFifo.wptr = e.cb.pHciRxFifo.rptr then got else got ++ [e.cb.pHciRxFifo.front])
    unfold hciRxHandler
    split
    · exact ⟨q, hput, hwaits⟩
    · rename_i hne
      cases q with
      | nil => exact absurd (hwaits.nil_iff.mpr rfl) hne
      | cons entry q =>
        refine ⟨q, ?_, hwaits.drop⟩
        show e.cb.history.put = got ++ [e.cb.pHciRxFifo.front] ++ q
        rw [hput, hwaits.front_eq, List.append_assoc, List.singleton_append]

end Step

theorem HciH5Cb.InRange.endStep (blcHciReset : HciFifo → HciFifo → HciFifo × HciFifo) {e : H5End}
    (h : e.cb.InRange) (i : H5EndEvent) : (e.step blcHciReset i).cb.InRange := by
  cases i with
  | poll now slip slipAck => exact h.poll slipAck
  | deliver now slip =>
    unfold H5End.step
    dsimp only
    split
    · exact h
    · exact h.packetHandler blcHciReset _ _
  | lose k => exact h
  | init now =>
    exact ⟨Nat.zero_lt_succ 7, Nat.zero_lt_succ 7, Nat.zero_lt_succ 7, h.slidWinSize_le, h.crc_le⟩
  | hostTx slot => exact { h with }
  | hostRx => exact h.step blcHciReset .hostRx

@[simp] theorem Side.peer_peer (side : Side) : side.peer.peer = side := by cases side <;> rfl

theorem Side.eq_or_eq_peer (side a : Side) : side = a ∨ side = a.peer := by
  cases side <;> cases a <;> decide

theorem Side.peer_ne (side : Side) : side.peer ≠ side := by cases side <;> decide

theorem H5End.frames_push (e : H5End) (sent : List (List UInt8)) :
    (e.push sent).frames = e.frames ++ sent := by
  unfold H5End.frames H5End.push Stamped.send
  rw [List.map_append, List.map_map]
  congr 1
  exact List.map_id' sent

namespace H5Hosts

variable {One : Prop} {x : H5Hosts}

theorem At.step (blcHciReset : Side → HciFifo → HciFifo → HciFifo × HciFifo)
    (h : ∀ side, x.At One side) {i : Side × H5EndEvent} (hreg : (x.link i.1).Regular i.2)
    (htx : One ∧ (x.link i.1).Resends i.2 ∨ ¬ One ∧ (x.link i.1).GoesOn i.2) :
    ∀ side, (x.step blcHciReset i).At One side := by
  obtain ⟨a, event⟩ := i
  obtain ⟨bm, fm, P⟩ := (h a).pair
  obtain ⟨bm', fm', hpair⟩ := P.endStep (blcHciReset a) (h a).range hreg htx
  have hstored := P.endStored (blcHciReset a) (h a).stored hreg
  have hrange : ((x.link a).step (blcHciReset a) event).cb.InRange :=
    (h a).range.endStep (blcHciReset a) event
  have hself : (x.step blcHciReset (a, event)).link a =
      ((x.link a).step (blcHciReset a) event).drain := if_pos rfl
  have hpeer : (x.step blcHciReset (a, event)).link a.peer =
      (x.link a.peer).push ((x.link a).step (blcHciReset a) event).cb.uartTx :=
    if_neg a.peer_ne
  have hgot : (x.step blcHciReset (a, event)).got a =
      take (x.link a).cb (x.got a) event := Function.update_self _ _ _
  have hgot' : (x.step blcHciReset (a, event)).got a.peer = x.got a.peer :=
    Function.update_of_ne a.peer_ne _ _
  have hdrained := hpair.drain
  rw [← H5End.frames_push] at hdrained
  intro side
  rcases side.eq_or_eq_peer a with rfl | rfl
  · constructor
    · rw [hself, hpeer]
      exact ⟨bm', fm', hdrained⟩
    · rw [hself]
      exact { hrange with }
    · rw [hself, hgot]
      obtain ⟨q, hput, hwaits⟩ := hstored
      exact ⟨q, hput, hwaits⟩
    · rw [hself]
      rfl
  · constructor
    · rw [Side.peer_peer, hself, hpeer]
      exact ⟨fm', bm', hdrained.swap⟩
    · rw [hpeer]
      exact (h a.peer).range
    · rw [hpeer, hgot']
      exact (h a.peer).stored
    · rw [hpeer]
      exact (h a.peer).sent

/-- The invariant at both ends says that what is given arrives. -/
theorem At.delivers (h : ∀ side, x.At One side) (side : Side) : x.Delivers side := by
  obtain ⟨bm, fm, P⟩ := (h side).pair
  obtain ⟨q, hput, hwaits⟩ := (h side).stored
  have hgot : x.got side <+: (x.link side).cb.history.put := ⟨q, hput.symm⟩
  refine ⟨hgot.trans ?_, fun hactive => ?_⟩
  · rw [P.back.put_eq, List.map_take]
    exact List.take_prefix _ _
  · have htx := (P.back.fifo hactive).used_eq
    have hbase : (x.link side.peer).cb.history.released ≤
        (x.link side).cb.history.put.length := P.back.window.base_le
    rw [hput, List.length_append] at hbase
    rw [hwaits.used_eq, htx]
    omega

/-- Two ends behind their first `HCI_H5_Init`, with nothing waiting in `pHciRxFifo`. -/
theorem At.start {own : Side → HciH5Config} {rx : Side → HciFifo}
    (hrx : ∀ side, (rx side).wptr = (rx side).rptr) (tx : Side → HciFifo) (now : Side → ℕ)
    (hone : One → ∀ side, (own side).slidWinSize ≤ 1) (side : Side) :
    (start own rx tx now).At One side := by
  have hflow (a b : Side) : Flow One (hciH5Init (own a) (rx a) (tx a) (now a))
      (hciH5Init (own b) (rx b) (tx b) (now b)) [] [] [] :=
    { carried := .nil
      window := GoBackN.Inv.start 7
      seq_eq := rfl
      ack_eq := rfl
      fifo := fun h => HciH5LinkState.noConfusion h
      reliable := fun _ h => absurd h List.not_mem_nil
      put_eq := rfl
      slid_le := le_rfl
      quiet := fun _ => ⟨rfl, rfl, rfl, fun _ h => absurd h List.not_mem_nil⟩
      unheard := fun _ => rfl
      greet := List.Pairwise.nil
      idle := fun _ _ h => absurd h List.not_mem_nil
      greeted := fun h => HciH5LinkState.noConfusion h
      single := fun one =>
        { tight := ⟨le_rfl, fun _ h => absurd h List.not_mem_nil⟩
          rxAck_eq := rfl
          win_le := Nat.zero_le 1
          own_le := hone one a } }
  exact ⟨⟨[], [], hflow side side.peer, hflow side.peer side⟩, HciH5Cb.InRange.init _ _ _ _,
    ⟨[], rfl, HciFifo.waits_nil (hrx side)⟩, rfl⟩

/-! ## Runs -/

/-- With a window of one packet at both ends, as the SDK has it: in every run without a refused
resend, whatever is lost and whenever the ends are polled, what a host takes is what the other
host gave since its end became active, in order, and nothing of it is missing between the two
FIFOs. -/
theorem delivers_of_one (blcHciReset : Side → HciFifo → HciFifo → HciFifo × HciFifo)
    (own : Side → HciH5Config) (hown : ∀ side, (own side).slidWinSize ≤ 1)
    (rx tx : Side → HciFifo) (hrx : ∀ side, (rx side).wptr = (rx side).rptr) (now : Side → ℕ)
    (is : List (Side × H5EndEvent))
    (hok : Machine.Along (step blcHciReset)
      (fun x i => (x.link i.1).Regular i.2 ∧ (x.link i.1).Resends i.2) (start own rx tx now) is) :
    Machine.Always (step blcHciReset) (fun x => ∀ side, x.Delivers side) (start own rx tx now)
      is :=
  Machine.always_of_invariant
    (fun y _ (h : ∀ side, y.At True side) hi => At.step blcHciReset h hi.1 (.inl ⟨trivial, hi.2⟩))
    (fun _ => At.delivers)
    (At.start hrx tx now fun _ => hown) hok

/-- Two ends with FIFOs of 8 slots and the window `win`. -/
def exampleStart (win : ℕ) : H5Hosts :=
  start (fun _ => ⟨win, 0, 0, 0⟩) (fun _ => HciFifo.empty 260 3 HciFifo.three_le_seven)
    (fun _ => HciFifo.empty 260 3 HciFifo.three_le_seven) fun _ => 0

/-- Both ends become active. -/
def handshake : List (Side × H5EndEvent) :=
  [(.right, .poll 5000000 true true), (.left, .poll 5000000 true true),
    (.left, .deliver 5000000 true), (.right, .deliver 5000000 true),
    (.right, .deliver 5000000 true), (.left, .deliver 5000000 true),
    (.left, .deliver 5000000 true), (.right, .deliver 5000000 true),
    (.right, .deliver 5000000 true), (.left, .deliver 5000000 true)]

/-- The left host gives a packet. Its frame gets lost and goes out again; the right host takes
the packet, which is acknowledged. -/
def lossyRun : List (Side × H5EndEvent) :=
  handshake ++ [(.left, .hostTx h5Entry), (.left, .poll 5000000 true true), (.right, .lose 0),
    (.left, .poll 6000000 true true), (.right, .deliver 6000000 true),
    (.right, .poll 6200000 true true), (.right, .hostRx), (.left, .deliver 6200000 true)]

theorem delivers_lossyRun :
    let step := step fun _ rx tx => (rx, tx)
    Machine.Always step (fun x => ∀ side, x.Delivers side) (exampleStart 1) lossyRun ∧
      (Machine.run step (exampleStart 1) lossyRun).got .right = [[2, 0x55]] :=
  ⟨delivers_of_one _ _ (fun _ => le_rfl) _ _ (fun _ => rfl) _ _ (by decide +kernel),
    by decide +kernel⟩

/-- With windows of any size, in every run in which an end goes on from the oldest entry
whenever it sends. -/
theorem delivers_of_goesOn (blcHciReset : Side → HciFifo → HciFifo → HciFifo × HciFifo)
    (own : Side → HciH5Config) (rx tx : Side → HciFifo)
    (hrx : ∀ side, (rx side).wptr = (rx side).rptr) (now : Side → ℕ)
    (is : List (Side × H5EndEvent))
    (hok : Machine.Along (step blcHciReset)
      (fun x i => (x.link i.1).Regular i.2 ∧ (x.link i.1).GoesOn i.2) (start own rx tx now) is) :
    Machine.Always (step blcHciReset) (fun x => ∀ side, x.Delivers side) (start own rx tx now)
      is :=
  Machine.always_of_invariant
    (fun y _ (h : ∀ side, y.At False side) hi => At.step blcHciReset h hi.1 (.inr ⟨id, hi.2⟩))
    (fun _ => At.delivers)
    (At.start hrx tx now False.elim) hok

/-- Two packets in flight are acknowledged at once. -/
def windowRun : List (Side × H5EndEvent) :=
  handshake ++ [(.left, .hostTx h5Entry), (.left, .hostTx h5Entry),
    (.left, .poll 5000000 true true), (.left, .poll 5000000 true true),
    (.right, .deliver 5000000 true), (.right, .deliver 5000000 true), (.right, .hostRx),
    (.right, .hostRx), (.left, .deliver 5000000 true)]

theorem delivers_windowRun :
    let step := step fun _ rx tx => (rx, tx)
    Machine.Always step (fun x => ∀ side, x.Delivers side) (exampleStart 2) windowRun ∧
      (Machine.run step (exampleStart 2) windowRun).got .right = [[2, 0x55], [2, 0x55]] :=
  ⟨delivers_of_goesOn _ _ _ _ (fun _ => rfl) _ _ (by decide +kernel), by decide +kernel⟩

end H5Hosts

end TlBleSdk.Hci
