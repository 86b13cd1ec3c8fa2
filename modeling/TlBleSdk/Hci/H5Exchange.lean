import TlBleSdk.Hci.H5Flow
import TlBleSdk.Hci.H5Link

/-!
# Both directions of an H5 link

`Pair` holds of two endpoints and the frames under way between them. Whatever one of them
does keeps it, as long as a resend goes on from the oldest entry that is not released, and
nothing is sent that was not given (`GoesOn`).
-/

namespace TlBleSdk.Hci

/-- The endpoints `s` and `r`, with the frames `bin` in front of `s` and `fin` in front of
`r`, which carry the messages `bm` and `fm`. -/
structure Pair (One : Prop) (s r : HciH5Cb) (bin fin : List (List UInt8))
    (bm fm : List H5Msg) : Prop where
  out : Flow One s r fin fm bm
  back : Flow One r s bin bm fm

/-- A resend goes on from the oldest entry, and what is sent was given. -/
def HciH5Cb.GoesOn (cb : HciH5Cb) (now : ℕ) : Prop :=
  (cb.ResendDue now → cb.rxAck = cb.history.released % 8) ∧
    ((cb.rewound now).Sends → (cb.rewound now).txSlidWinSize < cb.pHciTxFifo.used)

instance (cb : HciH5Cb) (now : ℕ) : Decidable (cb.GoesOn now) :=
  inferInstanceAs (Decidable ((_ → _) ∧ (_ → _)))

/-- Only `acked` changes in the history on an acknowledgement. -/
theorem ack_eq_with (history : HciH5History) (n : ℕ) :
    ∃ acked, history.ack n = { history with acked := acked } := by
  unfold HciH5History.ack
  dsimp only
  split
  · exact ⟨_, rfl⟩
  · exact ⟨history.acked, rfl⟩

/-- A link control frame is sent. -/
theorem sendLink_eq (cb : HciH5Cb) (slip : Bool) (msg : ℕ) (rest : List UInt8)
    (hrest : rest.length ≤ 1) :
    hciH5Send cb slip hciH5PktTypeLinkCtrl (uint16ToBstream msg ++ rest) =
      { cb with
        uartTx := if slip then cb.uartTx ++ [linkFrame cb.txAck msg rest] else cb.uartTx
        history := { cb.history with owed := if slip then false else cb.history.owed } } := by
  have hlen : (uint16ToBstream msg ++ rest).length = 2 + rest.length := List.length_append
  have hu16 : u16 (2 + rest.length) = 2 + rest.length := u16_of_lt (by omega)
  have hhead : hciH5SendHead cb hciH5PktTypeLinkCtrl (uint16ToBstream msg ++ rest).length =
      ⟨0, cb.txAck, 0, 0, hciH5PktTypeLinkCtrl, 0, 2 + rest.length⟩ := by
    rw [hlen]
    unfold hciH5SendHead
    rw [hu16]
    rfl
  unfold hciH5Send
  rw [hhead]
  rfl

/-- An endpoint that is not active drops what is no link control packet. -/
theorem kind_of_inactive {cb : HciH5Cb} (hstate : cb.linkState ≠ .active) {p : ℕ → UInt8}
    {len : ℕ} (hdata : (hciH5UnpackHeader p).pktType ≠ hciH5PktTypeLinkCtrl) :
    cb.kind p len = .dropped := by
  unfold HciH5Cb.kind
  dsimp only
  split_ifs <;> rfl

namespace Pair

variable {One : Prop} {s r : HciH5Cb} {bin fin : List (List UInt8)} {bm fm : List H5Msg}
  (now : ℕ) (slip : Bool)

/-! ## Sending -/

/-- A message without data goes out, or is refused. -/
theorem post (P : Pair One s r bin fin bm fm) {frame : List UInt8} {m : H5Msg}
    (hin : m.In s.history.given frame) (hdata : m.data? = none)
    (hack : m.ack? = none ∨ m.ack? = some s.history.put.length)
    (hsync : m = .sync → s.linkState = .idle) (hpdu : m.IsPdu → s.linkState ≠ .idle) :
    ∃ fm', Pair One
      { s with
        uartTx := if slip then s.uartTx ++ [frame] else s.uartTx
        history := { s.history with owed := if slip then false else s.history.owed } }
      r bin fin bm fm' := by
  cases slip with
  | false => exact ⟨fm, { P.out with }, { P.back with }⟩
  | true =>
    have hout := P.out.post hin hdata hsync hpdu false
    exact ⟨fm ++ [m], hout, { P.back.hear hack with }⟩

/-- A pure ACK carries the number of the packets taken. -/
theorem sendPureAck (P : Pair One s r bin fin bm fm) (hactive : s.linkState = .active) :
    ∃ fm', Pair One (hciH5SendPureAck s slip) r bin fin bm fm' := by
  rw [sendPureAck_eq]
  refine P.post slip (m := .pdu (.ack s.history.put.length)) ?_ rfl (.inr rfl)
    (fun h => H5Msg.noConfusion h) fun _ => ?_
  · show pureAckFrame s.txAck = _
    rw [P.back.ack_eq]
  · rw [hactive]
    decide

/-- A CONFIG or CONFIG_RSP message. -/
theorem sendConfigMsg (P : Pair One s r bin fin bm fm) (hrange : s.InRange) {msg : ℕ} {byte : UInt8}
    (hmsg : msg = hciH5MsgConfig ∨ msg = hciH5MsgConfigRsp) (hstate : s.linkState ≠ .idle) :
    ∃ fm', Pair One (hciH5Send s slip hciH5PktTypeLinkCtrl (uint16ToBstream msg ++ [byte])) r bin
      fin bm fm' := by
  rw [sendLink_eq s slip msg [byte] (Nat.le_refl 1)]
  exact P.post slip (m := .pdu .config) ⟨s.txAck, msg, byte, hrange.txAck_lt, hmsg, rfl⟩ rfl (.inl rfl)
    (fun h => H5Msg.noConfusion h) fun _ => hstate

theorem sendSync (P : Pair One s r bin fin bm fm) (hrange : s.InRange)
    (hidle : s.linkState = .idle) :
    ∃ fm', Pair One (hciH5SendSync s slip) r bin fin bm fm' := by
  show ∃ fm', Pair One
    (hciH5Send s slip hciH5PktTypeLinkCtrl (uint16ToBstream hciH5MsgSync ++ [])) r bin fin bm fm'
  rw [sendLink_eq s slip hciH5MsgSync [] (Nat.zero_le 1)]
  exact P.post slip (m := .sync) ⟨s.txAck, hrange.txAck_lt, rfl⟩ rfl (.inl rfl) (fun _ => hidle)
    fun h => False.elim h

theorem sendSyncRsp (P : Pair One s r bin fin bm fm) (hrange : s.InRange) :
    ∃ fm', Pair One (hciH5SendSyncRsp s slip) r bin fin bm fm' := by
  show ∃ fm', Pair One
    (hciH5Send s slip hciH5PktTypeLinkCtrl (uint16ToBstream hciH5MsgSyncRsp ++ [])) r bin fin bm fm'
  rw [sendLink_eq s slip hciH5MsgSyncRsp [] (Nat.zero_le 1)]
  exact P.post slip (m := .syncRsp) ⟨s.txAck, hrange.txAck_lt, rfl⟩ rfl (.inl rfl)
    (fun h => H5Msg.noConfusion h) fun h => False.elim h

/-- `HCI_H5_SendData` sends the next entry. -/
theorem sendData (P : Pair One s r bin fin bm fm) (hrange : s.InRange)
    (hactive : s.linkState = .active)
    (hused : s.Sends → s.txSlidWinSize < s.pHciTxFifo.used) :
    ∃ fm', Pair One (hciH5SendData s now slip) r bin fin bm fm' ∧
      ∀ k ∈ fm'.filterMap H5Msg.data?,
        k ∈ fm.filterMap H5Msg.data? ∨ k = s.history.released + s.txSlidWinSize := by
  have hwin := hrange.slidWinSize_le
  by_cases hsends : s.Sends
  · -- the slot behind the window is the next entry
    have hholds := P.out.fifo hactive
    have hlt := hused hsends
    rw [hholds.used_eq] at hlt
    have hk : s.history.released + s.txSlidWinSize < s.history.given.length := by omega
    have hget := List.getElem?_eq_getElem hk
    have hslot : hciH5TxSlot s = s.history.given[s.history.released + s.txSlidWinSize] := by
      rw [← hholds.slot_eq hk]
      unfold hciH5TxSlot
      rw [HciFifo.slotIdx_eq, HciFifo.slotIdx_eq]
      unfold u8
      rw [Nat.mod_mod_of_dvd _ s.pHciTxFifo.num_dvd]
    have hrel : hciH5IsReliablePacket s.nextType = true := by
      unfold HciH5Cb.nextType
      rw [hslot]
      exact P.out.reliable _ (List.getElem_mem hk)
    have hseq : nextSeq s.txSeq s.nextType = (s.txSeq + 1) % 8 := if_pos hrel
    cases slip with
    | false =>
      have hback : (nextSeq s.txSeq s.nextType + 8 - 1) % 8 = s.txSeq := by
        have := hrange.txSeq_lt
        rw [hseq]
        omega
      rw [sendData_refused hsends (by omega), hback]
      exact ⟨fm, ⟨{ P.out with }, { P.back with }⟩, fun k hk => .inl hk⟩
    | true =>
      rw [sendData_sent hsends (by omega)]
      -- the header is the one for this number
      have hhead : hciH5SendHead s s.nextType (slotPayload (hciH5TxSlot s)).length =
          dataHead (s.history.released + s.txSlidWinSize) s.history.put.length
            s.config.dataIntgrtChkType (hciH5TxSlot s) := by
        obtain ⟨-, hnack, hnlink, -⟩ := isDataType_of_reliable hrel
        have hcrc : s.nextType ≠ hciH5PktTypeAck ∧ s.nextType ≠ hciH5PktTypeLinkCtrl :=
          ⟨hnack, hnlink⟩
        unfold hciH5SendHead dataHead
        rw [if_pos hrel, if_pos hrel, if_pos hcrc, P.out.seq_eq, P.back.ack_eq]
        rfl
      rw [hhead, hslot]
      refine ⟨fm ++ [.pdu (.data (s.history.released + s.txSlidWinSize) s.history.put.length)],
        ⟨?_, (P.back.hear (.inr rfl)).receiver rfl rfl Iff.rfl⟩, fun k hk => ?_⟩
      · apply P.out.postData hactive hsends.1 hwin hrange.crc_le hget
        case hseq => exact hseq
        all_goals rfl
      · rw [List.filterMap_append] at hk
        exact (List.mem_append.mp hk).imp_right List.mem_singleton.mp
  · rw [sendData_of_not_sends hsends]
    exact ⟨fm, P, fun k hk => .inl hk⟩

/-! ## Polling -/

theorem rewound (P : Pair One s r bin fin bm fm)
    (hack : s.ResendDue now → s.rxAck = s.history.released % 8)
    (hone : One → s.txSlidWinSize = 0) : Pair One (s.rewound now) r bin fin bm fm := by
  unfold HciH5Cb.rewound
  split
  · rename_i hdue
    exact ⟨P.out.rewind (hack hdue) hone _, P.back.receiver rfl rfl Iff.rfl⟩
  · exact P

/-- With a window of any size, where a resend goes on from the oldest entry. -/
theorem pollTx (P : Pair One s r bin fin bm fm) (hrange : s.InRange)
    (hactive : s.linkState = .active) (hgo : s.GoesOn now) (hone : One → s.txSlidWinSize = 0) :
    ∃ fm', Pair One (hciH5PollTx s now slip) r bin fin bm fm' := by
  obtain ⟨hstate, -, hfifo, -⟩ := rewound_frame s now
  rw [pollTx_eq]
  split
  · exact ⟨fm, P⟩
  · obtain ⟨fm', hsent, -⟩ := (P.rewound now hgo.1 hone).sendData now slip
      hrange.rewound (hstate.trans hactive) fun hsends => by
        rw [hfifo]
        exact hgo.2 hsends
    exact ⟨fm', hsent⟩

/-- Without what is known of a window of one packet. -/
theorem forget (P : Pair One s r bin fin bm fm) : Pair False s r bin fin bm fm :=
  ⟨{ P.out with single := False.elim }, { P.back with single := False.elim }⟩

/-- With a window of one packet, a resend that is not refused goes on from the oldest entry,
and the window is as it was. -/
theorem pollTx_one (P : Pair One s r bin fin bm fm) (one : One) (hrange : s.InRange)
    (hactive : s.linkState = .active) (hslip : s.ResendDue now → slip = true) :
    ∃ fm', Pair One (hciH5PollTx s now slip) r bin fin bm fm' := by
  have hsingle := P.out.single one
  have hslid := P.out.slid_le
  have hwin := hsingle.win_le
  have hholds := P.out.fifo hactive
  have hused : s.pHciTxFifo.wptr ≠ s.pHciTxFifo.rptr → 0 < s.pHciTxFifo.used := by
    intro hne
    have hlen := mt hholds.empty_iff.mpr hne
    have hle := hholds.taken_le
    rw [hholds.used_eq]
    omega
  rcases Nat.eq_zero_or_pos s.txSlidWinSize with hzero | hpos
  · -- nothing is in flight
    refine P.pollTx now slip hrange hactive ⟨fun _ => hsingle.rxAck_eq, fun hsends => ?_⟩ fun _ => hzero
    have hrew : (s.rewound now).txSlidWinSize = 0 := by
      unfold HciH5Cb.rewound
      split
      · rfl
      · exact hzero
    have hne := hsends.2
    rw [hrew, (rewound_frame s now).2.2.1] at hne
    rw [hrew]
    exact hused hne
  · by_cases hdue : s.ResendDue now
    · -- the packet in flight goes out again
      obtain rfl := hslip hdue
      have hrew : s.rewound now = _ := if_pos hdue
      have hlen := P.out.window.sent_le
      have hne : s.pHciTxFifo.wptr ≠ s.pHciTxFifo.rptr := fun heq => by
        have hall := hholds.empty_iff.mp heq
        change s.history.released + s.txSlidWinSize ≤ s.history.given.length at hlen
        omega
      have hsends : (s.rewound now).Sends := by
        rw [hrew]
        exact ⟨show 0 < s.config.slidWinSize by omega, hne⟩
      have hsmall : (s.rewound now).config.slidWinSize < 256 := by
        rw [(rewound_frame s now).2.1]
        omega
      obtain ⟨fm', hsent, hdata⟩ := (P.forget.rewound now (fun _ => hsingle.rxAck_eq)
        False.elim).sendData now true hrange.rewound
        ((rewound_frame s now).1.trans hactive) fun _ => by
          rw [(rewound_frame s now).2.2.1, hrew]
          exact hused hne
      have hwaits : ¬ s.Waits now := fun h => h.1 hdue
      rw [pollTx_eq, if_neg hwaits]
      rw [sendData_sent hsends hsmall, hrew] at hsent ⊢
      rw [hrew] at hdata
      have htight : GoBackN.Tight s.history.released 1 r.history.put.length
          (fm'.filterMap H5Msg.data?) := by
        have htaken := hsingle.tight.taken_le
        refine ⟨by omega, fun k hk => ?_⟩
        rcases hdata k hk with hold | hnew
        · have := hsingle.tight.data_lt k hold
          omega
        · change k = s.history.released + 0 at hnew
          omega
      exact ⟨fm', { hsent.out with single := fun _ => { hsingle with tight := htight } },
        { hsent.back with single := P.back.single }⟩
    · -- the window is full
      have hrew : s.rewound now = s := if_neg hdue
      rw [pollTx_eq, hrew, sendData_of_not_sends fun h => by have := h.1; omega]
      split
      · exact ⟨fm, P⟩
      · exact ⟨fm, P⟩

theorem pollAck (P : Pair One s r bin fin bm fm) (hactive : s.linkState = .active) :
    ∃ fm', Pair One (hciH5PollAck s now slip) r bin fin bm fm' := by
  unfold hciH5PollAck
  split
  · have hquiet : Pair One { s with rxTick := 0 } r bin fin bm fm :=
      ⟨{ P.out with }, { P.back with }⟩
    obtain ⟨fm', hsent⟩ := hquiet.sendPureAck slip hactive
    exact ⟨fm', { hsent.out with }, { hsent.back with }⟩
  · exact ⟨fm, P⟩

theorem poll (P : Pair One s r bin fin bm fm) (hrange : s.InRange) (slipAck : Bool)
    (htx : s.linkState = .active → ∃ fm', Pair One (hciH5PollTx s now slip) r bin fin bm fm') :
    ∃ fm', Pair One (hciH5Poll s now slip slipAck) r bin fin bm fm' := by
  unfold hciH5Poll
  split
  · rename_i hidle
    split
    · obtain ⟨fm', hsent⟩ := P.sendSync slip hrange hidle
      exact ⟨fm', { hsent.out with }, { hsent.back with }⟩
    · exact ⟨fm, P⟩
  · rename_i hinit
    split
    · have hne : s.linkState ≠ .idle := by
        rw [hinit]
        decide
      obtain ⟨fm', hsent⟩ := P.sendConfigMsg slip hrange (.inl rfl) hne
      exact ⟨fm', { hsent.out with }, { hsent.back with }⟩
    · exact ⟨fm, P⟩
  · rename_i hactive
    obtain ⟨fm', hsent⟩ := htx hactive
    refine hsent.pollAck now slipAck ?_
    rw [(pollTx_frame s now slip).1]
    exact hactive

/-! ## Receiving -/

section Receive

variable (blcHciReset : HciFifo → HciFifo → HciFifo × HciFifo) {frame : List UInt8} {m : H5Msg}

/-- The oldest message in front of `s` is gone. -/
theorem skip (P : Pair One s r (frame :: bin) fin (m :: bm) fm) : Pair One s r bin fin bm fm where
  out := P.out.lose P.out.carried (List.Sublist.refl _) (List.sublist_cons_self m bm)
  back := P.back.lose (List.forall₂_cons.mp P.back.carried).2 (List.sublist_cons_self m bm)
    (List.Sublist.refl _)

theorem carries (P : Pair One s r (frame :: bin) fin (m :: bm) fm) : m.In r.history.given frame :=
  (List.forall₂_cons.mp P.back.carried).1

/-- A SYNC message finds no active end. -/
theorem sync (P : Pair One s r (frame :: bin) fin (.sync :: bm) fm) (hrange : s.InRange) :
    ∃ fm', Pair One (hciH5PacketHandler blcHciReset s now slip (mem frame) frame.length) r bin fin
      bm fm' := by
  obtain ⟨n, hn, rfl⟩ := P.carries
  obtain ⟨hkind, hmsg⟩ := receive_link hn hciH5MsgSync (by decide) [] (Nat.zero_le 1) s
  rw [packetHandler_linkCtrl hkind]
  unfold hciH5DecodeLinkPdu
  dsimp only
  rw [hmsg]
  cases hstate : s.linkState with
  | idle => exact P.skip.sendSyncRsp slip hrange
  | init => exact P.skip.sendSyncRsp slip hrange
  | active => exact absurd List.mem_cons_self (P.back.greeted hstate).2

/-- An idle end goes on to the configuration on SYNC_RSP. -/
theorem syncRsp (P : Pair One s r (frame :: bin) fin (.syncRsp :: bm) fm) (hrange : s.InRange) :
    ∃ fm', Pair One (hciH5PacketHandler blcHciReset s now slip (mem frame) frame.length) r bin fin
      bm fm' := by
  obtain ⟨n, hn, rfl⟩ := P.carries
  obtain ⟨hkind, hmsg⟩ := receive_link hn hciH5MsgSyncRsp (by decide) [] (Nat.zero_le 1) s
  rw [packetHandler_linkCtrl hkind]
  unfold hciH5DecodeLinkPdu
  dsimp only
  rw [hmsg]
  cases hstate : s.linkState with
  | idle =>
    have hinit : Pair One { s with linkState := .init } r bin fin bm fm :=
      ⟨{ P.skip.out with
          fifo := fun h => HciH5LinkState.noConfusion h
          quiet := fun _ => P.skip.out.quiet (by rw [hstate]; decide)
          idle := fun h => HciH5LinkState.noConfusion h
          greeted := fun h => absurd hstate (P.skip.out.greeted h).1 },
        P.skip.back.receiver rfl rfl
          ⟨fun h => HciH5LinkState.noConfusion h, fun h => by rw [hstate] at h; cases h⟩⟩
    exact hinit.sendConfigMsg slip { hrange with } (.inl rfl) (fun h => HciH5LinkState.noConfusion h)
  | init => exact ⟨fm, P.skip⟩
  | active => exact ⟨fm, P.skip⟩

/-- A CONFIG message is answered; on CONFIG_RSP an end becomes active that waits for it. -/
theorem config (P : Pair One s r (frame :: bin) fin (.pdu .config :: bm) fm) (hrange : s.InRange) :
    ∃ fm', Pair One (hciH5PacketHandler blcHciReset s now slip (mem frame) frame.length) r bin fin
      bm fm' := by
  obtain ⟨n, msg, byte, hn, hmsg, hframe⟩ := P.carries
  have hlt : msg < 65536 := by rcases hmsg with rfl | rfl <;> decide
  -- the peer left the idle state, so that no SYNC message follows
  have hpeer : r.linkState ≠ .idle := fun hidle =>
    P.back.idle hidle _ List.mem_cons_self trivial
  have hsync : .sync ∉ bm := fun hm =>
    (List.pairwise_cons.mp P.back.greet).1 _ hm rfl trivial
  obtain ⟨hkind, hread⟩ := receive_link hn msg hlt [byte] (Nat.le_refl 1) s
  have hlink : frame = linkFrame n msg [byte] := hframe
  rw [hlink, packetHandler_linkCtrl hkind]
  unfold hciH5DecodeLinkPdu
  dsimp only
  rw [hread]
  cases hstate : s.linkState with
  | idle =>
    rcases hmsg with rfl | rfl
    · exact P.skip.sendSync slip hrange hstate
    · exact P.skip.sendSync slip hrange hstate
  | init =>
    have hne : s.linkState ≠ .active := by
      rw [hstate]
      decide
    rcases hmsg with rfl | rfl
    · exact P.skip.sendConfigMsg slip hrange (.inr rfl) (by rw [hstate]; decide)
    · exact ⟨fm, P.skip.out.join hne now _, P.skip.back.joined hne hpeer hsync rfl rfl⟩
  | active =>
    rcases hmsg with rfl | rfl
    · exact P.skip.sendConfigMsg slip hrange (.inr rfl) (by rw [hstate]; decide)
    · exact ⟨fm, P.skip⟩

/-- Neither check of an acknowledgement number touches what the receiver counts. -/
theorem dataAck_taken (cb : HciH5Cb) (now ackNum : ℕ) :
    (hciH5DataAck cb now ackNum).history.put = cb.history.put ∧
      (hciH5DataAck cb now ackNum).txAck = cb.txAck ∧
      (hciH5DataAck cb now ackNum).linkState = cb.linkState := by
  unfold hciH5DataAck
  split <;> exact ⟨rfl, rfl, rfl⟩

theorem reSendCheck_taken (cb : HciH5Cb) (now : ℕ) :
    (hciH5ReSendCheck cb now).history.put = cb.history.put ∧
      (hciH5ReSendCheck cb now).txAck = cb.txAck ∧
      (hciH5ReSendCheck cb now).linkState = cb.linkState := by
  unfold hciH5ReSendCheck
  split <;> exact ⟨rfl, rfl, rfl⟩

/-- A pure ACK. -/
theorem ack {n : ℕ} (P : Pair One s r (frame :: bin) fin (.pdu (.ack n) :: bm) fm) :
    ∃ fm', Pair One (hciH5PacketHandler blcHciReset s now slip (mem frame) frame.length) r bin fin
      bm fm' := by
  have hframe : frame = pureAckFrame (n % 8) := P.carries
  have hn : n % 8 < 8 := Nat.mod_lt _ (by decide)
  refine ⟨fm, ?_⟩
  by_cases hactive : s.linkState = .active
  · obtain ⟨hkind, hnum⟩ := receive_ack hactive hn
    obtain ⟨acked, hacked⟩ := ack_eq_with s.history (n % 8)
    rw [hframe, packetHandler_pureAck hkind, hnum, hacked]
    have hread : Flow One { s with history := { s.history with acked := acked } } r fin fm
        (.pdu (.ack n) :: bm) := { P.out with }
    obtain ⟨hput, hack, hstate⟩ := reSendCheck_taken
      { s with rxAck := n % 8, history := { s.history with acked := acked } } now
    exact ⟨hread.reSendCheck rfl rfl now, P.skip.back.receiver hput hack (by rw [hstate])⟩
  · have htype : (hciH5UnpackHeader (mem frame)).pktType ≠ hciH5PktTypeLinkCtrl := by
      rw [hframe]
      rcases pktType_frame ⟨0, n % 8, 0, 0, hciH5PktTypeAck, 0, 0⟩ [] with h | h
      · rw [pureAckFrame, h]
        decide
      · rw [pureAckFrame, h]
        show hciH5PktTypeAck % 16 ≠ hciH5PktTypeLinkCtrl
        decide
    rw [packetHandler_dropped (kind_of_inactive hactive htype)]
    exact P.skip

/-- The frame of a packet that the receiver takes is followed by a pure ACK where the window
is full. -/
theorem rxSeqOk {slot : List UInt8} {n : ℕ}
    (P : Pair One s r (frame :: bin) fin (.pdu (.data s.history.put.length n) :: bm) fm)
    (hactive : s.linkState = .active)
    (hslot : r.history.given[s.history.put.length]? = some slot) {head : HciH5Head}
    {p : ℕ → UInt8} (hstored : rxSlot head p = packetOf slot) :
    ∃ fm', Flow One (hciH5RxSeqOk s now slip head p) r fin fm'
        (.pdu (.data s.history.put.length n) :: bm) ∧
      Flow One r (hciH5RxSeqOk s now slip head p) bin bm fm' := by
  have htaken : Flow One r (hciH5RxSeqOk s now slip head p) bin bm fm := by
    rw [rxSeqOk_eq]
    exact P.back.take hslot (by rw [hstored]) rfl hactive hactive
  rw [rxSeqOk_eq] at htaken ⊢
  by_cases hfull : s.AckFull ∧ slip = true
  · refine ⟨fm ++ [.pdu (.ack (s.history.put.length + 1))], ?_, htaken.hear (.inr ?_)⟩
    · have hframe : H5Msg.In s.history.given (pureAckFrame ((s.txAck + 1) % 8))
          (.pdu (.ack (s.history.put.length + 1))) := by
        show pureAckFrame _ = pureAckFrame _
        rw [P.back.ack_eq, Nat.mod_add_mod]
      have hsent := P.out.post hframe rfl (fun h => H5Msg.noConfusion h)
        (fun _ => by rw [hactive]; decide) false
      simp only [if_pos hfull]
      exact { hsent with }
    · show some (s.history.put.length + 1) = some (s.history.put ++ [_]).length
      rw [List.length_append, List.length_singleton]
  · simp only [if_neg hfull] at htaken ⊢
    exact ⟨fm, { P.out with }, htaken⟩

/-- A data frame. -/
theorem data {k n : ℕ} (P : Pair One s r (frame :: bin) fin (.pdu (.data k n) :: bm) fm) :
    ∃ fm', Pair One (hciH5PacketHandler blcHciReset s now slip (mem frame) frame.length) r bin fin
      bm fm' := by
  obtain ⟨slot, crc, hslot, hrel, hcrc, hframe⟩ := P.carries
  by_cases hactive : s.linkState = .active
  · rcases receive_data hactive k n hrel hcrc with hdropped | ⟨hkind, hnum, hstored⟩
    · rw [hframe, packetHandler_dropped hdropped]
      exact ⟨fm, P.skip⟩
    · obtain ⟨acked, hacked⟩ := ack_eq_with s.history (n % 8)
      have hread : Pair One { s with history := { s.history with acked := acked } } r (frame :: bin)
          fin (.pdu (.data k n) :: bm) fm := ⟨{ P.out with }, { P.back with }⟩
      rw [← hframe] at hkind hnum hstored
      by_cases hexp : k % 8 = s.txAck
      · -- its number modulo 8 is the expected one only if its number is
        obtain rfl := (P.back.expected_iff rfl).mp hexp
        rw [if_pos hexp] at hkind
        rw [packetHandler_expected hkind, hnum, hacked]
        obtain ⟨fm', hout, hback⟩ := hread.rxSeqOk now slip hactive hslot hstored
        obtain ⟨hput, hack, hstate⟩ := dataAck_taken (hciH5RxSeqOk
          { s with history := { s.history with acked := acked } } now slip
          (hciH5UnpackHeader (mem frame)) (mem frame)) now (n % 8)
        exact ⟨fm', hout.dataAck rfl rfl now, hback.receiver hput hack (by rw [hstate])⟩
      · rw [if_neg hexp] at hkind
        rw [packetHandler_unexpected hkind, hnum, hacked]
        obtain ⟨hput, hack, hstate⟩ := dataAck_taken (hciH5RxSeqError
          { s with history := { s.history with acked := acked } }
          (hciH5UnpackHeader (mem frame))) now (n % 8)
        have hout : Flow One
            (hciH5RxSeqError { s with history := { s.history with acked := acked } }
              (hciH5UnpackHeader (mem frame)))
            r fin fm (.pdu (.data k n) :: bm) := { P.out with }
        exact ⟨fm, hout.dataAck rfl rfl now, P.skip.back.receiver hput hack (by rw [hstate]; rfl)⟩
  · have htype : (hciH5UnpackHeader (mem frame)).pktType ≠ hciH5PktTypeLinkCtrl := by
      obtain ⟨-, -, hnlink, hlt⟩ := isDataType_of_reliable hrel
      rw [hframe]
      rcases pktType_frame (dataHead k n crc slot) (slotPayload slot) with h | h
      · rw [h]
        decide
      · rw [h]
        show slotType slot % 16 ≠ hciH5PktTypeLinkCtrl
        rwa [Nat.mod_eq_of_lt hlt]
    rw [packetHandler_dropped (kind_of_inactive hactive htype)]
    exact ⟨fm, P.skip⟩

/-- The oldest frame in front of `s` arrives. -/
theorem packet (P : Pair One s r (frame :: bin) fin (m :: bm) fm) (hrange : s.InRange) :
    ∃ fm', Pair One (hciH5PacketHandler blcHciReset s now slip (mem frame) frame.length) r bin fin
      bm fm' := by
  cases m with
  | sync => exact P.sync now slip blcHciReset hrange
  | syncRsp => exact P.syncRsp now slip blcHciReset hrange
  | pdu x =>
    cases x with
    | config => exact P.config now slip blcHciReset hrange
    | ack n => exact P.ack now slip blcHciReset
    | data k n => exact P.data now slip blcHciReset

end Receive

end Pair

end TlBleSdk.Hci
