import TlBleSdk.Hci.H5Config
import TlBleSdk.Lib.GoBackN

/-!
# One direction of an H5 link

What the endpoint `s` sends to the endpoint `r`: greetings while the link is established,
then the frames of an active link. `Flow` says how both control blocks and the frames under
way fit together; it refers to go-back-N over numbers that do not wrap. There is one lemma
for each thing that an endpoint does as the sender and as the receiver.
-/

namespace TlBleSdk.Hci

/-! ## The frames under way -/

/-- A frame under way. -/
inductive H5Msg
  | sync
  | syncRsp
  | pdu (x : Pdu)

namespace H5Msg

def data? : H5Msg → Option ℕ
  | pdu x => x.data?
  | _ => none

def ack? : H5Msg → Option ℕ
  | pdu x => x.ack?
  | _ => none

/-- The message is no greeting. -/
def IsPdu : H5Msg → Prop
  | pdu _ => True
  | _ => False

end H5Msg

/-- A link control frame with the bytes `rest` behind its message. -/
def linkFrame (n msg : ℕ) (rest : List UInt8) : List UInt8 :=
  hciH5Frame ⟨0, n, 0, 0, hciH5PktTypeLinkCtrl, 0, 2 + rest.length⟩ (uint16ToBstream msg ++ rest)

/-- The frame is the one for the message, where the host gave the entries `given`. -/
def H5Msg.In (given : List (List UInt8)) (frame : List UInt8) : H5Msg → Prop
  | sync => ∃ n < 8, frame = linkFrame n hciH5MsgSync []
  | syncRsp => ∃ n < 8, frame = linkFrame n hciH5MsgSyncRsp []
  | pdu x => Carries given frame x

theorem H5Msg.In.append {given : List (List UInt8)} {frame : List UInt8} {m : H5Msg}
    (h : m.In given frame) (more : List (List UInt8)) : m.In (given ++ more) frame := by
  cases m with
  | sync => exact h
  | syncRsp => exact h
  | pdu x => exact Carries.append h more

/-- Only a data frame depends on what the host gave. -/
theorem H5Msg.In.congr {given given' : List (List UInt8)} {frame : List UInt8} {m : H5Msg}
    (h : m.In given frame) (hdata : m.data? = none) : m.In given' frame := by
  cases m with
  | sync => exact h
  | syncRsp => exact h
  | pdu x =>
    cases x with
    | config => exact h
    | ack n => exact h
    | data k n => exact absurd hdata (Option.some_ne_none k)

/-- Where no data is under way, what the host gave does not matter. -/
theorem H5Msg.In.forall₂_congr {given given' : List (List UInt8)} {frames : List (List UInt8)}
    {msgs : List H5Msg} (h : List.Forall₂ (H5Msg.In given) frames msgs)
    (hdata : ∀ m ∈ msgs, m.data? = none) : List.Forall₂ (H5Msg.In given') frames msgs := by
  induction h with
  | nil => exact .nil
  | cons hin _ ih =>
    exact .cons (hin.congr (hdata _ List.mem_cons_self))
      (ih fun m hm => hdata m (List.mem_cons_of_mem _ hm))

/-- A link control frame arrives. -/
theorem receive_link {n : ℕ} (hn : n < 8) (msg : ℕ) (hmsg : msg < 65536) (rest : List UInt8)
    (hrest : rest.length ≤ 1) (cb : HciH5Cb) :
    let frame := linkFrame n msg rest
    cb.kind (mem frame) frame.length = .linkCtrl ∧
      bytesToUint16 (mem frame) hciH5HeadLen = msg := by
  have hfits : (HciH5Head.mk 0 n 0 0 hciH5PktTypeLinkCtrl 0 (2 + rest.length)).Fits :=
    ⟨Nat.zero_lt_succ 7, hn, Nat.zero_le _, Nat.zero_le _, Nat.lt_succ_self 15⟩
  have hread : bytesToUint16 (mem (linkFrame n msg rest)) hciH5HeadLen = msg :=
    (bytesToUint16_frame rfl hmsg hrest rfl).1
  have hlen : (uint16ToBstream msg ++ rest).length = 2 + rest.length := List.length_append
  have hhead := headLen_le_frame (HciH5Head.mk 0 n 0 0 hciH5PktTypeLinkCtrl 0 (2 + rest.length))
    (uint16ToBstream msg ++ rest) (by omega)
  have hgot := unpackHeader_frame (uint16ToBstream msg ++ rest) hfits hhead
  have hsum := checkSumValid_frame hfits hhead
  have hvalid := (lenValid_frame (uint16ToBstream msg ++ rest) hfits
    (show 2 + rest.length = u16 _ by rw [hlen, u16_of_lt (by omega)])).mpr
    (by rw [hlen]; omega)
  refine ⟨?_, hread⟩
  unfold HciH5Cb.kind linkFrame
  dsimp only
  rw [hsum, hvalid, hgot.pktType_eq]
  rfl

/-! ## The invariant -/

/-- With a window of one packet: the window is never narrowed, and a resend starts at the
oldest entry. -/
structure Single (base slid taken rxAck win own : ℕ) (data : List ℕ) : Prop where
  tight : GoBackN.Tight base slid taken data
  rxAck_eq : rxAck = base % 8
  win_le : win ≤ 1
  own_le : own ≤ 1

/-- The direction from `s` to `r`, with the frames `inbox` in front of `r`; `msgs` is what is
under way to `r` and `back` what is under way to `s`. `One` says that the window is one
packet, and that no resend was refused. -/
structure Flow (One : Prop) (s r : HciH5Cb) (inbox : List (List UInt8))
    (msgs back : List H5Msg) : Prop where
  carried : List.Forall₂ (H5Msg.In s.history.given) (inbox ++ s.uartTx) msgs
  window : GoBackN.Inv 7 ⟨s.history.given.length, s.history.released, s.txSlidWinSize,
    r.history.put.length, msgs.filterMap H5Msg.data?, back.filterMap H5Msg.ack?⟩
  seq_eq : s.txSeq = (s.history.released + s.txSlidWinSize) % 8
  ack_eq : r.txAck = r.history.put.length % 8
  fifo : s.linkState = .active → s.pHciTxFifo.Holds s.history.given s.history.released
  reliable : ∀ slot ∈ s.history.given, hciH5IsReliablePacket (slotType slot) = true
  put_eq : r.history.put = (s.history.given.take r.history.put.length).map packetOf
  slid_le : s.txSlidWinSize ≤ s.config.slidWinSize
  /-- An end that is not active sent no data. -/
  quiet : s.linkState ≠ .active → s.history.released = 0 ∧ s.txSlidWinSize = 0 ∧
    r.history.put = [] ∧ ∀ m ∈ msgs, m.data? = none
  /-- An end that is not active took none. -/
  unheard : r.linkState ≠ .active → r.history.put = []
  /-- SYNC is sent in the idle state only, which an end never returns to. -/
  greet : msgs.Pairwise fun m m' => m' = .sync → ¬ m.IsPdu
  idle : s.linkState = .idle → ∀ m ∈ msgs, ¬ m.IsPdu
  greeted : r.linkState = .active → s.linkState ≠ .idle ∧ .sync ∉ msgs
  single : One → Single s.history.released s.txSlidWinSize r.history.put.length s.rxAck
    s.config.slidWinSize s.hciH5Config.slidWinSize (msgs.filterMap H5Msg.data?)

namespace Flow

variable {One : Prop} {s r : HciH5Cb} {inbox : List (List UInt8)} {msgs back : List H5Msg}

/-! ## The sender -/

/-- The host gives an entry. -/
theorem give (h : Flow One s r inbox msgs back) {slot : List UInt8}
    (hrel : hciH5IsReliablePacket (slotType slot) = true)
    (hroom : s.pHciTxFifo.used < s.pHciTxFifo.num) :
    Flow One (hostTx s slot) r inbox msgs back :=
  { h with
    carried := h.carried.imp fun _ _ hm => hm.append [slot]
    window := by
      have hgive := h.window.give
      show GoBackN.Inv 7 ⟨(s.history.given ++ [slot]).length, _, _, _, _, _⟩
      rwa [List.length_append, List.length_singleton]
    fifo := fun hactive => by
      have hholds := h.fifo hactive
      have hused := hholds.used_eq
      exact hholds.push (by omega) slot
    reliable := fun e he => by
      rcases List.mem_append.mp he with he | he
      · exact h.reliable e he
      · rwa [List.mem_singleton.mp he]
    put_eq := by
      show r.history.put = ((s.history.given ++ [slot]).take r.history.put.length).map packetOf
      rw [List.take_append_of_le_length h.window.taken_le_given]
      exact h.put_eq }

/-- A resend starts over at the oldest entry. -/
theorem rewind (h : Flow One s r inbox msgs back) (hack : s.rxAck = s.history.released % 8)
    (hone : One → s.txSlidWinSize = 0) (txTick : ℕ) :
    Flow One { s with txSeq := s.rxAck, txSlidWinSize := 0, resendTick := 0, txTick := txTick } r
      inbox msgs back :=
  { h with
    window := h.window.rewind
    seq_eq := hack
    slid_le := Nat.zero_le _
    quiet := fun hstate => ⟨(h.quiet hstate).1, rfl, (h.quiet hstate).2.2⟩
    single := fun one => by
      have hsingle := h.single one
      rw [hone one] at hsingle
      exact hsingle }

/-- A message without data goes out. -/
theorem post (h : Flow One s r inbox msgs back) {frame : List UInt8} {m : H5Msg}
    (hin : m.In s.history.given frame) (hdata : m.data? = none)
    (hsync : m = .sync → s.linkState = .idle) (hpdu : m.IsPdu → s.linkState ≠ .idle)
    (owed : Bool) :
    Flow One { s with uartTx := s.uartTx ++ [frame], history := { s.history with owed := owed } } r
      inbox (msgs ++ [m]) back :=
  { h with
    carried := by
      show List.Forall₂ (H5Msg.In s.history.given) (inbox ++ (s.uartTx ++ [frame])) (msgs ++ [m])
      rw [← List.append_assoc]
      exact List.rel_append h.carried (.cons hin .nil)
    window := by
      rw [List.filterMap_append, List.filterMap_cons, hdata, List.filterMap_nil, List.append_nil]
      exact h.window
    quiet := fun hstate => by
      obtain ⟨hrel, hslid, hput, hmsgs⟩ := h.quiet hstate
      refine ⟨hrel, hslid, hput, fun m' hm' => ?_⟩
      rcases List.mem_append.mp hm' with hm' | hm'
      · exact hmsgs m' hm'
      · rwa [List.mem_singleton.mp hm']
    greet := by
      rw [List.pairwise_append]
      refine ⟨h.greet, List.pairwise_singleton _ _, fun m₁ hm₁ m₂ hm₂ heq => ?_⟩
      rw [List.mem_singleton.mp hm₂] at heq
      exact h.idle (hsync heq) m₁ hm₁
    idle := fun hidle m' hm' => by
      rcases List.mem_append.mp hm' with hm' | hm'
      · exact h.idle hidle m' hm'
      · rw [List.mem_singleton.mp hm']
        exact fun hm => hpdu hm hidle
    greeted := fun hactive => by
      obtain ⟨hne, hmem⟩ := h.greeted hactive
      refine ⟨hne, fun hm => ?_⟩
      rcases List.mem_append.mp hm with hm | hm
      · exact hmem hm
      · exact hne (hsync (List.mem_singleton.mp hm).symm)
    single := by
      rw [List.filterMap_append, List.filterMap_cons, hdata, List.filterMap_nil, List.append_nil]
      exact h.single }

/-- The next entry goes out, with the number `n` of the packets taken. -/
theorem postData (h : Flow One s r inbox msgs back) (hactive : s.linkState = .active)
    (hslid : s.txSlidWinSize < s.config.slidWinSize) (hwin : s.config.slidWinSize ≤ 7)
    {slot : List UInt8} {n crc : ℕ} (hcrc : crc ≤ 1)
    (hslot : s.history.given[s.history.released + s.txSlidWinSize]? = some slot) {s' : HciH5Cb}
    (hgiven : s'.history.given = s.history.given)
    (hreleased : s'.history.released = s.history.released)
    (hslid' : s'.txSlidWinSize = s.txSlidWinSize + 1) (hseq : s'.txSeq = (s.txSeq + 1) % 8)
    (hstate : s'.linkState = s.linkState) (hfifo : s'.pHciTxFifo = s.pHciTxFifo)
    (hconfig : s'.config = s.config) (hrxAck : s'.rxAck = s.rxAck)
    (hown : s'.hciH5Config = s.hciH5Config)
    (huart : s'.uartTx = s.uartTx ++ [hciH5Frame
      (dataHead (s.history.released + s.txSlidWinSize) n crc slot) (slotPayload slot)]) :
    Flow One s' r inbox
      (msgs ++ [.pdu (.data (s.history.released + s.txSlidWinSize) n)]) back := by
  obtain ⟨hlt, heq⟩ := List.getElem?_eq_some_iff.mp hslot
  have hrel := h.reliable slot (heq ▸ List.getElem_mem hlt)
  constructor
  case carried =>
    rw [hgiven, huart, ← List.append_assoc]
    exact List.rel_append h.carried (.cons ⟨slot, crc, hslot, hrel, hcrc, rfl⟩ .nil)
  case window =>
    rw [hgiven, hreleased, hslid', List.filterMap_append]
    exact h.window.send (show s.txSlidWinSize < 7 by omega) hlt
  case seq_eq =>
    have := h.seq_eq
    rw [hseq, hreleased, hslid']
    omega
  case ack_eq => exact h.ack_eq
  case fifo =>
    rw [hstate, hfifo, hgiven, hreleased]
    exact h.fifo
  case reliable =>
    rw [hgiven]
    exact h.reliable
  case put_eq =>
    rw [hgiven]
    exact h.put_eq
  case slid_le =>
    rw [hslid', hconfig]
    exact hslid
  case quiet => exact fun hne => absurd (hstate.trans hactive) hne
  case unheard => exact h.unheard
  case greet =>
    rw [List.pairwise_append]
    refine ⟨h.greet, List.pairwise_singleton _ _, fun m₁ _ m₂ hm₂ heq => ?_⟩
    rw [List.mem_singleton.mp hm₂] at heq
    exact H5Msg.noConfusion heq
  case idle =>
    intro hidle
    rw [hstate, hactive] at hidle
    exact HciH5LinkState.noConfusion hidle
  case greeted =>
    intro hr
    obtain ⟨hne, hmem⟩ := h.greeted hr
    rw [hstate]
    refine ⟨hne, fun hm => ?_⟩
    rcases List.mem_append.mp hm with hm | hm
    · exact hmem hm
    · exact H5Msg.noConfusion (List.mem_singleton.mp hm)
  case single =>
    intro one
    rw [hreleased, hslid', hrxAck, hconfig, hown, List.filterMap_append]
    exact { h.single one with tight := (h.single one).tight.send }

/-- Messages get lost, in either direction. -/
theorem lose (h : Flow One s r inbox msgs back) {inbox' : List (List UInt8)}
    {msgs' back' : List H5Msg}
    (hcarried : List.Forall₂ (H5Msg.In s.history.given) (inbox' ++ s.uartTx) msgs')
    (hmsgs : msgs'.Sublist msgs) (hback : back'.Sublist back) : Flow One s r inbox' msgs' back' :=
  { h with
    carried := hcarried
    window := (h.window.loseData (hmsgs.filterMap _)).loseAcks (hback.filterMap _)
    quiet := fun hstate => by
      obtain ⟨hrel, hslid, hput, hmsgs'⟩ := h.quiet hstate
      exact ⟨hrel, hslid, hput, fun m hm => hmsgs' m (hmsgs.subset hm)⟩
    greet := h.greet.sublist hmsgs
    idle := fun hidle m hm => h.idle hidle m (hmsgs.subset hm)
    greeted := fun hactive =>
      ⟨(h.greeted hactive).1, fun hm => (h.greeted hactive).2 (hmsgs.subset hm)⟩
    single := fun one =>
      { h.single one with tight := (h.single one).tight.loseData (hmsgs.filterMap _) } }

/-- The acknowledgement of the whole window releases it. -/
theorem release (h : Flow One s r inbox msgs back) {m : H5Msg} {rest : List H5Msg} {n : ℕ}
    (hback : back = m :: rest) (hm : m.ack? = some n) (hn : n % 8 = s.txSeq) :
    Flow One (hciH5Release { s with rxAck := n % 8 }) r inbox msgs rest := by
  have hwin := h.window
  rw [hback, List.filterMap_cons, hm] at hwin
  dsimp only at hwin
  -- the number is that of the whole window
  obtain rfl : n = s.history.released + s.txSlidWinSize :=
    (hwin.ack_mod_iff (show 7 < 8 by decide) rfl).mp (hn.trans h.seq_eq)
  exact
    { h with
      window := hwin.release rfl
      seq_eq := h.seq_eq
      fifo := fun hactive => (h.fifo hactive).drop hwin.sent_le
      slid_le := Nat.zero_le _
      quiet := fun hstate => by
        obtain ⟨hrel, hslid, hput⟩ := h.quiet hstate
        refine ⟨?_, rfl, hput⟩
        show s.history.released + s.txSlidWinSize = 0
        omega
      single := fun one =>
        { h.single one with
          tight := (h.single one).tight.release
          rxAck_eq := rfl } }

/-- The acknowledgement number of a data frame. -/
theorem dataAck (h : Flow One s r inbox msgs back) {m : H5Msg} {rest : List H5Msg} {n : ℕ}
    (hback : back = m :: rest) (hm : m.ack? = some n) (now : ℕ) :
    Flow One (hciH5DataAck s now (n % 8)) r inbox msgs rest := by
  have hlost : Flow One s r inbox msgs rest :=
    h.lose h.carried (List.Sublist.refl _) (hback ▸ List.sublist_cons_self m rest)
  unfold hciH5DataAck
  split
  · rename_i hall
    exact h.release hback hm hall
  · exact { hlost with }

/-- The acknowledgement number of a pure ACK. -/
theorem reSendCheck (h : Flow One s r inbox msgs back) {m : H5Msg} {rest : List H5Msg} {n : ℕ}
    (hback : back = m :: rest) (hm : m.ack? = some n) (now : ℕ) :
    Flow One (hciH5ReSendCheck { s with rxAck := n % 8 } now) r inbox msgs rest := by
  have hlost : Flow One s r inbox msgs rest :=
    h.lose h.carried (List.Sublist.refl _) (hback ▸ List.sublist_cons_self m rest)
  unfold hciH5ReSendCheck
  split
  · rename_i hall
    exact h.release hback hm hall
  · rename_i hnot
    exact
      { hlost with
        single := fun one => by
          -- of a window of one packet, what is not all of it is nothing
          have hmem : n ∈ back.filterMap H5Msg.ack? := by
            rw [hback, List.filterMap_cons, hm]
            exact List.mem_cons_self
          have hbounds : s.history.released ≤ n ∧ n ≤ r.history.put.length :=
            h.window.acks_mem n hmem
          have hsingle := h.single one
          have htaken := hsingle.tight.taken_le
          have hwin := hsingle.win_le
          have hslid := h.slid_le
          have hseq := h.seq_eq
          have hn : n % 8 ≠ s.txSeq := hnot
          have heq : n = s.history.released := by
            rcases Nat.lt_or_ge s.history.released n with hlt | hge'
            · exact absurd (by rw [hseq]; congr 1; omega) hn
            · omega
          exact { hsingle with rxAck_eq := by rw [heq] } }

/-- The sender becomes active: its FIFO and its counters start over. -/
theorem join (h : Flow One s r inbox msgs back) (hstate : s.linkState ≠ .active) (now cfg : ℕ) :
    Flow One
      { hciH5Reset { s with linkState := .active } now with
        config := hciH5Negotiate s.hciH5Config cfg }
      r inbox msgs back := by
  obtain ⟨hrel, hslid, hput, hdata⟩ := h.quiet hstate
  have hnone : msgs.filterMap H5Msg.data? = [] := List.filterMap_eq_nil_iff.mpr hdata
  have hacks : ∀ a ∈ back.filterMap H5Msg.ack?, 0 ≤ a ∧ a ≤ r.history.put.length := fun a ha =>
    ⟨Nat.zero_le a, (h.window.acks_mem a ha).2⟩
  exact
    { carried := H5Msg.In.forall₂_congr h.carried hdata
      window := by
        rw [hnone, hput] at *
        exact
          { GoBackN.Inv.start 7 with
            acks_mem := hacks
            acks_sorted := h.window.acks_sorted }
      seq_eq := rfl
      ack_eq := h.ack_eq
      fifo := fun _ => ⟨rfl, rfl, le_rfl, Nat.zero_le _, fun i hi => absurd hi (Nat.not_lt_zero i)⟩
      reliable := fun _ he => absurd he List.not_mem_nil
      put_eq := by
        rw [hput]
        rfl
      slid_le := Nat.zero_le _
      quiet := fun hne => absurd rfl hne
      unheard := h.unheard
      greet := h.greet
      idle := fun hidle => HciH5LinkState.noConfusion hidle
      greeted := fun hactive =>
        ⟨fun hidle => HciH5LinkState.noConfusion hidle, (h.greeted hactive).2⟩
      single := fun one => by
        rw [hnone, hput]
        have hown := (h.single one).own_le
        exact
          { tight := ⟨Nat.zero_le _, fun k hk => absurd hk List.not_mem_nil⟩
            rxAck_eq := rfl
            win_le := (Nat.min_le_left _ _).trans hown
            own_le := hown } }

/-! ## The receiver -/

/-- The receiver sends a message, with the number of the packets it took if it acknowledges. -/
theorem hear (h : Flow One s r inbox msgs back) {m : H5Msg}
    (hm : m.ack? = none ∨ m.ack? = some r.history.put.length) :
    Flow One s r inbox msgs (back ++ [m]) :=
  { h with
    window := by
      rw [List.filterMap_append, List.filterMap_cons]
      rcases hm with hm | hm
      · rw [hm, List.filterMap_nil, List.append_nil]
        exact h.window
      · rw [hm]
        exact h.window.ack }

/-- Other fields of the receiver change. -/
theorem receiver (h : Flow One s r inbox msgs back) {r' : HciH5Cb}
    (hput : r'.history.put = r.history.put) (hack : r'.txAck = r.txAck)
    (hstate : r'.linkState = .active ↔ r.linkState = .active) : Flow One s r' inbox msgs back where
  carried := h.carried
  window := by
    rw [hput]
    exact h.window
  seq_eq := h.seq_eq
  ack_eq := by
    rw [hput, hack]
    exact h.ack_eq
  fifo := h.fifo
  reliable := h.reliable
  put_eq := by
    rw [hput]
    exact h.put_eq
  slid_le := h.slid_le
  quiet := by
    rw [hput]
    exact h.quiet
  unheard hne := by
    rw [hput]
    exact h.unheard fun hactive => hne (hstate.mpr hactive)
  greet := h.greet
  idle := h.idle
  greeted hactive := h.greeted (hstate.mp hactive)
  single := by
    rw [hput]
    exact h.single

/-- The receiver becomes active. -/
theorem joined (h : Flow One s r inbox msgs back) (hstate : r.linkState ≠ .active)
    (hidle : s.linkState ≠ .idle) (hsync : .sync ∉ msgs) {r' : HciH5Cb}
    (hput : r'.history.put = []) (hack : r'.txAck = 0) : Flow One s r' inbox msgs back := by
  have hnone := h.unheard hstate
  have hwin := h.window
  have hquiet := h.quiet
  have hsingle := h.single
  rw [hnone] at hwin hquiet hsingle
  exact
    { h with
      window := by
        rw [hput]
        exact hwin
      ack_eq := by
        rw [hput, hack]
        rfl
      put_eq := by
        rw [hput]
        rfl
      quiet := by
        rw [hput]
        exact hquiet
      unheard := fun _ => hput
      greeted := fun _ => ⟨hidle, hsync⟩
      single := by
        rw [hput]
        exact hsingle }

/-- The number of a data frame decides as it would in full. -/
theorem expected_iff {frame : List UInt8} {rest : List H5Msg} {m : H5Msg} {k : ℕ}
    (h : Flow One s r (frame :: inbox) (m :: rest) back) (hm : m.data? = some k) :
    k % 8 = r.txAck ↔ k = r.history.put.length := by
  rw [h.ack_eq]
  have hdata : (m :: rest).filterMap H5Msg.data? = k :: rest.filterMap H5Msg.data? :=
    List.filterMap_cons_some hm
  exact h.window.data_mod_iff (show 7 < 8 by decide) hdata

/-- The expected packet is taken. -/
theorem take {frame slot : List UInt8} {rest : List H5Msg} {n : ℕ}
    (h : Flow One s r (frame :: inbox) (.pdu (.data r.history.put.length n) :: rest) back)
    (hslot : s.history.given[r.history.put.length]? = some slot) {r' : HciH5Cb}
    (hput : r'.history.put = r.history.put ++ [packetOf slot])
    (hack : r'.txAck = (r.txAck + 1) % 8)
    (hstate : r'.linkState = .active) (hactive : r.linkState = .active) :
    Flow One s r' inbox rest back := by
  have hlen : r'.history.put.length = r.history.put.length + 1 := by
    rw [hput, List.length_append, List.length_singleton]
  have htail : List.Forall₂ (H5Msg.In s.history.given) (inbox ++ s.uartTx) rest :=
    (List.forall₂_cons.mp h.carried).2
  have hlost : Flow One s r inbox rest back :=
    h.lose htail (List.sublist_cons_self _ _) (List.Sublist.refl _)
  exact
    { hlost with
      window := by
        rw [hlen]
        exact h.window.take rfl
      ack_eq := by
        have := h.ack_eq
        rw [hlen, hack]
        omega
      put_eq := by
        rw [hlen, List.take_add_one, hslot, List.map_append, ← h.put_eq]
        exact hput
      quiet := fun hne => by
        -- a sender that is not active sent no data
        have hdata := (h.quiet hne).2.2.2 _ List.mem_cons_self
        exact absurd hdata (Option.some_ne_none _)
      unheard := fun hne => absurd hstate hne
      greeted := fun _ => hlost.greeted hactive
      single := fun one => by
        rw [hlen]
        exact { h.single one with tight := (h.single one).tight.take } }

end Flow

end TlBleSdk.Hci
