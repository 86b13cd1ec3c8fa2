import TlBleSdk.Hci.H5Config
import TlBleSdk.Lib.Run
import TlBleSdk.Lib.Stamped

/-!
# Two H5 endpoints

Two endpoints, each with its static configuration, joined by one FIFO channel in each
direction. A channel loses frames but does not reorder them. Either endpoint may be
initialised again at any time.

A session of an endpoint ends with `HCI_H5_Init`, or with a SYNC message in the active
state. A frame is stamped with the session its receiver is in when it is sent.
-/

namespace TlBleSdk.Hci

/-! ## One end of the link -/

/-- An endpoint and the frames in flight to it. -/
structure H5End where
  cb : HciH5Cb
  /-- The sessions that ended. -/
  session : ℕ
  /-- The stamp of the CONFIG_RSP message on which it became active last. -/
  joined : ℕ
  inbox : List (Stamped (List UInt8))

/-- What happens at one end. -/
inductive H5EndEvent
  | poll (now : ℕ) (slip slipAck : Bool)
  /-- The oldest frame in flight arrives. -/
  | deliver (now : ℕ) (slip : Bool)
  /-- The frame at position `i` gets lost. -/
  | lose (i : ℕ)
  | init (now : ℕ)
  | hostTx (slot : List UInt8)
  | hostRx

section Stack

variable (blcHciReset : HciFifo → HciFifo → HciFifo × HciFifo)

/-- The frame `m` arrives, and `rest` stays in flight. -/
def H5End.receive (e : H5End) (now : ℕ) (slip : Bool) (m : Stamped (List UInt8))
    (rest : List (Stamped (List UInt8))) : H5End :=
  let cb := hciH5PacketHandler blcHciReset e.cb now slip (mem m.msg) m.msg.length
  { cb := cb
    session := if e.cb.linkState = .active ∧ cb.linkState ≠ .active then e.session + 1
      else e.session
    joined := if e.cb.linkState ≠ .active ∧ cb.linkState = .active then m.stamp else e.joined
    inbox := rest }

/-- One step of one end. What it sends is left in `cb.uartTx`. -/
def H5End.step (e : H5End) : H5EndEvent → H5End
  | .poll now slip slipAck => { e with cb := hciH5Poll e.cb now slip slipAck }
  | .deliver now slip =>
    match e.inbox with
    | [] => e
    | m :: rest => e.receive blcHciReset now slip m rest
  | .lose i => { e with inbox := e.inbox.eraseIdx i }
  | .init now => { e with cb := hciH5InitAgain e.cb now, session := e.session + 1 }
  | .hostTx slot => { e with cb := hostTx e.cb slot }
  | .hostRx => { e with cb := hciRxHandler e.cb }

/-- What was sent is on its way. -/
def H5End.drain (e : H5End) : H5End := { e with cb := { e.cb with uartTx := [] } }

/-- The peer sent `frames`. -/
def H5End.push (e : H5End) (frames : List (List UInt8)) : H5End :=
  { e with inbox := e.inbox ++ Stamped.send e.session frames }

end Stack

/-! ## The link -/

/-- The two ends. -/
inductive Side
  | left | right
deriving DecidableEq

def Side.peer : Side → Side
  | left => right
  | right => left

abbrev H5Link := Side → H5End

/-- One step of the link, at `i.1`. -/
def H5Link.step (blcHciReset : Side → HciFifo → HciFifo → HciFifo × HciFifo) (link : H5Link)
    (i : Side × H5EndEvent) : H5Link :=
  let e := (link i.1).step (blcHciReset i.1) i.2
  fun side => if side = i.1 then e.drain else (link side).push e.cb.uartTx

/-- Both ends behind their first `HCI_H5_Init`. -/
def H5Link.start (own : Side → HciH5Config) (rx tx : Side → HciFifo) (now : Side → ℕ) : H5Link :=
  fun side => ⟨hciH5Init (own side) (rx side) (tx side) (now side), 0, 0, []⟩

/-- A frame that is no link control packet: a data frame or a pure ACK. -/
def IsDataFrame (frame : List UInt8) : Prop :=
  (hciH5UnpackHeader (mem frame)).pktType ≠ hciH5PktTypeLinkCtrl

/-- Where both ends are active, both use what the two static configurations support. -/
def H5Link.Agrees (own : Side → HciH5Config) (link : H5Link) : Prop :=
  (∀ side, (link side).cb.linkState = .active) →
    ∀ side, (link side).cb.config = (own .left).meet (own .right)

/-- No data or ack frame of an earlier session changes the state of its receiver. -/
def H5End.Separate (blcHciReset : HciFifo → HciFifo → HciFifo × HciFifo) (e : H5End) : Prop :=
  ∀ m rest now slip, e.inbox = m :: rest → IsDataFrame m.msg → m.stamp < e.session →
    (e.receive blcHciReset now slip m rest).cb = e.cb

/-- The host puts no link control packet into `pHciTxFifo`. -/
def H5EndEvent.HostOk : H5EndEvent → Prop
  | .hostTx slot => slotType slot % 16 ≠ hciH5PktTypeLinkCtrl
  | _ => True

instance (e : H5EndEvent) : Decidable e.HostOk := by
  unfold H5EndEvent.HostOk
  cases e <;> infer_instance

/-! ## What a step keeps -/

/-- An end whose control block is sound, whose peer's frames in flight are honest, and whose
frames in flight are no older than the CONFIG_RSP message on which it became active. -/
structure H5End.Inv (own peer : HciH5Config) (e : H5End) : Prop where
  sound : H5Sound own peer e.cb
  honest : ∀ m ∈ e.inbox, HonestFrame peer m.msg
  fifo : Stamped.Between 0 e.session e.inbox
  joined : e.cb.linkState = .active → Stamped.Between e.joined e.session e.inbox

/-- `HCI_H5_Poll` does not change the link state. -/
theorem poll_linkState (cb : HciH5Cb) (now : ℕ) (slip slipAck : Bool) :
    (hciH5Poll cb now slip slipAck).linkState = cb.linkState := by
  have hack (cb : HciH5Cb) : (hciH5PollAck cb now slipAck).linkState = cb.linkState := by
    unfold hciH5PollAck
    split <;> rfl
  unfold hciH5Poll
  split
  · split <;> rfl
  · split <;> rfl
  · rw [hack]
    exact (pollTx_frame cb now slip).1

namespace H5End.Inv

variable {own peer : HciH5Config} {e : H5End}

/-- The other fields of the control block may change. -/
theorem withCb (h : e.Inv own peer) {cb : HciH5Cb} (hcb : H5Sound own peer cb)
    (hstate : cb.linkState = .active → e.cb.linkState = .active) :
    H5End.Inv own peer { e with cb := cb } :=
  ⟨hcb, h.honest, h.fifo, fun hactive => h.joined (hstate hactive)⟩

theorem drain (h : e.Inv own peer) : e.drain.Inv own peer := h.withCb h.sound.drain id

/-- The peer sends only honest frames. -/
theorem push (h : e.Inv own peer) {frames : List (List UInt8)}
    (hframes : ∀ frame ∈ frames, HonestFrame peer frame) : (e.push frames).Inv own peer where
  sound := h.sound
  honest m hm := by
    rcases List.mem_append.mp hm with hm | hm
    · exact h.honest m hm
    · exact hframes m.msg (Stamped.mem_send hm).2
  fifo := h.fifo.append frames
  joined hactive := (h.joined hactive).append frames

theorem lose (h : e.Inv own peer) (i : ℕ) :
    H5End.Inv own peer { e with inbox := e.inbox.eraseIdx i } where
  sound := h.sound
  honest m hm := h.honest m (List.mem_of_mem_eraseIdx hm)
  fifo := h.fifo.sublist (List.eraseIdx_sublist _ i)
  joined hactive := (h.joined hactive).sublist (List.eraseIdx_sublist _ i)

/-- Behind the CONFIG_RSP message on which an end becomes active, no older frame is in
flight. -/
theorem receive {blcHciReset : HciFifo → HciFifo → HciFifo × HciFifo}
    (hreset : ∀ rx tx, tx.NoLinkCtrl → (blcHciReset rx tx).2.NoLinkCtrl)
    (hpeer : peer.Fits) (h : e.Inv own peer) {m : Stamped (List UInt8)}
    {rest : List (Stamped (List UInt8))} (hinbox : e.inbox = m :: rest) (now : ℕ) (slip : Bool) :
    (e.receive blcHciReset now slip m rest).Inv own peer := by
  have hfifo := h.fifo
  have hjoined := h.joined
  rw [hinbox] at hfifo hjoined
  have hm : HonestFrame peer m.msg := h.honest m (hinbox ▸ List.mem_cons_self)
  refine ⟨h.sound.packetHandler hreset hpeer hm, fun m' hm' => h.honest m' ?_, ?_, ?_⟩
  · rw [hinbox]
    exact List.mem_cons_of_mem m hm'
  · unfold H5End.receive
    dsimp only
    split
    · exact hfifo.tail.next
    · exact hfifo.tail
  · unfold H5End.receive
    dsimp only
    intro hactive
    by_cases hbefore : e.cb.linkState = .active
    · -- The session goes on, with one frame less in flight.
      rw [if_neg fun hjoin => absurd hbefore hjoin.1, if_neg fun hend => hend.2 hactive]
      exact (hjoined hbefore).tail
    · -- The frames behind the message are at least as young as it is.
      rw [if_pos ⟨hbefore, hactive⟩, if_neg fun hend => hend.2 hactive]
      exact hfifo.pop

theorem step {blcHciReset : HciFifo → HciFifo → HciFifo × HciFifo}
    (hreset : ∀ rx tx, tx.NoLinkCtrl → (blcHciReset rx tx).2.NoLinkCtrl)
    (hpeer : peer.Fits) (h : e.Inv own peer) {i : H5EndEvent} (hi : i.HostOk) :
    (e.step blcHciReset i).Inv own peer := by
  cases i with
  | poll now slip slipAck =>
    refine h.withCb (h.sound.poll slipAck) fun hactive => ?_
    rwa [poll_linkState] at hactive
  | deliver now slip =>
    unfold H5End.step
    dsimp only
    split
    · exact h
    · exact h.receive hreset hpeer (by assumption) now slip
  | lose i => exact h.lose i
  | init now =>
    exact ⟨h.sound.initAgain, h.honest, h.fifo.next, fun h => HciH5LinkState.noConfusion h⟩
  | hostTx slot => exact h.withCb (h.sound.hostTx hi) id
  | hostRx =>
    refine h.withCb h.sound.hostRx fun hactive => ?_
    change (hciRxHandler e.cb).linkState = .active at hactive
    unfold hciRxHandler at hactive
    split at hactive <;> exact hactive

/-- An end that is not active ignores data and ack frames, and one that became active on a
message of its present session has no older frame in flight. -/
theorem separate {blcHciReset : HciFifo → HciFifo → HciFifo × HciFifo} (h : e.Inv own peer)
    (hjoined : e.cb.linkState = .active → e.joined = e.session) : e.Separate blcHciReset := by
  intro m rest now slip hinbox hdata hold
  -- In the active state there is no such frame, in the others it is dropped.
  by_cases hactive : e.cb.linkState = .active
  · have hbound := (h.joined hactive).bound m (hinbox ▸ List.mem_cons_self)
    have := hjoined hactive
    omega
  · refine packetHandler_dropped ?_
    unfold HciH5Cb.kind
    dsimp only
    split_ifs <;> first | rfl | contradiction

end H5End.Inv

/-! ## Link establishment -/

namespace H5Link

/-- Both ends are as they should be. -/
def Inv (own : Side → HciH5Config) (link : H5Link) : Prop :=
  ∀ side, (link side).Inv (own side) (own side.peer)

variable {own : Side → HciH5Config} {link : H5Link}

theorem Inv.start {rx tx : Side → HciFifo} (htx : ∀ side, (tx side).NoLinkCtrl)
    (now : Side → ℕ) : Inv own (start own rx tx now) := fun side =>
  ⟨H5Sound.init (htx side), fun _ h => absurd h List.not_mem_nil,
    Stamped.Between.nil (Nat.le_refl 0), fun h => HciH5LinkState.noConfusion h⟩

theorem Inv.step {blcHciReset : Side → HciFifo → HciFifo → HciFifo × HciFifo}
    (hreset : ∀ side rx tx, tx.NoLinkCtrl → (blcHciReset side rx tx).2.NoLinkCtrl)
    (hown : ∀ side, (own side).Fits) (h : Inv own link) {i : Side × H5EndEvent}
    (hi : i.2.HostOk) : Inv own (link.step blcHciReset i) := by
  have hend := (h i.1).step (hreset i.1) (hown i.1.peer) hi
  intro side
  unfold H5Link.step
  split
  case isTrue heq =>
    rw [heq]
    exact hend.drain
  case isFalse hne =>
    have hpeer : side.peer = i.1 := by
      revert hne
      cases side <;> cases i.1 <;> decide
    refine (h side).push ?_
    rw [hpeer]
    exact hend.sound.frames

/-- Two active ends use what both static configurations support. -/
theorem Inv.agrees (h : Inv own link) : link.Agrees own := by
  intro hactive side
  have hconfig := (h side).sound.config_eq (hactive side)
  cases side with
  | left => exact hconfig
  | right =>
    rw [hconfig]
    exact HciH5Config.meet_comm _ _

/-- Whatever is lost, and whichever end is initialised again and when: two active ends agree
on their configuration, and a data or ack frame of an earlier session changes the state of its
receiver only where the receiver became active on a CONFIG_RSP message that is itself from an
earlier session. -/
theorem established (blcHciReset : Side → HciFifo → HciFifo → HciFifo × HciFifo)
    (hreset : ∀ side rx tx, tx.NoLinkCtrl → (blcHciReset side rx tx).2.NoLinkCtrl)
    (own : Side → HciH5Config) (hown : ∀ side, (own side).Fits) (rx tx : Side → HciFifo)
    (htx : ∀ side, (tx side).NoLinkCtrl) (now : Side → ℕ) (is : List (Side × H5EndEvent))
    (hhost : ∀ i ∈ is, i.2.HostOk) :
    let link := Machine.run (H5Link.step blcHciReset) (H5Link.start own rx tx now) is
    link.Agrees own ∧
      ∀ side, ((link side).cb.linkState = .active → (link side).joined = (link side).session) →
        (link side).Separate (blcHciReset side) := by
  have hstep : ∀ link i, Inv own link → H5EndEvent.HostOk i.2 →
      Inv own (H5Link.step blcHciReset link i) := fun _ _ h hi => h.step hreset hown hi
  have hinv := Machine.run_invariant hstep (Inv.start htx now)
    (Machine.along_of_forall_mem (H5Link.start own rx tx now) hhost)
  exact ⟨hinv.agrees, fun side => (hinv side).separate⟩

/-! ## A stale handshake -/

/-- The left end has the SDK's configuration, the right one a larger window. -/
def exampleOwn : Side → HciH5Config
  | .left => ⟨1, 0, 0, 0⟩
  | .right => ⟨7, 0, 0, 0⟩

/-- FIFOs of 8 slots at both ends. -/
def exampleStart : H5Link :=
  start exampleOwn (fun _ => HciFifo.empty 260 3 HciFifo.three_le_seven)
    (fun _ => HciFifo.empty 260 3 HciFifo.three_le_seven) fun _ => 0

def exampleRun (is : List (Side × H5EndEvent)) : H5Link :=
  Machine.run (H5Link.step fun _ rx tx => (rx, tx)) exampleStart is

/-- Both ends become active, though the right one was initialised again in between, and the
left one sends a data frame. Two answers to the right end are still in flight in front of it. -/
def staleHandshake : List (Side × H5EndEvent) :=
  [(.right, .poll 5000000 true true), (.right, .poll 10000000 true true),
    (.left, .poll 10000000 true true), (.right, .deliver 10000000 true),
    (.left, .deliver 10000000 true), (.right, .deliver 10000000 true),
    (.left, .deliver 10000000 true), (.left, .deliver 10000000 true),
    (.left, .deliver 10000000 true), (.right, .init 10000000),
    (.right, .poll 15000000 true true), (.right, .deliver 15000000 true),
    (.right, .deliver 15000000 true), (.right, .deliver 15000000 true),
    (.left, .deliver 15000000 true), (.left, .deliver 15000000 true),
    (.left, .deliver 15000000 true), (.left, .hostTx h5Entry),
    (.left, .poll 15000000 true true)]

/-- The right end is initialised again and becomes active on the two answers. -/
def staleSession : List (Side × H5EndEvent) :=
  staleHandshake ++ [(.right, .init 15000000), (.right, .deliver 15000000 true),
    (.right, .deliver 15000000 true)]

theorem exampleRun_active (side : Side) :
    (exampleRun staleHandshake side).cb.linkState = .active := by
  cases side <;> decide +kernel

theorem established_example :
    (exampleRun staleHandshake .left).cb.config = ⟨1, 0, 0, 0⟩ ∧
      (exampleRun staleHandshake .right).cb.config = ⟨1, 0, 0, 0⟩ := by
  have hown : ∀ side, (exampleOwn side).Fits := by
    intro side
    cases side <;> constructor <;> decide
  have hhost : ∀ i ∈ staleHandshake, i.2.HostOk := by decide
  have hagrees := (established (fun _ rx tx => (rx, tx)) (fun _ _ _ h => h) exampleOwn hown _ _
    (fun _ => HciFifo.noLinkCtrl_empty _ _ _) _ _ hhost).1 exampleRun_active
  exact ⟨hagrees .left, hagrees .right⟩

/-- The data frame of the session before is accepted. -/
theorem not_separate_example :
    (∀ side, (exampleRun staleHandshake side).cb.linkState = .active) ∧
      ¬ (exampleRun staleSession .right).Separate fun rx tx => (rx, tx) := by
  constructor
  · exact exampleRun_active
  · intro h
    have hinbox : (exampleRun staleSession .right).inbox =
        [⟨1, hciH5Frame ⟨0, 0, 0, 1, hciH5PktTypeAcl, 0, 1⟩ [0x55]⟩] := by decide +kernel
    have hsame := h _ _ 15000000 true hinbox (by unfold IsDataFrame; decide +kernel)
      (by decide +kernel)
    have hack := congrArg HciH5Cb.txAck hsame
    revert hack
    decide +kernel

end H5Link

end TlBleSdk.Hci
