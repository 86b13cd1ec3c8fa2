import TlBleSdk.Ota.LinkInv

/-!
# Transfers between a master and a slave are safe

`inv_masterCall` and `inv_slaveCall` keep `OtaLink.Inv` for a call of either party, with what it has
heard. `transfer_safe` is what follows for every run of a link.
-/

namespace TlBleSdk.Ota

open Hci NorFlash

/-! ## Frames that are heard and sent -/

section Hearing

variable {f : List UInt8} {type id : UInt8} {l : List UInt8}

theorem begins_id {frame : OtaFrame} (h : frame.Begins type (id :: l)) : frame.payload 0 = id :=
  (hasBytes_cons.mp h.payload).1

theorem begins_slaveRx (s : OtaSlave) (hlen : f.length ≤ otaFrameSize) (h : type :: l <+: f) :
    (s.rx (packet f)).rxFrame.Begins type l :=
  begins_received s.rxFrame.payload (Nat.lt_of_le_of_lt hlen (by decide)) h

/-- A data frame that the slave receives. -/
theorem begins_dataFrame (s : OtaSlave) (img : OtaImage) (n : ℕ) :
    (s.rx (packet (img.dataFrame n))).rxFrame.Begins otaFrameTypeData
      (uint16ToBstream n ++ img.block (n - 1)) :=
  begins_slaveRx s length_dataFrame_le (List.prefix_refl (img.dataFrame n))

theorem begins_masterRx (m : OtaMaster) (hlen : f.length ≤ otaFrameSize) (h : type :: l <+: f) :
    (m.rx (packet f)).rxFrame.Begins type l :=
  begins_received m.rxFrame.payload (Nat.lt_of_le_of_lt hlen (by decide)) h

/-- What the interrupt queues of a frame that is not empty. -/
theorem otaRxIrq_packet (hpos : 0 < f.length) (hlen : f.length ≤ otaFrameSize) :
    ∃ h, otaRxIrq (some (packet f)) = .data (packet f) h := by
  have hzero : packet f 0 ≠ 0 := by
    intro hzero
    have hlength := packet_zero (Nat.lt_of_le_of_lt hlen (by decide))
    rw [hzero] at hlength
    exact Nat.ne_of_gt hpos hlength.symm
  exact ⟨hzero, dif_pos hzero⟩

/-- What a call finds in the queue, and what is left on its way: only a frame that was on its way is
heard as data. -/
inductive Hears (dir : List UInt8 → OtaFlight) (flight : Option OtaFlight) :
    Option OtaMsg → Option OtaFlight → Prop
  | other {msg : Option OtaMsg} (hmsg : ∀ Data h, msg ≠ some (.data Data h)) :
    Hears dir flight msg flight
  | frame {f : List UInt8} (h : packet f 0 ≠ 0) (hflight : flight = some (dir f)) :
    Hears dir flight (some (.data (packet f) h)) none

theorem Hears.left_eq {dir : List UInt8 → OtaFlight} {flight left : Option OtaFlight}
    {msg : Option OtaMsg} (h : Hears dir flight msg left) : left = flight ∨ left = none := by
  cases h with
  | other => exact .inl rfl
  | frame => exact .inr rfl

theorem hears (heard : OtaHeard) {dir : List UInt8 → OtaFlight} {flight : Option OtaFlight}
    {arrived : Option (List UInt8)} (harrived : ∀ f, arrived = some f → flight = some (dir f))
    (hbounds : ∀ f, flight = some (dir f) → 2 ≤ f.length ∧ f.length ≤ otaFrameSize) :
    Hears dir flight (heard.msg arrived) (heard.left arrived flight) := by
  cases heard with
  | frame =>
    cases arrived with
    | none => exact .other fun _ _ h => by cases h
    | some f =>
      have hflight := harrived f rfl
      obtain ⟨hlo, hhi⟩ := hbounds f hflight
      obtain ⟨h, hmsg⟩ := otaRxIrq_packet (Nat.lt_of_lt_of_le Nat.zero_lt_two hlo) hhi
      show Hears dir flight (some (otaRxIrq (some (packet f)))) none
      rw [hmsg]
      exact .frame h hflight
  | nothing | invalidData | timeout | txDone => exact .other fun _ _ h => by cases h

/-- What is on its way behind a call was so before, or has been sent. -/
theorem transmit_cases (keep : Bool) (flight sent : Option OtaFlight) :
    transmit keep flight sent = flight ∨ (sent ≠ none ∧ transmit keep flight sent = sent) := by
  unfold transmit
  split
  · exact .inl rfl
  next h => exact .inr ⟨fun hnone => h (.inl hnone), rfl⟩

@[simp] theorem sentFrame_self (air : List (List UInt8)) : sentFrame air air = none := by
  simp [sentFrame]

@[simp] theorem sentFrame_snoc (air : List (List UInt8)) (f : List UInt8) :
    sentFrame air (air ++ [f]) = some f := by
  simp [sentFrame]

end Hearing

/-! ## The invariant -/

/-- What holds between master, slave and the frame on its way. -/
structure OtaLink.Inv (image : OtaKey → OtaImage) (km ks : OtaKey) (link : OtaLink) : Prop where
  images : ∀ k, (image k).At link.master.flash k.binAddr
  serves : link.master.Serves (image km)
  run : link.slave.RunInv (image ks)
  blank : link.slave.Blank
  answers : link.slave.Answers
  boots : link.slave.rebooted = true → ∃ k, link.slave.Booted (image k)
  joined : Joined km ks link.master link.slave
  flight : InFlight image km ks link.master link.slave link.flight

section Steps

variable {image : OtaKey → OtaImage} {km ks : OtaKey} {m t : OtaMaster} {s : OtaSlave}
  {link : OtaLink} {f : List UInt8} {flight : Option OtaFlight}

/-! ## The master -/

/-- The request of a waiting state. -/
theorem InFlight.request (hserves : m.Serves (image km)) (hjoined : Joined km ks m s)
    (hwaits : m.state.Waits) :
    InFlight image km ks m s (some (.toSlave (m.txFrame.bytes m.len))) := by
  rcases hwaits with hstate | hstate | hstate | hstate
  · obtain ⟨hlo, hhi, hbegins⟩ := hserves.version hstate
    refine .versionReq (by simpa using hhi) (begins_bytes hbegins hlo) ?_
    unfold OtaMaster.Free
    rw [hstate]
    decide
  · obtain ⟨hlen, hbegins⟩ := hserves.start hstate
    rw [hlen]
    exact .startReq km (by rw [length_frame_bytes]; decide) (begins_bytes hbegins
      (Nat.lt_succ_self 3)) (by rw [hstate]; decide) fun _ => rfl
  · have hsent := hserves.data hstate
    rw [hsent.frame]
    have hlt : m.blockNum < 65536 := by
      have hle := hsent.le
      have hblocks := hserves.image.blocks_le
      omega
    refine .dataReq km hsent.pos hlt (by rw [hstate]; decide) (fun _ => ⟨rfl, rfl⟩) ?_
    intro hactive hready
    exact ((hjoined.data hstate hactive).2.2.1 hready).1.symm
  · obtain ⟨hlo, hhi, hbegins⟩ := hserves.finish hstate
    refine .endReq (by simpa using hhi) (begins_bytes (OtaSlave.begins_head hbegins) hlo) ?_
    unfold OtaMaster.Free
    rw [hstate]
    decide

/-- A master with a request with data on the air waits for what is on its way to it. -/
theorem InFlight.awaits (h : InFlight image km ks m s (some (.toMaster f)))
    (hstate : m.state = .startRspWait ∨ m.state = .dataAckWait) : m.Awaits (packet f) := by
  have hfree : ¬ m.Free := fun hm => hstate.elim hm.1 hm.2
  cases h with
  | versionRsp _ _ hm _ => exact absurd hm hfree
  | endRsp _ _ hm => exact absurd hm hfree
  | startRsp hlen hf hm _ =>
    have hwait : m.state = .startRspWait := hstate.resolve_right hm
    have hbegins := begins_masterRx m hlen hf
    exact (awaits_startRspWait hwait).mpr ⟨hbegins.type_eq, begins_id hbegins⟩
  | ack hlen hf hlt hm hk _ =>
    have hwait : m.state = .dataAckWait := hstate.resolve_left hm
    have hbegins := begins_masterRx m hlen hf
    refine (awaits_dataAckWait hwait).mpr ⟨hbegins.type_eq, ?_⟩
    show bytesToUint16 _ 0 = m.blockNum
    rw [hbegins.payload.uint16, u16_of_lt hlt]
    exact hk hwait

/-- What is on its way to the master is a command or an acknowledgement. -/
theorem InFlight.bounds (h : InFlight image km ks m s (some (.toMaster f))) :
    2 ≤ f.length ∧ f.length ≤ otaFrameSize := by
  cases h with
  | versionRsp hlen hf _ _ => exact ⟨hf.length_le, hlen⟩
  | startRsp hlen hf _ _ => exact ⟨hf.length_le, hlen⟩
  | ack hlen hf _ _ _ _ => exact ⟨Nat.le_of_succ_le hf.length_le, hlen⟩
  | endRsp hlen hf _ => exact ⟨hf.length_le, hlen⟩

/-- The frame that lets the master go on to its first request with data. -/
theorem InFlight.version (h : InFlight image km ks m s (some (.toMaster f)))
    (hstate : m.state = .fwVerWait) (hawaits : m.Awaits (packet f)) (hactive : s.Active) :
    s.state ≠ .dataReady ∧ s.state ≠ .endReady ∧ s.state ≠ .ended := by
  obtain ⟨htype, hid⟩ := (awaits_fwVerWait hstate).mp hawaits
  cases h with
  | versionRsp _ _ _ hs => exact hs hactive
  | startRsp hlen hf _ _ =>
    exact absurd ((begins_id (begins_masterRx m hlen hf)).symm.trans hid) (by decide)
  | ack hlen hf _ _ _ _ =>
    exact absurd ((begins_masterRx m hlen hf).type_eq.symm.trans htype) (by decide)
  | endRsp hlen hf _ =>
    exact absurd ((begins_id (begins_masterRx m hlen hf)).symm.trans hid) (by decide)

/-- The slave when the master sends its next block. -/
theorem Joined.next (h : Joined km ks m s) (hflight : InFlight image km ks m s (some (.toMaster f)))
    (hserves : m.Serves (image km)) (hrun : s.RunInv (image ks))
    (hstate : m.state = .startRspWait ∨ (m.state = .dataAckWait ∧ m.finishFlag = false))
    (ht : t.state = .dataAckWait) (hnum : t.blockNum = m.blockNum + 1) : Joined km ks t s := by
  refine ⟨(fun hs => by simp [ht] at hs), fun _ hactive => ?_⟩
  rcases hstate with hstart | ⟨hdata, hmore⟩
  · obtain ⟨hzero, -, -⟩ := hserves.fresh (.inr (.inr hstart))
    obtain ⟨hend, hended, hready⟩ := h.start hstart hactive
    cases hflight with
    | versionRsp _ _ hm _ => exact absurd hstart hm.1
    | endRsp _ _ hm => exact absurd hstart hm.1
    | ack _ _ _ hm _ _ => exact absurd hstart hm
    | startRsp _ _ _ hs =>
      refine ⟨(hs hactive).1, hended, fun hdata => ?_, fun hs => absurd hs hend⟩
      obtain ⟨hkey, hblock⟩ := hready hdata
      exact ⟨hkey, .inr (by rw [hblock, hnum, hzero])⟩
  · obtain ⟨hstart, hended, hready, hend⟩ := h.data hdata hactive
    have hsent := hserves.data hdata
    cases hflight with
    | versionRsp _ _ hm _ => exact absurd hdata hm.2
    | endRsp _ _ hm => exact absurd hdata hm.2
    | startRsp _ _ hm _ => exact absurd hdata hm
    | ack _ _ _ _ hk hs =>
      obtain ⟨-, hblock⟩ := hs hactive
      refine ⟨hstart, hended, fun hs => ?_, fun hs => ?_⟩
      · exact ⟨(hready hs).1, .inr (by rw [hblock (.inl hs), hk hdata, hnum])⟩
      · -- a slave with all blocks has had the last one, but the master goes on
        obtain ⟨hkey, hsame⟩ := hend hs
        have hcomplete := ((hrun.image hactive (by rw [hs]; decide)).complete (.inl hs)).2
        rw [hkey, hsame] at hcomplete
        rw [hsent.finish_iff.mpr hcomplete] at hmore
        cases hmore

/-- What a call of the master leaves. -/
structure MasterLeaves (image : OtaKey → OtaImage) (km ks : OtaKey) (m t : OtaMaster)
    (s : OtaSlave) (left : Option OtaFlight) : Prop where
  serves : t.Serves (image km)
  flash_eq : t.flash = m.flash
  joined : Joined km ks t s
  flight : InFlight image km ks t s left
  sent : t.air = m.air ∨ (t.state.Waits ∧ t.air = m.air ++ [t.txFrame.bytes t.len])

theorem masterLeaves (hserves : m.Serves (image km)) (hrun : s.RunInv (image ks))
    (hjoined : Joined km ks m s) (hflight : InFlight image km ks m s flight) {msg : Option OtaMsg}
    {left : Option OtaFlight} (hhears : Hears .toMaster flight msg left)
    (hturn : MasterTurn m msg t) : MasterLeaves image km ks m t s left := by
  have hawaits : ∀ Data hD, msg = some (.data Data hD) →
      m.state = .startRspWait ∨ m.state = .dataAckWait → m.Awaits Data := by
    intro Data hD hmsg hstate
    cases hhears with
    | other hother => exact absurd hmsg (hother Data hD)
    | frame h heq =>
      cases hmsg
      subst heq
      exact hflight.awaits hstate
  have hlen : ∀ Data hD, msg = some (.data Data hD) → 2 ≤ (Data 0).toNat := by
    intro Data hD hmsg
    cases hhears with
    | other hother => exact absurd hmsg (hother Data hD)
    | frame h heq =>
      cases hmsg
      subst heq
      obtain ⟨hlo, hhi⟩ := hflight.bounds
      rw [packet_zero (Nat.lt_of_le_of_lt hhi (by decide))]
      exact hlo
  have hserves' := hserves.turn hturn hawaits hlen
  have hleft : InFlight image km ks m s left := by
    cases hhears with
    | other => exact hflight
    | frame => exact .none
  -- a master that leaves its request with data is no concern of the slave
  have hfree : t.Free → t.flash = m.flash → t.air = m.air ∨
      (t.state.Waits ∧ t.air = m.air ++ [t.txFrame.bytes t.len]) →
        MasterLeaves image km ks m t s left :=
    fun hm hflash hsent => ⟨hserves', hflash, joined_of_free hm km ks s, hleft.of_free hm km, hsent⟩
  have hof : ∀ {state : OtaMasterState}, state ≠ .startRspWait ∧ state ≠ .dataAckWait →
      t.core = { m.core with state := state } → t.Free ∧ t.state = state ∧ t.flash = m.flash := by
    intro state hne hcore
    have hstate : t.state = state := congrArg MasterCore.state hcore
    exact ⟨by rw [OtaMaster.Free, hstate]; exact hne, hstate, congrArg MasterCore.flash hcore⟩
  cases hturn with
  | quiet hcore htx hkeep hair =>
    have hstate : t.state = m.state := congrArg MasterCore.state hcore
    have hnum : t.blockNum = m.blockNum := congrArg MasterCore.blockNum hcore
    exact ⟨hserves', congrArg MasterCore.flash hcore, hjoined.master_same hstate hnum,
      hleft.master_same hstate hnum, .inl hair⟩
  | failed hcore hair =>
    obtain ⟨hm, -, hflash⟩ := hof (by decide) hcore
    exact hfree hm hflash (.inl hair)
  | resend hwaits hcore htx hsame hair =>
    have hstate : t.state = m.state := congrArg MasterCore.state hcore
    have hnum : t.blockNum = m.blockNum := congrArg MasterCore.blockNum hcore
    refine ⟨hserves', congrArg MasterCore.flash hcore, hjoined.master_same hstate hnum,
      hleft.master_same hstate hnum, ?_⟩
    split at hair
    · exact .inl hair
    · exact .inr ⟨hstate ▸ hwaits, hair⟩
  | ask hstate hcore hsends =>
    obtain ⟨hm, hnext, hflash⟩ := hof (by decide) hcore
    exact hfree hm hflash (.inr ⟨.inl hnext, hsends.len ▸ hsends.air⟩)
  | finish Data hD hmsg hstate hwait hfinish hcore hsends =>
    obtain ⟨hm, hnext, hflash⟩ := hof (by decide) hcore
    exact hfree hm hflash (.inr ⟨.inr (.inr (.inr hnext)), hsends.len ▸ hsends.air⟩)
  | ended hstate hcore hair =>
    obtain ⟨hm, -, hflash⟩ := hof (by decide) hcore
    exact hfree hm hflash (.inl hair)
  | start Data hD hmsg hstate hwait hcore hsends =>
    cases hhears with
    | other hother => exact absurd hmsg (hother Data hD)
    | frame h heq =>
      cases hmsg
      subst heq
      have hnext : t.state = .startRspWait := congrArg MasterCore.state hcore
      refine ⟨hserves', congrArg MasterCore.flash hcore, ⟨fun _ hactive => ?_, fun hs => ?_⟩, .none,
        .inr ⟨.inr (.inl hnext), hsends.len ▸ hsends.air⟩⟩
      · obtain ⟨hready, hend, hended⟩ := hflight.version hstate hwait hactive
        exact ⟨hend, hended, fun hs => absurd hs hready⟩
      · simp [hnext] at hs
  | block Data hD hmsg hstate hwait m' hcore hair heq =>
    cases hhears with
    | other hother => exact absurd hmsg (hother Data hD)
    | frame h hfl =>
      cases hmsg
      subst hfl
      obtain ⟨hlt, hflag, haddr⟩ := hserves.next hstate
      obtain ⟨-, hflash, hnext, hnum, hsent⟩ := hserves.sendBlock hcore hlt hflag haddr
      rw [← heq] at hflash hnext hnum hsent
      refine ⟨hserves', hflash, hjoined.next hflight hserves hrun hstate hnext hnum, .none, .inr
        ⟨.inr (.inr (.inl hnext)), ?_⟩⟩
      rw [hsent, hair, (hserves'.data hnext).frame, hnum]

/-! ## The slave -/

/-- A command that the slave receives, and the image that a request to start is about. -/
theorem InFlight.cmd_of_rx (h : InFlight image km ks m s (some (.toSlave f))) {s' : OtaSlave}
    (htype : (s'.rx (packet f)).rxFrame.type = otaFrameTypeCmd) :
    ((s'.rx (packet f)).rxFrame.payload 0 = otaCmdIdVersionReq ∧ m.Free) ∨
      ((s'.rx (packet f)).rxFrame.payload 0 = otaCmdIdStartReq ∧ 4 ≤ f.length ∧
        ∃ k, bytesToUint16 (s'.rx (packet f)).rxFrame.payload 1 = u16 (image k).blocks ∧
          m.state ≠ .dataAckWait ∧ (m.state = .startRspWait → k = km)) ∨
      ((s'.rx (packet f)).rxFrame.payload 0 = otaCmdIdEndReq ∧ m.Free) := by
  cases h with
  | versionReq hlen hf hm => exact .inl ⟨begins_id (begins_slaveRx s' hlen hf), hm⟩
  | startReq k hlen hf hm hk =>
    have hbegins := begins_slaveRx s' hlen hf
    have hvalue : HasBytes (s'.rx (packet f)).rxFrame.payload 1
        (uint16ToBstream (image k).blocks) := (hasBytes_cons.mp hbegins.payload).2
    exact .inr (.inl ⟨begins_id hbegins, hf.length_le, k, hvalue.uint16, hm, hk⟩)
  | @dataReq k n _ _ _ _ _ =>
    exact absurd ((begins_dataFrame s' (image k) n).type_eq.symm.trans htype) (by decide)
  | endReq hlen hf hm => exact .inr (.inr ⟨begins_id (begins_slaveRx s' hlen hf), hm⟩)

/-- The frame that asks for the version. -/
theorem InFlight.versionReq_of_rx (h : InFlight image km ks m s (some (.toSlave f)))
    {s' : OtaSlave} (hreq : (s'.rx (packet f)).rxFrame.type = otaFrameTypeCmd ∧
      (s'.rx (packet f)).rxFrame.payload 0 = otaCmdIdVersionReq) : m.Free := by
  rcases h.cmd_of_rx hreq.1 with ⟨-, hm⟩ | ⟨hid, -⟩ | ⟨hid, -⟩
  · exact hm
  · exact absurd (hid.symm.trans hreq.2) (by decide)
  · exact absurd (hid.symm.trans hreq.2) (by decide)

/-- The frame that asks to start, and the image that it is about. -/
theorem InFlight.startReq_of_rx (h : InFlight image km ks m s (some (.toSlave f)))
    {s' : OtaSlave} (hreq : s'.Starts (packet f)) :
    4 ≤ f.length ∧ ∃ k, bytesToUint16 (s'.rx (packet f)).rxFrame.payload 1 = u16 (image k).blocks ∧
      m.state ≠ .dataAckWait ∧ (m.state = .startRspWait → k = km) := by
  rcases h.cmd_of_rx hreq.1 with ⟨hid, -⟩ | ⟨-, hstart⟩ | ⟨hid, -⟩
  · exact absurd (hid.symm.trans hreq.2) (by decide)
  · exact hstart
  · exact absurd (hid.symm.trans hreq.2) (by decide)

/-- The frame that ends a transfer. -/
theorem InFlight.endReq_of_rx (h : InFlight image km ks m s (some (.toSlave f)))
    {s' : OtaSlave} (hreq : (s'.rx (packet f)).rxFrame.type = otaFrameTypeCmd ∧
      (s'.rx (packet f)).rxFrame.payload 0 = otaCmdIdEndReq) : m.Free := by
  rcases h.cmd_of_rx hreq.1 with ⟨hid, -⟩ | ⟨hid, -⟩ | ⟨-, hm⟩
  · exact absurd (hid.symm.trans hreq.2) (by decide)
  · exact absurd (hid.symm.trans hreq.2) (by decide)
  · exact hm

/-- A data frame is a whole block of an image of the master. -/
theorem InFlight.dataReq_of_rx (h : InFlight image km ks m s (some (.toSlave f)))
    {s' : OtaSlave} (htype : (s'.rx (packet f)).rxFrame.type = otaFrameTypeData) :
    ∃ k, f = (image k).dataFrame (s'.rx (packet f)).rxBlockNum ∧
      0 < (s'.rx (packet f)).rxBlockNum ∧ m.state ≠ .startRspWait ∧
      (m.state = .dataAckWait → k = km ∧ (s'.rx (packet f)).rxBlockNum = m.blockNum) ∧
      (s.Active → s.state = .dataReady → k = ks) := by
  cases h with
  | versionReq hlen hf _ =>
    exact absurd ((begins_slaveRx s' hlen hf).type_eq.symm.trans htype) (by decide)
  | startReq k hlen hf _ _ =>
    exact absurd ((begins_slaveRx s' hlen hf).type_eq.symm.trans htype) (by decide)
  | @dataReq k n hpos hlt hm hk hs =>
    have hbegins := begins_dataFrame s' (image k) n
    have hblock : (s'.rx (packet ((image k).dataFrame n))).rxBlockNum = n := by
      have hnum := (hasBytes_append.mp hbegins.payload).1.uint16
      rw [u16_of_lt hlt] at hnum
      exact hnum
    rw [hblock]
    exact ⟨k, rfl, hpos, hm, hk, hs⟩
  | endReq hlen hf _ =>
    exact absurd ((begins_slaveRx s' hlen hf).type_eq.symm.trans htype) (by decide)

/-- A message without data is faithful. -/
theorem faithful_of_other {img : OtaImage} {now : ℕ} {msg : Option OtaMsg}
    (hmsg : ∀ Data h, msg ≠ some (.data Data h)) :
    OtaSlave.Faithful img s (.start now msg) := by
  cases msg with
  | none => trivial
  | some msg =>
    cases msg with
    | data Data h => exact absurd rfl (hmsg Data h)
    | invalidData | timeout | txDone => trivial

/-- A whole block that comes next is carried. -/
theorem carries_dataFrame {img : OtaImage} (hrun : s.RunInv img) (hblank : s.Blank)
    (hfits : img.size ≤ otaSlotLen) (hactive : s.Active) (hstate : s.state = .dataReady) :
    OtaSlave.Carries img s (packet (img.dataFrame (s.blockNum + 1))) := by
  have himage := hrun.image hactive (by rw [hstate]; decide)
  have hlength := img.length_block s.blockNum
  have hlen : (packet (img.dataFrame (s.blockNum + 1)) 0).toNat =
      3 + (img.block s.blockNum).length := by
    rw [packet_zero (Nat.lt_of_le_of_lt length_dataFrame_le (by decide)), length_dataFrame,
      Nat.add_sub_cancel]
  refine ⟨hlen, ?_, fun i hi _ => ?_⟩
  · -- the data is behind the length, the type and the number
    refine (bytes_congr fun i _ => ?_).trans (bytes_mem (img.block s.blockNum))
    rw [show 4 + i = (i + 3) + 1 by omega, packet_succ]
    simp [mem, OtaImage.dataFrame, uint16ToBstream]
  · -- the cells behind what is stored are erased
    have herased : s.flash (s.flashAddr + (blockLen * s.blockNum + i)) = 0xFF := by
      refine hblank hactive (by rw [hstate]; decide) _ ?_ ?_
      · rw [himage.total_eq]
        exact Nat.le_trans (Nat.min_le_left _ _) (Nat.le_add_right _ _)
      · rw [hlength] at hi
        omega
    rw [herased, ones_and]

/-- What the slave hears of a master is faithful to an image of the master, its own one if it is in
a transfer already. -/
theorem InFlight.faithful (h : InFlight image km ks m s flight)
    (himages : ∀ k, ((image k).size ≤ otaSlotLen ∧ (image k).blocks < 65536))
    (hrun : s.RunInv (image ks)) (hblank : s.Blank) (hactive : s.Active) (now : ℕ)
    {msg : Option OtaMsg} {left : Option OtaFlight} (hhears : Hears .toSlave flight msg left) :
    ∃ ks', s.RunInv (image ks') ∧ OtaSlave.Faithful (image ks') s (.start now msg) ∧
      (s.state ≠ .startReady ∨ left ≠ .none → ks' = ks) ∧
      ∀ Data hD, msg = some (.data Data hD) → s.state = .startReady → s.Starts Data →
        m.state ≠ .dataAckWait ∧ (m.state = .startRspWait → ks' = km) := by
  cases hhears with
  | other hmsg =>
    exact ⟨ks, hrun, faithful_of_other hmsg, fun _ => rfl,
      fun Data hD heq => absurd heq (hmsg Data hD)⟩
  | @frame f hne hflight =>
    subst hflight
    by_cases hreq : s.state = .startReady ∧ s.Starts (packet f)
    · -- the image of the request is the one of the session
      obtain ⟨hstate, hstarts⟩ := hreq
      obtain ⟨-, k, hblocks, hm, hk⟩ := h.startReq_of_rx hstarts
      rw [u16_of_lt (himages k).2] at hblocks
      refine ⟨k, hrun.other hactive hstate _, fun _ => ⟨fun _ _ => hblocks, fun hstores => ?_⟩,
        fun hs => ?_, fun Data hD hmsg _ _ => ⟨hm, hk⟩⟩
      · exact absurd (hstate.symm.trans hstores.state) (by decide)
      · exact hs.elim (absurd hstate) fun hleft => absurd rfl hleft
    · refine ⟨ks, hrun, fun _ => ⟨fun hstate hstarts => absurd ⟨hstate, hstarts⟩ hreq,
        fun hstores => ?_⟩, fun _ => rfl, fun Data hD hmsg hstate hstarts => ?_⟩
      · have htype : (s.rx (packet f)).rxFrame.type = otaFrameTypeData := hstores.type
        obtain ⟨k, hf, hpos, hm, hk, hs⟩ := h.dataReq_of_rx htype
        rw [hs hactive hstores.state, hstores.next] at hf
        rw [hf]
        exact carries_dataFrame hrun hblank (himages ks).1 hactive hstores.state
      · cases hmsg
        exact absurd ⟨hstate, hstarts⟩ hreq

/-- What is on its way to the slave fits into its frame. -/
theorem InFlight.bounds_slave (h : InFlight image km ks m s (some (.toSlave f))) :
    2 ≤ f.length ∧ f.length ≤ otaFrameSize := by
  cases h with
  | versionReq hlen hf _ => exact ⟨hf.length_le, hlen⟩
  | startReq k hlen hf _ _ => exact ⟨Nat.le_trans (Nat.le_add_left 2 2) hf.length_le, hlen⟩
  | @dataReq k n _ _ _ _ _ =>
    refine ⟨?_, length_dataFrame_le⟩
    rw [length_dataFrame]
    omega
  | endReq hlen hf _ => exact ⟨hf.length_le, hlen⟩

theorem air_storeBlock (s : OtaSlave) (blockNum : ℕ) : (s.storeBlock blockNum).air =
    s.air ++ [(s.storeBlock blockNum).txFrame.bytes 3] := by
  unfold OtaSlave.storeBlock OtaSlave.writeBlock
  by_cases hfirst : blockNum = 1
  · simp only [if_pos hfirst]
    rfl
  · simp only [if_neg hfirst]
    rfl

/-- The check of the image sends nothing, and does not go on with the transfer. -/
theorem verify_stays (s s' : OtaSlave) (pktOk : BitVec 16 → Bool) :
    (s.verify pktOk).air = s.air ∧ s'.Stays (s.verify pktOk) := by
  unfold OtaSlave.verify
  split
  · exact ⟨rfl, fun hup => absurd hup.2 (by simp)⟩
  · dsimp only
    split
    · exact ⟨rfl, fun hup => absurd hup.2 (by simp [OtaSlave.switchBootFlag])⟩
    · exact ⟨rfl, fun _ => .inr (.inr (.inr rfl))⟩

/-- The accesses of the last call do not matter. -/
theorem OtaSlave.RunInv.clearOps {img : OtaImage} (h : s.RunInv img) : s.clearOps.RunInv img :=
  ⟨h.max_lt, fun hup hne => (h.image hup hne).of_core rfl (h.image hup hne).fresh
    (h.image hup hne).data (h.image hup hne).complete,
    fun hup hs => (h.failed hup hs).of_core rfl⟩

theorem OtaSlave.RunInv.blockNum_lt {img : OtaImage} (h : s.RunInv img) (hactive : s.Active)
    (hstate : s.state = .dataReady ∨ s.state = .endReady) : s.blockNum < 65536 := by
  have hmax := h.max_lt
  rcases hstate with hs | hs
  · obtain ⟨hblocks, hlt⟩ := (h.image hactive (by rw [hs]; decide)).data hs
    omega
  · obtain ⟨hblocks, heq⟩ := (h.image hactive (by rw [hs]; decide)).complete (.inl hs)
    omega

/-- What a call of the slave leaves. -/
structure SlaveLeaves (image : OtaKey → OtaImage) (km ks : OtaKey) (m : OtaMaster)
    (s t : OtaSlave) (left : Option OtaFlight) : Prop where
  joined : Joined km ks m t
  flight : InFlight image km ks m t left
  sent : t.air = s.air ∨ ∃ f, t.air = s.air ++ [f] ∧
    InFlight image km ks m t (some (.toMaster f))

/-- The slave stays where it is and sends nothing. -/
theorem slaveLeaves_stays {t : OtaSlave} {ks' : OtaKey} {left : Option OtaFlight}
    (hjoined : Joined km ks m s) (hflight : InFlight image km ks m s left) (hactive : s.Active)
    (hstays : s.Stays t) (hair : t.air = s.air)
    (hkey : s.state ≠ .startReady ∨ left ≠ none → ks' = ks)
    (hstart : s.state = .startReady → t.state = .startReady ∨ t.state = .error) :
    SlaveLeaves image km ks' m s t left := by
  by_cases heq : ks' = ks
  · rw [heq]
    exact ⟨hjoined.slave_stays hstays, hflight.slave_stays hstays, .inl hair⟩
  · -- a slave that has no image yet
    obtain ⟨hready, hnone⟩ := not_or.mp fun h => heq (hkey h)
    have hready := not_not.mp hready
    rw [not_not.mp hnone]
    refine ⟨⟨fun hm _ => ?_, fun hm _ => ?_⟩, .none, .inl hair⟩
    · rcases hstart hready with hs | hs <;> simp [hs]
    · exact absurd hready (hjoined.data hm hactive).1

/-- A block is stored and acknowledged. -/
theorem slaveLeaves_store {t : OtaSlave} (hjoined : Joined km ks m s) (hactive : s.Active)
    (hfl : InFlight image km ks m s (some (.toSlave f))) (hstores : s.Stores (packet f))
    (heq : t = (s.rx (packet f)).storeBlock (s.blockNum + 1)) :
    SlaveLeaves image km ks m s t none := by
  have htype : (s.rx (packet f)).rxFrame.type = otaFrameTypeData := hstores.type
  obtain ⟨k, hf, hpos, hm, hk, hs⟩ := hfl.dataReq_of_rx htype
  rw [hstores.next] at hk
  have hcore := OtaSlave.core_storeBlock (s.rx (packet f)) (s.blockNum + 1)
  have hair := air_storeBlock (s.rx (packet f)) (s.blockNum + 1)
  have htx : t.txFrame.Begins otaFrameTypeAck (uint16ToBstream (s.blockNum + 1)) := by
    rw [heq]
    exact begins_buildAckFrame s.txFrame (s.blockNum + 1)
  rw [← heq] at hcore hair
  have hnum : t.blockNum = s.blockNum + 1 := congrArg SlaveCore.blockNum hcore
  have hstate : t.state = .endReady ∨ t.state = .dataReady := by
    rw [show t.state = _ from congrArg SlaveCore.state hcore]
    dsimp only
    split
    · exact .inl rfl
    · exact .inr hstores.state
  have hlt : s.blockNum + 1 < 65536 := by
    rw [← hstores.next]
    exact bytesToUint16_lt _ 0
  refine ⟨⟨fun hs => absurd hs hm, fun hs _ => ?_⟩, .none, .inr ⟨_, hair, .ack
    (by rw [length_frame_bytes]; decide) (begins_bytes htx (Nat.lt_succ_self 2)) hlt hm
    (fun hs => (hk hs).2) fun _ => ⟨?_, fun _ => hnum⟩⟩⟩
  · obtain ⟨-, -, hready, -⟩ := hjoined.data hs hactive
    have hsame : t.blockNum = m.blockNum := hnum.trans (hk hs).2
    have hkey := (hready hstores.state).1
    rcases hstate with hstate | hstate <;> rw [hstate] <;>
      exact ⟨by decide, by decide, fun _ => ⟨hkey, by simp [hsame]⟩,
        fun _ => ⟨hkey, hsame⟩⟩
  · rcases hstate with hstate | hstate <;> rw [hstate] <;> decide

/-- The last answer is sent again. -/
theorem slaveLeaves_again {t : OtaSlave} {ks' : OtaKey} (hrun : s.RunInv (image ks))
    (hanswers : s.Answers) (hjoined : Joined km ks m s) (hactive : s.Active)
    (hfl : InFlight image km ks m s (some (.toSlave f))) (hagain : s.AskedAgain (packet f))
    (hcore : t.core = s.core) (htx : t.txFrame = s.txFrame)
    (hair : t.air = s.air ++ [t.txFrame.bytes (packet f 0).toNat])
    (hkey : s.state ≠ .startReady → ks' = ks) : SlaveLeaves image km ks' m s t none := by
  have hstate : t.state = s.state := congrArg SlaveCore.state hcore
  have hnum : t.blockNum = s.blockNum := congrArg SlaveCore.blockNum hcore
  have hstays : s.Stays t := fun _ => .inl ⟨hactive, hstate, hnum⟩
  obtain ⟨hlo, hhi⟩ := hfl.bounds_slave
  rw [packet_zero (Nat.lt_of_le_of_lt hhi (by decide))] at hair
  have hack : s.state = .dataReady ∨ s.state = .endReady → 0 < s.blockNum → 2 < f.length →
      m.state ≠ .startRspWait → (m.state = .dataAckWait → s.blockNum = m.blockNum) →
        InFlight image km ks m t (some (.toMaster (t.txFrame.bytes f.length))) := by
    intro hs hpos hlong hm hk
    have hbegins := hanswers.ack hs hpos
    rw [← htx] at hbegins
    refine .ack (by simpa using hhi) (begins_bytes hbegins hlong)
      (hrun.blockNum_lt hactive hs) hm hk fun _ => ⟨?_, fun _ => hnum⟩
    rw [hstate]
    rcases hs with hs | hs <;> rw [hs] <;> decide
  cases hagain with
  | version hready hreq =>
    have hm := hfl.versionReq_of_rx hreq
    have hbegins := hanswers.version hready
    rw [← htx] at hbegins
    refine ⟨joined_of_free hm km ks' t, .none, .inr ⟨_, hair, .versionRsp (by simpa using hhi)
      (begins_bytes hbegins hlo) hm fun _ => ?_⟩⟩
    rw [hstate, hready]
    decide
  | start hready hreq =>
    obtain ⟨hfour, k, -, hm, -⟩ := hfl.startReq_of_rx hreq
    rw [hkey (by rw [hready]; decide)]
    refine ⟨hjoined.slave_stays hstays, .none, .inr ⟨_, hair, ?_⟩⟩
    by_cases hzero : s.blockNum = 0
    · have hbegins := hanswers.start hready hzero
      rw [← htx] at hbegins
      refine .startRsp (by simpa using hhi) (begins_bytes hbegins hlo) hm fun _ => ?_
      rw [hstate, hready]
      exact ⟨by decide, by decide, fun _ => hnum.trans hzero⟩
    · refine hack (.inl hready) (Nat.pos_of_ne_zero hzero) (Nat.le_of_succ_le hfour)
        (fun hs => ?_) fun hs => absurd hs hm
      exact hzero ((hjoined.start hs hactive).2.2 hready).2
  | block hready htype hblock =>
    obtain ⟨k, hf, hpos, hm, hk, -⟩ := hfl.dataReq_of_rx htype
    rw [hblock] at hpos hk
    have hne : s.state ≠ .startReady := by
      rcases hready with hs | hs <;> rw [hs] <;> decide
    rw [hkey hne]
    refine ⟨hjoined.slave_stays hstays, .none, .inr ⟨_, hair, ?_⟩⟩
    refine hack hready hpos ?_ hm fun hs => (hk hs).2
    rw [hf, length_dataFrame]
    omega

theorem slaveLeaves {t : OtaSlave} {ks' : OtaKey} {msg : Option OtaMsg} {left : Option OtaFlight}
    (hrun : s.RunInv (image ks)) (hanswers : s.Answers) (hjoined : Joined km ks m s)
    (hflight : InFlight image km ks m s flight) (hactive : s.Active)
    (hhears : Hears .toSlave flight msg left) (hturn : SlaveTurn s msg t)
    (hkey : s.state ≠ .startReady ∨ left ≠ none → ks' = ks)
    (hasked : ∀ Data hD, msg = some (.data Data hD) → s.state = .startReady → s.Starts Data →
      m.state ≠ .dataAckWait ∧ (m.state = .startRspWait → ks' = km)) :
    SlaveLeaves image km ks' m s t left := by
  -- what is heard as data was on its way, and is not any more
  have hframe : ∀ Data hD, msg = some (.data Data hD) →
      ∃ f, Data = packet f ∧ left = none ∧ InFlight image km ks m s (some (.toSlave f)) := by
    intro Data hD hmsg
    cases hhears with
    | other hother => exact absurd hmsg (hother Data hD)
    | @frame f h hfl =>
      cases hmsg
      exact ⟨f, rfl, rfl, hfl ▸ hflight⟩
  have hleft : InFlight image km ks m s left := by
    cases hhears with
    | other => exact hflight
    | frame => exact .none
  cases hturn with
  | quiet state hmove hcore htx hair =>
    have hstate : t.state = state := congrArg SlaveCore.state hcore
    refine slaveLeaves_stays hjoined hleft hactive (fun _ => ?_) hair hkey fun hs => ?_
    · rcases hmove with rfl | rfl | ⟨-, rfl⟩
      · exact .inl ⟨hactive, hstate, congrArg SlaveCore.blockNum hcore⟩
      · exact .inr (.inr (.inr hstate))
      · exact .inr (.inr (.inl hstate))
    · rcases hmove with rfl | rfl | ⟨hidle, -⟩
      · exact .inl (hstate.trans hs)
      · exact .inr hstate
      · exact absurd (hidle.symm.trans hs) (by decide)
  | verify hstate heq =>
    obtain ⟨hair, hstays⟩ := verify_stays s s fun fwCRC => fwCRC = s.pktCRC
    rw [← heq] at hair hstays
    exact slaveLeaves_stays hjoined hleft hactive hstays hair hkey fun hs =>
      absurd (hstate.symm.trans hs) (by decide)
  | erase hstate heq =>
    refine slaveLeaves_stays hjoined hleft hactive (fun hup => ?_) (by rw [heq]) hkey fun hs =>
      absurd (hstate.symm.trans hs) (by decide)
    rw [heq] at hup
    cases hup.1
  | version Data hD hmsg hstate hreq hcore hsends =>
    obtain ⟨f, rfl, rfl, hfl⟩ := hframe Data hD hmsg
    have hm := hfl.versionReq_of_rx hreq
    have hstate' : t.state = .startReady := congrArg SlaveCore.state hcore
    obtain ⟨l, htx, n, hlo, hhi, hair⟩ := hsends
    refine ⟨joined_of_free hm km ks' t, .none, .inr ⟨_, hair, .versionRsp (by simpa using hhi)
      (begins_bytes (OtaSlave.begins_head htx) ?_) hm fun _ => ?_⟩⟩
    · rw [List.length_cons] at hlo
      exact Nat.lt_of_le_of_lt (Nat.le_add_left 1 _) hlo
    · rw [hstate']
      decide
  | started Data hD hmsg hstate hreq hcore hsends =>
    obtain ⟨f, rfl, rfl, hfl⟩ := hframe Data hD hmsg
    obtain ⟨hm, hk⟩ := hasked _ hD hmsg hstate hreq
    have hstate' : t.state = .dataReady := congrArg SlaveCore.state hcore
    have hnum : t.blockNum = 0 := (congrArg SlaveCore.blockNum hcore).trans
      ((hrun.image hactive (by rw [hstate]; decide)).fresh (.inr (.inr hstate)))
    obtain ⟨htx, n, hlo, hhi, hair⟩ := hsends
    refine ⟨⟨fun hs _ => ?_, fun hs => absurd hs hm⟩, .none, .inr ⟨_, hair, .startRsp
      (by simpa using hhi) (begins_bytes htx hlo) hm fun _ => ?_⟩⟩
    · rw [hstate']
      exact ⟨by decide, by decide, fun _ => ⟨hk hs, hnum⟩⟩
    · rw [hstate']
      exact ⟨by decide, by decide, fun _ => hnum⟩
  | ended Data hD hmsg hstate hreq hcore hsends =>
    obtain ⟨f, rfl, rfl, hfl⟩ := hframe Data hD hmsg
    have hm := hfl.endReq_of_rx hreq
    obtain ⟨htx, n, hlo, hhi, hair⟩ := hsends
    exact ⟨joined_of_free hm km ks' t, .none, .inr ⟨_, hair, .endRsp (by simpa using hhi)
      (begins_bytes htx hlo) hm⟩⟩
  | store Data hD hmsg hstores heq =>
    obtain ⟨f, rfl, rfl, hfl⟩ := hframe Data hD hmsg
    rw [hkey (.inl (by rw [hstores.state]; decide))]
    exact slaveLeaves_store hjoined hactive hfl hstores heq
  | again Data hD hmsg hagain hcore htx hlen hair =>
    obtain ⟨f, rfl, rfl, hfl⟩ := hframe Data hD hmsg
    exact slaveLeaves_again hrun hanswers hjoined hactive hfl hagain hcore htx hair fun hs =>
      hkey (.inl hs)

/-- A slave restarts only behind the check of its image. -/
theorem booted_turn {img : OtaImage} {t : OtaSlave} {msg : Option OtaMsg} (hrun : s.RunInv img)
    (hactive : s.Active) (hfits : img.size ≤ otaSlotLen) (hturn : SlaveTurn s.clearOps msg t)
    (hboot : t.rebooted = true) : t.Booted img := by
  have hup : s.rebooted ≠ true := fun hs => hactive.2 (.inl hs)
  cases hturn with
  | quiet state hmove hcore htx hair =>
    exact absurd ((congrArg SlaveCore.rebooted hcore).symm.trans hboot) hup
  | version Data hD hmsg hstate hreq hcore hsends =>
    exact absurd ((congrArg SlaveCore.rebooted hcore).symm.trans hboot) hup
  | again Data hD hmsg hagain hcore htx hlen hair =>
    exact absurd ((congrArg SlaveCore.rebooted hcore).symm.trans hboot) hup
  | started Data hD hmsg hstate hreq hcore hsends =>
    exact absurd ((congrArg SlaveCore.rebooted hcore).symm.trans hboot) hup
  | ended Data hD hmsg hstate hreq hcore hsends =>
    exact absurd ((congrArg SlaveCore.rebooted hcore).symm.trans hboot) hup
  | store Data hD hmsg hstores heq =>
    have hcore := OtaSlave.core_storeBlock (s.clearOps.rx Data) (s.clearOps.blockNum + 1)
    rw [← heq] at hcore
    exact absurd ((congrArg SlaveCore.rebooted hcore).symm.trans hboot) hup
  | verify hstate heq =>
    rw [heq] at hboot ⊢
    exact OtaSlave.booted_verify hrun hactive hstate hfits hboot
  | erase hstate heq =>
    rw [heq] at hboot
    exact absurd hboot hup

end Steps

/-! ## Runs -/

namespace OtaLink

variable {image : OtaKey → OtaImage} {km ks : OtaKey} {link : OtaLink}

/-- A key leaves the master without a request with data. -/
theorem free_init (m : OtaMaster) (addr : ℕ) : (otaMasterInit m addr).Free :=
  ⟨(fun hs => by cases hs), fun hs => by cases hs⟩

theorem Inv.sizes (h : link.Inv image km ks) (k : OtaKey) :
    (image k).size ≤ otaSlotLen ∧ (image k).blocks < 65536 := by
  have hblocks := (h.images k).blocks_le
  exact ⟨(h.images k).fits, by omega⟩

/-- What is on its way behind a call: what is left, or what was sent. -/
theorem flight_transmit {m : OtaMaster} {s : OtaSlave} (keep : Bool) {left : Option OtaFlight}
    {dir : List UInt8 → OtaFlight} {before after : List (List UInt8)}
    (hleft : InFlight image km ks m s left)
    (hsent : after = before ∨
      ∃ f, after = before ++ [f] ∧ InFlight image km ks m s (some (dir f))) :
    InFlight image km ks m s (transmit keep left ((sentFrame before after).map dir)) := by
  rcases transmit_cases keep left ((sentFrame before after).map dir) with heq | ⟨hne, heq⟩
  · rwa [heq]
  · rw [heq]
    rcases hsent with rfl | ⟨f, rfl, hf⟩
    · rw [sentFrame_self] at hne
      exact absurd rfl hne
    · rw [sentFrame_snoc]
      exact hf

/-- A call of the master keeps the invariant. -/
theorem inv_masterCall (h : link.Inv image km ks) (now : ℕ) (heard : OtaHeard) (keep : Bool) :
    (link.masterCall now heard keep).Inv image km ks := by
  have harrived : ∀ f, OtaFlight.forMaster link.flight = some f →
      link.flight = some (.toMaster f) := by
    intro f hf
    unfold OtaFlight.forMaster at hf
    split at hf
    next g hg => rw [hg, Option.some.inj hf]
    · cases hf
  have hhears := hears heard harrived fun f hf => (hf ▸ h.flight : InFlight image km ks link.master
    link.slave (some (.toMaster f))).bounds
  -- a call begins without an access
  have hserves := h.serves.clearOps
  have hleaves := masterLeaves hserves h.run ⟨h.joined.start, h.joined.data⟩
    (h.flight.master_same rfl rfl) hhears (masterTurn now { link.master with ops := [] } _)
  refine ⟨fun k => ?_, hleaves.serves, h.run, h.blank, h.answers, h.boots, hleaves.joined, ?_⟩
  · rw [show (link.masterCall now heard keep).master.flash = link.master.flash from hleaves.flash_eq]
    exact h.images k
  · refine flight_transmit keep hleaves.flight (hleaves.sent.imp id fun hsent => ⟨_, hsent.2, ?_⟩)
    exact .request hleaves.serves hleaves.joined hsent.1

/-- What a call of the slave leaves, by what it makes of the slave. -/
theorem slaveCall_eq {now : ℕ} {heard : OtaHeard} {keep : Bool} {t : OtaSlave}
    (h : (link.slaveCall now heard keep).slave = t) : link.slaveCall now heard keep = { link with
      slave := t
      flight := transmit keep (heard.left (OtaFlight.forSlave link.flight) link.flight)
        ((sentFrame link.slave.air t.air).map OtaFlight.toMaster) } := by
  rw [← h]
  rfl

/-- A call of the slave keeps the invariant. The image of the slave is another one only before its
first block. -/
theorem inv_slaveCall (h : link.Inv image km ks) (now : ℕ) (heard : OtaHeard) (keep : Bool) :
    ∃ ks', (link.slaveCall now heard keep).Inv image km ks' ∧
      (link.slave.state ≠ .startReady → ks' = ks) := by
  have harrived : ∀ f, OtaFlight.forSlave link.flight = some f →
      link.flight = some (.toSlave f) := by
    intro f hf
    unfold OtaFlight.forSlave at hf
    split at hf
    next g hg => rw [hg, Option.some.inj hf]
    · cases hf
  have hhears := hears heard harrived fun f hf => (hf ▸ h.flight : InFlight image km ks link.master
    link.slave (some (.toSlave f))).bounds_slave
  by_cases hactive : link.slave.Active
  · obtain ⟨ks', hrun, hok, hkey, hasked⟩ :=
      h.flight.faithful h.sizes h.run h.blank hactive now hhears
    have hslave : (link.slaveCall now heard keep).slave =
        otaSlaveStart now link.slave.clearOps (heard.msg (OtaFlight.forSlave link.flight)) :=
      OtaSlave.step_active hactive
    have hturn := slaveTurn now link.slave.clearOps (heard.msg (OtaFlight.forSlave link.flight))
    have hfresh : link.slave.clearOps.state = .startReady → link.slave.clearOps.blockNum = 0 := by
      intro hs
      have hs : link.slave.state = .startReady := hs
      exact (hrun.image hactive (by rw [hs]; decide)).fresh (.inr (.inr hs))
    have hanswers : link.slave.clearOps.Answers := h.answers.congr rfl rfl rfl
    have hleaves := slaveLeaves h.run.clearOps hanswers ⟨h.joined.start, h.joined.data⟩
      (h.flight.slave_stays fun _ => .inl ⟨hactive, rfl, rfl⟩) hactive hhears hturn hkey hasked
    rw [slaveCall_eq hslave]
    exact ⟨ks', ⟨h.images, h.serves, OtaSlave.runInv_call hrun hactive hok,
      OtaSlave.blank_call h.blank hrun hactive hok, hanswers.turn hturn hfresh,
      fun hboot => ⟨ks', booted_turn hrun hactive (h.sizes ks').1 hturn hboot⟩, hleaves.joined,
      flight_transmit keep hleaves.flight hleaves.sent⟩, fun hs => hkey (.inl hs)⟩
  · -- the loop does not call the state machine
    have hslave : (link.slaveCall now heard keep).slave = link.slave :=
      OtaSlave.step_inactive hactive
    have hleft : InFlight image km ks link.master link.slave
        (heard.left (OtaFlight.forSlave link.flight) link.flight) := by
      rcases hhears.left_eq with heq | heq <;> rw [heq]
      · exact h.flight
      · exact .none
    rw [slaveCall_eq hslave]
    exact ⟨ks, ⟨h.images, h.serves, h.run, h.blank, h.answers, h.boots, h.joined,
      flight_transmit keep hleft (.inl rfl)⟩, fun _ => rfl⟩

theorem inv_lose (h : link.Inv image km ks) : (link.step .lose).Inv image km ks :=
  ⟨h.images, h.serves, h.run, h.blank, h.answers, h.boots, h.joined, .none⟩

/-- A trigger erases the slot, or has no effect. -/
theorem inv_trigger (h : link.Inv image km ks) : (link.step .trigger).Inv image km ks := by
  have hrun := OtaSlave.runInv_step (e := .trigger) h.run trivial
  show ({ link with slave := otaSlaveStep otaSlaveStart link.slave .trigger } : OtaLink).Inv
    image km ks
  by_cases hup : link.slave.rebooted = true ∨ link.slave.crashed = true
  · rw [show otaSlaveStep otaSlaveStart link.slave .trigger = link.slave from if_pos hup]
    exact h
  · rcases OtaSlave.step_trigger otaSlaveStart link.slave with heq | heq
    · rw [heq]
      exact h
    · rw [heq] at hrun ⊢
      have hstays : link.slave.Stays
        (otaSlaveInit link.slave (otaSlaveBinAddr link.slave.flash)) := fun _ => .inr (.inl rfl)
      exact ⟨h.images, h.serves, hrun, OtaSlave.blank_init link.slave,
        OtaSlave.answers_of_other (fun hs => by cases hs) (fun hs => by cases hs)
          (fun hs => by cases hs), fun hboot => absurd (.inl hboot) hup,
        h.joined.slave_stays hstays, h.flight.slave_stays hstays⟩

/-- Every event keeps the invariant. -/
theorem inv_step (h : link.Inv image km ks) (e : OtaLinkEvent) :
    ∃ km' ks', (link.step e).Inv image km' ks' := by
  cases e with
  | key k =>
    have hfree := free_init link.master k.binAddr
    have haddr : k.binAddr ≤ otaMasterBinAddr2 := by cases k <;> decide
    exact ⟨k, ks, h.images, OtaMaster.serves_init _ (h.images k) haddr, h.run, h.blank, h.answers,
      h.boots, joined_of_free hfree k ks _, h.flight.of_free hfree k⟩
  | trigger => exact ⟨km, ks, inv_trigger h⟩
  | lose => exact ⟨km, ks, inv_lose h⟩
  | master now heard keep => exact ⟨km, ks, inv_masterCall h now heard keep⟩
  | slave now heard keep =>
    obtain ⟨ks', hinv, -⟩ := inv_slaveCall h now heard keep
    exact ⟨km, ks', hinv⟩

/-- The invariant holds when the key is pressed. -/
theorem inv_start {masterFlash : Cells} (himage : ∀ k, (image k).At masterFlash k.binAddr)
    (slaveFlash : Cells) (key : OtaKey) : (start masterFlash slaveFlash key).Inv image key key := by
  have haddr : key.binAddr ≤ otaMasterBinAddr2 := by cases key <;> decide
  have hfree := free_init (.powerOn masterFlash) key.binAddr
  refine ⟨himage, OtaMaster.serves_init _ (himage key) haddr, OtaSlave.runInv_powerOn slaveFlash,
    fun hactive => ?_, ?_, fun hboot => ?_, joined_of_free hfree key key _, .none⟩
  · cases hactive.1
  · exact OtaSlave.answers_of_other (fun hs => by cases hs) (fun hs => by cases hs)
      fun hs => by cases hs
  · cases hboot

theorem inv_run {masterFlash : Cells} (himage : ∀ k, (image k).At masterFlash k.binAddr)
    (slaveFlash : Cells) (key : OtaKey) (events : List OtaLinkEvent) :
    ∃ km ks, (Machine.run step (start masterFlash slaveFlash key) events).Inv image km ks := by
  have hstep : ∀ (link : OtaLink) e, (∃ km ks, link.Inv image km ks) → True →
      ∃ km ks, (link.step e).Inv image km ks := by
    rintro link e ⟨km, ks, h⟩ _
    exact inv_step h e
  exact Machine.run_invariant hstep ⟨key, key, inv_start himage slaveFlash key⟩
    (Machine.along_true _ _)

end OtaLink

/-- The blocks that the slave has counted are those of the image, without the boot word. -/
structure OtaSlave.Stored (img : OtaImage) (s : OtaSlave) : Prop where
  count : s.totalBinSize = min (blockLen * s.blockNum) img.size
  bytes : ∀ i < s.totalBinSize, ¬ InBootWord i → s.flash (s.flashAddr + i) = img.byte i
  whole : s.state = .endReady ∨ s.state = .ended → s.totalBinSize = img.size

/-- Whatever is lost or held back on the link, and whenever keys are pressed and the slave is
triggered again: the slave stores the blocks of one image of the master, and holds them when it
fails until it erases them; a data frame on its way is a whole block, and the slave restarts only
with a whole image whose CRC is right. -/
theorem transfer_safe (image : OtaKey → OtaImage) {masterFlash : Cells}
    (himage : ∀ k, (image k).At masterFlash k.binAddr) (slaveFlash : Cells) (key : OtaKey)
    (events : List OtaLinkEvent) :
    let link := Machine.run OtaLink.step (.start masterFlash slaveFlash key) events
    (link.slave.Active → ∃ k, link.slave.Stored (image k)) ∧
      (∀ f, link.flight = some (.toSlave f) → f.head? = some otaFrameTypeData →
        ∃ k n, f = (image k).dataFrame n) ∧
      (link.slave.rebooted = true → ∃ k, link.slave.Booted (image k)) := by
  intro link
  obtain ⟨km, ks, hinv⟩ := OtaLink.inv_run himage slaveFlash key events
  refine ⟨fun hactive => ⟨ks, ?_⟩, fun f hf hdata => ?_, hinv.boots⟩
  · have hheld := hinv.run.held hactive
    refine ⟨hheld.total_eq, hheld.stored, fun hs => ?_⟩
    have hne : link.slave.state ≠ .error := by
      rintro herror
      rw [herror] at hs
      simp at hs
    rw [hheld.total_eq, ((hinv.run.image hactive hne).complete hs).2]
    exact Nat.min_eq_right (image ks).size_le
  · have hflight := hinv.flight
    rw [hf] at hflight
    cases hflight with
    | versionReq _ hhead _ =>
      obtain ⟨rest, rfl⟩ := hhead
      cases hdata
    | startReq k _ hhead _ _ =>
      obtain ⟨rest, rfl⟩ := hhead
      cases hdata
    | dataReq k _ _ _ _ _ => exact ⟨k, _, rfl⟩
    | endReq _ hhead _ =>
      obtain ⟨rest, rfl⟩ := hhead
      cases hdata

/-- A good image of two blocks, with its size. -/
def sizedImage : OtaImage where
  bytes := List.replicate 24 0 ++ [48, 0, 0, 0] ++ List.replicate 4 0 ++ bootWord ++
    List.replicate 12 0 ++ [0x64, 0xf2]
  boot_le := Nat.le_of_ble_eq_true rfl
  boot := rfl

/-- A master with this image for both keys. -/
def sizedFlash : Cells := fun a => sizedImage.bytes.getD (a % 0x20000) 0xFF

/-- A transfer in which the first request and an acknowledgement are lost. -/
def lossyTransfer : List OtaLinkEvent :=
  [.master 0 .nothing true, .lose, .trigger, .slave 0 .nothing true, .master 0 .timeout true,
    .slave 0 .frame true, .master 0 .frame true, .slave 0 .frame true, .master 0 .frame true,
    .slave 0 .frame true, .lose, .master 0 .timeout true, .slave 0 .frame true,
    .master 0 .frame true, .slave 0 .frame true, .master 0 .frame true, .slave 0 .frame true,
    .slave 0 .nothing true]

theorem sizedFlash_at (k : OtaKey) : sizedImage.At sizedFlash k.binAddr := by
  cases k <;> exact ⟨by decide +kernel, by decide +kernel, by decide +kernel⟩

theorem transfer_safe_lossyTransfer :
    (Machine.run OtaLink.step (.start sizedFlash (fun _ => 0xFF) .key1) lossyTransfer
        |>.slave.rebooted) = true ∧
      ∃ k : OtaKey, (Machine.run OtaLink.step (.start sizedFlash (fun _ => 0xFF) .key1)
        lossyTransfer).slave.Booted ((fun _ => sizedImage) k) := by
  have hboot : (Machine.run OtaLink.step (.start sizedFlash (fun _ => 0xFF) .key1) lossyTransfer
      |>.slave.rebooted) = true := by decide +kernel
  exact ⟨hboot, (transfer_safe (fun _ => sizedImage) sizedFlash_at (fun _ => 0xFF) .key1
    lossyTransfer).2.2 hboot⟩

end TlBleSdk.Ota
