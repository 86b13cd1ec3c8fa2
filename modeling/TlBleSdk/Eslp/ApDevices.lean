import TlBleSdk.Eslp.ApDefs
import TlBleSdk.Lib.Run

/-!
# The device table of the access point

The table over any order of events and commands. The controller reports no connection with a
handle or a peer address that another open connection has. A connection stays open until its
disconnection is reported, also one that found no entry.
-/

namespace TlBleSdk.Eslp

open ApDevices

/-- A connection that the controller has reported. -/
structure ApConn where
  connHandle : BitVec 16
  peer : PeerAddr
deriving DecidableEq

/-- What happens at the access point. -/
inductive ApEvent
  | connectionComplete (status : BitVec 8) (conn : ApConn)
  | disconnect (connHandle : BitVec 16)
  | advReport (centralSmpPending : Bool) (peer : PeerAddr)
  | addEsl (argv : List CString) (added : Bool)
  | rmEsl (argv : List CString)
  | connV2 (argv : List CString)
  | conn (peer : PeerAddr)

/-- The table, the connections that are open, and the handle of the last connection of each
peer. -/
structure ApTable where
  devices : ApDevices
  conns : List ApConn
  lastHandle : PeerAddr → Option (BitVec 16)

/-- Power-on. -/
def ApTable.powerOn : ApTable := ⟨fun _ => .zero, [], fun _ => none⟩

/-- A step of the access point. -/
def apStep (s : ApTable) : ApEvent → ApTable
  | .connectionComplete status c =>
    { devices := s.devices.connectionComplete status c.connHandle c.peer
      conns := if status = 0 then c :: s.conns else s.conns
      lastHandle :=
        if status = 0 then Function.update s.lastHandle c.peer (some c.connHandle)
        else s.lastHandle }
  | .disconnect h =>
    { s with
      devices := s.devices.disconnect h
      conns := s.conns.filter fun c => c.connHandle ≠ h }
  | .advReport pending peer => { s with devices := s.devices.advReport pending peer }
  | .addEsl argv added => { s with devices := s.devices.cmdAddEsl argv added }
  | .rmEsl argv => { s with devices := s.devices.cmdRmEsl argv }
  | .connV2 argv => { s with devices := s.devices.connV2 argv }
  | .conn peer => { s with devices := s.devices.cmdConn peer }

/-- What the controller keeps to: a new connection has a handle and a peer of its own. -/
def ControllerOk (s : ApTable) : ApEvent → Prop
  | .connectionComplete status c =>
    status = 0 → ∀ c' ∈ s.conns, c'.connHandle ≠ c.connHandle ∧ c'.peer ≠ c.peer
  | _ => True

instance (s : ApTable) : ∀ e, Decidable (ControllerOk s e)
  | .connectionComplete status c => inferInstanceAs (Decidable (status = 0 →
      ∀ c' ∈ s.conns, c'.connHandle ≠ c.connHandle ∧ c'.peer ≠ c.peer))
  | .disconnect _ => inferInstanceAs (Decidable True)
  | .advReport _ _ => inferInstanceAs (Decidable True)
  | .addEsl _ _ => inferInstanceAs (Decidable True)
  | .rmEsl _ => inferInstanceAs (Decidable True)
  | .connV2 _ => inferInstanceAs (Decidable True)
  | .conn _ => inferInstanceAs (Decidable True)

/-- The table is in order. -/
structure ApTable.Ok (s : ApTable) : Prop where
  active_iff : ∀ i, (s.devices i).active = true ↔
    (s.devices i).connected = true ∨ (s.devices i).eslConfigured = true
  peer_inj : ∀ i j, (s.devices i).active = true → (s.devices j).active = true →
    (s.devices i).peer = (s.devices j).peer → i = j
  connHandle_inj : ∀ i j, (s.devices i).connected = true → (s.devices j).connected = true →
    (s.devices i).connHandle = (s.devices j).connHandle → i = j
  lastHandle : ∀ i, (s.devices i).connected = true →
    s.lastHandle (s.devices i).peer = some (s.devices i).connHandle

/-- No event is lost: a connection gets an entry unless all are active, and a disconnection
leaves no entry connected. -/
def EventKept (s : ApTable) : ApEvent → Prop
  | .connectionComplete status c => status = 0 →
    (∃ i, ((apStep s (.connectionComplete status c)).devices i).connected = true ∧
      ((apStep s (.connectionComplete status c)).devices i).peer = c.peer ∧
      ((apStep s (.connectionComplete status c)).devices i).connHandle = c.connHandle) ∨
    ∀ i, (s.devices i).active = true
  | .disconnect h => ∀ i, ((apStep s (.disconnect h)).devices i).connected = true →
    ((apStep s (.disconnect h)).devices i).connHandle ≠ h
  | _ => True

/-! ## Lookups -/

namespace ApDevices

variable {d : ApDevices} {p : ApEslInfo → Bool} {i : Fin devicesNum}

theorem of_first_eq_some (h : d.first p = some i) : p (d i) = true :=
  List.find?_some (p := fun i => p (d i)) h

theorem of_first_eq_none (h : d.first p = none) (i : Fin devicesNum) : p (d i) = false := by
  have hno := List.find?_eq_none.mp h i (List.mem_finRange i)
  simpa using hno

/-- An entry with a key of its own leaves the keys apart. -/
theorem inj_update {κ : Type*} {key : ApEslInfo → κ} {e : ApEslInfo}
    (h : ∀ j k, p (d j) = true → p (d k) = true → key (d j) = key (d k) → j = k)
    (hother : ∀ j, j ≠ i → p (d j) = true → key (d j) ≠ key e) (j k : Fin devicesNum)
    (hj : p (Function.update d i e j) = true) (hk : p (Function.update d i e k) = true)
    (heq : key (Function.update d i e j) = key (Function.update d i e k)) : j = k := by
  by_cases hji : j = i
  · by_cases hki : k = i
    · rw [hji, hki]
    · rw [Function.update_of_ne hki] at hk heq
      rw [hji, Function.update_self] at heq
      exact absurd heq.symm (hother k hki hk)
  · rw [Function.update_of_ne hji] at hj heq
    by_cases hki : k = i
    · rw [hki, Function.update_self] at heq
      exact absurd heq (hother j hji hj)
    · rw [Function.update_of_ne hki] at hk heq
      exact h j k hj hk heq

end ApDevices

/-! ## Updates of an entry -/

/-- The invariant of the table: it is in order, and every connected entry has its
connection. -/
structure ApTable.Inv (s : ApTable) : Prop extends s.Ok where
  conn_mem : ∀ i, (s.devices i).connected = true →
    ⟨(s.devices i).connHandle, (s.devices i).peer⟩ ∈ s.conns

/-- What an entry `e` may become in a table that is in order: `e'` keeps its peer, and stays
connected with its handle or is disconnected. -/
structure EntryStep (e e' : ApEslInfo) : Prop where
  active_iff : e'.active = true ↔ e'.connected = true ∨ e'.eslConfigured = true
  active_of : e'.active = true → e.active = true
  peer_eq : e'.peer = e.peer
  connHandle_eq : e'.connected = true → e.connected = true ∧ e'.connHandle = e.connHandle

theorem powerOn_inv : ApTable.powerOn.Inv where
  active_iff i := by simp [ApTable.powerOn, ApEslInfo.zero]
  peer_inj i j hi := by simp [ApTable.powerOn, ApEslInfo.zero] at hi
  connHandle_inj i j hi := by simp [ApTable.powerOn, ApEslInfo.zero] at hi
  lastHandle i hi := by simp [ApTable.powerOn, ApEslInfo.zero] at hi
  conn_mem i hi := by simp [ApTable.powerOn, ApEslInfo.zero] at hi

namespace ApTable.Inv

variable {s : ApTable}

/-- A change of an entry that opens no connection. -/
theorem modify (h : s.Inv) (i : Fin devicesNum) {f : ApEslInfo → ApEslInfo}
    (hf : EntryStep (s.devices i) (f (s.devices i))) :
    ApTable.Inv { s with devices := s.devices.modify i f } := by
  have hstep : ∀ j, EntryStep (s.devices j) (s.devices.modify i f j) := by
    intro j
    unfold ApDevices.modify
    by_cases hj : j = i
    · subst hj
      rwa [Function.update_self]
    · rw [Function.update_of_ne hj]
      exact ⟨h.active_iff j, id, rfl, fun hc => ⟨hc, rfl⟩⟩
  refine ⟨⟨fun j => (hstep j).active_iff, ?_, ?_, ?_⟩, ?_⟩
  · intro j k hj hk hpeer
    apply h.peer_inj j k ((hstep j).active_of hj) ((hstep k).active_of hk)
    rw [← (hstep j).peer_eq, ← (hstep k).peer_eq]
    exact hpeer
  · intro j k hj hk hhandle
    obtain ⟨hj', hjh⟩ := (hstep j).connHandle_eq hj
    obtain ⟨hk', hkh⟩ := (hstep k).connHandle_eq hk
    apply h.connHandle_inj j k hj' hk'
    rw [← hjh, ← hkh]
    exact hhandle
  · intro j hj
    obtain ⟨hj', hjh⟩ := (hstep j).connHandle_eq hj
    show s.lastHandle (s.devices.modify i f j).peer = _
    rw [(hstep j).peer_eq, hjh]
    exact h.lastHandle j hj'
  · intro j hj
    obtain ⟨hj', hjh⟩ := (hstep j).connHandle_eq hj
    show (⟨(s.devices.modify i f j).connHandle, (s.devices.modify i f j).peer⟩ : ApConn) ∈ s.conns
    rw [(hstep j).peer_eq, hjh]
    exact h.conn_mem j hj'

theorem active_of_connected (h : s.Inv) {i : Fin devicesNum}
    (hi : (s.devices i).connected = true) : (s.devices i).active = true :=
  (h.active_iff i).mpr (.inl hi)

/-- A new connection gets the entry `i`. -/
theorem connect (h : s.Inv) {c : ApConn}
    (hnew : ∀ c' ∈ s.conns, c'.connHandle ≠ c.connHandle ∧ c'.peer ≠ c.peer)
    {i : Fin devicesNum} {e : ApEslInfo} (hactive : e.active = true) (hconn : e.connected = true)
    (hpeer : e.peer = c.peer) (hhandle : e.connHandle = c.connHandle)
    (hother : ∀ j, j ≠ i → (s.devices j).active = true → (s.devices j).peer ≠ c.peer) :
    ApTable.Inv
      { devices := Function.update s.devices i e
        conns := c :: s.conns
        lastHandle := Function.update s.lastHandle c.peer (some c.connHandle) } := by
  have hne : ∀ {j}, j ≠ i → Function.update s.devices i e j = s.devices j :=
    fun hj => Function.update_of_ne hj ..
  refine ⟨⟨fun j => ?_, ?_, ?_, fun j hj => ?_⟩, fun j hj => ?_⟩
  · by_cases hji : j = i
    · subst hji
      simp [hactive, hconn]
    · simp only [hne hji]
      exact h.active_iff j
  · -- another active entry has another peer, by the lookup of the connection event
    refine @inj_update _ ApEslInfo.active _ _ ApEslInfo.peer _ h.peer_inj fun j hji hj => ?_
    rw [hpeer]
    exact hother j hji hj
  · -- a connected entry has an open connection, whose handle is not the new one
    refine @inj_update _ ApEslInfo.connected _ _ ApEslInfo.connHandle _ h.connHandle_inj
      fun j _ hj => ?_
    rw [hhandle]
    exact (hnew _ (h.conn_mem j hj)).1
  · by_cases hji : j = i
    · subst hji
      simp [hpeer, hhandle]
    · simp only [hne hji] at hj ⊢
      rw [Function.update_of_ne (hnew _ (h.conn_mem j hj)).2]
      exact h.lastHandle j hj
  · by_cases hji : j = i
    · subst hji
      simp [hpeer, hhandle]
    · simp only [hne hji] at hj ⊢
      exact List.mem_cons_of_mem _ (h.conn_mem j hj)

/-- A new connection gets no entry. -/
theorem refuse (h : s.Inv) {c : ApConn}
    (hnew : ∀ c' ∈ s.conns, c'.connHandle ≠ c.connHandle ∧ c'.peer ≠ c.peer) :
    ApTable.Inv
      { devices := s.devices
        conns := c :: s.conns
        lastHandle := Function.update s.lastHandle c.peer (some c.connHandle) } := by
  refine ⟨⟨h.active_iff, h.peer_inj, h.connHandle_inj, fun j hj => ?_⟩, fun j hj => ?_⟩
  · show Function.update s.lastHandle c.peer (some c.connHandle) (s.devices j).peer = _
    rw [Function.update_of_ne (hnew _ (h.conn_mem j hj)).2]
    exact h.lastHandle j hj
  · exact List.mem_cons_of_mem _ (h.conn_mem j hj)

/-- The connections whose handle no connected entry has may close. -/
theorem close (h : s.Inv) {connHandle : BitVec 16}
    (hnone : ∀ i, (s.devices i).connected = true → (s.devices i).connHandle ≠ connHandle) :
    ApTable.Inv { s with conns := s.conns.filter fun c => c.connHandle ≠ connHandle } := by
  refine ⟨⟨h.active_iff, h.peer_inj, h.connHandle_inj, h.lastHandle⟩,
    fun j hj => List.mem_filter.mpr ⟨h.conn_mem j hj, ?_⟩⟩
  simpa using hnone j hj

end ApTable.Inv

/-! ## The steps -/

section Steps

variable {s : ApTable}

/-- A connection that the controller reports as complete. -/
theorem connectionComplete_cases (d : ApDevices) (c : ApConn) :
    (∃ i, (d i).active = true ∧ (d i).peer = c.peer ∧
      d.connectionComplete 0 c.connHandle c.peer =
        Function.update d i { d i with connected := true, connHandle := c.connHandle }) ∨
    (∃ i, (d i).active = false ∧ (∀ j, (d j).active = true → (d j).peer ≠ c.peer) ∧
      d.connectionComplete 0 c.connHandle c.peer =
        Function.update d i { ApEslInfo.zero with
          active := true, peer := c.peer, connected := true, connHandle := c.connHandle }) ∨
    ((∀ j, (d j).active = true) ∧ d.connectionComplete 0 c.connHandle c.peer = d) := by
  unfold ApDevices.connectionComplete
  rw [if_pos rfl]
  cases hfind : d.getEslInfoByAddr c.peer with
  | some i =>
    have hi := of_first_eq_some hfind
    simp only [Bool.and_eq_true, decide_eq_true_eq] at hi
    exact .inl ⟨i, hi.1, hi.2, rfl⟩
  | none =>
    have hno : ∀ j, (d j).active = true → (d j).peer ≠ c.peer := by
      intro j hj hpeer
      have hj' := of_first_eq_none hfind j
      simp [hj, hpeer] at hj'
    unfold newEslInfo
    cases hfree : d.first (fun e => !e.active) with
    | some i =>
      have hi : (d i).active = false := by simpa using of_first_eq_some hfree
      refine .inr (.inl ⟨i, hi, hno, ?_⟩)
      simp [ApDevices.modify, ApEslInfo.zero]
    | none =>
      refine .inr (.inr ⟨fun j => ?_, rfl⟩)
      simpa using of_first_eq_none hfree j

theorem disconnect_spec (h : s.Inv) (connHandle : BitVec 16) :
    ApTable.Inv { s with devices := s.devices.disconnect connHandle } ∧
      ∀ i, (s.devices.disconnect connHandle i).connected = true →
        (s.devices.disconnect connHandle i).connHandle ≠ connHandle := by
  unfold ApDevices.disconnect
  cases hfind : s.devices.getEslInfoByConnHandle connHandle with
  | none =>
    refine ⟨h, fun j hj hhandle => ?_⟩
    have hj' := of_first_eq_none hfind j
    simp [hj, hhandle, h.active_of_connected hj] at hj'
  | some i =>
    have hi := of_first_eq_some hfind
    simp only [Bool.and_eq_true, decide_eq_true_eq] at hi
    obtain ⟨⟨hactive, hhandle⟩, hconn⟩ := hi
    refine ⟨h.modify i ⟨by simp [hactive], by simp, rfl, by simp⟩, fun j hj => ?_⟩
    by_cases hji : j = i
    · subst hji
      simp [ApDevices.modify] at hj
    · simp only [ApDevices.modify, Function.update_of_ne hji] at hj ⊢
      exact fun hjh => hji (h.connHandle_inj j i hj hconn (hjh.trans hhandle.symm))

/-- A connection is given the entry of its peer, a free one or none. -/
theorem connectionComplete_inv (h : s.Inv) (status : BitVec 8) (c : ApConn)
    (hok : ControllerOk s (.connectionComplete status c)) :
    (apStep s (.connectionComplete status c)).Inv := by
  by_cases hstatus : status = 0
  · subst hstatus
    have hnew := hok rfl
    simp only [apStep, if_true]
    rcases connectionComplete_cases s.devices c with
      ⟨i, hactive, hpeer, heq⟩ | ⟨i, -, hno, heq⟩ | ⟨-, heq⟩
    · rw [heq]
      refine h.connect hnew hactive rfl hpeer rfl fun j hji hj hjp => ?_
      exact hji (h.peer_inj j i hj hactive (hjp.trans hpeer.symm))
    · rw [heq]
      exact h.connect hnew rfl rfl rfl rfl fun j _ hj => hno j hj
    · rw [heq]
      exact h.refuse hnew
  · simp only [apStep, ApDevices.connectionComplete, if_neg hstatus]
    exact h

/-- A label is added to an entry that is in use. -/
theorem addEsl_inv (h : s.Inv) (argv : List CString) (added : Bool) :
    (apStep s (.addEsl argv added)).Inv := by
  simp only [apStep, ApDevices.cmdAddEsl]
  split
  · exact h
  case h_2 connHandle address _ =>
    unfold ApDevices.addEsl
    cases hfind : s.devices.getEslInfoByConnHandle connHandle with
    | none => exact h
    | some i =>
      have hi := of_first_eq_some hfind
      simp only [Bool.and_eq_true, decide_eq_true_eq] at hi
      dsimp only
      split
      · exact h
      · split
        · exact h.modify i ⟨by simp [hi.1.1], id, rfl, fun hc => ⟨hc, rfl⟩⟩
        · exact h

/-- A label is taken from an entry that is in use. -/
theorem rmEsl_inv (h : s.Inv) (argv : List CString) : (apStep s (.rmEsl argv)).Inv := by
  simp only [apStep, ApDevices.cmdRmEsl]
  split
  · exact h
  · split
    · exact h
    case h_2 i hfind =>
      have hi := of_first_eq_some hfind
      simp only [Bool.and_eq_true, decide_eq_true_eq] at hi
      exact h.modify i ⟨by simp [hi.1.1], by simp, rfl, fun hc => ⟨hc, rfl⟩⟩

/-- A step keeps the table in order. -/
theorem apStep_inv (s : ApTable) (e : ApEvent) (h : s.Inv) (hok : ControllerOk s e) :
    (apStep s e).Inv := by
  cases e with
  | connectionComplete status c => exact connectionComplete_inv h status c hok
  | disconnect connHandle =>
    obtain ⟨hinv, hnone⟩ := disconnect_spec h connHandle
    exact hinv.close hnone
  | advReport pending peer =>
    simp only [apStep, ApDevices.advReport]
    split
    · exact h
    · split
      · exact h
      · exact h.modify _ ⟨h.active_iff _, id, rfl, fun hc => ⟨hc, rfl⟩⟩
  | addEsl argv added => exact addEsl_inv h argv added
  | rmEsl argv => exact rmEsl_inv h argv
  | connV2 argv =>
    simp only [apStep, ApDevices.connV2]
    split
    · exact h
    · split
      · exact h
      · exact h.modify _ ⟨h.active_iff _, id, rfl, fun hc => ⟨hc, rfl⟩⟩
  | conn peer =>
    simp only [apStep, ApDevices.cmdConn]
    split
    · exact h
    · exact h.modify _ ⟨h.active_iff _, id, rfl, fun hc => ⟨hc, rfl⟩⟩

/-- No step loses its event. -/
theorem eventKept (s : ApTable) (e : ApEvent) (h : s.Inv) : EventKept s e := by
  cases e with
  | connectionComplete status c =>
    rintro rfl
    simp only [apStep]
    rcases connectionComplete_cases s.devices c with
      ⟨i, -, hpeer, heq⟩ | ⟨i, -, -, heq⟩ | ⟨hfull, -⟩
    · left
      rw [heq]
      exact ⟨i, by simp, by simpa using hpeer, by simp⟩
    · left
      rw [heq]
      exact ⟨i, by simp, by simp, by simp⟩
    · exact .inr hfull
  | disconnect connHandle => exact (disconnect_spec h connHandle).2
  | _ => trivial

end Steps

/-- In every order of events, the table is in order throughout, and no event is lost. -/
theorem device_table (events : List ApEvent)
    (h : Machine.Along apStep ControllerOk .powerOn events) :
    Machine.Always apStep ApTable.Ok .powerOn events ∧
      Machine.Along apStep EventKept .powerOn events :=
  ⟨Machine.always_of_invariant apStep_inv (fun _ hs => hs.toOk) powerOn_inv h,
    Machine.along_of_invariant apStep_inv (fun s e hs _ => eventKept s e hs) powerOn_inv h⟩

/-- A label is configured, disconnects, connects again, and is removed while it is connected. -/
theorem device_table_example :
    let c : ApConn := ⟨64, ⟨⟨#[1, 2, 3, 4, 5, 6], rfl⟩, 0⟩⟩
    let events := [.connectionComplete 0 c, .addEsl ["64".toList, "1".toList] true,
      .disconnect 64, .connectionComplete 0x3E c, .connectionComplete 0 ⟨65, c.peer⟩,
      .rmEsl ["1".toList], .disconnect 65]
    Machine.Always apStep ApTable.Ok .powerOn events ∧
      Machine.Along apStep EventKept .powerOn events :=
  device_table _ (by decide)

end TlBleSdk.Eslp
