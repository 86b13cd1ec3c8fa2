import TlBleSdk.Common.DeviceManage

/-!
# ATT handles of the peers

`dev_char_info_add_peer_att_handle` of `simple_sdp.c`. It looks for the connection handle
among the first `acl_conn_central_num` entries of the table. After a disconnection a connected
Central may lie behind them, and a free entry, whose handle is zero, among them.
-/

namespace TlBleSdk.Common

/-- The entry with the ATT handles of `info`. -/
def DevCharInfo.withHandles (e info : DevCharInfo) : DevCharInfo :=
  { e with charHandle := info.charHandle, charHandleValid := 1 }

namespace DeviceManage

variable {cfg : ConnConfig}

/-- The index at which the search of `dev_char_info_add_peer_att_handle` ends, if it is not
the number of connected Centrals. -/
def selectForHandles (s : DeviceManage cfg) (connHandle : ℕ) : Option ℕ :=
  (s.connDevList.take s.aclConnCentralNum).findIdx? fun e => e.connHandle = connHandle

/-- `dev_char_info_add_peer_att_handle`. -/
def devCharInfoAddPeerAttHandle (s : DeviceManage cfg) (info : DevCharInfo) :
    DeviceManage cfg × ℕ :=
  match s.selectForHandles info.connHandle with
  | some i =>
    ({ s with
       connDevList := s.connDevList.set i ((s.connDevList.getD i .zero).withHandles info)
       length_eq := List.length_set.trans s.length_eq }, 0)
  | none => (s, 1)

/-- The entry at `i` is a connected Central with the handle. -/
def CentralAt (s : DeviceManage cfg) (connHandle i : ℕ) : Prop :=
  i < cfg.aclCentralMaxNum ∧
    ∃ e, s.connDevList[i]? = some e ∧ e.connected = true ∧ e.connHandle = connHandle

/-- What is wanted of `dev_char_info_add_peer_att_handle`. -/
structure AddHandleOk (s : DeviceManage cfg) (info : DevCharInfo) : Prop where
  success : (s.devCharInfoAddPeerAttHandle info).2 = 0 ↔ ∃ i, s.CentralAt info.connHandle i
  /-- On success one entry has the handles, that of a connected Central. -/
  updates : (s.devCharInfoAddPeerAttHandle info).2 = 0 → ∃ i e, s.CentralAt info.connHandle i ∧
    s.connDevList[i]? = some e ∧ (s.devCharInfoAddPeerAttHandle info).1.connDevList =
      s.connDevList.set i (e.withHandles info)
  fails : (s.devCharInfoAddPeerAttHandle info).2 ≠ 0 →
    (s.devCharInfoAddPeerAttHandle info).1 = s

/-- A connected Central with the handle lies among the first `acl_conn_central_num` entries, if
there is one. If the handle is zero, no free entry is among them and before it. -/
structure Reaches (s : DeviceManage cfg) (connHandle : ℕ) : Prop where
  near : (∃ i, s.CentralAt connHandle i) → ∃ i < s.aclConnCentralNum, s.CentralAt connHandle i
  noFree : connHandle = 0 → ∀ i e, i < s.aclConnCentralNum → s.connDevList[i]? = some e →
    e.connected = false → ∃ j < i, s.CentralAt connHandle j

/-! ## The search -/

section

variable {s : DeviceManage cfg} {connHandle : ℕ}

/-- There are not more connected Centrals than entries for them. -/
theorem Consistent.centralNum_le (h : Consistent s) :
    s.aclConnCentralNum ≤ cfg.aclCentralMaxNum := by
  rw [h.central_eq]
  exact List.countP_le_length.trans (by rw [List.length_take]; omega)

/-- The search ends at the first of the entries with the handle. -/
theorem selectForHandles_eq_some {i : ℕ} (h : s.selectForHandles connHandle = some i) :
    i < s.aclConnCentralNum ∧
      (∃ e, s.connDevList[i]? = some e ∧ e.connHandle = connHandle) ∧
      ∀ j < i, ∀ e, s.connDevList[j]? = some e → e.connHandle ≠ connHandle := by
  obtain ⟨hlt, hsel, hfirst⟩ := List.findIdx?_eq_some_iff_getElem.mp h
  have hlen : i < s.aclConnCentralNum ∧ i < s.connDevList.length := by
    rw [List.length_take] at hlt
    omega
  refine ⟨hlen.1, ⟨s.connDevList[i], List.getElem?_eq_getElem hlen.2, ?_⟩, ?_⟩
  · rw [List.getElem_take] at hsel
    exact of_decide_eq_true hsel
  · intro j hj e he heq
    apply hfirst j hj
    rw [List.getElem_take, (List.getElem?_eq_some_iff.mp he).2]
    exact decide_eq_true heq

/-- The search finds nothing. -/
theorem selectForHandles_eq_none (h : s.selectForHandles connHandle = none) {i : ℕ}
    (hi : i < s.aclConnCentralNum) {e : DevCharInfo} (he : s.connDevList[i]? = some e) :
    e.connHandle ≠ connHandle := by
  have hmem : e ∈ s.connDevList.take s.aclConnCentralNum :=
    List.mem_of_getElem? ((List.getElem?_take_of_lt hi).trans he)
  have hno := List.findIdx?_eq_none_iff.mp h e hmem
  exact of_decide_eq_false hno

/-- A free entry among them is found before anything else, if the handle is zero. -/
theorem Consistent.free_handle (h : Consistent s) {i : ℕ} {e : DevCharInfo}
    (he : s.connDevList[i]? = some e) (hfree : e.connected = false) : e.connHandle = 0 := by
  rw [h.zero_of_free e (List.mem_of_getElem? he) hfree]
  rfl

/-! ## The update -/

theorem addPeerAttHandle_of_some {info : DevCharInfo} {i : ℕ}
    (h : s.selectForHandles info.connHandle = some i) {e : DevCharInfo}
    (he : s.connDevList[i]? = some e) :
    (s.devCharInfoAddPeerAttHandle info).2 = 0 ∧
      (s.devCharInfoAddPeerAttHandle info).1.connDevList =
        s.connDevList.set i (e.withHandles info) := by
  have hget : s.connDevList.getD i .zero = e := by
    rw [List.getD_eq_getElem?_getD, he]
    rfl
  unfold devCharInfoAddPeerAttHandle
  rw [h, ← hget]
  exact ⟨rfl, rfl⟩

theorem addPeerAttHandle_of_none {info : DevCharInfo}
    (h : s.selectForHandles info.connHandle = none) :
    s.devCharInfoAddPeerAttHandle info = (s, 1) := by
  unfold devCharInfoAddPeerAttHandle
  rw [h]

/-- An update of a free entry is not an update of another one. -/
theorem withHandles_ne_of_free {e info : DevCharInfo} (h : e = .zero) : e.withHandles info ≠ e := by
  rw [h]
  intro heq
  have hvalid : 1 = 0 := congrArg DevCharInfo.charHandleValid heq
  cases hvalid

/-- Where the search finds nothing, there has to be nothing to find. -/
theorem Consistent.addHandleOk_of_none (h : Consistent s) {info : DevCharInfo}
    (hsel : s.selectForHandles info.connHandle = none) :
    AddHandleOk s info ↔ Reaches s info.connHandle := by
  have hadd := addPeerAttHandle_of_none hsel
  have hfail : ¬ (s.devCharInfoAddPeerAttHandle info).2 = 0 := by
    rw [hadd]
    exact Nat.one_ne_zero
  constructor
  · intro hok
    refine ⟨fun hyes => absurd (hok.success.mpr hyes) hfail, fun hzero i e hi he hfree => ?_⟩
    exact absurd ((h.free_handle he hfree).trans hzero.symm) (selectForHandles_eq_none hsel hi he)
  · intro hreach
    have hno : ¬ ∃ i, s.CentralAt info.connHandle i := by
      intro hyes
      obtain ⟨i, hi, -, e, he, -, hhandle⟩ := hreach.near hyes
      exact selectForHandles_eq_none hsel hi he hhandle
    exact ⟨iff_of_false hfail hno, fun hsuccess => absurd hsuccess hfail, fun _ => by rw [hadd]⟩

/-- Where it finds an entry, that one has to be connected. -/
theorem Consistent.addHandleOk_of_some (h : Consistent s) {info : DevCharInfo} {i : ℕ}
    (hsel : s.selectForHandles info.connHandle = some i) :
    AddHandleOk s info ↔ Reaches s info.connHandle := by
  obtain ⟨hi, ⟨e, he, hhandle⟩, hfirst⟩ := selectForHandles_eq_some hsel
  obtain ⟨hsuccess, hlist⟩ := addPeerAttHandle_of_some hsel he
  have hmax := Nat.lt_of_lt_of_le hi h.centralNum_le
  constructor
  · intro hok
    have hconn : e.connected = true := by
      by_contra hfree
      rw [Bool.not_eq_true] at hfree
      have hne : e.withHandles info ≠ e :=
        withHandles_ne_of_free (h.zero_of_free e (List.mem_of_getElem? he) hfree)
      obtain ⟨j, e', ⟨-, e'', he'', hconn, -⟩, he', hset⟩ := hok.updates hsuccess
      rw [hlist] at hset
      have hlt := (List.getElem?_eq_some_iff.mp he).1
      have hat := congrArg (·[i]?) hset
      simp only [List.getElem?_set_self hlt] at hat
      by_cases hij : j = i
      · rw [hij, he] at he''
        cases he''
        rw [hfree] at hconn
        cases hconn
      · rw [List.getElem?_set_ne hij, he] at hat
        exact hne (Option.some.inj hat)
    have hcentral : s.CentralAt info.connHandle i := ⟨hmax, e, he, hconn, hhandle⟩
    refine ⟨fun _ => ⟨i, hi, hcentral⟩, fun hzero k e' hk he' hfree => ⟨i, ?_, hcentral⟩⟩
    -- A free entry has the handle too, so it does not come first.
    by_contra hle
    rcases Nat.lt_or_eq_of_le (Nat.not_lt.mp hle) with hlt | rfl
    · exact hfirst k hlt e' he' ((h.free_handle he' hfree).trans hzero.symm)
    · rw [he] at he'
      cases he'
      rw [hfree] at hconn
      cases hconn
  · intro hreach
    have hconn : e.connected = true := by
      by_contra hfree
      rw [Bool.not_eq_true] at hfree
      obtain ⟨j, hj, -, e', he', -, hhandle'⟩ := hreach.noFree
        (hhandle.symm.trans (h.free_handle he hfree)) i e hi he hfree
      exact hfirst j hj e' he' hhandle'
    have hcentral : s.CentralAt info.connHandle i := ⟨hmax, e, he, hconn, hhandle⟩
    exact ⟨iff_of_true hsuccess ⟨i, hcentral⟩, fun _ => ⟨i, e, hcentral, he, hlist⟩,
      fun hfail => absurd hsuccess hfail⟩

end

/-! ## After any history -/

/-- After every history of connections and disconnections, the ATT handles get to the
connected Central with the connection handle, and only there, exactly if it is among the
first `acl_conn_central_num` entries, with no free entry taken for it. -/
theorem addHandleOk_iff (cfg : ConnConfig) (ops : List DevOp) (info : DevCharInfo) :
    AddHandleOk (Machine.run devStep (init cfg) ops) info ↔
      Reaches (Machine.run devStep (init cfg) ops) info.connHandle := by
  have hrun : Consistent (Machine.run devStep (init cfg) ops) :=
    Machine.run_invariant (fun _ op h _ => h.step op) (Consistent.init cfg)
      (Machine.along_true _ ops)
  cases hsel : selectForHandles (Machine.run devStep (init cfg) ops) info.connHandle with
  | none => exact hrun.addHandleOk_of_none hsel
  | some i => exact hrun.addHandleOk_of_some hsel

/-- Two Centrals connect, and the first one disconnects. -/
def secondCentral : List DevOp :=
  [.insertByConnEvent ⟨aclRoleCentral, 0x80, 0, fun _ => 1⟩,
    .insertByConnEvent ⟨aclRoleCentral, 0x81, 0, fun _ => 2⟩, .deleteByConnhandle 0x80]

/-- The second one is not found any more. -/
theorem not_addHandleOk_secondCentral :
    ¬ ∀ (cfg : ConnConfig) (ops : List DevOp) (info : DevCharInfo),
      AddHandleOk (Machine.run devStep (init cfg) ops) info := by
  intro h
  have hok := h ⟨4, 0, by decide⟩ secondCentral { DevCharInfo.zero with connHandle := 0x81 }
  have hcentral : CentralAt (Machine.run devStep (init ⟨4, 0, by decide⟩) secondCentral) 0x81 1 :=
    ⟨by decide, _, rfl, rfl, rfl⟩
  exact absurd (hok.success.mpr ⟨1, hcentral⟩) (by decide)

end DeviceManage

end TlBleSdk.Common
