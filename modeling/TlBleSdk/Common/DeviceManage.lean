import TlBleSdk.Hci.TrDef
import TlBleSdk.Lib.Run
import Mathlib.Data.Fintype.Pi

/-!
# The connection table

`device_manage.c`: the list of connected devices, the ACL Centrals first and the ACL
Peripherals behind them, and the two counters of connections.

The table is consistent in every state. The lookups by connection handle find exactly the
connected entries. `dev_char_info_search_by_peer_mac_address` does not look at `conn_state`,
so the key zero finds a free entry, and neither it nor the delete by address looks for a
resolvable private address.
-/

namespace TlBleSdk.Common

/-- `BLE_ADDR_RANDOM`. -/
def bleAddrRandom : UInt8 := 1

def aclRoleCentral : ℕ := 0
def aclRolePeripheral : ℕ := 1
def invalidConnIdx : ℕ := 0xFF

/-- `CHAR_HANDLE_MAX`. -/
def charHandleMax : ℕ := 8

/-- A device address. -/
abbrev BdAddr := Fin 6 → UInt8

/-- `IS_RESOLVABLE_PRIVATE_ADDR`. -/
def isResolvablePrivateAddr (adrType : UInt8) (addr : BdAddr) : Bool :=
  adrType = bleAddrRandom ∧ addr 5 &&& 0xC0 = 0x40

/-- `dev_char_info_t`. -/
structure DevCharInfo where
  connHandle : ℕ
  connRole : ℕ
  connState : ℕ
  charHandleValid : ℕ
  rsvd : Fin 3 → UInt8
  peerAdrType : UInt8
  peerAddr : BdAddr
  peerRPA : UInt8
  charHandle : Fin charHandleMax → ℕ
deriving DecidableEq

/-- An entry set to zero. -/
def DevCharInfo.zero : DevCharInfo := ⟨0, 0, 0, 0, fun _ => 0, 0, fun _ => 0, 0, fun _ => 0⟩

/-- The entry is connected. -/
def DevCharInfo.connected (e : DevCharInfo) : Bool := e.connState ≠ 0

/-- The entry has the address. -/
def DevCharInfo.hasAddr (e : DevCharInfo) (adrType : UInt8) (addr : BdAddr) : Bool :=
  adrType = e.peerAdrType ∧ addr = e.peerAddr

/-- The numbers of connections that the table is built for. `INVALID_CONN_IDX` is no index
of it. -/
structure ConnConfig where
  aclCentralMaxNum : ℕ
  aclPeriphrMaxNum : ℕ
  le : aclCentralMaxNum + aclPeriphrMaxNum ≤ invalidConnIdx

/-- `conn_dev_list` and the counters. -/
structure DeviceManage (cfg : ConnConfig) where
  connDevList : List DevCharInfo
  length_eq : connDevList.length = cfg.aclCentralMaxNum + cfg.aclPeriphrMaxNum
  aclConnCentralNum : ℕ
  aclConnPeriphrNum : ℕ

/-- What the connection complete events tell about a connection. -/
structure ConnCompleteEvt where
  role : ℕ
  connHandle : ℕ
  peerAddrType : UInt8
  peerAddr : BdAddr

namespace DeviceManage

variable {cfg : ConnConfig}

/-- The table at power-on. -/
def init (cfg : ConnConfig) : DeviceManage cfg where
  connDevList := List.replicate (cfg.aclCentralMaxNum + cfg.aclPeriphrMaxNum) .zero
  length_eq := List.length_replicate
  aclConnCentralNum := 0
  aclConnPeriphrNum := 0

/-! ## Inserting -/

/-- The first free index in the range of the role. -/
def firstFree (s : DeviceManage cfg) (role : ℕ) : Option ℕ :=
  if role = aclRoleCentral then
    (s.connDevList.take cfg.aclCentralMaxNum).findIdx? fun e => !e.connected
  else if role = aclRolePeripheral then
    ((s.connDevList.drop cfg.aclCentralMaxNum).findIdx? fun e => !e.connected).map
      (cfg.aclCentralMaxNum + ·)
  else none

/-- What the three inserts share: `entry` goes to the first free index of the role. -/
def insertEntry (s : DeviceManage cfg) (role : ℕ) (entry : DevCharInfo) :
    DeviceManage cfg × ℕ :=
  match s.firstFree role with
  | none => (s, invalidConnIdx)
  | some index =>
    ({ connDevList := s.connDevList.set index entry
       length_eq := List.length_set.trans s.length_eq
       aclConnCentralNum :=
         -- the counters are bytes; what is not central is counted as peripheral
         if role = aclRoleCentral then u8 (s.aclConnCentralNum + 1) else s.aclConnCentralNum
       aclConnPeriphrNum :=
         if role = aclRoleCentral then s.aclConnPeriphrNum else u8 (s.aclConnPeriphrNum + 1) },
      index)

/-- `dev_char_info_insert`. -/
def devCharInfoInsert (s : DeviceManage cfg) (info : DevCharInfo) : DeviceManage cfg × ℕ :=
  s.insertEntry info.connRole { info with connState := 1 }

/-- The entry of a connection complete event. -/
def ofConnEvent (evt : ConnCompleteEvt) : DevCharInfo :=
  { DevCharInfo.zero with
    connHandle := evt.connHandle
    connRole := evt.role
    connState := 1
    peerAdrType := evt.peerAddrType
    peerAddr := evt.peerAddr }

/-- `dev_char_info_insert_by_conn_event`. -/
def devCharInfoInsertByConnEvent (s : DeviceManage cfg) (pConnEvt : ConnCompleteEvt) :
    DeviceManage cfg × ℕ :=
  s.insertEntry pConnEvt.role (ofConnEvent pConnEvt)

/-- `dev_char_info_insert_by_enhanced_conn_event`. -/
def devCharInfoInsertByEnhancedConnEvent (s : DeviceManage cfg) (pConnEvt : ConnCompleteEvt) :
    DeviceManage cfg × ℕ :=
  s.insertEntry pConnEvt.role (ofConnEvent pConnEvt)

/-! ## Deleting -/

/-- What the deletes share: the entry at `index` is cleared. -/
def deleteAt (s : DeviceManage cfg) (index : ℕ) : DeviceManage cfg :=
  let role := (s.connDevList.getD index .zero).connRole
  { connDevList := s.connDevList.set index .zero
    length_eq := List.length_set.trans s.length_eq
    aclConnCentralNum :=
      if role = aclRoleCentral then u8 (s.aclConnCentralNum + 255) else s.aclConnCentralNum
    aclConnPeriphrNum :=
      if role = aclRoleCentral then s.aclConnPeriphrNum else u8 (s.aclConnPeriphrNum + 255) }

/-- The entry that a connection handle selects. -/
def selectByConnhandle (s : DeviceManage cfg) (connhandle : ℕ) : Option ℕ :=
  s.connDevList.findIdx? fun e => e.connHandle = connhandle ∧ e.connected

/-- `dev_char_info_delete_by_connhandle`. -/
def devCharInfoDeleteByConnhandle (s : DeviceManage cfg) (connhandle : ℕ) :
    DeviceManage cfg × ℕ :=
  match s.selectByConnhandle connhandle with
  | some index => (s.deleteAt index, 0)
  | none => (s, 1)

/-- The entry that `dev_char_info_delete_by_peer_mac_address` selects. -/
def deleteSelectByMac (s : DeviceManage cfg) (adrType : UInt8) (addr : BdAddr) : Option ℕ :=
  s.connDevList.findIdx? fun e =>
    -- a resolvable address is never equal to one of the table
    e.connected && !isResolvablePrivateAddr adrType addr && e.hasAddr adrType addr

/-- `dev_char_info_delete_by_peer_mac_address`. -/
def devCharInfoDeleteByPeerMacAddress (s : DeviceManage cfg) (adrType : UInt8)
    (addr : BdAddr) : DeviceManage cfg × ℕ :=
  match s.deleteSelectByMac adrType addr with
  | some index => (s.deleteAt index, 0)
  | none => (s, 1)

/-! ## Searching -/

/-- `dev_char_info_search_by_connhandle`: the index of the entry. -/
def devCharInfoSearchByConnhandle (s : DeviceManage cfg) (connhandle : ℕ) : Option ℕ :=
  s.selectByConnhandle connhandle

/-- `dev_char_info_search_by_peer_mac_address`: the index of the entry. -/
def devCharInfoSearchByPeerMacAddress (s : DeviceManage cfg) (adrType : UInt8)
    (addr : BdAddr) : Option ℕ :=
  s.connDevList.findIdx? fun e =>
    -- here an entry that is not connected is taken too
    !isResolvablePrivateAddr adrType addr && e.hasAddr adrType addr

/-- `dev_char_info_is_connection_state_by_conn_handle`. -/
def devCharInfoIsConnectionStateByConnHandle (s : DeviceManage cfg) (connhandle : ℕ) : Bool :=
  (s.selectByConnhandle connhandle).isSome

/-- `dev_char_get_conn_role_by_connhandle`. -/
def devCharGetConnRoleByConnhandle (s : DeviceManage cfg) (connhandle : ℕ) : ℕ :=
  match s.selectByConnhandle connhandle with
  | some index => (s.connDevList.getD index .zero).connRole
  | none => 2

/-- `dev_char_get_conn_index_by_connhandle`. -/
def devCharGetConnIndexByConnhandle (s : DeviceManage cfg) (connhandle : ℕ) : ℕ :=
  (s.selectByConnhandle connhandle).getD invalidConnIdx

end DeviceManage

open DeviceManage

/-- The operations that change the table. -/
inductive DevOp
  | insert (info : DevCharInfo)
  | insertByConnEvent (evt : ConnCompleteEvt)
  | insertByEnhancedConnEvent (evt : ConnCompleteEvt)
  | deleteByConnhandle (connhandle : ℕ)
  | deleteByPeerMacAddress (adrType : UInt8) (addr : BdAddr)

variable {cfg : ConnConfig}

/-- An operation, with what it returns. -/
def DevOp.apply (s : DeviceManage cfg) : DevOp → DeviceManage cfg × ℕ
  | .insert info => s.devCharInfoInsert info
  | .insertByConnEvent evt => s.devCharInfoInsertByConnEvent evt
  | .insertByEnhancedConnEvent evt => s.devCharInfoInsertByEnhancedConnEvent evt
  | .deleteByConnhandle connhandle => s.devCharInfoDeleteByConnhandle connhandle
  | .deleteByPeerMacAddress adrType addr => s.devCharInfoDeleteByPeerMacAddress adrType addr

/-- A step of the table. -/
def devStep (s : DeviceManage cfg) (op : DevOp) : DeviceManage cfg := (op.apply s).1

namespace DeviceManage

/-! ## Consistency -/

/-- The role of the range in which an index lies. -/
def roleOf (cfg : ConnConfig) (index : ℕ) : ℕ :=
  if index < cfg.aclCentralMaxNum then aclRoleCentral else aclRolePeripheral

/-- The counters are those of the table, and every entry is in its range or zero. -/
structure Consistent (s : DeviceManage cfg) : Prop where
  central_eq : s.aclConnCentralNum =
    (s.connDevList.take cfg.aclCentralMaxNum).countP DevCharInfo.connected
  periphr_eq : s.aclConnPeriphrNum =
    (s.connDevList.drop cfg.aclCentralMaxNum).countP DevCharInfo.connected
  role_eq : ∀ i e, s.connDevList[i]? = some e → e.connected = true → e.connRole = roleOf cfg i
  zero_of_free : ∀ e ∈ s.connDevList, e.connected = false → e = .zero

theorem Consistent.init (cfg : ConnConfig) : Consistent (DeviceManage.init cfg) where
  central_eq := by
    simp only [DeviceManage.init, List.take_replicate]
    exact (List.countP_replicate.trans (if_neg (by decide))).symm
  periphr_eq := by
    simp only [DeviceManage.init, List.drop_replicate]
    exact (List.countP_replicate.trans (if_neg (by decide))).symm
  role_eq i e he hconn := by
    rw [List.eq_of_mem_replicate (List.mem_of_getElem? he)] at hconn
    exact absurd hconn (by decide)
  zero_of_free e he _ := List.eq_of_mem_replicate he

/-- Setting an entry changes the count of connected ones by that entry. -/
theorem countP_set_add (new : DevCharInfo) {old : DevCharInfo} {l : List DevCharInfo} {i : ℕ}
    (hi : l[i]? = some old) :
    (l.set i new).countP DevCharInfo.connected + old.connected.toNat =
      l.countP DevCharInfo.connected + new.connected.toNat := by
  induction l generalizing i with
  | nil => simp at hi
  | cons e l ih =>
    cases i with
    | zero =>
      obtain rfl : e = old := by simpa using hi
      simp only [List.set_cons_zero, List.countP_cons]
      cases e.connected <;> cases new.connected <;> rfl
    | succ i =>
      have hrest := ih (i := i) (by simpa using hi)
      simp only [List.set_cons_succ, List.countP_cons]
      omega

/-- The connected entries in the range of a role. -/
def countIn (s : DeviceManage cfg) (central : Bool) : ℕ :=
  if central then (s.connDevList.take cfg.aclCentralMaxNum).countP DevCharInfo.connected
  else (s.connDevList.drop cfg.aclCentralMaxNum).countP DevCharInfo.connected

theorem countIn_le (s : DeviceManage cfg) (central : Bool) : s.countIn central ≤ 255 := by
  have hle : cfg.aclCentralMaxNum + cfg.aclPeriphrMaxNum ≤ 255 := cfg.le
  have hlen := s.length_eq
  have hcount : s.countIn central ≤ s.connDevList.length := by
    unfold countIn
    split
    · exact List.countP_le_length.trans (by rw [List.length_take]; omega)
    · exact List.countP_le_length.trans (by rw [List.length_drop]; omega)
  omega

/-- Setting an entry changes the count of its range only. -/
theorem countIn_set {s s' : DeviceManage cfg} {i : ℕ} {old new : DevCharInfo}
    (hi : s.connDevList[i]? = some old) (hlist : s'.connDevList = s.connDevList.set i new)
    (central : Bool) :
    s'.countIn central + (if central = decide (i < cfg.aclCentralMaxNum) then
        old.connected.toNat else 0) =
      s.countIn central + (if central = decide (i < cfg.aclCentralMaxNum) then
        new.connected.toNat else 0) := by
  unfold countIn
  rw [hlist]
  by_cases hlt : i < cfg.aclCentralMaxNum
  · have htake := countP_set_add new
      ((List.getElem?_take_of_lt hlt (l := s.connDevList)).trans hi)
    cases central
    · simp [hlt, List.drop_set_of_lt hlt]
    · simp [hlt, List.take_set, htake]
  · have hdrop : (s.connDevList.drop cfg.aclCentralMaxNum)[i - cfg.aclCentralMaxNum]? =
        some old := by
      rw [List.getElem?_drop, Nat.add_sub_cancel' (Nat.le_of_not_lt hlt), hi]
    have hset := countP_set_add new hdrop
    cases central
    · simp [hlt, List.drop_set, hset]
    · simp [hlt, List.take_set_of_le (Nat.le_of_not_lt hlt)]

/-- The counter of a range. -/
def counter (s : DeviceManage cfg) (central : Bool) : ℕ :=
  if central then s.aclConnCentralNum else s.aclConnPeriphrNum

theorem Consistent.counter_eq {s : DeviceManage cfg} (h : Consistent s) (central : Bool) :
    s.counter central = s.countIn central := by
  cases central
  · exact h.periphr_eq
  · exact h.central_eq

/-- Setting an entry, with the counters that go with it, keeps the table consistent. -/
theorem Consistent.set {s s' : DeviceManage cfg} (h : Consistent s) {i : ℕ}
    {old new : DevCharInfo} (hi : s.connDevList[i]? = some old)
    (hlist : s'.connDevList = s.connDevList.set i new)
    (hrole : new.connected = true → new.connRole = roleOf cfg i)
    (hzero : new.connected = false → new = .zero)
    (hcount : ∀ central, s'.counter central + (if central = decide (i < cfg.aclCentralMaxNum)
        then old.connected.toNat else 0) =
      s.counter central + (if central = decide (i < cfg.aclCentralMaxNum) then
        new.connected.toNat else 0)) : Consistent s' := by
  have heq : ∀ central, s'.counter central = s'.countIn central := by
    intro central
    have hset := countIn_set hi hlist central
    have hold := h.counter_eq central
    have hnew := hcount central
    omega
  refine ⟨heq true, heq false, ?_, ?_⟩
  · intro j e he hconn
    rw [hlist, List.getElem?_set] at he
    split at he
    · rename_i hij
      subst hij
      split at he
      · cases he
        exact hrole hconn
      · cases he
    · exact h.role_eq j e he hconn
  · intro e he hfree
    rw [hlist] at he
    rcases List.mem_or_eq_of_mem_set he with hmem | rfl
    · exact h.zero_of_free e hmem hfree
    · exact hzero hfree

/-- Where an insert finds its index. -/
theorem firstFree_spec {s : DeviceManage cfg} {role i : ℕ} (h : s.firstFree role = some i) :
    ∃ old, s.connDevList[i]? = some old ∧ old.connected = false ∧ role = roleOf cfg i := by
  unfold firstFree at h
  split at h
  · obtain ⟨hlt, hfree, -⟩ := List.findIdx?_eq_some_iff_getElem.mp h
    rw [List.length_take] at hlt
    refine ⟨s.connDevList[i], List.getElem?_eq_getElem (by omega), ?_, ?_⟩
    · rw [List.getElem_take] at hfree
      simpa using hfree
    · rw [roleOf, if_pos (by omega)]
      assumption
  · split at h
    · obtain ⟨j, hj, rfl⟩ := Option.map_eq_some_iff.mp h
      obtain ⟨hlt, hfree, -⟩ := List.findIdx?_eq_some_iff_getElem.mp hj
      rw [List.length_drop] at hlt
      refine ⟨s.connDevList[cfg.aclCentralMaxNum + j], List.getElem?_eq_getElem (by omega), ?_, ?_⟩
      · rw [List.getElem_drop] at hfree
        simpa using hfree
      · rw [roleOf, if_neg (by omega)]
        assumption
    · cases h

/-- The range of a role. -/
theorem role_central_iff {i role : ℕ} (h : role = roleOf cfg i) :
    role = aclRoleCentral ↔ i < cfg.aclCentralMaxNum := by
  rw [h, roleOf]
  split
  · exact iff_of_true rfl (by assumption)
  · exact iff_of_false (by decide) (by assumption)

theorem Consistent.insertEntry {s : DeviceManage cfg} (h : Consistent s) {role : ℕ}
    {entry : DevCharInfo} (hrole : entry.connRole = role) (hconn : entry.connected = true) :
    Consistent (s.insertEntry role entry).1 := by
  cases hi : s.firstFree role with
  | none =>
    rw [DeviceManage.insertEntry, hi]
    exact h
  | some i =>
    obtain ⟨old, hold, hfree, hroleOf⟩ := firstFree_spec hi
    have hlist : (s.insertEntry role entry).1.connDevList = s.connDevList.set i entry := by
      rw [DeviceManage.insertEntry, hi]
    have hcounter : ∀ central, (s.insertEntry role entry).1.counter central =
        if central = decide (i < cfg.aclCentralMaxNum) then u8 (s.counter central + 1)
        else s.counter central := by
      intro central
      simp only [DeviceManage.insertEntry, hi, counter, ← role_central_iff hroleOf]
      by_cases hr : role = aclRoleCentral <;> cases central <;> simp [hr]
    apply h.set hold hlist
    · exact fun _ => hrole.trans hroleOf
    · exact fun hno => absurd (hno.symm.trans hconn) (by decide)
    · intro central
      have hset := countIn_set hold hlist central
      have hle := countIn_le (s.insertEntry role entry).1 central
      rw [hcounter, h.counter_eq, hfree, hconn]
      rw [hfree, hconn] at hset
      by_cases hc : central = decide (i < cfg.aclCentralMaxNum)
      · simp only [if_pos hc, Bool.toNat_false, Bool.toNat_true] at hset ⊢
        rw [u8_of_lt (by omega), Nat.add_zero]
      · simp only [if_neg hc]

/-- A selected entry. -/
theorem select_spec {s : DeviceManage cfg} {p : DevCharInfo → Bool} {i : ℕ}
    (h : s.connDevList.findIdx? p = some i) :
    ∃ e, s.connDevList[i]? = some e ∧ p e = true := by
  obtain ⟨hlt, hp, -⟩ := List.findIdx?_eq_some_iff_getElem.mp h
  exact ⟨_, List.getElem?_eq_getElem hlt, hp⟩

theorem Consistent.deleteAt {s : DeviceManage cfg} (h : Consistent s) {i : ℕ} {e : DevCharInfo}
    (he : s.connDevList[i]? = some e) (hconn : e.connected = true) :
    Consistent (s.deleteAt i) := by
  have hroleOf := h.role_eq i e he hconn
  have hgetD : s.connDevList.getD i .zero = e := by
    rw [List.getD_eq_getElem?_getD, he]
    rfl
  have hlist : (s.deleteAt i).connDevList = s.connDevList.set i .zero := rfl
  have hcounter : ∀ central, (s.deleteAt i).counter central =
      if central = decide (i < cfg.aclCentralMaxNum) then u8 (s.counter central + 255)
      else s.counter central := by
    intro central
    simp only [DeviceManage.deleteAt, hgetD, counter, ← role_central_iff hroleOf]
    by_cases hr : e.connRole = aclRoleCentral <;> cases central <;> simp [hr]
  apply h.set he hlist
  · exact fun hno => absurd hno (by decide)
  · exact fun _ => rfl
  · intro central
    have hset := countIn_set he hlist central
    have hle := countIn_le s central
    have hzero : DevCharInfo.zero.connected = false := by decide
    rw [hcounter, h.counter_eq, hzero, hconn]
    rw [hzero, hconn] at hset
    by_cases hc : central = decide (i < cfg.aclCentralMaxNum)
    · simp only [if_pos hc, Bool.toNat_false, Bool.toNat_true] at hset ⊢
      unfold u8
      omega
    · simp only [if_neg hc]

theorem Consistent.step {s : DeviceManage cfg} (h : Consistent s) (op : DevOp) :
    Consistent (devStep s op) := by
  cases op with
  | insert info => exact h.insertEntry rfl rfl
  | insertByConnEvent evt => exact h.insertEntry rfl rfl
  | insertByEnhancedConnEvent evt => exact h.insertEntry rfl rfl
  | deleteByConnhandle connhandle =>
    show Consistent (s.devCharInfoDeleteByConnhandle connhandle).1
    unfold devCharInfoDeleteByConnhandle
    cases hi : s.selectByConnhandle connhandle with
    | none => exact h
    | some i =>
      obtain ⟨e, he, hsel⟩ := select_spec hi
      exact h.deleteAt he (of_decide_eq_true hsel).2
  | deleteByPeerMacAddress adrType addr =>
    show Consistent (s.devCharInfoDeleteByPeerMacAddress adrType addr).1
    unfold devCharInfoDeleteByPeerMacAddress
    cases hi : s.deleteSelectByMac adrType addr with
    | none => exact h
    | some i =>
      obtain ⟨e, he, hsel⟩ := select_spec hi
      simp only [Bool.and_eq_true] at hsel
      exact h.deleteAt he hsel.1.1

/-! ## Lookups -/

/-- An entry is connected under a handle. -/
def HasHandle (s : DeviceManage cfg) (connhandle : ℕ) : Prop :=
  ∃ e ∈ s.connDevList, e.connected = true ∧ e.connHandle = connhandle

/-- An entry is connected under an address. -/
def HasAddr (s : DeviceManage cfg) (adrType : UInt8) (addr : BdAddr) : Prop :=
  ∃ e ∈ s.connDevList, e.connected = true ∧ e.hasAddr adrType addr = true

/-- The lookups by connection handle return an entry exactly if a connected one has the
handle, and then it is one. -/
structure HandleLookupOk (s : DeviceManage cfg) (connhandle : ℕ) : Prop where
  found : ∀ i, s.devCharInfoSearchByConnhandle connhandle = some i →
    ∃ e, s.connDevList[i]? = some e ∧ e.connected = true ∧ e.connHandle = connhandle
  search : s.devCharInfoSearchByConnhandle connhandle ≠ none ↔ s.HasHandle connhandle
  state : s.devCharInfoIsConnectionStateByConnHandle connhandle = true ↔ s.HasHandle connhandle
  role : s.devCharGetConnRoleByConnhandle connhandle ≠ 2 ↔ s.HasHandle connhandle
  index : s.devCharGetConnIndexByConnhandle connhandle ≠ invalidConnIdx ↔
    s.HasHandle connhandle

/-- The lookup by address returns an entry exactly if a connected one has the address, and
the delete by address selects the same. -/
structure AddrLookupOk (s : DeviceManage cfg) (adrType : UInt8) (addr : BdAddr) : Prop where
  found : ∀ i, s.devCharInfoSearchByPeerMacAddress adrType addr = some i →
    ∃ e, s.connDevList[i]? = some e ∧ e.connected = true ∧ e.hasAddr adrType addr = true
  search : s.devCharInfoSearchByPeerMacAddress adrType addr ≠ none ↔ s.HasAddr adrType addr
  select : s.devCharInfoSearchByPeerMacAddress adrType addr = s.deleteSelectByMac adrType addr

/-- The address is no resolvable private one of a connected entry, and not zero with a free
entry before every connected one that has it. -/
def AddrSearchable (s : DeviceManage cfg) (adrType : UInt8) (addr : BdAddr) : Prop :=
  (isResolvablePrivateAddr adrType addr = true → ¬ s.HasAddr adrType addr) ∧
    (adrType = 0 → addr = (fun _ => 0) → ∀ (i : ℕ) (e : DevCharInfo),
      s.connDevList[i]? = some e → e.connected = false →
        ∃ j < i, ∃ e' : DevCharInfo, s.connDevList[j]? = some e' ∧ e'.connected = true ∧
          e'.hasAddr adrType addr = true)

theorem Consistent.handleLookupOk {s : DeviceManage cfg} (h : Consistent s) (connhandle : ℕ) :
    HandleLookupOk s connhandle := by
  have hnone : s.selectByConnhandle connhandle = none ↔ ¬ s.HasHandle connhandle := by
    unfold selectByConnhandle HasHandle
    rw [List.findIdx?_eq_none_iff]
    simp [and_comm]
  have hfound : ∀ i, s.selectByConnhandle connhandle = some i →
      ∃ e, s.connDevList[i]? = some e ∧ e.connected = true ∧ e.connHandle = connhandle := by
    intro i hi
    obtain ⟨e, he, hsel⟩ := select_spec hi
    exact ⟨e, he, (of_decide_eq_true hsel).2, (of_decide_eq_true hsel).1⟩
  cases hsel : s.selectByConnhandle connhandle with
  | none =>
    have hno := hnone.mp hsel
    exact
      { found := hfound
        search := iff_of_false (by simp [devCharInfoSearchByConnhandle, hsel]) hno
        state := iff_of_false (by simp [devCharInfoIsConnectionStateByConnHandle, hsel]) hno
        role := iff_of_false (by simp [devCharGetConnRoleByConnhandle, hsel]) hno
        index := iff_of_false (by simp [devCharGetConnIndexByConnhandle, hsel]) hno }
  | some i =>
    obtain ⟨e, he, hconn, hhandle⟩ := hfound i hsel
    have hyes : s.HasHandle connhandle := ⟨e, List.mem_of_getElem? he, hconn, hhandle⟩
    have hrole : e.connRole ≠ 2 := by
      rw [h.role_eq i e he hconn, roleOf]
      split <;> decide
    have hlt := (List.getElem?_eq_some_iff.mp he).1
    have hidx : i ≠ invalidConnIdx := by
      have hle := cfg.le
      rw [s.length_eq] at hlt
      omega
    exact
      { found := hfound
        search := iff_of_true (by simp [devCharInfoSearchByConnhandle, hsel]) hyes
        state := iff_of_true (by simp [devCharInfoIsConnectionStateByConnHandle, hsel]) hyes
        role := iff_of_true (by
          simp [devCharGetConnRoleByConnhandle, hsel, List.getD_eq_getElem?_getD, he, hrole]) hyes
        index := iff_of_true (by simpa [devCharGetConnIndexByConnhandle, hsel] using hidx) hyes }

/-- The key zero is that of every free entry, and another key of none. -/
theorem Consistent.hasAddr_free {s : DeviceManage cfg} (h : Consistent s) {e : DevCharInfo}
    (he : e ∈ s.connDevList) (hfree : e.connected = false) (adrType : UInt8) (addr : BdAddr) :
    e.hasAddr adrType addr = true ↔ adrType = 0 ∧ addr = fun _ => 0 := by
  rw [h.zero_of_free e he hfree]
  exact decide_eq_true_iff

/-- No resolvable private address is found by address. -/
theorem search_of_resolvable (s : DeviceManage cfg) {adrType : UInt8} {addr : BdAddr}
    (hrpa : isResolvablePrivateAddr adrType addr = true) :
    s.devCharInfoSearchByPeerMacAddress adrType addr = none ∧
      s.deleteSelectByMac adrType addr = none := by
  constructor
  · rw [devCharInfoSearchByPeerMacAddress, List.findIdx?_eq_none_iff]
    simp [hrpa]
  · rw [deleteSelectByMac, List.findIdx?_eq_none_iff]
    simp [hrpa]

/-- The delete by address selects a connected entry with the address, if there is one. -/
theorem deleteSelect_ne_none_iff (s : DeviceManage cfg) {adrType : UInt8} {addr : BdAddr}
    (hrpa : isResolvablePrivateAddr adrType addr = false) :
    s.deleteSelectByMac adrType addr ≠ none ↔ s.HasAddr adrType addr := by
  unfold deleteSelectByMac HasAddr
  rw [ne_eq, List.findIdx?_eq_none_iff]
  simp [hrpa]

/-- A free entry that is found hides the connected ones behind it. -/
theorem Consistent.connected_before {s : DeviceManage cfg} (h : Consistent s) {adrType : UInt8}
    {addr : BdAddr} (hrpa : isResolvablePrivateAddr adrType addr = false)
    (hok : AddrLookupOk s adrType addr) (hzero : adrType = 0 ∧ addr = fun _ => 0) {i : ℕ}
    {e : DevCharInfo} (he : s.connDevList[i]? = some e) (hfree : e.connected = false) :
    ∃ j < i, ∃ e' : DevCharInfo, s.connDevList[j]? = some e' ∧ e'.connected = true ∧
      e'.hasAddr adrType addr = true := by
  have hkey := (h.hasAddr_free (List.mem_of_getElem? he) hfree adrType addr).mpr hzero
  cases hsearch : s.devCharInfoSearchByPeerMacAddress adrType addr with
  | none =>
    rw [devCharInfoSearchByPeerMacAddress, List.findIdx?_eq_none_iff] at hsearch
    have hno := hsearch e (List.mem_of_getElem? he)
    simp [hrpa, hkey] at hno
  | some j =>
    obtain ⟨e', he', hconn, hkey'⟩ := hok.found j hsearch
    obtain ⟨hlt, -, hfirst⟩ := List.findIdx?_eq_some_iff_getElem.mp hsearch
    have hle : ¬ i < j := by
      intro hij
      have hno := hfirst i hij
      rw [(List.getElem?_eq_some_iff.mp he).2] at hno
      simp [hrpa, hkey] at hno
    have hne : i ≠ j := by
      rintro rfl
      rw [he] at he'
      cases he'
      exact absurd (hfree.symm.trans hconn) (by decide)
    exact ⟨j, by omega, e', he', hconn, hkey'⟩

/-- The entry that is found is connected, so that the delete selects it too. -/
theorem Consistent.search_eq_deleteSelect {s : DeviceManage cfg} (h : Consistent s)
    {adrType : UInt8} {addr : BdAddr} (hrpa : isResolvablePrivateAddr adrType addr = false)
    (hok : AddrSearchable s adrType addr) :
    s.devCharInfoSearchByPeerMacAddress adrType addr = s.deleteSelectByMac adrType addr := by
  cases hsearch : s.devCharInfoSearchByPeerMacAddress adrType addr with
  | none =>
    rw [devCharInfoSearchByPeerMacAddress, List.findIdx?_eq_none_iff] at hsearch
    symm
    rw [deleteSelectByMac, List.findIdx?_eq_none_iff]
    intro e he
    have hno := hsearch e he
    rw [Bool.and_assoc, hno, Bool.and_false]
  | some i =>
    symm
    obtain ⟨hlt, hsel, hfirst⟩ := List.findIdx?_eq_some_iff_getElem.mp hsearch
    rw [deleteSelectByMac, List.findIdx?_eq_some_iff_getElem]
    have hconn : s.connDevList[i].connected = true := by
      by_contra hfree
      rw [Bool.not_eq_true] at hfree
      simp only [hrpa, Bool.not_false, Bool.true_and] at hsel
      obtain ⟨htype, haddr⟩ :=
        (h.hasAddr_free (List.getElem_mem hlt) hfree adrType addr).mp hsel
      obtain ⟨j, hj, e', he', -, hkey'⟩ :=
        hok.2 htype haddr i _ (List.getElem?_eq_getElem hlt) hfree
      apply hfirst j hj
      rw [(List.getElem?_eq_some_iff.mp he').2, hrpa, hkey']
      rfl
    refine ⟨hlt, ?_, fun j hj hsel' => hfirst j hj ?_⟩
    · rw [Bool.and_assoc, hsel, hconn]
      rfl
    · rw [Bool.and_assoc, Bool.and_eq_true] at hsel'
      exact hsel'.2

theorem Consistent.addrLookupOk_iff {s : DeviceManage cfg} (h : Consistent s) (adrType : UInt8)
    (addr : BdAddr) : AddrLookupOk s adrType addr ↔ AddrSearchable s adrType addr := by
  cases hrpa : isResolvablePrivateAddr adrType addr with
  | true =>
    obtain ⟨hsearch, hselect⟩ := s.search_of_resolvable hrpa
    have hne : ¬ (adrType = 0) := by
      rintro rfl
      have hrandom := (of_decide_eq_true hrpa).1
      exact absurd hrandom (by decide)
    constructor
    · intro hok
      refine ⟨fun _ hhas => ?_, fun hzero => absurd hzero hne⟩
      exact hok.search.mpr hhas hsearch
    · intro hok
      refine ⟨fun i hi => ?_, ?_, hsearch.trans hselect.symm⟩
      · rw [hsearch] at hi
        cases hi
      · exact iff_of_false (fun hno => hno hsearch) (hok.1 hrpa)
  | false =>
    constructor
    · intro hok
      refine ⟨fun hyes => absurd (hyes.symm.trans hrpa) (by decide), ?_⟩
      intro htype haddr i e he hfree
      exact h.connected_before hrpa hok ⟨htype, haddr⟩ he hfree
    · intro hok
      have hselect := h.search_eq_deleteSelect hrpa hok
      refine ⟨?_, ?_, hselect⟩
      · intro i hi
        rw [hselect] at hi
        obtain ⟨e, he, hsel⟩ := select_spec hi
        simp only [Bool.and_eq_true] at hsel
        exact ⟨e, he, hsel.1.1, hsel.2⟩
      · rw [hselect]
        exact s.deleteSelect_ne_none_iff hrpa

/-- What the table promises besides the lookups by address: it is consistent, a refused
insert changes nothing, and the lookups by connection handle are right. -/
structure TableOk (s : DeviceManage cfg) : Prop where
  consistent : s.Consistent
  refused : ∀ op : DevOp, (op.apply s).2 = invalidConnIdx → (op.apply s).1 = s
  handle : ∀ connhandle, s.HandleLookupOk connhandle

/-- An insert that returns `INVALID_CONN_IDX` is refused. -/
theorem insertEntry_refused (s : DeviceManage cfg) {role : ℕ} {entry : DevCharInfo}
    (h : (s.insertEntry role entry).2 = invalidConnIdx) : (s.insertEntry role entry).1 = s := by
  unfold insertEntry at h ⊢
  cases hi : s.firstFree role with
  | none => rfl
  | some i =>
    obtain ⟨old, hold, -⟩ := firstFree_spec hi
    have hlt := (List.getElem?_eq_some_iff.mp hold).1
    have hle := cfg.le
    have hlen := s.length_eq
    simp only [hi] at h
    omega

theorem Consistent.tableOk {s : DeviceManage cfg} (h : Consistent s) : TableOk s where
  consistent := h
  refused op hop := by
    cases op with
    | insert info => exact s.insertEntry_refused hop
    | insertByConnEvent evt => exact s.insertEntry_refused hop
    | insertByEnhancedConnEvent evt => exact s.insertEntry_refused hop
    | deleteByConnhandle connhandle =>
      have hdel : (s.devCharInfoDeleteByConnhandle connhandle).2 = invalidConnIdx := hop
      unfold devCharInfoDeleteByConnhandle at hdel
      split at hdel <;> cases hdel
    | deleteByPeerMacAddress adrType addr =>
      have hdel : (s.devCharInfoDeleteByPeerMacAddress adrType addr).2 = invalidConnIdx := hop
      unfold devCharInfoDeleteByPeerMacAddress at hdel
      split at hdel <;> cases hdel
  handle := h.handleLookupOk

/-- After every history the table is consistent, and a lookup by address is right exactly if
the address is searchable. -/
theorem conn_table (cfg : ConnConfig) (ops : List DevOp) :
    TableOk (Machine.run devStep (init cfg) ops) ∧
      ∀ adrType addr, AddrLookupOk (Machine.run devStep (init cfg) ops) adrType addr ↔
        AddrSearchable (Machine.run devStep (init cfg) ops) adrType addr := by
  have hrun : Consistent (Machine.run devStep (init cfg) ops) :=
    Machine.run_invariant (fun _ op h _ => h.step op) (Consistent.init cfg)
      (Machine.along_true _ ops)
  exact ⟨hrun.tableOk, hrun.addrLookupOk_iff⟩

/-- The search by address finds a free entry under the key zero, and not the connected entry
whose address is a resolvable private one. -/
theorem not_addrLookupOk_example :
    ¬ AddrLookupOk (init ⟨1, 1, by decide⟩) 0 (fun _ => 0) ∧
      ¬ AddrLookupOk (Machine.run devStep (init ⟨1, 1, by decide⟩)
        [.insertByConnEvent ⟨aclRoleCentral, 1, bleAddrRandom, fun _ => 0x40⟩])
        bleAddrRandom (fun _ => 0x40) := by
  constructor
  · intro h
    exact absurd h.select (by decide)
  · intro h
    have hsearch : devCharInfoSearchByPeerMacAddress (Machine.run devStep
        (init ⟨1, 1, by decide⟩) [.insertByConnEvent
          ⟨aclRoleCentral, 1, bleAddrRandom, fun _ => 0x40⟩]) bleAddrRandom (fun _ => 0x40) =
        none := by decide +kernel
    exact h.search.mpr (by unfold HasAddr; decide +kernel) hsearch

end DeviceManage

end TlBleSdk.Common
