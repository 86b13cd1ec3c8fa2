import TlBleSdk.Hci.TrDef
import Mathlib.Data.List.FinRange
import Mathlib.Logic.Function.Basic

/-!
# The access point for electronic shelf labels

`app_ap.c` of the access point: the table of the devices, and what changes it: the events of
the controller and the commands of the shell. The arguments of a command are strings. What
the profile library answers is a parameter of the command.
-/

namespace TlBleSdk.Eslp

/-! ## Strings -/

/-- The characters of a string before its NUL. -/
abbrev CString := List Char

/-- The value of a hexadecimal digit, and 0 for any other character. -/
def hexDigit (c : Char) : ℕ :=
  if 'A' ≤ c ∧ c ≤ 'F' then c.toNat - 'A'.toNat + 10
  else if 'a' ≤ c ∧ c ≤ 'f' then c.toNat - 'a'.toNat + 10
  else if '0' ≤ c ∧ c ≤ '9' then c.toNat - '0'.toNat
  else 0

/-- The loop of `app_parse_str2n`: the number `n` so far in the base `b`. -/
def appParseStr2nLoop (n b : BitVec 32) : CString → BitVec 32
  | [] => n
  | c :: ps =>
    if c = 'x' ∨ c = 'X' then appParseStr2nLoop n 16 ps
    else appParseStr2nLoop (n * b + BitVec.ofNat 32 (hexDigit c)) b ps

/-- `app_parse_str2n`. -/
def appParseStr2n (ps : CString) : BitVec 32 :=
  match ps with
  | '-' :: ps => -appParseStr2nLoop 0 10 ps
  | ps => appParseStr2nLoop 0 10 ps

/-- The bytes that `str2hex` stores, one for two characters. -/
def str2hex : CString → List UInt8
  | a :: b :: ps => UInt8.ofNat (hexDigit a * 16 + hexDigit b) :: str2hex ps
  | _ => []

theorem length_str2hex (ps : CString) : (str2hex ps).length = ps.length / 2 := by
  induction ps using str2hex.induct with
  | case1 a b ps ih =>
    rw [str2hex, List.length_cons, ih, List.length_cons, List.length_cons]
    omega
  | case2 ps hps =>
    rcases ps with _ | ⟨a, _ | ⟨b, ps⟩⟩
    · rfl
    · simp [str2hex]
    · exact absurd rfl (hps a b ps)

/-- `strcasecmp` finds no difference. -/
def strcaseEq (a b : CString) : Bool := a.map Char.toLower = b.map Char.toLower

/-! ## Devices -/

/-- `ESLP_AP_MAX_GROUPS`. -/
def eslpApMaxGroups : ℕ := 4

/-- The length of `devices`: `ACL_CENTRAL_MAX_NUM`, `ACL_PERIPHR_MAX_NUM` and
`ESLP_AP_ESL_RECORDS`. -/
def devicesNum : ℕ := 1 + 0 + 64

/-- `blc_esls_eslAddress_t`. -/
structure EslAddress where
  eslId : BitVec 8
  groupId : BitVec 7
deriving DecidableEq

/-- `DEFAULT_GROUP_ID`. -/
def defaultGroupId : BitVec 7 := 0

/-- A device address with its type. -/
structure PeerAddr where
  addr : Vector UInt8 6
  addrType : BitVec 8
deriving DecidableEq

/-- `app_ap_eslInfo_t`. -/
structure ApEslInfo where
  active : Bool
  connected : Bool
  advertising : Bool
  eslConfigured : Bool
  peer : PeerAddr
  connHandle : BitVec 16
  address : EslAddress
deriving DecidableEq

/-- An entry of static storage. -/
def ApEslInfo.zero : ApEslInfo :=
  ⟨false, false, false, false, ⟨Vector.replicate 6 0, 0⟩, 0, ⟨0, 0⟩⟩

/-- `devices`. -/
abbrev ApDevices := Fin devicesNum → ApEslInfo

namespace ApDevices

/-- The first entry that satisfies the condition. -/
def first (d : ApDevices) (p : ApEslInfo → Bool) : Option (Fin devicesNum) :=
  (List.finRange devicesNum).find? fun i => p (d i)

/-- An entry is changed. -/
def modify (d : ApDevices) (i : Fin devicesNum) (f : ApEslInfo → ApEslInfo) : ApDevices :=
  Function.update d i (f (d i))

/-- `newEslInfo`. -/
def newEslInfo (d : ApDevices) (peer : PeerAddr) (connHandle : BitVec 16) :
    Option (ApDevices × Fin devicesNum) := do
  let i ← d.first fun e => !e.active
  some (Function.update d i { ApEslInfo.zero with
    active := true, peer := peer, connHandle := connHandle }, i)

/-- `getEslInfoByAddr`. -/
def getEslInfoByAddr (d : ApDevices) (peer : PeerAddr) : Option (Fin devicesNum) :=
  d.first fun e => e.active && decide (e.peer = peer)

/-- `getEslInfoByConnHandle`. -/
def getEslInfoByConnHandle (d : ApDevices) (connHandle : BitVec 16) : Option (Fin devicesNum) :=
  d.first fun e => e.active && decide (e.connHandle = connHandle) && e.connected

/-- `getEslInfoByEslAddress`. -/
def getEslInfoByEslAddress (d : ApDevices) (address : EslAddress) : Option (Fin devicesNum) :=
  d.first fun e => e.active && e.eslConfigured && decide (e.address = address)

/-! ## Events of the controller -/

/-- `app_ap_le_enhanced_connection_complete_event_handle`. A connection without an entry is
terminated. -/
def connectionComplete (d : ApDevices) (status : BitVec 8) (connHandle : BitVec 16)
    (peer : PeerAddr) : ApDevices :=
  if status = 0 then
    let found :=
      match d.getEslInfoByAddr peer with
      | some i => some (d, i)
      | none => d.newEslInfo peer connHandle
    match found with
    | some (d, i) => d.modify i fun e => { e with connected := true, connHandle := connHandle }
    | none => d
  else d

/-- `app_ap_disconnect_event_handle`. -/
def disconnect (d : ApDevices) (connHandle : BitVec 16) : ApDevices :=
  match d.getEslInfoByConnHandle connHandle with
  | none => d
  | some i =>
    d.modify i fun e =>
      { e with
        connected := false
        advertising := false
        connHandle := 0
        active := e.eslConfigured && e.active }

/-- The flag that `app_ap_le_ext_adv_report_event_handle` sets on a report of a connectable
device. -/
def advReport (d : ApDevices) (centralSmpPending : Bool) (peer : PeerAddr) : ApDevices :=
  if centralSmpPending then d
  else
    match d.getEslInfoByAddr peer with
    | none => d
    | some i => d.modify i fun e => { e with advertising := !e.connected || e.advertising }

/-! ## Commands -/

/-- `cmd_add_esl` with its arguments. `added` is whether `blc_eslp_ap_addEsl` succeeds. -/
def addEsl (d : ApDevices) (connHandle : BitVec 16) (address : EslAddress) (added : Bool) :
    ApDevices :=
  match d.getEslInfoByConnHandle connHandle with
  | none => d
  | some i =>
    if (d i).eslConfigured then d
    else if added then d.modify i fun e => { e with eslConfigured := true, address := address }
    else d

/-- The handle and the address that `<connHandle> [groupId] <eslId>` gives. -/
def parseAddEsl : List CString → Option (BitVec 16 × EslAddress)
  | [connHandle, eslId] =>
    some ((appParseStr2n connHandle).setWidth 16,
      ⟨(appParseStr2n eslId).setWidth 8, defaultGroupId⟩)
  | connHandle :: groupId :: eslId :: _ =>
    some ((appParseStr2n connHandle).setWidth 16,
      ⟨(appParseStr2n eslId).setWidth 8, (appParseStr2n groupId).setWidth 7⟩)
  | _ => none

/-- `cmd_add_esl`. -/
def cmdAddEsl (d : ApDevices) (argv : List CString) (added : Bool) : ApDevices :=
  match parseAddEsl argv with
  | none => d
  | some (connHandle, address) => d.addEsl connHandle address added

/-- The address that `[group_id] <esl_id>` gives. -/
def parseEslAddress : List CString → Option EslAddress
  | [] => none
  | [eslId] => some ⟨(appParseStr2n eslId).setWidth 8, defaultGroupId⟩
  | groupId :: eslId :: _ =>
    some ⟨(appParseStr2n eslId).setWidth 8, (appParseStr2n groupId).setWidth 7⟩

/-- `cmd_rm_esl`. -/
def cmdRmEsl (d : ApDevices) (argv : List CString) : ApDevices :=
  match parseEslAddress argv with
  | none => d
  | some address =>
    match d.getEslInfoByEslAddress address with
    | none => d
    | some i =>
      d.modify i fun e => { e with eslConfigured := false, active := e.connected && e.active }

/-- The flag that `conn_v2_fun` clears. -/
def connV2 (d : ApDevices) (argv : List CString) : ApDevices :=
  match parseEslAddress argv with
  | none => d
  | some address =>
    match d.getEslInfoByEslAddress address with
    | none => d
    | some i => d.modify i fun e => { e with advertising := false }

/-- The flag that `cmd_conn` clears. -/
def cmdConn (d : ApDevices) (peer : PeerAddr) : ApDevices :=
  match d.getEslInfoByAddr peer with
  | none => d
  | some i => d.modify i fun e => { e with advertising := false }

end ApDevices

end TlBleSdk.Eslp
