import TlBleSdk.Hci.TrDef
import TlBleSdk.Lib.Checked
import Mathlib.Logic.Function.Basic

/-!
# Service discovery

`host_att_discoveryService` of `simple_sdp.c` asks a peer for its characteristic declarations,
from where the last answer ended, until an answer is no list of them, and then for the report
reference of each report. It waits in `host_att_service_wait_event`, where the idle function may
hand packets to `host_att_client_handler`, which copies the answer to the local buffer `dat`.

The function is a machine that takes one step for each request, with all packets that arrive
while it waits. A write behind an end of `dat`, `p16` or `p128` is a fault. The handler keeps its
pointer when the function returns, so what it takes then is written where no `dat` is any more.
-/

namespace TlBleSdk.Common

open Hci

def declarationsUuidPrimaryService : ℕ := 0x2800
def declarationsUuidSecondaryService : ℕ := 0x2801
def declarationsUuidInclude : ℕ := 0x2802
def declarationsUuidCharacteristic : ℕ := 0x2803
def descriptorUuidReportReference : ℕ := 0x2908
def characteristicUuidReport : ℕ := 0x2A4D

def attOpErrorRsp : UInt8 := 0x01
def attOpFindInformationReq : UInt8 := 0x04
def attOpFindInfoRsp : UInt8 := 0x05
def attOpReadByTypeReq : UInt8 := 0x08
def attOpReadByTypeRsp : UInt8 := 0x09
def attOpReadReq : UInt8 := 0x0A
def attOpReadRsp : UInt8 := 0x0B

/-- `BLE_SUCCESS` and `GATT_ERR_SERVICE_DISCOVERY_TIMEOUT`. -/
inductive SdpStatus where
  | success
  | timeout
  deriving DecidableEq

/-- The array behind an end of which something is written. -/
inductive SdpFault where
  | dat
  | p16
  | p128
  deriving DecidableEq

/-! ## Waiting for an answer -/

/-- A packet that is handed to `host_att_client_handler`. -/
structure AttPacket where
  connHandle : ℕ
  p : ℕ → UInt8

def AttPacket.l2capLen (pk : AttPacket) : ℕ := bytesToUint16 pk.p 2
def AttPacket.chanId (pk : AttPacket) : ℕ := bytesToUint16 pk.p 4
def AttPacket.opcode (pk : AttPacket) : UInt8 := pk.p 6

/-- `p_att_response` and `host_att_req_busy`: the bytes it points to, and how many of them are of
an array. -/
structure AttClient where
  dat : ℕ → UInt8
  size : ℕ
  busy : ℕ

/-- The handler takes the packet: it is of the connection and on the channel, and an error or the
answer to the request. -/
def takesPacket (busy : ℕ) (pk : AttPacket) : Bool :=
  pk.connHandle % 8 = busy % 8 && pk.chanId = 4 &&
    (pk.opcode = attOpErrorRsp || pk.opcode.toNat = (busy / 65536 ||| 1))

/-- The size of the local array `dat` that `p_att_response` points to. -/
def datSize : ℕ := 256

/-- `host_att_client_handler`. -/
def hostAttClientHandler (c : AttClient) (pk : AttPacket) : Except SdpFault AttClient :=
  if takesPacket c.busy pk then
    if pk.l2capLen + 6 ≤ c.size then
      .ok { c with dat := memcpy c.dat 0 (bytes pk.p (pk.l2capLen + 6)), busy := 0 }
    else .error .dat
  else .ok c

/-- The loop of `host_att_service_wait_event`: the packets of each call of the idle function
before the time is over. It returns whether there was an answer in time. -/
def waitLoop (c : AttClient) : List (List AttPacket) → Except SdpFault (Bool × AttClient)
  | [] => .ok (false, c)
  | call :: calls =>
    if c.busy = 0 then .ok (true, c)
    else do waitLoop (← call.foldlM hostAttClientHandler c) calls

/-- `handle | (p[6] << 16)`. -/
def busyOf (handle : ℕ) (op : UInt8) : ℕ := handle + 65536 * op.toNat

/-- `host_att_service_wait_event`, for the request in `p[6]`. -/
def hostAttServiceWaitEvent (handle : ℕ) (p : ℕ → UInt8) (calls : List (List AttPacket)) :
    Except SdpFault (Bool × AttClient) :=
  waitLoop ⟨p, datSize, busyOf handle (p 6)⟩ calls

/-! ## The arrays of the caller -/

/-- `att_db_uuid16_t`. -/
structure AttDbUuid16 where
  num : ℕ
  property : UInt8
  handle : ℕ
  uuid : ℕ
  ref : ℕ

/-- `att_db_uuid128_t`. -/
structure AttDbUuid128 where
  num : ℕ
  property : UInt8
  handle : ℕ
  uuid : List UInt8

/-- The connection handle, and the lengths of `p16` and `p128`. -/
structure SdpArgs where
  handle : ℕ
  n16 : ℕ
  n128 : ℕ
  handle_lt : handle < 65536

/-- `ATT_DB_UUID16_NUM` and `ATT_DB_UUID128_NUM`, the lengths that `app_service_discovery`
passes. -/
def attDbUuid16Num : ℕ := 20
def attDbUuid128Num : ℕ := 8

/-- The arguments of `app_service_discovery` for the connection `0x80`. -/
def appSdpArgs : SdpArgs := ⟨0x80, attDbUuid16Num, attDbUuid128Num, by decide⟩

/-- The arrays of `app_service_discovery` behind its `memset`. -/
def db16 : ℕ → AttDbUuid16 := fun _ => ⟨0, 0, 0, 0, 0⟩
def db128 : ℕ → AttDbUuid128 := fun _ => ⟨0, 0, 0, .replicate 16 0⟩

/-- A request on its way. -/
inductive SdpPhase where
  | chars
  | info (i : ℕ)
  | read (i : ℕ) (handle : ℕ)
  | done (status : SdpStatus)

/-- The locals of `host_att_discoveryService`, the arrays of its caller and
`host_att_req_busy`. -/
structure SdpState where
  dat : ℕ → UInt8
  busy : ℕ
  s : ℕ
  i16 : ℕ
  i128 : ℕ
  p16 : ℕ → AttDbUuid16
  p128 : ℕ → AttDbUuid128
  phase : SdpPhase

/-- What is asked of the peer: the declarations from a handle on, the attributes from a handle
on, or the value of an attribute. -/
inductive AttRequest where
  | readByType (start : ℕ)
  | findInformation (start : ℕ)
  | read (handle : ℕ)

def AttRequest.opcode : AttRequest → UInt8
  | readByType _ => attOpReadByTypeReq
  | findInformation _ => attOpFindInformationReq
  | read _ => attOpReadReq

/-- The request that is on its way. -/
def SdpState.request (st : SdpState) : Option AttRequest :=
  match st.phase with
  | .chars => some (.readByType st.s)
  | .info i => some (.findInformation (st.p16 i).handle)
  | .read _ handle => some (.read handle)
  | .done _ => none

/-- `p16[i]` is changed. -/
def write16 (a : SdpArgs) (st : SdpState) (i : ℕ) (f : AttDbUuid16 → AttDbUuid16) :
    Except SdpFault SdpState :=
  if i < a.n16 then .ok { st with p16 := Function.update st.p16 i (f (st.p16 i)) }
  else .error .p16

/-- `p128[i]` is changed. -/
def write128 (a : SdpArgs) (st : SdpState) (i : ℕ) (f : AttDbUuid128 → AttDbUuid128) :
    Except SdpFault SdpState :=
  if i < a.n128 then .ok { st with p128 := Function.update st.p128 i (f (st.p128 i)) }
  else .error .p128

/-- Up to the first request, which sets `host_att_req_busy`. -/
def discoveryStart (a : SdpArgs) (dat : ℕ → UInt8) (p16 : ℕ → AttDbUuid16)
    (p128 : ℕ → AttDbUuid128) : Except SdpFault SdpState := do
  let st ← write16 a ⟨dat, 0, 1, 0, 0, p16, p128, .chars⟩ 0 fun e => { e with num := 0 }
  write128 a st 0 fun e => { e with num := 0 }

/-! ## The first pass -/

/-- An entry of the answer at `pd`, with a UUID of 16 bits. -/
def entry16 (a : SdpArgs) (st : SdpState) (pd : ℕ) : Except SdpFault SdpState :=
  let s := bytesToUint16 st.dat (pd + 3)
  if st.i16 < a.n16 then do
    let st' ← write16 a st st.i16 fun e =>
      { e with property := st.dat (pd + 2), handle := s, uuid := bytesToUint16 st.dat (pd + 5)
               ref := 0 }
    .ok { st' with s := s, i16 := st.i16 + 1 }
  else .ok { st with s := s }

/-- An entry of the answer at `pd`, with a UUID of 128 bits. -/
def entry128 (a : SdpArgs) (st : SdpState) (pd : ℕ) : Except SdpFault SdpState :=
  let s := bytesToUint16 st.dat (pd + 3)
  if st.i128 < a.n128 then do
    let st' ← write128 a st st.i128 fun e =>
      { e with property := st.dat (pd + 2), handle := s, uuid := bytesAt st.dat (pd + 5) 16 }
    .ok { st' with s := s, i128 := st.i128 + 1 }
  else .ok { st with s := s }

/-- The loop over the entries of `size` bytes, while `l2capLen > size`. The result comes with
what is left of `l2capLen`, which bounds the number of iterations from the start. -/
def entryLoop (size : ℕ) (entry : SdpState → ℕ → Except SdpFault SdpState) :
    ℕ → ℕ → ℕ → SdpState → Except SdpFault (SdpState × ℕ)
  | 0, l2capLen, _, st => .ok (st, l2capLen)
  | fuel + 1, l2capLen, pd, st =>
    if l2capLen > size then do
      entryLoop size entry fuel (l2capLen - size) (pd + size) (← entry st pd)
    else .ok (st, l2capLen)

/-- The loop over the answer in `dat`. -/
def entries (size : ℕ) (entry : SdpState → ℕ → Except SdpFault SdpState) (st : SdpState) :
    Except SdpFault SdpState := do
  let l2capLen := bytesToUint16 st.dat 2
  let (st', left) ← entryLoop size entry l2capLen l2capLen 8 st
  .ok { st' with dat := memcpy st'.dat 2 (uint16ToBstream left) }

/-- The answer to a request for declarations. -/
def parseChars (a : SdpArgs) (st : SdpState) : Except SdpFault SdpState :=
  if st.dat 7 = 21 then entries 21 (entry128 a) st
  else if st.dat 7 = 7 then entries 7 (entry16 a) st
  else .ok st

/-! ## The second pass -/

/-- The loop over `p16` from `i` on, up to the next report. -/
def nextReport (st : SdpState) (i : ℕ) : SdpState :=
  match (List.range' i (st.i16 - i)).find? fun j => (st.p16 j).uuid = characteristicUuidReport with
  | some j => { st with phase := .info j }
  | none => { st with phase := .done .success }

/-- The numbers of entries are stored, and the second pass begins. -/
def secondPass (a : SdpArgs) (st : SdpState) : Except SdpFault SdpState := do
  let st ← write16 a st 0 fun e => { e with num := u8 st.i16 }
  let st ← write128 a st 0 fun e => { e with num := u8 st.i128 }
  .ok (nextReport st 0)

/-- The loop over the handles and types of the answer: the byte at the handle of a report
reference before the next declaration. -/
def infoLoop (dat : ℕ → UInt8) : ℕ → ℕ → ℕ → Option ℕ
  | 0, _, _ => none
  | fuel + 1, n, pd =>
    if n > 0 then
      if bytesToUint16 dat (pd + 2) = declarationsUuidCharacteristic ∨
          bytesToUint16 dat (pd + 2) = declarationsUuidPrimaryService then none
      else if bytesToUint16 dat (pd + 2) = descriptorUuidReportReference then
        some (dat pd).toNat
      else infoLoop dat fuel (n - 4) (pd + 4)
    else none

/-- The handle that is read for a report reference, if the answer in `dat` lists one. -/
def findReference (dat : ℕ → UInt8) : Option ℕ :=
  if dat 6 = attOpFindInfoRsp ∧ dat 7 = 1 then
    infoLoop dat (bytesToUint16 dat 2 - 2) (bytesToUint16 dat 2 - 2) 8
  else none

/-! ## One request -/

/-- What is done with the answer in `dat`. -/
def takeAnswer (a : SdpArgs) (st : SdpState) : Except SdpFault SdpState :=
  match st.phase with
  | .chars => if st.dat 6 ≠ attOpReadByTypeRsp then secondPass a st else parseChars a st
  | .info i =>
    match findReference st.dat with
    | some handle => .ok { st with phase := .read i handle }
    | none => .ok (nextReport st (i + 1))
  | .read i _ =>
    if st.dat 6 = attOpReadRsp then do
      let st ← write16 a st i fun e => { e with ref := bytesToUint16 st.dat 7 }
      .ok (nextReport st (i + 1))
    else .ok (nextReport st (i + 1))
  | .done _ => .ok st

/-- `host_att_discoveryService` from one request to the next. -/
def discoveryStep (a : SdpArgs) (st : SdpState) (calls : List (List AttPacket)) :
    Except SdpFault SdpState :=
  match st.request with
  | none => .ok st
  | some request => do
    let (answered, c) ← hostAttServiceWaitEvent a.handle
      (Function.update st.dat 6 request.opcode) calls
    let st := { st with dat := c.dat, busy := c.busy }
    if answered then takeAnswer a st else .ok { st with phase := .done .timeout }

/-- The state behind `k` requests, where `peer` is what arrives for each of them. -/
def discoveryRun (a : SdpArgs) (start : Except SdpFault SdpState)
    (peer : ℕ → SdpState → List (List AttPacket)) : ℕ → Except SdpFault SdpState
  | 0 => start
  | k + 1 => do
    let st ← discoveryRun a start peer k
    discoveryStep a st (peer k st)

/-- What `host_att_client_handler` has behind the return: `p_att_response` points to where `dat`
was. -/
def SdpState.left (st : SdpState) : AttClient := ⟨st.dat, 0, st.busy⟩

end TlBleSdk.Common
