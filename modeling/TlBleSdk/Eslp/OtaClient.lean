import TlBleSdk.Lib.NorFlash
import TlBleSdk.Lib.Run
import TlBleSdk.Hci.TrDef

/-!
# The OTA client of the access point

`app_ota_client.c` of the ESL access point, with the extended protocol and without the
exchange of versions and signatures, as `app_config.h` and `app_ota_client.h` have it. The PDU
length is 16, or 240 with `OTA_CLIENT_SUPPORT_BIG_PDU_ENABLE`.

What the client does to the outside is logged, the newest entry first: the sessions it accepts,
the callbacks, and the writes with the answer they get. A call that ends a session calls back
as its last action, so what the callback does is one of the next events.
-/

namespace TlBleSdk.Eslp

open NorFlash Hci

/-! ## Constants -/

def fwSizeMin : ℕ := 0x04000
def fwSizeMax : ℕ := 0x40000

/-- `OTA_TIMEOUT_S`. -/
def otaTimeoutS : ℕ := 100

/-- `ACL_CENTRAL_TX_FIFO_NUM`. -/
def aclCentralTxFifoNum : ℕ := 17

/-- The size of `ota_buffer`. -/
def otaBufferSize : ℕ := 256

def cmdOtaEnd : ℕ := 0xFF02
def cmdOtaStartExt : ℕ := 0xFF03
def cmdOtaFwVersionRsp : ℕ := 0xFF05
def cmdOtaResult : ℕ := 0xFF06

/-- `OTA_VERSION_COMPARE_ERR`. -/
def otaVersionCompareErr : ℕ := 0x08

/-- `OTA_FW_SIZE_ERR`. -/
def otaFwSizeErr : ℕ := 0x0B

/-- `OTA_TIMEOUT`. -/
def otaTimeout : ℕ := 0x0D

/-- `OTA_FAIL_DUE_TO_CONNECTION_TERMINATE`. -/
def otaFailDueToConnectionTerminate : ℕ := 0x0E

/-- `OTASC_EVT_NOTIF`. -/
def otascEvtNotif : ℕ := 0x4201

/-- `OTA_PDU_LENGTH`. -/
def otaPduLength (bigPdu : Bool) : ℕ := if bigPdu then 240 else 16

/-! ## The client -/

/-- The steps of `ota_update_flow` that this build sets or tests. -/
inductive OtaStep
  | idle
  | checkFw
  | updateConn
  | reqFwVersion
  | waitFwVersion
  | otaStart
  | otaSignature
  | otaData
  | otaEnd
  | waitOtaResult
deriving DecidableEq

/-- `ota_client_t`, with `push_ota_data_tick`. A callback is told by a number, and the null
callback is `none`. -/
structure OtaClient where
  otaUpdateFlow : OtaStep
  versionCompare : Bool
  lastValidPduLen : ℕ
  otaConnHandle : ℕ
  curAdrIndex : ℕ
  lastAdrIndex : ℕ
  newFwVersionNum : ℕ
  otaNewFwAddr : ℕ
  firmwareOffset : ℕ
  firmwareSize : ℕ
  otaStartTick : ℕ
  waitResultBeginTick : ℕ
  cb : Option ℕ
  pushOtaDataTick : ℕ
deriving DecidableEq

/-- The client of static storage. -/
def OtaClient.zero : OtaClient := ⟨.idle, false, 0, 0, 0, 0, 0, 0, 0, 0, 0, 0, none, 0⟩

/-- What the client does to the outside. -/
inductive OtaOut
  /-- `app_ota_start` returned true. -/
  | started (connHandle : ℕ) (cb : Option ℕ)
  | callback (cb connHandle result : ℕ)
  /-- `blc_ll_updateConnection`. -/
  | updateConnection (connHandle : ℕ)
  /-- `blc_otasc_writeOtaData` in a step, and whether it returned `BLE_SUCCESS`. -/
  | write (step : OtaStep) (connHandle : ℕ) (buf : List UInt8) (success : Bool)
deriving DecidableEq

/-- What a pass of the main loop reads: the flash, the clock one call after the other, the
results of the stack, and what is in `ota_buffer`. -/
structure OtaEnv where
  flash : Cells
  clock : ℕ → ℕ
  connUpdated : Bool
  txFifoNumber : ℕ
  written : Bool
  otaBuffer : ℕ → UInt8

/-- `flash_read_page`. Addresses are of the type `u32`. -/
def flashReadPage (flash : Cells) (addr n : ℕ) : List UInt8 :=
  read (fun i => flash (u32 (addr + i))) 0 n

/-- The size of the firmware, in the image at `addr`. -/
def fwSize (flash : Cells) (addr : ℕ) : ℕ :=
  bytesToUint32 (mem (flashReadPage flash (u32 (addr + 0x18)) 4)) 0

/-- `app_ota_reset`. -/
def appOtaReset (clt : OtaClient) : OtaClient :=
  { clt with
    otaUpdateFlow := .idle
    otaStartTick := 0
    otaNewFwAddr := 0
    otaConnHandle := 0
    curAdrIndex := 0
    firmwareOffset := 0 }

/-- `app_ota_set_result`. -/
def appOtaSetResult (clt : OtaClient) (result : ℕ) : OtaClient × List OtaOut :=
  if clt.otaUpdateFlow = .idle then (clt, [])
  else
    (appOtaReset clt,
      match clt.cb with
      | some cb => [.callback cb clt.otaConnHandle result]
      | none => [])

/-- `app_ota_start`. -/
def appOtaStart (clt : OtaClient) (newFwAddr connHandle : ℕ) (cb : Option ℕ) :
    Bool × OtaClient × List OtaOut :=
  if clt.otaUpdateFlow ≠ .idle then (false, clt, [])
  else
    (true,
      { clt with
        otaNewFwAddr := newFwAddr
        cb := cb
        otaConnHandle := connHandle
        otaUpdateFlow := .checkFw },
      [.started connHandle cb])

/-- `app_ota_prf_event_callback`. -/
def appOtaPrfEventCallback (clt : OtaClient) (aclHandle evtID : ℕ) (data : ℕ → UInt8) :
    OtaClient × List OtaOut :=
  if clt.otaUpdateFlow ≠ .idle ∧ evtID = otascEvtNotif ∧ aclHandle = clt.otaConnHandle then
    let otaCmd := bytesToUint16 data 0
    if otaCmd = cmdOtaFwVersionRsp then
      if clt.otaUpdateFlow = .waitFwVersion then
        if clt.versionCompare ∧ data 4 = 0 then appOtaSetResult clt otaVersionCompareErr
        else ({ clt with otaUpdateFlow := .otaStart }, [])
      else (clt, [])
    else if otaCmd = cmdOtaResult then
      if clt.otaUpdateFlow = .waitOtaResult then appOtaSetResult clt (data 2).toNat
      else (clt, [])
    else (clt, [])
  else (clt, [])

/-- The step `OTA_STEP_1_CHECK_FW`. -/
def procCheckFw (bigPdu : Bool) (clt : OtaClient) (env : OtaEnv) : OtaClient × List OtaOut :=
  let size := fwSize env.flash clt.otaNewFwAddr
  let clt := { clt with firmwareSize := size, newFwVersionNum := 1 }
  if size < fwSizeMin ∨ fwSizeMax < size then appOtaSetResult clt otaFwSizeErr
  else
    ({ clt with
      lastAdrIndex := u16 (size / otaPduLength bigPdu)
      lastValidPduLen :=
        if size % otaPduLength bigPdu = 0 then otaPduLength bigPdu else size % otaPduLength bigPdu
      otaUpdateFlow := .updateConn }, [])

/-- The step `OTA_STEP_7_OTA_START`. The reserved bytes of `ota_startExt_t` are not written. -/
def procOtaStart (bigPdu : Bool) (clt : OtaClient) (env : OtaEnv) : OtaClient × List OtaOut :=
  let buf := uint16ToBstream cmdOtaStartExt ++ [UInt8.ofNat (otaPduLength bigPdu), 0] ++
    bytes (fun i => env.otaBuffer (4 + i)) 16
  (if env.written then
      { clt with otaUpdateFlow := .otaData, otaStartTick := clockTimeOr1 (env.clock 1) }
    else clt,
    [.write .otaStart clt.otaConnHandle buf env.written])

/-- The data of a PDU. The last one is made up to 16 bytes with `0xFF`. -/
def otaPduData (bigPdu : Bool) (clt : OtaClient) (flash : Cells) : List UInt8 :=
  let addr := u32 (clt.otaNewFwAddr + clt.curAdrIndex * otaPduLength bigPdu)
  if clt.curAdrIndex = clt.lastAdrIndex then
    let align16MakeupLen := 16 - (clt.lastValidPduLen &&& 15)
    flashReadPage flash addr clt.lastValidPduLen ++ List.replicate align16MakeupLen 0xFF
  else flashReadPage flash addr (otaPduLength bigPdu)

/-- A PDU in `ota_buffer`: the index, the data, and the CRC of both. -/
def otaPdu (crc16 : List UInt8 → ℕ) (adrIndex : ℕ) (data : List UInt8) : List UInt8 :=
  uint16ToBstream adrIndex ++ data ++ uint16ToBstream (crc16 (uint16ToBstream adrIndex ++ data))

/-- The step `OTA_STEP_9_OTA_DATA`. -/
def procOtaData (bigPdu : Bool) (crc16 : List UInt8 → ℕ) (clt : OtaClient) (env : OtaEnv) :
    OtaClient × List OtaOut :=
  if !clockTimeExceed (env.clock 1) clt.otaStartTick 50000 then (clt, [])
  else if !clockTimeExceed (env.clock 2) clt.pushOtaDataTick 500 then (clt, [])
  else
    let clt := { clt with pushOtaDataTick := u32 (env.clock 3) }
    if aclCentralTxFifoNum - 4 ≤ env.txFifoNumber then (clt, [])
    else if clt.curAdrIndex ≤ clt.lastAdrIndex then
      let buf := otaPdu crc16 clt.curAdrIndex (otaPduData bigPdu clt env.flash)
      (if env.written then { clt with curAdrIndex := u16 (clt.curAdrIndex + 1) } else clt,
        [.write .otaData clt.otaConnHandle buf env.written])
    else ({ clt with otaUpdateFlow := .otaEnd }, [])

/-- The step `OTA_STEP_10_OTA_END`. -/
def procOtaEnd (clt : OtaClient) (env : OtaEnv) : OtaClient × List OtaOut :=
  let buf := uint16ToBstream cmdOtaEnd ++ uint16ToBstream clt.lastAdrIndex ++
    uint16ToBstream (clt.lastAdrIndex ^^^ 0xFFFF)
  (if env.written then
      { clt with
        otaUpdateFlow := .waitOtaResult
        waitResultBeginTick := clockTimeOr1 (env.clock 1) }
    else clt,
    [.write .otaEnd clt.otaConnHandle buf env.written])

/-- `app_proc_ota_update`. -/
def appProcOtaUpdate (bigPdu : Bool) (crc16 : List UInt8 → ℕ) (clt : OtaClient) (env : OtaEnv) :
    OtaClient × List OtaOut :=
  if clt.otaStartTick ≠ 0 ∧
      clockTimeExceed (env.clock 0) clt.otaStartTick (otaTimeoutS * 1000000) then
    appOtaSetResult clt otaTimeout
  else
    match clt.otaUpdateFlow with
    | .checkFw => procCheckFw bigPdu clt env
    | .updateConn =>
      (if env.connUpdated then { clt with otaUpdateFlow := .reqFwVersion } else clt,
        [.updateConnection clt.otaConnHandle])
    | .reqFwVersion => ({ clt with otaUpdateFlow := .otaStart }, [])
    | .otaStart => procOtaStart bigPdu clt env
    | .otaData => procOtaData bigPdu crc16 clt env
    | .otaEnd => procOtaEnd clt env
    | .idle | .waitFwVersion | .otaSignature | .waitOtaResult => (clt, [])

/-- `app_ota_connection_terminated`. -/
def appOtaConnectionTerminated (clt : OtaClient) (connHandle : ℕ) : OtaClient × List OtaOut :=
  if connHandle = clt.otaConnHandle then
    if clt.otaUpdateFlow ≠ .idle then appOtaSetResult clt otaFailDueToConnectionTerminate
    else (clt, [])
  else (clt, [])

/-- `app_ota_mainloop`. -/
def appOtaMainloop (bigPdu : Bool) (crc16 : List UInt8 → ℕ) (clt : OtaClient) (env : OtaEnv) :
    OtaClient × List OtaOut :=
  if clt.otaUpdateFlow ≠ .idle then appProcOtaUpdate bigPdu crc16 clt env else (clt, [])

/-! ## Runs -/

/-- A call of the client. -/
inductive OtaEvent
  | start (newFwAddr connHandle : ℕ) (cb : Option ℕ)
  | mainloop (env : OtaEnv)
  | prfEvent (aclHandle evtID : ℕ) (data : ℕ → UInt8)
  | terminated (connHandle : ℕ)

/-- What a call does. -/
def otaCall (bigPdu : Bool) (crc16 : List UInt8 → ℕ) (clt : OtaClient) :
    OtaEvent → OtaClient × List OtaOut
  | .start newFwAddr connHandle cb => (appOtaStart clt newFwAddr connHandle cb).2
  | .mainloop env => appOtaMainloop bigPdu crc16 clt env
  | .prfEvent aclHandle evtID data => appOtaPrfEventCallback clt aclHandle evtID data
  | .terminated connHandle => appOtaConnectionTerminated clt connHandle

/-- The client and the log. -/
structure OtaRun where
  clt : OtaClient
  log : List OtaOut

/-- A call of the client, which makes one entry at most. -/
def otaStep (bigPdu : Bool) (crc16 : List UInt8 → ℕ) (s : OtaRun) (ev : OtaEvent) : OtaRun :=
  ⟨(otaCall bigPdu crc16 s.clt ev).1, (otaCall bigPdu crc16 s.clt ev).2 ++ s.log⟩

theorem otaStep_clt (bigPdu : Bool) (crc16 : List UInt8 → ℕ) (s : OtaRun) (ev : OtaEvent) :
    (otaStep bigPdu crc16 s ev).clt = (otaCall bigPdu crc16 s.clt ev).1 := rfl

/-! ## What a call can do -/

/-- The log entries of a call, or of its end. -/
def reportOf (clt : OtaClient) (result : ℕ) : List OtaOut :=
  match clt.cb with
  | some cb => [.callback cb clt.otaConnHandle result]
  | none => []

/-- All outcomes of a call. -/
inductive OtaMove (bigPdu : Bool) (crc16 : List UInt8 → ℕ) (clt : OtaClient) :
    OtaEvent → OtaClient × List OtaOut → Prop
  | stay (ev : OtaEvent) : OtaMove bigPdu crc16 clt ev (clt, [])
  | start (newFwAddr connHandle : ℕ) (cb : Option ℕ) (hflow : clt.otaUpdateFlow = .idle) :
    OtaMove bigPdu crc16 clt (.start newFwAddr connHandle cb)
      ({ clt with
        otaNewFwAddr := newFwAddr
        cb := cb
        otaConnHandle := connHandle
        otaUpdateFlow := .checkFw }, [.started connHandle cb])
  | finish (ev : OtaEvent) (size version result : ℕ) (hflow : clt.otaUpdateFlow ≠ .idle) :
    OtaMove bigPdu crc16 clt ev
      (appOtaReset { clt with firmwareSize := size, newFwVersionNum := version },
        reportOf clt result)
  | check (env : OtaEnv) (hflow : clt.otaUpdateFlow = .checkFw)
    (hmin : fwSizeMin ≤ fwSize env.flash clt.otaNewFwAddr)
    (hmax : fwSize env.flash clt.otaNewFwAddr ≤ fwSizeMax) :
    OtaMove bigPdu crc16 clt (.mainloop env) (procCheckFw bigPdu clt env)
  | conn (env : OtaEnv) (hflow : clt.otaUpdateFlow = .updateConn) :
    OtaMove bigPdu crc16 clt (.mainloop env)
      (if env.connUpdated then { clt with otaUpdateFlow := .reqFwVersion } else clt,
        [.updateConnection clt.otaConnHandle])
  | skipVersion (ev : OtaEvent)
    (hflow : clt.otaUpdateFlow = .reqFwVersion ∨ clt.otaUpdateFlow = .waitFwVersion) :
    OtaMove bigPdu crc16 clt ev ({ clt with otaUpdateFlow := .otaStart }, [])
  | sendStart (env : OtaEnv) (hflow : clt.otaUpdateFlow = .otaStart) :
    OtaMove bigPdu crc16 clt (.mainloop env) (procOtaStart bigPdu clt env)
  | sendData (env : OtaEnv) (hflow : clt.otaUpdateFlow = .otaData) :
    OtaMove bigPdu crc16 clt (.mainloop env) (procOtaData bigPdu crc16 clt env)
  | sendEnd (env : OtaEnv) (hflow : clt.otaUpdateFlow = .otaEnd) :
    OtaMove bigPdu crc16 clt (.mainloop env) (procOtaEnd clt env)

theorem appOtaSetResult_eq {clt : OtaClient} (h : clt.otaUpdateFlow ≠ .idle) (result : ℕ) :
    appOtaSetResult clt result = (appOtaReset clt, reportOf clt result) := if_neg h

/-- A firmware of an admissible size is accepted. -/
theorem procCheckFw_eq (bigPdu : Bool) {clt : OtaClient} {env : OtaEnv}
    (hmin : fwSizeMin ≤ fwSize env.flash clt.otaNewFwAddr)
    (hmax : fwSize env.flash clt.otaNewFwAddr ≤ fwSizeMax) :
    procCheckFw bigPdu clt env = ({ clt with
      firmwareSize := fwSize env.flash clt.otaNewFwAddr
      newFwVersionNum := 1
      lastAdrIndex := u16 (fwSize env.flash clt.otaNewFwAddr / otaPduLength bigPdu)
      lastValidPduLen :=
        if fwSize env.flash clt.otaNewFwAddr % otaPduLength bigPdu = 0 then otaPduLength bigPdu
        else fwSize env.flash clt.otaNewFwAddr % otaPduLength bigPdu
      otaUpdateFlow := .updateConn }, []) :=
  if_neg (by omega)

/-- A firmware of another size ends the session. -/
theorem procCheckFw_reject (bigPdu : Bool) {clt : OtaClient} {env : OtaEnv}
    (hflow : clt.otaUpdateFlow ≠ .idle)
    (hsize : fwSize env.flash clt.otaNewFwAddr < fwSizeMin ∨
      fwSizeMax < fwSize env.flash clt.otaNewFwAddr) :
    procCheckFw bigPdu clt env = (appOtaReset { clt with
      firmwareSize := fwSize env.flash clt.otaNewFwAddr, newFwVersionNum := 1 },
        reportOf clt otaFwSizeErr) := by
  have hend := @appOtaSetResult_eq { clt with
    firmwareSize := fwSize env.flash clt.otaNewFwAddr, newFwVersionNum := 1 } hflow otaFwSizeErr
  unfold procCheckFw
  dsimp only
  rw [if_pos hsize, hend]
  rfl

/-- An end of the session that leaves the client as it was. -/
theorem OtaMove.of_setResult {bigPdu : Bool} {crc16 : List UInt8 → ℕ} {clt : OtaClient}
    (ev : OtaEvent) (h : clt.otaUpdateFlow ≠ .idle) (result : ℕ) :
    OtaMove bigPdu crc16 clt ev (appOtaSetResult clt result) := by
  rw [appOtaSetResult_eq h]
  exact .finish ev clt.firmwareSize clt.newFwVersionNum result h

theorem appOtaPrfEventCallback_move (bigPdu : Bool) (crc16 : List UInt8 → ℕ) (clt : OtaClient)
    (aclHandle evtID : ℕ) (data : ℕ → UInt8) :
    OtaMove bigPdu crc16 clt (.prfEvent aclHandle evtID data)
      (appOtaPrfEventCallback clt aclHandle evtID data) := by
  unfold appOtaPrfEventCallback
  by_cases hactive : clt.otaUpdateFlow ≠ .idle ∧ evtID = otascEvtNotif ∧
      aclHandle = clt.otaConnHandle
  · rw [if_pos hactive]
    dsimp only
    split
    · split
      · rename_i hwait
        split
        · exact .of_setResult _ hactive.1 _
        · exact .skipVersion _ (.inr hwait)
      · exact .stay _
    · split
      · split
        · exact .of_setResult _ hactive.1 _
        · exact .stay _
      · exact .stay _
  · rw [if_neg hactive]
    exact .stay _

theorem procCheckFw_move (bigPdu : Bool) (crc16 : List UInt8 → ℕ) (clt : OtaClient) (env : OtaEnv)
    (hflow : clt.otaUpdateFlow = .checkFw) :
    OtaMove bigPdu crc16 clt (.mainloop env) (procCheckFw bigPdu clt env) := by
  by_cases hsize : fwSize env.flash clt.otaNewFwAddr < fwSizeMin ∨
      fwSizeMax < fwSize env.flash clt.otaNewFwAddr
  · have hne : clt.otaUpdateFlow ≠ .idle := by
      rw [hflow]
      exact OtaStep.noConfusion
    rw [procCheckFw_reject bigPdu hne hsize]
    exact .finish _ _ _ _ hne
  · exact .check env hflow (by omega) (by omega)

theorem appOtaMainloop_move (bigPdu : Bool) (crc16 : List UInt8 → ℕ) (clt : OtaClient)
    (env : OtaEnv) :
    OtaMove bigPdu crc16 clt (.mainloop env) (appOtaMainloop bigPdu crc16 clt env) := by
  unfold appOtaMainloop
  split
  · rename_i hactive
    unfold appProcOtaUpdate
    split
    · exact .of_setResult _ hactive _
    · split
      · rename_i hflow
        exact procCheckFw_move bigPdu crc16 clt env hflow
      · exact .conn env ‹_›
      · exact .skipVersion _ (.inl ‹_›)
      · exact .sendStart env ‹_›
      · exact .sendData env ‹_›
      · exact .sendEnd env ‹_›
      all_goals exact .stay _
  · exact .stay _

/-- Every call has one of the outcomes. -/
theorem otaCall_move (bigPdu : Bool) (crc16 : List UInt8 → ℕ) (clt : OtaClient) (ev : OtaEvent) :
    OtaMove bigPdu crc16 clt ev (otaCall bigPdu crc16 clt ev) := by
  cases ev with
  | start newFwAddr connHandle cb =>
    show OtaMove bigPdu crc16 clt _ (appOtaStart clt newFwAddr connHandle cb).2
    unfold appOtaStart
    by_cases hidle : clt.otaUpdateFlow = .idle
    · rw [if_neg (not_not_intro hidle)]
      exact .start newFwAddr connHandle cb hidle
    · rw [if_pos hidle]
      exact .stay _
  | mainloop env => exact appOtaMainloop_move bigPdu crc16 clt env
  | prfEvent aclHandle evtID data =>
    exact appOtaPrfEventCallback_move bigPdu crc16 clt aclHandle evtID data
  | terminated connHandle =>
    show OtaMove bigPdu crc16 clt _ (appOtaConnectionTerminated clt connHandle)
    unfold appOtaConnectionTerminated
    split
    · split
      · exact .of_setResult _ ‹_› _
      · exact .stay _
    · exact .stay _

end TlBleSdk.Eslp
