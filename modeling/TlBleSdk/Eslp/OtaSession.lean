import TlBleSdk.Eslp.OtaClient

/-!
# The sessions of the OTA client

Every accepted session is reported by one callback at most, with its connection handle, and
no other connection has a part in it. A reset leaves `last_adr_index`, `last_valid_pdu_len`,
`firmware_size`, `wait_result_begin_tick` and the callback as they were. The next session does
not see them: it writes each before it reads it.
-/

namespace TlBleSdk.Eslp

open NorFlash Hci Machine

/-! ## Reports -/

/-- The session that may still be reported: its connection handle and its callback. -/
def sessionOf : List OtaOut → Option (ℕ × Option ℕ)
  | [] => none
  | .started connHandle cb :: _ => some (connHandle, cb)
  | .callback .. :: _ => none
  | _ :: log => sessionOf log

/-- Each callback is the first one behind the start of a session, is the one given there, and
has the connection handle given there. -/
def ReportsOk : List OtaOut → Prop
  | [] => True
  | .callback cb connHandle _ :: log => sessionOf log = some (connHandle, some cb) ∧ ReportsOk log
  | _ :: log => ReportsOk log

/-- What `app_ota_reset` sets. -/
structure OtaClient.IsReset (clt : OtaClient) : Prop where
  flow_eq : clt.otaUpdateFlow = .idle
  start_eq : clt.otaStartTick = 0
  addr_eq : clt.otaNewFwAddr = 0
  handle_eq : clt.otaConnHandle = 0
  cur_eq : clt.curAdrIndex = 0
  offset_eq : clt.firmwareOffset = 0

/-- All of the progress of a session is as in a client that had none. -/
structure OtaClient.IsFresh (clt : OtaClient) : Prop extends clt.IsReset where
  last_eq : clt.lastAdrIndex = 0
  wait_eq : clt.waitResultBeginTick = 0

/-- A client that had no session, but for the time of the last data PDU. -/
def OtaClient.fresh (pushOtaDataTick : ℕ) : OtaClient :=
  { OtaClient.zero with pushOtaDataTick := pushOtaDataTick }

/-- Whatever calls follow, they do the same as with a client that had no session. -/
def BehavesAsFresh (bigPdu : Bool) (crc16 : List UInt8 → ℕ) (clt : OtaClient) : Prop :=
  ∀ evs, (run (otaStep bigPdu crc16) ⟨clt, []⟩ evs).log =
    (run (otaStep bigPdu crc16) ⟨.fresh clt.pushOtaDataTick, []⟩ evs).log

/-! ## The invariant -/

/-- An entry that neither starts nor reports a session. -/
def OtaOut.Silent : OtaOut → Prop
  | .started .. => False
  | .callback .. => False
  | .updateConnection _ => True
  | .write .. => True

theorem sessionOf_silent {entries : List OtaOut} (h : ∀ o ∈ entries, o.Silent) (log : List OtaOut) :
    sessionOf (entries ++ log) = sessionOf log := by
  induction entries with
  | nil => rfl
  | cons o entries ih =>
    have hrest := ih fun o' ho' => h o' (List.mem_cons_of_mem _ ho')
    have ho := h o List.mem_cons_self
    cases o with
    | started => cases ho
    | callback => cases ho
    | updateConnection => exact hrest
    | write => exact hrest

theorem reportsOk_silent {entries log : List OtaOut} (h : ∀ o ∈ entries, o.Silent)
    (hlog : ReportsOk log) : ReportsOk (entries ++ log) := by
  induction entries with
  | nil => exact hlog
  | cons o entries ih =>
    have hrest := ih fun o' ho' => h o' (List.mem_cons_of_mem _ ho')
    have ho := h o List.mem_cons_self
    cases o with
    | started => cases ho
    | callback => cases ho
    | updateConnection => exact hrest
    | write => exact hrest

/-- A call that goes on with the session. -/
structure GoesOn (clt : OtaClient) (r : OtaClient × List OtaOut) : Prop where
  active : r.1.otaUpdateFlow ≠ .idle
  handle_eq : r.1.otaConnHandle = clt.otaConnHandle
  cb_eq : r.1.cb = clt.cb
  compare_eq : r.1.versionCompare = clt.versionCompare
  offset_eq : r.1.firmwareOffset = clt.firmwareOffset
  silent : ∀ o ∈ r.2, o.Silent

section Calls

variable {bigPdu : Bool} {crc16 : List UInt8 → ℕ} {clt : OtaClient}

theorem goesOn_step {step : OtaStep} (hstep : step ≠ .idle) :
    GoesOn clt ({ clt with otaUpdateFlow := step }, []) :=
  ⟨hstep, rfl, rfl, rfl, rfl, fun o ho => by cases ho⟩

theorem silent_singleton {o : OtaOut} (h : o.Silent) : ∀ o' ∈ [o], o'.Silent := by
  intro o' ho'
  rw [List.mem_singleton.mp ho']
  exact h

theorem procOtaStart_goesOn (hactive : clt.otaUpdateFlow ≠ .idle) (env : OtaEnv) :
    GoesOn clt (procOtaStart bigPdu clt env) := by
  unfold procOtaStart
  cases env.written with
  | true => exact ⟨OtaStep.noConfusion, rfl, rfl, rfl, rfl, silent_singleton trivial⟩
  | false => exact ⟨hactive, rfl, rfl, rfl, rfl, silent_singleton trivial⟩

theorem procOtaEnd_goesOn (hactive : clt.otaUpdateFlow ≠ .idle) (env : OtaEnv) :
    GoesOn clt (procOtaEnd clt env) := by
  unfold procOtaEnd
  cases env.written with
  | true => exact ⟨OtaStep.noConfusion, rfl, rfl, rfl, rfl, silent_singleton trivial⟩
  | false => exact ⟨hactive, rfl, rfl, rfl, rfl, silent_singleton trivial⟩

theorem procOtaData_goesOn (hactive : clt.otaUpdateFlow ≠ .idle) (env : OtaEnv) :
    GoesOn clt (procOtaData bigPdu crc16 clt env) := by
  have hstay : GoesOn clt (clt, []) :=
    ⟨hactive, rfl, rfl, rfl, rfl, fun o ho => by cases ho⟩
  unfold procOtaData
  split
  · exact hstay
  split
  · exact hstay
  dsimp only
  split
  · exact ⟨hactive, rfl, rfl, rfl, rfl, fun o ho => by cases ho⟩
  split
  · cases env.written with
    | true => exact ⟨hactive, rfl, rfl, rfl, rfl, silent_singleton trivial⟩
    | false => exact ⟨hactive, rfl, rfl, rfl, rfl, silent_singleton trivial⟩
  · exact ⟨OtaStep.noConfusion, rfl, rfl, rfl, rfl, fun o ho => by cases ho⟩

theorem conn_goesOn (hactive : clt.otaUpdateFlow ≠ .idle) (env : OtaEnv) :
    GoesOn clt (if env.connUpdated then { clt with otaUpdateFlow := .reqFwVersion } else clt,
      [.updateConnection clt.otaConnHandle]) := by
  cases env.connUpdated with
  | true => exact ⟨OtaStep.noConfusion, rfl, rfl, rfl, rfl, silent_singleton trivial⟩
  | false => exact ⟨hactive, rfl, rfl, rfl, rfl, silent_singleton trivial⟩

/-- A call starts a session, ends it, goes on with it, or does nothing. -/
theorem otaCall_cases (bigPdu : Bool) (crc16 : List UInt8 → ℕ) (clt : OtaClient) (ev : OtaEvent) :
    otaCall bigPdu crc16 clt ev = (clt, []) ∨
    (clt.otaUpdateFlow = .idle ∧ ∃ addr connHandle cb, otaCall bigPdu crc16 clt ev =
      ({ clt with
        otaNewFwAddr := addr
        cb := cb
        otaConnHandle := connHandle
        otaUpdateFlow := .checkFw }, [.started connHandle cb])) ∨
    (clt.otaUpdateFlow ≠ .idle ∧ ∃ size version result, otaCall bigPdu crc16 clt ev =
      (appOtaReset { clt with firmwareSize := size, newFwVersionNum := version },
        reportOf clt result)) ∨
    (clt.otaUpdateFlow ≠ .idle ∧ GoesOn clt (otaCall bigPdu crc16 clt ev)) := by
  have hmove := otaCall_move bigPdu crc16 clt ev
  generalize otaCall bigPdu crc16 clt ev = r at hmove ⊢
  have hne : ∀ {step : OtaStep}, clt.otaUpdateFlow = step → step ≠ .idle →
      clt.otaUpdateFlow ≠ .idle := fun h hstep => h ▸ hstep
  cases hmove with
  | stay => exact .inl rfl
  | start addr connHandle cb hflow => exact .inr (.inl ⟨hflow, addr, connHandle, cb, rfl⟩)
  | finish _ size version result hflow =>
    exact .inr (.inr (.inl ⟨hflow, size, version, result, rfl⟩))
  | check env hflow hmin hmax =>
    have hactive := hne hflow OtaStep.noConfusion
    refine .inr (.inr (.inr ⟨hactive, ?_⟩))
    rw [procCheckFw_eq bigPdu hmin hmax]
    exact ⟨OtaStep.noConfusion, rfl, rfl, rfl, rfl, fun o ho => by cases ho⟩
  | conn env hflow =>
    have hactive := hne hflow OtaStep.noConfusion
    exact .inr (.inr (.inr ⟨hactive, conn_goesOn hactive env⟩))
  | skipVersion _ hflow =>
    have hactive : clt.otaUpdateFlow ≠ .idle := by
      rcases hflow with hflow | hflow <;> exact hne hflow OtaStep.noConfusion
    exact .inr (.inr (.inr ⟨hactive, goesOn_step OtaStep.noConfusion⟩))
  | sendStart env hflow =>
    have hactive := hne hflow OtaStep.noConfusion
    exact .inr (.inr (.inr ⟨hactive, procOtaStart_goesOn hactive env⟩))
  | sendData env hflow =>
    have hactive := hne hflow OtaStep.noConfusion
    exact .inr (.inr (.inr ⟨hactive, procOtaData_goesOn hactive env⟩))
  | sendEnd env hflow =>
    have hactive := hne hflow OtaStep.noConfusion
    exact .inr (.inr (.inr ⟨hactive, procOtaEnd_goesOn hactive env⟩))

end Calls

/-- What holds of the client and its log at all times. -/
structure SessionInv (s : OtaRun) : Prop where
  reports : ReportsOk s.log
  session_eq : s.clt.otaUpdateFlow ≠ .idle →
    sessionOf s.log = some (s.clt.otaConnHandle, s.clt.cb)
  reset : s.clt.otaUpdateFlow = .idle → s.clt.IsReset
  compare_eq : s.clt.versionCompare = false
  offset_eq : s.clt.firmwareOffset = 0

theorem sessionInv_zero : SessionInv ⟨.zero, []⟩ where
  reports := trivial
  session_eq h := absurd rfl h
  reset _ := ⟨rfl, rfl, rfl, rfl, rfl, rfl⟩
  compare_eq := rfl
  offset_eq := rfl

/-- The report of a session is the one that is due. -/
theorem reportsOk_reportOf {clt : OtaClient} {log : List OtaOut} (h : ReportsOk log)
    (hsession : sessionOf log = some (clt.otaConnHandle, clt.cb)) (result : ℕ) :
    ReportsOk (reportOf clt result ++ log) := by
  unfold reportOf
  split
  · rename_i cb hcb
    rw [hcb] at hsession
    exact ⟨hsession, h⟩
  · exact h

theorem sessionInv_step (bigPdu : Bool) (crc16 : List UInt8 → ℕ) {s : OtaRun}
    (h : SessionInv s) (ev : OtaEvent) : SessionInv (otaStep bigPdu crc16 s ev) := by
  obtain ⟨clt, log⟩ := s
  show SessionInv ⟨(otaCall bigPdu crc16 clt ev).1, (otaCall bigPdu crc16 clt ev).2 ++ log⟩
  rcases otaCall_cases bigPdu crc16 clt ev with heq | ⟨hidle, addr, connHandle, cb, heq⟩ |
    ⟨hactive, size, version, result, heq⟩ | ⟨hactive, hgoes⟩
  · rw [heq]
    exact h
  · -- a session starts
    rw [heq]
    exact ⟨h.reports, fun _ => rfl, OtaStep.noConfusion, h.compare_eq, h.offset_eq⟩
  · -- it ends with the report of what started it
    rw [heq]
    exact ⟨reportsOk_reportOf h.reports (h.session_eq hactive) result,
      fun hflow => absurd rfl hflow, fun _ => ⟨rfl, rfl, rfl, rfl, rfl, rfl⟩, h.compare_eq, rfl⟩
  · generalize otaCall bigPdu crc16 clt ev = r at hgoes
    refine ⟨reportsOk_silent hgoes.silent h.reports, fun _ => ?_, fun hflow => ?_, ?_, ?_⟩
    · rw [sessionOf_silent hgoes.silent, hgoes.handle_eq, hgoes.cb_eq]
      exact h.session_eq hactive
    · exact absurd hflow hgoes.active
    · exact hgoes.compare_eq.trans h.compare_eq
    · exact hgoes.offset_eq.trans h.offset_eq

theorem sessionInv_run (bigPdu : Bool) (crc16 : List UInt8 → ℕ) (evs : List OtaEvent) :
    SessionInv (run (otaStep bigPdu crc16) ⟨.zero, []⟩ evs) := by
  have hstep : ∀ (s : OtaRun) (ev : OtaEvent), SessionInv s → True →
      SessionInv (otaStep bigPdu crc16 s ev) :=
    fun s ev hs _ => sessionInv_step bigPdu crc16 hs ev
  exact run_invariant hstep sessionInv_zero (along_true _ evs)

/-! ## Leftovers of a session -/

/-- Two clients that agree on all that a call may read. The callback is read in a session, and
what the check of the firmware stores is read behind that check. -/
structure SameLive (x y : OtaClient) : Prop where
  flow_eq : y.otaUpdateFlow = x.otaUpdateFlow
  compare_eq : y.versionCompare = x.versionCompare
  handle_eq : y.otaConnHandle = x.otaConnHandle
  cur_eq : y.curAdrIndex = x.curAdrIndex
  addr_eq : y.otaNewFwAddr = x.otaNewFwAddr
  start_eq : y.otaStartTick = x.otaStartTick
  push_eq : y.pushOtaDataTick = x.pushOtaDataTick
  cb_eq : x.otaUpdateFlow ≠ .idle → y.cb = x.cb
  last_eq : x.otaUpdateFlow ≠ .idle → x.otaUpdateFlow ≠ .checkFw →
    y.lastAdrIndex = x.lastAdrIndex ∧ y.lastValidPduLen = x.lastValidPduLen

/-- Two calls that do the same, and leave clients that agree. -/
def Agree (p q : OtaClient × List OtaOut) : Prop := q.2 = p.2 ∧ SameLive p.1 q.1

section Agree

variable {bigPdu : Bool} {crc16 : List UInt8 → ℕ} {x y : OtaClient}

theorem agree_stay (h : SameLive x y) : Agree (x, []) (y, []) := ⟨rfl, h⟩

theorem reportOf_eq (h : SameLive x y) (hactive : x.otaUpdateFlow ≠ .idle) (result : ℕ) :
    reportOf y result = reportOf x result := by
  unfold reportOf
  rw [h.cb_eq hactive, h.handle_eq]

theorem sameLive_reset (h : SameLive x y) (size size' version version' : ℕ) :
    SameLive (appOtaReset { x with firmwareSize := size, newFwVersionNum := version })
      (appOtaReset { y with firmwareSize := size', newFwVersionNum := version' }) :=
  ⟨rfl, h.compare_eq, rfl, rfl, rfl, rfl, h.push_eq, fun hidle => absurd rfl hidle,
    fun hidle => absurd rfl hidle⟩

theorem agree_setResult (h : SameLive x y) (result : ℕ) :
    Agree (appOtaSetResult x result) (appOtaSetResult y result) := by
  by_cases hidle : x.otaUpdateFlow = .idle
  · have hidle' : y.otaUpdateFlow = .idle := h.flow_eq.trans hidle
    rw [appOtaSetResult, if_pos hidle, appOtaSetResult, if_pos hidle']
    exact agree_stay h
  · have hidle' : y.otaUpdateFlow ≠ .idle := by
      rw [h.flow_eq]
      exact hidle
    rw [appOtaSetResult_eq hidle, appOtaSetResult_eq hidle']
    exact ⟨reportOf_eq h hidle result,
      sameLive_reset h x.firmwareSize y.firmwareSize x.newFwVersionNum y.newFwVersionNum⟩

theorem agree_start (h : SameLive x y) (addr connHandle : ℕ) (cb : Option ℕ) :
    Agree (appOtaStart x addr connHandle cb).2 (appOtaStart y addr connHandle cb).2 := by
  unfold appOtaStart
  rw [h.flow_eq]
  split
  · exact agree_stay h
  · exact ⟨rfl, rfl, h.compare_eq, rfl, h.cur_eq, rfl, h.start_eq, h.push_eq, fun _ => rfl,
      fun _ hcheck => absurd rfl hcheck⟩

theorem agree_prfEvent (h : SameLive x y) (aclHandle evtID : ℕ) (data : ℕ → UInt8) :
    Agree (appOtaPrfEventCallback x aclHandle evtID data)
      (appOtaPrfEventCallback y aclHandle evtID data) := by
  unfold appOtaPrfEventCallback
  rw [h.flow_eq, h.handle_eq, h.compare_eq]
  dsimp only
  split
  · rename_i hactive
    split
    · split
      · rename_i hwait
        split
        · exact agree_setResult h _
        · have hcheck : x.otaUpdateFlow ≠ .checkFw := by
            rw [hwait]
            exact OtaStep.noConfusion
          exact ⟨rfl, rfl, rfl, rfl, h.cur_eq, h.addr_eq, h.start_eq, h.push_eq,
            fun _ => h.cb_eq hactive.1, fun _ _ => h.last_eq hactive.1 hcheck⟩
      · exact agree_stay h
    · split
      · split
        · exact agree_setResult h _
        · exact agree_stay h
      · exact agree_stay h
  · exact agree_stay h

theorem agree_terminated (h : SameLive x y) (connHandle : ℕ) :
    Agree (appOtaConnectionTerminated x connHandle) (appOtaConnectionTerminated y connHandle) := by
  unfold appOtaConnectionTerminated
  rw [h.flow_eq, h.handle_eq]
  split
  · split
    · exact agree_setResult h _
    · exact agree_stay h
  · exact agree_stay h

theorem agree_checkFw (h : SameLive x y) (hflow : x.otaUpdateFlow = .checkFw) (env : OtaEnv) :
    Agree (procCheckFw bigPdu x env) (procCheckFw bigPdu y env) := by
  have hx : x.otaUpdateFlow ≠ .idle := by
    rw [hflow]
    exact OtaStep.noConfusion
  have hy : y.otaUpdateFlow ≠ .idle := by
    rw [h.flow_eq]
    exact hx
  by_cases hsize : fwSize env.flash x.otaNewFwAddr < fwSizeMin ∨
      fwSizeMax < fwSize env.flash x.otaNewFwAddr
  · rw [procCheckFw_reject bigPdu hx hsize,
      procCheckFw_reject bigPdu hy (by rw [h.addr_eq]; exact hsize)]
    exact ⟨reportOf_eq h hx _, sameLive_reset h _ _ _ _⟩
  · have hmin : fwSizeMin ≤ fwSize env.flash x.otaNewFwAddr := by omega
    have hmax : fwSize env.flash x.otaNewFwAddr ≤ fwSizeMax := by omega
    have hsame : fwSize env.flash y.otaNewFwAddr = fwSize env.flash x.otaNewFwAddr := by
      rw [h.addr_eq]
    rw [procCheckFw_eq bigPdu hmin hmax, procCheckFw_eq bigPdu (hsame ▸ hmin) (hsame ▸ hmax), hsame]
    exact ⟨rfl, rfl, h.compare_eq, h.handle_eq, h.cur_eq, h.addr_eq, h.start_eq, h.push_eq,
      fun _ => h.cb_eq hx, fun _ _ => ⟨rfl, rfl⟩⟩

theorem agree_otaStart (h : SameLive x y) (hactive : x.otaUpdateFlow ≠ .idle)
    (hcheck : x.otaUpdateFlow ≠ .checkFw) (env : OtaEnv) :
    Agree (procOtaStart bigPdu x env) (procOtaStart bigPdu y env) := by
  unfold procOtaStart
  rw [h.handle_eq]
  cases env.written with
  | true =>
    exact ⟨rfl, rfl, h.compare_eq, rfl, h.cur_eq, h.addr_eq, rfl, h.push_eq,
      fun _ => h.cb_eq hactive, fun _ _ => h.last_eq hactive hcheck⟩
  | false => exact ⟨rfl, h⟩

theorem agree_otaEnd (h : SameLive x y) (hactive : x.otaUpdateFlow ≠ .idle)
    (hcheck : x.otaUpdateFlow ≠ .checkFw) (env : OtaEnv) :
    Agree (procOtaEnd x env) (procOtaEnd y env) := by
  unfold procOtaEnd
  rw [h.handle_eq, (h.last_eq hactive hcheck).1]
  cases env.written with
  | true =>
    exact ⟨rfl, rfl, h.compare_eq, rfl, h.cur_eq, h.addr_eq, h.start_eq, h.push_eq,
      fun _ => h.cb_eq hactive, fun _ _ => ⟨rfl, (h.last_eq hactive hcheck).2⟩⟩
  | false => exact ⟨rfl, h⟩

theorem otaPduData_same (h : SameLive x y) (hactive : x.otaUpdateFlow ≠ .idle)
    (hcheck : x.otaUpdateFlow ≠ .checkFw) (flash : Cells) :
    otaPduData bigPdu y flash = otaPduData bigPdu x flash := by
  obtain ⟨hlast, hvalid⟩ := h.last_eq hactive hcheck
  unfold otaPduData
  rw [h.addr_eq, h.cur_eq, hlast, hvalid]

theorem agree_otaData (h : SameLive x y) (hactive : x.otaUpdateFlow ≠ .idle)
    (hcheck : x.otaUpdateFlow ≠ .checkFw) (env : OtaEnv) :
    Agree (procOtaData bigPdu crc16 x env) (procOtaData bigPdu crc16 y env) := by
  have hpush : ∀ tick, SameLive { x with pushOtaDataTick := tick }
      { y with pushOtaDataTick := tick } := fun tick =>
    ⟨h.flow_eq, h.compare_eq, h.handle_eq, h.cur_eq, h.addr_eq, h.start_eq, rfl,
      h.cb_eq, h.last_eq⟩
  have hdata := @otaPduData_same bigPdu _ _ (hpush (u32 (env.clock 3))) hactive hcheck env.flash
  have hlast := h.last_eq hactive hcheck
  unfold procOtaData
  rw [h.start_eq, h.push_eq]
  split
  · exact agree_stay h
  split
  · exact agree_stay h
  dsimp only at hdata ⊢
  rw [h.start_eq] at hdata
  rw [hdata, h.cur_eq, hlast.1, h.handle_eq]
  split
  · exact ⟨rfl, h.flow_eq, h.compare_eq, rfl, rfl, h.addr_eq, rfl, rfl, h.cb_eq,
      fun _ _ => ⟨rfl, hlast.2⟩⟩
  split
  · cases env.written with
    | true => exact ⟨rfl, h.flow_eq, h.compare_eq, rfl, rfl, h.addr_eq, rfl, rfl, h.cb_eq,
        fun _ _ => ⟨rfl, hlast.2⟩⟩
    | false => exact ⟨rfl, h.flow_eq, h.compare_eq, rfl, rfl, h.addr_eq, rfl, rfl, h.cb_eq,
        fun _ _ => ⟨rfl, hlast.2⟩⟩
  · exact ⟨rfl, rfl, h.compare_eq, rfl, rfl, h.addr_eq, rfl, rfl, fun _ => h.cb_eq hactive,
      fun _ _ => ⟨rfl, hlast.2⟩⟩

theorem agree_conn (h : SameLive x y) (hactive : x.otaUpdateFlow ≠ .idle)
    (hcheck : x.otaUpdateFlow ≠ .checkFw) (env : OtaEnv) :
    Agree
      (if env.connUpdated then { x with otaUpdateFlow := .reqFwVersion } else x,
        [.updateConnection x.otaConnHandle])
      (if env.connUpdated then { y with otaUpdateFlow := .reqFwVersion } else y,
        [.updateConnection y.otaConnHandle]) := by
  rw [h.handle_eq]
  cases env.connUpdated with
  | true =>
    exact ⟨rfl, rfl, h.compare_eq, rfl, h.cur_eq, h.addr_eq, h.start_eq, h.push_eq,
      fun _ => h.cb_eq hactive, fun _ _ => h.last_eq hactive hcheck⟩
  | false => exact ⟨rfl, h⟩

theorem agree_mainloop (h : SameLive x y) (env : OtaEnv) :
    Agree (appOtaMainloop bigPdu crc16 x env) (appOtaMainloop bigPdu crc16 y env) := by
  unfold appOtaMainloop
  rw [h.flow_eq]
  split
  · rename_i hactive
    unfold appProcOtaUpdate
    have htime : (y.otaStartTick ≠ 0 ∧
        clockTimeExceed (env.clock 0) y.otaStartTick (otaTimeoutS * 1000000)) ↔
        (x.otaStartTick ≠ 0 ∧
          clockTimeExceed (env.clock 0) x.otaStartTick (otaTimeoutS * 1000000)) := by
      rw [h.start_eq]
    by_cases hexceed : x.otaStartTick ≠ 0 ∧
        clockTimeExceed (env.clock 0) x.otaStartTick (otaTimeoutS * 1000000)
    · rw [if_pos hexceed, if_pos (htime.mpr hexceed)]
      exact agree_setResult h _
    rw [if_neg hexceed, if_neg (mt htime.mp hexceed), h.flow_eq]
    have hcheck : ∀ {step : OtaStep}, x.otaUpdateFlow = step → step ≠ .checkFw →
        x.otaUpdateFlow ≠ .checkFw := fun hflow hstep => hflow ▸ hstep
    cases hflow : x.otaUpdateFlow with
    | checkFw => exact agree_checkFw h hflow env
    | updateConn => exact agree_conn h hactive (hcheck hflow OtaStep.noConfusion) env
    | reqFwVersion =>
      exact ⟨rfl, rfl, h.compare_eq, h.handle_eq, h.cur_eq, h.addr_eq, h.start_eq, h.push_eq,
        fun _ => h.cb_eq hactive,
        fun _ _ => h.last_eq hactive (hcheck hflow OtaStep.noConfusion)⟩
    | otaStart => exact agree_otaStart h hactive (hcheck hflow OtaStep.noConfusion) env
    | otaData => exact agree_otaData h hactive (hcheck hflow OtaStep.noConfusion) env
    | otaEnd => exact agree_otaEnd h hactive (hcheck hflow OtaStep.noConfusion) env
    | idle => exact agree_stay h
    | waitFwVersion => exact agree_stay h
    | otaSignature => exact agree_stay h
    | waitOtaResult => exact agree_stay h
  · exact agree_stay h

theorem agree_otaCall (h : SameLive x y) (ev : OtaEvent) :
    Agree (otaCall bigPdu crc16 x ev) (otaCall bigPdu crc16 y ev) := by
  cases ev with
  | start addr connHandle cb => exact agree_start h addr connHandle cb
  | mainloop env => exact agree_mainloop h env
  | prfEvent aclHandle evtID data => exact agree_prfEvent h aclHandle evtID data
  | terminated connHandle => exact agree_terminated h connHandle

/-- Two clients that agree, behind the same calls. -/
def AgreeRun (s t : OtaRun) : Prop := SameLive s.clt t.clt ∧ s.log = t.log

theorem agreeRun_step {s t : OtaRun} (h : AgreeRun s t) (ev : OtaEvent) :
    AgreeRun (otaStep bigPdu crc16 s ev) (otaStep bigPdu crc16 t ev) := by
  obtain ⟨hlive, hlog⟩ := h
  obtain ⟨hout, hlive'⟩ := @agree_otaCall bigPdu crc16 _ _ hlive ev
  refine ⟨hlive', ?_⟩
  show (otaCall bigPdu crc16 s.clt ev).2 ++ s.log = (otaCall bigPdu crc16 t.clt ev).2 ++ t.log
  rw [hout, hlog]

/-- Two clients that agree do the same in every run. -/
theorem sameLive_run_log (h : SameLive x y) (evs : List OtaEvent) :
    (run (otaStep bigPdu crc16) ⟨x, []⟩ evs).log =
      (run (otaStep bigPdu crc16) ⟨y, []⟩ evs).log := by
  have hstart : AgreeRun ⟨x, []⟩ ⟨y, []⟩ := ⟨h, rfl⟩
  have hstep : ∀ (s t : OtaRun) (ev : OtaEvent), AgreeRun s t →
      AgreeRun (otaStep bigPdu crc16 s ev) (otaStep bigPdu crc16 t ev) :=
    fun s t ev hst => agreeRun_step hst ev
  exact (run_rel hstep hstart evs).2

end Agree

/-- A client without a session is a fresh one, but for what the next session writes first. -/
theorem SessionInv.behavesAsFresh {s : OtaRun} (h : SessionInv s)
    (hidle : s.clt.otaUpdateFlow = .idle) (bigPdu : Bool) (crc16 : List UInt8 → ℕ) :
    BehavesAsFresh bigPdu crc16 s.clt := by
  have hreset := h.reset hidle
  have hlive : SameLive s.clt (.fresh s.clt.pushOtaDataTick) :=
    ⟨hidle.symm, h.compare_eq.symm, hreset.handle_eq.symm, hreset.cur_eq.symm,
      hreset.addr_eq.symm, hreset.start_eq.symm, rfl, fun hactive => absurd hidle hactive,
      fun hactive => absurd hidle hactive⟩
  exact fun evs => sameLive_run_log hlive evs

/-- A call that reports a session leaves none. -/
theorem idle_of_callback {bigPdu : Bool} {crc16 : List UInt8 → ℕ} {clt : OtaClient} {ev : OtaEvent}
    {cb connHandle result : ℕ}
    (h : .callback cb connHandle result ∈ (otaCall bigPdu crc16 clt ev).2) :
    (otaCall bigPdu crc16 clt ev).1.otaUpdateFlow = .idle := by
  rcases otaCall_cases bigPdu crc16 clt ev with heq | ⟨_, _, _, _, heq⟩ | ⟨_, _, _, _, heq⟩ |
    ⟨_, hgoes⟩
  · rw [heq] at h
    cases h
  · rw [heq] at h
    cases List.mem_singleton.mp h
  · rw [heq]
    rfl
  · exact absurd (hgoes.silent _ h) id

theorem prfEvent_other {clt : OtaClient} {aclHandle : ℕ} (h : aclHandle ≠ clt.otaConnHandle)
    (evtID : ℕ) (data : ℕ → UInt8) :
    appOtaPrfEventCallback clt aclHandle evtID data = (clt, []) :=
  if_neg fun hmatch => h hmatch.2.2

theorem terminated_other {clt : OtaClient} {connHandle : ℕ} (h : connHandle ≠ clt.otaConnHandle) :
    appOtaConnectionTerminated clt connHandle = (clt, []) := if_neg h

/-- In every run: a callback reports the session that was accepted last, once and with its
handle; no session is accepted in another; events of other connections change nothing; and
behind a callback the client is reset and behaves as one that had no session. -/
theorem ota_sessions (bigPdu : Bool) (crc16 : List UInt8 → ℕ) (evs : List OtaEvent) :
    let s := run (otaStep bigPdu crc16) ⟨.zero, []⟩ evs
    ReportsOk s.log ∧
      (s.clt.otaUpdateFlow ≠ .idle → ∀ addr connHandle cb,
        appOtaStart s.clt addr connHandle cb = (false, s.clt, [])) ∧
      (∀ connHandle, connHandle ≠ s.clt.otaConnHandle →
        (∀ evtID data, appOtaPrfEventCallback s.clt connHandle evtID data = (s.clt, [])) ∧
          appOtaConnectionTerminated s.clt connHandle = (s.clt, [])) ∧
      ∀ ev cb connHandle result,
        .callback cb connHandle result ∈ (otaCall bigPdu crc16 s.clt ev).2 →
          (otaStep bigPdu crc16 s ev).clt.IsReset ∧
            BehavesAsFresh bigPdu crc16 (otaStep bigPdu crc16 s ev).clt := by
  intro s
  have hinv : SessionInv s := sessionInv_run bigPdu crc16 evs
  refine ⟨hinv.reports, fun hactive addr connHandle cb => if_pos hactive,
    fun connHandle hother => ⟨prfEvent_other hother, terminated_other hother⟩, ?_⟩
  intro ev cb connHandle result hcb
  have hidle : (otaStep bigPdu crc16 s ev).clt.otaUpdateFlow = .idle := idle_of_callback hcb
  have hnext := sessionInv_step bigPdu crc16 hinv ev
  exact ⟨hnext.reset hidle, hnext.behavesAsFresh hidle bigPdu crc16⟩

/-- A session that is ended by its connection behind the check of the firmware leaves the last
index of it. -/
theorem ota_sessions_leftover :
    let s := run (otaStep false fun _ => 0) ⟨.zero, []⟩
      [.start 0x80000 5 (some 1),
        .mainloop ⟨fun a => if a = 0x80019 then 0x40 else 0, fun _ => 0, true, 0, true, fun _ => 0⟩,
        .terminated 5]
    s.log = [.callback 1 5 otaFailDueToConnectionTerminate, .started 5 (some 1)] ∧
      ¬s.clt.IsFresh := by
  intro s
  exact ⟨by decide, fun h => absurd h.last_eq (by decide)⟩

end TlBleSdk.Eslp
