import TlBleSdk.Eslp.ApDevices

/-!
# The commands that wait for a PAwR event

`cmd_parse` of the access point, and the commands that append to the pending commands of a
group, clear them and send them. `blc_esl_getCommandSize` of the profile library is a function
of the command header.

`pendingEslCmds` goes on behind the end of the array. An access behind it is noted.
-/

namespace TlBleSdk.Eslp

open Hci ApDevices

/-! ## Parsing a command -/

/-- `BLC_ESLS_ESL_ID_BROADCAST`. -/
def eslIdBroadcast : BitVec 8 := 0xFF

/-- `BLC_ESLS_CMD_RSP_MIN_LENGTH`. -/
def cmdRspMinLength : ℕ := 2

/-- `BLC_ESLS_CMD_RSP_MAX_LENGTH`. -/
def cmdRspMaxLength : ℕ := 17

/-- The size of `cmdBuf`, `MAX_ESL_PAYLOAD_SIZE - 1`. -/
def pendingCmdBufSize : ℕ := 48 - 1

/-- A number as a `u8` field. -/
def u8Field (ps : CString) : List UInt8 := [UInt8.ofBitVec ((appParseStr2n ps).setWidth 8)]

/-- A number as a `u32` field. -/
def u32Field (ps : CString) : List UInt8 :=
  (List.range 4).map fun i => UInt8.ofBitVec ((appParseStr2n ps >>> (8 * i)).setWidth 8)

/-- The bit fields of the LED color and the brightness. -/
def ledColorField (red green blue brightness : CString) : List UInt8 :=
  let field (ps : CString) : BitVec 8 := ((appParseStr2n ps).setWidth 2).setWidth 8
  [UInt8.ofBitVec (field red ||| field green <<< 2 ||| field blue <<< 4 |||
    field brightness <<< 6)]

/-- The bit fields of the repetition. -/
def ledRepeatField (repeatType repeatDuration : CString) : List UInt8 :=
  let v : BitVec 16 := ((appParseStr2n repeatType).setWidth 1).setWidth 16 |||
    ((appParseStr2n repeatDuration).setWidth 15).setWidth 16 <<< 1
  [UInt8.ofBitVec (v.setWidth 8), UInt8.ofBitVec ((v >>> 8).setWidth 8)]

/-- The fields that both LED commands have, and the arguments behind them. -/
def parseLedFields (cmdBuf : ℕ → UInt8) : List CString → Option ((ℕ → UInt8) × List CString)
  | ledId :: red :: green :: blue :: brightness :: pattern :: repeatType :: duration :: argv =>
    -- the pattern has 7 bytes; a shorter one leaves what the buffer holds
    if 7 * 2 < pattern.length then none
    else
      let cmdBuf := memcpy cmdBuf 2 (u8Field ledId ++ ledColorField red green blue brightness)
      let cmdBuf := memcpy cmdBuf 4 (str2hex pattern)
      some (memcpy cmdBuf 11 (ledRepeatField repeatType duration), argv)
  | _ => none

/-- The command that the name and the arguments behind it give, and the arguments left. -/
def parseFields (name : CString) (argv : List CString) (cmdBuf : ℕ → UInt8) :
    Option ((ℕ → UInt8) × List CString) :=
  let opcode (code : UInt8) : ℕ → UInt8 := memcpy cmdBuf 0 [code]
  if strcaseEq name "ping".toList then some (opcode 0x00, argv)
  else if strcaseEq name "upd_cmpl".toList then some (opcode 0x04, argv)
  else if strcaseEq name "read_sensor".toList then
    match argv with
    | sensorId :: argv => some (memcpy (opcode 0x10) 2 (u8Field sensorId), argv)
    | [] => none
  else if strcaseEq name "refresh_display".toList then
    match argv with
    | displayId :: argv => some (memcpy (opcode 0x11) 2 (u8Field displayId), argv)
    | [] => none
  else if strcaseEq name "display_image".toList then
    match argv with
    | displayId :: imageId :: argv =>
      some (memcpy (opcode 0x20) 2 (u8Field displayId ++ u8Field imageId), argv)
    | _ => none
  else if strcaseEq name "display_timed_image".toList then
    match argv with
    | absoluteTime :: displayId :: imageId :: argv =>
      some (memcpy (opcode 0x60) 2 (u8Field displayId ++ u8Field imageId ++
        u32Field absoluteTime), argv)
    | _ => none
  else if strcaseEq name "led_control".toList then parseLedFields (opcode 0xB0) argv
  else if strcaseEq name "led_timed_control".toList then
    match argv with
    | absoluteTime :: argv =>
      parseLedFields (memcpy (opcode 0xF0) 13 (u32Field absoluteTime)) argv
    | [] => none
  else if strcaseEq name "factory_reset".toList then some (opcode 0x03, argv)
  else if strcaseEq name "unassociate".toList then some (opcode 0x01, argv)
  else if strcaseEq name "vendor".toList then
    match argv with
    | parameters :: argv =>
      if 0x0F * 2 < parameters.length then none
      else
        let data := str2hex parameters
        -- the length is in the upper half of the opcode
        some (memcpy (opcode ((0x0F : UInt8) ||| UInt8.ofNat data.length <<< 4)) 2 data, argv)
    | [] => none
  else none

/-- `cmd_parse` into `cmdBuf`, without the size that it returns. What the command lacks of its
arguments, or of the address, ends in the help text. -/
def cmdParse (argv : List CString) (cmdBuf : ℕ → UInt8) : Option ((ℕ → UInt8) × EslAddress) :=
  match argv with
  | [] => none
  | name :: argv => do
    let (cmdBuf, argv) ← if argv = [] then none else parseFields name argv cmdBuf
    let address ← parseEslAddress argv
    some (memcpy cmdBuf 1 [UInt8.ofBitVec address.eslId], address)

/-! ## Pending commands -/

/-- `app_ap_pendingEslCmd_t`. -/
structure PendingEslCmd where
  cmdBuf : ℕ → UInt8
  cmdLength : ℕ
  cmdNum : ℕ

/-- What a command reports. -/
inductive PawrReport
  | failed
  | appended (groupId : ℕ) (cmd : List UInt8)
  | cleared (groupId : ℕ)
  | sent (groupId : ℕ)

/-- The commands of each group that the reports speak of. -/
def PawrReport.apply (queued : ℕ → List (List UInt8)) : PawrReport → ℕ → List (List UInt8)
  | .failed => queued
  | .appended groupId cmd => Function.update queued groupId (queued groupId ++ [cmd])
  | .cleared groupId => Function.update queued groupId []
  | .sent groupId => Function.update queued groupId []

/-- The access point: the devices, `pendingEslCmds`, the groups that the last command accessed
there, what it reported, and the commands according to all reports. -/
structure EslAp where
  table : ApTable
  pendingEslCmds : ℕ → PendingEslCmd
  accessed : List ℕ
  report : PawrReport
  queued : ℕ → List (List UInt8)

/-- Power-on. -/
def EslAp.powerOn : EslAp where
  table := .powerOn
  pendingEslCmds _ := ⟨fun _ => 0, 0, 0⟩
  accessed := []
  report := .failed
  queued _ := []

/-- The end of a command: what it accessed and reports. -/
def EslAp.finish (s : EslAp) (accessed : List ℕ) (report : PawrReport) : EslAp :=
  { s with accessed := accessed, report := report, queued := report.apply s.queued }

/-- The pending commands of a group are set. -/
def EslAp.setPending (s : EslAp) (groupId : ℕ) (p : PendingEslCmd) : EslAp :=
  { s with pendingEslCmds := Function.update s.pendingEslCmds groupId p }

section

variable (getCommandSize : UInt8 → UInt8 → ℕ)

/-- `cmd_pawr_append_fun`. `stack` is what `cmdBuf` holds at first. -/
def cmdPawrAppend (s : EslAp) (argv : List CString) (stack : ℕ → UInt8) : EslAp :=
  match cmdParse argv stack with
  | none => s.finish [] .failed
  | some (cmdBuf, address) =>
    let cmdLength := u16 (getCommandSize (cmdBuf 0) (cmdBuf 1))
    let groupId := address.groupId.toNat
    if u8 cmdLength = 0 then s.finish [] .failed
    -- the broadcast address is not looked up, and its group is not checked
    else if address.eslId ≠ eslIdBroadcast ∧
        s.table.devices.getEslInfoByEslAddress address = none then s.finish [] .failed
    else
      let p := s.pendingEslCmds groupId
      if pendingCmdBufSize < p.cmdLength + cmdLength then s.finish [groupId] .failed
      else
        (s.setPending groupId
            { cmdBuf := memcpy p.cmdBuf p.cmdLength (bytes cmdBuf cmdLength)
              cmdLength := u16 (p.cmdLength + cmdLength)
              cmdNum := u16 (p.cmdNum + 1) }).finish
          [groupId] (.appended groupId (bytes cmdBuf cmdLength))

/-- The group that `[group_id]` gives. -/
def parseGroupId : List CString → ℕ
  | [] => defaultGroupId.toNat
  | groupId :: _ => ((appParseStr2n groupId).setWidth 8).toNat

/-- `cmd_pawr_clear_fun`. -/
def cmdPawrClear (s : EslAp) (argv : List CString) : EslAp :=
  let groupId := parseGroupId argv
  if eslpApMaxGroups ≤ groupId then s.finish [] .failed
  else
    (s.setPending groupId { s.pendingEslCmds groupId with cmdLength := 0, cmdNum := 0 }).finish
      [groupId] (.cleared groupId)

/-- `cmd_pawr_send_fun`. `success` is whether `blc_eslp_ap_writePawrCommand` succeeds. -/
def cmdPawrSend (s : EslAp) (argv : List CString) (success : Bool) : EslAp :=
  let groupId := parseGroupId argv
  if eslpApMaxGroups ≤ groupId then s.finish [] .failed
  else if (s.pendingEslCmds groupId).cmdNum = 0 then s.finish [groupId] .failed
  else if success then
    (s.setPending groupId { s.pendingEslCmds groupId with cmdNum := 0, cmdLength := 0 }).finish
      [groupId] (.sent groupId)
  else s.finish [groupId] .failed

/-- The commands, and what else changes the devices. -/
inductive PawrEvent
  | append (argv : List CString) (stack : ℕ → UInt8)
  | clear (argv : List CString)
  | send (argv : List CString) (success : Bool)
  | device (e : ApEvent)

/-- A step of the access point. -/
def pawrStep (s : EslAp) : PawrEvent → EslAp
  | .append argv stack => cmdPawrAppend getCommandSize s argv stack
  | .clear argv => cmdPawrClear s argv
  | .send argv success => cmdPawrSend s argv success
  | .device e => { s with table := apStep s.table e }.finish [] .failed

end

/-! ## What holds of the pending commands -/

section

variable (getCommandSize : UInt8 → UInt8 → ℕ)

/-- The pending commands of a group are the commands `cmds`, each of its size, one after the
other. -/
structure PendingEslCmd.Holds (p : PendingEslCmd) (cmds : List (List UInt8)) : Prop where
  cmdNum : p.cmdNum = cmds.length
  cmdLength_le : p.cmdLength ≤ pendingCmdBufSize
  content : bytes p.cmdBuf p.cmdLength = cmds.flatten
  size : ∀ c ∈ cmds, c.length = getCommandSize (c.getD 0 0) (c.getD 1 0)

/-- All accesses are inside of the array, and each group holds the commands that were appended
to it. -/
structure EslAp.Ok (s : EslAp) : Prop where
  accessed : ∀ groupId ∈ s.accessed, groupId < eslpApMaxGroups
  holds : ∀ groupId < eslpApMaxGroups,
    (s.pendingEslCmds groupId).Holds getCommandSize (s.queued groupId)

/-- A command that fails changes no pending commands, and one that sends empties its group. -/
def ReportOk (s : EslAp) (e : PawrEvent) : Prop :=
  match (pawrStep getCommandSize s e).report with
  | .failed => (pawrStep getCommandSize s e).pendingEslCmds = s.pendingEslCmds
  | .sent groupId => ((pawrStep getCommandSize s e).pendingEslCmds groupId).cmdNum = 0 ∧
    ((pawrStep getCommandSize s e).pendingEslCmds groupId).cmdLength = 0
  | _ => True

/-- `blc_eslp_ap_addEsl` fails for a group that is not available. -/
def AddEslOk (_ : EslAp) : PawrEvent → Prop
  | .device (.addEsl argv true) => ∀ connHandle address,
    parseAddEsl argv = some (connHandle, address) → address.groupId.toNat < eslpApMaxGroups
  | _ => True

/-- A command for all labels of a group names a group of the array. -/
def BroadcastOk (_ : EslAp) : PawrEvent → Prop
  | .append argv stack => ∀ cmdBuf address, cmdParse argv stack = some (cmdBuf, address) →
    address.eslId = eslIdBroadcast → address.groupId.toNat < eslpApMaxGroups
  | _ => True

end

/-- The configured labels are in groups of the array. -/
def ConfiguredOk (d : ApDevices) : Prop :=
  ∀ i, (d i).eslConfigured = true → (d i).address.groupId.toNat < eslpApMaxGroups

namespace ConfiguredOk

variable {d : ApDevices}

theorem update (h : ConfiguredOk d) (i : Fin devicesNum) {e : ApEslInfo}
    (he : e.eslConfigured = true → e.address.groupId.toNat < eslpApMaxGroups) :
    ConfiguredOk (Function.update d i e) := by
  intro j
  by_cases hj : j = i
  · subst hj
    rwa [Function.update_self]
  · rw [Function.update_of_ne hj]
    exact h j

/-- A step keeps the groups of the configured labels. -/
theorem apStep {s : ApTable} (h : ConfiguredOk s.devices) (e : ApEvent)
    (hadd : ∀ argv connHandle address, e = .addEsl argv true →
      parseAddEsl argv = some (connHandle, address) → address.groupId.toNat < eslpApMaxGroups) :
    ConfiguredOk (apStep s e).devices := by
  -- only `cmdAddEsl` gives an entry a group, all others keep it or clear the entry
  cases e with
  | connectionComplete status c =>
    by_cases hstatus : status = 0
    · subst hstatus
      rcases connectionComplete_cases s.devices c with
        ⟨i, -, -, heq⟩ | ⟨i, -, -, heq⟩ | ⟨-, heq⟩
      · simp only [Eslp.apStep, heq]
        exact h.update i (h i)
      · simp only [Eslp.apStep, heq]
        exact h.update i fun he => absurd he (by simp [ApEslInfo.zero])
      · simp only [Eslp.apStep, heq]
        exact h
    · simp only [Eslp.apStep, ApDevices.connectionComplete, if_neg hstatus]
      exact h
  | disconnect connHandle =>
    simp only [Eslp.apStep, ApDevices.disconnect]
    split
    · exact h
    · exact h.update _ (h _)
  | advReport pending peer =>
    simp only [Eslp.apStep, ApDevices.advReport]
    split
    · exact h
    · split
      · exact h
      · exact h.update _ (h _)
  | addEsl argv added =>
    simp only [Eslp.apStep, ApDevices.cmdAddEsl]
    cases hparse : parseAddEsl argv with
    | none => exact h
    | some r =>
      simp only [ApDevices.addEsl]
      split
      · exact h
      · split
        · exact h
        · split
          case isTrue hadded =>
            subst hadded
            exact h.update _ fun _ => hadd argv r.1 r.2 rfl hparse
          · exact h
  | rmEsl argv =>
    simp only [Eslp.apStep, ApDevices.cmdRmEsl]
    split
    · exact h
    · split
      · exact h
      · exact h.update _ fun he => absurd he (by simp)
  | connV2 argv =>
    simp only [Eslp.apStep, ApDevices.connV2]
    split
    · exact h
    · split
      · exact h
      · exact h.update _ (h _)
  | conn peer =>
    simp only [Eslp.apStep, ApDevices.cmdConn]
    split
    · exact h
    · exact h.update _ (h _)

/-- A label that the lookup finds is in a group of the array. -/
theorem of_getEslInfo (h : ConfiguredOk d) {address : EslAddress} {i : Fin devicesNum}
    (hfind : d.getEslInfoByEslAddress address = some i) :
    address.groupId.toNat < eslpApMaxGroups := by
  have hi := of_first_eq_some hfind
  simp only [Bool.and_eq_true, decide_eq_true_eq] at hi
  obtain ⟨⟨-, hconf⟩, rfl⟩ := hi
  exact h i hconf

/-- An address that passes the lookup in no group of the array is that of all labels. -/
theorem eslId_eq (h : ConfiguredOk d) {address : EslAddress}
    (hlookup : ¬ (address.eslId ≠ eslIdBroadcast ∧ d.getEslInfoByEslAddress address = none))
    (hgroup : ¬ address.groupId.toNat < eslpApMaxGroups) : address.eslId = eslIdBroadcast := by
  by_contra hne
  cases hfind : d.getEslInfoByEslAddress address with
  | none => exact hlookup ⟨hne, hfind⟩
  | some i => exact hgroup (h.of_getEslInfo hfind)

end ConfiguredOk

/-! ## The steps -/

section Steps

variable {getCommandSize : UInt8 → UInt8 → ℕ} {p : PendingEslCmd} {cmds : List (List UInt8)}

theorem length_le_length_flatten (h : ∀ c ∈ cmds, 1 ≤ c.length) :
    cmds.length ≤ cmds.flatten.length := by
  induction cmds with
  | nil => exact Nat.le_refl _
  | cons c cmds ih =>
    have hc := h c List.mem_cons_self
    have hcmds := ih fun c' hc' => h c' (List.mem_cons_of_mem _ hc')
    rw [List.length_cons, List.flatten_cons, List.length_append]
    omega

namespace PendingEslCmd.Holds

/-- A group without commands. -/
theorem empty (p : PendingEslCmd) :
    ({ p with cmdLength := 0, cmdNum := 0 } : PendingEslCmd).Holds getCommandSize [] :=
  ⟨rfl, Nat.zero_le _, rfl, fun _ hc => nomatch hc⟩

/-- A command is copied behind the others. -/
theorem append (h : p.Holds getCommandSize cmds) {cmdBuf : ℕ → UInt8} {n : ℕ}
    (hmin : ∀ opcode eslId, cmdRspMinLength ≤ getCommandSize opcode eslId)
    (hn : n = getCommandSize (cmdBuf 0) (cmdBuf 1)) (hroom : p.cmdLength + n ≤ pendingCmdBufSize) :
    (⟨memcpy p.cmdBuf p.cmdLength (bytes cmdBuf n), u16 (p.cmdLength + n),
      u16 (p.cmdNum + 1)⟩ : PendingEslCmd).Holds getCommandSize (cmds ++ [bytes cmdBuf n]) := by
  have hsize : pendingCmdBufSize = 47 := rfl
  have hminLength : cmdRspMinLength = 2 := rfl
  have hcmds : cmds.length ≤ p.cmdLength := by
    have hflat := congrArg List.length h.content
    rw [length_bytes] at hflat
    rw [hflat]
    apply length_le_length_flatten
    intro c hc
    have hc' := hmin (c.getD 0 0) (c.getD 1 0)
    rw [h.size c hc]
    omega
  have hlen : u16 (p.cmdLength + n) = p.cmdLength + n := Nat.mod_eq_of_lt (by omega)
  have hn2 := hmin (cmdBuf 0) (cmdBuf 1)
  refine ⟨?_, ?_, ?_, ?_⟩
  · show u16 (p.cmdNum + 1) = (cmds ++ [bytes cmdBuf n]).length
    rw [h.cmdNum, List.length_append, List.length_singleton]
    exact Nat.mod_eq_of_lt (by omega)
  · show u16 (p.cmdLength + n) ≤ pendingCmdBufSize
    rwa [hlen]
  · show bytes (memcpy p.cmdBuf p.cmdLength (bytes cmdBuf n)) (u16 (p.cmdLength + n)) = _
    have hcopy := bytes_memcpy p.cmdBuf p.cmdLength (bytes cmdBuf n)
    rw [length_bytes] at hcopy
    rw [hlen, hcopy, h.content, List.flatten_append, List.flatten_singleton]
  · intro c hc
    rcases List.mem_append.mp hc with hc | hc
    · exact h.size c hc
    · rw [List.mem_singleton.mp hc, length_bytes, getD_bytes _ (by omega), getD_bytes _ (by omega)]
      exact hn

end PendingEslCmd.Holds

namespace EslAp.Ok

variable {s : EslAp}

/-- A command that fails. -/
theorem failed (h : s.Ok getCommandSize) {accessed : List ℕ}
    (haccessed : ∀ groupId ∈ accessed, groupId < eslpApMaxGroups) :
    (s.finish accessed .failed).Ok getCommandSize :=
  ⟨haccessed, h.holds⟩

/-- A command that changes the pending commands of a group and reports it. -/
theorem setPending (h : s.Ok getCommandSize) {groupId : ℕ} {report : PawrReport}
    (hgroup : groupId < eslpApMaxGroups) (hp : p.Holds getCommandSize cmds)
    (hreport : report.apply s.queued = Function.update s.queued groupId cmds) :
    ((s.setPending groupId p).finish [groupId] report).Ok getCommandSize := by
  refine ⟨fun g hg => ?_, fun g hg => ?_⟩
  · rw [List.mem_singleton.mp hg]
    exact hgroup
  · show PendingEslCmd.Holds _ (Function.update s.pendingEslCmds groupId p g)
      (report.apply s.queued g)
    rw [hreport]
    by_cases hgg : g = groupId
    · subst hgg
      rwa [Function.update_self, Function.update_self]
    · rw [Function.update_of_ne hgg, Function.update_of_ne hgg]
      exact h.holds g hg

end EslAp.Ok

variable {s : EslAp}

theorem broadcastOk_append_iff {argv : List CString} {stack cmdBuf : ℕ → UInt8}
    {address : EslAddress} (hparse : cmdParse argv stack = some (cmdBuf, address)) :
    BroadcastOk s (.append argv stack) ↔
      (address.eslId = eslIdBroadcast → address.groupId.toNat < eslpApMaxGroups) := by
  constructor
  · exact fun hok => hok cmdBuf address hparse
  · intro hok buf a heq
    rw [hparse] at heq
    cases heq
    exact hok

/-- `cmd_pawr_append_fun` keeps the pending commands in order exactly if a command for all labels
names a group of the array. -/
theorem cmdPawrAppend_ok (hsize : ∀ opcode eslId, cmdRspMinLength ≤ getCommandSize opcode eslId ∧
      getCommandSize opcode eslId ≤ cmdRspMaxLength)
    (hconf : ConfiguredOk s.table.devices) (h : s.Ok getCommandSize) (argv : List CString)
    (stack : ℕ → UInt8) :
    (cmdPawrAppend getCommandSize s argv stack).Ok getCommandSize ↔
      BroadcastOk s (.append argv stack) := by
  unfold cmdPawrAppend
  cases hparse : cmdParse argv stack with
  | none =>
    refine iff_of_true (h.failed fun _ hg => nomatch hg) fun buf a heq => ?_
    rw [hparse] at heq
    exact nomatch heq
  | some r =>
    obtain ⟨cmdBuf, address⟩ := r
    have hmin : cmdRspMinLength = 2 := rfl
    have hmax : cmdRspMaxLength = 17 := rfl
    obtain ⟨hlo, hhi⟩ := hsize (cmdBuf 0) (cmdBuf 1)
    have hu16 : u16 (getCommandSize (cmdBuf 0) (cmdBuf 1)) = getCommandSize (cmdBuf 0) (cmdBuf 1) :=
      Nat.mod_eq_of_lt (by omega)
    have hu8 : u8 (getCommandSize (cmdBuf 0) (cmdBuf 1)) ≠ 0 := by
      rw [u8_of_lt (by omega)]
      omega
    dsimp only
    rw [hu16, if_neg hu8, broadcastOk_append_iff hparse]
    by_cases hlookup : address.eslId ≠ eslIdBroadcast ∧
        s.table.devices.getEslInfoByEslAddress address = none
    · rw [if_pos hlookup]
      exact iff_of_true (h.failed fun _ hg => nomatch hg) fun ha => absurd ha hlookup.1
    rw [if_neg hlookup]
    by_cases hgroup : address.groupId.toNat < eslpApMaxGroups
    · refine iff_of_true ?_ fun _ => hgroup
      split
      case isTrue => exact h.failed fun g hg => by rwa [List.mem_singleton.mp hg]
      case isFalse hroom =>
        apply h.setPending hgroup ((h.holds _ hgroup).append (fun o e => (hsize o e).1) rfl ?_)
        · rfl
        · omega
    · -- the lookup finds no label in this group, so the command is for all labels
      refine iff_of_false (fun hok => hgroup (hok.accessed _ ?_)) fun hbc => hgroup ?_
      · split <;> exact List.mem_singleton_self _
      · exact hbc (hconf.eslId_eq hlookup hgroup)

theorem cmdPawrClear_ok (h : s.Ok getCommandSize) (argv : List CString) :
    (cmdPawrClear s argv).Ok getCommandSize := by
  unfold cmdPawrClear
  dsimp only
  split
  · exact h.failed fun _ hg => nomatch hg
  case isFalse hgroup => exact h.setPending (Nat.lt_of_not_le hgroup) (.empty _) rfl

theorem cmdPawrSend_ok (h : s.Ok getCommandSize) (argv : List CString) (success : Bool) :
    (cmdPawrSend s argv success).Ok getCommandSize := by
  unfold cmdPawrSend
  dsimp only
  split
  · exact h.failed fun _ hg => nomatch hg
  case isFalse hgroup =>
    have hgroup' := Nat.lt_of_not_le hgroup
    have haccess : ∀ g ∈ [parseGroupId argv], g < eslpApMaxGroups := by
      intro g hg
      rwa [List.mem_singleton.mp hg]
    split
    · exact h.failed haccess
    · split
      · exact h.setPending hgroup' (.empty _) rfl
      · exact h.failed haccess

/-- What each command reports is what it does. -/
theorem reportOk (s : EslAp) (e : PawrEvent) : ReportOk getCommandSize s e := by
  unfold ReportOk
  cases e with
  | append argv stack =>
    simp only [pawrStep, cmdPawrAppend]
    cases cmdParse argv stack with
    | none => rfl
    | some r =>
      dsimp only
      split_ifs
      · rfl
      · rfl
      · rfl
      · trivial
  | clear argv =>
    simp only [pawrStep, cmdPawrClear]
    split_ifs
    · rfl
    · trivial
  | send argv success =>
    simp only [pawrStep, cmdPawrSend]
    split_ifs
    · rfl
    · rfl
    · simp [EslAp.finish, EslAp.setPending]
    · rfl
  | device e => rfl

/-- A step keeps the pending commands in order exactly if it meets the condition. -/
theorem pawrStep_ok (hsize : ∀ opcode eslId, cmdRspMinLength ≤ getCommandSize opcode eslId ∧
      getCommandSize opcode eslId ≤ cmdRspMaxLength)
    (hconf : ConfiguredOk s.table.devices) (h : s.Ok getCommandSize) (e : PawrEvent) :
    (pawrStep getCommandSize s e).Ok getCommandSize ↔ BroadcastOk s e := by
  cases e with
  | append argv stack => exact cmdPawrAppend_ok hsize hconf h argv stack
  | clear argv => exact iff_of_true (cmdPawrClear_ok h argv) trivial
  | send argv success => exact iff_of_true (cmdPawrSend_ok h argv success) trivial
  | device e => exact iff_of_true ⟨fun _ hg => (nomatch hg), h.holds⟩ trivial

/-- The commands change no device. -/
theorem pawrStep_configuredOk (hconf : ConfiguredOk s.table.devices) (e : PawrEvent)
    (hadd : AddEslOk s e) : ConfiguredOk (pawrStep getCommandSize s e).table.devices := by
  cases e with
  | append argv stack =>
    have htable : (cmdPawrAppend getCommandSize s argv stack).table = s.table := by
      unfold cmdPawrAppend
      cases cmdParse argv stack with
      | none => rfl
      | some r =>
        dsimp only
        split_ifs <;> rfl
    exact htable ▸ hconf
  | clear argv =>
    have htable : (cmdPawrClear s argv).table = s.table := by
      simp only [cmdPawrClear]
      split_ifs <;> rfl
    exact htable ▸ hconf
  | send argv success =>
    have htable : (cmdPawrSend s argv success).table = s.table := by
      simp only [cmdPawrSend]
      split_ifs <;> rfl
    exact htable ▸ hconf
  | device e =>
    refine hconf.apStep e fun argv connHandle address he => ?_
    subst he
    exact hadd connHandle address

end Steps

/-- In every run, the pending commands are in order throughout exactly if each command for all
labels names a group of the array. What each command reports is what it does. -/
theorem pawr_commands (getCommandSize : UInt8 → UInt8 → ℕ)
    (hsize : ∀ opcode eslId, cmdRspMinLength ≤ getCommandSize opcode eslId ∧
      getCommandSize opcode eslId ≤ cmdRspMaxLength)
    (events : List PawrEvent)
    (hadd : Machine.Along (pawrStep getCommandSize) AddEslOk .powerOn events) :
    (Machine.Always (pawrStep getCommandSize) (EslAp.Ok getCommandSize) .powerOn events ↔
        Machine.Along (pawrStep getCommandSize) BroadcastOk .powerOn events) ∧
      Machine.Along (pawrStep getCommandSize) (ReportOk getCommandSize) .powerOn events := by
  refine ⟨Machine.always_iff_along (fun s e hconf hok _ => pawrStep_ok hsize hconf hok e)
    (fun s e hconf _ hside _ => pawrStep_configuredOk hconf e hside) hadd ?_ ?_,
    Machine.along_of_forall reportOk _ _⟩
  · exact fun i hi => absurd hi (by simp [EslAp.powerOn, ApTable.powerOn, ApEslInfo.zero])
  · exact ⟨(fun _ hg => by cases hg),
      fun _ _ => ⟨rfl, Nat.zero_le _, rfl, fun _ hc => by cases hc⟩⟩

/-- The size that the header of a command has. -/
def headerSize (opcode _eslId : UInt8) : ℕ := 2 + opcode.toNat / 16

/-- A command for all labels of group 1 and one for a configured label, that are sent. -/
theorem pawr_commands_example :
    let c : ApConn := ⟨64, ⟨⟨#[1, 2, 3, 4, 5, 6], rfl⟩, 0⟩⟩
    let events := [.append ["ping".toList, "1".toList, "255".toList] fun _ => 0,
      .device (.connectionComplete 0 c),
      .device (.addEsl ["64".toList, "1".toList] true),
      .append ["read_sensor".toList, "7".toList, "0".toList, "1".toList] fun _ => 0,
      .send ["0".toList] true]
    (Machine.Always (pawrStep headerSize) (EslAp.Ok headerSize) .powerOn events ↔
        Machine.Along (pawrStep headerSize) BroadcastOk .powerOn events) ∧
      Machine.Along (pawrStep headerSize) (ReportOk headerSize) .powerOn events := by
  apply pawr_commands
  · intro opcode eslId
    have hopcode : opcode.toNat < 256 := opcode.toNat_lt
    simp only [headerSize, cmdRspMinLength, cmdRspMaxLength]
    omega
  · refine ⟨trivial, trivial, fun connHandle address heq => ?_, trivial, trivial, trivial⟩
    cases heq
    decide

/-- A command for all labels of group 4 goes behind the end of the array. -/
theorem pawr_commands_counterexample :
    ¬ Machine.Always (pawrStep headerSize) (EslAp.Ok headerSize) .powerOn
      [.append ["ping".toList, "4".toList, "255".toList] fun _ => 0] := by
  intro h
  exact absurd (h.last.accessed 4 (by decide)) (by decide)

end TlBleSdk.Eslp
