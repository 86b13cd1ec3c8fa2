import TlBleSdk.Esl.Defs
import TlBleSdk.Lib.Run

/-!
# Vendor image commands

The vendor commands of `vendor_image/app_vendor_image.c`, which clear, patch and read the
texts on the label. The structures of the source are packed. A command is the opcode, the
ESL ID and the memory its parameters lie in; the upper half of the opcode says how many of
these bytes are its own.

A request is what a command asks for, with the two versions of a command as one request. The
handlers do what the request of their command says.
-/

namespace TlBleSdk.Esl

open Hci

/-- `APP_VENDOR_IMAGE_RSP_OPCODE`. -/
def appVendorImageRspOpcode : UInt8 := 0x00

/-- `APP_VENDOR_IMAGE_RSP_STATUS_SUCCESS`. -/
def appVendorStatusSuccess : UInt8 := 0

/-- `APP_VENDOR_IMAGE_RSP_STATUS_INVALID_PARAMETERS`. -/
def appVendorStatusInvalidParameters : UInt8 := 1

/-- `BLC_ESLS_CMD_RSP_MAX_LENGTH`. -/
def cmdRspMaxLength : ℕ := 17

/-- `OPCODE_OP`. -/
def opcodeOp (opcode : UInt8) : ℕ := opcode.toNat % 16

/-- `OPCODE_CAT`. -/
def opcodeCat (opcode : UInt8) : ℕ := opcode.toNat / 16

/-- `cat_data`: the categories with their `dataLength`. -/
def catData : List (ℕ × ℕ) :=
  [(0, 23), (10, 11), (2, 23), (3, 24), (4, 11), (5, 2), (7, 3), (8, 4), (9, 2), (1, 11)]

/-- The `dataLength` of a category in `cat_data`. -/
def catDataLength (cat : ℕ) : Option ℕ := (catData.find? fun d => d.1 = cat).map (·.2)

/-- The buffers of the categories. -/
abbrev VendorImage := ℕ → ℕ → UInt8

/-- `app_vendor_fill_response`: the bytes it puts to `rsp`, unless that is `NULL`. -/
def appVendorFillResponse (rsp : Bool) (reqOpcode status : UInt8) (params : List UInt8) :
    Option (List UInt8) :=
  if rsp then
    some (UInt8.ofNat (0x0F ||| ((3 + params.length - 1) <<< 4)) ::
      [appVendorImageRspOpcode, reqOpcode, status] ++ params)
  else none

/-- What a handler answers, and the buffers it leaves. -/
abbrev VendorResult := Option (List UInt8) × VendorImage

/-- `app_vendor_image_handle_clear`. -/
def handleClear (cmd : ℕ → UInt8) (_cmdLength : ℕ) (rsp : Bool) (s : VendorImage) :
    VendorResult :=
  let cat := opcodeCat (cmd 0)
  match catDataLength cat with
  | some n =>
    (appVendorFillResponse rsp (cmd 0) appVendorStatusSuccess [],
      Function.update s cat (memcpy (s cat) 0 (List.replicate n (cmd 1))))
  | none => (appVendorFillResponse rsp (cmd 0) appVendorStatusInvalidParameters [], s)

/-- `app_vendor_image_handle_get_length`. -/
def handleGetLength (cmd : ℕ → UInt8) (_cmdLength : ℕ) (rsp : Bool) (s : VendorImage) :
    VendorResult :=
  match catDataLength (opcodeCat (cmd 0)) with
  | some n => (appVendorFillResponse rsp (cmd 0) appVendorStatusSuccess (uint16ToBstream n), s)
  | none => (appVendorFillResponse rsp (cmd 0) appVendorStatusInvalidParameters [], s)

/-- The two patch handlers, for a header of `hdrLen` bytes and the offset in it. -/
def handlePatchAt (hdrLen offset : ℕ) (cmd : ℕ → UInt8) (cmdLength : ℕ) (rsp : Bool)
    (s : VendorImage) : VendorResult :=
  let cat := opcodeCat (cmd 0)
  match catDataLength cat with
  | some n =>
    let patchLength := u8 (cmdLength + 256 - hdrLen)
    if n < patchLength + offset then
      (appVendorFillResponse rsp (cmd 0) appVendorStatusInvalidParameters [], s)
    else
      (appVendorFillResponse rsp (cmd 0) appVendorStatusSuccess [],
        Function.update s cat (memcpy (s cat) offset (bytesAt cmd hdrLen patchLength)))
  | none => (appVendorFillResponse rsp (cmd 0) appVendorStatusInvalidParameters [], s)

/-- `app_vendor_image_handle_patch`. -/
def handlePatch (cmd : ℕ → UInt8) : ℕ → Bool → VendorImage → VendorResult :=
  handlePatchAt 2 (cmd 1).toNat cmd

/-- `app_vendor_image_handle_patch_v2`. -/
def handlePatchV2 (cmd : ℕ → UInt8) : ℕ → Bool → VendorImage → VendorResult :=
  handlePatchAt 3 (bytesToUint16 cmd 1) cmd

/-- The two handlers that read data, for the offset and the length in the command. -/
def handleGetDataAt (offset len : ℕ) (cmd : ℕ → UInt8) (_cmdLength : ℕ) (rsp : Bool)
    (s : VendorImage) : VendorResult :=
  let cat := opcodeCat (cmd 0)
  match catDataLength cat with
  | some n =>
    if n < offset + len ∨ 15 < len then
      (appVendorFillResponse rsp (cmd 0) appVendorStatusInvalidParameters [], s)
    else
      (appVendorFillResponse rsp (cmd 0) appVendorStatusSuccess (bytesAt (s cat) offset len), s)
  | none => (appVendorFillResponse rsp (cmd 0) appVendorStatusInvalidParameters [], s)

/-- `app_vendor_image_handle_get_data`. -/
def handleGetData (cmd : ℕ → UInt8) : ℕ → Bool → VendorImage → VendorResult :=
  handleGetDataAt (cmd 1).toNat (cmd 2).toNat cmd

/-- `app_vendor_image_handle_get_data_v2`. -/
def handleGetDataV2 (cmd : ℕ → UInt8) : ℕ → Bool → VendorImage → VendorResult :=
  handleGetDataAt (bytesToUint16 cmd 1) (cmd 3).toNat cmd

/-- `app_vendor_op_handlers_t`. -/
structure VendorOpHandler where
  opcode : ℕ
  handler : (ℕ → UInt8) → ℕ → Bool → VendorImage → VendorResult
  minCmdLength : ℕ
  maxCmdLength : ℕ

/-- `handlers`. -/
def vendorHandlers : List VendorOpHandler :=
  [⟨0, handleClear, 2, 2⟩, ⟨1, handlePatch, 2, 2 + 15⟩, ⟨2, handleGetLength, 1, 1⟩,
    ⟨3, handleGetData, 3, 3⟩, ⟨5, handleGetDataV2, 4, 4⟩, ⟨4, handlePatchV2, 3, 3 + 14⟩]

/-- `blc_eslss_controlPointCommandVendorSpecific_t`. -/
structure VendorCommand where
  opcode : ℕ
  eslId : ℕ
  parameters : ℕ → UInt8

/-- `commandLength`. -/
def VendorCommand.length (c : VendorCommand) : ℕ := c.opcode / 16 % 16

/-- The command is answered. -/
def VendorCommand.answered (c : VendorCommand) : Bool := c.eslId ≠ eslIdBroadcast

/-- `app_vendor_image_handle_vendor_cmd`: whether it took the command, its answer, and the
buffers. -/
def appVendorImageHandleVendorCmd (c : VendorCommand) (s : VendorImage) : Bool × VendorResult :=
  if c.length < 1 then (false, none, s)
  else
    let opcode := c.parameters 0
    match vendorHandlers.find? fun h => h.opcode = opcodeOp opcode with
    | some h =>
      if c.length < h.minCmdLength ∨ h.maxCmdLength < c.length then
        (true, appVendorFillResponse c.answered opcode appVendorStatusInvalidParameters [], s)
      else (true, h.handler c.parameters c.length c.answered s)
    | none =>
      (true, appVendorFillResponse c.answered opcode appVendorStatusInvalidParameters [], s)

/-! ## Requests -/

/-- What a vendor command asks for. -/
inductive VendorRequest where
  | clear (cat : ℕ) (pattern : UInt8)
  | patch (cat offset : ℕ) (data : List UInt8)
  | getLength (cat : ℕ)
  | getData (cat offset len : ℕ)

/-- The request of a command, if its length is one its operation may have. -/
def VendorCommand.request (c : VendorCommand) : Option VendorRequest :=
  let p := c.parameters
  let cat := opcodeCat (p 0)
  match opcodeOp (p 0) with
  | 0 => if c.length = 2 then some (.clear cat (p 1)) else none
  | 1 =>
    if 2 ≤ c.length then some (.patch cat (p 1).toNat (bytesAt p 2 (c.length - 2))) else none
  | 2 => if c.length = 1 then some (.getLength cat) else none
  | 3 => if c.length = 3 then some (.getData cat (p 1).toNat (p 2).toNat) else none
  | 4 =>
    if 3 ≤ c.length then some (.patch cat (bytesToUint16 p 1) (bytesAt p 3 (c.length - 3)))
    else none
  | 5 => if c.length = 4 then some (.getData cat (bytesToUint16 p 1) (p 3).toNat) else none
  | _ => none

namespace VendorRequest

/-- The category of a request. -/
def cat : VendorRequest → ℕ
  | .clear cat _ => cat
  | .patch cat _ _ => cat
  | .getLength cat => cat
  | .getData cat _ _ => cat

/-- The request may be made of a category of `n` bytes. -/
def Allowed (n : ℕ) : VendorRequest → Prop
  | .clear _ _ => True
  | .patch _ offset data => data.length + offset ≤ n
  | .getLength _ => True
  | .getData _ offset len => offset + len ≤ n ∧ len ≤ 15

instance (n : ℕ) : ∀ r, Decidable (Allowed n r)
  | .clear _ _ => inferInstanceAs (Decidable True)
  | .patch _ offset data => inferInstanceAs (Decidable (data.length + offset ≤ n))
  | .getLength _ => inferInstanceAs (Decidable True)
  | .getData _ offset len => inferInstanceAs (Decidable (offset + len ≤ n ∧ len ≤ 15))

/-- What a request writes to a category of `n` bytes: an offset and the bytes. -/
def write (n : ℕ) : VendorRequest → Option (ℕ × List UInt8)
  | .clear _ pattern => some (0, List.replicate n pattern)
  | .patch _ offset data => some (offset, data)
  | .getLength _ => none
  | .getData _ _ _ => none

/-- What a request reads from a category of `n` bytes. -/
def answer (n : ℕ) (data : ℕ → UInt8) : VendorRequest → List UInt8
  | .clear _ _ => []
  | .patch _ _ _ => []
  | .getLength _ => uint16ToBstream n
  | .getData _ offset len => bytesAt data offset len

/-- The buffers behind a request to a category of `n` bytes. -/
def store (r : VendorRequest) (n : ℕ) (s : VendorImage) : VendorImage :=
  match r.write n with
  | some (offset, data) => Function.update s r.cat (memcpy (s r.cat) offset data)
  | none => s

/-- The buffers behind a request. -/
def apply (r : VendorRequest) (s : VendorImage) : VendorImage :=
  match catDataLength r.cat with
  | some n => if r.Allowed n then r.store n s else s
  | none => s

/-- The status and the parameters that answer a request. -/
def reply (r : VendorRequest) (s : VendorImage) : UInt8 × List UInt8 :=
  match catDataLength r.cat with
  | some n =>
    if r.Allowed n then (appVendorStatusSuccess, r.answer n (s r.cat))
    else (appVendorStatusInvalidParameters, [])
  | none => (appVendorStatusInvalidParameters, [])

/-- The answer to a request with its effect. -/
def perform (r : VendorRequest) (rsp : Bool) (reqOpcode : UInt8) (s : VendorImage) :
    VendorResult :=
  (appVendorFillResponse rsp reqOpcode (r.reply s).1 (r.reply s).2, r.apply s)

end VendorRequest

section handlers

variable (cmd : ℕ → UInt8) (rsp : Bool) (s : VendorImage)

theorem handleClear_eq (cmdLength : ℕ) : handleClear cmd cmdLength rsp s =
    (VendorRequest.clear (opcodeCat (cmd 0)) (cmd 1)).perform rsp (cmd 0) s := by
  unfold handleClear VendorRequest.perform VendorRequest.reply VendorRequest.apply
  simp only [VendorRequest.cat]
  cases catDataLength (opcodeCat (cmd 0)) with
  | none => rfl
  | some n => rfl

theorem handleGetLength_eq (cmdLength : ℕ) : handleGetLength cmd cmdLength rsp s =
    (VendorRequest.getLength (opcodeCat (cmd 0))).perform rsp (cmd 0) s := by
  unfold handleGetLength VendorRequest.perform VendorRequest.reply VendorRequest.apply
  simp only [VendorRequest.cat]
  cases catDataLength (opcodeCat (cmd 0)) with
  | none => rfl
  | some n => rfl

/-- The patch handlers compute the length of the data in 8 bits. -/
theorem handlePatchAt_eq {hdrLen n : ℕ} (hhdr : hdrLen ≤ n) (hn : n < 256) (offset : ℕ) :
    handlePatchAt hdrLen offset cmd n rsp s =
      (VendorRequest.patch (opcodeCat (cmd 0)) offset (bytesAt cmd hdrLen (n - hdrLen))).perform
        rsp (cmd 0) s := by
  have hlen : u8 (n + 256 - hdrLen) = n - hdrLen := by
    unfold u8
    omega
  unfold handlePatchAt VendorRequest.perform VendorRequest.reply VendorRequest.apply
  simp only [VendorRequest.cat, hlen]
  cases catDataLength (opcodeCat (cmd 0)) with
  | none => rfl
  | some k =>
    simp only [VendorRequest.Allowed, length_bytesAt]
    by_cases hk : n - hdrLen + offset ≤ k
    · simp only [if_neg (Nat.not_lt.mpr hk), if_pos hk]
      rfl
    · simp only [if_pos (Nat.lt_of_not_le hk), if_neg hk]

theorem handleGetDataAt_eq (offset len cmdLength : ℕ) :
    handleGetDataAt offset len cmd cmdLength rsp s =
      (VendorRequest.getData (opcodeCat (cmd 0)) offset len).perform rsp (cmd 0) s := by
  unfold handleGetDataAt VendorRequest.perform VendorRequest.reply VendorRequest.apply
  simp only [VendorRequest.cat]
  cases catDataLength (opcodeCat (cmd 0)) with
  | none => rfl
  | some k =>
    by_cases hk : (VendorRequest.getData (opcodeCat (cmd 0)) offset len).Allowed k
    · have hin : ¬ (k < offset + len ∨ 15 < len) := by
        unfold VendorRequest.Allowed at hk
        omega
      simp only [if_pos hk, if_neg hin]
      rfl
    · have hout : k < offset + len ∨ 15 < len := by
        unfold VendorRequest.Allowed at hk
        omega
      simp only [if_pos hout, if_neg hk]

end handlers

theorem VendorCommand.length_lt (c : VendorCommand) : c.length < 16 := Nat.mod_lt _ (by decide)

/-- The handler for an operation. -/
theorem find_vendorHandlers (op : ℕ) : (vendorHandlers.find? fun h => h.opcode = op) =
    match op with
    | 0 => some ⟨0, handleClear, 2, 2⟩
    | 1 => some ⟨1, handlePatch, 2, 2 + 15⟩
    | 2 => some ⟨2, handleGetLength, 1, 1⟩
    | 3 => some ⟨3, handleGetData, 3, 3⟩
    | 4 => some ⟨4, handlePatchV2, 3, 3 + 14⟩
    | 5 => some ⟨5, handleGetDataV2, 4, 4⟩
    | _ => none := by
  match op with
  | 0 => rfl
  | 1 => rfl
  | 2 => rfl
  | 3 => rfl
  | 4 => rfl
  | 5 => rfl
  | n + 6 => simp [vendorHandlers, List.find?]

/-- The check of the length of a command. -/
theorem dispatch_eq {n lo hi : ℕ} {ok : Prop} [Decidable ok] (hok : ok ↔ lo ≤ n ∧ n ≤ hi)
    {answer invalid : VendorResult} {r : VendorRequest} {f : VendorRequest → VendorResult}
    (h : ok → answer = f r) :
    (if n < lo ∨ hi < n then (true, invalid) else (true, answer)) =
      (true, match if ok then some r else none with | some r => f r | none => invalid) := by
  by_cases hn : ok
  · rw [if_neg (by have := hok.mp hn; omega), if_pos hn, h hn]
  · rw [if_pos (by have := mt hok.mpr hn; omega), if_neg hn]

/-- A command with parameters is answered as its request. -/
theorem appVendorImageHandleVendorCmd_eq (c : VendorCommand) (s : VendorImage)
    (hlen : 1 ≤ c.length) : appVendorImageHandleVendorCmd c s =
      (true, match c.request with
        | some r => r.perform c.answered (c.parameters 0) s
        | none => (appVendorFillResponse c.answered (c.parameters 0)
            appVendorStatusInvalidParameters [], s)) := by
  have hlt := c.length_lt
  unfold appVendorImageHandleVendorCmd VendorCommand.request
  rw [if_neg (by omega)]
  simp only [find_vendorHandlers]
  match opcodeOp (c.parameters 0) with
  | 0 => exact dispatch_eq (by dsimp only; omega) fun _ => handleClear_eq _ _ _ c.length
  | 1 => exact dispatch_eq (by dsimp only; omega) fun h => handlePatchAt_eq _ _ _ h (by omega) _
  | 2 => exact dispatch_eq (by dsimp only; omega) fun _ => handleGetLength_eq _ _ _ c.length
  | 3 => exact dispatch_eq (by dsimp only; omega) fun _ => handleGetDataAt_eq _ _ _ _ _ c.length
  | 4 => exact dispatch_eq (by dsimp only; omega) fun h => handlePatchAt_eq _ _ _ h (by omega) _
  | 5 => exact dispatch_eq (by dsimp only; omega) fun _ => handleGetDataAt_eq _ _ _ _ _ c.length
  | n + 6 => rfl

/-! ## The history of the buffers -/

/-- A write to a category: where and what. -/
structure VendorWrite where
  cat : ℕ
  offset : ℕ
  data : List UInt8

/-- The write of a request that is allowed. -/
def VendorRequest.written (r : VendorRequest) : Option VendorWrite :=
  (catDataLength r.cat).bind fun n =>
    if r.Allowed n then (r.write n).map fun w => ⟨r.cat, w.1, w.2⟩ else none

/-- The write of a command. -/
def VendorCommand.written (c : VendorCommand) : Option VendorWrite :=
  if 1 ≤ c.length then c.request.bind VendorRequest.written else none

/-- The byte that was written last at a place, or what was there at first. The newest write
is the first of the list. -/
def lastWritten (s : VendorImage) (cat i : ℕ) : List VendorWrite → UInt8
  | [] => s cat i
  | w :: ws =>
    if cat = w.cat ∧ w.offset ≤ i ∧ i < w.offset + w.data.length then w.data.getD (i - w.offset) 0
    else lastWritten s cat i ws

/-- The buffers, and the history of their writes. -/
structure VendorRun where
  data : VendorImage
  writes : List VendorWrite

/-- A command. -/
def VendorRun.step (v : VendorRun) (c : VendorCommand) : VendorRun :=
  ⟨(appVendorImageHandleVendorCmd c v.data).2.2, c.written.toList ++ v.writes⟩

/-- The buffers have what was written last. -/
def VendorRun.Recorded (s : VendorImage) (v : VendorRun) : Prop :=
  ∀ cat i, v.data cat i = lastWritten s cat i v.writes

/-- What a request leaves at a place. -/
theorem VendorRequest.apply_eq (r : VendorRequest) (s : VendorImage) (cat i : ℕ) :
    r.apply s cat i = match r.written with
      | some w =>
        if cat = w.cat ∧ w.offset ≤ i ∧ i < w.offset + w.data.length then
          w.data.getD (i - w.offset) 0
        else s cat i
      | none => s cat i := by
  unfold apply written
  cases catDataLength r.cat with
  | none => rfl
  | some n =>
    simp only [Option.bind_some]
    split
    case isFalse => rfl
    case isTrue =>
      unfold store
      cases r.write n with
      | none => rfl
      | some w =>
        simp only [Option.map_some]
        -- The buffers of the other categories stay.
        by_cases hcat : cat = r.cat
        · subst hcat
          simp only [Function.update_self, true_and]
          rfl
        · simp only [Function.update_of_ne hcat, hcat, false_and, if_false]

/-- The buffers behind a command are those behind its request. -/
theorem VendorRun.data_step (v : VendorRun) (c : VendorCommand) : (v.step c).data =
    if 1 ≤ c.length then (c.request.map fun r => r.apply v.data).getD v.data else v.data := by
  unfold step
  split
  case isTrue h =>
    rw [appVendorImageHandleVendorCmd_eq c v.data h]
    cases c.request with
    | none => rfl
    | some r => rfl
  case isFalse h =>
    unfold appVendorImageHandleVendorCmd
    rw [if_pos (by omega)]

theorem VendorRun.recorded_step {s : VendorImage} (v : VendorRun) (c : VendorCommand)
    (h : v.Recorded s) (_ : True) : (v.step c).Recorded s := by
  intro cat i
  rw [data_step]
  unfold step VendorCommand.written
  split
  case isTrue =>
    cases c.request with
    | none => exact h cat i
    | some r =>
      simp only [Option.map_some, Option.getD_some, Option.bind_some, r.apply_eq]
      cases r.written with
      | none => exact h cat i
      | some w =>
        simp only [Option.toList_some, List.singleton_append, lastWritten, h cat i]
  case isFalse => exact h cat i

/-! ## What a command may do -/

/-- The answer to a command. -/
def VendorRun.rsp (v : VendorRun) (c : VendorCommand) : Option (List UInt8) :=
  (appVendorImageHandleVendorCmd c v.data).2.1

/-- The opcode of a response says how long it is, and it fits the buffer of the caller. -/
def RspWellFormed (rsp : List UInt8) : Prop :=
  (mem rsp 0).toNat / 16 + 2 = rsp.length ∧ rsp.length ≤ cmdRspMaxLength

/-- What is wanted of a command, when the buffers were `s` at first. -/
structure VendorStepOk (s : VendorImage) (v : VendorRun) (c : VendorCommand) : Prop where
  /-- No more parameters matter than the command has. -/
  reads : ∀ q, (∀ i < c.length, q i = c.parameters i) →
    appVendorImageHandleVendorCmd { c with parameters := q } v.data =
      appVendorImageHandleVendorCmd c v.data
  /-- A byte that changes lies in the data of the category of the command. -/
  frame : ∀ cat i, (v.step c).data cat i ≠ v.data cat i →
    cat = opcodeCat (c.parameters 0) ∧ ∃ n, catDataLength cat = some n ∧ i < n
  /-- A command to all labels does what one to this label does. -/
  broadcast : ∀ eslId, (v.step { c with eslId }).data = (v.step c).data
  /-- What is answered with an error changes nothing. -/
  invalid : ∀ rsp, v.rsp c = some rsp → mem rsp 3 = appVendorStatusInvalidParameters →
    (v.step c).data = v.data
  /-- What is read was written last. -/
  getData : ∀ cat offset len, c.request = some (.getData cat offset len) →
    ∀ rsp, v.rsp c = some rsp → mem rsp 3 = appVendorStatusSuccess →
      rsp.drop 4 = (List.range len).map fun i => lastWritten s cat (offset + i) v.writes
  response : ∀ rsp, v.rsp c = some rsp → RspWellFormed rsp

/-- A command to this label that reads 14 or 15 bytes that are there. -/
def VendorCommand.LongGet (c : VendorCommand) : Prop :=
  c.answered ∧ ∃ cat offset len n, c.request = some (.getData cat offset len) ∧
    catDataLength cat = some n ∧ offset + len ≤ n ∧ (len = 14 ∨ len = 15)

section

variable {s : VendorImage} {v : VendorRun} {c : VendorCommand}

/-- The request lies in the parameters that the command has. -/
theorem VendorCommand.request_congr (h1 : 1 ≤ c.length) {q : ℕ → UInt8}
    (hq : ∀ i < c.length, q i = c.parameters i) :
    VendorCommand.request { c with parameters := q } = c.request := by
  have hlen : VendorCommand.length { c with parameters := q } = c.length := rfl
  unfold VendorCommand.request
  simp only [hlen, hq 0 (by omega)]
  match opcodeOp (c.parameters 0) with
  | 0 =>
    by_cases h : c.length = 2
    · simp only [if_pos h, hq 1 (by omega)]
    · simp only [if_neg h]
  | 1 =>
    by_cases h : 2 ≤ c.length
    · have hdata : bytesAt q 2 (c.length - 2) = bytesAt c.parameters 2 (c.length - 2) :=
        bytesAt_congr fun i hi => hq _ (by omega)
      simp only [if_pos h, hq 1 (by omega), hdata]
    · simp only [if_neg h]
  | 2 => rfl
  | 3 =>
    by_cases h : c.length = 3
    · simp only [if_pos h, hq 1 (by omega), hq 2 (by omega)]
    · simp only [if_neg h]
  | 4 =>
    by_cases h : 3 ≤ c.length
    · have hdata : bytesAt q 3 (c.length - 3) = bytesAt c.parameters 3 (c.length - 3) :=
        bytesAt_congr fun i hi => hq _ (by omega)
      have hoffset : bytesToUint16 q 1 = bytesToUint16 c.parameters 1 :=
        bytesToUint16_congr (hq 1 (by omega)) (hq 2 (by omega))
      simp only [if_pos h, hoffset, hdata]
    · simp only [if_neg h]
  | 5 =>
    by_cases h : c.length = 4
    · have hoffset : bytesToUint16 q 1 = bytesToUint16 c.parameters 1 :=
        bytesToUint16_congr (hq 1 (by omega)) (hq 2 (by omega))
      simp only [if_pos h, hoffset, hq 3 (by omega)]
    · simp only [if_neg h]
  | n + 6 => rfl

theorem VendorRun.reads {q : ℕ → UInt8} (hq : ∀ i < c.length, q i = c.parameters i) :
    appVendorImageHandleVendorCmd { c with parameters := q } v.data =
      appVendorImageHandleVendorCmd c v.data := by
  by_cases h1 : 1 ≤ c.length
  · rw [appVendorImageHandleVendorCmd_eq { c with parameters := q } v.data h1,
      appVendorImageHandleVendorCmd_eq c v.data h1, VendorCommand.request_congr h1 hq]
    simp only [hq 0 h1]
    rfl
  · have hlen : c.length < 1 := Nat.lt_of_not_le h1
    have hlen' : VendorCommand.length { c with parameters := q } < 1 := hlen
    unfold appVendorImageHandleVendorCmd
    rw [if_pos hlen, if_pos hlen']

/-- The category of the request is that of the opcode. -/
theorem VendorCommand.cat_request {r : VendorRequest} (h : c.request = some r) :
    r.cat = opcodeCat (c.parameters 0) := by
  unfold VendorCommand.request at h
  dsimp only at h
  split at h <;> first
    | (split at h <;> cases h <;> rfl)
    | cases h

/-- Behind a command the buffers are those behind its request. -/
theorem VendorRun.data_step_cases (v : VendorRun) (c : VendorCommand) :
    (v.step c).data = v.data ∨ ∃ r, c.request = some r ∧ (v.step c).data = r.apply v.data := by
  rw [data_step]
  split
  case isTrue =>
    cases c.request with
    | none => exact .inl rfl
    | some r => exact .inr ⟨r, rfl, rfl⟩
  case isFalse => exact .inl rfl

/-- A request writes within the data of its category. -/
theorem VendorRequest.written_bound {r : VendorRequest} {w : VendorWrite}
    (h : r.written = some w) :
    w.cat = r.cat ∧ ∃ n, catDataLength r.cat = some n ∧ w.offset + w.data.length ≤ n := by
  unfold VendorRequest.written at h
  obtain ⟨n, hn, h⟩ := Option.bind_eq_some_iff.mp h
  split at h
  case isTrue hallowed =>
    obtain ⟨ow, hw, rfl⟩ := Option.map_eq_some_iff.mp h
    refine ⟨rfl, n, hn, ?_⟩
    cases r with
    | clear cat pattern =>
      cases hw
      simp
    | patch cat offset data =>
      cases hw
      unfold VendorRequest.Allowed at hallowed
      dsimp only
      omega
    | getLength cat => cases hw
    | getData cat offset len => cases hw
  case isFalse => cases h

theorem VendorRun.frame {cat i : ℕ} (h : (v.step c).data cat i ≠ v.data cat i) :
    cat = opcodeCat (c.parameters 0) ∧ ∃ n, catDataLength cat = some n ∧ i < n := by
  rcases v.data_step_cases c with hdata | ⟨r, hr, hdata⟩
  · exact absurd (by rw [hdata]) h
  · rw [hdata, r.apply_eq] at h
    cases hw : r.written with
    | none => exact absurd (by rw [hw]) h
    | some w =>
      obtain ⟨hcat, n, hn, hle⟩ := VendorRequest.written_bound hw
      rw [hw] at h
      dsimp only at h
      split at h
      case isTrue hin =>
        rw [← VendorCommand.cat_request hr, ← hcat]
        refine ⟨hin.1, n, ?_, by omega⟩
        rw [hin.1, hcat, hn]
      case isFalse => exact absurd rfl h

theorem VendorRun.broadcast (v : VendorRun) (c : VendorCommand) (eslId : ℕ) :
    (v.step { c with eslId }).data = (v.step c).data := by
  rw [data_step, data_step]
  rfl

/-- The answer to a command that takes part. -/
theorem VendorRun.rsp_cases {rsp : List UInt8} (h : v.rsp c = some rsp) : c.answered ∧
    ((c.request = none ∧ some rsp = appVendorFillResponse true (c.parameters 0)
        appVendorStatusInvalidParameters []) ∨
      ∃ r, c.request = some r ∧
        some rsp = appVendorFillResponse true (c.parameters 0) (r.reply v.data).1
          (r.reply v.data).2 ∧ (v.step c).data = r.apply v.data) := by
  unfold VendorRun.rsp at h
  by_cases h1 : 1 ≤ c.length
  · rw [appVendorImageHandleVendorCmd_eq c v.data h1] at h
    have hans : c.answered := by
      by_contra hans
      rw [Bool.not_eq_true] at hans
      rw [hans] at h
      split at h <;> cases h
    rw [hans] at h
    refine ⟨hans, ?_⟩
    cases hr : c.request with
    | none =>
      rw [hr] at h
      exact .inl ⟨rfl, h.symm⟩
    | some r =>
      rw [hr] at h
      refine .inr ⟨r, rfl, h.symm, ?_⟩
      rw [data_step, if_pos h1, hr]
      rfl
  · unfold appVendorImageHandleVendorCmd at h
    rw [if_pos (Nat.lt_of_not_le h1)] at h
    cases h

/-- The two outcomes of a request. -/
theorem VendorRequest.reply_cases (r : VendorRequest) (s : VendorImage) :
    (∃ n, catDataLength r.cat = some n ∧ r.Allowed n ∧
      r.reply s = (appVendorStatusSuccess, r.answer n (s r.cat))) ∨
    (r.reply s = (appVendorStatusInvalidParameters, []) ∧ r.apply s = s) := by
  unfold reply apply
  cases hn : catDataLength r.cat with
  | none => exact .inr ⟨rfl, rfl⟩
  | some n =>
    by_cases h : r.Allowed n
    · exact .inl ⟨n, rfl, h, if_pos h⟩
    · exact .inr ⟨if_neg h, if_neg h⟩

theorem mem_three_of_fillResponse {reqOpcode status : UInt8} {params rsp : List UInt8}
    (h : some rsp = appVendorFillResponse true reqOpcode status params) : mem rsp 3 = status := by
  cases h
  rfl

theorem VendorRun.invalid {rsp : List UInt8} (h : v.rsp c = some rsp)
    (hstatus : mem rsp 3 = appVendorStatusInvalidParameters) : (v.step c).data = v.data := by
  obtain ⟨-, ⟨hreq, -⟩ | ⟨r, -, hrsp, hdata⟩⟩ := VendorRun.rsp_cases h
  · rcases v.data_step_cases c with hdata | ⟨r, hr, -⟩
    · exact hdata
    · rw [hreq] at hr
      cases hr
  · rcases r.reply_cases v.data with ⟨n, -, -, hreply⟩ | ⟨-, happly⟩
    · rw [mem_three_of_fillResponse hrsp, hreply] at hstatus
      exact absurd hstatus (show appVendorStatusSuccess ≠ _ by decide)
    · rw [hdata, happly]

theorem VendorRun.getData {s : VendorImage} (hrec : v.Recorded s) {cat offset len : ℕ}
    (hreq : c.request = some (.getData cat offset len)) {rsp : List UInt8}
    (h : v.rsp c = some rsp) (hstatus : mem rsp 3 = appVendorStatusSuccess) :
    rsp.drop 4 = (List.range len).map fun i => lastWritten s cat (offset + i) v.writes := by
  obtain ⟨-, ⟨hnone, -⟩ | ⟨r, hr, hrsp, -⟩⟩ := VendorRun.rsp_cases h
  · rw [hreq] at hnone
    cases hnone
  · rw [hreq] at hr
    cases hr
    rcases (VendorRequest.getData cat offset len).reply_cases v.data with
      ⟨n, -, -, hreply⟩ | ⟨hreply, -⟩
    · rw [hreply] at hrsp
      cases hrsp
      exact List.map_congr_left fun i _ => hrec cat (offset + i)
    · rw [mem_three_of_fillResponse hrsp, hreply] at hstatus
      exact absurd hstatus (by decide)

/-- A response is well formed with up to 13 bytes of parameters. -/
theorem rspWellFormed_iff (reqOpcode status : UInt8) {params : List UInt8}
    (hparams : params.length ≤ 15) {rsp : List UInt8}
    (h : some rsp = appVendorFillResponse true reqOpcode status params) :
    RspWellFormed rsp ↔ params.length ≤ 13 := by
  have hnibble : ∀ n < 16, (UInt8.ofNat (0x0F ||| ((3 + n - 1) <<< 4))).toNat / 16 =
      if n ≤ 13 then n + 2 else n - 14 := by decide
  have h0 : (mem rsp 0).toNat / 16 =
      if params.length ≤ 13 then params.length + 2 else params.length - 14 := by
    rw [← hnibble _ (by omega)]
    cases h
    rfl
  have hlen : rsp.length = params.length + 4 := by
    cases h
    simp
  unfold RspWellFormed cmdRspMaxLength
  rw [h0, hlen]
  split <;> omega

/-- A request is that of a command with parameters. -/
theorem rspWellFormed_of_short {reqOpcode status : UInt8} {params rsp : List UInt8}
    (h : some rsp = appVendorFillResponse true reqOpcode status params)
    (hparams : params.length ≤ 13) : RspWellFormed rsp :=
  (rspWellFormed_iff _ _ (Nat.le_trans hparams (by decide)) h).mpr hparams

theorem VendorCommand.length_of_request {r : VendorRequest} (h : c.request = some r) :
    1 ≤ c.length := by
  by_contra hlen
  have hzero : c.length = 0 := by omega
  unfold VendorCommand.request at h
  rw [hzero] at h
  dsimp only at h
  split at h <;> cases h

/-- The response to a long read is the one that is not well formed. -/
theorem VendorRun.response_iff (v : VendorRun) (c : VendorCommand) :
    (∀ rsp, v.rsp c = some rsp → RspWellFormed rsp) ↔ ¬ c.LongGet := by
  constructor
  · rintro h ⟨hans, cat, offset, len, n, hreq, hn, hle, hlen⟩
    have hallowed : (VendorRequest.getData cat offset len).Allowed n := ⟨hle, by omega⟩
    have hreply : (VendorRequest.getData cat offset len).reply v.data =
        (appVendorStatusSuccess, bytesAt (v.data cat) offset len) := by
      unfold VendorRequest.reply
      simp only [VendorRequest.cat, hn, if_pos hallowed]
      rfl
    have hrsp : v.rsp c = appVendorFillResponse true (c.parameters 0) appVendorStatusSuccess
        (bytesAt (v.data cat) offset len) := by
      unfold VendorRun.rsp
      rw [appVendorImageHandleVendorCmd_eq c v.data (VendorCommand.length_of_request hreq), hreq,
        hans]
      simp only [VendorRequest.perform, hreply]
    have hlen' := length_bytesAt (v.data cat) offset len
    have := (rspWellFormed_iff _ _ (by omega) rfl).mp (h _ hrsp)
    omega
  · intro hlong rsp hrsp
    obtain ⟨hans, ⟨-, hfill⟩ | ⟨r, hr, hfill, -⟩⟩ := VendorRun.rsp_cases hrsp
    · exact rspWellFormed_of_short hfill (Nat.zero_le _)
    · rcases r.reply_cases v.data with ⟨n, hn, hallowed, hreply⟩ | ⟨hreply, -⟩
      · rw [hreply] at hfill
        cases r with
        | clear cat pattern => exact rspWellFormed_of_short hfill (Nat.zero_le _)
        | patch cat offset data => exact rspWellFormed_of_short hfill (Nat.zero_le _)
        | getLength cat =>
          have htwo : (uint16ToBstream n).length = 2 := rfl
          exact rspWellFormed_of_short hfill (Nat.le_trans (Nat.le_of_eq htwo) (by decide))
        | getData cat offset len =>
          -- The source lets 15 bytes through, two more than its length nibble holds.
          obtain ⟨hle, h15⟩ := hallowed
          have hlen : (bytesAt (v.data cat) offset len).length = len := length_bytesAt _ _ _
          have h13 : len ≤ 13 := by
            by_contra h13
            exact hlong ⟨hans, cat, offset, len, n, hr, hn, hle, by omega⟩
          exact rspWellFormed_of_short hfill (Nat.le_trans (Nat.le_of_eq hlen) h13)
      · rw [hreply] at hfill
        exact rspWellFormed_of_short hfill (Nat.zero_le _)

theorem vendorStepOk_iff {s : VendorImage} (hrec : v.Recorded s) :
    VendorStepOk s v c ↔ ¬ c.LongGet :=
  ⟨fun h => (v.response_iff c).mp h.response, fun h =>
    ⟨fun _ => VendorRun.reads, fun _ _ => VendorRun.frame, v.broadcast c,
      fun _ => VendorRun.invalid, fun _ _ _ hreq _ => VendorRun.getData hrec hreq,
      (v.response_iff c).mpr h⟩⟩

end

/-- Every command of a run is handled as wanted exactly if none of those for this label reads
14 or 15 bytes. -/
theorem vendorImage_run_iff (s : VendorImage) (cmds : List VendorCommand) :
    Machine.Along VendorRun.step (VendorStepOk s) ⟨s, []⟩ cmds ↔ ∀ c ∈ cmds, ¬ c.LongGet := by
  have hstart : VendorRun.Recorded s ⟨s, []⟩ := fun _ _ => rfl
  have hstep : ∀ {Ok : VendorRun → VendorCommand → Prop} (v : VendorRun) (c : VendorCommand),
      v.Recorded s → Ok v c → (v.step c).Recorded s :=
    fun v c hv _ => v.recorded_step c hv trivial
  have hiff : ∀ (v : VendorRun) (c : VendorCommand), v.Recorded s →
      (VendorStepOk s v c ↔ ¬ c.LongGet) := fun v c hv => vendorStepOk_iff hv
  constructor
  · intro h
    exact Machine.along_iff_forall_mem.mp (Machine.along_of_invariant hstep
      (fun v c hv hok => (hiff v c hv).mp hok) hstart h)
  · intro h
    exact Machine.along_of_invariant hstep (fun v c hv hok => (hiff v c hv).mpr hok) hstart
      (Machine.along_of_forall_mem _ h)

/-- `GET_DATA` for 14 bytes of the product name. -/
def getFourteen : VendorCommand := ⟨0x3F, 1, mem [0x03, 0, 14]⟩

/-- Its response has 18 bytes, and an opcode that says it has none behind the ESL ID. -/
theorem not_vendorStepOk_getFourteen :
    ¬ ∀ (s : VendorImage) (cmds : List VendorCommand),
      Machine.Along VendorRun.step (VendorStepOk s) ⟨s, []⟩ cmds := by
  intro h
  have hok := (h (fun _ _ => 0) [getFourteen]).1
  have hlong : getFourteen.LongGet :=
    ⟨rfl, 0, 0, 14, 23, rfl, rfl, by decide, .inl rfl⟩
  exact (VendorRun.response_iff _ getFourteen).mp hok.response hlong

end TlBleSdk.Esl
