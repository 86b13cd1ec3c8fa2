import TlBleSdk.Eslp.ApEncode
import TlBleSdk.Esl.Defs

/-!
# From the shell to the label

What `cmd_parse` of the access point encodes is what `app_esl_handleControlPointCmds` of the label
decodes. The packed structures of `esls.h` are shared: each command is a header of an opcode and
the identifier of the label, and fields whose places the opcode gives.

The words of a line ask for a command. In every run of the access point a line is taken exactly
if it asks for a command, the label is known and the commands of its group leave room for it, and
the label that gets the pending commands of a group does what was asked for since the group was
last cleared or sent, in that order.
-/

namespace TlBleSdk.Eslp

open Hci ApDevices
open Esl (EslCommand EslCommandBody EslLedParams EslEnv EslApp EslRspState)

/-! ## What the label reads -/

/-- The fields that `blc_eslss_controlPointCommandLedControl_t` and the timed one share. -/
def readLedParams (p : ℕ → UInt8) : EslLedParams where
  colorRed := (p 3).toNat % 4
  colorGreen := (p 3).toNat / 4 % 4
  colorBlue := (p 3).toNat / 16 % 4
  brightness := (p 3).toNat / 64
  flashingPattern i := (p (4 + i)).toNat
  repeatType := bytesToUint16 p 11 % 2
  repeatDuration := bytesToUint16 p 11 / 2

/-- The cases of the switch: the structure that each one takes `command` for. -/
def readCase (opcode : ℕ) (p : ℕ → UInt8) : EslCommandBody :=
  match opcode with
  | 0x00 => .ping
  | 0x01 => .unassociateFromAp
  | 0x02 => .serviceReset
  | 0x03 => .factoryReset
  | 0x04 => .updateComplete
  | 0x10 => .readSensorData (p 2).toNat
  | 0x11 => .refreshDisplay (p 2).toNat
  | 0x20 => .displayImage (p 2).toNat (p 3).toNat
  | 0x60 => .displayTimedImage (p 2).toNat (p 3).toNat (bytesToUint32 p 4)
  | 0xB0 => .ledControl (p 2).toNat (readLedParams p)
  | 0xF0 => .ledTimedControl (p 2).toNat (readLedParams p) (bytesToUint32 p 13)
  | opcode => .unknown opcode

/-- The body at `command`. The sixteen cases of the vendor are those that end in `0xF`. -/
def readBody (p : ℕ → UInt8) : EslCommandBody :=
  if (p 0).toNat % 16 = 0x0F then
    .vendor ⟨(p 0).toNat / 16, Nat.div_lt_of_lt_mul (p 0).toNat_lt⟩
      ((bytesAt p 2 ((p 0).toNat / 16)).map UInt8.toNat)
  else readCase (p 0).toNat p

/-- The command at `command`. -/
def readCommand (p : ℕ → UInt8) : EslCommand := ⟨(p 1).toNat, readBody p⟩

/-- The commands that `command` passes in the loops of `app_esl_handleControlPointCmds`. -/
def readCommands (getCommandSize : UInt8 → UInt8 → ℕ) : ℕ → (ℕ → UInt8) → List EslCommand
  | 0, _ => []
  | numCmds + 1, p =>
    readCommand p ::
      readCommands getCommandSize numCmds fun i => p (getCommandSize (p 0) (p 1) + i)

/-- The first loop of `app_esl_handleControlPointCmds`, over the bytes. -/
def countLoop (getCommandSize : UInt8 → UInt8 → ℕ) : ℕ → ℕ → (ℕ → UInt8) → ℕ
  | 0, rspLeft, _ => rspLeft
  | numCmds + 1, rspLeft, p =>
    countLoop getCommandSize numCmds
      (if (readCommand p).unicast then u8 (rspLeft + 1) else rspLeft)
      fun i => p (getCommandSize (p 0) (p 1) + i)

/-- The second loop. -/
def rspLoop (getCommandSize : UInt8 → UInt8 → ℕ) (env : EslEnv) :
    ℕ → EslRspState → (ℕ → UInt8) → EslRspState
  | 0, r, _ => r
  | numCmds + 1, r, p =>
    rspLoop getCommandSize env numCmds (Esl.rspRound env r (readCommand p))
      fun i => p (getCommandSize (p 0) (p 1) + i)

/-- `app_esl_handleControlPointCmds`, over the bytes of `cmd->cmds`. -/
def handleControlPointBytes (getCommandSize : UInt8 → UInt8 → ℕ) (env : EslEnv) (s : EslApp)
    (numCmds : ℕ) (cmds : ℕ → UInt8) : EslRspState :=
  let rspLeft := countLoop getCommandSize numCmds 0 cmds
  if Esl.maxEslPayloadSize < rspLeft * Esl.cmdRspMinLength then ⟨s, [], rspLeft⟩
  else rspLoop getCommandSize env numCmds ⟨s, [], rspLeft⟩ cmds

/-! ## What the words ask for -/

/-- A number for a `u8` field. -/
def u8Arg (ps : CString) : ℕ := (appParseStr2n ps).toNat % 2 ^ 8

/-- The parameters that the words ask for. -/
def askedLedParams (red green blue brightness pattern repeatType duration : CString) :
    EslLedParams where
  colorRed := (appParseStr2n red).toNat % 2 ^ 2
  colorGreen := (appParseStr2n green).toNat % 2 ^ 2
  colorBlue := (appParseStr2n blue).toNat % 2 ^ 2
  brightness := (appParseStr2n brightness).toNat % 2 ^ 2
  flashingPattern i := ((str2hex pattern).getD i 0).toNat
  repeatType := (appParseStr2n repeatType).toNat % 2
  repeatDuration := (appParseStr2n duration).toNat % 2 ^ 15

/-- An LED command: eight words, then those that are left. -/
def askedLed (body : ℕ → EslLedParams → EslCommandBody) :
    List CString → Option (EslCommandBody × List CString)
  | ledId :: red :: green :: blue :: brightness :: pattern :: repeatType :: duration :: words =>
    if 7 * 2 < pattern.length then none
    else some (body (u8Arg ledId)
      (askedLedParams red green blue brightness pattern repeatType duration), words)
  | _ => none

theorem vendorLength_lt {n : ℕ} (h : n ≤ 0x0F * 2) : n / 2 < 16 := by omega

/-- The command that the words behind the name ask for, and the words left. -/
def askedBody (name : CString) (words : List CString) :
    Option (EslCommandBody × List CString) :=
  if strcaseEq name "ping".toList then some (.ping, words)
  else if strcaseEq name "upd_cmpl".toList then some (.updateComplete, words)
  else if strcaseEq name "read_sensor".toList then
    match words with
    | sensorId :: words => some (.readSensorData (u8Arg sensorId), words)
    | [] => none
  else if strcaseEq name "refresh_display".toList then
    match words with
    | displayId :: words => some (.refreshDisplay (u8Arg displayId), words)
    | [] => none
  else if strcaseEq name "display_image".toList then
    match words with
    | displayId :: imageId :: words =>
      some (.displayImage (u8Arg displayId) (u8Arg imageId), words)
    | _ => none
  else if strcaseEq name "display_timed_image".toList then
    match words with
    | absoluteTime :: displayId :: imageId :: words =>
      some (.displayTimedImage (u8Arg displayId) (u8Arg imageId)
        (appParseStr2n absoluteTime).toNat, words)
    | _ => none
  else if strcaseEq name "led_control".toList then askedLed .ledControl words
  else if strcaseEq name "led_timed_control".toList then
    match words with
    | absoluteTime :: words =>
      askedLed (fun ledId params =>
        .ledTimedControl ledId params (appParseStr2n absoluteTime).toNat) words
    | [] => none
  else if strcaseEq name "factory_reset".toList then some (.factoryReset, words)
  else if strcaseEq name "unassociate".toList then some (.unassociateFromAp, words)
  else if strcaseEq name "vendor".toList then
    match words with
    | parameters :: words =>
      if h : parameters.length ≤ 0x0F * 2 then
        some (.vendor ⟨parameters.length / 2, vendorLength_lt h⟩
          ((str2hex parameters).map UInt8.toNat), words)
      else none
    | [] => none
  else none

/-- The command that a line asks for, with the address of the label. -/
def askedCommand : List CString → Option (EslCommand × EslAddress)
  | [] => none
  | name :: words => do
    let (body, rest) ← if words = [] then none else askedBody name words
    let address ← parseEslAddress rest
    some (⟨address.eslId.toNat, body⟩, address)

/-- The size of a command, with its header of two bytes. -/
def commandSize : EslCommandBody → ℕ
  | .ping | .unassociateFromAp | .serviceReset | .factoryReset | .updateComplete => 2
  | .readSensorData _ | .refreshDisplay _ => 3
  | .displayImage _ _ => 4
  | .displayTimedImage _ _ _ => 8
  | .ledControl _ _ => 13
  | .ledTimedControl _ _ _ => 17
  | .vendor length _ => 2 + length
  | .unknown opcode => 2 + opcode / 16

/-- The room that the commands take. -/
def askedSize (cmds : List EslCommand) : ℕ := (cmds.map fun c => commandSize c.body).sum

/-- The command is for all labels, or for a label that is configured. -/
def Known (d : ApDevices) (address : EslAddress) : Prop :=
  address.eslId = eslIdBroadcast ∨
    ∃ i, (d i).active = true ∧ (d i).eslConfigured = true ∧ (d i).address = address

instance (d : ApDevices) (address : EslAddress) : Decidable (Known d address) :=
  inferInstanceAs (Decidable (address.eslId = eslIdBroadcast ∨
    ∃ i, (d i).active = true ∧ (d i).eslConfigured = true ∧ (d i).address = address))

/-- A pattern has all its digits. -/
def FullPattern (argv : List CString) : Prop := ∀ p ∈ ledPattern argv, 7 * 2 ≤ p.length

instance (argv : List CString) : Decidable (FullPattern argv) :=
  inferInstanceAs (Decidable (∀ p ∈ ledPattern argv, 7 * 2 ≤ p.length))

/-! ## The fields -/

theorem readBody_of_opcode {q : ℕ → UInt8} {opcode : UInt8} (h : q 0 = opcode)
    (hvendor : opcode.toNat % 16 ≠ 0x0F) : readBody q = readCase opcode.toNat q := by
  subst h
  exact if_neg hvendor

/-- A `u8` field. -/
theorem u8_read {ps : CString} {p : ℕ → UInt8} {a : ℕ} (h : HasBytes p a (u8Field ps)) :
    (p a).toNat = u8Arg ps := by
  rw [(hasBytes_cons.mp h).1, UInt8.toNat_ofBitVec, BitVec.toNat_setWidth]
  rfl

/-- The four bytes of a `u32` field. -/
theorem u32_read {ps : CString} {p : ℕ → UInt8} {a : ℕ} (h : HasBytes p a (u32Field ps)) :
    bytesToUint32 p a = (appParseStr2n ps).toNat := by
  have hlt := (appParseStr2n ps).isLt
  have hbyte (i : ℕ) : (UInt8.ofBitVec ((appParseStr2n ps >>> (8 * i)).setWidth 8)).toNat =
      (appParseStr2n ps).toNat / 2 ^ (8 * i) % 256 := by
    rw [UInt8.toNat_ofBitVec, BitVec.toNat_setWidth, BitVec.toNat_ushiftRight,
      Nat.shiftRight_eq_div_pow]
  obtain ⟨h0, h1⟩ := hasBytes_cons.mp h
  obtain ⟨h1, h2⟩ := hasBytes_cons.mp h1
  obtain ⟨h2, h3⟩ := hasBytes_cons.mp h2
  have h3 := (hasBytes_cons.mp h3).1
  unfold bytesToUint32
  rw [h0, h1, h2, h3, hbyte 0, hbyte 1, hbyte 2, hbyte 3]
  omega

/-- The bit fields of the color and the brightness. -/
theorem ledColor_fields (red green blue brightness : BitVec 2) :
    let n := (UInt8.ofBitVec (red.setWidth 8 ||| green.setWidth 8 <<< 2 |||
      blue.setWidth 8 <<< 4 ||| brightness.setWidth 8 <<< 6)).toNat
    n % 4 = red.toNat ∧ n / 4 % 4 = green.toNat ∧ n / 16 % 4 = blue.toNat ∧
      n / 64 = brightness.toNat := by
  revert red green blue brightness
  decide

theorem ledColor_read {red green blue brightness : CString} {p : ℕ → UInt8} {a : ℕ}
    (h : HasBytes p a (ledColorField red green blue brightness)) :
    (p a).toNat % 4 = (appParseStr2n red).toNat % 2 ^ 2 ∧
      (p a).toNat / 4 % 4 = (appParseStr2n green).toNat % 2 ^ 2 ∧
      (p a).toNat / 16 % 4 = (appParseStr2n blue).toNat % 2 ^ 2 ∧
      (p a).toNat / 64 = (appParseStr2n brightness).toNat % 2 ^ 2 := by
  rw [(hasBytes_cons.mp h).1]
  simp only [← BitVec.toNat_setWidth]
  exact ledColor_fields _ _ _ _

/-- The bit fields of the repetition. -/
theorem ledRepeat_field (repeatType : BitVec 1) (duration : BitVec 15) :
    (repeatType.setWidth 16 ||| duration.setWidth 16 <<< 1 : BitVec 16).toNat =
      repeatType.toNat + 2 * duration.toNat := by
  have htype : repeatType.toNat < 2 ^ 1 := repeatType.isLt
  have hduration := duration.isLt
  rw [BitVec.toNat_or, BitVec.toNat_shiftLeft, BitVec.toNat_setWidth, BitVec.toNat_setWidth,
    Nat.mod_eq_of_lt (by omega), Nat.mod_eq_of_lt (by omega), Nat.shiftLeft_eq,
    Nat.mod_eq_of_lt (by omega), Nat.or_comm, Nat.mul_comm,
    ← Nat.two_pow_add_eq_or_of_lt htype]
  omega

theorem ledRepeat_read {repeatType duration : CString} {p : ℕ → UInt8} {a : ℕ}
    (h : HasBytes p a (ledRepeatField repeatType duration)) :
    bytesToUint16 p a % 2 = (appParseStr2n repeatType).toNat % 2 ∧
      bytesToUint16 p a / 2 = (appParseStr2n duration).toNat % 2 ^ 15 := by
  obtain ⟨h0, h1⟩ := hasBytes_cons.mp h
  have h1 := (hasBytes_cons.mp h1).1
  have hfield := ledRepeat_field ((appParseStr2n repeatType).setWidth 1)
    ((appParseStr2n duration).setWidth 15)
  rw [BitVec.toNat_setWidth, BitVec.toNat_setWidth] at hfield
  have hread : bytesToUint16 p a =
      (((appParseStr2n repeatType).setWidth 1).setWidth 16 |||
        ((appParseStr2n duration).setWidth 15).setWidth 16 <<< 1 : BitVec 16).toNat := by
    unfold bytesToUint16
    rw [h0, h1, UInt8.toNat_ofBitVec, UInt8.toNat_ofBitVec, BitVec.toNat_setWidth,
      BitVec.toNat_setWidth, BitVec.toNat_ushiftRight, Nat.shiftRight_eq_div_pow]
    omega
  rw [hread, hfield]
  omega

/-! ## What is read is what was asked for -/

theorem hasBytes_memcpy (p : ℕ → UInt8) (a : ℕ) (l : List UInt8) : HasBytes (memcpy p a l) a l :=
  bytesAt_memcpy_self p a l

/-- Bytes beside what is copied. -/
theorem hasBytes_memcpy_apart {p : ℕ → UInt8} {a : ℕ} {l : List UInt8} (h : HasBytes p a l)
    {dst : ℕ} {l' : List UInt8} (hapart : a + l.length ≤ dst ∨ dst + l'.length ≤ a) :
    HasBytes (memcpy p dst l') a l := by
  have hsame : bytesAt (memcpy p dst l') a l.length = bytesAt p a l.length :=
    bytesAt_congr fun i hi => if_neg (by omega)
  exact hsame.trans h

theorem memcpy_of_le (p : ℕ → UInt8) {a i : ℕ} {l : List UInt8} (hi : a + l.length ≤ i) :
    memcpy p a l i = p i :=
  if_neg fun h => Nat.not_lt.mpr hi h.2

/-- What the memory holds, byte by byte. -/
theorem getD_of_hasBytes {p : ℕ → UInt8} {a i : ℕ} {l : List UInt8} (h : HasBytes p a l)
    (hi : i < l.length) : p (a + i) = l.getD i 0 := by
  have hget : (bytesAt p a l.length).getD i 0 = p (a + i) := getD_bytes _ hi 0
  exact hget.symm.trans (congrArg (fun l => l.getD i 0) h)

/-- The places of the fields that both LED commands have. What lies behind them is as before. -/
structure LedPlaces (m q : ℕ → UInt8) (control pattern repetition : List UInt8) : Prop where
  opcode : q 0 = m 0
  control : HasBytes q 2 control
  pattern : HasBytes q 4 pattern
  repetition : HasBytes q 11 repetition
  behind : ∀ i, 13 ≤ i → q i = m i

theorem led_places {m : ℕ → UInt8} {control pattern repetition : List UInt8}
    (hcontrol : control.length = 2) (hpattern : pattern.length = 7)
    (hrepetition : repetition.length = 2) (eslId : UInt8) :
    LedPlaces m (memcpy (memcpy (memcpy (memcpy m 2 control) 4 pattern) 11 repetition) 1 [eslId])
      control pattern repetition where
  opcode := by
    rw [memcpy_of_lt _ _ Nat.one_pos, memcpy_of_lt _ _ (by decide), memcpy_of_lt _ _ (by decide),
      memcpy_of_lt _ _ (by decide)]
  control := by
    refine hasBytes_memcpy_apart (hasBytes_memcpy_apart (hasBytes_memcpy_apart
      (hasBytes_memcpy _ _ _) ?_) ?_) ?_
    · exact .inl (by omega)
    · exact .inl (by omega)
    · exact .inr (Nat.le_refl 2)
  pattern := by
    refine hasBytes_memcpy_apart (hasBytes_memcpy_apart (hasBytes_memcpy _ _ _) ?_) ?_
    · exact .inl (by omega)
    · exact .inr (show 2 ≤ 4 by decide)
  repetition := hasBytes_memcpy_apart (hasBytes_memcpy _ _ _) (.inr (show 2 ≤ 11 by decide))
  behind := by
    intro i hi
    rw [memcpy_of_le _ (show 2 ≤ i by omega), memcpy_of_le _ (by omega), memcpy_of_le _ (by omega),
      memcpy_of_le _ (by omega)]

/-- `parseFields` stores the body that the words ask for, and both leave the same words, of
which an address takes at least one. -/
def Reads (full : Prop) :
    Option ((ℕ → UInt8) × List CString) → Option (EslCommandBody × List CString) → Prop
  | none, none => True
  | some (cmdBuf, rest), some (body, rest') =>
    rest = rest' ∧ (rest ≠ [] → full → ∀ eslId, readBody (memcpy cmdBuf 1 [eslId]) = body)
  | _, _ => False

namespace Reads

variable {full : Prop} {x x' : Option ((ℕ → UInt8) × List CString)}
  {y y' : Option (EslCommandBody × List CString)}

theorem ite {b : Bool} (h : b = true → Reads full x y) (h' : b = false → Reads full x' y') :
    Reads full (if b then x else x') (if b then y else y') := by
  cases b with
  | true => exact h rfl
  | false => exact h' rfl

/-- The fields that both LED commands have. -/
theorem led {m : ℕ → UInt8} {body : ℕ → EslLedParams → EslCommandBody} {words : List CString}
    (hbody : ∀ q : ℕ → UInt8, q 0 = m 0 → (∀ i, 13 ≤ i → q i = m i) →
      readBody q = body (q 2).toNat (readLedParams q))
    (hfull : ∀ ledId red green blue brightness pattern repeatType duration word rest,
      words = ledId :: red :: green :: blue :: brightness :: pattern :: repeatType :: duration ::
        word :: rest → full → 7 * 2 ≤ pattern.length) :
    Reads full (parseLedFields m words) (askedLed body words) := by
  rcases words with _ | ⟨ledId, _ | ⟨red, _ | ⟨green, _ | ⟨blue, _ | ⟨brightness, _ | ⟨pattern,
    _ | ⟨repeatType, _ | ⟨duration, rest⟩⟩⟩⟩⟩⟩⟩⟩
  iterate 8 trivial
  rw [parseLedFields, askedLed]
  by_cases hlong : 7 * 2 < pattern.length
  · rw [if_pos hlong, if_pos hlong]
    trivial
  rw [if_neg hlong, if_neg hlong]
  refine ⟨rfl, fun hrest hpattern eslId => ?_⟩
  obtain ⟨word, rest, rfl⟩ := List.exists_cons_of_ne_nil hrest
  have hlen := hfull _ _ _ _ _ _ _ _ _ _ rfl hpattern
  have hhex : (str2hex pattern).length = 7 := by
    rw [length_str2hex]
    omega
  generalize hq : memcpy (memcpy (memcpy (memcpy m 2 (u8Field ledId ++
    ledColorField red green blue brightness)) 4 (str2hex pattern)) 11
    (ledRepeatField repeatType duration)) 1 [eslId] = q
  obtain ⟨h0, hcontrol, hflash, hrepeat, hbehind⟩ : LedPlaces m q _ _ _ :=
    hq ▸ led_places rfl hhex rfl eslId
  obtain ⟨hid, hcolor⟩ := hasBytes_append.mp hcontrol
  change HasBytes q 3 _ at hcolor
  rw [hbody q h0 hbehind, u8_read hid]
  congr 1
  obtain ⟨hred, hgreen, hblue, hbright⟩ := ledColor_read hcolor
  obtain ⟨htype, hduration⟩ := ledRepeat_read hrepeat
  have hflashing (i : Fin 7) : q (4 + i) = (str2hex pattern).getD i 0 :=
    getD_of_hasBytes hflash (Nat.lt_of_lt_of_eq i.isLt hhex.symm)
  unfold readLedParams askedLedParams
  rw [hred, hgreen, hblue, hbright, htype, hduration]
  simp only [hflashing]

/-- A command whose fields are stored at once behind the opcode. -/
theorem of_fields {m : ℕ → UInt8} {opcode : UInt8} {fields : List UInt8} {body : EslCommandBody}
    {rest : List CString}
    (hbody : ∀ q : ℕ → UInt8, q 0 = opcode → HasBytes q 2 fields → readBody q = body) :
    Reads full (some (memcpy (memcpy m 0 [opcode]) 2 fields, rest)) (some (body, rest)) := by
  refine ⟨rfl, fun _ _ eslId => hbody _ ?_ ?_⟩
  · rw [memcpy_of_lt _ _ Nat.one_pos, memcpy_of_lt _ _ Nat.two_pos]
    rfl
  · exact hasBytes_memcpy_apart (hasBytes_memcpy _ _ _) (.inr (Nat.le_refl 2))

/-- A command of a header only. -/
theorem of_header {m : ℕ → UInt8} {opcode : UInt8} {body : EslCommandBody} {rest : List CString}
    (hbody : ∀ q : ℕ → UInt8, q 0 = opcode → readBody q = body) :
    Reads full (some (memcpy m 0 [opcode], rest)) (some (body, rest)) := by
  refine ⟨rfl, fun _ _ eslId => hbody _ ?_⟩
  rw [memcpy_of_lt _ _ Nat.one_pos]
  rfl

end Reads

theorem vendorOpcode_low {n : ℕ} (hn : n ≤ 0x0F) :
    ((0x0F : UInt8) ||| UInt8.ofNat n <<< 4).toNat % 16 = 0x0F := by
  interval_cases n <;> rfl

/-- `vendor`. -/
theorem reads_vendor {full : Prop} (m : ℕ → UInt8) (parameters : CString) (rest : List CString) :
    Reads full
      (if 0x0F * 2 < parameters.length then none
        else some (memcpy (memcpy m 0 [(0x0F : UInt8) |||
          UInt8.ofNat (str2hex parameters).length <<< 4]) 2 (str2hex parameters), rest))
      (if h : parameters.length ≤ 0x0F * 2 then
        some (.vendor ⟨parameters.length / 2, vendorLength_lt h⟩
          ((str2hex parameters).map UInt8.toNat), rest)
      else none) := by
  by_cases hlen : parameters.length ≤ 0x0F * 2
  · rw [if_neg (Nat.not_lt.mpr hlen), dif_pos hlen]
    have hhex := length_str2hex parameters
    refine Reads.of_fields fun q h0 hfields => ?_
    have hopcode := CmdTrace.vendorOpcode_toNat (n := (str2hex parameters).length) (by omega)
    rw [← h0, hhex] at hopcode
    have hvendor : (q 0).toNat % 16 = 0x0F := by
      rw [h0]
      exact vendorOpcode_low (by omega)
    rw [readBody, if_pos hvendor]
    congr 1
    · exact Fin.ext hopcode
    · rw [hopcode, ← hhex]
      exact congrArg (List.map UInt8.toNat) hfields
  · rw [if_pos (Nat.lt_of_not_le hlen), dif_neg hlen]
    trivial

/-- The body of each command. -/
theorem reads_fields (name : CString) (words : List CString) (m : ℕ → UInt8) :
    Reads (FullPattern (name :: words)) (parseFields name words m) (askedBody name words) := by
  unfold parseFields askedBody
  refine Reads.ite (fun _ => ?_) fun _ => ?_
  · exact Reads.of_header fun q h0 => readBody_of_opcode h0 (by decide)
  refine Reads.ite (fun _ => ?_) fun _ => ?_
  · exact Reads.of_header fun q h0 => readBody_of_opcode h0 (by decide)
  refine Reads.ite (fun _ => ?_) fun _ => ?_
  · cases words with
    | nil => trivial
    | cons sensorId words =>
      refine Reads.of_fields fun q h0 hfields =>
        (readBody_of_opcode h0 (by decide)).trans (congrArg EslCommandBody.readSensorData ?_)
      exact u8_read hfields
  refine Reads.ite (fun _ => ?_) fun _ => ?_
  · cases words with
    | nil => trivial
    | cons displayId words =>
      refine Reads.of_fields fun q h0 hfields =>
        (readBody_of_opcode h0 (by decide)).trans (congrArg EslCommandBody.refreshDisplay ?_)
      exact u8_read hfields
  refine Reads.ite (fun _ => ?_) fun _ => ?_
  · rcases words with _ | ⟨displayId, _ | ⟨imageId, words⟩⟩
    · trivial
    · trivial
    refine Reads.of_fields fun q h0 hfields =>
      (readBody_of_opcode h0 (by decide)).trans ?_
    obtain ⟨hdisplay, himage⟩ := hasBytes_append.mp hfields
    exact congrArg₂ EslCommandBody.displayImage (u8_read hdisplay) (u8_read himage)
  refine Reads.ite (fun _ => ?_) fun _ => ?_
  · rcases words with _ | ⟨absoluteTime, _ | ⟨displayId, _ | ⟨imageId, words⟩⟩⟩
    · trivial
    · trivial
    · trivial
    refine Reads.of_fields fun q h0 hfields =>
      (readBody_of_opcode h0 (by decide)).trans ?_
    obtain ⟨hids, htime⟩ := hasBytes_append.mp hfields
    obtain ⟨hdisplay, himage⟩ := hasBytes_append.mp hids
    show EslCommandBody.displayTimedImage (q 2).toNat (q 3).toNat (bytesToUint32 q 4) = _
    have himage : (q 3).toNat = u8Arg imageId := u8_read himage
    have htime : bytesToUint32 q 4 = (appParseStr2n absoluteTime).toNat := u32_read htime
    rw [u8_read hdisplay, himage, htime]
  refine Reads.ite (fun h => ?_) fun hcontrol => ?_
  · refine Reads.led (fun q (h0 : q 0 = 0xB0) _ => readBody_of_opcode h0 (by decide)) ?_
    rintro ledId red green blue brightness pattern repeatType duration word rest rfl hfull
    refine hfull pattern ?_
    rw [ledPattern, if_pos h, if_neg (by simp)]
    rfl
  refine Reads.ite (fun h => ?_) fun _ => ?_
  · cases words with
    | nil => trivial
    | cons absoluteTime words =>
      refine Reads.led (fun q h0 hbehind => ?_) ?_
      · have hopcode : q 0 = 0xF0 := h0.trans (memcpy_of_lt _ _ (by decide))
        have htime : HasBytes q 13 (u32Field absoluteTime) :=
          (bytesAt_congr fun i _ => hbehind (13 + i) (Nat.le_add_right 13 i)).trans
            (hasBytes_memcpy _ _ _)
        rw [readBody_of_opcode hopcode (by decide), ← u32_read htime]
        rfl
      · rintro ledId red green blue brightness pattern repeatType duration word rest rfl hfull
        refine hfull pattern ?_
        rw [ledPattern, if_neg (Bool.eq_false_iff.mp hcontrol), if_pos h, if_neg (by simp)]
        rfl
  refine Reads.ite (fun _ => ?_) fun _ => ?_
  · exact Reads.of_header fun q h0 => readBody_of_opcode h0 (by decide)
  refine Reads.ite (fun _ => ?_) fun _ => ?_
  · exact Reads.of_header fun q h0 => readBody_of_opcode h0 (by decide)
  refine Reads.ite (fun _ => ?_) fun _ => ?_
  · cases words with
    | nil => trivial
    | cons parameters words => exact reads_vendor m parameters words
  trivial

/-- Whatever `cmdBuf` held, the label decodes what `cmd_parse` encoded as the command that the
line asks for, and `cmd_parse` refuses the lines that ask for nothing. -/
theorem readCommand_cmdParse {argv : List CString} (hpattern : FullPattern argv)
    (cmdBuf : ℕ → UInt8) :
    (cmdParse argv cmdBuf).map (fun r => (readCommand r.1, r.2)) = askedCommand argv := by
  rcases argv with _ | ⟨name, words⟩
  · rfl
  by_cases hwords : words = []
  · subst hwords
    rfl
  have hreads := reads_fields name words cmdBuf
  unfold cmdParse askedCommand
  dsimp only
  rw [if_neg hwords, if_neg hwords]
  cases hfields : parseFields name words cmdBuf with
  | none =>
    cases hbody : askedBody name words with
    | none => rfl
    | some y =>
      rw [hfields, hbody] at hreads
      exact hreads.elim
  | some x =>
    cases hbody : askedBody name words with
    | none =>
      rw [hfields, hbody] at hreads
      exact hreads.elim
    | some y =>
      obtain ⟨m, rest⟩ := x
      obtain ⟨body, rest'⟩ := y
      rw [hfields, hbody] at hreads
      obtain ⟨rfl, hread⟩ := hreads
      cases haddress : parseEslAddress rest with
      | none => simp [haddress]
      | some address =>
        have hrest : rest ≠ [] := by
          rintro rfl
          exact nomatch haddress
        have hbody := hread hrest hpattern (UInt8.ofBitVec address.eslId)
        simp only [Option.bind_eq_bind, Option.bind_some, haddress, Option.map_some, readCommand,
          hbody]
        rfl

/-! ## Walking over the commands -/

theorem readLedParams_congr {p q : ℕ → UInt8} (h : ∀ i < 13, p i = q i) :
    readLedParams p = readLedParams q := by
  have hflashing (i : Fin 7) : p (4 + i) = q (4 + i) := h _ (by omega)
  unfold readLedParams bytesToUint16
  rw [h 3 (by decide), h 11 (by decide), h 12 (by decide)]
  simp only [hflashing]

/-- Each case reads its command only as far as the opcode says. -/
theorem readCase_congr {p q : ℕ → UInt8} {opcode : ℕ} (h : ∀ i < 2 + opcode / 16, p i = q i) :
    readCase opcode p = readCase opcode q := by
  unfold readCase
  split
  case h_6 => rw [h 2 (by decide)]
  case h_7 => rw [h 2 (by decide)]
  case h_8 => rw [h 2 (by decide), h 3 (by decide)]
  case h_9 =>
    unfold bytesToUint32
    rw [h 2 (by decide), h 3 (by decide), h 4 (by decide), h 5 (by decide), h 6 (by decide),
      h 7 (by decide)]
  case h_10 => rw [h 2 (by decide), readLedParams_congr h]
  case h_11 =>
    unfold bytesToUint32
    rw [h 2 (by decide), readLedParams_congr fun i hi => h i (by omega), h 13 (by decide),
      h 14 (by decide), h 15 (by decide), h 16 (by decide)]
  all_goals rfl

theorem readCommand_congr {p q : ℕ → UInt8} (h : ∀ i < 2 + (p 0).toNat / 16, p i = q i) :
    readCommand p = readCommand q := by
  have h0 := h 0 (by omega)
  have h1 := h 1 (by omega)
  have hbytes : bytesAt p 2 ((p 0).toNat / 16) = bytesAt q 2 ((p 0).toNat / 16) :=
    bytesAt_congr fun i hi => h (2 + i) (by omega)
  unfold readCommand readBody
  rw [hbytes, readCase_congr h, h1]
  simp only [h0]

section

variable {getCommandSize : UInt8 → UInt8 → ℕ}

theorem countLoop_eq (numCmds rspLeft : ℕ) (p : ℕ → UInt8) (h : rspLeft < 256) :
    countLoop getCommandSize numCmds rspLeft p =
      u8 (rspLeft + Esl.unicastCount (readCommands getCommandSize numCmds p)) := by
  induction numCmds generalizing rspLeft p with
  | zero => exact (u8_of_lt h).symm
  | succ numCmds ih =>
    rw [countLoop, readCommands, Esl.unicastCount, List.countP_cons]
    split
    · rw [ih _ _ (u8_lt _)]
      unfold u8 Esl.unicastCount
      omega
    · rw [ih _ _ h, Nat.add_zero]
      rfl

theorem rspLoop_eq (env : EslEnv) (numCmds : ℕ) (r : EslRspState) (p : ℕ → UInt8) :
    rspLoop getCommandSize env numCmds r p =
      (readCommands getCommandSize numCmds p).foldl (Esl.rspRound env) r := by
  induction numCmds generalizing r p with
  | zero => rfl
  | succ numCmds ih =>
    rw [rspLoop, readCommands, List.foldl_cons]
    exact ih _ _

/-- What the label does with the bytes is what it does with the commands it passes there. -/
theorem handleControlPointBytes_eq (env : EslEnv) (s : EslApp) (numCmds : ℕ) (cmds : ℕ → UInt8) :
    handleControlPointBytes getCommandSize env s numCmds cmds =
      Esl.handleControlPointCmds env s (readCommands getCommandSize numCmds cmds) := by
  unfold handleControlPointBytes Esl.handleControlPointCmds
  simp only [countLoop_eq _ 0 _ (by decide), Nat.zero_add, rspLoop_eq]

/-- The upper half of the opcode is the size of what follows the header. -/
theorem commandSize_readBody (p : ℕ → UInt8) : commandSize (readBody p) = 2 + (p 0).toNat / 16 := by
  unfold readBody
  by_cases hvendor : (p 0).toNat % 16 = 0x0F
  · rw [if_pos hvendor]
    rfl
  rw [if_neg hvendor]
  unfold readCase
  split <;> simp_all [commandSize]

/-- The label finds the commands that lie one behind the other. -/
theorem readCommands_flatten
    (hsize : ∀ opcode eslId, getCommandSize opcode eslId = 2 + opcode.toNat / 16)
    {cmds : List (List UInt8)}
    (hcmds : ∀ c ∈ cmds, c.length = getCommandSize (c.getD 0 0) (c.getD 1 0)) {p : ℕ → UInt8}
    (h : HasBytes p 0 cmds.flatten) :
    readCommands getCommandSize cmds.length p = cmds.map fun c => readCommand (mem c) := by
  induction cmds generalizing p with
  | nil => rfl
  | cons c cmds ih =>
    obtain ⟨hhead, htail⟩ := hasBytes_append.mp h
    have hlen := hcmds c List.mem_cons_self
    rw [hsize] at hlen
    have hget {i : ℕ} (hi : i < c.length) : p i = mem c i := by
      have hbyte := getD_of_hasBytes hhead hi
      rwa [Nat.zero_add] at hbyte
    have h0 : p 0 = mem c 0 := hget (by omega)
    have hnext : getCommandSize (p 0) (p 1) = c.length := by
      rw [hsize, h0, hlen]
      rfl
    rw [List.length_cons, readCommands, hnext, List.map_cons]
    congr 1
    · refine readCommand_congr fun i hi => hget ?_
      rw [hlen]
      rwa [h0] at hi
    · refine ih (fun c hc => hcmds c (List.mem_cons_of_mem _ hc)) ?_
      unfold HasBytes bytesAt at htail ⊢
      simpa only [Nat.zero_add] using htail

end

/-! ## Runs -/

/-- The access point with the commands of each group that its user asked for, and whether the
last line asked for something that is possible. -/
structure AskedAp where
  ap : EslAp
  asked : ℕ → List EslCommand
  accepted : Bool

namespace AskedAp

/-- Power-on. -/
def powerOn : AskedAp := ⟨.powerOn, fun _ => [], false⟩

/-- The group that a line asks to change, and the commands that it is to have then. There is
nothing to change for an unknown label, a full group or an empty one. -/
def asks (x : AskedAp) : PawrEvent → Option (ℕ × List EslCommand)
  | .append argv _ => do
    let (c, address) ← askedCommand argv
    let cmds := x.asked address.groupId.toNat ++ [c]
    if Known x.ap.table.devices address ∧ askedSize cmds ≤ pendingCmdBufSize then
      some (address.groupId.toNat, cmds)
    else none
  | .clear argv =>
    let groupId := parseGroupId argv
    if groupId < eslpApMaxGroups then some (groupId, []) else none
  | .send argv success =>
    let groupId := parseGroupId argv
    if groupId < eslpApMaxGroups ∧ x.asked groupId ≠ [] ∧ success = true then some (groupId, [])
    else none
  | .device _ => none

section

variable (getCommandSize : UInt8 → UInt8 → ℕ)

/-- A step of the access point. -/
def step (x : AskedAp) (e : PawrEvent) : AskedAp where
  ap := pawrStep getCommandSize x.ap e
  asked := (x.asks e).elim x.asked fun r => Function.update x.asked r.1 r.2
  accepted := (x.asks e).isSome

/-- What the user and the profile library keep to: the groups of the labels are those of the
array, and a pattern has all its digits. -/
structure StepOk (x : AskedAp) (e : PawrEvent) : Prop where
  addEsl : AddEslOk x.ap e
  broadcast : BroadcastOk x.ap e
  pattern : ∀ argv stack, e = .append argv stack → FullPattern argv

/-- A line fails exactly if what it asks for is not possible, and the label that gets the pending
commands of a group finds what was asked for and does it. -/
structure Delivers (x : AskedAp) : Prop where
  failed : x.ap.report = .failed ↔ x.accepted = false
  finds : ∀ groupId < eslpApMaxGroups, ∀ p : ℕ → UInt8,
    HasBytes p 0 (bytes (x.ap.pendingEslCmds groupId).cmdBuf
      (x.ap.pendingEslCmds groupId).cmdLength) →
    readCommands getCommandSize (x.ap.pendingEslCmds groupId).cmdNum p = x.asked groupId
  does : ∀ groupId < eslpApMaxGroups, ∀ p : ℕ → UInt8,
    HasBytes p 0 (bytes (x.ap.pendingEslCmds groupId).cmdBuf
      (x.ap.pendingEslCmds groupId).cmdLength) →
    ∀ env s, handleControlPointBytes getCommandSize env s (x.ap.pendingEslCmds groupId).cmdNum p =
      Esl.handleControlPointCmds env s (x.asked groupId)

/-- The pending commands are in order, and they are the ones that were asked for. -/
structure Inv (x : AskedAp) : Prop where
  ok : x.ap.Ok getCommandSize
  configured : ConfiguredOk x.ap.table.devices
  asked : ∀ groupId, (x.ap.queued groupId).map (fun c => readCommand (mem c)) = x.asked groupId
  failed : x.ap.report = .failed ↔ x.accepted = false

end

/-- What a report has to do with what was asked for. -/
inductive Answers (queued : ℕ → List (List UInt8)) :
    Option (ℕ × List EslCommand) → PawrReport → Prop
  | refused : Answers queued none .failed
  | done {groupId : ℕ} {cmds : List (List UInt8)} {report : PawrReport}
      (hreport : report ≠ .failed)
      (happly : report.apply queued = Function.update queued groupId cmds) :
      Answers queued (some (groupId, cmds.map fun c => readCommand (mem c))) report

section

variable {getCommandSize : UInt8 → UInt8 → ℕ} {x : AskedAp}

/-- The commands of the groups are those of the reports. -/
theorem queued_pawrStep (s : EslAp) (e : PawrEvent) :
    (pawrStep getCommandSize s e).queued =
      (pawrStep getCommandSize s e).report.apply s.queued := by
  cases e with
  | append argv stack =>
    simp only [pawrStep, cmdPawrAppend]
    cases cmdParse argv stack with
    | none => rfl
    | some r =>
      dsimp only
      split_ifs <;> rfl
  | clear argv =>
    simp only [pawrStep, cmdPawrClear]
    split_ifs <;> rfl
  | send argv success =>
    simp only [pawrStep, cmdPawrSend]
    split_ifs <;> rfl
  | device e => rfl

/-- The lookup of `cmd_pawr_append_fun` passes the labels that are known. -/
theorem lookup_fails_iff {d : ApDevices} {address : EslAddress} :
    (address.eslId ≠ eslIdBroadcast ∧ d.getEslInfoByEslAddress address = none) ↔
      ¬ Known d address := by
  unfold Known
  rw [not_or, and_congr_right_iff]
  intro _
  constructor
  · rintro hnone ⟨i, hactive, hconf, haddress⟩
    have hi := of_first_eq_none hnone i
    simp [hactive, hconf, haddress] at hi
  · intro hno
    cases hfind : d.getEslInfoByEslAddress address with
    | none => rfl
    | some i =>
      have hi := of_first_eq_some hfind
      simp only [Bool.and_eq_true, decide_eq_true_eq] at hi
      exact absurd ⟨i, hi.1.1, hi.1.2, hi.2⟩ hno

/-- The label of a line that is known is in a group of the array. -/
theorem group_lt_of_known {d : ApDevices} {address : EslAddress} (hconf : ConfiguredOk d)
    (hbroadcast : address.eslId = eslIdBroadcast → address.groupId.toNat < eslpApMaxGroups)
    (h : Known d address) : address.groupId.toNat < eslpApMaxGroups := by
  rcases h with hall | ⟨i, -, hi, rfl⟩
  · exact hbroadcast hall
  · exact hconf i hi

theorem commandSize_readCommand (p : ℕ → UInt8) :
    commandSize (readCommand p).body = 2 + (p 0).toNat / 16 :=
  commandSize_readBody p

/-- The length of the pending commands is the room that the commands take. -/
theorem Inv.cmdLength
    (hsize : ∀ opcode eslId, getCommandSize opcode eslId = 2 + opcode.toNat / 16)
    (h : x.Inv getCommandSize) {groupId : ℕ} (hgroup : groupId < eslpApMaxGroups) :
    (x.ap.pendingEslCmds groupId).cmdLength = askedSize (x.asked groupId) := by
  have hholds := h.ok.holds groupId hgroup
  have hlen := congrArg List.length hholds.content
  rw [length_bytes, List.length_flatten] at hlen
  rw [hlen, askedSize, ← h.asked, List.map_map]
  congr 1
  refine List.map_congr_left fun c hc => ?_
  rw [hholds.size c hc, hsize]
  exact (commandSize_readCommand (mem c)).symm

/-- The answer to a line that appends. -/
theorem answers_append
    (hsize : ∀ opcode eslId, getCommandSize opcode eslId = 2 + opcode.toNat / 16)
    (h : x.Inv getCommandSize) {argv : List CString} {stack : ℕ → UInt8}
    (hok : StepOk x (.append argv stack)) :
    Answers x.ap.queued (x.asks (.append argv stack))
      (cmdPawrAppend getCommandSize x.ap argv stack).report := by
  have hread := readCommand_cmdParse (hok.pattern argv stack rfl) stack
  unfold asks cmdPawrAppend
  dsimp only
  rw [← hread]
  cases hparse : cmdParse argv stack with
  | none => exact .refused
  | some r =>
    obtain ⟨cmdBuf, address⟩ := r
    have hopcode : (cmdBuf 0).toNat < 256 := (cmdBuf 0).toNat_lt
    have hlen : u16 (getCommandSize (cmdBuf 0) (cmdBuf 1)) = 2 + (cmdBuf 0).toNat / 16 := by
      rw [hsize, u16_of_lt (by omega)]
    -- a command has at least the two bytes of its header, so the check for zero passes
    have hu8 : u8 (2 + (cmdBuf 0).toNat / 16) ≠ 0 := by
      rw [u8_of_lt (by omega)]
      omega
    simp only [Option.map_some, Option.bind_eq_bind, Option.bind_some, hlen, if_neg hu8,
      lookup_fails_iff]
    by_cases hknown : Known x.ap.table.devices address
    · rw [if_neg (not_not.mpr hknown)]
      have hgroup := group_lt_of_known h.configured
        ((broadcastOk_append_iff hparse).mp hok.broadcast) hknown
      have hroom : askedSize (x.asked address.groupId.toNat ++ [readCommand cmdBuf]) =
          (x.ap.pendingEslCmds address.groupId.toNat).cmdLength + (2 + (cmdBuf 0).toNat / 16) := by
        rw [h.cmdLength hsize hgroup, ← commandSize_readCommand]
        simp [askedSize]
      rw [hroom]
      by_cases hfits : (x.ap.pendingEslCmds address.groupId.toNat).cmdLength +
          (2 + (cmdBuf 0).toNat / 16) ≤ pendingCmdBufSize
      · rw [if_pos ⟨hknown, hfits⟩, if_neg (Nat.not_lt.mpr hfits)]
        -- the copy reads as what was encoded
        have hcopy : readCommand (mem (bytes cmdBuf (2 + (cmdBuf 0).toNat / 16))) =
            readCommand cmdBuf :=
          (readCommand_congr fun i hi => (getD_bytes cmdBuf hi 0).symm).symm
        have hasked : x.asked address.groupId.toNat ++ [readCommand cmdBuf] =
            (x.ap.queued address.groupId.toNat ++
              [bytes cmdBuf (2 + (cmdBuf 0).toNat / 16)]).map fun c => readCommand (mem c) := by
          rw [List.map_append, h.asked, List.map_singleton, hcopy]
        rw [hasked]
        exact .done (fun hfailed => nomatch hfailed) rfl
      · rw [if_neg fun hand => hfits hand.2, if_pos (Nat.lt_of_not_le hfits)]
        exact .refused
    · rw [if_pos hknown, if_neg fun hand => hknown hand.1]
      exact .refused

/-- The answer to a line that clears. -/
theorem answers_clear (x : AskedAp) (argv : List CString) :
    Answers x.ap.queued (x.asks (.clear argv)) (cmdPawrClear x.ap argv).report := by
  unfold asks cmdPawrClear
  dsimp only
  by_cases hgroup : parseGroupId argv < eslpApMaxGroups
  · rw [if_pos hgroup, if_neg (Nat.not_le.mpr hgroup)]
    exact @Answers.done _ _ [] _ (fun hfailed => nomatch hfailed) rfl
  · rw [if_neg hgroup, if_pos (Nat.le_of_not_lt hgroup)]
    exact .refused

/-- The answer to a line that sends. -/
theorem answers_send (h : x.Inv getCommandSize) (argv : List CString) (success : Bool) :
    Answers x.ap.queued (x.asks (.send argv success)) (cmdPawrSend x.ap argv success).report := by
  unfold asks cmdPawrSend
  dsimp only
  by_cases hgroup : parseGroupId argv < eslpApMaxGroups
  · rw [if_neg (Nat.not_le.mpr hgroup)]
    have hnum : (x.ap.pendingEslCmds (parseGroupId argv)).cmdNum = 0 ↔
        x.asked (parseGroupId argv) = [] := by
      rw [(h.ok.holds _ hgroup).cmdNum, ← h.asked, List.map_eq_nil_iff, List.length_eq_zero_iff]
    by_cases hempty : x.asked (parseGroupId argv) = []
    · rw [if_neg fun hand => hand.2.1 hempty, if_pos (hnum.mpr hempty)]
      exact .refused
    rw [if_neg fun hzero => hempty (hnum.mp hzero)]
    cases success with
    | true =>
      rw [if_pos ⟨hgroup, hempty, rfl⟩, if_pos rfl]
      exact @Answers.done _ _ [] _ (fun hfailed => nomatch hfailed) rfl
    | false =>
      rw [if_neg fun hand => Bool.false_ne_true hand.2.2, if_neg Bool.false_ne_true]
      exact .refused
  · rw [if_neg fun hand => hgroup hand.1, if_pos (Nat.le_of_not_lt hgroup)]
    exact .refused

/-- Each line is answered as it asks. -/
theorem answers_step
    (hsize : ∀ opcode eslId, getCommandSize opcode eslId = 2 + opcode.toNat / 16)
    (h : x.Inv getCommandSize) {e : PawrEvent} (hok : StepOk x e) :
    Answers x.ap.queued (x.asks e) (pawrStep getCommandSize x.ap e).report := by
  cases e with
  | append argv stack => exact answers_append hsize h hok
  | clear argv => exact answers_clear x argv
  | send argv success => exact answers_send h argv success
  | device e => exact .refused

/-- A step keeps the invariant. -/
theorem Inv.step
    (hsize : ∀ opcode eslId, getCommandSize opcode eslId = 2 + opcode.toNat / 16)
    (h : x.Inv getCommandSize) {e : PawrEvent} (hok : StepOk x e) :
    (x.step getCommandSize e).Inv getCommandSize where
  ok := by
    refine (pawrStep_ok (fun opcode eslId => ?_) h.configured h.ok e).mpr hok.broadcast
    have hopcode : opcode.toNat < 256 := opcode.toNat_lt
    have hmin : cmdRspMinLength = 2 := rfl
    have hmax : cmdRspMaxLength = 17 := rfl
    rw [hsize]
    omega
  configured := pawrStep_configuredOk h.configured e hok.addEsl
  asked := by
    intro g
    have hanswers := answers_step hsize h hok
    unfold AskedAp.step
    dsimp only
    rw [queued_pawrStep]
    generalize (pawrStep getCommandSize x.ap e).report = report at hanswers ⊢
    generalize x.asks e = a at hanswers ⊢
    cases hanswers with
    | refused => exact h.asked g
    | @done groupId cmds report _ happly =>
      -- one group changes, and on both sides to the same commands
      rw [happly]
      by_cases hg : g = groupId
      · subst hg
        rw [Function.update_self, Option.elim_some, Function.update_self]
      · rw [Function.update_of_ne hg, Option.elim_some, Function.update_of_ne hg]
        exact h.asked g
  failed := by
    have hanswers := answers_step hsize h hok
    unfold AskedAp.step
    dsimp only
    generalize (pawrStep getCommandSize x.ap e).report = report at hanswers ⊢
    generalize x.asks e = a at hanswers ⊢
    cases hanswers with
    | refused => exact iff_of_true rfl rfl
    | done hreport _ => exact iff_of_false hreport nofun

theorem Inv.delivers
    (hsize : ∀ opcode eslId, getCommandSize opcode eslId = 2 + opcode.toNat / 16)
    (h : x.Inv getCommandSize) : x.Delivers getCommandSize := by
  have hfinds : ∀ groupId < eslpApMaxGroups, ∀ p : ℕ → UInt8,
      HasBytes p 0 (bytes (x.ap.pendingEslCmds groupId).cmdBuf
        (x.ap.pendingEslCmds groupId).cmdLength) →
      readCommands getCommandSize (x.ap.pendingEslCmds groupId).cmdNum p = x.asked groupId := by
    intro groupId hgroup p hp
    have hholds := h.ok.holds groupId hgroup
    rw [hholds.content] at hp
    rw [hholds.cmdNum, readCommands_flatten hsize hholds.size hp, h.asked]
  refine ⟨h.failed, hfinds, fun groupId hgroup p hp env s => ?_⟩
  rw [handleControlPointBytes_eq, hfinds groupId hgroup p hp]

theorem inv_powerOn : powerOn.Inv getCommandSize where
  ok := ⟨(fun _ hg => by cases hg), fun _ _ => ⟨rfl, Nat.zero_le _, rfl, fun _ hc => by cases hc⟩⟩
  configured := fun i hi => absurd hi (by simp [powerOn, EslAp.powerOn, ApTable.powerOn,
    ApEslInfo.zero])
  asked := fun _ => rfl
  failed := iff_of_true rfl rfl

end

/-- In every run of the access point, a line is taken exactly if what it asks for is possible, and
the label that walks over the pending commands of a group finds and does the commands that the
lines of the shell asked for since the group was last cleared or sent, in that order. -/
theorem delivers_asked (getCommandSize : UInt8 → UInt8 → ℕ)
    (hsize : ∀ opcode eslId, getCommandSize opcode eslId = 2 + opcode.toNat / 16)
    (events : List PawrEvent)
    (hok : Machine.Along (step getCommandSize) StepOk powerOn events) :
    Machine.Always (step getCommandSize) (Delivers getCommandSize) powerOn events :=
  Machine.always_of_invariant (fun _ _ h hi => Inv.step hsize h hi) (fun _ h => h.delivers hsize)
    inv_powerOn hok

/-- Two commands for all labels of group 1, one for a label of group 0 before it is configured and
once more behind that, two more for group 1 of which the second has no room, and the commands of
group 1 sent. -/
def exampleRun : List PawrEvent :=
  [.append (ledArgs "A5A5A5A5A5A5A5".toList ++ ["255".toList]) fun _ => 0xEE,
    .append ["display_timed_image".toList, "0x12345678".toList, "0".toList, "3".toList,
      "1".toList, "255".toList] fun _ => 0xEE,
    .append ["read_sensor".toList, "7".toList, "0".toList, "1".toList] fun _ => 0xEE,
    .device (.connectionComplete 0 ⟨64, ⟨⟨#[1, 2, 3, 4, 5, 6], rfl⟩, 0⟩⟩),
    .device (.addEsl ["64".toList, "1".toList] true),
    .append ["read_sensor".toList, "7".toList, "0".toList, "1".toList] fun _ => 0xEE,
    .append ["vendor".toList, "00112233445566778899AABBCCDDEE".toList, "1".toList, "255".toList]
      fun _ => 0xEE,
    .append ["vendor".toList, "00112233445566778899AABBCCDDEE".toList, "1".toList, "255".toList]
      fun _ => 0xEE,
    .send ["1".toList] true]

theorem delivers_asked_example :
    Machine.Always (step headerSize) (Delivers headerSize) powerOn exampleRun := by
  have happend {x : AskedAp} {argv : List CString} {stack : ℕ → UInt8}
      (hbroadcast : BroadcastOk x.ap (.append argv stack)) (hpattern : FullPattern argv) :
      StepOk x (.append argv stack) := by
    refine ⟨trivial, hbroadcast, ?_⟩
    rintro _ _ ⟨⟩
    exact hpattern
  have hother {x : AskedAp} {e : PawrEvent} (hadd : AddEslOk x.ap e)
      (hbroadcast : BroadcastOk x.ap e) (he : ∀ argv stack, e ≠ .append argv stack) :
      StepOk x e :=
    ⟨hadd, hbroadcast, fun argv stack h => absurd h (he argv stack)⟩
  refine delivers_asked headerSize (fun _ _ => rfl) exampleRun
    ⟨happend ?_ (by decide), happend ?_ (by decide), happend ?_ (by decide),
      hother trivial trivial nofun, hother ?_ trivial nofun, happend ?_ (by decide),
      happend ?_ (by decide), happend ?_ (by decide), hother trivial trivial nofun, trivial⟩
  · rintro _ _ ⟨⟩ _
    decide
  · rintro _ _ ⟨⟩ _
    decide
  · rintro _ _ ⟨⟩ h
    exact absurd h (by decide)
  · rintro _ _ ⟨⟩
    decide
  · rintro _ _ ⟨⟩ h
    exact absurd h (by decide)
  · rintro _ _ ⟨⟩ _
    decide
  · rintro _ _ ⟨⟩ _
    decide

/-- The label is refused before it is configured, and the command without room is. -/
example : (exampleRun.scanl (step headerSize) powerOn).map (·.accepted) =
    [false, true, true, false, false, false, true, true, false, true] := by
  decide +kernel

end AskedAp

end TlBleSdk.Eslp
