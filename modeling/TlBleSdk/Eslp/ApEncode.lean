import TlBleSdk.Eslp.ApPawr
import TlBleSdk.Lib.Stores
import Mathlib.Tactic.IntervalCases

/-!
# The encoder of the commands

`cmd_parse` once more, as what it does with its arguments one after the other: the indices at
which it reads `argv` and what it stores to `cmdBuf`. `cmdParse_eq_trace` connects the trace with
`cmdParse`, whose `cmdBuf` is a local variable of the caller that nothing initializes.

Two runs of the encoder differ in what `cmdBuf` held before. What it stores covers the size of a
command, except that the pattern of an LED command is stored as far as the string goes.
-/

namespace TlBleSdk.Eslp

open Hci ApDevices

/-! ## The reads and the stores -/

/-- The course of `cmd_parse`: `*cur_argc`, the indices at which it read `argv`, and what it stored
at which offset of `cmdBuf`. -/
structure CmdTrace where
  curArgc : ℕ
  read : List ℕ
  stores : List (ℕ × List UInt8)

namespace CmdTrace

variable (argv : List CString)

/-- `argv[i]`. -/
def arg (t : CmdTrace) (i : ℕ) : CString × CmdTrace :=
  (argv.getD i [], { t with read := t.read ++ [i] })

/-- `argv[(*cur_argc)++]`. -/
def next (t : CmdTrace) : CString × CmdTrace :=
  (argv.getD t.curArgc [], { t with curArgc := t.curArgc + 1, read := t.read ++ [t.curArgc] })

/-- The fields at an offset are set. -/
def store (t : CmdTrace) (dst : ℕ) (l : List UInt8) : CmdTrace :=
  { t with stores := t.stores ++ [(dst, l)] }

@[simp] theorem stores_store (t : CmdTrace) (dst : ℕ) (l : List UInt8) :
    (t.store dst l).stores = t.stores ++ [(dst, l)] := rfl

/-- The fields that both LED commands have. -/
def ledFields (t : CmdTrace) : Option CmdTrace :=
  let (ledId, t) := t.next argv
  let (red, t) := t.next argv
  let (green, t) := t.next argv
  let (blue, t) := t.next argv
  let (brightness, t) := t.next argv
  let t := t.store 2 (u8Field ledId ++ ledColorField red green blue brightness)
  let (pattern, t) := t.arg argv t.curArgc
  if 7 * 2 < pattern.length then none
  else
    let (pattern, t) := t.next argv
    let t := t.store 4 (str2hex pattern)
    let (repeatType, t) := t.next argv
    let (repeatDuration, t) := t.next argv
    some (t.store 11 (ledRepeatField repeatType repeatDuration))

/-- The command `cmd_name`. -/
def fields (t : CmdTrace) (cmdName : CString) : Option CmdTrace :=
  if strcaseEq cmdName "ping".toList then some (t.store 0 [0x00])
  else if strcaseEq cmdName "upd_cmpl".toList then some (t.store 0 [0x04])
  else if strcaseEq cmdName "read_sensor".toList then
    let t := t.store 0 [0x10]
    let (sensorId, t) := t.next argv
    some (t.store 2 (u8Field sensorId))
  else if strcaseEq cmdName "refresh_display".toList then
    let t := t.store 0 [0x11]
    let (displayId, t) := t.next argv
    some (t.store 2 (u8Field displayId))
  else if strcaseEq cmdName "display_image".toList then
    if argv.length - t.curArgc < 3 then none
    else
      let t := t.store 0 [0x20]
      let (displayId, t) := t.next argv
      let (imageId, t) := t.next argv
      some (t.store 2 (u8Field displayId ++ u8Field imageId))
  else if strcaseEq cmdName "display_timed_image".toList then
    if argv.length - t.curArgc < 4 then none
    else
      let t := t.store 0 [0x60]
      let (absoluteTime, t) := t.next argv
      let (displayId, t) := t.next argv
      let (imageId, t) := t.next argv
      some (t.store 2 (u8Field displayId ++ u8Field imageId ++ u32Field absoluteTime))
  else if strcaseEq cmdName "led_control".toList then
    if argv.length - t.curArgc < 9 then none
    else (t.store 0 [0xB0]).ledFields argv
  else if strcaseEq cmdName "led_timed_control".toList then
    if argv.length - t.curArgc < 10 then none
    else
      let t := t.store 0 [0xF0]
      let (absoluteTime, t) := t.next argv
      (t.store 13 (u32Field absoluteTime)).ledFields argv
  else
    -- the three names below are looked for in `argv[0]`
    let (argv0, t) := t.arg argv 0
    if strcaseEq argv0 "factory_reset".toList then some (t.store 0 [0x03])
    else if strcaseEq argv0 "unassociate".toList then some (t.store 0 [0x01])
    else if strcaseEq argv0 "vendor".toList then
      let (parameters, t) := t.arg argv t.curArgc
      if 0x0F * 2 < parameters.length then none
      else
        let (parameters, t) := t.next argv
        let data := str2hex parameters
        let t := t.store 0 [(0x0F : UInt8) ||| UInt8.ofNat data.length <<< 4]
        some (t.store 2 data)
    else none

/-- `[group_id] <esl_id>`. -/
def address (t : CmdTrace) : Option (CmdTrace × EslAddress) :=
  if argv.length ≤ t.curArgc then none
  else if argv.length = t.curArgc + 1 then
    let (eslId, t) := t.arg argv t.curArgc
    some (t, ⟨(appParseStr2n eslId).setWidth 8, defaultGroupId⟩)
  else
    let (groupId, t) := t.next argv
    let (eslId, t) := t.arg argv t.curArgc
    some (t, ⟨(appParseStr2n eslId).setWidth 8, (appParseStr2n groupId).setWidth 7⟩)

/-- What the stores make of `cmdBuf`. -/
def buf (t : CmdTrace) (cmdBuf : ℕ → UInt8) : ℕ → UInt8 :=
  t.stores.foldl (fun m w => memcpy m w.1 w.2) cmdBuf

/-- The offset `i` is in what was stored. -/
def Covers (t : CmdTrace) (i : ℕ) : Prop := ∃ w ∈ t.stores, w.1 ≤ i ∧ i < w.1 + w.2.length

end CmdTrace

/-- `cmd_parse` with `*cur_argc` of 0. -/
def traceCmdParse (argv : List CString) : Option (CmdTrace × EslAddress) :=
  let (cmdName, t) := (⟨0, [], []⟩ : CmdTrace).arg argv 0
  if argv.length - t.curArgc < 2 then none
  else do
    let t ← { t with curArgc := t.curArgc + 1 }.fields argv cmdName
    let (t, address) ← t.address argv
    some (t.store 1 [UInt8.ofBitVec address.eslId], address)

/-! ## What the encoder is to do -/

section

variable (getCommandSize : UInt8 → UInt8 → ℕ)

/-- What `cmd_parse` returns: a size of 0 is for the help text. -/
def cmdParseSize (argv : List CString) (cmdBuf : ℕ → UInt8) : ℕ :=
  match cmdParse argv cmdBuf with
  | none => 0
  | some (cmdBuf, _) => u8 (getCommandSize (cmdBuf 0) (cmdBuf 1))

/-- The bytes of the command, for the result of `cmd_parse`. -/
def cmdBytes (r : Option ((ℕ → UInt8) × EslAddress)) : Option (List UInt8) :=
  r.map fun r => bytes r.1 (getCommandSize (r.1 0) (r.1 1))

/-- The encoder is a function of the arguments, if it accepts them: it reads only arguments, the
size fits, and any other contents of `cmdBuf` give the same command. -/
def Encodes (argv : List CString) : Prop :=
  ∀ cmdBuf, cmdParseSize getCommandSize argv cmdBuf ≠ 0 →
    (∀ t address, traceCmdParse argv = some (t, address) → ∀ i ∈ t.read, i < argv.length) ∧
    cmdParseSize getCommandSize argv cmdBuf ≤ cmdRspMaxLength ∧
    ∀ cmdBuf', cmdParseSize getCommandSize argv cmdBuf' = cmdParseSize getCommandSize argv cmdBuf ∧
      cmdBytes getCommandSize (cmdParse argv cmdBuf') =
        cmdBytes getCommandSize (cmdParse argv cmdBuf)

end

/-- The pattern of an LED command that has all its arguments. -/
def ledPattern : List CString → Option CString
  | [] => none
  | name :: argv =>
    if strcaseEq name "led_control".toList then if argv.length < 9 then none else argv[5]?
    else if strcaseEq name "led_timed_control".toList then
      if argv.length < 10 then none else argv[6]?
    else none

/-! ## The trace -/

theorem strcaseEq_congr {name a : CString} (h : strcaseEq name a = true) (b : CString) :
    strcaseEq name b = strcaseEq a b := by
  unfold strcaseEq at h ⊢
  rw [of_decide_eq_true h]

@[simp] theorem length_u8Field (ps : CString) : (u8Field ps).length = 1 := rfl

@[simp] theorem length_u32Field (ps : CString) : (u32Field ps).length = 4 := rfl

namespace CmdTrace

/-- The stores of a command: its opcode, and fields behind the header that cover what the opcode
says, except for the pattern. -/
def Form (t : CmdTrace) (pattern : Option CString) : Prop :=
  ∃ opcode fields, t.stores = (0, [opcode]) :: fields ∧ (∀ w ∈ fields, 2 ≤ w.1) ∧
    ((∀ i, 2 ≤ i → i < 2 + opcode.toNat / 16 → ∃ w ∈ fields, w.1 ≤ i ∧ i < w.1 + w.2.length) ↔
      ∀ p ∈ pattern, 7 * 2 ≤ p.length)

/-- `parseFields` gives `x` for the arguments behind the name. The trace `y` has stored the same,
and where it ends in the help text, no argument is left for the address. The address of an LED
command is not missing. -/
def Follows (argv : List CString) (cmdBuf : ℕ → UInt8) (x : Option ((ℕ → UInt8) × List CString)) :
    Option CmdTrace → Prop
  | none => (∀ r, x = some r → r.2 = []) ∧ ∀ p ∈ ledPattern argv, 7 * 2 ≤ p.length
  | some t => x = some (t.buf cmdBuf, argv.drop t.curArgc) ∧ (∀ i ∈ t.read, i < argv.length) ∧
      t.Form (ledPattern argv) ∧ ∀ p ∈ ledPattern argv, t.curArgc < argv.length

variable {argv : List CString} {cmdBuf : ℕ → UInt8}

theorem Follows.ite {b : Bool} {x x' : Option ((ℕ → UInt8) × List CString)}
    {y y' : Option CmdTrace} (h : b = true → Follows argv cmdBuf x y)
    (h' : b = false → Follows argv cmdBuf x' y') :
    Follows argv cmdBuf (if b then x else x') (if b then y else y') := by
  cases b with
  | true => exact h rfl
  | false => exact h' rfl

theorem ledPattern_eq_none {name : CString}
    (hcontrol : strcaseEq name "led_control".toList = false)
    (htimed : strcaseEq name "led_timed_control".toList = false) :
    ledPattern (name :: argv) = none := by
  rw [ledPattern, hcontrol, htimed]
  rfl

/-- A name is compared without its case. -/
theorem ledPattern_congr {name a : CString} (h : strcaseEq name a = true) (l : List CString) :
    ledPattern (name :: l) = ledPattern (a :: l) := by
  rw [ledPattern, ledPattern, strcaseEq_congr h, strcaseEq_congr h]

/-- A command whose arguments are not enough for an LED command. -/
theorem Follows.of_none {x : Option ((ℕ → UInt8) × List CString)}
    (hpattern : ledPattern argv = none) (hx : ∀ r, x = some r → r.2 = []) :
    Follows argv cmdBuf x none := by
  refine ⟨hx, ?_⟩
  rw [hpattern]
  intro p hp
  exact nomatch hp

/-- A command without a pattern, whose fields have their sizes. -/
theorem Follows.of_covers (curArgc : ℕ) (read : List ℕ) (opcode : UInt8)
    (fields : List (ℕ × List UInt8)) (hpattern : ledPattern argv = none)
    (hread : ∀ i ∈ read, i < argv.length) (hfields : ∀ w ∈ fields, 2 ≤ w.1)
    (hcovers : ∀ i, 2 ≤ i → i < 2 + opcode.toNat / 16 →
      ∃ w ∈ fields, w.1 ≤ i ∧ i < w.1 + w.2.length) :
    Follows argv cmdBuf
      (some ((⟨curArgc, read, (0, [opcode]) :: fields⟩ : CmdTrace).buf cmdBuf, argv.drop curArgc))
      (some ⟨curArgc, read, (0, [opcode]) :: fields⟩) := by
  have hnone : ∀ p, p ∉ ledPattern argv := by
    rw [hpattern]
    intro p hp
    exact nomatch hp
  refine ⟨rfl, hread, ⟨opcode, fields, rfl, hfields, iff_of_true hcovers ?_⟩, ?_⟩
  · intro p hp
    exact absurd hp (hnone p)
  · intro p hp
    exact absurd hp (hnone p)

/-- A command of a header only. -/
theorem Follows.of_header (curArgc : ℕ) (read : List ℕ) (opcode : UInt8)
    (hpattern : ledPattern argv = none) (hread : ∀ i ∈ read, i < argv.length)
    (hsize : opcode.toNat / 16 = 0) :
    Follows argv cmdBuf
      (some ((⟨curArgc, read, [(0, [opcode])]⟩ : CmdTrace).buf cmdBuf, argv.drop curArgc))
      (some ⟨curArgc, read, [(0, [opcode])]⟩) := by
  refine Follows.of_covers curArgc read opcode [] hpattern hread ?_ ?_
  · intro w hw
    exact absurd hw List.not_mem_nil
  · intro i hi hlt
    omega

/-- A command with one field behind its header. -/
theorem Follows.of_field (curArgc : ℕ) (read : List ℕ) (opcode : UInt8) (field : List UInt8)
    (hpattern : ledPattern argv = none) (hread : ∀ i ∈ read, i < argv.length)
    (hsize : opcode.toNat / 16 = field.length) :
    Follows argv cmdBuf
      (some ((⟨curArgc, read, [(0, [opcode]), (2, field)]⟩ : CmdTrace).buf cmdBuf,
        argv.drop curArgc))
      (some ⟨curArgc, read, [(0, [opcode]), (2, field)]⟩) := by
  refine Follows.of_covers curArgc read opcode _ hpattern hread ?_ ?_
  · intro w hw
    rw [List.mem_singleton.mp hw]
  · intro i hi hlt
    rw [hsize] at hlt
    exact ⟨_, List.mem_singleton_self _, hi, hlt⟩

/-- An LED command, whose pattern is stored as far as it goes. `front` is stored in front of the
fields that both commands have, and lies behind them. -/
theorem Follows.of_led {name p : CString} (curArgc : ℕ) (read : List ℕ) (opcode : UInt8)
    (front : List (ℕ × List UInt8)) {control repetition : List UInt8}
    (hcontrol : control.length = 2) (hrepetition : repetition.length = 2)
    (hpattern : ledPattern (name :: argv) = some p) (hread : ∀ i ∈ read, i < (name :: argv).length)
    (hcur : curArgc < (name :: argv).length)
    (hopcode : 0xB0 ≤ opcode.toNat)
    (hfront : ∀ i, (∃ w ∈ front, w.1 ≤ i ∧ i < w.1 + w.2.length) ↔
      13 ≤ i ∧ i < 2 + opcode.toNat / 16) (hlo : ∀ w ∈ front, 2 ≤ w.1) :
    let t : CmdTrace := ⟨curArgc, read, (0, [opcode]) ::
      (front ++ [(2, control), (4, str2hex p), (11, repetition)])⟩
    Follows (name :: argv) cmdBuf (some (t.buf cmdBuf, (name :: argv).drop curArgc)) (some t) := by
  refine ⟨rfl, hread, ⟨opcode, _, rfl, ?_, ?_⟩, fun _ _ => hcur⟩
  · intro w hw
    rcases List.mem_append.mp hw with hw | hw
    · exact hlo w hw
    · simp only [List.mem_cons, List.not_mem_nil, or_false] at hw
      rcases hw with rfl | rfl | rfl <;> simp
  · have hcovers (i : ℕ) : (∃ w ∈ front ++ [(2, control), (4, str2hex p), (11, repetition)],
        w.1 ≤ i ∧ i < w.1 + w.2.length) ↔ (13 ≤ i ∧ i < 2 + opcode.toNat / 16) ∨
          (2 ≤ i ∧ i < 4) ∨ (4 ≤ i ∧ i < 4 + p.length / 2) ∨ (11 ≤ i ∧ i < 13) := by
      simp only [List.mem_append, List.mem_cons, List.not_mem_nil, or_false, or_and_right,
        exists_or, exists_eq_left, hfront, hcontrol, hrepetition, length_str2hex]
    simp only [hcovers, hpattern, Option.mem_some_iff, forall_eq']
    constructor
    · intro h
      -- the last byte of the pattern
      have hlast := h 10 (by omega) (by omega)
      omega
    · intro hp i hi hlt
      omega

/-- Without an argument behind its fields, an LED command leaves none. -/
theorem parseLedFields_nil {l b c d e p ty du : CString} :
    ∀ r, parseLedFields cmdBuf [l, b, c, d, e, p, ty, du] = some r → r.2 = [] := by
  intro r hr
  rw [parseLedFields] at hr
  split_ifs at hr
  cases hr
  rfl

/-- A pattern that is too long ends in the help text. -/
theorem Follows.of_long {p : CString} (hpattern : ledPattern argv = some p)
    (hp : 7 * 2 < p.length) : Follows argv cmdBuf none none := by
  refine ⟨fun r hr => (nomatch hr), fun q hq => ?_⟩
  rw [hpattern] at hq
  cases hq
  exact Nat.le_of_lt hp

/-- `led_control`. -/
theorem follows_ledControl {name : CString} (h : strcaseEq name "led_control".toList = true)
    (a : CString) (argv : List CString) (cmdBuf : ℕ → UInt8) :
    Follows (name :: a :: argv) cmdBuf (parseLedFields (memcpy cmdBuf 0 [0xB0]) (a :: argv))
      (if (name :: a :: argv).length - 1 < 9 then none
        else (CmdTrace.mk 1 [0] [(0, [0xB0])]).ledFields (name :: a :: argv)) := by
  rcases argv with _ | ⟨b, _ | ⟨c, _ | ⟨d, _ | ⟨e, _ | ⟨p, _ | ⟨ty, _ | ⟨du, _ | ⟨x, argv⟩⟩⟩⟩⟩⟩⟩⟩
  iterate 7 exact Follows.of_none (by rw [ledPattern, if_pos h]; rfl) fun r hr => nomatch hr
  · exact Follows.of_none (by rw [ledPattern, if_pos h]; rfl) parseLedFields_nil
  · have hpattern :
        ledPattern (name :: a :: b :: c :: d :: e :: p :: ty :: du :: x :: argv) = some p := by
      rw [ledPattern, if_pos h, if_neg (by simp)]
      rfl
    rw [if_neg (by simp), parseLedFields]
    by_cases hp : 7 * 2 < p.length
    · have htrace : (CmdTrace.mk 1 [0] [(0, [0xB0])]).ledFields
          (name :: a :: b :: c :: d :: e :: p :: ty :: du :: x :: argv) = none := if_pos hp
      rw [if_pos hp, htrace]
      exact Follows.of_long hpattern hp
    · have htrace : (CmdTrace.mk 1 [0] [(0, [0xB0])]).ledFields
          (name :: a :: b :: c :: d :: e :: p :: ty :: du :: x :: argv) =
          some ⟨9, [0, 1, 2, 3, 4, 5, 6, 6, 7, 8], (0, [0xB0]) ::
            ([] ++ [(2, u8Field a ++ ledColorField b c d e), (4, str2hex p),
              (11, ledRepeatField ty du)])⟩ := if_neg hp
      rw [if_neg hp, htrace]
      exact Follows.of_led 9 _ 0xB0 [] rfl rfl hpattern (by simp) (by simp) (by decide) (by simp)
        (by simp)

/-- `led_timed_control`. -/
theorem follows_ledTimedControl {name : CString}
    (hled : strcaseEq name "led_control".toList = false)
    (h : strcaseEq name "led_timed_control".toList = true) (a : CString) (argv : List CString)
    (cmdBuf : ℕ → UInt8) :
    Follows (name :: a :: argv) cmdBuf
      (parseLedFields (memcpy (memcpy cmdBuf 0 [0xF0]) 13 (u32Field a)) argv)
      (if (name :: a :: argv).length - 1 < 10 then none
        else (CmdTrace.mk 2 [0, 1] [(0, [0xF0]), (13, u32Field a)]).ledFields
          (name :: a :: argv)) := by
  have hname : ledPattern (name :: a :: argv) =
      if (a :: argv).length < 10 then none else (a :: argv)[6]? := by
    rw [ledPattern, hled, if_neg (by decide), if_pos h]
  rcases argv with
    _ | ⟨b, _ | ⟨c, _ | ⟨d, _ | ⟨e, _ | ⟨f, _ | ⟨p, _ | ⟨ty, _ | ⟨du, _ | ⟨x, argv⟩⟩⟩⟩⟩⟩⟩⟩⟩
  iterate 8 exact Follows.of_none (by rw [hname]; rfl) fun r hr => nomatch hr
  · exact Follows.of_none (by rw [hname]; rfl) parseLedFields_nil
  · have hpattern :
        ledPattern (name :: a :: b :: c :: d :: e :: f :: p :: ty :: du :: x :: argv) = some p := by
      rw [hname, if_neg (by simp)]
      rfl
    rw [if_neg (by simp), parseLedFields]
    by_cases hp : 7 * 2 < p.length
    · have htrace : (CmdTrace.mk 2 [0, 1] [(0, [0xF0]), (13, u32Field a)]).ledFields
          (name :: a :: b :: c :: d :: e :: f :: p :: ty :: du :: x :: argv) = none := if_pos hp
      rw [if_pos hp, htrace]
      exact Follows.of_long hpattern hp
    · have htrace : (CmdTrace.mk 2 [0, 1] [(0, [0xF0]), (13, u32Field a)]).ledFields
          (name :: a :: b :: c :: d :: e :: f :: p :: ty :: du :: x :: argv) =
          some ⟨10, [0, 1, 2, 3, 4, 5, 6, 7, 7, 8, 9], (0, [0xF0]) ::
            ([(13, u32Field a)] ++ [(2, u8Field b ++ ledColorField c d e f), (4, str2hex p),
              (11, ledRepeatField ty du)])⟩ := if_neg hp
      rw [if_neg hp, htrace]
      exact Follows.of_led 10 _ 0xF0 [(13, u32Field a)] rfl rfl hpattern (by simp) (by simp)
        (by decide) (by simp) (by simp)

/-- The opcode of the vendor command says the number of its bytes. -/
theorem vendorOpcode_toNat {n : ℕ} (hn : n ≤ 0x0F) :
    ((0x0F : UInt8) ||| UInt8.ofNat n <<< 4).toNat / 16 = n := by
  interval_cases n <;> rfl

/-- `vendor`. -/
theorem follows_vendor {name : CString} (a : CString) (argv : List CString)
    (hpattern : ledPattern (name :: a :: argv) = none) (cmdBuf : ℕ → UInt8) :
    let opcode : UInt8 := (0x0F : UInt8) ||| UInt8.ofNat (str2hex a).length <<< 4
    Follows (name :: a :: argv) cmdBuf
      (if 0x0F * 2 < a.length then none
        else some (memcpy (memcpy cmdBuf 0 [opcode]) 2 (str2hex a), argv))
      (if 0x0F * 2 < a.length then none
        else some ⟨2, [0, 0, 1, 1], [(0, [opcode]), (2, str2hex a)]⟩) := by
  intro opcode
  by_cases ha : 0x0F * 2 < a.length
  · rw [if_pos ha, if_pos ha]
    exact Follows.of_none hpattern fun r hr => nomatch hr
  · rw [if_neg ha, if_neg ha]
    have hlen : (str2hex a).length ≤ 0x0F := by
      rw [length_str2hex]
      omega
    exact Follows.of_field 2 [0, 0, 1, 1] opcode (str2hex a) hpattern (by simp)
      (vendorOpcode_toNat hlen)

/-- The fields of each command. -/
theorem follows_fields (name a : CString) (argv : List CString) (cmdBuf : ℕ → UInt8) :
    Follows (name :: a :: argv) cmdBuf (parseFields name (a :: argv) cmdBuf)
      ((⟨1, [0], []⟩ : CmdTrace).fields (name :: a :: argv) name) := by
  unfold parseFields fields
  refine Follows.ite (fun h => ?_) fun _ => ?_
  · exact Follows.of_header 1 [0] 0x00 (ledPattern_congr h _) (by simp) rfl
  refine Follows.ite (fun h => ?_) fun _ => ?_
  · exact Follows.of_header 1 [0] 0x04 (ledPattern_congr h _) (by simp) rfl
  refine Follows.ite (fun h => ?_) fun _ => ?_
  · exact Follows.of_field 2 [0, 1] 0x10 (u8Field a) (ledPattern_congr h _) (by simp) rfl
  refine Follows.ite (fun h => ?_) fun _ => ?_
  · exact Follows.of_field 2 [0, 1] 0x11 (u8Field a) (ledPattern_congr h _) (by simp) rfl
  refine Follows.ite (fun h => ?_) fun _ => ?_
  · have hpattern (l : List CString) : ledPattern (name :: l) = none := ledPattern_congr h l
    rcases argv with _ | ⟨b, _ | ⟨c, argv⟩⟩
    · exact Follows.of_none (hpattern _) fun r hr => nomatch hr
    · refine Follows.of_none (hpattern _) ?_
      rintro r ⟨⟩
      rfl
    · rw [if_neg (by simp)]
      exact Follows.of_field 3 [0, 1, 2] 0x20 (u8Field a ++ u8Field b) (hpattern _) (by simp)
        (by simp)
  refine Follows.ite (fun h => ?_) fun _ => ?_
  · have hpattern (l : List CString) : ledPattern (name :: l) = none := ledPattern_congr h l
    rcases argv with _ | ⟨b, _ | ⟨c, _ | ⟨d, argv⟩⟩⟩
    · exact Follows.of_none (hpattern _) fun r hr => nomatch hr
    · exact Follows.of_none (hpattern _) fun r hr => nomatch hr
    · refine Follows.of_none (hpattern _) ?_
      rintro r ⟨⟩
      rfl
    · rw [if_neg (by simp)]
      exact Follows.of_field 4 [0, 1, 2, 3] 0x60 (u8Field b ++ u8Field c ++ u32Field a)
        (hpattern _) (by simp) (by simp)
  refine Follows.ite (fun h => follows_ledControl h a argv cmdBuf) fun hled => ?_
  refine Follows.ite (fun h => follows_ledTimedControl hled h a argv cmdBuf) fun htimed => ?_
  have hpattern : ledPattern (name :: a :: argv) = none := ledPattern_eq_none hled htimed
  -- `argv[0]` is the name
  refine @Follows.ite _ _ (strcaseEq name "factory_reset".toList) _ _ _ _ (fun _ => ?_) fun _ => ?_
  · exact Follows.of_header 1 [0, 0] 0x03 hpattern (by simp) rfl
  refine Follows.ite (fun _ => ?_) fun _ => ?_
  · exact Follows.of_header 1 [0, 0] 0x01 hpattern (by simp) rfl
  refine Follows.ite (fun _ => follows_vendor a argv hpattern cmdBuf) fun _ => ?_
  exact Follows.of_none hpattern fun r hr => nomatch hr

/-- The address is read from the arguments left, and nothing is stored for it yet. -/
theorem address_spec (argv : List CString) (t : CmdTrace) (hread : ∀ i ∈ t.read, i < argv.length) :
    (t.address argv = none ∧ argv.length ≤ t.curArgc) ∨
      ∃ t' a, t.address argv = some (t', a) ∧ parseEslAddress (argv.drop t.curArgc) = some a ∧
        t'.stores = t.stores ∧ ∀ i ∈ t'.read, i < argv.length := by
  unfold address
  by_cases hend : argv.length ≤ t.curArgc
  · rw [if_pos hend]
    exact .inl ⟨rfl, hend⟩
  have hdrop : argv.drop t.curArgc = argv.getD t.curArgc [] :: argv.drop (t.curArgc + 1) := by
    rw [List.drop_eq_getElem_cons (Nat.lt_of_not_le hend), List.getD_eq_getElem]
  rw [if_neg hend]
  by_cases hlast : argv.length = t.curArgc + 1
  · rw [if_pos hlast, hdrop, List.drop_eq_nil_of_le (Nat.le_of_eq hlast)]
    -- the identifier alone
    refine .inr ⟨_, _, rfl, rfl, rfl, ?_⟩
    intro i hi
    rcases List.mem_append.mp hi with hi | hi
    · exact hread i hi
    · rw [List.mem_singleton.mp hi]
      exact Nat.lt_of_not_le hend
  · have hnext : t.curArgc + 1 < argv.length := by omega
    rw [if_neg hlast, hdrop, List.drop_eq_getElem_cons hnext]
    -- the group in front of the identifier
    refine .inr ⟨_, _, rfl, ?_, rfl, ?_⟩
    · rw [parseEslAddress, List.getD_eq_getElem _ _ hnext]
    · intro i hi
      simp only [List.mem_append, List.mem_singleton] at hi
      rcases hi with (hi | rfl) | rfl
      · exact hread i hi
      · exact Nat.lt_of_not_le hend
      · exact hnext

/-! ## What is stored -/

theorem writes_memcpy (dst : ℕ) (l : List UInt8) :
    Stores.Writes (fun m => memcpy m dst l) {i | dst ≤ i ∧ i < dst + l.length} := by
  constructor
  · intro i hi m m'
    have hset (m : ℕ → UInt8) : memcpy m dst l i = l.getD (i - dst) 0 := if_pos hi
    rw [hset, hset]
  · intro i hi m
    exact if_neg hi

/-- The stores write the offsets that they cover. -/
theorem writes_buf (t : CmdTrace) : Stores.Writes t.buf {i | t.Covers i} := by
  have hstore (w : ℕ × List UInt8) : Stores.Writes (fun m => memcpy m w.1 w.2)
      {i | w.1 ≤ i ∧ i < w.1 + w.2.length} := writes_memcpy w.1 w.2
  exact @Stores.Writes.foldl _ _ _ (fun m w => memcpy m w.1 w.2) _ hstore t.stores

theorem foldl_memcpy_of_lt {i : ℕ} {ws : List (ℕ × List UInt8)} (h : ∀ w ∈ ws, i < w.1)
    (m : ℕ → UInt8) : ws.foldl (fun m w => memcpy m w.1 w.2) m i = m i := by
  induction ws generalizing m with
  | nil => rfl
  | cons w ws ih =>
    rw [List.foldl_cons, ih fun v hv => h v (List.mem_cons_of_mem _ hv)]
    exact memcpy_of_lt _ _ (h w List.mem_cons_self)

/-- The stores of a command with the identifier of the label. -/
theorem Form.store_eslId {t : CmdTrace} {pattern : Option CString} (h : t.Form pattern)
    (eslId : UInt8) :
    ∃ opcode : UInt8, (∀ m, (t.store 1 [eslId]).buf m 0 = opcode) ∧
      ((∀ i < 2 + opcode.toNat / 16, (t.store 1 [eslId]).Covers i) ↔
        ∀ p ∈ pattern, 7 * 2 ≤ p.length) := by
  obtain ⟨opcode, fields, hstores, hfields, hcovers⟩ := h
  have hstores' : (t.store 1 [eslId]).stores = (0, [opcode]) :: (fields ++ [(1, [eslId])]) := by
    rw [stores_store, hstores]
    rfl
  refine ⟨opcode, fun m => ?_, ?_⟩
  · rw [buf, hstores', List.foldl_cons, foldl_memcpy_of_lt]
    · rfl
    · intro w hw
      rcases List.mem_append.mp hw with hw | hw
      · exact Nat.lt_of_lt_of_le Nat.two_pos (hfields w hw)
      · rw [List.mem_singleton.mp hw]
        exact Nat.one_pos
  · -- the header is always stored
    rw [← hcovers]
    unfold Covers
    rw [hstores']
    constructor
    · intro h i hi hlt
      obtain ⟨w, hw, hlo, hhi⟩ := h i hlt
      simp only [List.mem_cons, List.mem_append, List.not_mem_nil, or_false] at hw
      rcases hw with rfl | hw | rfl
      · exact absurd hhi (by simp; omega)
      · exact ⟨w, hw, hlo, hhi⟩
      · exact absurd hhi (by simp; omega)
    · intro h i hlt
      rcases i with _ | _ | i
      · exact ⟨_, List.mem_cons_self, Nat.le_refl _, Nat.one_pos⟩
      · exact ⟨(1, [eslId]), by simp, Nat.le_refl _, Nat.lt_succ_self _⟩
      · obtain ⟨w, hw, hcover⟩ := h (i + 2) (Nat.le_add_left _ _) hlt
        exact ⟨w, List.mem_cons_of_mem _ (List.mem_append_left _ hw), hcover⟩

end CmdTrace

/-- `cmd_parse` ends in the help text, or its trace stores the command. -/
theorem cmdParse_cases (argv : List CString) :
    (traceCmdParse argv = none ∧ (∀ cmdBuf, cmdParse argv cmdBuf = none) ∧
        ∀ p ∈ ledPattern argv, 7 * 2 ≤ p.length) ∨
      ∃ (t : CmdTrace) (address : EslAddress) (opcode : UInt8),
        traceCmdParse argv = some (t, address) ∧
        (∀ cmdBuf, cmdParse argv cmdBuf = some (t.buf cmdBuf, address)) ∧
        (∀ i ∈ t.read, i < argv.length) ∧ (∀ m, t.buf m 0 = opcode) ∧
        ((∀ i < 2 + opcode.toNat / 16, t.Covers i) ↔ ∀ p ∈ ledPattern argv, 7 * 2 ≤ p.length) := by
  -- without a name or without a field there is only the help text
  rcases argv with _ | ⟨name, _ | ⟨a, argv⟩⟩
  · exact .inl ⟨rfl, fun _ => rfl, fun p hp => nomatch hp⟩
  · refine .inl ⟨rfl, fun _ => rfl, fun p hp => ?_⟩
    have hpattern : ledPattern [name] = none := by
      rw [ledPattern]
      split_ifs <;> rfl
    rw [hpattern] at hp
    exact nomatch hp
  have hfollows := CmdTrace.follows_fields name a argv
  have hparse (cmdBuf : ℕ → UInt8) : cmdParse (name :: a :: argv) cmdBuf =
      (parseFields name (a :: argv) cmdBuf).bind fun r =>
        (parseEslAddress r.2).bind fun address =>
          some (memcpy r.1 1 [UInt8.ofBitVec address.eslId], address) := rfl
  have htrace : traceCmdParse (name :: a :: argv) =
      ((⟨1, [0], []⟩ : CmdTrace).fields (name :: a :: argv) name).bind fun t =>
        (t.address (name :: a :: argv)).bind fun r =>
          some (r.1.store 1 [UInt8.ofBitVec r.2.eslId], r.2) := rfl
  cases hfields : (⟨1, [0], []⟩ : CmdTrace).fields (name :: a :: argv) name with
  | none =>
    rw [hfields] at hfollows htrace
    refine .inl ⟨htrace, fun cmdBuf => ?_, (hfollows fun _ => 0).2⟩
    rw [hparse]
    cases hr : parseFields name (a :: argv) cmdBuf with
    | none => rfl
    | some r =>
      rw [Option.bind_some, (hfollows cmdBuf).1 r hr]
      rfl
  | some t =>
    rw [hfields] at hfollows htrace
    obtain ⟨-, hread, hform, hcur⟩ := hfollows fun _ => 0
    rcases t.address_spec _ hread with ⟨haddress, hend⟩ |
      ⟨t', address, haddress, heq, hstores, hread'⟩
    · -- no argument is left for the address
      refine .inl ⟨?_, fun cmdBuf => ?_, fun p hp => absurd (hcur p hp) (Nat.not_lt.mpr hend)⟩
      · rw [htrace, Option.bind_some, haddress]
        rfl
      · rw [hparse, (hfollows cmdBuf).1, Option.bind_some, List.drop_eq_nil_of_le hend]
        rfl
    · -- the address is read behind the fields, and its ESL id goes to the second byte
      have hform' : t'.Form (ledPattern (name :: a :: argv)) := by
        unfold CmdTrace.Form at hform ⊢
        rwa [hstores]
      obtain ⟨opcode, hopcode, hcovers⟩ := hform'.store_eslId (UInt8.ofBitVec address.eslId)
      refine .inr ⟨t'.store 1 [UInt8.ofBitVec address.eslId], address, opcode, ?_, fun cmdBuf => ?_,
        hread', hopcode, hcovers⟩
      · rw [htrace, Option.bind_some, haddress]
        rfl
      · rw [hparse, (hfollows cmdBuf).1, Option.bind_some, heq, CmdTrace.buf, CmdTrace.buf,
          CmdTrace.stores_store, hstores, List.foldl_append]
        rfl

section

variable {getCommandSize : UInt8 → UInt8 → ℕ}

/-- The bytes are those of any `cmdBuf` exactly if a pattern has all its digits. -/
theorem encodes_iff
    (hsize : ∀ opcode eslId, getCommandSize opcode eslId = 2 + opcode.toNat / 16)
    (argv : List CString) :
    Encodes getCommandSize argv ↔ ∀ p ∈ ledPattern argv, 7 * 2 ≤ p.length := by
  rcases cmdParse_cases argv with
    ⟨-, hparse, hpattern⟩ | ⟨t, address, opcode, htrace, hparse, hread, hopcode, hcovers⟩
  · refine iff_of_true (fun cmdBuf hne => absurd ?_ hne) hpattern
    rw [cmdParseSize, hparse]
  have hlt : opcode.toNat < 256 := opcode.toNat_lt
  have hret (cmdBuf : ℕ → UInt8) :
      cmdParseSize getCommandSize argv cmdBuf = 2 + opcode.toNat / 16 := by
    rw [cmdParseSize, hparse]
    dsimp only
    rw [hsize, hopcode, u8_of_lt (by omega)]
  have hbytes (cmdBuf : ℕ → UInt8) : cmdBytes getCommandSize (cmdParse argv cmdBuf) =
      some (bytes (t.buf cmdBuf) (2 + opcode.toNat / 16)) := by
    rw [cmdBytes, hparse, Option.map_some]
    dsimp only
    rw [hsize, hopcode]
  -- an offset that is not stored shows what was there
  have hbyte : Nontrivial UInt8 := ⟨0, 1, by decide⟩
  have hagree := t.writes_buf.agree_iff {i | i < 2 + opcode.toNat / 16}
  rw [← hcovers]
  refine Iff.trans ?_ hagree
  constructor
  · intro h m m' i hi
    have heq := (h m' (by rw [hret]; omega)).2.2 m
    rw [hbytes, hbytes] at heq
    have hget := congrArg (fun l => l.getD i 0) (Option.some.inj heq.2)
    simpa only [getD_bytes _ hi] using hget
  · intro h cmdBuf _
    refine ⟨fun t' address' htrace' => ?_, ?_, fun cmdBuf' => ⟨?_, ?_⟩⟩
    · rw [htrace] at htrace'
      cases htrace'
      exact hread
    · rw [hret]
      have hmax : cmdRspMaxLength = 17 := rfl
      omega
    · rw [hret, hret]
    · rw [hbytes, hbytes]
      exact congrArg some (bytes_congr fun i hi => h cmdBuf' cmdBuf i hi)

/-- The encoder is a function of its arguments exactly if the pattern of an LED command has all its
digits. -/
theorem cmdParse_encodes
    (hsize : ∀ opcode eslId, getCommandSize opcode eslId = 2 + opcode.toNat / 16)
    (argv : List CString) :
    Encodes getCommandSize argv ↔ ∀ p ∈ ledPattern argv, 7 * 2 ≤ p.length :=
  encodes_iff hsize argv

end

/-- An LED command with a pattern. -/
def ledArgs (pattern : CString) : List CString :=
  ["led_control".toList, "0".toList, "1".toList, "1".toList, "1".toList, "3".toList, pattern,
    "0".toList, "10".toList, "1".toList]

/-- A pattern of seven bytes. -/
theorem cmdParse_encodes_led : Encodes headerSize (ledArgs "A5A5A5A5A5A5A5".toList) :=
  (cmdParse_encodes (fun _ _ => rfl) _).mpr (by decide)

/-- A pattern of three bytes. -/
theorem not_cmdParse_encodes : ¬ Encodes headerSize (ledArgs "A5A5A5".toList) := by
  have hsize (opcode eslId : UInt8) : headerSize opcode eslId = 2 + opcode.toNat / 16 := rfl
  rw [encodes_iff hsize]
  decide

end TlBleSdk.Eslp
