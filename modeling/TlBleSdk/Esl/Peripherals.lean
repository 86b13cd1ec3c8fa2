import TlBleSdk.Esl.Led
import TlBleSdk.Lib.Registry

/-!
# The peripherals of an ESL

The tables of the sensors, the displays and the LEDs: `app_sensor.c`, `app_display.c` and
`app_led.c`. What an application registers is an interface with the functions to be called, and each
of these may be missing. A function is known by its pointer, of any type, and a call of it is told
by naming it. Where the code would read from a null pointer, the result is `none`.

The tables are compared with registries that accept what is valid while there is room.
-/

namespace TlBleSdk.Esl

open Registry

/-! ## Sensors -/

/-- `APP_SENSOR_MAX_SENSORS`. -/
def appSensorMaxSensors : ℕ := 4

/-- `app_sensor_config_t`: one of the two sizes. -/
inductive AppSensorConfig where
  | size0 (value : UInt16)
  | size1 (value : UInt32)
deriving DecidableEq

/-- `app_sensor_iface_t`. -/
structure AppSensorIface (φ : Type*) where
  config : AppSensorConfig
  init : Option φ
  read : Option φ
  loop : Option φ

variable {φ : Type*}

/-- The table `sensors`: `in_use` and `iface`. -/
abbrev Sensors (φ : Type*) : Type _ := ℕ → Registry.Slot (AppSensorIface φ)

/-- `app_sensor_get_num_sensors`. -/
def appSensorGetNumSensors (sensors : Sensors φ) : ℕ :=
  (List.range appSensorMaxSensors).foldl (fun ret i => ret + if (sensors i).inUse then 1 else 0) 0

/-- `app_sensor_register`: the id, if it returns true, the `init` that is called, and the table. -/
def appSensorRegister (sensors : Sensors φ) (iface : Option (AppSensorIface φ)) :
    (Option ℕ × Option φ) × Sensors φ :=
  match iface with
  | none => ((none, none), sensors)
  | some f =>
    if f.read.isNone then ((none, none), sensors)
    else
      match firstFree appSensorMaxSensors sensors with
      | some i => ((some i, f.init), Function.update sensors i ⟨true, some f⟩)
      | none => ((none, none), sensors)

/-- `app_sensor_loop`: the functions that are called. -/
def appSensorLoop (sensors : Sensors φ) : List φ :=
  (List.range appSensorMaxSensors).filterMap fun i =>
    -- the sensors in use are passed over
    if (sensors i).inUse then none else (sensors i).entry.bind AppSensorIface.loop

/-- `app_sensor_read`: the function whose result is returned, or false. -/
def appSensorRead (sensors : Sensors φ) (sensorId : ℕ) : Option (Option φ) :=
  if sensorId < appSensorMaxSensors ∧ (sensors sensorId).inUse then
    (sensors sensorId).entry.bind fun iface => iface.read.map some
  else some none

/-- `app_sensor_get_info`. -/
def appSensorGetInfo (sensors : Sensors φ) (sensorId : ℕ) : Option (Option AppSensorConfig) :=
  if sensorId < appSensorMaxSensors ∧ (sensors sensorId).inUse then
    (sensors sensorId).entry.map fun iface => some iface.config
  else some none

/-! ## Displays -/

/-- `APP_DISPLAY_MAX_DISPLAYS`. -/
def appDisplayMaxDisplays : ℕ := 4

/-- `app_display_iface_t`. -/
structure AppDisplayIface (φ : Type*) where
  width : UInt16
  heigth : UInt16
  imageSize : UInt16
  type : UInt8
  init : Option φ
  image : Option φ
  isBusy : Option φ
  loop : Option φ
  clean : Option φ
  getBuffer : Option φ

/-- The table `displays`: `active` and `config`. -/
abbrev Displays (φ : Type*) : Type _ := ℕ → Registry.Slot (AppDisplayIface φ)

/-- `app_display_get_num_displays`. -/
def appDisplayGetNumDisplays (displays : Displays φ) : ℕ :=
  (List.range appDisplayMaxDisplays).foldl
    (fun ret i => ret + if (displays i).inUse then 1 else 0) 0

/-- `app_display_register`: the id, if it returns true, the `init` that is called, and the
table. -/
def appDisplayRegister (displays : Displays φ) (config : Option (AppDisplayIface φ)) :
    Option ((Option ℕ × Option φ) × Displays φ) :=
  match firstFree appDisplayMaxDisplays displays with
  | some i =>
    -- `config->init` is read whether there is a `config` or not
    config.map fun c => ((some i, c.init), Function.update displays i ⟨true, some c⟩)
  | none => some ((none, none), displays)

/-- `app_display_loop`: the functions that are called. -/
def appDisplayLoop (displays : Displays φ) : List φ :=
  (List.range appDisplayMaxDisplays).filterMap fun i =>
    if !(displays i).inUse then none else (displays i).entry.bind AppDisplayIface.loop

/-- A request to a display: the function whose result is returned, or false. -/
def displayRequest (request : AppDisplayIface φ → Option φ) (displays : Displays φ)
    (displayId : ℕ) : Option φ :=
  if displayId < appDisplayMaxDisplays ∧ (displays displayId).inUse then
    (displays displayId).entry.bind request
  else none

/-- `app_display_image`. -/
def appDisplayImage (displays : Displays φ) (displayId : ℕ) : Option φ :=
  displayRequest AppDisplayIface.image displays displayId

/-- `app_display_get_buffer`. -/
def appDisplayGetBuffer (displays : Displays φ) (displayId : ℕ) : Option φ :=
  displayRequest AppDisplayIface.getBuffer displays displayId

/-- `app_display_is_busy`. -/
def appDisplayIsBusy (displays : Displays φ) (displayId : ℕ) : Option φ :=
  displayRequest AppDisplayIface.isBusy displays displayId

/-- `app_display_clean`. -/
def appDisplayClean (displays : Displays φ) (displayId : ℕ) : Option φ :=
  displayRequest AppDisplayIface.clean displays displayId

/-- What `app_display_get_info` writes: the width, the height, the type and the size. -/
def AppDisplayIface.info (config : AppDisplayIface φ) : UInt16 × UInt16 × UInt8 × UInt16 :=
  (config.width, config.heigth, config.type, config.imageSize)

/-- `app_display_get_info`. -/
def appDisplayGetInfo (displays : Displays φ) (displayId : ℕ) :
    Option (Option (UInt16 × UInt16 × UInt8 × UInt16)) :=
  if displayId < appDisplayMaxDisplays ∧ (displays displayId).inUse then
    (displays displayId).entry.map fun config => some config.info
  else some none

/-! ## LEDs -/

/-- `app_led_config_t`. -/
structure AppLedConfig where
  colorRed : BitVec 2
  colorGreen : BitVec 2
  colorBlue : BitVec 2
  type : BitVec 2
deriving DecidableEq

/-- `app_led_iface_t`. -/
structure AppLedIface (φ : Type*) where
  config : AppLedConfig
  apply : Option φ
  toggle : Option φ

/-- The table `leds`, with the `iface` of each. -/
structure LedTable (φ : Type*) where
  leds : Leds
  iface : ℕ → Option (AppLedIface φ)

/-- The slots of the table: `in_use` and `iface`. -/
def LedTable.slots (t : LedTable φ) : ℕ → Registry.Slot (AppLedIface φ) := fun i =>
  ⟨(t.leds.leds i).inUse, t.iface i⟩

/-- `app_led_get_num_leds`. -/
def appLedGetNumLeds (t : LedTable φ) : ℕ :=
  (List.range appLedMaxLeds).foldl (fun ret i => ret + if (t.leds.leds i).inUse then 1 else 0) 0

/-- `app_led_register`: the id, if it returns true, and the table. -/
def appLedRegister (t : LedTable φ) (iface : Option (AppLedIface φ)) : Option ℕ × LedTable φ :=
  match iface with
  | none => (none, t)
  | some f =>
    if f.apply.isNone ∨ f.toggle.isNone then (none, t)
    else
      match firstFree appLedMaxLeds t.slots with
      | some i =>
        (some i, {
          leds := { t.leds with
            leds := Function.update t.leds.leds i { t.leds.leds i with inUse := true } }
          iface := Function.update t.iface i (some f) })
      | none => (none, t)

/-- `app_led_get_info`. -/
def appLedGetInfo (t : LedTable φ) (ledId : ℕ) : Option AppLedConfig :=
  if ledId < appLedMaxLeds ∧ (t.leds.leds ledId).inUse then (t.iface ledId).map AppLedIface.config
  else none

/-- `app_led_command_apply`: the `apply` that is called, if it returns true, and the table. -/
def appLedCommandApply (t : LedTable φ) (ledId : ℕ) (command : AppLedCommand) :
    Option (Option φ × LedTable φ) :=
  if ledId < appLedMaxLeds ∧ (t.leds.leds ledId).inUse then
    (t.iface ledId).bind fun iface => iface.apply.map fun apply =>
      (some apply, { t with leds := t.leds.commandApply ledId command })
  else some (none, t)

/-- `app_led_is_active`. -/
def appLedIsActive (t : LedTable φ) (ledId : ℕ) : Bool :=
  if ledId < appLedMaxLeds ∧ (t.leds.leds ledId).inUse then (t.leds.leds ledId).commandActive
  else false

/-- `app_led_loop`. -/
def appLedLoop (t : LedTable φ) : LedTable φ := { t with leds := t.leds.loop }

/-! ## The calls -/

/-- The three tables. -/
structure Peripherals (φ : Type*) where
  sensors : Sensors φ
  displays : Displays φ
  leds : LedTable φ

/-- The tables after the start. -/
def Peripherals.init : Peripherals φ := ⟨empty, empty, ⟨Leds.init, fun _ => none⟩⟩

/-- A registration, or a call that comes `delay` ticks after the last one and changes a LED. -/
inductive PeripheralCall (φ : Type*) where
  | sensorRegister (iface : Option (AppSensorIface φ))
  | displayRegister (config : Option (AppDisplayIface φ))
  | ledRegister (iface : Option (AppLedIface φ))
  | ledCommandApply (delay ledId : ℕ) (command : AppLedCommand)
  | ledLoop (delay : ℕ)

/-- Some time passes. -/
def LedTable.wait (t : LedTable φ) (delay : ℕ) : LedTable φ :=
  { t with leds := { t.leds with now := t.leds.now + delay } }

/-- A call: the tables, and the id of the peripheral that it comes to with the function that is
called. -/
def Peripherals.call (s : Peripherals φ) :
    PeripheralCall φ → Option (Peripherals φ × Option ℕ × Option φ)
  | .sensorRegister iface =>
    let r := appSensorRegister s.sensors iface
    some ({ s with sensors := r.2 }, r.1)
  | .displayRegister config =>
    (appDisplayRegister s.displays config).map fun r => ({ s with displays := r.2 }, r.1)
  | .ledRegister iface =>
    let r := appLedRegister s.leds iface
    some ({ s with leds := r.2 }, r.1, none)
  | .ledCommandApply delay ledId command =>
    (appLedCommandApply (s.leds.wait delay) ledId command).map fun r =>
      ({ s with leds := r.2 }, r.1.map fun _ => ledId, r.1)
  | .ledLoop delay => some ({ s with leds := appLedLoop (s.leds.wait delay) }, none, none)

/-! ## The registries -/

/-- What was accepted, in order. -/
structure Accepted (φ : Type*) where
  sensors : List (AppSensorIface φ)
  displays : List (AppDisplayIface φ)
  leds : List (AppLedIface φ)

/-- A sensor can be read. -/
def AppSensorIface.valid (f : AppSensorIface φ) : Bool := f.read.isSome

/-- A LED can be switched. -/
def AppLedIface.valid (f : AppLedIface φ) : Bool := f.apply.isSome && f.toggle.isSome

/-- A call: what is accepted, and the id of the peripheral that it comes to with the function that
is called. -/
def Accepted.call (a : Accepted φ) : PeripheralCall φ → Accepted φ × Option ℕ × Option φ
  | .sensorRegister iface =>
    let r := accept appSensorMaxSensors AppSensorIface.valid iface a.sensors
    ({ a with sensors := r.2 }, r.1, r.1.bind fun _ => iface.bind AppSensorIface.init)
  | .displayRegister config =>
    let r := accept appDisplayMaxDisplays (fun _ => true) config a.displays
    ({ a with displays := r.2 }, r.1, r.1.bind fun _ => config.bind AppDisplayIface.init)
  | .ledRegister iface =>
    let r := accept appLedMaxLeds AppLedIface.valid iface a.leds
    ({ a with leds := r.2 }, r.1, none)
  | .ledCommandApply _ ledId _ =>
    (a, a.leds[ledId]?.map fun _ => ledId, a.leds[ledId]?.bind AppLedIface.apply)
  | .ledLoop _ => (a, none, none)

/-- The tables count what was accepted, a request comes to the peripheral with the id, what is
refused changes nothing, and a pass comes to each peripheral once. -/
structure Serves (s : Peripherals φ) (a : Accepted φ) : Prop where
  numSensors : appSensorGetNumSensors s.sensors = a.sensors.length
  numDisplays : appDisplayGetNumDisplays s.displays = a.displays.length
  numLeds : appLedGetNumLeds s.leds = a.leds.length
  sensorRefused : ∀ iface, (appSensorRegister s.sensors iface).1.1 = none →
    (appSensorRegister s.sensors iface).2 = s.sensors
  displayRefused : ∀ config r, appDisplayRegister s.displays config = some r → r.1.1 = none →
    r.2 = s.displays
  ledRefused : ∀ iface, (appLedRegister s.leds iface).1 = none →
    (appLedRegister s.leds iface).2 = s.leds
  sensorRead : ∀ id, ∃ r, appSensorRead s.sensors id = some r ∧
    r = a.sensors[id]?.bind AppSensorIface.read ∧ (r.isSome ↔ id < a.sensors.length)
  sensorInfo : ∀ id, appSensorGetInfo s.sensors id =
    some (a.sensors[id]?.map AppSensorIface.config)
  displayImage : ∀ id, appDisplayImage s.displays id = a.displays[id]?.bind AppDisplayIface.image
  displayBuffer : ∀ id, appDisplayGetBuffer s.displays id =
    a.displays[id]?.bind AppDisplayIface.getBuffer
  displayBusy : ∀ id, appDisplayIsBusy s.displays id = a.displays[id]?.bind AppDisplayIface.isBusy
  displayClean : ∀ id, appDisplayClean s.displays id = a.displays[id]?.bind AppDisplayIface.clean
  displayInfo : ∀ id, appDisplayGetInfo s.displays id =
    some (a.displays[id]?.map AppDisplayIface.info)
  ledInfo : ∀ id, appLedGetInfo s.leds id = a.leds[id]?.map AppLedIface.config
  ledCommand : ∀ id command, ∃ r, appLedCommandApply s.leds id command = some r ∧
    r.1 = a.leds[id]?.bind AppLedIface.apply ∧ (r.1.isSome ↔ id < a.leds.length)
  ledActive : ∀ id, appLedIsActive s.leds id =
    (decide (id < a.leds.length) && (s.leds.leds.leds id).commandActive)
  sensorLoop : appSensorLoop s.sensors = a.sensors.filterMap AppSensorIface.loop
  displayLoop : appDisplayLoop s.displays = a.displays.filterMap AppDisplayIface.loop
  ledLoop : ∀ id, (appLedLoop s.leds).leds.leds id =
    if id < a.leds.length then (s.leds.leds.leds id).idLoop s.leds.leds.now
    else s.leds.leds.leds id

/-- No sensor with a `loop` is accepted, and no null display is registered while there is room. -/
def Accepted.Fits (a : Accepted φ) : PeripheralCall φ → Prop
  | .sensorRegister (some f) =>
    f.valid → a.sensors.length < appSensorMaxSensors → f.loop = none
  | .displayRegister none => appDisplayMaxDisplays ≤ a.displays.length
  | _ => True

/-! ## The tables hold what was accepted -/

/-- The slots hold the peripherals that were accepted. These are valid, and no sensor has a
`loop`. -/
structure Implements (s : Peripherals φ) (a : Accepted φ) : Prop where
  sensors : Holds appSensorMaxSensors s.sensors a.sensors
  displays : Holds appDisplayMaxDisplays s.displays a.displays
  leds : Holds appLedMaxLeds s.leds.slots a.leds
  sensors_valid : ∀ f ∈ a.sensors, f.valid = true
  leds_valid : ∀ f ∈ a.leds, f.valid = true
  no_loop : ∀ f ∈ a.sensors, f.loop = none

theorem implements_init : Implements (Peripherals.init : Peripherals φ) ⟨[], [], []⟩ where
  sensors := holds_empty _
  displays := holds_empty _
  leds := holds_empty _
  sensors_valid := nofun
  leds_valid := nofun
  no_loop := nofun

/-! ## LEDs stay in use -/

theorem Led.inUse_apply (l : Led) : l.apply.inUse = l.inUse := by
  rw [Led.apply]
  split <;> rfl

theorem Led.inUse_commandApply (now : ℕ) (l : Led) (command : AppLedCommand) :
    (l.commandApply now command).inUse = l.inUse :=
  Led.inUse_apply _

theorem Led.inUse_moveBit (now : ℕ) (l : Led) : (l.moveBit now).inUse = l.inUse := by
  obtain ⟨inUse, _, _, _, _, _, _, _, _, _⟩ := l
  show Led.inUse _ = inUse
  rfl

theorem Led.inUse_tick (now : ℕ) (l : Led) : (l.tick now).inUse = l.inUse := by
  obtain ⟨inUse, _, _, _, _, _, _, _, _, _⟩ := l
  show Led.inUse _ = inUse
  rfl

theorem Led.inUse_passBit (now : ℕ) (l : Led) : (l.passBit now).inUse = l.inUse := by
  rw [Led.passBit, apply_ite Led.inUse, Led.inUse_moveBit, ite_self]

theorem Led.inUse_passSecond (now : ℕ) (l : Led) : (l.passSecond now).inUse = l.inUse := by
  rw [Led.passSecond, apply_ite Led.inUse, Led.inUse_tick, ite_self]

theorem Led.inUse_idLoop (now : ℕ) (l : Led) : (l.idLoop now).inUse = l.inUse := by
  -- what is behind the two timers only drives the level
  have hlevel : ∀ (ticked : Led) (due : Bool), ticked.inUse = l.inUse →
      (if !l.commandActive then l else if l.currentCommand.repeatDuration = 0 then l
        else if ticked.currentCommand.repeatDuration = 0 then ticked.endCommand.apply
        else if due then ticked.apply else ticked).inUse = l.inUse := by
    intro ticked due hticked
    have hend : ticked.endCommand.inUse = l.inUse := hticked
    simp only [apply_ite Led.inUse, Led.inUse_apply, hticked, hend, ite_self]
  refine hlevel ((l.passBit now).passSecond now) (l.bitOver now) ?_
  rw [Led.inUse_passSecond, Led.inUse_passBit]

theorem slots_commandApply (t : LedTable φ) (id : ℕ) (command : AppLedCommand) :
    ({ t with leds := t.leds.commandApply id command } : LedTable φ).slots = t.slots := by
  have huse : ∀ i, ((t.leds.commandApply id command).leds i).inUse = (t.leds.leds i).inUse := by
    intro i
    rw [Leds.commandApply]
    split
    · by_cases hi : i = id
      · rw [hi]
        exact (congrArg Led.inUse (Function.update_self ..)).trans (Led.inUse_commandApply ..)
      · exact congrArg Led.inUse (Function.update_of_ne hi ..)
    · rfl
  funext i
  exact congrArg (fun used => Registry.Slot.mk used (t.iface i)) (huse i)

theorem slots_appLedLoop (t : LedTable φ) : (appLedLoop t).slots = t.slots := by
  have huse : ∀ i, (t.leds.loop.leds i).inUse = (t.leds.leds i).inUse := by
    intro i
    show (if _ then (t.leds.leds i).idLoop t.leds.now else t.leds.leds i).inUse = _
    split
    · exact Led.inUse_idLoop ..
    · rfl
  funext i
  exact congrArg (fun used => Registry.Slot.mk used (t.iface i)) (huse i)

section Implements

variable {s : Peripherals φ} {a : Accepted φ}

/-- No sensor is ever called by the loop: the ones in use are passed over, and the others have no
interface. -/
theorem appSensorLoop_eq_nil {sensors : Sensors φ} {l : List (AppSensorIface φ)}
    (h : Holds appSensorMaxSensors sensors l) : appSensorLoop sensors = [] := by
  rw [appSensorLoop, List.filterMap_eq_nil_iff]
  intro i hi
  rw [List.mem_range] at hi
  rw [h.inUse hi, h.entry hi]
  split
  case isTrue => rfl
  case isFalse hfree =>
    rw [decide_eq_true_eq] at hfree
    rw [List.getElem?_eq_none (Nat.le_of_not_lt hfree), Option.bind_none]

theorem appDisplayLoop_eq {displays : Displays φ} {l : List (AppDisplayIface φ)}
    (h : Holds appDisplayMaxDisplays displays l) :
    appDisplayLoop displays = l.filterMap AppDisplayIface.loop := by
  rw [appDisplayLoop, ← h.filterMap_range]
  refine List.filterMap_congr fun i hi => ?_
  rw [List.mem_range] at hi
  rw [h.inUse hi, h.entry hi]
  by_cases hlt : i < l.length
  · rw [decide_eq_true hlt]
    rfl
  · rw [List.getElem?_eq_none (Nat.le_of_not_lt hlt), Option.bind_none, ite_self]

theorem displayRequest_eq {displays : Displays φ} {l : List (AppDisplayIface φ)}
    (h : Holds appDisplayMaxDisplays displays l) (request : AppDisplayIface φ → Option φ) (id : ℕ) :
    displayRequest request displays id = l[id]?.bind request := by
  rw [displayRequest]
  rcases h.cases id with ⟨x, hx, -, huse, hentry⟩ | ⟨hnone, -, hfree⟩
  · rw [if_pos huse, hentry, hx]
  · rw [if_neg hfree, hnone, Option.bind_none]

theorem appDisplayGetInfo_eq {displays : Displays φ} {l : List (AppDisplayIface φ)}
    (h : Holds appDisplayMaxDisplays displays l) (id : ℕ) :
    appDisplayGetInfo displays id = some (l[id]?.map AppDisplayIface.info) := by
  rw [appDisplayGetInfo]
  rcases h.cases id with ⟨x, hx, -, huse, hentry⟩ | ⟨hnone, -, hfree⟩
  · rw [if_pos huse, hentry, hx]
    rfl
  · rw [if_neg hfree, hnone]
    rfl

theorem appSensorGetInfo_eq {sensors : Sensors φ} {l : List (AppSensorIface φ)}
    (h : Holds appSensorMaxSensors sensors l) (id : ℕ) :
    appSensorGetInfo sensors id = some (l[id]?.map AppSensorIface.config) := by
  rw [appSensorGetInfo]
  rcases h.cases id with ⟨x, hx, -, huse, hentry⟩ | ⟨hnone, -, hfree⟩
  · rw [if_pos huse, hentry, hx]
    rfl
  · rw [if_neg hfree, hnone]
    rfl

/-- A read calls the function of the sensor, which is there. -/
theorem appSensorRead_eq {sensors : Sensors φ} {l : List (AppSensorIface φ)}
    (h : Holds appSensorMaxSensors sensors l) (hvalid : ∀ f ∈ l, f.valid = true) (id : ℕ) :
    ∃ r, appSensorRead sensors id = some r ∧ r = l[id]?.bind AppSensorIface.read ∧
      (r.isSome ↔ id < l.length) := by
  rw [appSensorRead]
  rcases h.cases id with ⟨x, hx, hlt, huse, hentry⟩ | ⟨hnone, hge, hfree⟩
  · obtain ⟨read, hread⟩ := Option.isSome_iff_exists.1 (hvalid x (List.mem_of_getElem? hx))
    rw [if_pos huse, hentry, hx, Option.bind_some, Option.bind_some, hread]
    exact ⟨some read, rfl, rfl, iff_of_true rfl hlt⟩
  · rw [if_neg hfree, hnone]
    exact ⟨none, rfl, rfl, iff_of_false Bool.false_ne_true hge⟩

/-- `Registry.Holds.cases` for the table of the LEDs. -/
theorem led_cases {t : LedTable φ} {l : List (AppLedIface φ)}
    (h : Holds appLedMaxLeds t.slots l) (id : ℕ) :
    (∃ x, l[id]? = some x ∧ id < l.length ∧
      (id < appLedMaxLeds ∧ (t.leds.leds id).inUse = true) ∧ t.iface id = some x) ∨
      (l[id]? = none ∧ ¬ id < l.length ∧
        ¬ (id < appLedMaxLeds ∧ (t.leds.leds id).inUse = true)) :=
  h.cases id

theorem appLedGetInfo_eq {t : LedTable φ} {l : List (AppLedIface φ)}
    (h : Holds appLedMaxLeds t.slots l) (id : ℕ) :
    appLedGetInfo t id = l[id]?.map AppLedIface.config := by
  rw [appLedGetInfo]
  rcases led_cases h id with ⟨x, hx, -, huse, hiface⟩ | ⟨hnone, -, hfree⟩
  · rw [if_pos huse, hiface, hx]
  · rw [if_neg hfree, hnone]
    rfl

/-- A command calls the function of the LED, which is there. The LEDs in use stay so. -/
theorem appLedCommandApply_eq {t : LedTable φ} {l : List (AppLedIface φ)}
    (h : Holds appLedMaxLeds t.slots l) (hvalid : ∀ f ∈ l, f.valid = true) (id : ℕ)
    (command : AppLedCommand) :
    ∃ r, appLedCommandApply t id command = some r ∧ r.1 = l[id]?.bind AppLedIface.apply ∧
      (r.1.isSome ↔ id < l.length) ∧ r.2.slots = t.slots := by
  rw [appLedCommandApply]
  rcases led_cases h id with ⟨x, hx, hlt, huse, hiface⟩ | ⟨hnone, hge, hfree⟩
  · have hx' : x.apply.isSome = true :=
      (Bool.and_eq_true_iff.1 (hvalid x (List.mem_of_getElem? hx))).1
    obtain ⟨apply, happly⟩ := Option.isSome_iff_exists.1 hx'
    rw [if_pos huse, hiface, hx, Option.bind_some, Option.bind_some, happly]
    exact ⟨_, rfl, rfl, iff_of_true rfl hlt, slots_commandApply t id command⟩
  · rw [if_neg hfree, hnone]
    exact ⟨_, rfl, rfl, iff_of_false Bool.false_ne_true hge, rfl⟩

theorem appLedIsActive_eq {t : LedTable φ} {l : List (AppLedIface φ)}
    (h : Holds appLedMaxLeds t.slots l) (id : ℕ) :
    appLedIsActive t id = (decide (id < l.length) && (t.leds.leds id).commandActive) := by
  rw [appLedIsActive]
  rcases led_cases h id with ⟨-, -, hlt, huse, -⟩ | ⟨-, hge, hfree⟩
  · rw [if_pos huse, decide_eq_true hlt, Bool.true_and]
  · rw [if_neg hfree, decide_eq_false hge, Bool.false_and]

theorem appLedLoop_led {t : LedTable φ} {l : List (AppLedIface φ)}
    (h : Holds appLedMaxLeds t.slots l) (id : ℕ) :
    (appLedLoop t).leds.leds id =
      if id < l.length then (t.leds.leds id).idLoop t.leds.now else t.leds.leds id := by
  rw [appLedLoop, Leds.loop]
  rcases led_cases h id with ⟨-, -, hlt, huse, -⟩ | ⟨-, hge, hfree⟩
  · rw [if_pos hlt]
    exact if_pos huse
  · rw [if_neg hge]
    exact if_neg hfree

/-- What is refused changes nothing. -/
theorem appSensorRegister_refused (sensors : Sensors φ) (iface : Option (AppSensorIface φ))
    (h : (appSensorRegister sensors iface).1.1 = none) :
    (appSensorRegister sensors iface).2 = sensors := by
  revert h
  fun_cases appSensorRegister sensors iface <;> simp_all

theorem appDisplayRegister_refused {displays : Displays φ} {config : Option (AppDisplayIface φ)}
    {r : (Option ℕ × Option φ) × Displays φ} (hr : appDisplayRegister displays config = some r)
    (h : r.1.1 = none) : r.2 = displays := by
  rw [appDisplayRegister] at hr
  split at hr
  · -- an id is given whenever there is a free slot
    obtain ⟨c, -, rfl⟩ := Option.map_eq_some_iff.1 hr
    exact absurd h (Option.some_ne_none _)
  · exact congrArg Prod.snd (Option.some.inj hr).symm

theorem appLedRegister_refused (t : LedTable φ) (iface : Option (AppLedIface φ))
    (h : (appLedRegister t iface).1 = none) : (appLedRegister t iface).2 = t := by
  revert h
  fun_cases appLedRegister t iface <;> simp_all

theorem Implements.serves (h : Implements s a) : Serves s a where
  numSensors := h.sensors.foldl_count
  numDisplays := h.displays.foldl_count
  numLeds := h.leds.foldl_count
  sensorRefused := appSensorRegister_refused s.sensors
  displayRefused := fun _ _ => appDisplayRegister_refused
  ledRefused := appLedRegister_refused s.leds
  sensorRead := appSensorRead_eq h.sensors h.sensors_valid
  sensorInfo := appSensorGetInfo_eq h.sensors
  displayImage := displayRequest_eq h.displays AppDisplayIface.image
  displayBuffer := displayRequest_eq h.displays AppDisplayIface.getBuffer
  displayBusy := displayRequest_eq h.displays AppDisplayIface.isBusy
  displayClean := displayRequest_eq h.displays AppDisplayIface.clean
  displayInfo := appDisplayGetInfo_eq h.displays
  ledInfo := appLedGetInfo_eq h.leds
  ledCommand := by
    intro id command
    obtain ⟨r, happly, hcalled, hreached, -⟩ :=
      appLedCommandApply_eq h.leds h.leds_valid id command
    exact ⟨r, happly, hcalled, hreached⟩
  ledActive := appLedIsActive_eq h.leds
  sensorLoop := by
    rw [appSensorLoop_eq_nil h.sensors, eq_comm, List.filterMap_eq_nil_iff]
    exact h.no_loop
  displayLoop := appDisplayLoop_eq h.displays
  ledLoop := appLedLoop_led h.leds

/-! ## What a call does -/

theorem appSensorRegister_accept {sensors : Sensors φ} {l : List (AppSensorIface φ)}
    (h : Holds appSensorMaxSensors sensors l) (iface : Option (AppSensorIface φ)) :
    (appSensorRegister sensors iface).1 =
        ((accept appSensorMaxSensors AppSensorIface.valid iface l).1,
          (accept appSensorMaxSensors AppSensorIface.valid iface l).1.bind
            fun _ => iface.bind AppSensorIface.init) ∧
      Holds appSensorMaxSensors (appSensorRegister sensors iface).2
        (accept appSensorMaxSensors AppSensorIface.valid iface l).2 := by
  cases iface with
  | none => exact ⟨rfl, h⟩
  | some f =>
    by_cases hok : f.valid = true ∧ l.length < appSensorMaxSensors
    · have hread : ¬ f.read.isNone = true := by
        rw [Option.isNone_iff_eq_none]
        exact fun hnone => Option.not_isSome_iff_eq_none.2 hnone hok.1
      rw [accept_of_room hok, appSensorRegister, if_neg hread, h.firstFree_eq, if_pos hok.2]
      exact ⟨rfl, h.add hok.2 f⟩
    · -- either there is no `read`, or all slots are in use
      have hrefused : appSensorRegister sensors (some f) = ((none, none), sensors) := by
        rw [appSensorRegister]
        split
        case isTrue => rfl
        case isFalse hread =>
          have hvalid : f.valid = true := by
            rw [AppSensorIface.valid, Option.isSome_iff_ne_none]
            exact fun hnone => hread (Option.isNone_iff_eq_none.2 hnone)
          rw [h.firstFree_eq, if_neg fun hlt => hok ⟨hvalid, hlt⟩]
      rw [accept_of_refused hok, hrefused]
      exact ⟨rfl, h⟩

/-- A display is registered without a look at its functions, but there has to be one. -/
theorem appDisplayRegister_accept {displays : Displays φ} {l : List (AppDisplayIface φ)}
    (h : Holds appDisplayMaxDisplays displays l) {config : Option (AppDisplayIface φ)}
    (hconfig : config = none → appDisplayMaxDisplays ≤ l.length) :
    ∃ r, appDisplayRegister displays config = some r ∧
      r.1 = ((accept appDisplayMaxDisplays (fun _ => true) config l).1,
        (accept appDisplayMaxDisplays (fun _ => true) config l).1.bind
          fun _ => config.bind AppDisplayIface.init) ∧
      Holds appDisplayMaxDisplays r.2
        (accept appDisplayMaxDisplays (fun _ => true) config l).2 := by
  rw [appDisplayRegister, h.firstFree_eq]
  by_cases hlt : l.length < appDisplayMaxDisplays
  · cases config with
    | none => exact absurd hlt (Nat.not_lt_of_le (hconfig rfl))
    | some c =>
      rw [if_pos hlt, accept_of_room ⟨rfl, hlt⟩]
      exact ⟨_, rfl, rfl, h.add hlt c⟩
  · rw [if_neg hlt]
    cases config with
    | none => exact ⟨_, rfl, rfl, h⟩
    | some c =>
      rw [accept_of_refused fun hok => hlt hok.2]
      exact ⟨_, rfl, rfl, h⟩

theorem slots_register (t : LedTable φ) (i : ℕ) (f : AppLedIface φ) :
    LedTable.slots {
      leds := { t.leds with
        leds := Function.update t.leds.leds i { t.leds.leds i with inUse := true } }
      iface := Function.update t.iface i (some f) } =
      Function.update t.slots i ⟨true, some f⟩ := by
  funext j
  by_cases hj : j = i
  · subst hj
    simp [LedTable.slots]
  · simp [LedTable.slots, hj]

theorem appLedRegister_accept {t : LedTable φ} {l : List (AppLedIface φ)}
    (h : Holds appLedMaxLeds t.slots l) (iface : Option (AppLedIface φ)) :
    (appLedRegister t iface).1 = (accept appLedMaxLeds AppLedIface.valid iface l).1 ∧
      Holds appLedMaxLeds (appLedRegister t iface).2.slots
        (accept appLedMaxLeds AppLedIface.valid iface l).2 := by
  cases iface with
  | none => exact ⟨rfl, h⟩
  | some f =>
    have hvalid : f.valid = true ↔ ¬ (f.apply.isNone = true ∨ f.toggle.isNone = true) := by
      rw [AppLedIface.valid]
      cases f.apply <;> cases f.toggle <;> simp
    by_cases hok : f.valid = true ∧ l.length < appLedMaxLeds
    · rw [accept_of_room hok, appLedRegister, if_neg (hvalid.1 hok.1), h.firstFree_eq,
        if_pos hok.2]
      refine ⟨rfl, ?_⟩
      rw [slots_register]
      exact h.add hok.2 f
    · -- either a function is missing, or all slots are in use
      have hrefused : appLedRegister t (some f) = (none, t) := by
        rw [appLedRegister]
        split
        case isTrue => rfl
        case isFalse hfunctions =>
          rw [h.firstFree_eq, if_neg fun hlt => hok ⟨hvalid.2 hfunctions, hlt⟩]
      rw [accept_of_refused hok, hrefused]
      exact ⟨rfl, h⟩

/-- A call that fits goes to the tables as it does to the registries. -/
theorem Implements.call (h : Implements s a) {c : PeripheralCall φ} (hfits : a.Fits c) :
    ∃ s', s.call c = some (s', (a.call c).2) ∧ Implements s' (a.call c).1 := by
  -- each call touches one of the tables, the other two are as before
  cases c with
  | sensorRegister iface =>
    obtain ⟨hid, htable⟩ := appSensorRegister_accept h.sensors iface
    refine ⟨{ s with sensors := (appSensorRegister s.sensors iface).2 }, ?_, ?_⟩
    · exact congrArg (fun r => some (_, r)) hid
    · refine { h with
        sensors := htable, sensors_valid := fun f hf => ?_, no_loop := fun f hf => ?_ }
      · rcases mem_accept.1 hf with hold | ⟨-, hvalid, -⟩
        · exact h.sensors_valid f hold
        · exact hvalid
      · rcases mem_accept.1 hf with hold | ⟨rfl, hvalid, hroom⟩
        · exact h.no_loop f hold
        · exact hfits hvalid hroom
  | displayRegister config =>
    have hconfig : config = none → appDisplayMaxDisplays ≤ a.displays.length := by
      rintro rfl
      exact hfits
    obtain ⟨r, hr, hid, htable⟩ := appDisplayRegister_accept h.displays hconfig
    refine ⟨{ s with displays := r.2 }, ?_, { h with displays := htable }⟩
    rw [Peripherals.call, hr]
    exact congrArg (fun r => some (_, r)) hid
  | ledRegister iface =>
    obtain ⟨hid, htable⟩ := appLedRegister_accept h.leds iface
    refine ⟨{ s with leds := (appLedRegister s.leds iface).2 }, ?_, ?_⟩
    · exact congrArg (fun id => some (_, id, none)) hid
    · refine { h with leds := htable, leds_valid := fun f hf => ?_ }
      rcases mem_accept.1 hf with hold | ⟨-, hvalid, -⟩
      · exact h.leds_valid f hold
      · exact hvalid
  | ledCommandApply delay ledId command =>
    -- the time that passes does not change the slots
    have hleds : Holds appLedMaxLeds (s.leds.wait delay).slots a.leds := h.leds
    obtain ⟨r, hr, hcalled, hreached, hslots⟩ :=
      appLedCommandApply_eq hleds h.leds_valid ledId command
    refine ⟨{ s with leds := r.2 }, ?_, { h with leds := hslots ▸ hleds }⟩
    -- the command gives the id exactly if it reaches the LED
    have hid : (r.1.map fun _ => ledId) = a.leds[ledId]?.map fun _ => ledId := by
      by_cases hlt : ledId < a.leds.length
      · obtain ⟨apply, happly⟩ := Option.isSome_iff_exists.1 (hreached.2 hlt)
        rw [happly, List.getElem?_eq_getElem hlt]
        rfl
      · rw [hcalled, List.getElem?_eq_none (Nat.le_of_not_lt hlt)]
        rfl
    rw [Peripherals.call, hr, Accepted.call, ← hid, ← hcalled]
    rfl
  | ledLoop delay =>
    have hslots : (appLedLoop (s.leds.wait delay)).slots = s.leds.slots := slots_appLedLoop _
    exact ⟨_, rfl, { h with leds := hslots ▸ h.leds }⟩

/-- A call that does not fit does not return, or the loop misses the sensor. -/
theorem Implements.not_serves (h : Implements s a) {c : PeripheralCall φ} (hno : ¬ a.Fits c)
    {s' : Peripherals φ} (hcall : s.call c = some (s', (a.call c).2)) :
    ¬ Serves s' (a.call c).1 := by
  cases c with
  | sensorRegister iface =>
    cases iface with
    | none => exact absurd trivial hno
    | some f =>
      intro hserves
      have hloop : ¬ f.loop = none := fun hloop => hno fun _ _ => hloop
      obtain ⟨hvalid, hroom⟩ : f.valid = true ∧ a.sensors.length < appSensorMaxSensors := by
        by_contra hrefused
        exact hno fun hvalid hroom => absurd ⟨hvalid, hroom⟩ hrefused
      have hsensors : s'.sensors = (appSensorRegister s.sensors (some f)).2 :=
        congrArg (fun r => r.1.sensors) (Option.some.inj hcall).symm
      have htable := (appSensorRegister_accept h.sensors (some f)).2
      have hpass := hserves.sensorLoop
      -- nothing is called, but the sensor is to be
      rw [hsensors, appSensorLoop_eq_nil htable, eq_comm, List.filterMap_eq_nil_iff] at hpass
      exact hloop (hpass f (mem_accept.2 (Or.inr ⟨rfl, hvalid, hroom⟩)))
  | displayRegister config =>
    cases config with
    | none =>
      -- the null display is read
      have hroom : a.displays.length < appDisplayMaxDisplays := Nat.lt_of_not_le hno
      rw [Peripherals.call, appDisplayRegister, h.displays.firstFree_eq, if_pos hroom] at hcall
      exact absurd hcall (Option.some_ne_none _).symm
    | some c => exact absurd trivial hno
  | ledRegister => exact absurd trivial hno
  | ledCommandApply => exact absurd trivial hno
  | ledLoop => exact absurd trivial hno

end Implements

/-- The tables do what the registries do, if and only if no sensor with a `loop` and no null display
is registered while there is room. -/
theorem peripherals_refine_iff (calls : List (PeripheralCall φ)) :
    Machine.Refines Peripherals.call Accepted.call Serves Peripherals.init ⟨[], [], []⟩ calls ↔
      Machine.Along (fun a c => (Accepted.call a c).1) Accepted.Fits ⟨[], [], []⟩ calls := by
  have hserves : ∀ (s : Peripherals φ) (a : Accepted φ), Implements s a → Serves s a :=
    fun _ _ h => h.serves
  have hfits : ∀ (s : Peripherals φ) (a : Accepted φ) (c : PeripheralCall φ), Implements s a →
      a.Fits c → ∃ s', s.call c = some (s', (a.call c).2) ∧ Implements s' (a.call c).1 :=
    fun _ _ _ h hfits => h.call hfits
  have hno : ∀ (s : Peripherals φ) (a : Accepted φ) (c : PeripheralCall φ), Implements s a →
      ¬ a.Fits c → ∀ s', s.call c = some (s', (a.call c).2) → ¬ Serves s' (a.call c).1 :=
    fun _ _ _ h hno _ hcall => h.not_serves hno hcall
  exact Machine.refines_iff_along hserves hfits hno implements_init

/-- A sensor with the functions `read` and `loop`. -/
def loopSensor : AppSensorIface ℕ := ⟨.size0 0, none, some 0, some 1⟩

/-- The loop of a sensor is never called. -/
theorem peripherals_not_refine :
    ¬ ∀ calls : List (PeripheralCall ℕ), Machine.Refines Peripherals.call Accepted.call Serves
      Peripherals.init ⟨[], [], []⟩ calls := by
  intro hrefines
  obtain ⟨-, s, hcall, hserves⟩ := hrefines [.sensorRegister (some loopSensor)]
  obtain rfl : _ = s := congrArg Prod.fst (Option.some.inj hcall)
  have hpass := Serves.sensorLoop hserves
  revert hpass
  decide

end TlBleSdk.Esl
