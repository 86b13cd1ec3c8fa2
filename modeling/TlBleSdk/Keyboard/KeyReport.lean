import TlBleSdk.Keyboard.GhostKey
import TlBleSdk.Hci.TrDef

/-!
# Keyboard reports

The row scan and the key mapping of `application/keyboard/keyboard.c`: how the matrix is read from
the pins, and the event that `kb_remap_key_code` makes of a matrix from the buffer. The key map of
a standard keyboard depends on whether `Fn` is pressed. This is noted while the rows are scanned,
and the scan that goes on when a matrix is read from the buffer is not the one that put it there.

The keyboard has `n + 1` drive pins and `s` scan pins. `KB_HAS_CTRL_KEYS` is set and keys are not
repeated, as in the defaults.
-/

namespace TlBleSdk.Keyboard

open Hci

/-- A code of a key map. -/
abbrev KeyCode := UInt8

/-- `VK_CTRL`, the first modifier. -/
def vkCtrl : KeyCode := 0xE0

/-- `VK_RWIN`, the last modifier. -/
def vkRwin : KeyCode := 0xE7

def vkFn : KeyCode := 0xFF
def vkZoomIn : KeyCode := 0xB6
def vkZoomOut : KeyCode := 0xB7
def vkMinus : KeyCode := 0x2D
def vkEqual : KeyCode := 0x2E

/-- `VK_MSK_LCTRL`. -/
def vkMskLctrl : BitVec 8 := 0x01

/-- `KB_RETURN_KEY_MAX`. -/
def kbReturnKeyMax : ℕ := 6

/-- A key map. -/
abbrev KbMap (n s : ℕ) := Fin s → Fin (n + 1) → KeyCode

/-- `KB_STANDARD_KEYBOARD`, `KB_HAS_FN_KEY`, `KB_RM_GHOST_KEY_EN` and the key maps. -/
structure KbConfig (n s : ℕ) where
  standardKeyboard : Bool
  hasFnKey : Bool
  rmGhostKeyEn : Bool
  kbMapNormal : KbMap n s
  kbMapNum : KbMap n s
  kbMapFn : KbMap n s

variable {n s : ℕ}

/-- An entry of `kb_p_map`. -/
def KbConfig.kbPMap (cfg : KbConfig n s) (i : ℕ) : KbMap n s :=
  if i = 0 then cfg.kbMapNormal else if i = 1 then cfg.kbMapNum else cfg.kbMapFn

/-- `kb_k_mp` of `kb_remap_key_code`. -/
def KbConfig.kbKMp (cfg : KbConfig n s) (numlockStatus : BitVec 32) (kbIsFnPressed : Bool) :
    KbMap n s :=
  if cfg.standardKeyboard then
    cfg.kbPMap ((numlockStatus &&& 1).toNat ||| (kbIsFnPressed.toNat <<< 1))
  else cfg.kbMapNormal

/-- `kb_data_t`. The codes from `cnt` on are those of earlier events. -/
structure KbData where
  cnt : ℕ
  ctrlKey : BitVec 8
  keycode : ℕ → KeyCode

namespace KbData

/-- `kb_data->keycode[kb_data->cnt++] = kc`. -/
def push (d : KbData) (kc : KeyCode) : KbData :=
  { d with keycode := Function.update d.keycode d.cnt kc, cnt := d.cnt + 1 }

/-- A pressed key in the loop of `kb_remap_key_row`. -/
def put (d : KbData) (kc : KeyCode) : KbData :=
  if kc ≥ vkCtrl ∧ kc ≤ vkRwin then
    { d with ctrlKey := d.ctrlKey ||| BitVec.twoPow 8 (kc.toNat - vkCtrl.toNat) }
  else if vkZoomIn = kc ∨ vkZoomOut = kc then
    { d with ctrlKey := d.ctrlKey ||| vkMskLctrl }.push
      (if vkZoomIn = kc then vkEqual else vkMinus)
  else if kc ≠ vkFn then d.push kc
  else d

/-- `keycode[0..cnt)`. -/
def keys (d : KbData) : List KeyCode := bytes d.keycode d.cnt

end KbData

/-- The loop of `kb_remap_key_row` over the scan pins left, for the row `m`. -/
def kbRemapKeyRow (map : KbMap n s) (drvInd : Fin (n + 1)) :
    List (Fin s) → BitVec 32 → KbData → KbData
  | [], _, kbData => kbData
  | i :: pins, m, kbData =>
    let kbData := if m.getLsbD 0 then kbData.put (map i drvInd) else kbData
    if m.getLsbD 0 ∧ kbData.cnt ≥ kbReturnKeyMax then kbData
    else if m >>> 1 = 0 then kbData
    else kbRemapKeyRow map drvInd pins (m >>> 1) kbData

/-- The loop of `kb_remap_key_code` over the drive pins left. -/
def kbRemapKeyCode (map : KbMap n s) (pressedMatrix : Matrix (n + 1)) :
    List (Fin (n + 1)) → KbData → KbData
  | [], kbData => kbData
  | i :: pins, kbData =>
    if pressedMatrix i = 0 then kbRemapKeyCode map pressedMatrix pins kbData
    else
      let kbData := kbRemapKeyRow map i (List.finRange s) (pressedMatrix i) kbData
      if kbData.cnt ≥ kbReturnKeyMax then kbData
      else kbRemapKeyCode map pressedMatrix pins kbData

/-! ## The scan -/

/-- `kb_scan_row` behind driving the pin `drvInd`: the row, and whether it sets
`kb_is_fn_pressed`. `gpio` has the scan pins that are active in the cache, which is that of the pin
driven before. -/
def kbScanRow (cfg : KbConfig n s) (scanPinNeed : BitVec 32) (drvInd : Fin (n + 1))
    (gpio : BitVec 32) : BitVec 32 × Bool :=
  (List.finRange s).foldl (fun (row : BitVec 32 × Bool) (j : Fin s) =>
    if scanPinNeed.getLsbD j.1 ∧ gpio.getLsbD j.1 then
      (row.1 ||| BitVec.twoPow 32 j.1, row.2 || (cfg.hasFnKey && cfg.kbMapNormal j drvInd == vkFn))
    else row) (0, false)

/-- A call of `kb_scan_key_value`. `gpio 0` is the cache at the call, `gpio (k + 1)` what the end of
the `k`-th call of `kb_scan_row` reads. -/
structure KbCall where
  gpio : ℕ → BitVec 32
  scanPinNeed : BitVec 32
  numlockStatus : BitVec 32
  readKey : Bool

/-- The drive pin of the turn `i` of the scan. -/
def drvInd (n i : ℕ) : Fin (n + 1) := if h : i < n + 1 then ⟨i, h⟩ else 0

/-- The turn `i` of the scan. There is a call of `kb_scan_row` before the first turn. -/
def KbCall.turn (c : KbCall) (cfg : KbConfig n s) (i : ℕ) : BitVec 32 × Bool :=
  kbScanRow cfg c.scanPinNeed (drvInd n i) (c.gpio (i + 1))

/-- The matrix that is scanned: the row of a pin is read in the turn of the next one. -/
def KbCall.pressedMatrix (c : KbCall) (cfg : KbConfig n s) : Matrix (n + 1) :=
  let m : Matrix (n + 1) := fun i => (c.turn cfg (i + 1)).1
  if cfg.rmGhostKeyEn then kbRmvGhostKey m else m

/-- `kb_is_fn_pressed` behind the scan. -/
def KbCall.kbIsFnPressed (c : KbCall) (cfg : KbConfig n s) : Bool :=
  (kbScanRow cfg c.scanPinNeed 0 (c.gpio 0)).2 ||
    (List.range (n + 2)).any fun i => (c.turn cfg i).2

/-- What the filter and the matrix buffer are given. -/
def KbCall.scanCall (c : KbCall) (cfg : KbConfig n s) : ScanCall (n + 1) where
  pressedMatrix := c.pressedMatrix cfg
  numlockStatus := c.numlockStatus
  readKey := c.readKey

/-- The matrix that a call of `kb_scan_key_value` reads from the buffer. -/
def KeyScan.readOut (scan : KeyScan n) (c : ScanCall n) : Option (Matrix n) :=
  if !c.invalid ∧ c.readKey then
    let scan := scan.pushState c
    if scan.matrixWptr = scan.matrixRptr then none
    else some (scan.matrixBuff (scan.matrixRptr % 4))
  else none

/-- The filter with the matrix buffer, and `kb_event`. -/
structure KbState (n : ℕ) where
  scan : KeyScan (n + 1)
  kbEvent : KbData

/-- The state after the start. -/
def KbState.init (n : ℕ) : KbState n := ⟨Keyboard.init (n + 1), ⟨0, 0, fun _ => 0⟩⟩

/-- `kb_scan_key_value`. -/
def kbStep (cfg : KbConfig n s) (st : KbState n) (c : KbCall) : KbState n :=
  let kbEvent : KbData := { st.kbEvent with cnt := 0, ctrlKey := 0 }
  { scan := st.scan.kbScanKeyValue (c.scanCall cfg)
    kbEvent :=
      match st.scan.readOut (c.scanCall cfg) with
      | none => kbEvent
      | some m =>
        kbRemapKeyCode (cfg.kbKMp c.numlockStatus (c.kbIsFnPressed cfg)) m
          (List.finRange (n + 1)) kbEvent }

/-! ## What a report should be -/

def isModifier (kc : KeyCode) : Bool := vkCtrl ≤ kc ∧ kc ≤ vkRwin

def isZoom (kc : KeyCode) : Bool := kc = vkZoomIn ∨ kc = vkZoomOut

/-- A key that has a place among the key codes. -/
def isOrdinary (kc : KeyCode) : Bool := !isModifier kc ∧ kc ≠ vkFn

/-- The code that an ordinary key has in the report. -/
def keyOf (kc : KeyCode) : KeyCode :=
  if kc = vkZoomIn then vkEqual else if kc = vkZoomOut then vkMinus else kc

/-- The bit that a key adds to `ctrl_key`. -/
def ctrlBit (kc : KeyCode) : BitVec 8 :=
  if isModifier kc then BitVec.twoPow 8 (kc.toNat - vkCtrl.toNat)
  else if isZoom kc then vkMskLctrl
  else 0

/-- The bits that several keys add to `ctrl_key`. -/
def ctrlBits (codes : List KeyCode) : BitVec 8 :=
  codes.foldl (fun ctrlKey kc => ctrlKey ||| ctrlBit kc) 0

/-- The codes of the keys pressed, in the order of the drive pins and then of the scan pins. -/
def codesOf (map : KbMap n s) (m : Matrix (n + 1)) : List KeyCode :=
  (List.finRange (n + 1)).flatMap fun i =>
    (List.finRange s).filterMap fun j : Fin s =>
      if (m i).getLsbD j.1 then some (map j i) else none

/-- The ordinary keys that have a place in the report. -/
def reported (codes : List KeyCode) : List KeyCode :=
  (codes.filter isOrdinary).take kbReturnKeyMax

/-- `ctrl_key` and `keycode[0..cnt)`. -/
structure KbReport where
  ctrlKey : BitVec 8
  keys : List KeyCode

/-- The report of the codes: all modifiers, with the control of the zoom keys reported, and the
first ordinary keys. -/
def reportOf (codes : List KeyCode) : KbReport where
  ctrlKey := ctrlBits (codes.filter isModifier) ||| ctrlBits ((reported codes).filter isZoom)
  keys := (reported codes).map keyOf

/-- `Fn` is pressed in the matrix. -/
def fnIn (cfg : KbConfig n s) (m : Matrix (n + 1)) : Bool :=
  cfg.hasFnKey && (codesOf cfg.kbMapNormal m).contains vkFn

/-- The key map for a matrix and a lock status. -/
def mapOf (cfg : KbConfig n s) (numlockStatus : BitVec 32) (m : Matrix (n + 1)) : KbMap n s :=
  cfg.kbKMp numlockStatus (fnIn cfg m)

/-- The event of a call that reads a matrix is the report of this matrix. -/
def KbStepOk (cfg : KbConfig n s) (st : KbState n) (c : KbCall) : Prop :=
  ∀ m, st.scan.readOut (c.scanCall cfg) = some m →
    let report := reportOf (codesOf (mapOf cfg c.numlockStatus m) m)
    (kbStep cfg st c).kbEvent.ctrlKey = report.ctrlKey ∧
      (kbStep cfg st c).kbEvent.keys = report.keys ∧
      (kbStep cfg st c).kbEvent.cnt ≤ kbReturnKeyMax

/-- The keys up to the last one that has a place, when there are `room` places. -/
def early : ℕ → List KeyCode → List KeyCode
  | 0, _ => []
  | _ + 1, [] => []
  | room + 1, kc :: codes => kc :: early (if isOrdinary kc then room else room + 1) codes

/-- The keys behind the last one that has a place. -/
def late (room : ℕ) (codes : List KeyCode) : List KeyCode :=
  codes.drop (early room codes).length

/-- Each modifier behind the last key reported comes before it too, or is the control of a zoom
key. -/
def ModifiersFit (codes : List KeyCode) : Prop :=
  ∀ kc ∈ late kbReturnKeyMax codes, isModifier kc →
    kc ∈ early kbReturnKeyMax codes ∨
      kc = vkCtrl ∧ ∃ zoom ∈ early kbReturnKeyMax codes, isZoom zoom

/-- `Fn` is seen in this scan: a scan pin is active in one of the caches, and its key is `Fn` on
the drive pin whose turn it is then. -/
def FnSeen (cfg : KbConfig n s) (c : KbCall) : Prop :=
  cfg.hasFnKey ∧ ∃ k < n + 3, ∃ j : Fin s, c.scanPinNeed.getLsbD j.1 ∧ (c.gpio k).getLsbD j.1 ∧
    cfg.kbMapNormal j (drvInd n (k - 1)) = vkFn

instance (cfg : KbConfig n s) (c : KbCall) : Decidable (FnSeen cfg c) :=
  inferInstanceAs (Decidable (_ ∧ _))

/-- The keys of the matrix that is read have the same codes in the layer of this scan as in that of
the matrix. -/
def LayerFits (cfg : KbConfig n s) (st : KbState n) (c : KbCall) : Prop :=
  ∀ m, st.scan.readOut (c.scanCall cfg) = some m →
    ∀ i (j : Fin s), (m i).getLsbD j.1 →
      cfg.kbKMp c.numlockStatus (decide (FnSeen cfg c)) j i = mapOf cfg c.numlockStatus m j i

/-- The modifiers of the matrix that is read come early enough. -/
def KbStepFits (cfg : KbConfig n s) (st : KbState n) (c : KbCall) : Prop :=
  ∀ m, st.scan.readOut (c.scanCall cfg) = some m →
    ModifiersFit (codesOf (mapOf cfg c.numlockStatus m) m)

/-! ## The mapping loops -/

/-- The keys are put one after the other, until there is no place. -/
def putAll : List KeyCode → KbData → KbData
  | [], kbData => kbData
  | kc :: codes, kbData =>
    let kbData := kbData.put kc
    if kbData.cnt ≥ kbReturnKeyMax then kbData else putAll codes kbData

theorem putAll_append (l l' : List KeyCode) {d : KbData} (hd : d.cnt < kbReturnKeyMax) :
    putAll (l ++ l') d =
      if (putAll l d).cnt ≥ kbReturnKeyMax then putAll l d else putAll l' (putAll l d) := by
  induction l generalizing d with
  | nil => rw [List.nil_append, putAll, if_neg (Nat.not_le_of_lt hd)]
  | cons kc l ih =>
    rw [List.cons_append, putAll, putAll]
    by_cases hfull : (d.put kc).cnt ≥ kbReturnKeyMax
    · rw [if_pos hfull, if_pos hfull, if_pos hfull]
    · rw [if_neg hfull, if_neg hfull, ih (Nat.lt_of_not_le hfull)]

/-- A row that is zero from the pin `k` on has no key there. -/
theorem filterMap_of_zero (map : KbMap n s) (i : Fin (n + 1)) {row : BitVec 32} {k : ℕ}
    (h : row >>> k = 0) {pins : List (Fin s)} (hpins : ∀ j ∈ pins, k ≤ j.1) :
    pins.filterMap (fun j : Fin s => if row.getLsbD j.1 then some (map j i) else none) = [] := by
  rw [List.filterMap_eq_nil_iff]
  intro j hj
  have hbit : (row >>> k).getLsbD (j.1 - k) = (0 : BitVec 32).getLsbD (j.1 - k) := by rw [h]
  rw [BitVec.getLsbD_ushiftRight, Nat.add_sub_cancel' (hpins j hj)] at hbit
  rw [if_neg]
  rw [hbit]
  simp

/-- The loop over the scan pins from `k` on. -/
theorem kbRemapKeyRow_eq (map : KbMap n s) (i : Fin (n + 1)) (row : BitVec 32)
    (pins : List (Fin s)) (k : ℕ) (hpins : ∀ t (h : t < pins.length), pins[t].1 = k + t)
    (d : KbData) :
    kbRemapKeyRow map i pins (row >>> k) d =
      putAll (pins.filterMap fun j : Fin s =>
        if row.getLsbD j.1 then some (map j i) else none) d := by
  induction pins generalizing k d with
  | nil => rfl
  | cons j pins ih =>
    have hj : j.1 = k := hpins 0 (Nat.succ_pos _)
    have hbit : (row >>> k).getLsbD 0 = row.getLsbD j.1 := by
      rw [BitVec.getLsbD_ushiftRight, hj, Nat.add_zero]
    have hshift : row >>> k >>> 1 = row >>> (k + 1) := by
      rw [BitVec.shiftRight_add]
    have hpins' : ∀ t (h : t < pins.length), pins[t].1 = k + 1 + t := by
      intro t ht
      have hnext := hpins (t + 1) (Nat.succ_lt_succ ht)
      rw [List.getElem_cons_succ] at hnext
      omega
    have hle : ∀ j' ∈ pins, k + 1 ≤ j'.1 := by
      intro j' hj'
      obtain ⟨t, ht, rfl⟩ := List.getElem_of_mem hj'
      rw [hpins' t ht]
      exact Nat.le_add_right _ _
    have hrest := ih (k + 1) hpins'
    -- the loop stops where no place or no key is left
    rw [kbRemapKeyRow, hbit, hshift, List.filterMap_cons]
    by_cases hrow : row.getLsbD j.1 = true
    · simp only [hrow, if_true, true_and]
      rw [putAll]
      by_cases hfull : (d.put (map j i)).cnt ≥ kbReturnKeyMax
      · rw [if_pos hfull, if_pos hfull]
      · rw [if_neg hfull, if_neg hfull]
        by_cases hnext : row >>> (k + 1) = 0
        · rw [if_pos hnext, filterMap_of_zero map i hnext hle, putAll]
        · rw [if_neg hnext, hrest]
    · have hfalse : row.getLsbD j.1 = false := Bool.eq_false_iff.mpr hrow
      simp only [hfalse, Bool.false_eq_true, if_false, false_and]
      by_cases hnext : row >>> (k + 1) = 0
      · rw [if_pos hnext, filterMap_of_zero map i hnext hle, putAll]
      · rw [if_neg hnext, hrest]

/-- The mapping of a matrix puts its codes in order. -/
theorem kbRemapKeyCode_eq (map : KbMap n s) (m : Matrix (n + 1)) (pins : List (Fin (n + 1)))
    {d : KbData} (hd : d.cnt < kbReturnKeyMax) :
    kbRemapKeyCode map m pins d =
      putAll (pins.flatMap fun i => (List.finRange s).filterMap fun j : Fin s =>
        if (m i).getLsbD j.1 then some (map j i) else none) d := by
  induction pins generalizing d with
  | nil => rfl
  | cons i pins ih =>
    have hrow := kbRemapKeyRow_eq map i (m i) (List.finRange s) 0 (fun t _ => by simp) d
    rw [BitVec.ushiftRight_zero] at hrow
    rw [kbRemapKeyCode, List.flatMap_cons, putAll_append _ _ hd]
    by_cases hzero : m i = 0
    · have hshift : m i >>> 0 = 0 := (BitVec.ushiftRight_zero _).trans hzero
      have hle : ∀ j ∈ List.finRange s, 0 ≤ j.1 := fun _ _ => Nat.zero_le _
      have hnone := filterMap_of_zero map i hshift hle
      rw [if_pos hzero, hnone, putAll, if_neg (Nat.not_le_of_lt hd), ih hd]
    · rw [if_neg hzero]
      dsimp only
      rw [hrow]
      split
      case isTrue => rfl
      case isFalse h => exact ih (Nat.lt_of_not_le h)

/-! ## What is put -/

theorem prefix_early_le (room : ℕ) (codes : List KeyCode) : early room codes <+: codes := by
  induction codes generalizing room with
  | nil => cases room <;> exact List.prefix_rfl
  | cons kc codes ih =>
    cases room with
    | zero => exact List.nil_prefix
    | succ room => exact (List.cons_prefix_cons).mpr ⟨rfl, ih _⟩

theorem early_append_late (room : ℕ) (codes : List KeyCode) :
    early room codes ++ late room codes = codes := by
  obtain ⟨rest, hrest⟩ := prefix_early_le room codes
  have hlate : late room codes = rest := by
    have hdrop := congrArg (List.drop (early room codes).length) hrest
    rw [List.drop_left] at hdrop
    exact hdrop.symm
  rw [hlate, hrest]

/-- The ordinary keys among the early ones are those that have a place. -/
theorem filter_early (room : ℕ) (codes : List KeyCode) :
    (early room codes).filter isOrdinary = (codes.filter isOrdinary).take room := by
  induction codes generalizing room with
  | nil => cases room <;> rfl
  | cons kc codes ih =>
    cases room with
    | zero => rfl
    | succ room =>
      rw [early, List.filter_cons, List.filter_cons, ih]
      split
      · rw [List.take_succ_cons]
      · rfl

/-- A key adds its bit, and an ordinary one its code. -/
theorem put_eq (d : KbData) (kc : KeyCode) :
    d.put kc =
      if isOrdinary kc then { d with ctrlKey := d.ctrlKey ||| ctrlBit kc }.push (keyOf kc)
      else { d with ctrlKey := d.ctrlKey ||| ctrlBit kc } := by
  have hmod : (kc ≥ vkCtrl ∧ kc ≤ vkRwin) ↔ isModifier kc = true := by
    rw [isModifier, decide_eq_true_eq]
  have hzoom : (vkZoomIn = kc ∨ vkZoomOut = kc) ↔ isZoom kc = true := by
    rw [isZoom, decide_eq_true_eq]
    exact or_congr eq_comm eq_comm
  have hord : isOrdinary kc = true ↔ ¬ isModifier kc = true ∧ kc ≠ vkFn := by
    rw [isOrdinary, decide_eq_true_eq, Bool.not_eq_true', Bool.not_eq_true]
  unfold KbData.put
  -- the tests of the code, in its order
  by_cases h1 : isModifier kc = true
  · rw [if_pos (hmod.mpr h1), if_neg fun h => (hord.mp h).1 h1, ctrlBit, if_pos h1]
  rw [if_neg fun h => h1 (hmod.mp h), ctrlBit, if_neg h1]
  by_cases h2 : isZoom kc = true
  · have hfn : kc ≠ vkFn := by
      rintro rfl
      exact absurd h2 (by decide)
    rw [if_pos (hzoom.mpr h2), if_pos (hord.mpr ⟨h1, hfn⟩), if_pos h2, keyOf]
    by_cases hin : kc = vkZoomIn
    · rw [if_pos hin, if_pos hin.symm]
    · have hout : kc = vkZoomOut := by
        rw [isZoom, decide_eq_true_eq] at h2
        exact h2.resolve_left hin
      rw [if_neg hin, if_pos hout, if_neg (Ne.symm hin)]
  have hkey : keyOf kc = kc := by
    rw [isZoom, decide_eq_true_eq, not_or] at h2
    rw [keyOf, if_neg h2.1, if_neg h2.2]
  have hzero : d.ctrlKey ||| 0 = d.ctrlKey := BitVec.or_zero
  rw [if_neg fun h => h2 (hzoom.mp h), if_neg h2, hzero, hkey]
  by_cases h3 : kc = vkFn
  · rw [if_neg (not_not.mpr h3), if_neg fun h => (hord.mp h).2 h3]
  · rw [if_pos h3, if_pos (hord.mpr ⟨h1, h3⟩)]

theorem cnt_put (d : KbData) (kc : KeyCode) :
    (d.put kc).cnt = if isOrdinary kc then d.cnt + 1 else d.cnt := by
  rw [put_eq]
  split <;> rfl

theorem ctrlKey_put (d : KbData) (kc : KeyCode) :
    (d.put kc).ctrlKey = d.ctrlKey ||| ctrlBit kc := by
  rw [put_eq]
  split <;> rfl

theorem keys_put (d : KbData) (kc : KeyCode) :
    (d.put kc).keys = d.keys ++ if isOrdinary kc then [keyOf kc] else [] := by
  rw [put_eq]
  split
  case isTrue => exact bytes_update_succ d.keycode d.cnt (keyOf kc)
  case isFalse => exact (List.append_nil _).symm

theorem putAll_eq (codes : List KeyCode) {room : ℕ} {d : KbData}
    (hroom : d.cnt + (room + 1) = kbReturnKeyMax) :
    putAll codes d = (early (room + 1) codes).foldl KbData.put d := by
  induction codes generalizing room d with
  | nil => rfl
  | cons kc codes ih =>
    rw [putAll, early, List.foldl_cons]
    have hcnt := cnt_put d kc
    by_cases hord : isOrdinary kc = true
    · rw [if_pos hord] at hcnt ⊢
      cases room with
      | zero =>
        -- the last place is taken
        rw [if_pos (by omega)]
        cases codes <;> rfl
      | succ room =>
        rw [if_neg (by omega)]
        exact ih (by omega)
    · rw [if_neg hord] at hcnt ⊢
      rw [if_neg (by omega)]
      exact ih (by omega)

theorem keys_foldl_put (codes : List KeyCode) (d : KbData) :
    (codes.foldl KbData.put d).keys = d.keys ++ (codes.filter isOrdinary).map keyOf := by
  induction codes generalizing d with
  | nil => exact (List.append_nil _).symm
  | cons kc codes ih =>
    rw [List.foldl_cons, ih, keys_put, List.filter_cons]
    split
    · rw [List.map_cons, List.append_assoc, List.singleton_append]
    · rw [List.append_nil]

/-- The bits of a fold over the keys. -/
theorem getLsbD_foldl_ctrlBit (codes : List KeyCode) (ctrlKey : BitVec 8) (b : ℕ) :
    (codes.foldl (fun ctrlKey kc => ctrlKey ||| ctrlBit kc) ctrlKey).getLsbD b = true ↔
      ctrlKey.getLsbD b = true ∨ ∃ kc ∈ codes, (ctrlBit kc).getLsbD b = true := by
  induction codes generalizing ctrlKey with
  | nil => simp
  | cons kc codes ih =>
    rw [List.foldl_cons, ih, BitVec.getLsbD_or, Bool.or_eq_true, or_assoc]
    simp only [List.mem_cons, exists_eq_or_imp]

theorem getLsbD_ctrlBits (codes : List KeyCode) (b : ℕ) :
    (ctrlBits codes).getLsbD b = true ↔ ∃ kc ∈ codes, (ctrlBit kc).getLsbD b = true := by
  rw [ctrlBits, getLsbD_foldl_ctrlBit]
  simp

theorem ctrlKey_foldl_put (codes : List KeyCode) (d : KbData) :
    (codes.foldl KbData.put d).ctrlKey =
      codes.foldl (fun ctrlKey kc => ctrlKey ||| ctrlBit kc) d.ctrlKey := by
  induction codes generalizing d with
  | nil => rfl
  | cons kc codes ih => rw [List.foldl_cons, ih, ctrlKey_put, List.foldl_cons]

/-! ## The bits of the modifiers -/

theorem isModifier_iff {kc : KeyCode} :
    isModifier kc = true ↔ 0xE0 ≤ kc.toNat ∧ kc.toNat ≤ 0xE7 := by
  rw [isModifier, decide_eq_true_eq, UInt8.le_iff_toNat_le, UInt8.le_iff_toNat_le]
  exact Iff.rfl

theorem getLsbD_ctrlBit_of_modifier {kc : KeyCode} (h : isModifier kc = true) (b : ℕ) :
    (ctrlBit kc).getLsbD b = true ↔ kc.toNat = 0xE0 + b := by
  have hbounds := isModifier_iff.mp h
  rw [ctrlBit, if_pos h, BitVec.getLsbD_twoPow]
  show (decide (kc.toNat - 0xE0 < 8) && (kc.toNat - 0xE0 == b)) = true ↔ _
  rw [Bool.and_eq_true, decide_eq_true_eq, beq_iff_eq]
  omega

theorem getLsbD_ctrlBit_of_zoom {kc : KeyCode} (h : isZoom kc = true) (b : ℕ) :
    (ctrlBit kc).getLsbD b = true ↔ b = 0 := by
  have hmod : ¬ isModifier kc = true := by
    rw [isZoom, decide_eq_true_eq] at h
    rcases h with rfl | rfl <;> decide
  rw [ctrlBit, if_neg hmod, if_pos h]
  show (BitVec.twoPow 8 0).getLsbD b = true ↔ b = 0
  rw [BitVec.getLsbD_twoPow, Bool.and_eq_true, decide_eq_true_eq, decide_eq_true_eq]
  omega

theorem ctrlBit_eq_zero {kc : KeyCode} (hmod : ¬ isModifier kc = true)
    (hzoom : ¬ isZoom kc = true) : ctrlBit kc = 0 := by
  rw [ctrlBit, if_neg hmod, if_neg hzoom]

theorem isOrdinary_of_isZoom {kc : KeyCode} (h : isZoom kc = true) : isOrdinary kc = true := by
  rw [isZoom, decide_eq_true_eq] at h
  rcases h with rfl | rfl <;> decide

/-- A bit comes from a modifier or from a zoom key. -/
theorem exists_ctrlBit_iff (codes : List KeyCode) (b : ℕ) :
    (∃ kc ∈ codes, (ctrlBit kc).getLsbD b = true) ↔
      (∃ kc ∈ codes, isModifier kc = true ∧ kc.toNat = 0xE0 + b) ∨
        b = 0 ∧ ∃ kc ∈ codes, isZoom kc = true := by
  constructor
  · rintro ⟨kc, hmem, hbit⟩
    by_cases hmod : isModifier kc = true
    · exact Or.inl ⟨kc, hmem, hmod, (getLsbD_ctrlBit_of_modifier hmod b).mp hbit⟩
    by_cases hzoom : isZoom kc = true
    · exact Or.inr ⟨(getLsbD_ctrlBit_of_zoom hzoom b).mp hbit, kc, hmem, hzoom⟩
    rw [ctrlBit_eq_zero hmod hzoom] at hbit
    simp at hbit
  · rintro (⟨kc, hmem, hmod, hval⟩ | ⟨hb, kc, hmem, hzoom⟩)
    · exact ⟨kc, hmem, (getLsbD_ctrlBit_of_modifier hmod b).mpr hval⟩
    · exact ⟨kc, hmem, (getLsbD_ctrlBit_of_zoom hzoom b).mpr hb⟩

/-- The zoom keys reported are the early ones. -/
theorem exists_zoom_reported (codes : List KeyCode) :
    (∃ kc ∈ reported codes, isZoom kc = true) ↔
      ∃ kc ∈ early kbReturnKeyMax codes, isZoom kc = true := by
  rw [reported, ← filter_early]
  constructor
  · rintro ⟨kc, hmem, hzoom⟩
    exact ⟨kc, List.mem_of_mem_filter hmem, hzoom⟩
  · rintro ⟨kc, hmem, hzoom⟩
    exact ⟨kc, List.mem_filter.mpr ⟨hmem, isOrdinary_of_isZoom hzoom⟩, hzoom⟩

theorem getLsbD_reportOf (codes : List KeyCode) (b : ℕ) :
    (reportOf codes).ctrlKey.getLsbD b = true ↔
      (∃ kc ∈ codes, isModifier kc = true ∧ kc.toNat = 0xE0 + b) ∨
        b = 0 ∧ ∃ kc ∈ early kbReturnKeyMax codes, isZoom kc = true := by
  have hzoom : (ctrlBits ((reported codes).filter isZoom)).getLsbD b = true ↔
      b = 0 ∧ ∃ kc ∈ early kbReturnKeyMax codes, isZoom kc = true := by
    rw [getLsbD_ctrlBits, ← exists_zoom_reported]
    constructor
    · rintro ⟨kc, hmem, hbit⟩
      obtain ⟨hmem, hzoom⟩ := List.mem_filter.mp hmem
      exact ⟨(getLsbD_ctrlBit_of_zoom hzoom b).mp hbit, kc, hmem, hzoom⟩
    · rintro ⟨hb, kc, hmem, hzoom⟩
      exact ⟨kc, List.mem_filter.mpr ⟨hmem, hzoom⟩, (getLsbD_ctrlBit_of_zoom hzoom b).mpr hb⟩
  have hmod : (ctrlBits (codes.filter isModifier)).getLsbD b = true ↔
      ∃ kc ∈ codes, isModifier kc = true ∧ kc.toNat = 0xE0 + b := by
    rw [getLsbD_ctrlBits]
    constructor
    · rintro ⟨kc, hmem, hbit⟩
      obtain ⟨hmem, hmod⟩ := List.mem_filter.mp hmem
      exact ⟨kc, hmem, hmod, (getLsbD_ctrlBit_of_modifier hmod b).mp hbit⟩
    · rintro ⟨kc, hmem, hmod, hval⟩
      exact ⟨kc, List.mem_filter.mpr ⟨hmem, hmod⟩, (getLsbD_ctrlBit_of_modifier hmod b).mpr hval⟩
  rw [reportOf, BitVec.getLsbD_or, Bool.or_eq_true, hmod, hzoom]

/-- The bits of the early keys are those of the report exactly if they have that of every
modifier. -/
theorem ctrlBits_early_eq_iff (codes : List KeyCode) :
    ctrlBits (early kbReturnKeyMax codes) = (reportOf codes).ctrlKey ↔
      ∀ b, (∃ kc ∈ codes, isModifier kc = true ∧ kc.toNat = 0xE0 + b) →
        (∃ kc ∈ early kbReturnKeyMax codes, isModifier kc = true ∧ kc.toNat = 0xE0 + b) ∨
          b = 0 ∧ ∃ kc ∈ early kbReturnKeyMax codes, isZoom kc = true := by
  constructor
  · intro heq b hcodes
    have hb := (getLsbD_reportOf codes b).mpr (Or.inl hcodes)
    rw [← heq, getLsbD_ctrlBits, exists_ctrlBit_iff] at hb
    exact hb
  · intro hall
    apply BitVec.eq_of_getLsbD_eq
    intro b _
    rw [Bool.eq_iff_iff, getLsbD_ctrlBits, exists_ctrlBit_iff, getLsbD_reportOf]
    constructor
    · rintro (⟨kc, hmem, hkc⟩ | hzoom)
      · exact Or.inl ⟨kc, (prefix_early_le _ codes).subset hmem, hkc⟩
      · exact Or.inr hzoom
    · rintro (hcodes | hzoom)
      · exact hall b hcodes
      · exact Or.inr hzoom

/-- The bits of the early keys are those of the report exactly if the late modifiers add none. -/
theorem ctrlBits_early_iff (codes : List KeyCode) :
    ctrlBits (early kbReturnKeyMax codes) = (reportOf codes).ctrlKey ↔ ModifiersFit codes := by
  rw [ctrlBits_early_eq_iff]
  constructor
  · intro hall kc hlate hmod
    have hmem : kc ∈ codes := List.mem_of_mem_drop hlate
    have hrange := isModifier_iff.mp hmod
    rcases hall (kc.toNat - 0xE0) ⟨kc, hmem, hmod, by omega⟩ with
      ⟨kc', hmem', -, hval⟩ | ⟨hb, hzoom⟩
    · have heq : kc' = kc := UInt8.toNat_inj.mp (by omega)
      exact Or.inl (heq ▸ hmem')
    · -- the bit of a zoom key is that of `VK_CTRL`
      have hctrl : kc.toNat = vkCtrl.toNat := by
        show kc.toNat = 0xE0
        omega
      exact Or.inr ⟨UInt8.toNat_inj.mp hctrl, hzoom⟩
  · rintro hfit b ⟨kc, hmem, hmod, hval⟩
    rw [← early_append_late kbReturnKeyMax codes, List.mem_append] at hmem
    rcases hmem with hearly | hlate
    · exact Or.inl ⟨kc, hearly, hmod, hval⟩
    rcases hfit kc hlate hmod with hearly | ⟨hctrl, hzoom⟩
    · exact Or.inl ⟨kc, hearly, hmod, hval⟩
    · have hb : 0xE0 = 0xE0 + b := by
        rw [← hval, hctrl]
        rfl
      exact Or.inr ⟨by omega, hzoom⟩

/-! ## The calls -/

/-- The event of a matrix. The keys are always those of the report. -/
theorem kbRemapKeyCode_report (map : KbMap n s) (m : Matrix (n + 1)) (keycode : ℕ → KeyCode) :
    let out := kbRemapKeyCode map m (List.finRange (n + 1)) ⟨0, 0, keycode⟩
    out.ctrlKey = ctrlBits (early kbReturnKeyMax (codesOf map m)) ∧
      out.keys = (reportOf (codesOf map m)).keys ∧ out.cnt ≤ kbReturnKeyMax := by
  have hput : kbRemapKeyCode map m (List.finRange (n + 1)) ⟨0, 0, keycode⟩ =
      (early kbReturnKeyMax (codesOf map m)).foldl KbData.put ⟨0, 0, keycode⟩ := by
    rw [kbRemapKeyCode_eq map m _ (Nat.succ_pos 5)]
    exact putAll_eq _ rfl
  have hkeys := keys_foldl_put (early kbReturnKeyMax (codesOf map m)) ⟨0, 0, keycode⟩
  rw [filter_early] at hkeys
  dsimp only
  rw [hput]
  refine ⟨ctrlKey_foldl_put _ _, hkeys, ?_⟩
  have hlen := congrArg List.length hkeys
  rw [KbData.keys, length_bytes, List.length_append, List.length_map, List.length_take] at hlen
  rw [hlen]
  show (bytes keycode 0).length + _ ≤ _
  rw [length_bytes]
  omega

theorem foldl_scanRow_snd (cfg : KbConfig n s) (need : BitVec 32) (d : Fin (n + 1))
    (gpio : BitVec 32) (pins : List (Fin s)) (row : BitVec 32 × Bool) :
    (pins.foldl (fun (row : BitVec 32 × Bool) (j : Fin s) =>
      if need.getLsbD j.1 ∧ gpio.getLsbD j.1 then
        (row.1 ||| BitVec.twoPow 32 j.1, row.2 || (cfg.hasFnKey && cfg.kbMapNormal j d == vkFn))
      else row) row).2 = true ↔ row.2 = true ∨ cfg.hasFnKey = true ∧ ∃ j ∈ pins,
        need.getLsbD j.1 ∧ gpio.getLsbD j.1 ∧ cfg.kbMapNormal j d = vkFn := by
  induction pins generalizing row with
  | nil => simp
  | cons j pins ih =>
    rw [List.foldl_cons, ih]
    by_cases hact : need.getLsbD j.1 = true ∧ gpio.getLsbD j.1 = true
    · rw [if_pos hact]
      simp only [Bool.or_eq_true, Bool.and_eq_true, beq_iff_eq, List.mem_cons,
        exists_eq_or_imp, hact.1, hact.2, true_and, or_assoc, and_or_left]
    · rw [if_neg hact]
      simp only [List.mem_cons, exists_eq_or_imp]
      have hno : ¬ (need.getLsbD j.1 = true ∧ gpio.getLsbD j.1 = true ∧
          cfg.kbMapNormal j d = vkFn) := fun h => hact ⟨h.1, h.2.1⟩
      rw [or_iff_right hno]

/-- `kb_scan_row` notes that `Fn` is pressed. -/
theorem kbScanRow_snd (cfg : KbConfig n s) (need : BitVec 32) (d : Fin (n + 1))
    (gpio : BitVec 32) :
    (kbScanRow cfg need d gpio).2 = true ↔ cfg.hasFnKey = true ∧ ∃ j : Fin s,
      need.getLsbD j.1 ∧ gpio.getLsbD j.1 ∧ cfg.kbMapNormal j d = vkFn := by
  rw [kbScanRow, foldl_scanRow_snd]
  simp

/-- The caches of the scan, with the pins whose turn it is. -/
theorem kbIsFnPressed_eq (cfg : KbConfig n s) (c : KbCall) :
    c.kbIsFnPressed cfg = decide (FnSeen cfg c) := by
  rw [Bool.eq_iff_iff, decide_eq_true_eq, KbCall.kbIsFnPressed, Bool.or_eq_true,
    List.any_eq_true, kbScanRow_snd]
  constructor
  · rintro (⟨hfn, j, hj⟩ | ⟨i, hi, hturn⟩)
    · exact ⟨hfn, 0, by omega, j, hj⟩
    · obtain ⟨hfn, j, hj⟩ := (kbScanRow_snd ..).mp hturn
      rw [List.mem_range] at hi
      exact ⟨hfn, i + 1, by omega, j, hj⟩
  · rintro ⟨hfn, k, hk, j, hj⟩
    cases k with
    | zero => exact Or.inl ⟨hfn, j, hj⟩
    | succ i =>
      exact Or.inr ⟨i, List.mem_range.mpr (by omega), (kbScanRow_snd ..).mpr ⟨hfn, j, hj⟩⟩

/-- Maps that agree on the keys pressed have the same codes. -/
theorem codesOf_congr {map map' : KbMap n s} {m : Matrix (n + 1)}
    (h : ∀ i (j : Fin s), (m i).getLsbD j.1 → map j i = map' j i) :
    codesOf map m = codesOf map' m := by
  unfold codesOf
  congr 1
  funext i
  apply List.filterMap_congr
  intro j _
  by_cases hj : (m i).getLsbD j.1 = true
  · rw [if_pos hj, if_pos hj, h i j hj]
  · rw [if_neg hj, if_neg hj]

/-- Where the layer fits, the event of a call is the report of the matrix exactly if the modifiers
come early enough. -/
theorem kbStepOk_iff {cfg : KbConfig n s} {st : KbState n} {c : KbCall}
    (hlayer : LayerFits cfg st c) : KbStepOk cfg st c ↔ KbStepFits cfg st c := by
  refine forall_congr' fun m => forall_congr' fun hread => ?_
  have hcodes := codesOf_congr (hlayer m hread)
  rw [← kbIsFnPressed_eq] at hcodes
  have hevent : (kbStep cfg st c).kbEvent =
      kbRemapKeyCode (cfg.kbKMp c.numlockStatus (c.kbIsFnPressed cfg)) m
        (List.finRange (n + 1)) ⟨0, 0, st.kbEvent.keycode⟩ := by
    rw [kbStep, hread]
  have hreport := kbRemapKeyCode_report (cfg.kbKMp c.numlockStatus (c.kbIsFnPressed cfg)) m
    st.kbEvent.keycode
  rw [← hevent, hcodes] at hreport
  obtain ⟨hctrl, hkeys, hcnt⟩ := hreport
  dsimp only
  rw [← ctrlBits_early_iff, hctrl]
  exact ⟨fun h => h.1, fun h => ⟨h, hkeys, hcnt⟩⟩

/-- In every run whose calls read matrices with the codes of the layer that is set, all events are
the reports of the matrices read exactly if in each of them the modifiers come before the last key
that has a place. -/
theorem keyReport_iff (cfg : KbConfig n s) (calls : List KbCall)
    (hlayer : Machine.Along (kbStep cfg) (LayerFits cfg) (KbState.init n) calls) :
    Machine.Along (kbStep cfg) (KbStepOk cfg) (KbState.init n) calls ↔
      Machine.Along (kbStep cfg) (KbStepFits cfg) (KbState.init n) calls := by
  have htrue : ∀ st c, True → LayerFits cfg st c → KbStepFits cfg st c → True := fun _ _ h _ _ => h
  exact Machine.along_congr_of_side htrue (fun _ _ _ h => kbStepOk_iff h) trivial hlayer

/-- A standard keyboard with a `Fn` key and another one, on one drive pin. -/
def fnKeyboard : KbConfig 0 2 where
  standardKeyboard := true
  hasFnKey := true
  rmGhostKeyEn := false
  kbMapNormal := fun j _ => if j.1 = 0 then vkFn else 0x1E
  kbMapNum := fun j _ => if j.1 = 0 then vkFn else 0x1E
  kbMapFn := fun j _ => if j.1 = 0 then vkFn else 0x3A

/-- Six keys and the control key behind them, on one drive pin. -/
def sevenKeys : KbConfig 0 7 where
  standardKeyboard := false
  hasFnKey := false
  rmGhostKeyEn := false
  kbMapNormal := fun j _ => if j.1 = 6 then vkCtrl else UInt8.ofNat (j.1 + 4)
  kbMapNum := fun _ _ => 0
  kbMapFn := fun _ _ => 0

/-- A call, without the filter, where the pins `keys` are active throughout. -/
def steadyCall (keys : BitVec 32) (readKey : Bool) : KbCall where
  gpio := fun _ => keys
  scanPinNeed := 0x7F
  numlockStatus := 0x8000
  readKey := readKey

theorem keyReport_iff_fn :
    Machine.Along (kbStep fnKeyboard) (KbStepOk fnKeyboard) (KbState.init 0)
      [steadyCall 3 true] := by
  have hread : (KbState.init 0).scan.readOut ((steadyCall 3 true).scanCall fnKeyboard) =
      some fun _ => 3 := by decide
  refine (keyReport_iff fnKeyboard [steadyCall 3 true] ⟨fun m hm => ?_, trivial⟩).mpr
    ⟨fun m hm => ?_, trivial⟩
  · obtain rfl : (fun _ => 3) = m := Option.some_inj.mp (hread.symm.trans hm)
    decide
  · obtain rfl : (fun _ => 3) = m := Option.some_inj.mp (hread.symm.trans hm)
    intro kc hlate
    have hnil : late kbReturnKeyMax
        (codesOf (mapOf fnKeyboard (steadyCall 3 true).numlockStatus fun _ => 3) fun _ => 3) = [] :=
      by decide
    rw [hnil] at hlate
    exact absurd hlate List.not_mem_nil

/-- The control key behind six others is left out. And `Fn` with another key, read when both are
released, is reported without the layer of `Fn`. -/
theorem not_keyReport :
    (¬ Machine.Along (kbStep sevenKeys) (KbStepOk sevenKeys) (KbState.init 0)
      [steadyCall 0x7F true]) ∧
      ¬ Machine.Along (kbStep fnKeyboard) (KbStepOk fnKeyboard) (KbState.init 0)
        [steadyCall 3 false, steadyCall 0 true] := by
  constructor
  · intro h
    have hctrl := (h.1 (fun _ => 0x7F) (by decide)).1
    exact absurd hctrl (by decide)
  · intro h
    have hkeys := (h.2.1 (fun _ => 3) (by decide)).2.1
    exact absurd hkeys (by decide)

end TlBleSdk.Keyboard
