import Mathlib.Algebra.Order.Ring.Nat
import TlBleSdk.Eslp.ApDefs
import TlBleSdk.Eslp.ParseChar

/-!
# Hexadecimal input of the shell

The commands of `app_ap.c` that decode hexadecimal digits into a buffer, and `ots_chan_send_p`.
`str2hex` knows nothing of the size of its destination. What bounds it is the line buffer of the
shell, in which the arguments are one behind the other. A store is an index from the start of the
destination on, and the byte.
-/

namespace TlBleSdk.Eslp

/-- `PRELOAD_IMAGE_SIZE`, the size of `preload_image`. -/
def preloadImageSize : ℕ := 0x2000

/-- `OTSC_L2CAP_MTU`, the size of a row of `ots_channel_send_data`. -/
def otscL2capMtu : ℕ := 0x80

/-- `BDADDR_STR_LEN`. -/
def bdaddrStrLen : ℕ := 17

/-- A byte that is stored at an index. -/
abbrev Store := ℕ × UInt8

/-! ## The commands -/

/-- The loop of `str2hex`: `n` and `ptr`, and whether `i` is odd. -/
def str2hexLoop (n : ℕ) (isOdd : Bool) (ptr : ℕ) : CString → List Store
  | [] => []
  | c :: ps =>
    -- an odd digit at the end is not stored
    let n := u8 (n + hexDigit c * if isOdd then 1 else 16)
    if isOdd then (ptr, UInt8.ofNat n) :: str2hexLoop 0 false (ptr + 1) ps
    else str2hexLoop n true ptr ps

/-- What `str2hex` stores from `data` on. -/
def str2hexStores (ps : CString) (data : ℕ) : List Store := str2hexLoop 0 false data ps

/-- The loop of `app_ap_parse_bdaddr` with `k` turns left. -/
def bdaddrLoop (str : CString) : (k i pos : ℕ) → Bool × List Store
  | 0, _, _ => (true, [])
  | k + 1, i, pos =>
    let temp := [str.getD pos '\x00', str.getD (pos + 1) '\x00']
    -- the pair is stored before the separator behind it is looked at
    let stores := str2hexStores temp i
    if i < 5 ∧ str.getD (pos + 2) '\x00' ≠ ':' then (false, stores)
    else
      let r := bdaddrLoop str k (i + 1) (pos + 3)
      (r.1, stores ++ r.2)

/-- `app_ap_parse_bdaddr`. -/
def appApParseBdaddr (str : CString) : Bool × List Store :=
  if str.length ≠ bdaddrStrLen then (false, []) else bdaddrLoop str 6 0 0

/-- `cmd_ots_channel_send`: what it stores in the row `conn_index`, where `connIndex` is what
`blc_prf_getAclConnectIndex` returns for a handle. -/
def cmdOtsChannelSend (connIndex : BitVec 16 → Int) (argv : List CString) :
    Option (Int × List Store) :=
  match argv with
  | connHandle :: data :: _ =>
    let conn_index := connIndex ((appParseStr2n connHandle).setWidth 16)
    if conn_index < 0 then none else some (conn_index, str2hexStores data 0)
  | _ => none

/-- `ots_chan_send_p`: where the bytes start in `preload_image` that are sent, and how many. -/
def otsChanSendP (connIndex : BitVec 16 → Int) (argv : List CString) : Option (ℕ × ℕ) :=
  match argv with
  | connHandle :: offset :: length :: _ =>
    if connIndex ((appParseStr2n connHandle).setWidth 16) < 0 then none
    else
      let offset := ((appParseStr2n offset).setWidth 16).toNat
      let length := ((appParseStr2n length).setWidth 16).toNat
      if preloadImageSize ≤ offset ∨ preloadImageSize < offset + length then none
      else some (offset, length)
  | _ => none

/-- The `offset` of `cmd_load_image`. -/
def loadImageOffset (offset : CString) : ℕ := ((appParseStr2n offset).setWidth 16).toNat

/-- `cmd_load_image`: what it stores in `preload_image`. -/
def cmdLoadImage (argv : List CString) : List Store :=
  match argv with
  -- neither the offset nor the length is compared with the size of the image
  | offset :: data :: _ => str2hexStores data (loadImageOffset offset)
  | _ => []

/-! ## What is stored -/

/-- The bytes of a list from the index `data` on. -/
def storesAt (data : ℕ) (l : List UInt8) : List Store :=
  (List.range' data l.length).zip l

theorem storesAt_cons (data : ℕ) (x : UInt8) (l : List UInt8) :
    storesAt data (x :: l) = (data, x) :: storesAt (data + 1) l := rfl

/-- The indices that are stored. -/
theorem exists_mem_storesAt (data i : ℕ) (l : List UInt8) :
    (∃ x, (i, x) ∈ storesAt data l) ↔ data ≤ i ∧ i < data + l.length := by
  induction l generalizing data with
  | nil => simp [storesAt]
  | cons x l ih =>
    simp only [storesAt_cons, List.mem_cons, exists_or, ih, Prod.mk.injEq, List.length_cons]
    rw [exists_and_left]
    simp only [exists_eq, and_true]
    omega

theorem storesAt_within_iff (data size : ℕ) (l : List UInt8) :
    (∀ w ∈ storesAt data l, w.1 < size) ↔ l = [] ∨ data + l.length ≤ size := by
  constructor
  · intro h
    by_cases hl : l = []
    · exact .inl hl
    · have hpos : 0 < l.length := List.length_pos_iff.mpr hl
      obtain ⟨x, hx⟩ := (exists_mem_storesAt data (data + l.length - 1) l).mpr (by omega)
      have hlast := h _ hx
      exact .inr (by omega)
  · rintro (rfl | hfits) w hw
    · exact absurd hw List.not_mem_nil
    · have hw' := (exists_mem_storesAt data w.1 l).mp ⟨w.2, hw⟩
      omega

theorem hexDigit_lt (c : Char) : hexDigit c < 16 := by
  unfold hexDigit
  have hle : ∀ a b : Char, a ≤ b ↔ a.toNat ≤ b.toNat := fun a b => Iff.rfl
  simp only [hle]
  split_ifs with h₁ h₂ h₃
  · have hA : ('A').toNat = 65 := rfl
    have hF : ('F').toNat = 70 := rfl
    omega
  · have ha : ('a').toNat = 97 := rfl
    have hf : ('f').toNat = 102 := rfl
    omega
  · have h0 : ('0').toNat = 48 := rfl
    have h9 : ('9').toNat = 57 := rfl
    omega
  · decide

/-- `str2hex` stores the values of the complete pairs, one behind the other. -/
theorem str2hexStores_eq (ps : CString) (data : ℕ) :
    str2hexStores ps data = storesAt data (str2hex ps) := by
  unfold str2hexStores
  induction ps using str2hex.induct generalizing data with
  | case1 a b ps ih =>
    have ha := hexDigit_lt a
    have hb := hexDigit_lt b
    have hpair : u8 (u8 (0 + hexDigit a * 16) + hexDigit b * 1) = hexDigit a * 16 + hexDigit b := by
      unfold u8
      omega
    rw [str2hex, storesAt_cons, ← ih (data + 1), ← hpair]
    rfl
  | case2 ps hps =>
    rcases ps with _ | ⟨a, _ | ⟨b, ps⟩⟩
    · rfl
    · rfl
    · exact absurd rfl (hps a b ps)

/-! ## What the shell delivers -/

/-- The strings are in the line buffer one behind the other, each with its NUL. -/
def InLineBuffer (args : List CString) : Prop :=
  (args.map fun a => a.length + 1).sum ≤ shellRecvCmdBufSize

/-- A string of bytes. -/
def toCString (w : List UInt8) : CString := w.map fun c => Char.ofNat c.toNat

/-- A word and what is behind it are parts of the line. -/
theorem scanWord_length (isQuoted : Bool) (st : ScanState) (s : List UInt8) :
    ∀ w rest, scanWord isQuoted st s = some (w, rest) →
      w.length + (rest.elim 0 fun r => r.length + 1) ≤ s.length := by
  -- a byte in front of a word that is scanned
  have hcons : ∀ (st : ScanState) (c : UInt8) (s : List UInt8),
      (∀ w rest, scanWord isQuoted st s = some (w, rest) →
        w.length + (rest.elim 0 fun r => r.length + 1) ≤ s.length) →
      ∀ w rest, (scanWord isQuoted st s).map (Prod.map (c :: ·) id) = some (w, rest) →
        w.length + (rest.elim 0 fun r => r.length + 1) ≤ (c :: s).length := by
    intro st c s ih w rest h
    obtain ⟨⟨w', rest'⟩, hscan, heq⟩ := Option.map_eq_some_iff.mp h
    cases heq
    have hle := ih w' rest' hscan
    simp only [List.length_cons, id]
    omega
  have hend : ∀ (c : UInt8) (s w : List UInt8) (rest : Option (List UInt8)),
      some (([] : List UInt8), some s) = some (w, rest) →
        w.length + (rest.elim 0 fun r => r.length + 1) ≤ (c :: s).length := by
    intro c s w rest h
    cases h
    simp
  induction s generalizing st with
  | nil =>
    cases st
    · intro w rest h
      cases h
      simp
    · exact nofun
    · exact nofun
  | cons c s ih =>
    cases st <;> rw [scanWord] <;> split_ifs
    all_goals first | exact hcons _ c s (ih _) | exact hend c s

theorem scanFirst_length {c : UInt8} {s w : List UInt8} {rest : Option (List UInt8)}
    (h : scanFirst (c :: s) = some (w, rest)) :
    (opening c).length + w.length + (rest.elim 0 fun r => r.length + 1) ≤ (c :: s).length := by
  rw [scanFirst] at h
  unfold opening
  split_ifs at h ⊢ with hquote
  · have hle := scanWord_length _ _ _ _ _ h
    simp only [List.length_cons, List.length_nil]
    omega
  · have hle := scanWord_length _ _ _ _ _ h
    simp only [List.length_nil]
    omega

/-- The words that are scanned have room in the line, each with a byte behind it. -/
theorem scanWords_length (room : ℕ) {c : UInt8} {s : List UInt8} {ws : List (List UInt8)}
    (h : scanWords room (c :: s) = some (some ws)) :
    (opening c).length + (ws.map fun w => w.length + 1).sum ≤ (c :: s).length + 1 := by
  induction room generalizing c s ws with
  | zero => cases h
  | succ room ih =>
    rw [scanWords] at h
    cases hfirst : scanFirst (c :: s) with
    | none =>
      rw [hfirst] at h
      cases h
    | some x =>
      obtain ⟨w, rest⟩ := x
      have hle := scanFirst_length hfirst
      rw [hfirst] at h
      rcases rest with _ | rest
      · -- the last word has the NUL of the line behind it
        cases h
        simp only [Option.elim_none, List.map_cons, List.map_nil, List.sum_cons, List.sum_nil]
          at hle ⊢
        omega
      · dsimp only at h
        have hdrop := (List.dropWhile_sublist isBlank (l := rest)).length_le
        cases hrest : rest.dropWhile isBlank with
        | nil =>
          -- only blanks are left
          rw [hrest] at h
          cases h
          simp only [Option.elim_some, List.map_cons, List.map_nil, List.sum_cons, List.sum_nil]
            at hle ⊢
          omega
        | cons d t =>
          rw [hrest] at h hdrop
          simp only [Option.map_eq_some_iff] at h
          obtain ⟨_, hscan, ws', rfl, rfl⟩ := h
          have hlater := ih hscan
          simp only [Option.elim_some, List.map_cons, List.sum_cons] at hle ⊢
          omega

/-- The arguments of a line are in the line buffer. -/
theorem inLineBuffer_args {line : List UInt8} (hline : IsLine line) {r : SplitArgv}
    (hr : tlkSplitArgv (line ++ [0]) = some r) : InLineBuffer (r.args.map toCString) := by
  have hlt := hline.length_lt
  have hsum : ((r.args.map toCString).map fun a => a.length + 1) =
      r.args.map fun w => w.length + 1 := by
    rw [List.map_map]
    exact List.map_congr_left fun w _ => by simp [toCString]
  rw [InLineBuffer, hsum]
  cases hwords : line.dropWhile isBlank with
  | nil =>
    rw [tlkSplitArgv_nil hline hwords] at hr
    cases hr
    exact Nat.zero_le _
  | cons c s =>
    have hblank := isBlank_of_dropWhile hwords
    have hsub := List.dropWhile_sublist isBlank (l := line)
    rw [hwords] at hsub
    have hnul : ∀ b ∈ c :: s, b ≠ 0 := fun b hb => (hline.bytes b (hsub.mem hb)).2
    have hloop := splitLoop_spec (parseCharMaxArgvSize - 1) (line.takeWhile isBlank)
      [(line.takeWhile isBlank).length] hblank hnul
    rw [← tlkSplitArgv_cons hline hwords, hr] at hloop
    have hscan := @scanWords_length (parseCharMaxArgvSize - 1) c s
    generalize scanWords (parseCharMaxArgvSize - 1) (c :: s) = x at hloop hscan
    rcases x with _ | _ | ws
    · exact nomatch hloop
    · obtain ⟨m, ptrs, heq, -⟩ := hloop
      cases heq
      exact Nat.zero_le _
    · obtain ⟨w, t, ptrs, heq, hw, -, rfl⟩ := hloop
      cases heq
      have hargs := args_of_first (line.takeWhile isBlank) t c ptrs hw
      have hle := hscan rfl
      have hlen := hsub.length_le
      rw [hargs]
      simp only [List.map_cons, List.sum_cons, List.length_append] at hle ⊢
      omega

/-! ## What the commands store -/

/-- The byte `i` of an address, from the digits of its text. -/
def addrByte (str : CString) (i : ℕ) : UInt8 :=
  UInt8.ofNat (hexDigit (str.getD (3 * i) '\x00') * 16 + hexDigit (str.getD (3 * i + 1) '\x00'))

theorem bdaddrLoop_spec (str : CString) (k i : ℕ) :
    ∃ j ≤ k, (bdaddrLoop str k i (3 * i)).2 = storesAt i ((List.range' i j).map (addrByte str)) ∧
      ((bdaddrLoop str k i (3 * i)).1 = true → j = k) := by
  induction k generalizing i with
  | zero => exact ⟨0, le_rfl, rfl, fun _ => rfl⟩
  | succ k ih =>
    obtain ⟨j, hj, hstores, htrue⟩ := ih (i + 1)
    have hbyte : str2hexStores [str.getD (3 * i) '\x00', str.getD (3 * i + 1) '\x00'] i =
        [(i, addrByte str i)] := str2hexStores_eq _ _
    rw [bdaddrLoop]
    dsimp only
    rw [hbyte]
    split_ifs with hsep
    · -- a wrong separator ends the loop behind its pair
      exact ⟨1, by omega, rfl, nofun⟩
    · refine ⟨j + 1, by omega, ?_, fun h => congrArg (· + 1) (htrue h)⟩
      have hnext : 3 * (i + 1) = 3 * i + 3 := rfl
      rw [hnext] at hstores
      rw [hstores, List.range'_succ, List.map_cons, storesAt_cons]
      rfl

/-- `app_ap_parse_bdaddr` stores the first bytes of the address, all six if it accepts the text, and
nothing if the text has another length. -/
theorem appApParseBdaddr_spec (str : CString) :
    ∃ k ≤ 6, (appApParseBdaddr str).2 = storesAt 0 ((List.range k).map (addrByte str)) ∧
      ((appApParseBdaddr str).1 = true → k = 6) ∧ (str.length ≠ bdaddrStrLen → k = 0) := by
  unfold appApParseBdaddr
  split_ifs with hlen
  · exact ⟨0, by decide, rfl, nofun, fun _ => rfl⟩
  · obtain ⟨k, hk, hstores, htrue⟩ := bdaddrLoop_spec str 6 0
    rw [← List.range_eq_range'] at hstores
    exact ⟨k, hk, hstores, htrue, fun hne => absurd hne hlen⟩

theorem length_of_strcaseEq {a b : CString} (h : strcaseEq a b = true) : a.length = b.length := by
  have hmap := congrArg List.length (of_decide_eq_true h)
  rwa [List.length_map, List.length_map] at hmap

/-- The data of `ots_chan_send` fit a row: the line is too short for more. -/
theorem cmdOtsChannelSend_stores {name : CString} {argv : List CString}
    (hargs : InLineBuffer (name :: argv)) (hname : strcaseEq name "ots_chan_send".toList = true)
    {connIndex : BitVec 16 → Int} {row : Int} {stores : List Store}
    (h : cmdOtsChannelSend connIndex argv = some (row, stores)) :
    (∀ w ∈ stores, w.1 < otscL2capMtu) ∧ stores = storesAt 0 (str2hex (argv.getD 1 [])) ∧
      row = connIndex ((appParseStr2n (argv.getD 0 [])).setWidth 16) ∧ 0 ≤ row := by
  rcases argv with _ | ⟨connHandle, _ | ⟨data, argv⟩⟩
  · exact nomatch h
  · exact nomatch h
  · rw [cmdOtsChannelSend] at h
    split_ifs at h with hneg
    cases h
    rw [str2hexStores_eq]
    refine ⟨(storesAt_within_iff 0 _ _).mpr (.inr ?_), rfl, rfl, by simpa using hneg⟩
    have hlen : name.length = 13 := length_of_strcaseEq hname
    simp only [InLineBuffer, List.map_cons, List.sum_cons, shellRecvCmdBufSize, hlen] at hargs
    rw [length_str2hex, otscL2capMtu]
    omega

/-- `load_image` stores the bytes of its data from the offset on. -/
theorem cmdLoadImage_eq (argv : List CString) :
    cmdLoadImage argv =
      storesAt (loadImageOffset (argv.getD 0 [])) (str2hex (argv.getD 1 [])) := by
  rcases argv with _ | ⟨offset, _ | ⟨data, argv⟩⟩
  · rfl
  · rfl
  · exact str2hexStores_eq _ _

theorem otsChanSendP_within {connIndex : BitVec 16 → Int} {argv : List CString} {offset length : ℕ}
    (h : otsChanSendP connIndex argv = some (offset, length)) :
    offset + length ≤ preloadImageSize := by
  unfold otsChanSendP at h
  split at h
  · dsimp only at h
    split_ifs at h with hneg hout
    cases h
    omega
  · exact nomatch h

/-- The hexadecimal input of the shell. The arguments that it delivers are in its line buffer; with
these `ots_chan_send` stays in its row. The address parser stays in the six bytes, and
`ots_chan_send_p` in the image. Each stores the values of the complete pairs of digits in their
order. `load_image` stays in the image exactly if its data fit behind its offset, or there are
none. -/
theorem apHex_stores (connIndex : BitVec 16 → Int) (argv : List CString) :
    (∀ received line r, line ∈ appParseLoop [] received → tlkSplitArgv (line ++ [0]) = some r →
      InLineBuffer (r.args.map toCString)) ∧
    (∀ name row stores, InLineBuffer (name :: argv) →
      strcaseEq name "ots_chan_send".toList = true →
      cmdOtsChannelSend connIndex argv = some (row, stores) →
      (∀ w ∈ stores, w.1 < otscL2capMtu) ∧ stores = storesAt 0 (str2hex (argv.getD 1 [])) ∧
        row = connIndex ((appParseStr2n (argv.getD 0 [])).setWidth 16) ∧ 0 ≤ row) ∧
    (((∀ w ∈ cmdLoadImage argv, w.1 < preloadImageSize) ↔
        (argv.getD 1 []).length < 2 ∨
          loadImageOffset (argv.getD 0 []) + (argv.getD 1 []).length / 2 ≤ preloadImageSize) ∧
      cmdLoadImage argv =
        storesAt (loadImageOffset (argv.getD 0 [])) (str2hex (argv.getD 1 []))) ∧
    (∀ str, ∃ k ≤ 6,
      (appApParseBdaddr str).2 = storesAt 0 ((List.range k).map (addrByte str)) ∧
        ((appApParseBdaddr str).1 = true → k = 6) ∧ (str.length ≠ bdaddrStrLen → k = 0)) ∧
    ∀ offset length, otsChanSendP connIndex argv = some (offset, length) →
      offset + length ≤ preloadImageSize := by
  refine ⟨fun received line r hline hr => inLineBuffer_args (isLine_of_mem isLine_nil hline) hr,
    fun name row stores hargs hname h => cmdOtsChannelSend_stores hargs hname h,
    ⟨?_, cmdLoadImage_eq argv⟩, appApParseBdaddr_spec,
    fun offset length h => otsChanSendP_within h⟩
  rw [cmdLoadImage_eq, storesAt_within_iff, ← List.length_eq_zero_iff, length_str2hex]
  exact or_congr_left (by omega)

/-- The line `load_image 8191 0000` stores a byte behind the image. -/
theorem loadImage_behind_image :
    ¬ ∀ received line r name argv, line ∈ appParseLoop [] received →
      tlkSplitArgv (line ++ [0]) = some r → r.args.map toCString = name :: argv →
      strcaseEq name "load_image".toList = true →
      ∀ w ∈ cmdLoadImage argv, w.1 < preloadImageSize := by
  intro h
  let line : List UInt8 := "load_image 8191 0000".toList.map fun c => UInt8.ofNat c.toNat
  have hmem : line ∈ appParseLoop [] (line ++ [0x0A]) := by decide
  have hline := isLine_of_mem isLine_nil hmem
  obtain ⟨r, hr, -, -, hargs⟩ := (splitsLine_of_isLine hline).1 (by unfold RegularLine; decide)
  have hwords : r.args.map toCString =
      ["load_image".toList, "8191".toList, "0000".toList] := by
    rw [hargs]
    decide
  have hstores := h _ line r _ _ hmem hr hwords (by decide)
  rw [cmdLoadImage_eq] at hstores
  have hfits := (storesAt_within_iff _ _ _).mp hstores
  exact absurd hfits (by decide)

end TlBleSdk.Eslp
