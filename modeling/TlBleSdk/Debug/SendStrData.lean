import TlBleSdk.Debug.TlkapiDebug

/-!
# Records of a string and data

`tlkapi_send_str_data` of `tlkapi_debug.c` for all channels, with any size of the slots: the record
of each framing, and what a call overwrites. The output is left open: a record is taken when none
is being output, and is finished later.

`APP_REAL_TIME_PRINTF` is off, as in the defaults.
-/

namespace TlBleSdk.Debug

open Hci

/-! ## Framings -/

/-- `TLKAPI_DEBUG_CHANNEL`. -/
inductive DebugChannel
  | udb
  | gsuart
  | uart
deriving DecidableEq

/-- `dbg_chn`, and `TLKAPI_USE_INTERNAL_SPECIAL_UART_TOOL`. -/
structure DebugConfig where
  dbgChn : DebugChannel
  internalUartTool : Bool

/-- The slots of `tlkapi_print_fifo`. Their size is any `u32`. -/
structure Slots where
  size : ℕ
  num : ℕ
  size_lt : size < 4294967296
  num_pow : ∃ k, k ≤ 7 ∧ num = 2 ^ k

/-- `fifo_format_len`. -/
def DebugConfig.fifoFormatLen (cfg : DebugConfig) : ℕ :=
  if cfg.dbgChn = .udb then 9 + 6 else if cfg.internalUartTool then 12 else 0

/-- `fifo_data_len`, as `tlkapi_debug_init` sets it. -/
def DebugConfig.fifoDataLen (cfg : DebugConfig) (size : ℕ) : ℕ :=
  u16 (u32Sub size cfg.fifoFormatLen)

/-- `ns` and `data_len` behind the first truncation. -/
def keptLens (fifoDataLen ns dataLen : ℕ) : ℕ × ℕ :=
  if fifoDataLen < ns then (fifoDataLen, 0)
  else if fifoDataLen < dataLen + ns then (ns, fifoDataLen - ns)
  else (ns, dataLen)

/-- The bytes of a record for the USB tool. -/
def udbFrame (serial : ℕ) (str data : List UInt8) : List UInt8 :=
  [0x82, 8, 0x22] ++ uint16ToBstream data.length ++ data ++ serialText serial ++ str

/-- The bytes of a record for the internal UART tool. The length of the string is one byte. -/
def toolFrame (str data : List UInt8) : List UInt8 :=
  [0x95, 0xA6, UInt8.ofNat str.length] ++ uint16ToBstream data.length ++ str ++ data

/-- The text of a record. -/
def textFrame (serial : ℕ) (str data : List UInt8) : List UInt8 :=
  serialText serial ++ str ++ [0x3A] ++ hexText data ++ [0x0D, 0x0A]

/-- The bytes of a record behind its header. -/
def DebugConfig.frame (cfg : DebugConfig) (serial : ℕ) (str data : List UInt8) : List UInt8 :=
  if cfg.dbgChn = .udb then udbFrame serial str data
  else if cfg.internalUartTool then toolFrame str data
  else textFrame serial str data

/-- The record for the USB tool, with the number `serial`. -/
def udbRecord (fifoDataLen serial : ℕ) (str data : List UInt8) : LogRecord :=
  let kept := keptLens fifoDataLen str.length data.length
  { len := kept.2 + kept.1 + 5 + 6
    body := [0x82, 8, 0x22] ++ uint16ToBstream kept.2 ++ data.take kept.2 ++ serialText serial ++
      str.take kept.1 }

/-- The record for the internal UART tool. -/
def toolRecord (fifoDataLen : ℕ) (str data : List UInt8) : LogRecord :=
  let kept := keptLens fifoDataLen str.length data.length
  { len := kept.1 + kept.2 + 5
    body := [0x95, 0xA6, UInt8.ofNat kept.1] ++ uint16ToBstream kept.2 ++ str.take kept.1 ++
      data.take kept.2 }

/-- The record that `tlkapi_send_str_data` writes. -/
def DebugConfig.record (cfg : DebugConfig) (size serial : ℕ) (str data : List UInt8) : LogRecord :=
  if cfg.dbgChn = .udb then udbRecord (cfg.fifoDataLen size) serial str data
  else if cfg.internalUartTool then toolRecord (cfg.fifoDataLen size) str data
  else sendStrDataRecord (cfg.fifoDataLen size) serial str data

/-! ## The log -/

/-- The pointers and the array of the FIFO, `g_debug_serial`, and whether a record is being output;
where each record was written and its bytes, and how many records were output. -/
structure StrLog where
  wptr : ℕ
  rptr : ℕ
  p : ℕ → UInt8
  gDebugSerial : ℕ
  busy : Bool
  written : List (ℕ × List UInt8)
  output : ℕ

/-- A call of the producer, or a part of the output. -/
inductive StrLogEvent
  | send (str data : List UInt8)
  | take
  | finish

section Log

variable (cfg : DebugConfig) (f : Slots)

/-- The address of the slot of `wptr`. -/
def StrLog.slot (s : StrLog) : ℕ := (s.wptr &&& (f.num - 1)) * f.size

/-- `g_debug_serial` behind a call. The internal UART tool has no numbers. -/
def StrLog.serial (s : StrLog) : ℕ :=
  if cfg.dbgChn ≠ .udb ∧ cfg.internalUartTool then s.gDebugSerial else u16 (s.gDebugSerial + 1)

/-- The record of a call. -/
def StrLog.next (s : StrLog) (str data : List UInt8) : LogRecord :=
  cfg.record f.size (s.serial cfg) str data

/-- A step. -/
def strLogStep (s : StrLog) : StrLogEvent → StrLog
  | .send str data =>
    if 500 < data.length then s
    else
      { s with
        wptr := u8 (s.wptr + 1)
        p := memcpy s.p (s.slot f) (s.next cfg f str data).image
        gDebugSerial := s.serial cfg
        written := s.written ++ [(s.slot f, (s.next cfg f str data).image)] }
  | .take =>
    if !s.busy ∧ s.wptr ≠ s.rptr then { s with rptr := u8 (s.rptr + 1), busy := true } else s
  | .finish => if s.busy then { s with busy := false, output := s.output + 1 } else s

/-- `tlkapi_debug_init`, with any content of the array. -/
def StrLog.init (p : ℕ → UInt8) (serial : ℕ) : StrLog := ⟨0, 0, p, serial, false, [], 0⟩

/-- What a call writes is inside the slot of `wptr`, has its length in the header and prefixes of
the string and of the data in the framing, and overwrites no record that was not output. -/
structure SendOk (s : StrLog) (str data : List UInt8) : Prop where
  inside : (s.next cfg f str data).image.length ≤ f.size
  length : bytesToUint16 (mem (s.next cfg f str data).image) 0 = (s.next cfg f str data).body.length
  hex : ∃ j k, (s.next cfg f str data).body =
    cfg.frame (s.serial cfg) (str.take j) (data.take k)
  kept : ∀ r ∈ s.written.drop s.output, ∀ i < r.2.length,
    ∀ j < (s.next cfg f str data).image.length, r.1 + i ≠ s.slot f + j

/-- A step is correct. -/
def StrLogStepOk (s : StrLog) : StrLogEvent → Prop
  | .send str data => data.length ≤ 500 → SendOk cfg f s str data
  | _ => True

/-- The record fits its slot, and its length the header. -/
def RecordFits (size : ℕ) (ns dataLen : ℕ) : Prop :=
  if cfg.dbgChn = .udb then 15 ≤ size ∧ min ((size - 15) % 65536) (ns + dataLen) + 11 < 65536
  else if cfg.internalUartTool then
    if 12 ≤ size then min ((size - 12) % 65536) (ns + dataLen) + 5 < 65536
    else ns + dataLen + 9 ≤ size
  else if size < 65536 then ns + 13 ≤ size
  else ns + 10 < size % 65536 ∨
    min ns (size % 65536) + min dataLen (size % 65536 - ns) * 3 + 9 < 65536

/-- A slot is free for the record, and it fits. -/
def StrLogStepFits (s : StrLog) : StrLogEvent → Prop
  | .send str data => data.length ≤ 500 →
    (s.wptr + 256 - s.rptr) % 256 + s.busy.toNat < f.num ∧
      RecordFits cfg f.size str.length data.length
  | _ => True

end Log

/-! ## The lengths of a record -/

theorem keptLens_le (fifoDataLen ns dataLen : ℕ) :
    (keptLens fifoDataLen ns dataLen).1 ≤ ns ∧ (keptLens fifoDataLen ns dataLen).2 ≤ dataLen := by
  unfold keptLens
  split_ifs <;> constructor <;> dsimp only <;> omega

theorem keptLens_sum (fifoDataLen ns dataLen : ℕ) :
    (keptLens fifoDataLen ns dataLen).1 + (keptLens fifoDataLen ns dataLen).2 =
      min fifoDataLen (ns + dataLen) := by
  unfold keptLens
  split_ifs <;> dsimp only <;> omega

/-- `max_len`, for what is left behind the string. -/
def maxLen (left : ℤ) : ℕ := (((left - 3 - 4 - 6).tdiv 3) % 65536).toNat

/-- The division of `int` rounds to zero, and a negative quotient is a large `u16`. -/
theorem maxLen_eq {left : ℕ} (h : left < 65536) :
    maxLen left = if 13 ≤ left then (left - 13) / 3
      else if 11 ≤ left then 0 else 65536 - (13 - left) / 3 := by
  unfold maxLen
  split_ifs with h13 h11
  · have hsub : (left : ℤ) - 3 - 4 - 6 = ((left - 13 : ℕ) : ℤ) := by omega
    rw [hsub, Int.tdiv_eq_ediv_of_nonneg (Int.natCast_nonneg _)]
    omega
  · have hcases : left = 11 ∨ left = 12 := by omega
    rcases hcases with rfl | rfl <;> decide
  · have hneg : (left : ℤ) - 3 - 4 - 6 = -((13 - left : ℕ) : ℤ) := by omega
    rw [hneg, Int.neg_tdiv, Int.tdiv_eq_ediv_of_nonneg (Int.natCast_nonneg _)]
    omega

/-- What the plain framing keeps of the string and the data. -/
def textLens (fifoDataLen ns dataLen : ℕ) : ℕ × ℕ :=
  let kept := keptLens fifoDataLen ns dataLen
  (kept.1, min kept.2 (maxLen (fifoDataLen - kept.1)))

theorem sendStrDataRecord_eq (fifoDataLen serial : ℕ) (str data : List UInt8) :
    let kept := textLens fifoDataLen str.length data.length
    sendStrDataRecord fifoDataLen serial str data =
      { len := kept.1 + kept.2 * 3 + 3 + 6
        body := textFrame serial (str.take kept.1) (data.take kept.2) } := by
  have hkept : keptLens fifoDataLen str.length data.length =
      (if fifoDataLen < str.length then fifoDataLen else str.length,
        if fifoDataLen < str.length then 0
        else if fifoDataLen < data.length +
          (if fifoDataLen < str.length then fifoDataLen else str.length) then
            fifoDataLen - (if fifoDataLen < str.length then fifoDataLen else str.length)
        else data.length) := by
    unfold keptLens
    split_ifs <;> rfl
  have hmin : ∀ a b : ℕ, (if b < a then b else a) = min a b := by
    intro a b
    split_ifs <;> omega
  unfold sendStrDataRecord textLens
  rw [hkept]
  simp only [hmin]
  rfl

theorem length_uint16ToBstream (n : ℕ) : (uint16ToBstream n).length = 2 := rfl

theorem length_serialText (serial : ℕ) : (serialText serial).length = 6 := rfl

section Record

variable (fifoDataLen serial : ℕ) (str data : List UInt8)

/-- The framings of what is kept. -/
theorem udbRecord_eq :
    let kept := keptLens fifoDataLen str.length data.length
    (udbRecord fifoDataLen serial str data).body =
        udbFrame serial (str.take kept.1) (data.take kept.2) ∧
      (udbRecord fifoDataLen serial str data).body.length = kept.1 + kept.2 + 11 ∧
      (udbRecord fifoDataLen serial str data).len = kept.1 + kept.2 + 11 := by
  obtain ⟨hns, hdata⟩ := keptLens_le fifoDataLen str.length data.length
  unfold udbRecord udbFrame
  dsimp only
  refine ⟨?_, ?_, ?_⟩
  · rw [List.length_take, min_eq_left hdata]
  · simp only [List.length_append, List.length_take, length_uint16ToBstream, length_serialText,
      min_eq_left hns, min_eq_left hdata, List.length_cons, List.length_nil]
    omega
  · omega

theorem toolRecord_eq :
    let kept := keptLens fifoDataLen str.length data.length
    (toolRecord fifoDataLen str data).body = toolFrame (str.take kept.1) (data.take kept.2) ∧
      (toolRecord fifoDataLen str data).body.length = kept.1 + kept.2 + 5 ∧
      (toolRecord fifoDataLen str data).len = kept.1 + kept.2 + 5 := by
  obtain ⟨hns, hdata⟩ := keptLens_le fifoDataLen str.length data.length
  unfold toolRecord toolFrame
  dsimp only
  refine ⟨?_, ?_, rfl⟩
  · rw [List.length_take, List.length_take, min_eq_left hns, min_eq_left hdata]
  · simp only [List.length_append, List.length_take, length_uint16ToBstream,
      min_eq_left hns, min_eq_left hdata, List.length_cons, List.length_nil]
    omega

theorem length_body_sendStrDataRecord :
    let kept := textLens fifoDataLen str.length data.length
    (sendStrDataRecord fifoDataLen serial str data).body.length = kept.1 + kept.2 * 3 + 9 := by
  have hlen := len_sendStrDataRecord fifoDataLen serial str data
  dsimp only
  rw [← hlen, sendStrDataRecord_eq]

end Record

section Fits

variable (cfg : DebugConfig) (size serial : ℕ) (str data : List UInt8)

/-- The header has the length of the record. -/
theorem len_record :
    (cfg.record size serial str data).len = (cfg.record size serial str data).body.length := by
  unfold DebugConfig.record
  split_ifs
  · obtain ⟨-, hbody, hlen⟩ := udbRecord_eq (cfg.fifoDataLen size) serial str data
    rw [hbody, hlen]
  · obtain ⟨-, hbody, hlen⟩ := toolRecord_eq (cfg.fifoDataLen size) str data
    rw [hbody, hlen]
  · exact len_sendStrDataRecord _ _ _ _

/-- The record is the framing of a prefix of the string and a prefix of the data. -/
theorem body_record : ∃ j k,
    (cfg.record size serial str data).body = cfg.frame serial (str.take j) (data.take k) := by
  unfold DebugConfig.record DebugConfig.frame
  split_ifs
  · exact ⟨_, _, (udbRecord_eq _ serial str data).1⟩
  · exact ⟨_, _, (toolRecord_eq _ str data).1⟩
  · exact ⟨_, _, congrArg LogRecord.body (sendStrDataRecord_eq _ serial str data)⟩

/-- `fifo_data_len` wraps for slots that are smaller than the overhead. -/
theorem u16_u32Sub {size k : ℕ} (hsize : size < 4294967296) (hk : k < 65536) :
    u16 (u32Sub size k) = if k ≤ size then (size - k) % 65536 else size + 65536 - k := by
  unfold u16 u32Sub u32
  split_ifs <;> omega

/-- The lengths of the plain framing, with what the string leaves. -/
theorem textLens_eq {fifoDataLen ns dataLen : ℕ} (hfifo : fifoDataLen < 65536)
    (hdata : dataLen ≤ 500) :
    textLens fifoDataLen ns dataLen = (min ns fifoDataLen,
      min (min dataLen (fifoDataLen - ns))
        (if 13 + ns ≤ fifoDataLen then (fifoDataLen - ns - 13) / 3
        else if 11 + ns ≤ fifoDataLen then 0 else 500)) := by
  have hkept : keptLens fifoDataLen ns dataLen =
      (min ns fifoDataLen, min dataLen (fifoDataLen - ns)) := by
    unfold keptLens
    split_ifs <;> rw [Prod.mk.injEq] <;> omega
  have hleft : (fifoDataLen : ℤ) - (min ns fifoDataLen : ℕ) = (fifoDataLen - ns : ℕ) := by omega
  unfold textLens
  rw [hkept]
  dsimp only
  rw [hleft, maxLen_eq (by omega), Prod.mk.injEq]
  refine ⟨rfl, ?_⟩
  split_ifs <;> omega

/-- The truncations and the 16-bit length are right exactly if the record fits. -/
theorem recordFits_iff (hsize : size < 4294967296) (hdata : data.length ≤ 500) :
    (cfg.record size serial str data).image.length ≤ size ∧
        (cfg.record size serial str data).body.length < 65536 ↔
      RecordFits cfg size str.length data.length := by
  rw [length_image]
  -- each framing has its own overhead, and `fifo_data_len` wraps below it
  unfold DebugConfig.record RecordFits DebugConfig.fifoDataLen DebugConfig.fifoFormatLen
  by_cases hudb : cfg.dbgChn = .udb
  · rw [if_pos hudb, if_pos hudb, if_pos hudb]
    have hsum := keptLens_sum (u16 (u32Sub size (9 + 6))) str.length data.length
    obtain ⟨-, hbody, -⟩ := udbRecord_eq (u16 (u32Sub size (9 + 6))) serial str data
    rw [hbody, hsum, u16_u32Sub hsize (by decide)]
    split_ifs <;> omega
  rw [if_neg hudb, if_neg hudb, if_neg hudb]
  by_cases htool : cfg.internalUartTool = true
  · rw [if_pos htool, if_pos htool, if_pos htool]
    have hsum := keptLens_sum (u16 (u32Sub size 12)) str.length data.length
    obtain ⟨-, hbody, -⟩ := toolRecord_eq (u16 (u32Sub size 12)) str data
    rw [hbody, hsum, u16_u32Sub hsize (by decide)]
    split_ifs <;> omega
  · rw [if_neg htool, if_neg htool, if_neg htool]
    have hfifo : size % 65536 < 65536 := Nat.mod_lt _ (by decide)
    have hbody := length_body_sendStrDataRecord (u16 (u32Sub size 0)) serial str data
    rw [u16_u32Sub hsize (by decide), if_pos (Nat.zero_le _), Nat.sub_zero,
      textLens_eq hfifo hdata] at hbody
    rw [u16_u32Sub hsize (by decide), if_pos (Nat.zero_le _), Nat.sub_zero, hbody]
    dsimp only
    split_ifs <;> omega

end Fits

/-! ## Runs -/

theorem Slots.num_dvd (f : Slots) : f.num ∣ 256 := by
  obtain ⟨k, hk, hnum⟩ := f.num_pow
  rw [hnum]
  exact Nat.pow_dvd_pow 2 (Nat.le_succ_of_le hk)

theorem Slots.num_le (f : Slots) : 0 < f.num ∧ f.num ≤ 128 := by
  obtain ⟨k, hk, hnum⟩ := f.num_pow
  rw [hnum]
  exact ⟨Nat.two_pow_pos k, Nat.pow_le_pow_right (by decide) hk⟩

/-- The records that were not output are in different slots, each within its own. -/
structure StrLog.Inv (f : Slots) (s : StrLog) : Prop where
  wptr_eq : s.wptr = s.written.length % 256
  rptr_eq : s.rptr = (s.output + s.busy.toNat) % 256
  taken_le : s.output + s.busy.toNat ≤ s.written.length
  room : s.written.length ≤ s.output + f.num
  slots : ∀ i (h : i < s.written.length), s.written[i].1 = i % f.num * f.size
  fits : ∀ r ∈ s.written, 0 < r.2.length ∧ r.2.length ≤ f.size

namespace StrLog.Inv

variable {cfg : DebugConfig} {f : Slots} {s : StrLog}

theorem slot_eq (h : s.Inv f) : s.slot f = s.written.length % f.num * f.size := by
  obtain ⟨k, -, hnum⟩ := f.num_pow
  have hmask : s.wptr &&& (f.num - 1) = s.wptr % f.num := by
    rw [hnum, Nat.and_two_pow_sub_one_eq_mod]
  rw [StrLog.slot, hmask, h.wptr_eq, Nat.mod_mod_of_dvd _ f.num_dvd]

/-- A slot is free as the pointers show it. -/
theorem free_iff (h : s.Inv f) : (s.wptr + 256 - s.rptr) % 256 + s.busy.toNat < f.num ↔
    s.written.length < s.output + f.num := by
  have hnum := f.num_le
  have hw := h.wptr_eq
  have hr := h.rptr_eq
  have htaken := h.taken_le
  have hroom := h.room
  have hbusy := Bool.toNat_le s.busy
  have hused : (s.wptr + 256 - s.rptr) % 256 =
      s.written.length - (s.output + s.busy.toNat) := by omega
  rw [hused]
  omega

/-- The records that were not output are not overwritten exactly if a slot is free. -/
theorem kept_iff (h : s.Inv f) {n : ℕ} (hpos : 0 < n) (hle : n ≤ f.size) :
    (∀ r ∈ s.written.drop s.output, ∀ i < r.2.length, ∀ j < n, r.1 + i ≠ s.slot f + j) ↔
      s.written.length < s.output + f.num := by
  have hnum := f.num_le
  have htaken := h.taken_le
  rw [h.slot_eq]
  constructor
  · intro hkept
    -- the oldest record that was not output is in the slot of `wptr`
    by_contra hfull
    have hroom := h.room
    have hlen : s.written.length = s.output + f.num := by omega
    have hin : s.output < s.written.length := by omega
    have hmem : s.written[s.output] ∈ s.written.drop s.output :=
      List.mem_drop_iff_getElem.mpr ⟨0, by omega, by simp⟩
    have hfits := h.fits _ (List.getElem_mem hin)
    refine hkept _ hmem 0 hfits.1 0 hpos ?_
    rw [h.slots s.output hin, hlen, Nat.add_mod_right]
  · intro hfree r hr i hi j hj heq
    obtain ⟨k, hk, rfl⟩ := List.mem_drop_iff_getElem.mp hr
    have hfits := h.fits _ (List.getElem_mem (by omega : s.output + k < s.written.length))
    rw [h.slots _ (by omega)] at heq
    have hne : (s.output + k) % f.num ≠ s.written.length % f.num :=
      Ring.mod_ne_of_lt (by omega) (by omega)
    -- an address is in one slot only
    have hsize : 0 < f.size := by omega
    have hdiv := congrArg (· / f.size) heq
    rw [Nat.mul_comm, Nat.mul_add_div hsize, Nat.div_eq_of_lt (by omega), Nat.mul_comm,
      Nat.mul_add_div hsize, Nat.div_eq_of_lt (by omega)] at hdiv
    exact hne hdiv

theorem init (p : ℕ → UInt8) (serial : ℕ) : (StrLog.init p serial).Inv f where
  wptr_eq := rfl
  rptr_eq := rfl
  taken_le := Nat.le_refl _
  room := Nat.zero_le _
  slots := fun _ h => absurd h (Nat.not_lt_zero _)
  fits := fun _ hr => nomatch hr

theorem sendOk_iff (h : s.Inv f) {str data : List UInt8} (hdata : data.length ≤ 500) :
    SendOk cfg f s str data ↔ (s.wptr + 256 - s.rptr) % 256 + s.busy.toNat < f.num ∧
      RecordFits cfg f.size str.length data.length := by
  have hrecord : (s.next cfg f str data).image.length ≤ f.size ∧
      (s.next cfg f str data).body.length < 65536 ↔ RecordFits cfg f.size str.length data.length :=
    recordFits_iff cfg f.size (s.serial cfg) str data f.size_lt hdata
  have hlen : (s.next cfg f str data).len = (s.next cfg f str data).body.length :=
    len_record cfg f.size (s.serial cfg) str data
  have himage := length_image (s.next cfg f str data)
  -- the two bytes of the header have the length modulo 65536
  have hheader : bytesToUint16 (mem (s.next cfg f str data).image) 0 =
      (s.next cfg f str data).body.length ↔ (s.next cfg f str data).body.length < 65536 := by
    show (UInt8.ofNat (s.next cfg f str data).len).toNat +
      (UInt8.ofNat ((s.next cfg f str data).len / 256)).toNat * 256 = _ ↔ _
    rw [hlen]
    simp only [UInt8.toNat_ofNat']
    omega
  rw [h.free_iff, ← hrecord]
  constructor
  · intro hok
    have hkept := (h.kept_iff (by omega) hok.inside).mp hok.kept
    exact ⟨hkept, hok.inside, hheader.mp hok.length⟩
  · rintro ⟨hfree, hinside, hlen⟩
    exact ⟨hinside, hheader.mpr hlen, body_record _ _ _ _ _,
      (h.kept_iff (by omega) hinside).mpr hfree⟩

theorem slots_append (h : s.Inv f) (b : List UInt8) (i : ℕ)
    (hi : i < (s.written ++ [(s.slot f, b)]).length) :
    (s.written ++ [(s.slot f, b)])[i].1 = i % f.num * f.size := by
  rw [List.length_append, List.length_singleton] at hi
  rcases Nat.lt_or_ge i s.written.length with hlt | hge
  · rw [List.getElem_append_left hlt]
    exact h.slots i hlt
  · obtain rfl : i = s.written.length := by omega
    rw [List.getElem_append_right le_rfl]
    simp only [Nat.sub_self, List.getElem_cons_zero]
    exact h.slot_eq

theorem send (h : s.Inv f) {str data : List UInt8} (hfree : s.written.length < s.output + f.num)
    (hinside : (s.next cfg f str data).image.length ≤ f.size) :
    (strLogStep cfg f s (.send str data)).Inv f := by
  have hnum := f.num_le
  have htaken := h.taken_le
  have hw := h.wptr_eq
  rw [strLogStep]
  split_ifs with hlong
  · exact h
  refine ⟨?_, h.rptr_eq, ?_, ?_, h.slots_append _, fun r hr => ?_⟩
  · show u8 (s.wptr + 1) = (s.written ++ [_]).length % 256
    rw [List.length_append, List.length_singleton, hw]
    unfold u8
    omega
  · show s.output + s.busy.toNat ≤ (s.written ++ [_]).length
    rw [List.length_append]
    omega
  · show (s.written ++ [_]).length ≤ s.output + f.num
    rw [List.length_append, List.length_singleton]
    omega
  · rcases List.mem_append.mp hr with hr | hr
    · exact h.fits r hr
    · rw [List.mem_singleton.mp hr]
      have himage := length_image (s.next cfg f str data)
      exact ⟨by dsimp only; omega, hinside⟩

theorem take (h : s.Inv f) : (strLogStep cfg f s .take).Inv f := by
  have hw := h.wptr_eq
  have hr := h.rptr_eq
  have htaken := h.taken_le
  rw [strLogStep]
  split_ifs with htake
  · obtain ⟨hbusy, hne⟩ := htake
    rw [Bool.not_eq_true'] at hbusy
    rw [hbusy, Bool.toNat_false] at hr htaken
    refine ⟨hw, ?_, ?_, h.room, h.slots, h.fits⟩
    · show u8 (s.rptr + 1) = (s.output + 1) % 256
      unfold u8
      omega
    · -- the pointers differ, so that a record is left
      show s.output + 1 ≤ s.written.length
      by_contra hlt
      have hlen : s.written.length = s.output := by omega
      exact hne (by rw [hw, hr, hlen, Nat.add_zero])
  · exact h

theorem finish (h : s.Inv f) : (strLogStep cfg f s .finish).Inv f := by
  rw [strLogStep]
  split_ifs with hbusy
  · have hr := h.rptr_eq
    have htaken := h.taken_le
    have hroom := h.room
    rw [hbusy] at hr htaken
    exact ⟨h.wptr_eq, hr, htaken, by dsimp only; omega, h.slots, h.fits⟩
  · exact h

theorem step (h : s.Inv f) {e : StrLogEvent} (hfits : StrLogStepFits cfg f s e) :
    (strLogStep cfg f s e).Inv f := by
  cases e with
  | send str data =>
    by_cases hlong : 500 < data.length
    · rw [strLogStep, if_pos hlong]
      exact h
    · have hdata : data.length ≤ 500 := Nat.le_of_not_lt hlong
      have hok := (h.sendOk_iff hdata).mpr (hfits hdata)
      exact h.send (h.free_iff.mp (hfits hdata).1) hok.inside
  | take => exact h.take
  | finish => exact h.finish

theorem ok_iff (h : s.Inv f) (e : StrLogEvent) :
    StrLogStepOk cfg f s e ↔ StrLogStepFits cfg f s e := by
  cases e with
  | send str data => exact forall_congr' fun hdata => h.sendOk_iff hdata
  | take => exact Iff.rfl
  | finish => exact Iff.rfl

end StrLog.Inv

/-- In every run all records are written inside their slots, with their lengths and prefixes of the
data, and none is overwritten before it was output, exactly if each is written to a free slot that
it fits. -/
theorem send_str_data (cfg : DebugConfig) (f : Slots) (p : ℕ → UInt8) (serial : ℕ)
    (events : List StrLogEvent) :
    Machine.Along (strLogStep cfg f) (StrLogStepOk cfg f) (StrLog.init p serial) events ↔
      Machine.Along (strLogStep cfg f) (StrLogStepFits cfg f) (StrLog.init p serial) events :=
  Machine.along_congr_of_invariant (fun _ _ h hfits => h.step hfits) (fun _ e h => h.ok_iff e)
    (StrLog.Inv.init p serial)

/-- The default size, with one slot. -/
def oneSlot : Slots := ⟨288, 1, by decide, 0, by decide, rfl⟩

/-- A string of 280 characters leaves no room for what is around it, and nothing keeps a record from
being overwritten. -/
theorem not_send_str_data :
    (¬ Machine.Along (strLogStep ⟨.gsuart, false⟩ oneSlot) (StrLogStepOk ⟨.gsuart, false⟩ oneSlot)
      (StrLog.init (fun _ => 0) 0) [.send (List.replicate 280 0x61) []]) ∧
      ¬ Machine.Along (strLogStep ⟨.udb, false⟩ oneSlot) (StrLogStepOk ⟨.udb, false⟩ oneSlot)
        (StrLog.init (fun _ => 0) 0) [.send [0x61] [], .send [0x62] []] := by
  have hinit : (StrLog.init (fun _ => 0) 0).Inv oneSlot := StrLog.Inv.init _ _
  constructor
  · intro h
    have hfits := ((hinit.ok_iff _).mp h.1 (Nat.zero_le _)).2
    rw [List.length_replicate] at hfits
    exact absurd (show 280 + 13 ≤ 288 from hfits) (by decide)
  · intro h
    have hfirst := (hinit.ok_iff _).mp h.1
    have hfree := (((hinit.step hfirst).ok_iff _).mp h.2.1 (Nat.zero_le _)).1
    revert hfree
    decide

end TlBleSdk.Debug
