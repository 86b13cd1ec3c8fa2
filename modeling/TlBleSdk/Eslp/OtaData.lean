import Mathlib.Data.List.Infix
import TlBleSdk.Eslp.OtaClient

/-!
# The data phase of the OTA client

The PDUs of a session have consecutive indices, are accepted once each whatever writes are
refused before, and their data go through the image. The last one is made up to a multiple of
16 bytes with `0xFF`, by `16 - (len & 15)` bytes, so a length that is one already gets 16 bytes
more. The PDUs are those of the firmware exactly when its size is not a multiple of 16.
-/

namespace TlBleSdk.Eslp

open NorFlash Hci Machine

/-! ## What is sent -/

/-- The data PDUs that were accepted in the session, the first one first. -/
def acceptedPdus : List OtaOut → List (List UInt8)
  | [] => []
  | .started .. :: _ => []
  | .write .otaData _ buf true :: log => acceptedPdus log ++ [buf]
  | _ :: log => acceptedPdus log

/-- The data PDUs of the session, whether they were accepted or not. -/
def builtPdus : List OtaOut → List (List UInt8)
  | [] => []
  | .started .. :: _ => []
  | .write .otaData _ buf _ :: log => buf :: builtPdus log
  | _ :: log => builtPdus log

/-- The index of a PDU. -/
def pduIndex (pdu : List UInt8) : ℕ := bytesToUint16 (mem pdu) 0

/-- The data of a PDU. -/
def pduData (pdu : List UInt8) : List UInt8 := (pdu.drop 2).take (pdu.length - 4)

/-- The image at `addr`, made up to a multiple of 16 bytes. -/
def paddedImage (flash : Cells) (addr : ℕ) : List UInt8 :=
  flashReadPage flash addr (fwSize flash addr) ++
    List.replicate ((16 - fwSize flash addr % 16) % 16) 0xFF

/-- A pass of the data phase gets to the next PDU: the time of the session is not over, that
behind its start and behind the last PDU is, and the controller has room. -/
structure Due (clt : OtaClient) (env : OtaEnv) : Prop where
  running : clockTimeExceed (env.clock 0) clt.otaStartTick (otaTimeoutS * 1000000) = false
  started : clockTimeExceed (env.clock 1) clt.otaStartTick 50000 = true
  apart : clockTimeExceed (env.clock 2) clt.pushOtaDataTick 500 = true
  room : env.txFifoNumber < aclCentralTxFifoNum - 4

/-- The session sends its firmware. The PDUs that were accepted have the indices from zero on,
each once, and their data are the beginning of the image made up to a multiple of 16 bytes. In
every PDU, also in one that was refused, the CRC is behind the data, and all of it is in
`ota_buffer`. When a pass gets to the next PDU, and it is accepted, then it is one more, unless
the phase is over. And then all of them were accepted, and the data are the whole image. -/
structure SendsFirmware (bigPdu : Bool) (crc16 : List UInt8 → ℕ) (flash : Cells) (s : OtaRun) :
    Prop where
  index_eq : (acceptedPdus s.log).map pduIndex = List.range (acceptedPdus s.log).length
  data_prefix : ((acceptedPdus s.log).map pduData).flatten <+: paddedImage flash s.clt.otaNewFwAddr
  crc_eq : ∀ pdu ∈ builtPdus s.log,
    pdu.drop (pdu.length - 2) = uint16ToBstream (crc16 (pdu.take (pdu.length - 2)))
  fits : ∀ pdu ∈ builtPdus s.log, pdu.length ≤ otaBufferSize
  goes_on : s.clt.otaUpdateFlow = .otaData → ∀ env : OtaEnv, env.flash = flash →
    Due s.clt env → env.written = true →
    (∃ pdu, acceptedPdus (otaStep bigPdu crc16 s (.mainloop env)).log =
      acceptedPdus s.log ++ [pdu]) ∨
        (otaStep bigPdu crc16 s (.mainloop env)).clt.otaUpdateFlow = .otaEnd
  all_sent : s.clt.otaUpdateFlow = .otaEnd ∨ s.clt.otaUpdateFlow = .waitOtaResult →
    (acceptedPdus s.log).length = s.clt.lastAdrIndex + 1 ∧
      ((acceptedPdus s.log).map pduData).flatten = paddedImage flash s.clt.otaNewFwAddr

/-! ## The image -/

/-- The image at `addr`. -/
def image (flash : Cells) (addr : ℕ) : Cells := fun i => flash (u32 (addr + i))

theorem flashReadPage_image (flash : Cells) (addr k n : ℕ) :
    flashReadPage flash (u32 (addr + k)) n = read (image flash addr) k n := by
  apply List.map_congr_left
  intro i _
  show flash (u32 (u32 (addr + k) + (0 + i))) = flash (u32 (addr + (k + i)))
  unfold u32
  rw [Nat.mod_add_mod, Nat.zero_add, Nat.add_assoc]

/-- The data of the PDU with the index `i`, for an image of `size` bytes. -/
def imagePduData (bigPdu : Bool) (flash : Cells) (addr size i : ℕ) : List UInt8 :=
  let len := otaPduLength bigPdu
  let valid := if size % len = 0 then len else size % len
  if i = size / len then
    read (image flash addr) (i * len) valid ++ List.replicate (16 - valid % 16) 0xFF
  else read (image flash addr) (i * len) len

theorem otaPduLength_cases (bigPdu : Bool) :
    otaPduLength bigPdu = 16 ∨ otaPduLength bigPdu = 240 := by
  cases bigPdu
  · exact .inl rfl
  · exact .inr rfl

/-- The bytes of full PDUs, one behind the other. -/
theorem flatten_reads (c : Cells) (len n : ℕ) :
    ((List.range n).map fun i => read c (i * len) len).flatten = read c 0 (n * len) := by
  induction n with
  | zero => rw [Nat.zero_mul]; rfl
  | succ n ih =>
    rw [List.range_succ, List.map_append, List.flatten_append, ih, Nat.succ_mul, read_add,
      Nat.zero_add, List.map_singleton, List.flatten_singleton]

section Image

variable (bigPdu : Bool) (flash : Cells) (addr size : ℕ)

/-- What the data of all PDUs are together. -/
theorem flatten_imagePduData :
    ((List.range (size / otaPduLength bigPdu + 1)).map
      (imagePduData bigPdu flash addr size)).flatten =
      read (image flash addr) 0 (size / otaPduLength bigPdu * otaPduLength bigPdu +
        if size % otaPduLength bigPdu = 0 then otaPduLength bigPdu
        else size % otaPduLength bigPdu) ++ List.replicate (16 - size % 16) 0xFF := by
  have hfront : (List.range (size / otaPduLength bigPdu)).map
      (imagePduData bigPdu flash addr size) =
      (List.range (size / otaPduLength bigPdu)).map fun i =>
        read (image flash addr) (i * otaPduLength bigPdu) (otaPduLength bigPdu) := by
    apply List.map_congr_left
    intro i hi
    exact if_neg (Nat.ne_of_lt (List.mem_range.mp hi))
  have hpad : (if size % otaPduLength bigPdu = 0 then otaPduLength bigPdu
      else size % otaPduLength bigPdu) % 16 = size % 16 := by
    rcases otaPduLength_cases bigPdu with hlen | hlen <;> rw [hlen] <;> split <;> omega
  rw [List.range_succ, List.map_append, List.flatten_append, hfront, flatten_reads, read_add,
    Nat.zero_add, List.map_singleton, List.flatten_singleton, List.append_assoc]
  congr 1
  show (if size / otaPduLength bigPdu = size / otaPduLength bigPdu then _ else _) = _
  rw [if_pos rfl, hpad]

/-- The data of all PDUs are the image made up to a multiple of 16 bytes, unless its size is
such a multiple. -/
theorem flatten_imagePduData_iff :
    ((List.range (size / otaPduLength bigPdu + 1)).map
      (imagePduData bigPdu flash addr size)).flatten =
        read (image flash addr) 0 size ++ List.replicate ((16 - size % 16) % 16) 0xFF ↔
      size % 16 ≠ 0 := by
  rw [flatten_imagePduData]
  constructor
  · -- the length tells
    intro h haligned
    have htotal := congrArg List.length h
    simp only [List.length_append, length_read, List.length_replicate, haligned] at htotal
    revert htotal
    rcases otaPduLength_cases bigPdu with hlen | hlen <;> rw [hlen] <;> split <;> omega
  · intro hpad
    have htotal : (size / otaPduLength bigPdu * otaPduLength bigPdu +
        if size % otaPduLength bigPdu = 0 then otaPduLength bigPdu
        else size % otaPduLength bigPdu) = size := by
      rcases otaPduLength_cases bigPdu with hlen | hlen <;> rw [hlen] <;> split <;> omega
    rw [htotal, Nat.mod_eq_of_lt (show 16 - size % 16 < 16 by omega)]

/-- Unless the size is a multiple of 16, no PDU has more data than a full one. -/
theorem length_imagePduData_le (hpad : size % 16 ≠ 0) (i : ℕ) :
    (imagePduData bigPdu flash addr size i).length ≤ 240 := by
  unfold imagePduData
  dsimp only
  split
  · rw [List.length_append, length_read, List.length_replicate]
    rcases otaPduLength_cases bigPdu with hlen | hlen <;> rw [hlen] <;> split <;> omega
  · rw [length_read]
    cases bigPdu <;> decide

end Image

/-! ## The PDUs -/

section Pdu

variable (crc16 : List UInt8 → ℕ) (data : List UInt8)

theorem length_otaPdu (i : ℕ) : (otaPdu crc16 i data).length = data.length + 4 := by
  simp only [otaPdu, uint16ToBstream, List.length_append, List.length_cons, List.length_nil]
  omega

theorem pduIndex_otaPdu {i : ℕ} (hi : i < 65536) : pduIndex (otaPdu crc16 i data) = i := by
  show (UInt8.ofNat i).toNat + (UInt8.ofNat (i / 256)).toNat * 256 = i
  simp only [UInt8.toNat_ofNat']
  omega

theorem pduData_otaPdu (i : ℕ) : pduData (otaPdu crc16 i data) = data := by
  unfold pduData
  rw [length_otaPdu, Nat.add_sub_cancel]
  unfold otaPdu
  rw [List.append_assoc]
  show ((uint16ToBstream i ++ (data ++ _)).drop (uint16ToBstream i).length).take data.length = data
  rw [List.drop_left, List.take_left]

theorem crc_otaPdu (i : ℕ) :
    (otaPdu crc16 i data).drop ((otaPdu crc16 i data).length - 2) =
      uint16ToBstream (crc16 ((otaPdu crc16 i data).take ((otaPdu crc16 i data).length - 2))) := by
  have hlen : (uint16ToBstream i ++ data).length = (otaPdu crc16 i data).length - 2 := by
    rw [length_otaPdu, List.length_append]
    show 2 + data.length = _
    omega
  unfold otaPdu at hlen ⊢
  rw [List.drop_left' hlen, List.take_left' hlen]

end Pdu

/-! ## The invariant -/

/-- The main loop reads this flash. -/
def OtaEvent.Reads (flash : Cells) : OtaEvent → Prop
  | .mainloop env => env.flash = flash
  | _ => True

/-- The steps before the first data PDU. -/
def OtaStep.BeforeData (step : OtaStep) : Prop :=
  step = .checkFw ∨ step = .updateConn ∨ step = .reqFwVersion ∨ step = .waitFwVersion ∨
    step = .otaStart

section Session

variable (bigPdu : Bool) (crc16 : List UInt8 → ℕ) (flash : Cells)

/-- The PDU with the index `i` of the image at `addr`. -/
def imagePdu (addr i : ℕ) : List UInt8 :=
  otaPdu crc16 i (imagePduData bigPdu flash addr (fwSize flash addr) i)

/-- What the check of the firmware stored. -/
structure Checked (clt : OtaClient) : Prop where
  size_le : fwSize flash clt.otaNewFwAddr ≤ fwSizeMax
  last_eq : clt.lastAdrIndex = fwSize flash clt.otaNewFwAddr / otaPduLength bigPdu
  valid_eq : clt.lastValidPduLen =
    if fwSize flash clt.otaNewFwAddr % otaPduLength bigPdu = 0 then otaPduLength bigPdu
    else fwSize flash clt.otaNewFwAddr % otaPduLength bigPdu

/-- An active session has sent the PDUs before the current index. -/
structure Progress (s : OtaRun) : Prop where
  accepted_eq : acceptedPdus s.log =
    (List.range s.clt.curAdrIndex).map (imagePdu bigPdu crc16 flash s.clt.otaNewFwAddr)
  built_eq : ∀ pdu ∈ builtPdus s.log, ∃ i, pdu = imagePdu bigPdu crc16 flash s.clt.otaNewFwAddr i
  checked : s.clt.otaUpdateFlow ≠ .checkFw → Checked bigPdu flash s.clt
  cur_zero : s.clt.otaUpdateFlow.BeforeData → s.clt.curAdrIndex = 0
  cur_le : s.clt.otaUpdateFlow ≠ .checkFw → s.clt.curAdrIndex ≤ s.clt.lastAdrIndex + 1
  cur_end : s.clt.otaUpdateFlow = .otaEnd ∨ s.clt.otaUpdateFlow = .waitOtaResult →
    s.clt.curAdrIndex = s.clt.lastAdrIndex + 1
  no_signature : s.clt.otaUpdateFlow ≠ .otaSignature

/-- Between sessions the index is reset. -/
def DataInv (s : OtaRun) : Prop :=
  (s.clt.otaUpdateFlow = .idle → s.clt.curAdrIndex = 0) ∧
    (s.clt.otaUpdateFlow ≠ .idle → Progress bigPdu crc16 flash s)

end Session

section Steps

variable {bigPdu : Bool} {crc16 : List UInt8 → ℕ} {flash : Cells} {clt : OtaClient}
  {log : List OtaOut}

theorem lastAdrIndex_lt (h : Checked bigPdu flash clt) : clt.lastAdrIndex < 65535 := by
  have hsize := h.size_le
  rw [h.last_eq]
  simp only [fwSizeMax] at hsize
  rcases otaPduLength_cases bigPdu with hlen | hlen <;> rw [hlen] <;> omega

/-- The PDU that the code builds is the one of the image. -/
theorem otaPduData_eq (h : Checked bigPdu flash clt) :
    otaPduData bigPdu clt flash = imagePduData bigPdu flash clt.otaNewFwAddr
      (fwSize flash clt.otaNewFwAddr) clt.curAdrIndex := by
  unfold otaPduData imagePduData
  dsimp only
  rw [flashReadPage_image, flashReadPage_image, h.last_eq, h.valid_eq]
  have hand : ∀ n, n &&& 15 = n % 16 := fun n => Nat.and_two_pow_sub_one_eq_mod n 4
  rw [hand]

/-- A session that goes on without a data PDU. -/
theorem Progress.advance (h : Progress bigPdu crc16 flash ⟨clt, log⟩) (step : OtaStep)
    {entries : List OtaOut} {startTick waitTick pushTick : ℕ}
    (hlog : acceptedPdus (entries ++ log) = acceptedPdus log ∧
      builtPdus (entries ++ log) = builtPdus log)
    (hfrom : clt.otaUpdateFlow ≠ .checkFw)
    (hbefore : step.BeforeData → clt.otaUpdateFlow.BeforeData)
    (hend : step = .otaEnd ∨ step = .waitOtaResult → clt.curAdrIndex = clt.lastAdrIndex + 1)
    (hsign : step ≠ .otaSignature) :
    Progress bigPdu crc16 flash ⟨{ clt with
      otaUpdateFlow := step
      otaStartTick := startTick
      waitResultBeginTick := waitTick
      pushOtaDataTick := pushTick }, entries ++ log⟩ where
  accepted_eq := hlog.1.trans h.accepted_eq
  built_eq := by
    rw [hlog.2]
    exact h.built_eq
  checked _ := ⟨(h.checked hfrom).size_le, (h.checked hfrom).last_eq, (h.checked hfrom).valid_eq⟩
  cur_zero hstep := h.cur_zero (hbefore hstep)
  cur_le _ := h.cur_le hfrom
  cur_end := hend
  no_signature := hsign

theorem flow_ne {a b : OtaStep} (h : clt.otaUpdateFlow = a) (hab : a ≠ b) :
    clt.otaUpdateFlow ≠ b := by
  rw [h]
  exact hab

theorem DataInv.of_progress (h : Progress bigPdu crc16 flash ⟨clt, log⟩)
    (hactive : clt.otaUpdateFlow ≠ .idle) : DataInv bigPdu crc16 flash ⟨clt, log⟩ :=
  ⟨fun hidle => absurd hidle hactive, fun _ => h⟩

/-- A session that stays in its step. -/
theorem Progress.stay (h : Progress bigPdu crc16 flash ⟨clt, log⟩)
    (hactive : clt.otaUpdateFlow ≠ .idle) (hfrom : clt.otaUpdateFlow ≠ .checkFw)
    {entries : List OtaOut} (hlog : acceptedPdus (entries ++ log) = acceptedPdus log ∧
      builtPdus (entries ++ log) = builtPdus log) :
    DataInv bigPdu crc16 flash ⟨clt, entries ++ log⟩ := by
  apply DataInv.of_progress _ hactive
  exact @Progress.advance bigPdu crc16 flash clt log h clt.otaUpdateFlow entries clt.otaStartTick
    clt.waitResultBeginTick clt.pushOtaDataTick hlog hfrom id h.cur_end h.no_signature

/-- The session is accepted. -/
theorem progress_start (hcur : clt.curAdrIndex = 0) (newFwAddr connHandle : ℕ) (cb : Option ℕ) :
    Progress bigPdu crc16 flash ⟨{ clt with
      otaNewFwAddr := newFwAddr
      cb := cb
      otaConnHandle := connHandle
      otaUpdateFlow := .checkFw }, .started connHandle cb :: log⟩ where
  accepted_eq := by
    show [] = (List.range clt.curAdrIndex).map _
    rw [hcur]
    rfl
  built_eq pdu hpdu := by cases hpdu
  checked hstep := absurd rfl hstep
  cur_zero _ := hcur
  cur_le hstep := absurd rfl hstep
  cur_end hstep := by rcases hstep with hstep | hstep <;> cases hstep
  no_signature := OtaStep.noConfusion

/-- The firmware is checked. -/
theorem progress_check (h : Progress bigPdu crc16 flash ⟨clt, log⟩)
    (hflow : clt.otaUpdateFlow = .checkFw) {env : OtaEnv} (hflash : env.flash = flash)
    (hmin : fwSizeMin ≤ fwSize env.flash clt.otaNewFwAddr)
    (hmax : fwSize env.flash clt.otaNewFwAddr ≤ fwSizeMax) :
    DataInv bigPdu crc16 flash
      ⟨(procCheckFw bigPdu clt env).1, (procCheckFw bigPdu clt env).2 ++ log⟩ := by
  have hcur : clt.curAdrIndex = 0 := h.cur_zero (.inl hflow)
  have hlast : u16 (fwSize env.flash clt.otaNewFwAddr / otaPduLength bigPdu) =
      fwSize env.flash clt.otaNewFwAddr / otaPduLength bigPdu := by
    apply u16_of_lt
    simp only [fwSizeMax] at hmax
    rcases otaPduLength_cases bigPdu with hlen | hlen <;> rw [hlen] <;> omega
  rw [procCheckFw_eq bigPdu hmin hmax, hlast, hflash]
  rw [hflash] at hmax
  apply DataInv.of_progress
  · exact {
      accepted_eq := h.accepted_eq
      built_eq := h.built_eq
      checked := fun _ => ⟨hmax, rfl, rfl⟩
      cur_zero := fun _ => hcur
      cur_le := fun _ => Nat.le_trans (Nat.le_of_eq hcur) (Nat.zero_le _)
      cur_end := fun hstep => by rcases hstep with hstep | hstep <;> cases hstep
      no_signature := OtaStep.noConfusion }
  · exact OtaStep.noConfusion

/-- A pass of the data phase that only takes the time. -/
theorem progress_tick (h : Progress bigPdu crc16 flash ⟨clt, log⟩)
    (hflow : clt.otaUpdateFlow = .otaData) (tick : ℕ) :
    Progress bigPdu crc16 flash ⟨{ clt with pushOtaDataTick := tick }, log⟩ :=
  @Progress.advance bigPdu crc16 flash clt log h clt.otaUpdateFlow [] clt.otaStartTick
    clt.waitResultBeginTick tick ⟨rfl, rfl⟩ (flow_ne hflow OtaStep.noConfusion) id h.cur_end
    h.no_signature

/-- A PDU is that of the next index, whether it is taken or not. -/
theorem built_write (h : Progress bigPdu crc16 flash ⟨clt, log⟩) (success : Bool) :
    ∀ pdu ∈ builtPdus (.write .otaData clt.otaConnHandle
      (imagePdu bigPdu crc16 flash clt.otaNewFwAddr clt.curAdrIndex) success :: log),
        ∃ i, pdu = imagePdu bigPdu crc16 flash clt.otaNewFwAddr i := by
  intro pdu hmem
  rcases List.mem_cons.mp hmem with rfl | hmem
  · exact ⟨_, rfl⟩
  · exact h.built_eq pdu hmem

/-- A PDU is taken. -/
theorem progress_written (h : Progress bigPdu crc16 flash ⟨clt, log⟩)
    (hflow : clt.otaUpdateFlow = .otaData) (hcur : clt.curAdrIndex ≤ clt.lastAdrIndex)
    (tick : ℕ) : Progress bigPdu crc16 flash
      ⟨{ clt with pushOtaDataTick := tick, curAdrIndex := clt.curAdrIndex + 1 },
        .write .otaData clt.otaConnHandle
          (imagePdu bigPdu crc16 flash clt.otaNewFwAddr clt.curAdrIndex) true :: log⟩ := by
  have hchecked : Checked bigPdu flash clt := h.checked (flow_ne hflow OtaStep.noConfusion)
  exact {
    accepted_eq := by
      show acceptedPdus log ++ [_] = (List.range (clt.curAdrIndex + 1)).map _
      rw [h.accepted_eq, List.range_succ, List.map_append, List.map_singleton]
    built_eq := built_write h true
    checked := fun _ => ⟨hchecked.size_le, hchecked.last_eq, hchecked.valid_eq⟩
    cur_zero := fun hstep => by
      rw [OtaStep.BeforeData] at hstep
      simp only [hflow] at hstep
      rcases hstep with hstep | hstep | hstep | hstep | hstep <;> cases hstep
    cur_le := fun _ => Nat.succ_le_succ hcur
    cur_end := fun hstep => by
      simp only [hflow] at hstep
      rcases hstep with hstep | hstep <;> cases hstep
    no_signature := h.no_signature }

/-- A PDU is refused, and is made again. -/
theorem progress_refused (h : Progress bigPdu crc16 flash ⟨clt, log⟩)
    (hflow : clt.otaUpdateFlow = .otaData) (tick : ℕ) : Progress bigPdu crc16 flash
      ⟨{ clt with pushOtaDataTick := tick }, .write .otaData clt.otaConnHandle
        (imagePdu bigPdu crc16 flash clt.otaNewFwAddr clt.curAdrIndex) false :: log⟩ := by
  have hpassed := progress_tick h hflow tick
  exact {
    accepted_eq := hpassed.accepted_eq
    built_eq := built_write h false
    checked := hpassed.checked
    cur_zero := hpassed.cur_zero
    cur_le := hpassed.cur_le
    cur_end := hpassed.cur_end
    no_signature := hpassed.no_signature }

/-- A pass of the data phase. -/
theorem progress_data (h : Progress bigPdu crc16 flash ⟨clt, log⟩)
    (hflow : clt.otaUpdateFlow = .otaData) {env : OtaEnv} (hflash : env.flash = flash) :
    DataInv bigPdu crc16 flash
      ⟨(procOtaData bigPdu crc16 clt env).1, (procOtaData bigPdu crc16 clt env).2 ++ log⟩ := by
  have hactive : clt.otaUpdateFlow ≠ .idle := flow_ne hflow OtaStep.noConfusion
  have hcheck : clt.otaUpdateFlow ≠ .checkFw := flow_ne hflow OtaStep.noConfusion
  have hchecked : Checked bigPdu flash clt := h.checked hcheck
  have hle : clt.curAdrIndex ≤ clt.lastAdrIndex + 1 := h.cur_le hcheck
  have hlast := lastAdrIndex_lt hchecked
  have hpdu : otaPdu crc16 clt.curAdrIndex (otaPduData bigPdu
      { clt with pushOtaDataTick := u32 (env.clock 3) } env.flash) =
        imagePdu bigPdu crc16 flash clt.otaNewFwAddr clt.curAdrIndex := by
    show otaPdu crc16 clt.curAdrIndex (otaPduData bigPdu clt env.flash) = _
    rw [hflash, otaPduData_eq hchecked]
    rfl
  unfold procOtaData
  split
  · exact .of_progress h hactive
  split
  · exact .of_progress h hactive
  dsimp only
  split
  · exact .of_progress (progress_tick h hflow _) hactive
  split
  · rename_i hcur
    rw [hpdu]
    cases hwritten : env.written with
    | true =>
      rw [if_pos rfl, u16_of_lt (by omega)]
      exact DataInv.of_progress (progress_written h hflow hcur _) hactive
    | false =>
      rw [if_neg Bool.false_ne_true]
      exact DataInv.of_progress (progress_refused h hflow _) hactive
  · rename_i hcur
    apply DataInv.of_progress
    · exact @Progress.advance bigPdu crc16 flash clt log h .otaEnd [] clt.otaStartTick
        clt.waitResultBeginTick (u32 (env.clock 3)) ⟨rfl, rfl⟩ hcheck
        (fun hstep => by rcases hstep with hstep | hstep | hstep | hstep | hstep <;> cases hstep)
        (fun _ => by omega) OtaStep.noConfusion
    · exact OtaStep.noConfusion

/-- A pass of the step that updates the connection. -/
theorem progress_conn (h : Progress bigPdu crc16 flash ⟨clt, log⟩)
    (hflow : clt.otaUpdateFlow = .updateConn) (env : OtaEnv) :
    DataInv bigPdu crc16 flash
      ⟨if env.connUpdated then { clt with otaUpdateFlow := .reqFwVersion } else clt,
        .updateConnection clt.otaConnHandle :: log⟩ := by
  cases env.connUpdated with
  | true =>
    apply DataInv.of_progress _ OtaStep.noConfusion
    exact @Progress.advance bigPdu crc16 flash clt log h .reqFwVersion [.updateConnection _]
      clt.otaStartTick clt.waitResultBeginTick clt.pushOtaDataTick ⟨rfl, rfl⟩
      (flow_ne hflow OtaStep.noConfusion) (fun _ => .inr (.inl hflow))
      (fun hstep => by rcases hstep with hstep | hstep <;> cases hstep) OtaStep.noConfusion
  | false =>
    exact @Progress.stay bigPdu crc16 flash clt log h (flow_ne hflow OtaStep.noConfusion)
      (flow_ne hflow OtaStep.noConfusion) [.updateConnection _] ⟨rfl, rfl⟩

/-- A pass of the step that sends the start command. -/
theorem progress_otaStart (h : Progress bigPdu crc16 flash ⟨clt, log⟩)
    (hflow : clt.otaUpdateFlow = .otaStart) (env : OtaEnv) :
    DataInv bigPdu crc16 flash
      ⟨(procOtaStart bigPdu clt env).1, (procOtaStart bigPdu clt env).2 ++ log⟩ := by
  unfold procOtaStart
  dsimp only
  cases env.written with
  | true =>
    apply DataInv.of_progress _ OtaStep.noConfusion
    exact @Progress.advance bigPdu crc16 flash clt log h .otaData [.write .otaStart _ _ true]
      _ clt.waitResultBeginTick clt.pushOtaDataTick ⟨rfl, rfl⟩
      (flow_ne hflow OtaStep.noConfusion)
      (fun hstep => by rcases hstep with hstep | hstep | hstep | hstep | hstep <;> cases hstep)
      (fun hstep => by rcases hstep with hstep | hstep <;> cases hstep) OtaStep.noConfusion
  | false =>
    exact @Progress.stay bigPdu crc16 flash clt log h (flow_ne hflow OtaStep.noConfusion)
      (flow_ne hflow OtaStep.noConfusion) [.write .otaStart _ _ false] ⟨rfl, rfl⟩

/-- A pass of the step that sends the end command. -/
theorem progress_otaEnd (h : Progress bigPdu crc16 flash ⟨clt, log⟩)
    (hflow : clt.otaUpdateFlow = .otaEnd) (env : OtaEnv) :
    DataInv bigPdu crc16 flash ⟨(procOtaEnd clt env).1, (procOtaEnd clt env).2 ++ log⟩ := by
  unfold procOtaEnd
  dsimp only
  cases env.written with
  | true =>
    apply DataInv.of_progress _ OtaStep.noConfusion
    exact @Progress.advance bigPdu crc16 flash clt log h .waitOtaResult [.write .otaEnd _ _ true]
      clt.otaStartTick _ clt.pushOtaDataTick ⟨rfl, rfl⟩ (flow_ne hflow OtaStep.noConfusion)
      (fun hstep => by rcases hstep with hstep | hstep | hstep | hstep | hstep <;> cases hstep)
      (fun _ => h.cur_end (.inl hflow)) OtaStep.noConfusion
  | false =>
    exact @Progress.stay bigPdu crc16 flash clt log h (flow_ne hflow OtaStep.noConfusion)
      (flow_ne hflow OtaStep.noConfusion) [.write .otaEnd _ _ false] ⟨rfl, rfl⟩

theorem dataInv_step {s : OtaRun} (h : DataInv bigPdu crc16 flash s) {ev : OtaEvent}
    (hev : ev.Reads flash) : DataInv bigPdu crc16 flash (otaStep bigPdu crc16 s ev) := by
  obtain ⟨clt, log⟩ := s
  obtain ⟨hidle, hactive⟩ := h
  have hmove := otaCall_move bigPdu crc16 clt ev
  show DataInv bigPdu crc16 flash
    ⟨(otaCall bigPdu crc16 clt ev).1, (otaCall bigPdu crc16 clt ev).2 ++ log⟩
  generalize otaCall bigPdu crc16 clt ev = r at hmove ⊢
  -- by the step of the flow that the call passes
  cases hmove with
  | stay => exact ⟨hidle, hactive⟩
  | start newFwAddr connHandle cb hflow =>
    exact .of_progress (progress_start (hidle hflow) newFwAddr connHandle cb) OtaStep.noConfusion
  | finish => exact ⟨fun _ => rfl, fun h => absurd rfl h⟩
  | check env hflow hmin hmax =>
    exact progress_check (hactive (flow_ne hflow OtaStep.noConfusion)) hflow hev hmin hmax
  | conn env hflow => exact progress_conn (hactive (flow_ne hflow OtaStep.noConfusion)) hflow env
  | skipVersion _ hflow =>
    -- `OTA_STEP_5` and `OTA_STEP_6` are optional and lead to the start command
    apply DataInv.of_progress _ OtaStep.noConfusion
    have hne : clt.otaUpdateFlow ≠ .idle := by
      rcases hflow with hflow | hflow <;> exact flow_ne hflow OtaStep.noConfusion
    have hcheck : clt.otaUpdateFlow ≠ .checkFw := by
      rcases hflow with hflow | hflow <;> exact flow_ne hflow OtaStep.noConfusion
    exact @Progress.advance bigPdu crc16 flash clt log (hactive hne) .otaStart [] clt.otaStartTick
      clt.waitResultBeginTick clt.pushOtaDataTick ⟨rfl, rfl⟩ hcheck
      (fun _ => hflow.elim (fun h => .inr (.inr (.inl h))) fun h => .inr (.inr (.inr (.inl h))))
      (fun hstep => by rcases hstep with hstep | hstep <;> cases hstep) OtaStep.noConfusion
  | sendStart env hflow =>
    exact progress_otaStart (hactive (flow_ne hflow OtaStep.noConfusion)) hflow env
  | sendData env hflow =>
    exact progress_data (hactive (flow_ne hflow OtaStep.noConfusion)) hflow hev
  | sendEnd env hflow =>
    exact progress_otaEnd (hactive (flow_ne hflow OtaStep.noConfusion)) hflow env

theorem dataInv_run {evs : List OtaEvent} (hflash : ∀ ev ∈ evs, ev.Reads flash) :
    DataInv bigPdu crc16 flash (run (otaStep bigPdu crc16) ⟨.zero, []⟩ evs) := by
  have hstep : ∀ (s : OtaRun) (ev : OtaEvent), DataInv bigPdu crc16 flash s → ev.Reads flash →
      DataInv bigPdu crc16 flash (otaStep bigPdu crc16 s ev) :=
    fun s ev hs hev => dataInv_step hs hev
  exact run_invariant hstep ⟨fun _ => rfl, fun h => absurd rfl h⟩ (along_of_forall_mem _ hflash)

/-- A pass that gets to the next PDU, which is accepted. -/
theorem otaCall_due (hflow : clt.otaUpdateFlow = .otaData) {env : OtaEnv} (hdue : Due clt env)
    (hwritten : env.written = true) :
    otaCall bigPdu crc16 clt (.mainloop env) =
      if clt.curAdrIndex ≤ clt.lastAdrIndex then
        ({ clt with
          pushOtaDataTick := u32 (env.clock 3)
          curAdrIndex := u16 (clt.curAdrIndex + 1) },
          [.write .otaData clt.otaConnHandle (otaPdu crc16 clt.curAdrIndex
            (otaPduData bigPdu { clt with pushOtaDataTick := u32 (env.clock 3) } env.flash)) true])
      else
        ({ clt with
          pushOtaDataTick := u32 (env.clock 3)
          otaUpdateFlow := .otaEnd }, []) := by
  have hroom : ¬ aclCentralTxFifoNum - 4 ≤ env.txFifoNumber := Nat.not_le.mpr hdue.room
  show appOtaMainloop bigPdu crc16 clt env = _
  unfold appOtaMainloop
  rw [if_pos (flow_ne hflow OtaStep.noConfusion)]
  unfold appProcOtaUpdate
  simp only [hdue.running, hflow, Bool.false_eq_true, and_false, if_false]
  unfold procOtaData
  simp only [hdue.started, hdue.apart, hroom, hwritten, hflow, Bool.not_true, Bool.false_eq_true,
    if_false, if_true]

theorem goes_on_of_due (hflow : clt.otaUpdateFlow = .otaData) {env : OtaEnv} (hdue : Due clt env)
    (hwritten : env.written = true) :
    (∃ pdu, acceptedPdus (otaStep bigPdu crc16 ⟨clt, log⟩ (.mainloop env)).log =
      acceptedPdus log ++ [pdu]) ∨
        (otaStep bigPdu crc16 ⟨clt, log⟩ (.mainloop env)).clt.otaUpdateFlow = .otaEnd := by
  unfold otaStep
  rw [otaCall_due hflow hdue hwritten]
  by_cases hcur : clt.curAdrIndex ≤ clt.lastAdrIndex
  · rw [if_pos hcur]
    exact .inl ⟨_, rfl⟩
  · rw [if_neg hcur]
    exact .inr rfl

theorem map_pduData_accepted {s : OtaRun} (h : Progress bigPdu crc16 flash s) :
    (acceptedPdus s.log).map pduData = (List.range s.clt.curAdrIndex).map
      (imagePduData bigPdu flash s.clt.otaNewFwAddr (fwSize flash s.clt.otaNewFwAddr)) := by
  rw [h.accepted_eq, List.map_map]
  exact List.map_congr_left fun i _ => pduData_otaPdu crc16 _ i

/-- What all PDUs carry, if the size of the firmware is not a multiple of 16. -/
theorem flatten_imagePduData_padded (addr : ℕ) (hpad : fwSize flash addr % 16 ≠ 0) :
    ((List.range (fwSize flash addr / otaPduLength bigPdu + 1)).map
      (imagePduData bigPdu flash addr (fwSize flash addr))).flatten = paddedImage flash addr :=
  (flatten_imagePduData_iff bigPdu flash addr (fwSize flash addr)).mpr hpad

/-- A session sends a firmware of which the size is not a multiple of 16. -/
theorem Progress.sendsFirmware {s : OtaRun} (h : Progress bigPdu crc16 flash s)
    (hpad : fwSize flash s.clt.otaNewFwAddr % 16 ≠ 0) :
    SendsFirmware bigPdu crc16 flash s := by
  have hdata := map_pduData_accepted h
  have hlen : (acceptedPdus s.log).length = s.clt.curAdrIndex := by
    rw [h.accepted_eq, List.length_map, List.length_range]
  -- the index is below the end of the phase, and zero before the check
  have hcur : s.clt.curAdrIndex ≤ fwSize flash s.clt.otaNewFwAddr / otaPduLength bigPdu + 1 ∧
      s.clt.curAdrIndex ≤ 65535 := by
    by_cases hcheck : s.clt.otaUpdateFlow = .checkFw
    · rw [h.cur_zero (.inl hcheck)]
      exact ⟨Nat.zero_le _, Nat.zero_le _⟩
    · have hle := h.cur_le hcheck
      have hlast := lastAdrIndex_lt (h.checked hcheck)
      rw [← (h.checked hcheck).last_eq]
      exact ⟨hle, by omega⟩
  constructor
  case index_eq =>
    rw [hlen, h.accepted_eq, List.map_map]
    apply (List.map_congr_left _).trans (List.map_id _)
    intro i hi
    have hi' : i < s.clt.curAdrIndex := List.mem_range.mp hi
    exact pduIndex_otaPdu crc16 _ (by omega)
  case data_prefix =>
    have hrange : List.range s.clt.curAdrIndex <+:
        List.range (fwSize flash s.clt.otaNewFwAddr / otaPduLength bigPdu + 1) := by
      rw [List.prefix_iff_eq_take, List.take_range, List.length_range, Nat.min_eq_left hcur.1]
    rw [hdata, ← @flatten_imagePduData_padded bigPdu flash _ hpad]
    exact (hrange.map _).flatten
  case crc_eq =>
    intro pdu hpdu
    obtain ⟨i, rfl⟩ := h.built_eq pdu hpdu
    exact crc_otaPdu crc16 _ i
  case fits =>
    intro pdu hpdu
    obtain ⟨i, rfl⟩ := h.built_eq pdu hpdu
    have hle := length_imagePduData_le bigPdu flash s.clt.otaNewFwAddr
      (fwSize flash s.clt.otaNewFwAddr) hpad i
    rw [imagePdu, length_otaPdu, otaBufferSize]
    omega
  case goes_on => exact fun hflow env _ => goes_on_of_due hflow
  case all_sent =>
    intro hflow
    have hcheck : s.clt.otaUpdateFlow ≠ .checkFw := by
      rcases hflow with hflow | hflow <;> exact flow_ne hflow OtaStep.noConfusion
    have hend := h.cur_end hflow
    refine ⟨hlen.trans hend, ?_⟩
    rw [hdata, hend, (h.checked hcheck).last_eq]
    exact flatten_imagePduData_padded _ hpad

/-- The data of a session that has sent all its PDUs, if they are the image. -/
theorem Progress.pad_of_all_sent {s : OtaRun} (h : Progress bigPdu crc16 flash s)
    (hflow : s.clt.otaUpdateFlow = .otaEnd)
    (hall : ((acceptedPdus s.log).map pduData).flatten = paddedImage flash s.clt.otaNewFwAddr) :
    fwSize flash s.clt.otaNewFwAddr % 16 ≠ 0 := by
  rw [map_pduData_accepted h, h.cur_end (.inl hflow),
    (h.checked (flow_ne hflow OtaStep.noConfusion)).last_eq] at hall
  exact (flatten_imagePduData_iff bigPdu flash _ _).mp hall

end Steps

/-! ## A session without refused writes -/

/-- A pass of the main loop at the time `now`, in which every call succeeds. -/
def otaPass (flash : Cells) (now : ℕ) : OtaEvent :=
  .mainloop ⟨flash, fun _ => now, true, 0, true, fun _ => 0⟩

/-- A session with `n` passes of the data phase, one each 625 us. -/
def sessionEvents (flash : Cells) (addr connHandle : ℕ) (cb : Option ℕ) (n : ℕ) : List OtaEvent :=
  [.start addr connHandle cb, otaPass flash 0, otaPass flash 0, otaPass flash 0, otaPass flash 0] ++
    (List.range n).map fun k => otaPass flash (1000000 + 10000 * k)

theorem sessionEvents_reads (flash : Cells) (addr connHandle : ℕ) (cb : Option ℕ) (n : ℕ) :
    ∀ ev ∈ sessionEvents flash addr connHandle cb n, ev.Reads flash := by
  intro ev hev
  rcases List.mem_append.mp hev with hev | hev
  · simp only [List.mem_cons, List.not_mem_nil, or_false] at hev
    rcases hev with rfl | rfl | rfl | rfl | rfl
    · trivial
    all_goals rfl
  · obtain ⟨k, _, rfl⟩ := List.mem_map.mp hev
    rfl

theorem clockTimeExceed_of_le {now ref : ℕ} (hle : ref ≤ now) (hnow : now < 4294967296) (us : ℕ) :
    clockTimeExceed now ref us = decide (us * 16 < now - ref) := by
  unfold clockTimeExceed
  rw [u32Sub_of_le hle hnow]
  rfl

/-- The session has sent `k` PDUs, and the next pass is at its time. -/
structure Sending (addr lastAdrIndex k : ℕ) (clt : OtaClient) : Prop where
  flow_eq : clt.otaUpdateFlow = .otaData
  start_eq : clt.otaStartTick = 1
  push_le : clt.pushOtaDataTick + 8001 ≤ 1000000 + 10000 * k
  cur_eq : clt.curAdrIndex = k
  last_eq : clt.lastAdrIndex = lastAdrIndex
  addr_eq : clt.otaNewFwAddr = addr

section Complete

variable {bigPdu : Bool} {crc16 : List UInt8 → ℕ} {flash : Cells} {clt : OtaClient}
  {addr lastAdrIndex k : ℕ}

/-- A pass at its time comes to the PDU. -/
theorem otaCall_otaPass (h : Sending addr lastAdrIndex k clt) (hk : k ≤ 20000) :
    otaCall bigPdu crc16 clt (otaPass flash (1000000 + 10000 * k)) =
      if k ≤ lastAdrIndex then
        ({ clt with
          pushOtaDataTick := 1000000 + 10000 * k
          curAdrIndex := k + 1 },
          [.write .otaData clt.otaConnHandle (otaPdu crc16 k
            (otaPduData bigPdu { clt with pushOtaDataTick := 1000000 + 10000 * k } flash)) true])
      else
        ({ clt with
          pushOtaDataTick := 1000000 + 10000 * k
          otaUpdateFlow := .otaEnd }, []) := by
  obtain ⟨hflow, hstart, hpush, hcur, hlast, _⟩ := h
  -- no timeout yet, and the waits behind the start command and the last PDU are over
  have htimeout : clockTimeExceed (1000000 + 10000 * k) 1 (otaTimeoutS * 1000000) = false := by
    rw [clockTimeExceed_of_le (by omega) (by omega)]
    apply decide_eq_false
    simp only [otaTimeoutS]
    omega
  have hwait : clockTimeExceed (1000000 + 10000 * k) 1 50000 = true := by
    rw [clockTimeExceed_of_le (by omega) (by omega)]
    apply decide_eq_true
    omega
  have hgate : clockTimeExceed (1000000 + 10000 * k) clt.pushOtaDataTick 500 = true := by
    rw [clockTimeExceed_of_le (by omega) (by omega)]
    apply decide_eq_true
    omega
  show appOtaMainloop bigPdu crc16 clt _ = _
  unfold appOtaMainloop
  rw [if_pos (flow_ne hflow OtaStep.noConfusion)]
  unfold appProcOtaUpdate
  simp only [hstart, htimeout, hflow, Bool.false_eq_true, and_false, if_false]
  unfold procOtaData
  have hfifo : ¬aclCentralTxFifoNum - 4 ≤ 0 := by decide
  simp only [hstart, hwait, hgate, hcur, hlast, Bool.not_true, Bool.false_eq_true, if_false,
    hfifo, if_true]
  rw [u32_of_lt (by omega), u16_of_lt (by omega)]
  simp only [hflow]

/-- A PDU is sent. -/
theorem sending_step {s : OtaRun} (h : Sending addr lastAdrIndex k s.clt) (hk : k ≤ 20000)
    (hle : k ≤ lastAdrIndex) : Sending addr lastAdrIndex (k + 1)
      (otaStep bigPdu crc16 s (otaPass flash (1000000 + 10000 * k))).clt := by
  show Sending _ _ _ (otaCall bigPdu crc16 s.clt _).1
  rw [otaCall_otaPass h hk, if_pos hle]
  have hnext : 1000000 + 10000 * k + 8001 ≤ 1000000 + 10000 * (k + 1) := by omega
  exact ⟨h.flow_eq, h.start_eq, hnext, rfl, h.last_eq, h.addr_eq⟩

/-- The passes send one PDU each. -/
theorem sending_run {s : OtaRun} (h : Sending addr lastAdrIndex 0 s.clt)
    (hlast : lastAdrIndex ≤ 20000)
    {n : ℕ} (hn : n ≤ lastAdrIndex + 1) : Sending addr lastAdrIndex n (run (otaStep bigPdu crc16) s
      ((List.range n).map fun k => otaPass flash (1000000 + 10000 * k))).clt := by
  induction n with
  | zero => exact h
  | succ n ih =>
    rw [List.range_succ, List.map_append, run_append]
    exact sending_step (ih (by omega)) (by omega) (by omega)

/-- The check of the firmware. -/
theorem otaCall_check {env : OtaEnv} (hflow : clt.otaUpdateFlow = .checkFw)
    (hstart : clt.otaStartTick = 0) :
    otaCall bigPdu crc16 clt (.mainloop env) = procCheckFw bigPdu clt env := by
  simp [otaCall, appOtaMainloop, appProcOtaUpdate, hflow, hstart]

/-- The three steps behind the check of the firmware. -/
theorem otaCall_checked (hflow : clt.otaUpdateFlow = .updateConn) (hstart : clt.otaStartTick = 0) :
    (otaCall bigPdu crc16 (otaCall bigPdu crc16 (otaCall bigPdu crc16 clt (otaPass flash 0)).1
      (otaPass flash 0)).1 (otaPass flash 0)).1 =
        { clt with otaUpdateFlow := .otaData, otaStartTick := 1 } := by
  have htick : clockTimeOr1 0 = 1 := rfl
  simp [otaPass, otaCall, appOtaMainloop, appProcOtaUpdate, procOtaStart, hflow, hstart, htick]

/-- The session is accepted, and no time was taken yet. -/
structure Beginning (addr : ℕ) (step : OtaStep) (clt : OtaClient) : Prop where
  flow_eq : clt.otaUpdateFlow = step
  start_eq : clt.otaStartTick = 0
  push_eq : clt.pushOtaDataTick = 0
  cur_eq : clt.curAdrIndex = 0
  addr_eq : clt.otaNewFwAddr = addr

theorem beginning_start (addr connHandle : ℕ) (cb : Option ℕ) :
    Beginning addr .checkFw (otaCall bigPdu crc16 .zero (.start addr connHandle cb)).1 :=
  ⟨rfl, rfl, rfl, rfl, rfl⟩

theorem beginning_check (h : Beginning addr .checkFw clt) (hmin : fwSizeMin ≤ fwSize flash addr)
    (hmax : fwSize flash addr ≤ fwSizeMax) :
    Beginning addr .updateConn (otaCall bigPdu crc16 clt (otaPass flash 0)).1 ∧
      (otaCall bigPdu crc16 clt (otaPass flash 0)).1.lastAdrIndex =
        u16 (fwSize flash addr / otaPduLength bigPdu) := by
  obtain ⟨hflow, hstart, hpush, hcur, haddr⟩ := h
  rw [← haddr] at hmin hmax
  have heq := @procCheckFw_eq bigPdu clt ⟨flash, fun _ => 0, true, 0, true, fun _ => 0⟩ hmin hmax
  rw [otaPass, otaCall_check hflow hstart, heq]
  exact ⟨⟨rfl, hstart, hpush, hcur, haddr⟩, by rw [← haddr]⟩

theorem sending_of_beginning (h : Beginning addr .updateConn clt) :
    Sending addr clt.lastAdrIndex 0 (otaCall bigPdu crc16 (otaCall bigPdu crc16
      (otaCall bigPdu crc16 clt (otaPass flash 0)).1 (otaPass flash 0)).1 (otaPass flash 0)).1 := by
  rw [otaCall_checked h.flow_eq h.start_eq]
  have hpush : clt.pushOtaDataTick + 8001 ≤ 1000000 + 10000 * 0 := by
    rw [h.push_eq]
    decide
  exact ⟨rfl, rfl, hpush, h.cur_eq, rfl, h.addr_eq⟩

/-- The steps before the data phase. -/
theorem sending_begin (connHandle : ℕ) (cb : Option ℕ) (hmin : fwSizeMin ≤ fwSize flash addr)
    (hmax : fwSize flash addr ≤ fwSizeMax) :
    Sending addr (fwSize flash addr / otaPduLength bigPdu) 0 (run (otaStep bigPdu crc16) ⟨.zero, []⟩
      [.start addr connHandle cb, otaPass flash 0, otaPass flash 0, otaPass flash 0,
        otaPass flash 0]).clt := by
  have hlast : u16 (fwSize flash addr / otaPduLength bigPdu) =
      fwSize flash addr / otaPduLength bigPdu := by
    apply u16_of_lt
    simp only [fwSizeMax] at hmax
    rcases otaPduLength_cases bigPdu with hlen | hlen <;> rw [hlen] <;> omega
  obtain ⟨hcheck, hindex⟩ := beginning_check
    (@beginning_start bigPdu crc16 addr connHandle cb) hmin hmax
  have hsending := @sending_of_beginning bigPdu crc16 flash _ addr hcheck
  rw [hindex, hlast] at hsending
  rw [run_cons, run_cons, run_cons, run_cons, run_cons, run_nil, otaStep_clt, otaStep_clt,
    otaStep_clt, otaStep_clt, otaStep_clt]
  exact hsending

/-- Behind the last PDU, the next pass goes on to the end command. -/
theorem sending_end {s : OtaRun} (h : Sending addr lastAdrIndex (lastAdrIndex + 1) s.clt)
    (hlast : lastAdrIndex + 1 ≤ 20000) :
    (otaStep bigPdu crc16 s
        (otaPass flash (1000000 + 10000 * (lastAdrIndex + 1)))).clt.otaUpdateFlow = .otaEnd ∧
      (otaStep bigPdu crc16 s
        (otaPass flash (1000000 + 10000 * (lastAdrIndex + 1)))).clt.otaNewFwAddr = addr := by
  rw [otaStep_clt, otaCall_otaPass h hlast, if_neg (by omega)]
  exact ⟨rfl, h.addr_eq⟩

/-- In a session without refused writes, all PDUs are sent. -/
theorem session_completes (bigPdu : Bool) (crc16 : List UInt8 → ℕ) (connHandle : ℕ)
    (cb : Option ℕ) (hmin : fwSizeMin ≤ fwSize flash addr) (hmax : fwSize flash addr ≤ fwSizeMax) :
    (run (otaStep bigPdu crc16) ⟨.zero, []⟩ (sessionEvents flash addr connHandle cb
        (fwSize flash addr / otaPduLength bigPdu + 2))).clt.otaUpdateFlow = .otaEnd ∧
      (run (otaStep bigPdu crc16) ⟨.zero, []⟩ (sessionEvents flash addr connHandle cb
        (fwSize flash addr / otaPduLength bigPdu + 2))).clt.otaNewFwAddr = addr := by
  have hlast : fwSize flash addr / otaPduLength bigPdu + 1 ≤ 20000 := by
    simp only [fwSizeMax] at hmax
    rcases otaPduLength_cases bigPdu with hlen | hlen <;> rw [hlen] <;> omega
  have hbegin := @sending_begin bigPdu crc16 flash addr connHandle cb hmin hmax
  have hrun : ∀ n, run (otaStep bigPdu crc16) ⟨.zero, []⟩
      (sessionEvents flash addr connHandle cb (n + 1)) =
        otaStep bigPdu crc16 (run (otaStep bigPdu crc16) (run (otaStep bigPdu crc16) ⟨.zero, []⟩
          [.start addr connHandle cb, otaPass flash 0, otaPass flash 0, otaPass flash 0,
            otaPass flash 0]) ((List.range n).map fun k => otaPass flash (1000000 + 10000 * k)))
          (otaPass flash (1000000 + 10000 * n)) := by
    intro n
    rw [sessionEvents, run_append, List.range_succ, List.map_append, run_append, List.map_singleton,
      run_cons, run_nil]
  rw [hrun]
  exact sending_end (sending_run hbegin (by omega) (Nat.le_refl _)) hlast

end Complete

/-- Every session with the firmware at `addr` sends it, in every run over its flash, whatever
writes are refused and whatever else happens, if and only if its size is not a multiple of
16. -/
theorem ota_data_sent (bigPdu : Bool) (crc16 : List UInt8 → ℕ) (flash : Cells) (addr : ℕ)
    (hmin : fwSizeMin ≤ fwSize flash addr) (hmax : fwSize flash addr ≤ fwSizeMax) :
    (∀ evs : List OtaEvent, (∀ ev ∈ evs, ev.Reads flash) →
      let s := run (otaStep bigPdu crc16) ⟨.zero, []⟩ evs
      s.clt.otaUpdateFlow ≠ .idle → s.clt.otaNewFwAddr = addr →
        SendsFirmware bigPdu crc16 flash s) ↔
      fwSize flash addr % 16 ≠ 0 := by
  constructor
  · -- a session without refused writes comes to its end
    intro h
    obtain ⟨hflow, haddr⟩ := @session_completes flash addr bigPdu crc16 0 none hmin hmax
    have hactive : (run (otaStep bigPdu crc16) ⟨.zero, []⟩ (sessionEvents flash addr 0 none
        (fwSize flash addr / otaPduLength bigPdu + 2))).clt.otaUpdateFlow ≠ .idle :=
      flow_ne hflow OtaStep.noConfusion
    have hreads := sessionEvents_reads flash addr 0 none
      (fwSize flash addr / otaPduLength bigPdu + 2)
    have hsends := h _ hreads hactive haddr
    have hpad := ((dataInv_run hreads).2 hactive).pad_of_all_sent hflow
      (hsends.all_sent (.inl hflow)).2
    rwa [haddr] at hpad
  · intro hpad evs hreads s hactive haddr
    exact ((dataInv_run hreads).2 hactive).sendsFirmware (haddr ▸ hpad)

/-- A flash with a firmware of `0x4000 + n` bytes at `0x80000`. -/
def firmwareFlash (n : UInt8) : Cells :=
  fun a => if a = 0x80018 then n else if a = 0x80019 then 0x40 else 0

theorem fwSize_firmwareFlash : fwSize (firmwareFlash 4) 0x80000 = 0x4004 ∧
    fwSize (firmwareFlash 0) 0x80000 = 0x4000 := by decide

/-- A session of a firmware with a size that is not a multiple of 16: behind a PDU that is
accepted, one that is refused, and its repetition, and at its end. -/
theorem ota_data_sent_padded :
    let write (now : ℕ) (written : Bool) : OtaEvent :=
      .mainloop ⟨firmwareFlash 4, fun _ => now, true, 0, written, fun _ => 0⟩
    let s := run (otaStep false fun _ => 0) ⟨.zero, []⟩
      ([.start 0x80000 5 none, otaPass (firmwareFlash 4) 0, otaPass (firmwareFlash 4) 0,
        otaPass (firmwareFlash 4) 0, otaPass (firmwareFlash 4) 0] ++
          [write 1000000 true, write 1010000 false, write 1020000 true])
    (SendsFirmware false (fun _ => 0) (firmwareFlash 4) s ∧
        (builtPdus s.log).map pduIndex = [1, 1, 0] ∧
        (acceptedPdus s.log).map pduIndex = [0, 1]) ∧
      (run (otaStep false fun _ => 0) ⟨.zero, []⟩
        (sessionEvents (firmwareFlash 4) 0x80000 5 none
          (fwSize (firmwareFlash 4) 0x80000 / otaPduLength false + 2))).clt.otaUpdateFlow =
            .otaEnd ∧
      SendsFirmware false (fun _ => 0) (firmwareFlash 4)
        (run (otaStep false fun _ => 0) ⟨.zero, []⟩
          (sessionEvents (firmwareFlash 4) 0x80000 5 none
            (fwSize (firmwareFlash 4) 0x80000 / otaPduLength false + 2))) := by
  intro write s
  have hall := (ota_data_sent false (fun _ => 0) (firmwareFlash 4) 0x80000
    (by rw [fwSize_firmwareFlash.1]; decide) (by rw [fwSize_firmwareFlash.1]; decide)).mpr
    (by rw [fwSize_firmwareFlash.1]; decide)
  obtain ⟨hflow, haddr⟩ := @session_completes (firmwareFlash 4) 0x80000 false (fun _ => 0) 5 none
    (by rw [fwSize_firmwareFlash.1]; decide) (by rw [fwSize_firmwareFlash.1]; decide)
  have hreads := sessionEvents_reads (firmwareFlash 4) 0x80000 5 none
    (fwSize (firmwareFlash 4) 0x80000 / otaPduLength false + 2)
  have hend := hall _ hreads (flow_ne hflow OtaStep.noConfusion) haddr
  refine ⟨⟨hall _ ?_ ?_ ?_, ?_, ?_⟩, hflow, hend⟩
  · intro ev hev
    simp only [List.cons_append, List.nil_append, List.mem_cons, List.not_mem_nil, or_false] at hev
    rcases hev with rfl | rfl | rfl | rfl | rfl | rfl | rfl | rfl
    · trivial
    all_goals rfl
  · decide +kernel
  · decide +kernel
  · decide +kernel
  · decide +kernel

/-- The last PDU of a firmware of 16 KiB has 16 bytes too many. -/
theorem ota_data_sent_aligned :
    let s := run (otaStep false fun _ => 0) ⟨.zero, []⟩
      (sessionEvents (firmwareFlash 0) 0x80000 5 none
        (fwSize (firmwareFlash 0) 0x80000 / otaPduLength false + 2))
    s.clt.otaUpdateFlow = .otaEnd ∧ s.clt.otaNewFwAddr = 0x80000 ∧
      ¬SendsFirmware false (fun _ => 0) (firmwareFlash 0) s := by
  obtain ⟨hflow, haddr⟩ := @session_completes (firmwareFlash 0) 0x80000 false (fun _ => 0) 5 none
    (by rw [fwSize_firmwareFlash.2]; decide) (by rw [fwSize_firmwareFlash.2]; decide)
  refine ⟨hflow, haddr, fun hsends => ?_⟩
  have hinv := @dataInv_run false (fun _ => 0) _ _ (sessionEvents_reads (firmwareFlash 0) 0x80000
    5 none (fwSize (firmwareFlash 0) 0x80000 / otaPduLength false + 2))
  have hpad := (hinv.2 (flow_ne hflow OtaStep.noConfusion)).pad_of_all_sent hflow
    (hsends.all_sent (.inl hflow)).2
  rw [haddr, fwSize_firmwareFlash.2] at hpad
  exact hpad rfl

end TlBleSdk.Eslp
