import TlBleSdk.Dfu.Steps

/-!
# Update sessions

What the host means by a session is read off the history: the size that the last accepted
`START_DFU` declared and the bytes of the `FW_DATA` accepted since then. The control block
keeps only counters and a CRC of it, and the CRC is taken over the flash as it reads back.
`SessionInv` says how far the two agree, in runs in which every accepted payload goes to
cells that take it.
-/

namespace TlBleSdk.Dfu

open Hci NorFlash Machine

/-! ## The session of a history -/

/-- The declared size of an update and the bytes accepted for it so far. -/
structure Session where
  size : ℕ
  data : List UInt8
deriving DecidableEq

/-- What an action makes of the session. -/
def Session.next : Option Session → DfuAct → Option Session
  | _, .init => none
  | _, .reset => none
  | _, .start fwSize => some ⟨fwSize, []⟩
  | s, .fwData data => s.map fun s => ⟨s.size, s.data ++ data⟩
  | s, .write _ _ => s
  | s, .erase _ => s
  | s, .bootSwitch => s

/-- The session since the last `START_DFU`, if no initialization or reset came after it. -/
def sessionOf (hist : List DfuAct) : Option Session := hist.foldl Session.next none

@[simp] theorem sessionOf_append (hist l : List DfuAct) :
    sessionOf (hist ++ l) = l.foldl Session.next (sessionOf hist) := List.foldl_append

/-- Erasing does not touch the session. -/
@[simp] theorem foldl_next_erase (s : Option Session) (l : List ℕ) :
    (l.map DfuAct.erase).foldl Session.next s = s := by
  induction l with
  | nil => rfl
  | cons a l ih => exact ih

/-- The image is complete: as many bytes as declared, at least one, with the right CRC. -/
def Session.Verified (s : Session) : Prop :=
  0 < s.size ∧ s.data.length = s.size ∧ crc32Calc dfuCrcInitValue s.data = 0

instance (s : Session) : Decidable s.Verified := inferInstanceAs (Decidable (_ ∧ _ ∧ _))

/-! ## Accepted payloads -/

namespace World

variable {w : World} {pParam : ℕ → UInt8} {dataLen : ℕ}

/-- The cells take the payload, but for the masked byte, which is not written. -/
def PayloadTakes (w : World) (pParam : ℕ → UInt8) (dataLen : ℕ) : Prop :=
  ∀ k < dataLen, (w.cb.fwOffset = 0 ∧ k = dfuFwFlagOffset) ∨
    w.flash (w.fwDataAddr + k) &&& pParam k = pParam k

instance (w : World) (pParam : ℕ → UInt8) (dataLen : ℕ) :
    Decidable (w.PayloadTakes pParam dataLen) :=
  inferInstanceAs (Decidable (∀ k < dataLen, _ ∨ _))

/-- Away from the masked byte the data are written as they came. -/
theorem maskedParam_apply {k : ℕ} (hk : ¬ (w.cb.fwOffset = 0 ∧ k = dfuFwFlagOffset)) :
    w.maskedParam pParam dataLen k = pParam k := by
  unfold maskedParam
  split
  · rename_i hm
    apply Function.update_of_ne
    intro h
    exact hk ⟨hm.1, h⟩
  · rfl

/-- The programmed cells hold the payload, but for the masked byte. -/
theorem PayloadTakes.cell (h : w.PayloadTakes pParam dataLen) {k : ℕ} (hk : k < dataLen)
    (hne : ¬ (w.cb.fwOffset = 0 ∧ k = dfuFwFlagOffset)) :
    program w.flash w.fwDataAddr (bytes (w.maskedParam pParam dataLen) dataLen)
      (w.fwDataAddr + k) = pParam k := by
  rw [program_apply, getD_bytes _ hk, maskedParam_apply hne]
  exact (h k hk).resolve_left hne

/-- The patched buffer is the payload as the host sent it, whatever the length of the
first packet: below the flag offset the patch falls behind the data. -/
theorem PayloadTakes.crcBuf_take (h : w.PayloadTakes pParam dataLen) :
    (w.crcBuf (program w.flash w.fwDataAddr (bytes (w.maskedParam pParam dataLen) dataLen))
      pParam dataLen).take dataLen = bytes pParam dataLen := by
  have hbuf : ∀ (k : ℕ) (l : List UInt8)
      (hk : k < (read (program w.flash w.fwDataAddr (bytes (w.maskedParam pParam dataLen) dataLen))
        w.fwDataAddr dataLen ++ l).length), k < dataLen →
      ¬ (w.cb.fwOffset = 0 ∧ k = dfuFwFlagOffset) →
        (read (program w.flash w.fwDataAddr (bytes (w.maskedParam pParam dataLen) dataLen))
          w.fwDataAddr dataLen ++ l)[k] = pParam k := by
    intro k l _ hk hne
    rw [List.getElem_append_left (by simpa using hk), getElem_read]
    exact h.cell hk hne
  apply List.ext_getElem
  · unfold crcBuf
    split <;> simp
  intro k hk hk'
  rw [length_bytes] at hk'
  rw [List.getElem_take]
  rw [getElem_bytes]
  unfold crcBuf
  by_cases hoff : w.cb.fwOffset = 0
  · simp only [if_pos hoff, List.getElem_set]
    split
    · rename_i hflag
      -- the patched byte lies inside the data, so the masking has taken it out
      subst hflag
      exact if_pos ⟨hoff, by omega⟩
    · rename_i hflag
      exact hbuf k _ _ hk' fun hc => hflag hc.2.symm
  · simp only [if_neg hoff]
    exact hbuf k _ _ hk' fun hc => hoff hc.1

/-! ## The session invariant -/

/-- An accepted `FW_DATA` goes to cells that take its payload. -/
def FaithfulWrite (w : World) : Input → Prop
  | .cmd _ p => opcodeOf p = hciOpcodeVsFwData →
      w.FwDataAccepted (paramOf p) (paramLenOf p) →
        w.PayloadTakes (paramOf p) (dataLenOf (paramLenOf p))
  | _ => True

instance (w : World) : ∀ i, Decidable (w.FaithfulWrite i)
  | .cmd _ _ => inferInstanceAs (Decidable (_ → _ → _))
  | .task _ _ => inferInstanceAs (Decidable True)
  | .txDone => inferInstanceAs (Decidable True)

end World

/-- The addresses `blc_ota_getNextFirmwareStartAddress` is documented to return. -/
def NextFwAddrOk (nextFwAddr : ℕ) : Prop := nextFwAddr = 0 ∨ nextFwAddr = dfuNewFwAddrBase

instance (nextFwAddr : ℕ) : Decidable (NextFwAddrOk nextFwAddr) :=
  inferInstanceAs (Decidable (_ ∨ _))

/-- The control block and the slot agree with the session of the history. -/
structure SessionInv (c : Core) : Prop where
  /-- without a session the counters are clear, whatever the CRC -/
  closed : sessionOf c.hist = none → c.newFwSize = 0 ∧ c.fwOffset = 0 ∧ c.status ≠ .start
  /-- the counters are those of the session -/
  opened : ∀ s, sessionOf c.hist = some s →
    c.newFwSize = s.size ∧ c.fwOffset = s.data.length ∧
      c.curCrc = crc32Calc dfuCrcInitValue s.data
  /-- the slot holds the image, but for the boot-flag byte -/
  written : ∀ s, sessionOf c.hist = some s → NextFwAddrOk c.nextFwAddrStart →
    ∀ k, (hk : k < s.data.length) → k ≠ dfuFwFlagOffset →
      c.flash (c.nextFwAddrStart + k) = s.data[k]
  /-- the data overshoot the slot by less than one packet -/
  bounded : ∀ s, sessionOf c.hist = some s → s.data.length < c.maxFwSize + dfuMaxPayload
  /-- the declared size was checked -/
  size_le : c.newFwSize ≤ c.maxFwSize

namespace World

variable {w : World} {i : Input} {nextFwAddr : ℕ}

/-- Without a session there is nothing to agree on. -/
theorem sessionInv_of_closed {c : Core} (hhist : sessionOf c.hist = none)
    (hsize : c.newFwSize = 0) (hoff : c.fwOffset = 0) (hsta : c.status ≠ .start) :
    SessionInv c where
  closed _ := ⟨hsize, hoff, hsta⟩
  opened s hs := by rw [hhist] at hs; cases hs
  written s hs := by rw [hhist] at hs; cases hs
  bounded s hs := by rw [hhist] at hs; cases hs
  size_le := by rw [hsize]; exact Nat.zero_le _

/-- Opening a session. -/
theorem sessionInv_dfuStart {fwSize : ℕ} (hsize : fwSize ≤ w.cb.maxFwSize) :
    SessionInv (w.dfuStart fwSize).core := by
  rw [dfuStart_core]
  have hsess : sessionOf (w.hist ++ [DfuAct.reset] ++ [DfuAct.start fwSize]) =
      some ⟨fwSize, []⟩ := by simp [Session.next]
  refine ⟨?_, ?_, ?_, ?_, hsize⟩
  · intro hs
    rw [hsess] at hs
    cases hs
  all_goals
    intro s hs
    rw [hsess] at hs
    obtain rfl := Option.some.inj hs
  · exact ⟨rfl, rfl, rfl⟩
  · intro _ k hk
    exact absurd hk (Nat.not_lt_zero k)
  · exact Nat.add_pos_right _ (by decide)

/-- An accepted payload. -/
theorem sessionInv_programFwData (h : SessionInv w.core) {pParam : ℕ → UInt8}
    {dataLen : ℕ} (hsta : w.cb.status = .start) (hoff : w.cb.fwOffset < w.cb.newFwSize)
    (hlen : dataLen ≤ dfuMaxPayload) (htakes : w.PayloadTakes pParam dataLen) :
    SessionInv (w.programFwData pParam dataLen).core := by
  -- the status says that a session is open
  obtain ⟨s, hs⟩ : ∃ s, sessionOf w.hist = some s := by
    by_contra hnone
    rw [not_exists] at hnone
    exact (h.closed (Option.eq_none_iff_forall_ne_some.mpr hnone)).2.2 hsta
  obtain ⟨hsize, hlength, hcrc⟩ := h.opened s hs
  have hsess : sessionOf (w.programFwData pParam dataLen).core.hist =
      some ⟨s.size, s.data ++ bytes pParam dataLen⟩ := by
    simp [core, programFwData, flashWritePage, Session.next, hs]
  have haddr : w.fwDataAddr = w.cb.nextFwAddrStart + s.data.length :=
    congrArg (w.cb.nextFwAddrStart + ·) hlength
  refine ⟨?_, ?_, ?_, ?_, h.size_le⟩
  · intro hnone
    rw [hsess] at hnone
    cases hnone
  all_goals
    intro s' hs'
    rw [hsess] at hs'
    obtain rfl := Option.some.inj hs'
  · refine ⟨hsize, ?_, ?_⟩
    · rw [List.length_append, length_bytes]
      exact congrArg (· + dataLen) hlength
    · rw [crc32Calc_append, ← hcrc, ← htakes.crcBuf_take]
      rfl
  · intro hnext k hk hne
    show program w.flash w.fwDataAddr (bytes (w.maskedParam pParam dataLen) dataLen)
      (w.cb.nextFwAddrStart + k) = _
    by_cases hlt : k < s.data.length
    · -- written by an earlier packet
      rw [program_of_disjoint _ (by omega), List.getElem_append_left hlt]
      exact h.written s hs hnext k hlt hne
    · -- written by this one
      rw [List.getElem_append_right (by omega), getElem_bytes]
      rw [List.length_append, length_bytes] at hk
      have hcell := htakes.cell (k := k - s.data.length) (by omega)
        (by rintro ⟨h0, hflag⟩; rw [show w.cb.fwOffset = _ from hlength] at h0; omega)
      rwa [show w.fwDataAddr + (k - s.data.length) = w.cb.nextFwAddrStart + k by omega] at hcell
  · have hmax : w.cb.newFwSize ≤ w.cb.maxFwSize := h.size_le
    have hlength' : w.cb.fwOffset = s.data.length := hlength
    show (s.data ++ bytes pParam dataLen).length < w.cb.maxFwSize + dfuMaxPayload
    rw [List.length_append, length_bytes]
    omega

/-- The boot switch leaves the session and the image in the slot alone. -/
theorem sessionInv_switchBootFlags (h : SessionInv w.core)
    (hset : w.core.Settled nextFwAddr) :
    SessionInv (w.switchBootFlags.setStatus .ended).core := by
  have hsess : sessionOf (w.switchBootFlags.setStatus .ended).core.hist =
      sessionOf w.hist := by
    simp [core, setStatus, switchBootFlags, flashWritePage, Session.next]
  refine ⟨?_, ?_, ?_, ?_, h.size_le⟩
  · intro hs
    rw [hsess] at hs
    have hclosed := h.closed hs
    exact ⟨hclosed.1, hclosed.2.1, fun hsta => by cases hsta⟩
  · intro s hs
    rw [hsess] at hs
    exact h.opened s hs
  · intro s hs hnext k hk hne
    rw [hsess] at hs
    rw [← h.written s hs hnext k hk hne]
    -- one flag byte is the slot's own, the other one lies in the other slot
    have hbound : s.data.length < w.cb.maxFwSize + dfuMaxPayload := h.bounded s hs
    have hbase : w.cb.newFwAddrStart = dfuNewFwAddrBase := hset.newFwAddrStart_eq
    have hmax : w.cb.maxFwSize = dfuNewFwMaxSize := hset.maxFwSize_eq
    have hnext' : w.cb.nextFwAddrStart = 0 ∨ w.cb.nextFwAddrStart = dfuNewFwAddrBase := hnext
    have hflag : w.cb.nextFwAddrStart + k ≠ w.baseAddr + dfuFwFlagOffset := by
      unfold baseAddr
      unfold dfuNewFwAddrBase dfuNewFwMaxSize dfuMaxPayload dfuFwFlagOffset at *
      split <;> omega
    show w.switchBootFlags.flash (w.cb.nextFwAddrStart + k) = _
    rw [switchBootFlags_flash, program_of_disjoint, program_of_disjoint]
    · rfl
    · rw [List.length_singleton]
      omega
    · rw [List.length_singleton]
      omega
  · intro s hs
    rw [hsess] at hs
    exact h.bounded s hs

/-- One step. -/
theorem sessionInv_step (h : SessionInv w.core) (hset : w.core.Settled nextFwAddr)
    (hok : w.FaithfulWrite i) : SessionInv (w.step i).core := by
  have hout := outcome_step w i
  generalize (w.step i).core = c at hout
  cases hout with
  | idle => exact h
  | refuseSize => apply sessionInv_of_closed <;> simp [reset, Session.next]
  | start now p _ hacc => exact sessionInv_dfuStart hacc.2.1
  | fwData now p hop hacc =>
    exact sessionInv_programFwData h hacc.2.1 hacc.2.2.2.2 hacc.2.2.1 (hok hop hacc)
  | term =>
    exact ⟨fun hs => ⟨(h.closed hs).1, (h.closed hs).2.1, fun hsta => by cases hsta⟩, h.opened,
      h.written, h.bounded, h.size_le⟩
  | switch => exact sessionInv_switchBootFlags h hset
  | reboot =>
    exact ⟨fun hs => ⟨(h.closed hs).1, (h.closed hs).2.1, fun hsta => by cases hsta⟩, h.opened,
      h.written, h.bounded, h.size_le⟩
  | cleanup => apply sessionInv_of_closed <;> simp [reset, Session.next]
  | timeout => apply sessionInv_of_closed <;> simp [reset, Session.next]

end World

namespace World

variable {nextFwAddr : ℕ} {flash : Cells} {txFifo : HciFifo}

/-- After the initialization no session is open. -/
theorem sessionInv_boot : SessionInv (boot nextFwAddr flash txFifo).core := by
  obtain ⟨c, l, -, hcore⟩ := boot_core nextFwAddr flash txFifo
  rw [hcore]
  exact sessionInv_of_closed (foldl_next_erase none l) rfl rfl nofun

/-- The invariant holds throughout every run of faithful writes. -/
theorem sessionInv_run {is : List Input}
    (hok : Along step FaithfulWrite (boot nextFwAddr flash txFifo) is) :
    SessionInv (run step (boot nextFwAddr flash txFifo) is).core := by
  have hstep : ∀ w i, SessionInv (core w) ∧ (core w).Settled nextFwAddr → w.FaithfulWrite i →
      SessionInv (core (w.step i)) ∧ (core (w.step i)).Settled nextFwAddr :=
    fun w i h hi => ⟨sessionInv_step h.1 h.2 hi, settled_step h.2⟩
  exact (run_invariant hstep ⟨sessionInv_boot, settled_boot flash txFifo⟩ hok).1

/-! ## The image and its CRC -/

/-- Image integrity: while a session is open, `curCrc` is the CRC of the bytes accepted
so far; and when the boot flags have been switched, the slot holds the image that the host
sent, once its boot-flag byte is set to the one the host sent along. -/
theorem image_integrity (nextFwAddr : ℕ) (flash : Cells) (txFifo : HciFifo) (is : List Input)
    (hnext : NextFwAddrOk nextFwAddr)
    (hok : Along step FaithfulWrite (boot nextFwAddr flash txFifo) is) :
    let w := run step (boot nextFwAddr flash txFifo) is
    (w.cb.status = .start → ∃ s, sessionOf w.hist = some s ∧
      w.cb.curCrc = crc32Calc dfuCrcInitValue s.data) ∧
    (w.hist.getLast? = some .bootSwitch → ∀ s, sessionOf w.hist = some s →
      s.data[dfuFwFlagOffset]? = some bootFlagValid →
        read (Function.update w.flash (w.cb.nextFwAddrStart + dfuFwFlagOffset) bootFlagValid)
          w.cb.nextFwAddrStart s.data.length = s.data) := by
  intro w
  have h : SessionInv w.core := sessionInv_run hok
  refine ⟨?_, ?_⟩
  · intro hsta
    cases hs : sessionOf w.hist with
    | none => exact absurd hsta (h.closed hs).2.2
    | some s => exact ⟨s, rfl, (h.opened s hs).2.2⟩
  · intro _ s hs hflag
    apply List.ext_getElem (length_read _ _ _)
    intro k hk hk'
    rw [getElem_read]
    by_cases hne : k = dfuFwFlagOffset
    · subst hne
      rw [Function.update_self]
      exact (List.getElem_eq_iff hk').mpr hflag |>.symm
    · rw [Function.update_of_ne (by omega)]
      have hset : w.core.Settled nextFwAddr := settled_run flash txFifo is
      exact h.written s hs (hset.nextFwAddrStart_eq ▸ hnext) k hk' hne

/-! ### Runs of both kinds -/

/-- An update of an erased slot in two packets. -/
def sampleUpdate : List Input :=
  [.cmd 1 (startDfuCmd 37), .cmd 2 (fwDataCmd (sampleImage.take 10)),
    .cmd 3 (fwDataCmd (sampleImage.drop 10)), .cmd 4 (endDfuCmd dfuEndModeFwUpd)]

theorem image_integrity_sampleUpdate :
    let w := run step bootErased sampleUpdate
    (w.cb.status = .start → ∃ s, sessionOf w.hist = some s ∧
      w.cb.curCrc = crc32Calc dfuCrcInitValue s.data) ∧
    (w.hist.getLast? = some .bootSwitch → ∀ s, sessionOf w.hist = some s →
      s.data[dfuFwFlagOffset]? = some bootFlagValid →
        read (Function.update w.flash (w.cb.nextFwAddrStart + dfuFwFlagOffset) bootFlagValid)
          w.cb.nextFwAddrStart s.data.length = s.data) :=
  image_integrity dfuNewFwAddrBase (fun _ => 0xFF) (HciFifo.empty 260 3 (by decide))
    sampleUpdate (by decide) (by decide +kernel)

/-- A session that is terminated with data in the slot, and one that is opened before the
clean-up: the first byte of the second image cannot be programmed over the first one. -/
def dirtyUpdate : List Input :=
  [.cmd 1 (startDfuCmd 1), .cmd 2 (fwDataCmd [0x00]), .cmd 3 (endDfuCmd dfuEndModeTermUpd),
    .cmd 4 (startDfuCmd 2), .cmd 5 (fwDataCmd [0x01])]

theorem image_integrity_dirtyUpdate :
    ¬ (let w := run step bootErased dirtyUpdate
      w.cb.status = .start → ∃ s, sessionOf w.hist = some s ∧
        w.cb.curCrc = crc32Calc dfuCrcInitValue s.data) := by
  have hrun : (run step bootErased dirtyUpdate).cb.status = .start ∧
      sessionOf (run step bootErased dirtyUpdate).hist = some ⟨2, [0x01]⟩ ∧
      (run step bootErased dirtyUpdate).cb.curCrc ≠ crc32Calc dfuCrcInitValue [0x01] := by
    decide +kernel
  intro h
  obtain ⟨s, hs, hcrc⟩ := h hrun.1
  rw [hrun.2.1] at hs
  obtain rfl := Option.some.inj hs
  exact hrun.2.2 hcrc

/-! ## The boot switch -/

end World

/-- Every boot switch of the history came behind a complete and verified session. -/
def SwitchesVerified (hist : List DfuAct) : Prop :=
  ∀ h₁ h₂, hist = h₁ ++ .bootSwitch :: h₂ → ∃ s, sessionOf h₁ = some s ∧ s.Verified

theorem SwitchesVerified.append {hist l : List DfuAct} (h : SwitchesVerified hist)
    (hl : ∀ l₁ l₂, l = l₁ ++ .bootSwitch :: l₂ →
      ∃ s, sessionOf (hist ++ l₁) = some s ∧ s.Verified) : SwitchesVerified (hist ++ l) := by
  intro h₁ h₂ heq
  rcases List.append_eq_append_iff.mp heq with ⟨m, rfl, hm⟩ | ⟨m, rfl, hm⟩
  · exact hl m h₂ hm
  · cases m with
    | nil => exact hl [] h₂ hm.symm |>.imp fun s hs => by simpa using hs
    | cons a m =>
      obtain ⟨rfl, rfl⟩ := List.cons.inj hm
      exact h h₁ m rfl

namespace World

variable {w : World} {i : Input} {nextFwAddr : ℕ}

/-- The control block is as `DFU_Init` left it: no reset and no `START_DFU` since then. -/
def AsInitialized (w : World) : Prop :=
  w.cb.newFwSize = 0 ∧ w.cb.fwOffset = 0 ∧ w.cb.curCrc = 0

instance (w : World) : Decidable w.AsInitialized := inferInstanceAs (Decidable (_ ∧ _ ∧ _))

/-- The step writes faithfully, and it is no `END_DFU` that closes an update before the
first session. -/
def SwitchOk (w : World) (i : Input) : Prop :=
  w.FaithfulWrite i ∧ match i with
    | .cmd _ p => opcodeOf p = hciOpcodeVsEndDfu → paramOf p 0 = dfuEndModeFwUpd →
        ¬ w.AsInitialized
    | _ => True

instance (w : World) : ∀ i, Decidable (w.SwitchOk i)
  | .cmd _ _ => inferInstanceAs (Decidable (_ ∧ (_ → _ → _)))
  | .task _ _ => inferInstanceAs (Decidable (_ ∧ True))
  | .txDone => inferInstanceAs (Decidable (_ ∧ True))

/-- One step. -/
theorem switchesVerified_step (h : SessionInv w.core) (hv : SwitchesVerified w.hist)
    (hok : w.SwitchOk i) : SwitchesVerified (w.step i).hist := by
  obtain ⟨l, hl, hsw⟩ := w.hist_step i
  rw [hl]
  apply hv.append
  intro l₁ l₂ heq
  obtain ⟨hacts, now, p, rfl, hop, hmode, hoff, hcrc⟩ := hsw (by rw [heq]; simp)
  -- the switch is the last action, behind the two flag writes
  have hl₁ : sessionOf (w.hist ++ l₁) = sessionOf w.hist := by
    obtain ⟨rfl, -⟩ := switchActs_split (hacts.symm.trans heq)
    simp [Session.next]
  rw [hl₁]
  cases hs : sessionOf w.hist with
  | none =>
    obtain ⟨hsize, hoff', -⟩ := h.closed hs
    exact absurd ⟨hsize, hoff', hcrc⟩ (hok.2 hop hmode)
  | some s =>
    obtain ⟨hsize, hlength, hcrc'⟩ := h.opened s hs
    have hcrc0 : crc32Calc dfuCrcInitValue s.data = 0 := hcrc'.symm.trans hcrc
    have hlen : s.data.length = s.size := by
      rw [← hlength, ← hsize]
      exact hoff
    refine ⟨s, rfl, ?_, hlen, hcrc0⟩
    -- the CRC of no data is its initial value
    apply Nat.pos_of_ne_zero
    intro hzero
    rw [List.length_eq_zero_iff.mp (hlen.trans hzero)] at hcrc0
    exact absurd hcrc0 (by decide)

/-- The boot switch only follows a complete verified image. -/
theorem switches_verified (nextFwAddr : ℕ) (flash : Cells) (txFifo : HciFifo) (is : List Input)
    (hok : Along step SwitchOk (boot nextFwAddr flash txFifo) is) :
    SwitchesVerified (run step (boot nextFwAddr flash txFifo) is).hist := by
  have hstep : ∀ w i,
      SessionInv (core w) ∧ (core w).Settled nextFwAddr ∧ SwitchesVerified w.hist → w.SwitchOk i →
        SessionInv (core (w.step i)) ∧ (core (w.step i)).Settled nextFwAddr ∧
          SwitchesVerified (w.step i).hist :=
    fun w i ⟨h, hset, hv⟩ hi =>
      ⟨sessionInv_step h hset hi.1, settled_step hset, switchesVerified_step h hv hi⟩
  have hboot : SwitchesVerified (boot nextFwAddr flash txFifo).hist := by
    obtain ⟨l, hl⟩ := boot_hist nextFwAddr flash txFifo
    rw [hl]
    intro h₁ h₂ heq
    have hmem : DfuAct.bootSwitch ∈ DfuAct.init :: l.map DfuAct.erase := by
      rw [heq]
      simp
    simp at hmem
  exact (run_invariant hstep ⟨sessionInv_boot, settled_boot flash txFifo, hboot⟩ hok).2.2

theorem switches_verified_sampleUpdate :
    SwitchesVerified (run step bootErased sampleUpdate).hist :=
  switches_verified dfuNewFwAddrBase (fun _ => 0xFF) (HciFifo.empty 260 3 (by decide))
    sampleUpdate (by decide +kernel)

/-- An `END_DFU` right behind the initialization finds `fwOffset` equal to `newFwSize` and
the CRC that `DFU_Init` cleared. -/
theorem switches_verified_endAfterInit :
    ¬ SwitchesVerified (run step bootErased [.cmd 1 (endDfuCmd dfuEndModeFwUpd)]).hist := by
  intro h
  have hrun : (run step bootErased [.cmd 1 (endDfuCmd dfuEndModeFwUpd)]).hist =
      [.init, .write 0x40020 [bootFlagValid], .write 0x20 [0x00]] ++ .bootSwitch :: [] := by
    decide +kernel
  obtain ⟨s, hs, -⟩ := h _ _ hrun
  cases hs

end World

end TlBleSdk.Dfu
