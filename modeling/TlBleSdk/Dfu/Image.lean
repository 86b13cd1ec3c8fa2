import TlBleSdk.Dfu.Steps

/-!
# Programming the image

Two properties of the `FW_DATA` commands of a session, each with the exact condition on the
commands under which it holds throughout.

The boot flag of the new slot stays erased until the switch: the code masks it in the packet
at offset 0 only, so a later packet that covers the flag must carry `0xFF` there.

The writes stay inside the declared image: the code checks where a packet starts, not where
it ends, so the last packet must end with the image.
-/

namespace TlBleSdk.Dfu

open Hci NorFlash Machine

namespace World

variable {w : World} {i : Input} {nextFwAddr : ℕ}

/-! ## The boot flag -/

/-- An accepted `FW_DATA` behind the first one leaves the flag erased, if it covers it. -/
def KeepsFlag (w : World) : Input → Prop
  | .cmd _ p => opcodeOf p = hciOpcodeVsFwData → w.FwDataAccepted (paramOf p) (paramLenOf p) →
      0 < w.cb.fwOffset → w.cb.fwOffset ≤ dfuFwFlagOffset →
        dfuFwFlagOffset < w.cb.fwOffset + dataLenOf (paramLenOf p) →
          paramOf p (dfuFwFlagOffset - w.cb.fwOffset) = 0xFF
  | _ => True

instance (w : World) : ∀ i, Decidable (w.KeepsFlag i)
  | .cmd _ _ => inferInstanceAs (Decidable (_ → _ → _ → _ → _ → _))
  | .task _ _ => inferInstanceAs (Decidable True)
  | .txDone => inferInstanceAs (Decidable True)

/-- The step is an `END_DFU` that succeeds. -/
def EndSucceeds (w : World) : Input → Prop
  | .cmd _ p => opcodeOf p = hciOpcodeVsEndDfu ∧ w.EndSwitches (paramOf p)
  | _ => False

instance (w : World) : ∀ i, Decidable (w.EndSucceeds i)
  | .cmd _ _ => inferInstanceAs (Decidable (_ ∧ _))
  | .task _ _ => inferInstanceAs (Decidable False)
  | .txDone => inferInstanceAs (Decidable False)

/-- What programming a payload makes of an erased flag. -/
theorem flag_program {pParam : ℕ → UInt8} {dataLen : ℕ}
    (hflag : w.flash (w.cb.nextFwAddrStart + dfuFwFlagOffset) = 0xFF) :
    program w.flash w.fwDataAddr (bytes (w.maskedParam pParam dataLen) dataLen)
        (w.cb.nextFwAddrStart + dfuFwFlagOffset) = 0xFF ↔
      (0 < w.cb.fwOffset → w.cb.fwOffset ≤ dfuFwFlagOffset →
        dfuFwFlagOffset < w.cb.fwOffset + dataLen →
          pParam (dfuFwFlagOffset - w.cb.fwOffset) = 0xFF) := by
  by_cases hcover : w.cb.fwOffset ≤ dfuFwFlagOffset ∧ dfuFwFlagOffset < w.cb.fwOffset + dataLen
  · have haddr : w.cb.nextFwAddrStart + dfuFwFlagOffset =
        w.fwDataAddr + (dfuFwFlagOffset - w.cb.fwOffset) := by
      unfold fwDataAddr
      omega
    rw [haddr] at hflag
    rw [haddr, program_apply, getD_bytes _ (by omega), hflag, ones_and]
    by_cases hoff : w.cb.fwOffset = 0
    · -- the first packet: the masking has put the erased value there
      have hmask : w.maskedParam pParam dataLen (dfuFwFlagOffset - w.cb.fwOffset) = 0xFF := by
        unfold maskedParam
        rw [if_pos ⟨hoff, by omega⟩, hoff]
        exact Function.update_self _ _ _
      rw [hmask, hoff]
      exact ⟨fun _ h => absurd h (Nat.lt_irrefl 0), fun _ => rfl⟩
    · have hmask : w.maskedParam pParam dataLen = pParam := if_neg fun h => hoff h.1
      rw [hmask]
      exact ⟨fun h _ _ _ => h, fun h => h (Nat.pos_of_ne_zero hoff) hcover.1 hcover.2⟩
  · rw [program_of_disjoint _ (by rw [length_bytes]; unfold fwDataAddr; omega)]
    exact ⟨fun _ _ h₁ h₂ => absurd ⟨h₁, h₂⟩ hcover, fun _ => hflag⟩

/-- One step keeps the flag erased exactly when it meets the condition. -/
theorem flag_step (hset : w.core.Settled nextFwAddr)
    (hflag : w.flash (nextFwAddr + dfuFwFlagOffset) = 0xFF) (hend : ¬ w.EndSucceeds i) :
    (w.step i).flash (nextFwAddr + dfuFwFlagOffset) = 0xFF ↔ w.KeepsFlag i := by
  have hnext : w.cb.nextFwAddrStart = nextFwAddr := hset.nextFwAddrStart_eq
  subst hnext
  have hout := outcome_step w i
  rw [← core_flash]
  by_cases hacc : ∃ now p, i = .cmd now p ∧ opcodeOf p = hciOpcodeVsFwData ∧
      w.FwDataAccepted (paramOf p) (paramLenOf p)
  · obtain ⟨now, p, rfl, hop, hacc⟩ := hacc
    rw [step_fwData (hset.running hacc.2.1) hop hacc, programFwData_core]
    rw [flag_program hflag]
    exact ⟨fun h _ _ => h, fun h => h hop hacc⟩
  -- no other step programs the new slot
  have hkeep : w.KeepsFlag i := by
    cases i with
    | cmd now p => exact fun hop h => absurd ⟨now, p, rfl, hop, h⟩ hacc
    | task => trivial
    | txDone => trivial
  refine ⟨fun _ => hkeep, fun _ => ?_⟩
  generalize (w.step i).core = c at hout
  cases hout with
  | fwData now p hop h => exact absurd ⟨now, p, rfl, hop, h⟩ hacc
  | switch now p hop h => exact absurd ⟨hop, h⟩ hend
  | start => rw [dfuStart_core]; exact hflag
  | cleanup now _ _ _ c l hc =>
    rcases hc.cell (w.cb.nextFwAddrStart + dfuFwFlagOffset) with h | h
    · exact h
    · exact h.trans hflag
  | timeout now _ _ _ _ c l hc =>
    rcases hc.cell (w.cb.nextFwAddrStart + dfuFwFlagOffset) with h | h
    · exact h
    · exact h.trans hflag
  | _ => exact hflag

/-- From an erased slot on, as behind an accepted `START_DFU`, the boot flag stays erased
until the switch exactly when no packet behind the first one programs it. -/
theorem flag_erased_iff (nextFwAddr : ℕ) (flash : Cells) (txFifo : HciFifo) (pre is : List Input)
    (herased : Erased (run step (boot nextFwAddr flash txFifo) pre).flash nextFwAddr
      dfuNewFwMaxSize)
    (hend : Along step (fun w i => ¬ w.EndSucceeds i)
      (run step (boot nextFwAddr flash txFifo) pre) is) :
    Always step (fun w => w.flash (nextFwAddr + dfuFwFlagOffset) = 0xFF)
        (run step (boot nextFwAddr flash txFifo) pre) is ↔
      Along step KeepsFlag (run step (boot nextFwAddr flash txFifo) pre) is := by
  have hstep : ∀ w i, (core w).Settled nextFwAddr →
      w.flash (nextFwAddr + dfuFwFlagOffset) = 0xFF → ¬ w.EndSucceeds i →
        ((w.step i).flash (nextFwAddr + dfuFwFlagOffset) = 0xFF ↔ w.KeepsFlag i) :=
    fun _ _ => flag_step
  exact always_iff_along hstep (fun _ _ h _ _ _ => settled_step h) hend
    (settled_run flash txFifo pre) (herased _ (by decide))

theorem bootErased_start_erased :
    Erased (run step bootErased [.cmd 1 (startDfuCmd 37)]).flash dfuNewFwAddrBase
      dfuNewFwMaxSize := fun _ _ => rfl

theorem flag_erased_iff_onePacket :
    Always step (fun w => w.flash (dfuNewFwAddrBase + dfuFwFlagOffset) = 0xFF)
        (run step bootErased [.cmd 1 (startDfuCmd 37)]) [.cmd 2 (fwDataCmd sampleImage)] ↔
      Along step KeepsFlag (run step bootErased [.cmd 1 (startDfuCmd 37)])
        [.cmd 2 (fwDataCmd sampleImage)] :=
  flag_erased_iff dfuNewFwAddrBase (fun _ => 0xFF) (HciFifo.empty 260 3 (by decide))
    [.cmd 1 (startDfuCmd 37)] [.cmd 2 (fwDataCmd sampleImage)] bootErased_start_erased
    (by decide +kernel)

/-- In two packets, of ten bytes and the rest, the image brings its boot flag into the slot
while the session is still open. -/
theorem flag_erased_twoPackets :
    ¬ Always step (fun w => w.flash (dfuNewFwAddrBase + dfuFwFlagOffset) = 0xFF)
      (run step bootErased [.cmd 1 (startDfuCmd 37)])
      [.cmd 2 (fwDataCmd (sampleImage.take 10)), .cmd 3 (fwDataCmd (sampleImage.drop 10))] := by
  intro h
  have hflag : (run step (run step bootErased [.cmd 1 (startDfuCmd 37)])
      [.cmd 2 (fwDataCmd (sampleImage.take 10)), .cmd 3 (fwDataCmd (sampleImage.drop 10))]).flash
        (dfuNewFwAddrBase + dfuFwFlagOffset) = bootFlagValid := by
    decide +kernel
  have hlast := h.last
  rw [hflag] at hlast
  exact absurd hlast (by decide)

/-! ## The bounds of the image -/

/-- An accepted `FW_DATA` ends inside the declared image. -/
def FitsImage (w : World) : Input → Prop
  | .cmd _ p => opcodeOf p = hciOpcodeVsFwData → w.FwDataAccepted (paramOf p) (paramLenOf p) →
      w.cb.fwOffset + dataLenOf (paramLenOf p) ≤ w.cb.newFwSize
  | _ => True

instance (w : World) : ∀ i, Decidable (w.FitsImage i)
  | .cmd _ _ => inferInstanceAs (Decidable (_ → _ → _))
  | .task _ _ => inferInstanceAs (Decidable True)
  | .txDone => inferInstanceAs (Decidable True)

/-- The input is an `FW_DATA`. -/
def IsFwData : Input → Prop
  | .cmd _ p => opcodeOf p = hciOpcodeVsFwData
  | _ => False

instance : ∀ i, Decidable (IsFwData i)
  | .cmd _ _ => inferInstanceAs (Decidable (_ = _))
  | .task _ _ => inferInstanceAs (Decidable False)
  | .txDone => inferInstanceAs (Decidable False)

/-- The data length of an `FW_DATA` that is accepted. -/
def acceptedLen (w : World) : Input → ℕ
  | .cmd _ p =>
    if opcodeOf p = hciOpcodeVsFwData ∧ w.FwDataAccepted (paramOf p) (paramLenOf p) then
      dataLenOf (paramLenOf p)
    else 0
  | _ => 0

/-- The data lengths of all the `FW_DATA` that are accepted. -/
def acceptedSum : World → List Input → ℕ
  | _, [] => 0
  | w, i :: is => w.acceptedLen i + acceptedSum (w.step i) is

end World

/-- The session is inside its bounds: the offset in the image, the image in the slot, and
every write behind the first `n` actions of the history in the image. -/
structure Core.InImage (n : ℕ) (c : Core) : Prop where
  offset_le : c.fwOffset ≤ c.newFwSize
  size_le : c.newFwSize ≤ c.maxFwSize
  write_mem : ∀ addr data, DfuAct.write addr data ∈ c.hist.drop n →
    c.nextFwAddrStart ≤ addr ∧ addr + data.length ≤ c.nextFwAddrStart + c.newFwSize

namespace World

variable {w : World} {i : Input} {nextFwAddr : ℕ}

/-- What an accepted payload makes of the bounds. -/
theorem inImage_programFwData {n : ℕ} (hn : n ≤ w.hist.length) (h : w.core.InImage n)
    (pParam : ℕ → UInt8) (dataLen : ℕ) :
    (w.programFwData pParam dataLen).core.InImage n ↔
      w.cb.fwOffset + dataLen ≤ w.cb.newFwSize := by
  rw [programFwData_core]
  refine ⟨fun h' => h'.offset_le, fun hfit => ⟨hfit, h.size_le, ?_⟩⟩
  intro addr data hmem
  rw [List.append_assoc, List.drop_append_of_le_length hn, List.mem_append] at hmem
  rcases hmem with hmem | hmem
  · exact h.write_mem addr data hmem
  · -- the write of this packet
    obtain ⟨rfl, rfl⟩ : addr = w.fwDataAddr ∧
        data = bytes (w.maskedParam pParam dataLen) dataLen := by simpa using hmem
    show w.cb.nextFwAddrStart ≤ w.fwDataAddr ∧
      w.fwDataAddr + _ ≤ w.cb.nextFwAddrStart + w.cb.newFwSize
    rw [length_bytes]
    unfold fwDataAddr
    omega

/-- A refused packet leaves the session alone. -/
theorem step_refused {now : ℕ} {p : ℕ → UInt8} (hop : opcodeOf p = hciOpcodeVsFwData)
    (hacc : ¬ w.FwDataAccepted (paramOf p) (paramLenOf p)) :
    (w.step (.cmd now p)).core = w.core := by
  have hout := outcome_step w (.cmd now p)
  generalize (w.step (.cmd now p)).core = c at hout
  cases hout with
  | idle => rfl
  | fwData _ _ _ h => exact absurd h hacc
  | refuseSize _ _ hop' => exact absurd (hop.symm.trans hop') (by decide)
  | start _ _ hop' => exact absurd (hop.symm.trans hop') (by decide)
  | switch _ _ hop' => exact absurd (hop.symm.trans hop') (by decide)
  | term _ _ hop' =>
    rcases hop' with hop' | hop'
    · exact absurd (hop.symm.trans hop'.1) (by decide)
    · exact absurd (hop.symm.trans hop'.1) (by decide)

/-- One `FW_DATA` stays inside the image exactly when it ends there. -/
theorem inImage_step {n : ℕ} (hset : w.core.Settled nextFwAddr) (hn : n ≤ w.hist.length)
    (h : w.core.InImage n) (hdata : IsFwData i) :
    (w.step i).core.InImage n ↔ w.FitsImage i := by
  cases i with
  | task => exact hdata.elim
  | txDone => exact hdata.elim
  | cmd now p =>
  have hop : opcodeOf p = hciOpcodeVsFwData := hdata
  by_cases hacc : w.FwDataAccepted (paramOf p) (paramLenOf p)
  · rw [step_fwData (hset.running hacc.2.1) hop hacc, inImage_programFwData hn h]
    exact ⟨fun h _ _ => h, fun h => h hop hacc⟩
  · rw [step_refused hop hacc]
    exact ⟨fun _ _ h => absurd h hacc, fun _ => h⟩

theorem acceptedLen_of_accepted {now : ℕ} {p : ℕ → UInt8} (hop : opcodeOf p = hciOpcodeVsFwData)
    (hacc : w.FwDataAccepted (paramOf p) (paramLenOf p)) :
    w.acceptedLen (.cmd now p) = dataLenOf (paramLenOf p) :=
  if_pos ⟨hop, hacc⟩

theorem acceptedLen_of_refused {now : ℕ} {p : ℕ → UInt8}
    (hacc : ¬ w.FwDataAccepted (paramOf p) (paramLenOf p)) : w.acceptedLen (.cmd now p) = 0 :=
  if_neg fun h => hacc h.2

/-- What one `FW_DATA` makes of the offset and the size. -/
theorem fwOffset_step (hset : w.core.Settled nextFwAddr) (hdata : IsFwData i) :
    (w.step i).core.fwOffset = w.core.fwOffset + w.acceptedLen i ∧
      (w.step i).core.newFwSize = w.core.newFwSize := by
  cases i with
  | task => exact hdata.elim
  | txDone => exact hdata.elim
  | cmd now p =>
  have hop : opcodeOf p = hciOpcodeVsFwData := hdata
  by_cases hacc : w.FwDataAccepted (paramOf p) (paramLenOf p)
  · rw [step_fwData (hset.running hacc.2.1) hop hacc, programFwData_core,
      acceptedLen_of_accepted hop hacc]
    exact ⟨rfl, rfl⟩
  · rw [step_refused hop hacc, acceptedLen_of_refused hacc]
    exact ⟨rfl, rfl⟩

theorem fitsImage_iff (hle : w.core.fwOffset ≤ w.core.newFwSize) (hdata : IsFwData i) :
    w.FitsImage i ↔ w.core.fwOffset + w.acceptedLen i ≤ w.core.newFwSize := by
  cases i with
  | task => exact hdata.elim
  | txDone => exact hdata.elim
  | cmd now p =>
  have hop : opcodeOf p = hciOpcodeVsFwData := hdata
  by_cases hacc : w.FwDataAccepted (paramOf p) (paramLenOf p)
  · rw [acceptedLen_of_accepted hop hacc]
    exact ⟨fun h => h hop hacc, fun h _ _ => h⟩
  · rw [acceptedLen_of_refused hacc]
    exact iff_of_true (fun _ h => absurd h hacc) hle

/-- Each accepted `FW_DATA` ends inside the image exactly if all of them together do. -/
theorem along_fitsImage_iff {is : List Input} (hset : w.core.Settled nextFwAddr)
    (hle : w.core.fwOffset ≤ w.core.newFwSize)
    (hdata : Along step (fun _ i => IsFwData i) w is) :
    Along step FitsImage w is ↔ w.core.fwOffset + acceptedSum w is ≤ w.core.newFwSize := by
  induction is generalizing w with
  | nil => exact iff_of_true trivial hle
  | cons i is ih =>
    obtain ⟨hoffset, hsize⟩ := fwOffset_step hset hdata.1
    rw [Along, acceptedSum, fitsImage_iff hle hdata.1]
    by_cases hfits : w.core.fwOffset + w.acceptedLen i ≤ w.core.newFwSize
    · have hrest := ih (settled_step hset) (by omega) hdata.2
      rw [and_iff_right hfits, hrest]
      omega
    · exact iff_of_false (fun h => hfits h.1) (by omega)

/-- Behind an accepted `START_DFU`, the `FW_DATA` commands stay inside the declared image
and slot exactly when each accepted one ends inside the image, which is when the data lengths
of all of them add up to at most the declared size; in any case the data length of an accepted
one is its parameter length less the checksum. -/
theorem inImage_iff (nextFwAddr : ℕ) (flash : Cells) (txFifo : HciFifo) (pre is : List Input)
    (now : ℕ) (p : ℕ → UInt8) :
    let w := run step (boot nextFwAddr flash txFifo) pre
    let w₀ := w.step (.cmd now p)
    w.rebooted = false → opcodeOf p = hciOpcodeVsStartDfu → w.StartAccepted (paramOf p) →
      Along step (fun _ i => IsFwData i) w₀ is →
        (Always step (fun w => w.core.InImage w₀.hist.length) w₀ is ↔
          Along step FitsImage w₀ is) ∧
        (Along step FitsImage w₀ is ↔ acceptedSum w₀ is ≤ fwSizeOf (paramOf p)) ∧
        ∀ (w : World) (p : ℕ → UInt8), w.FwDataAccepted (paramOf p) (paramLenOf p) →
          4 ≤ paramLenOf p ∧ dataLenOf (paramLenOf p) = paramLenOf p - 4 := by
  intro w w₀ hrun hop hacc hdata
  have hset : w₀.core.Settled nextFwAddr := settled_step (settled_run flash txFifo pre)
  have hcore : w₀.core = (w.dfuStart (fwSizeOf (paramOf p))).core := step_startDfu hrun hop hacc
  have hin : w₀.core.InImage w₀.hist.length := by
    refine ⟨?_, ?_, ?_⟩
    · rw [hcore, dfuStart_core]
      exact Nat.zero_le _
    · rw [hcore, dfuStart_core]
      exact hacc.2.1
    · intro addr data hmem
      rw [core_hist, List.drop_length] at hmem
      cases hmem
  have hstep : ∀ w' i, (core w').Settled nextFwAddr ∧ w₀.hist.length ≤ w'.hist.length →
      (core w').InImage w₀.hist.length → IsFwData i →
        ((core (w'.step i)).InImage w₀.hist.length ↔ w'.FitsImage i) :=
    fun _ _ h => inImage_step h.1 h.2
  have hinv : ∀ w' i, (core w').Settled nextFwAddr ∧ w₀.hist.length ≤ w'.hist.length →
      (core w').InImage w₀.hist.length → IsFwData i →
        (core (w'.step i)).InImage w₀.hist.length →
          (core (w'.step i)).Settled nextFwAddr ∧ w₀.hist.length ≤ (w'.step i).hist.length := by
    intro w' i h _ _ _
    refine ⟨settled_step h.1, ?_⟩
    obtain ⟨l, hl, -⟩ := w'.hist_step i
    rw [hl, List.length_append]
    omega
  have hsum := along_fitsImage_iff hset hin.offset_le hdata
  rw [hcore, dfuStart_core] at hsum
  have hzero : w.reset.core.fwOffset = 0 := rfl
  rw [hzero, Nat.zero_add] at hsum
  exact ⟨always_iff_along hstep hinv hdata ⟨hset, le_rfl⟩ hin, hsum,
    fun _ _ => FwDataAccepted.dataLen_eq⟩

/-- A session for an image of `fwSize` bytes in an erased slot. -/
def opened (fwSize : ℕ) : World := bootErased.step (.cmd 1 (startDfuCmd fwSize))

/-- Ten bytes in two packets. -/
def twoPackets : List Input :=
  [.cmd 2 (fwDataCmd [1, 2, 3, 4, 5, 6]), .cmd 3 (fwDataCmd [7, 8, 9, 10])]

/-- They fit an image of ten bytes, and not one of nine. -/
theorem inImage_iff_twoPackets :
    Always step (fun w => w.core.InImage (opened 10).hist.length) (opened 10) twoPackets ∧
      ¬ Always step (fun w => w.core.InImage (opened 9).hist.length) (opened 9) twoPackets := by
  obtain ⟨hall, hsum, -⟩ := inImage_iff dfuNewFwAddrBase (fun _ => 0xFF)
    (HciFifo.empty 260 3 (by decide)) [] twoPackets 1 (startDfuCmd 10) (by decide +kernel)
    (by decide +kernel) (by decide +kernel) (by decide +kernel)
  obtain ⟨hall', hsum', -⟩ := inImage_iff dfuNewFwAddrBase (fun _ => 0xFF)
    (HciFifo.empty 260 3 (by decide)) [] twoPackets 1 (startDfuCmd 9) (by decide +kernel)
    (by decide +kernel) (by decide +kernel) (by decide +kernel)
  refine ⟨hall.mpr (hsum.mpr (by decide +kernel)), fun h => ?_⟩
  exact absurd (hsum'.mp (hall'.mp h)) (by decide +kernel)

/-- Of an image of seven bytes the second packet starts inside and ends behind it. -/
theorem inImage_overshoot :
    ¬ Always step (fun w => w.core.InImage (opened 7).hist.length) (opened 7) twoPackets := by
  intro h
  have hoff : (run step (opened 7) twoPackets).cb.fwOffset = 10 ∧
      (run step (opened 7) twoPackets).cb.newFwSize = 7 := by
    decide +kernel
  have hle := h.last.offset_le
  rw [core_fwOffset, core_newFwSize, hoff.1, hoff.2] at hle
  omega

end World
end TlBleSdk.Dfu
