import TlBleSdk.Dfu.Update

/-!
# Damaged updates

A packet carries the CRC of its data and an image its own. Damage within 32 consecutive bits never
goes unnoticed: a packet that was in order before it is refused and leaves the session as it is, and
an image that would have been in order is not booted.
-/

namespace TlBleSdk.Dfu

open Hci NorFlash Machine

/-- The packet `p'` is `p` with a burst of damaged bits in its parameters. -/
structure Damaged (p p' : ℕ → UInt8) : Prop where
  opcode : opcodeOf p' = opcodeOf p
  len : paramLenOf p' = paramLenOf p
  burst : Crc.IsBurst 32 (List.zipWith (· ^^^ ·) (bytes (paramOf p) (paramLenOf p))
    (bytes (paramOf p') (paramLenOf p')))

/-- Of two messages that differ by a burst, only one has the CRC 0. -/
theorem crc32Calc_ne_of_isBurst {l l' : List UInt8} (hlen : l.length = l'.length)
    (hburst : Crc.IsBurst 32 (List.zipWith (· ^^^ ·) l l')) (h : crc32Calc dfuCrcInitValue l = 0) :
    crc32Calc dfuCrcInitValue l' ≠ 0 := by
  intro h'
  have hpoly : (0xEDB88320#32).msb = true := by decide
  have hne := Crc.crc_ne_of_isBurst hpoly (by decide) dfuCrcInitValue.toBitVec hlen hburst
  rw [← crc32Calc_eq, ← crc32Calc_eq, h, h'] at hne
  exact hne rfl

namespace World

variable {w : World} {now : ℕ} {p p' : ℕ → UInt8}

/-- A damaged packet leaves the session alone. -/
theorem damaged_core (hop : opcodeOf p = hciOpcodeVsFwData)
    (hcrc : crc32Calc dfuCrcInitValue (bytes (paramOf p) (paramLenOf p)) = 0)
    (h : Damaged p p') (now : ℕ) : (w.step (.cmd now p')).core = w.core := by
  have hop' : opcodeOf p' = hciOpcodeVsFwData := h.opcode.trans hop
  have hlen : (bytes (paramOf p) (paramLenOf p)).length =
      (bytes (paramOf p') (paramLenOf p')).length := by
    rw [length_bytes, length_bytes, h.len]
  have hcrc' := crc32Calc_ne_of_isBurst hlen h.burst hcrc
  have hout := outcome_step w (.cmd now p')
  generalize (w.step (.cmd now p')).core = c at hout
  cases hout with
  | idle => rfl
  | fwData _ _ _ hacc => exact absurd hacc.2.2.2.1 hcrc'
  | refuseSize _ _ hstart => exact absurd (hop'.symm.trans hstart) (by decide)
  | start _ _ hstart => exact absurd (hop'.symm.trans hstart) (by decide)
  | switch _ _ hend => exact absurd (hop'.symm.trans hend) (by decide)
  | term _ _ hend =>
    rcases hend with hend | hend
    · exact absurd (hop'.symm.trans hend.1) (by decide)
    · exact absurd (hop'.symm.trans hend.1) (by decide)

/-- An `END_DFU` that does not switch leaves flash and history alone. -/
theorem endDfu_keeps (hop : opcodeOf p = hciOpcodeVsEndDfu) (hsw : ¬ w.EndSwitches (paramOf p))
    (now : ℕ) : (w.step (.cmd now p)).flash = w.flash ∧ (w.step (.cmd now p)).hist = w.hist := by
  have hout := outcome_step w (.cmd now p)
  have hcore : (w.step (.cmd now p)).core.flash = w.core.flash ∧
      (w.step (.cmd now p)).core.hist = w.core.hist := by
    generalize (w.step (.cmd now p)).core = c at hout
    cases hout with
    | idle => exact ⟨rfl, rfl⟩
    | term => exact ⟨rfl, rfl⟩
    | switch _ _ _ h => exact absurd h hsw
    | fwData _ _ hdata => exact absurd (hop.symm.trans hdata) (by decide)
    | refuseSize _ _ hstart => exact absurd (hop.symm.trans hstart) (by decide)
    | start _ _ hstart => exact absurd (hop.symm.trans hstart) (by decide)
  exact hcore

/-- In every run a packet that a burst damages is refused and leaves the session as it is. And
where the bytes of the session differ by a burst from an image that ends with its CRC, no
`END_DFU` switches the boot flags or writes to the flash. -/
theorem bursts_refused (nextFwAddr : ℕ) (flash : Cells) (txFifo : HciFifo) (is : List Input)
    (hok : Along step FaithfulWrite (boot nextFwAddr flash txFifo) is) :
    let w := run step (boot nextFwAddr flash txFifo) is
    (∀ (now : ℕ) (p p' : ℕ → UInt8), opcodeOf p = hciOpcodeVsFwData →
      crc32Calc dfuCrcInitValue (bytes (paramOf p) (paramLenOf p)) = 0 → Damaged p p' →
        (w.step (.cmd now p')).core = w.core) ∧
    ∀ (s : Session) (img : List UInt8), sessionOf w.hist = some s → img.length = s.data.length →
      crc32Calc dfuCrcInitValue img = 0 →
        Crc.IsBurst 32 (List.zipWith (· ^^^ ·) img s.data) →
          ∀ (now : ℕ) (p : ℕ → UInt8), opcodeOf p = hciOpcodeVsEndDfu →
            (w.step (.cmd now p)).flash = w.flash ∧ (w.step (.cmd now p)).hist = w.hist := by
  intro w
  have h : SessionInv w.core := sessionInv_run hok
  refine ⟨fun now p p' hop hcrc hdam => damaged_core hop hcrc hdam now, ?_⟩
  intro s img hs hlen hcrc hburst now p hop
  apply endDfu_keeps hop
  rintro ⟨-, -, hcur⟩
  have hdata : crc32Calc dfuCrcInitValue s.data = 0 := (h.opened s hs).2.2.symm.trans hcur
  exact crc32Calc_ne_of_isBurst hlen hburst hcrc hdata

/-- A session for the sample image, with its last byte wrong. -/
def wrongUpdate : List Input :=
  [.cmd 1 (startDfuCmd 37), .cmd 2 (fwDataCmd (sampleImage.set 36 0))]

/-- A packet with a damaged byte of data. -/
def damagedCmd : ℕ → UInt8 := cmdPacket hciOpcodeVsFwData ((fwDataParam [2]).set 0 7)

theorem damaged_damagedCmd : Damaged (fwDataCmd [2]) damagedCmd where
  opcode := by decide
  len := by decide +kernel
  burst := by
    have hbytes : List.zipWith (· ^^^ ·)
        (bytes (paramOf (fwDataCmd [2])) (paramLenOf (fwDataCmd [2])))
        (bytes (paramOf damagedCmd) (paramLenOf damagedCmd)) =
          List.replicate 0 0 ++ [5] ++ List.replicate 4 0 := by
      decide +kernel
    rw [hbytes]
    exact Crc.isBurst_of_bytes 0 4 (by decide) (by decide)

theorem bursts_refused_wrongUpdate :
    let w := run step bootErased wrongUpdate
    (w.step (.cmd 3 damagedCmd)).core = w.core ∧
      (w.step (.cmd 4 (endDfuCmd dfuEndModeFwUpd))).flash = w.flash ∧
      (w.step (.cmd 4 (endDfuCmd dfuEndModeFwUpd))).hist = w.hist := by
  have h := bursts_refused dfuNewFwAddrBase (fun _ => 0xFF) (HciFifo.empty 260 3 (by decide))
    wrongUpdate (by decide +kernel)
  have hsession : sessionOf (run step bootErased wrongUpdate).hist =
      some ⟨37, sampleImage.set 36 0⟩ := by
    decide +kernel
  have hbytes : List.zipWith (· ^^^ ·) sampleImage (sampleImage.set 36 0) =
      List.replicate 36 0 ++ [193] ++ List.replicate 0 0 := by
    decide +kernel
  refine ⟨h.1 3 (fwDataCmd [2]) damagedCmd (by decide) (by decide +kernel) damaged_damagedCmd,
    h.2 _ sampleImage hsession (by decide) (by decide +kernel) ?_ 4 _ (by decide)⟩
  rw [hbytes]
  exact Crc.isBurst_of_bytes 36 0 (by decide) (by decide)

end World

end TlBleSdk.Dfu
