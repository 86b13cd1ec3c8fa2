import TlBleSdk.Dfu.Steps

/-!
# What a command depends on

A command packet lies in a slot of the HCI RX FIFO that keeps the bytes of earlier packets
behind it. Here two runs are compared whose slots agree in the header and in the declared
parameters. `FW_DATA` looks at its length before it reads; `START_DFU` and `END_DFU` read
their parameters by position.
-/

namespace TlBleSdk.Dfu

open Hci

/-- The packet `p'` has the header and the declared parameters of `p`. -/
def SameCommand (p p' : ℕ → UInt8) : Prop := ∀ i < 4 + paramLenOf p, p i = p' i

/-- The same control block, flash and answers. -/
structure SameEffect (w w' : World) : Prop where
  cb : w.cb = w'.cb
  flash : w.flash = w'.flash
  txFifo : w.txFifo = w'.txFifo

/-- From every state the command does what its own bytes say. -/
def OwnBytesOnly (p : ℕ → UInt8) : Prop :=
  ∀ (w : World) (p' : ℕ → UInt8), SameCommand p p' →
    SameEffect (w.cmdHandler p) (w.cmdHandler p')

/-- The declared length covers the parameters that the handler reads by position. -/
def DeclaresParams (p : ℕ → UInt8) : Prop :=
  (opcodeOf p = hciOpcodeVsStartDfu → 7 ≤ paramLenOf p) ∧
    (opcodeOf p = hciOpcodeVsEndDfu → 1 ≤ paramLenOf p)

theorem SameEffect.of_eq {w w' : World} (h : w = w') : SameEffect w w' := h ▸ ⟨rfl, rfl, rfl⟩

/-! ## What the handlers read -/

section

variable {p p' : ℕ → UInt8}

theorem SameCommand.opcode_eq (h : SameCommand p p') : opcodeOf p = opcodeOf p' :=
  bytesToUint16_congr (h 1 (by omega)) (h 2 (by omega))

theorem SameCommand.paramLen_eq (h : SameCommand p p') : paramLenOf p = paramLenOf p' := by
  rw [paramLenOf, paramLenOf, h 3 (by omega)]

theorem SameCommand.param_eq (h : SameCommand p p') :
    ∀ i < paramLenOf p, paramOf p i = paramOf p' i :=
  fun i hi => h (4 + i) (by omega)

namespace World

/-- `START_DFU` reads seven bytes. -/
theorem startDfuCmdHandler_congr (h : ∀ i < 7, p i = p' i) (w : World) :
    w.startDfuCmdHandler p = w.startDfuCmdHandler p' := by
  have hver : bytesToUint16 p 1 = bytesToUint16 p' 1 :=
    bytesToUint16_congr (h 1 (by omega)) (h 2 (by omega))
  have hsize : bytesToUint32 p 3 = bytesToUint32 p' 3 := by
    rw [bytesToUint32, bytesToUint32, h 3 (by omega), h (3 + 1) (by omega),
      h (3 + 2) (by omega), h (3 + 3) (by omega)]
  unfold startDfuCmdHandler
  rw [h 0 (by omega), hver, hsize]

/-- `END_DFU` reads one byte. -/
theorem endDfuCmdHandler_congr (h : p 0 = p' 0) (w : World) :
    w.endDfuCmdHandler p = w.endDfuCmdHandler p' := by
  unfold endDfuCmdHandler
  rw [h]

/-- What the first packet is masked with lies in the data. -/
theorem maskedFlag_congr {n : ℕ} (h : ∀ i ≤ n, p i = p' i) (w : World) :
    w.maskedFlag p n = w.maskedFlag p' n := by
  unfold maskedFlag
  split
  case isTrue hmask => exact h _ hmask.2
  case isFalse => rfl

theorem maskedParam_congr {n : ℕ} (h : ∀ i < n, p i = p' i) (w : World) :
    ∀ i < n, w.maskedParam p n i = w.maskedParam p' n i := by
  intro i hi
  unfold maskedParam
  split
  case isTrue =>
    by_cases hflag : i = dfuFwFlagOffset
    · rw [hflag, Function.update_self, Function.update_self]
    · rw [Function.update_of_ne hflag, Function.update_of_ne hflag, h i hi]
  case isFalse => exact h i hi

theorem programFwData_congr {n : ℕ} (h : ∀ i ≤ n, p i = p' i) (w : World) :
    w.programFwData p n = w.programFwData p' n := by
  have hlt : ∀ i < n, p i = p' i := fun i hi => h i (Nat.le_of_lt hi)
  unfold programFwData
  simp only [crcBuf, bytes_congr (maskedParam_congr hlt w), maskedFlag_congr h, bytes_congr hlt]

/-- `FW_DATA` reads as many bytes as are declared. -/
theorem fwDataCmdHandler_congr {len : ℕ} (hlen : len < 256) (h : ∀ i < len, p i = p' i)
    (w : World) : w.fwDataCmdHandler p len = w.fwDataCmdHandler p' len := by
  unfold fwDataCmdHandler
  rw [bytes_congr h]
  dsimp only
  by_cases hdata : dfuMaxPayload < u32Sub len dfuChecksumLen
  · -- Too short a length makes a data length that is too long.
    simp only [if_pos hdata]
  · have h4 : u32Sub len dfuChecksumLen < len := by
      unfold u32Sub u32 dfuChecksumLen dfuMaxPayload at *
      omega
    have hprogram : ∀ v : World, v.programFwData p (u32Sub len dfuChecksumLen) =
        v.programFwData p' (u32Sub len dfuChecksumLen) :=
      programFwData_congr fun i hi => h i (by omega)
    simp only [hprogram]

/-- A command with all its parameters depends on them alone. -/
theorem cmdHandler_congr (hdecl : DeclaresParams p) (h : SameCommand p p') (w : World) :
    w.cmdHandler p = w.cmdHandler p' := by
  have hlen : paramLenOf p < 256 := (p 3).toNat_lt
  unfold cmdHandler
  rw [← h.opcode_eq, ← h.paramLen_eq, fwDataCmdHandler_congr hlen h.param_eq]
  by_cases hstart : opcodeOf p = hciOpcodeVsStartDfu
  · have hparam : w.startDfuCmdHandler (paramOf p) = w.startDfuCmdHandler (paramOf p') :=
      startDfuCmdHandler_congr
        (fun i hi => h.param_eq i (Nat.lt_of_lt_of_le hi (hdecl.1 hstart))) w
    simp only [if_pos hstart, hparam]
  · by_cases hend : opcodeOf p = hciOpcodeVsEndDfu
    · have hparam : w.endDfuCmdHandler (paramOf p) = w.endDfuCmdHandler (paramOf p') :=
        endDfuCmdHandler_congr (h.param_eq 0 (hdecl.2 hend)) w
      simp only [if_neg hstart, if_pos hend, hparam]
    · simp only [if_neg hstart, if_neg hend]

/-! ## What left-over bytes do -/

/-- A size that is too large ends what there was. -/
theorem startDfuCmdHandler_large {w : World} (hstatus : w.cb.status ≠ .start)
    (hsize : w.cb.maxFwSize < bytesToUint32 p 3) :
    (w.startDfuCmdHandler p).cb.newFwSize = 0 ∧ (w.startDfuCmdHandler p).cb.status = .none := by
  have hcore : (w.startDfuCmdHandler p).core = w.reset.core := by
    rw [startDfuCmdHandler, if_neg hstatus, if_pos hsize, sendCmdCmplStatusEvt_core]
  exact ⟨congrArg Core.newFwSize hcore, congrArg Core.status hcore⟩

/-- The start of a session. -/
theorem dfuStart_status (fwSize : ℕ) (w : World) : (w.dfuStart fwSize).cb.status = .start :=
  congrArg Core.status (sendCmdCmplEvt_core (w.openSession fwSize) _ _)

theorem newFwSize_sendStatus (w : World) (opcode : ℕ) (status : UInt8) :
    (w.sendCmdCmplStatusEvt opcode status).cb.newFwSize = w.cb.newFwSize :=
  congrArg Core.newFwSize (sendCmdCmplStatusEvt_core w opcode status)

/-- A size that is not too large starts a session or leaves the size as it was. -/
theorem startDfuCmdHandler_small {w : World} (hstatus : w.cb.status ≠ .start)
    (hsize : bytesToUint32 p 3 ≤ w.cb.maxFwSize) :
    (w.startDfuCmdHandler p).cb.status = .start ∨
      (w.startDfuCmdHandler p).cb.newFwSize = w.cb.newFwSize := by
  rw [startDfuCmdHandler, if_neg hstatus, if_neg (Nat.not_lt.mpr hsize)]
  split_ifs
  all_goals first
    | exact .inl (dfuStart_status _ w)
    | exact .inr (newFwSize_sendStatus w _ _)

end World

/-- A machine without a session, for images of up to `size` bytes. -/
def idleWorld (size : ℕ) : World :=
  let w := World.powerOn (fun _ => 0xFF) (HciFifo.empty 16 0 (by decide))
  { w with cb.maxFwSize := size, cb.newFwSize := 1 }

theorem idleWorld_status (size : ℕ) : (idleWorld size).cb.status ≠ .start :=
  DfuSta.noConfusion

/-- The packet with another byte at an offset. -/
theorem sameCommand_update {k : ℕ} (hk : 4 + paramLenOf p ≤ k) (x : UInt8) :
    SameCommand p (Function.update p k x) :=
  fun i hi => (Function.update_of_ne (by omega) x p).symm

theorem cmdHandler_startDfu (h : opcodeOf p = hciOpcodeVsStartDfu) (w : World) :
    w.cmdHandler p = w.startDfuCmdHandler (paramOf p) := if_pos h

/-- Where the last byte of the size is not declared, it decides whether the size is too
large. -/
theorem seven_le_of_ownBytesOnly (h : OwnBytesOnly p) (hop : opcodeOf p = hciOpcodeVsStartDfu) :
    7 ≤ paramLenOf p := by
  by_contra hlt
  have hupdate : ∀ x, SameCommand p (Function.update p 10 x) := fun x =>
    sameCommand_update (by omega) x
  have hparam : ∀ x, bytesToUint32 (paramOf (Function.update p 10 x)) 3 =
      bytesToUint32 (paramOf (Function.update p 10 0)) 3 + x.toNat * 16777216 := by
    intro x
    simp [bytesToUint32, paramOf]
  let w := idleWorld (bytesToUint32 (paramOf (Function.update p 10 0)) 3)
  have hsmall := World.startDfuCmdHandler_small (w := w) (p := paramOf (Function.update p 10 0))
    (idleWorld_status _) (Nat.le_refl _)
  have hlarge := World.startDfuCmdHandler_large (w := w)
    (p := paramOf (Function.update p 10 0xFF)) (idleWorld_status _) (by
      rw [hparam]
      exact Nat.lt_add_of_pos_right (by decide))
  -- The same command twice, of which one starts a session and one is refused.
  have hcb : ((w.cmdHandler (Function.update p 10 0)).cb) =
      (w.cmdHandler (Function.update p 10 0xFF)).cb :=
    (h w _ (hupdate 0)).cb.symm.trans (h w _ (hupdate 0xFF)).cb
  rw [cmdHandler_startDfu ((hupdate 0).opcode_eq.symm.trans hop),
    cmdHandler_startDfu ((hupdate 0xFF).opcode_eq.symm.trans hop)] at hcb
  rw [hcb, hlarge.1, hlarge.2] at hsmall
  exact hsmall.elim DfuSta.noConfusion fun h01 => Nat.zero_ne_one h01

/-- An undeclared mode decides whether the session is over. -/
theorem one_le_of_ownBytesOnly (h : OwnBytesOnly p) (hop : opcodeOf p = hciOpcodeVsEndDfu) :
    1 ≤ paramLenOf p := by
  by_contra hlt
  have hupdate : ∀ x, SameCommand p (Function.update p 4 x) := fun x =>
    sameCommand_update (by omega) x
  have hne : hciOpcodeVsEndDfu ≠ hciOpcodeVsStartDfu ∧ hciOpcodeVsEndDfu ≠ hciOpcodeVsFwData := by
    decide
  have hhandler : ∀ x, (idleWorld 0).cmdHandler (Function.update p 4 x) =
      (idleWorld 0).endDfuCmdHandler (paramOf (Function.update p 4 x)) := by
    intro x
    have hop' := (hupdate x).opcode_eq.symm.trans hop
    rw [World.cmdHandler, hop', if_neg hne.1, if_neg hne.2, if_pos rfl]
  have hmode : ∀ x, paramOf (Function.update p 4 x) 0 = x := fun x => by simp [paramOf]
  -- Mode 1 terminates the session, mode 2 is refused.
  have hcb : ((idleWorld 0).cmdHandler (Function.update p 4 1)).cb =
      ((idleWorld 0).cmdHandler (Function.update p 4 2)).cb :=
    (h _ _ (hupdate 1)).cb.symm.trans (h _ _ (hupdate 2)).cb
  rw [hhandler, hhandler, World.endDfuCmdHandler, World.endDfuCmdHandler, hmode, hmode] at hcb
  exact absurd (congrArg DfuCb.status hcb) (by decide)

/-- A command does what its own bytes say exactly if it declares the parameters that its
handler reads by position. -/
theorem ownBytesOnly_iff (p : ℕ → UInt8) : OwnBytesOnly p ↔ DeclaresParams p :=
  ⟨fun h => ⟨seven_le_of_ownBytesOnly h, one_le_of_ownBytesOnly h⟩,
    fun hdecl w _ h => .of_eq (World.cmdHandler_congr hdecl h w)⟩

/-- An `END_DFU` without parameters ends a session by a byte that an earlier packet left. -/
theorem not_ownBytesOnly_endDfu : ¬ ∀ p, OwnBytesOnly p := by
  intro h
  have := one_le_of_ownBytesOnly (h (mem [0x01, 0x01, 0xFF, 0x00, 0x01])) (by decide)
  exact absurd this (by decide)

end
end TlBleSdk.Dfu
