import TlBleSdk.Drivers.CanMailbox

/-!
# The legacy receive FIFO of CAN

`can_set_legacy_rxfifo_cfg` and `can_set_rx_mailbox_cfg` of `can.c`. The FIFO is mailbox 0 to 5, and
its table of id filters is in the mailboxes behind them, four filters in each. The register field
`RFFN` says how far the table goes, and `can_is_mb_occupied` reads it back.
-/

namespace TlBleSdk.Drivers

open BitFields

/-- `FLD_CAN_MAXMB`, in `mcr0`. -/
def fldCanMaxmb : BitVec 8 := 0x7f

/-- `FLD_CAN_IDAM`, in `mcr1`. -/
def fldCanIdam : BitVec 8 := 0x03

/-- `FLD_CAN_RFEN`, in `mcr3`. -/
def fldCanRfen : BitVec 8 := 0x20

/-- `FLD_CAN_RRS`, in `ctrl2_2`. -/
def fldCanRrs : BitVec 8 := 0x02

/-- `FLD_CAN_MRP`, in `ctrl2_2`. -/
def fldCanMrp : BitVec 8 := 0x04

/-- `FLD_CAN_RFFN`, in `ctrl2_3`. -/
def fldCanRffn : BitVec 8 := 0x0f

/-- The registers that the two functions use, and the memory of the mailboxes. -/
structure CanRegs where
  mcr0 : BitVec 8
  mcr1 : BitVec 8
  mcr3 : BitVec 8
  ctrl22 : BitVec 8
  ctrl23 : BitVec 8
  mb : CanMem

/-- What `can_is_mb_occupied` reads of the registers. -/
def CanRegs.rxFifo (regs : CanRegs) : CanRxFifo where
  rfen := decide (0 ≠ regs.mcr3 &&& fldCanRfen)
  rffn := (regs.ctrl23 &&& fldCanRffn).setWidth 4

/-! ## Receive mailboxes -/

/-- `CAN_RX_MB_EMPTY`. -/
def canRxMbEmpty : BitVec 32 := 0x4

/-- `CAN_RX_MB_RANSWER`. -/
def canRxMbRanswer : BitVec 32 := 0xa

/-- `can_frame_format_t`. -/
inductive CanFrameFormat where
  | standard
  | extend
deriving DecidableEq

/-- `can_frame_type_t`. -/
inductive CanFrameType where
  | data
  | remote
deriving DecidableEq

/-- `can_remote_received_type_e`. -/
inductive CanRemoteReceivedType where
  | noStoring
  | storing
  | none
deriving DecidableEq

/-- `can_rx_mb_config_t`. -/
structure CanRxMbConfig where
  id : BitVec 32
  format : CanFrameFormat
  type : CanFrameType
  remoteType : CanRemoteReceivedType

/-- The part of `can_set_rx_mailbox_cfg` with `enable`. -/
def canEnableRxMailbox (regs : CanRegs) (mbIndex : ℕ) (cfg : CanRxMbConfig) : CanRegs :=
  let mb := Function.update regs.mb (4 * mbIndex + 1) cfg.id
  let cs : BitVec 32 := if cfg.format = .extend then canCsIdeMask else 0
  match cfg.type, cfg.remoteType with
  | .remote, .storing =>
    { regs with
      ctrl22 := regs.ctrl22 ||| fldCanRrs
      mb := Function.update mb (4 * mbIndex) (cs ||| canRxMbEmpty <<< 24) }
  | .remote, .noStoring =>
    -- the mailbox answers by itself
    { regs with
      ctrl22 := regs.ctrl22 &&& ~~~fldCanRrs
      mb := Function.update mb (4 * mbIndex) (cs ||| canRxMbRanswer <<< 24) }
  | _, _ => { regs with mb := Function.update mb (4 * mbIndex) (cs ||| canRxMbEmpty <<< 24) }

/-- The words of a mailbox are set to zero. -/
def canClearMb (mb : CanMem) (mbIndex : ℕ) : CanMem :=
  let mb := Function.update mb (4 * mbIndex) 0
  let mb := Function.update mb (4 * mbIndex + 1) 0
  let mb := Function.update mb (4 * mbIndex + 2) 0
  Function.update mb (4 * mbIndex + 3) 0

/-- `can_set_rx_mailbox_cfg`: what it returns, and the registers. It is `none` without `enable`,
where `rx_mb_cfg` is not read. -/
def canSetRxMailboxCfg (regs : CanRegs) (mbIndex : ℕ) (enable : Option CanRxMbConfig) :
    ℕ × CanRegs :=
  if canIsMbOccupied regs.rxFifo mbIndex then (1, regs)
  else
    let regs := { regs with mb := canClearMb regs.mb mbIndex }
    match enable with
    | some cfg => (0, canEnableRxMailbox regs mbIndex cfg)
    | none => (0, regs)

/-! ## The FIFO -/

/-- `can_rx_fifo_filter_type_t`. -/
inductive CanRxFifoFilterType where
  | a
  | b
  | c
  | d

/-- The value that is set to `FLD_CAN_IDAM`. -/
def CanRxFifoFilterType.idam : CanRxFifoFilterType → BitVec 8
  | a => 0x00
  | b => 0x01
  | c => 0x02
  | d => 0x03

/-- `can_rx_fifo_priority_t`. -/
inductive CanRxFifoPriority where
  | low
  | high
deriving DecidableEq

/-- `can_rx_fifo_config_t`. -/
structure CanRxFifoConfig where
  idFilterTable : ℕ → BitVec 32
  idFilterNum : BitVec 8
  idFilterType : CanRxFifoFilterType
  priority : CanRxFifoPriority

/-- The word that is stored for the filter `j`. -/
def CanRxFifoConfig.word (cfg : CanRxFifoConfig) (j : ℕ) : BitVec 32 :=
  if j < cfg.idFilterNum.toNat then cfg.idFilterTable j else 0xffffffff

/-- The `rffn` at which the loop breaks, if it does. -/
def canFindRffn (cfg : CanRxFifoConfig) : Option ℕ :=
  (List.range 16).find? fun i => decide (8 * (i + 1) ≥ cfg.idFilterNum.toNat)

/-- The table of id filters is copied to the mailboxes from 6 on. The counter `j` is at most 128 and
stays in its byte. -/
def canCopyFilters (cfg : CanRxFifoConfig) (nummbOccupy : ℕ) (mb : CanMem) : CanMem :=
  ((List.range (nummbOccupy - 6)).foldl (fun s i =>
    (List.range 4).foldl (fun (mb, j) k =>
      (Function.update mb (4 * (6 + i) + k) (cfg.word j), j + 1)) s) (mb, 0)).1

/-- What `can_set_legacy_rxfifo_cfg` does with `enable` behind the loop. -/
def canEnableRxfifo (regs : CanRegs) (cfg : CanRxFifoConfig) (rffn : ℕ) : CanRegs :=
  { regs with
    mb := canCopyFilters cfg (6 + (rffn + 1) * 2) regs.mb
    mcr1 := (regs.mcr1 &&& ~~~fldCanIdam) ||| cfg.idFilterType.idam
    ctrl22 := if cfg.priority = .high then regs.ctrl22 &&& ~~~fldCanMrp
      else regs.ctrl22 ||| fldCanMrp
    mcr3 := regs.mcr3 ||| fldCanRfen }

/-- `setup_mb`: all bits of `FLD_CAN_MAXMB` are set in it. -/
def canSetupMb (regs : CanRegs) : BitVec 8 := regs.mcr0 ||| fldCanMaxmb

/-- `can_set_legacy_rxfifo_cfg`: what it returns, and the registers. It is `none` without
`enable`. -/
def canSetLegacyRxfifoCfg (regs : CanRegs) (enable : Option CanRxFifoConfig) : ℕ × CanRegs :=
  match enable with
  | some cfg =>
    match canFindRffn cfg with
    | some rffn =>
      if ((canSetupMb regs).toNat : ℤ) - 8 - 2 * rffn < 0 then (0, regs)
      else
        let ctrl23 := (regs.ctrl23 &&& ~~~fldCanRffn) ||| BitVec.ofNat 8 rffn
        (1, canEnableRxfifo { regs with ctrl23 := ctrl23 } cfg rffn)
    -- the loop found no `rffn`: it is still 0, and the field is not written
    | none => (1, canEnableRxfifo regs cfg 0)
  | none =>
    let rffn := (regs.ctrl23 &&& fldCanRffn).toNat
    let nummbOccupy := 6 + (rffn + 1) * 2
    -- the mailboxes are not occupied any more when they are cleared
    let regs := { regs with mcr3 := regs.mcr3 &&& ~~~fldCanRfen }
    (1, (List.range nummbOccupy).foldl (fun regs i => (canSetRxMailboxCfg regs i none).2) regs)

/-! ## What is asked of the FIFO -/

/-- `MAXMB`, the last mailbox that is there. -/
def CanRegs.maxmb (regs : CanRegs) : ℕ := (get regs.mcr0 0 7).toNat

/-- The FIFO is set up by `regs'`, with all filters and within the mailboxes that are there. -/
structure CanRxfifoEnabled (cfg : CanRxFifoConfig) (regs regs' : CanRegs) : Prop where
  fits : cfg.idFilterNum.toNat ≤ 8 * (regs'.rxFifo.rffn.toNat + 1)
  stored : ∀ j < cfg.idFilterNum.toNat, regs'.mb (4 * 6 + j) = cfg.idFilterTable j
  unused : ∀ j, cfg.idFilterNum.toNat ≤ j → j < 8 * (regs'.rxFifo.rffn.toNat + 1) →
    regs'.mb (4 * 6 + j) = 0xffffffff
  others : ∀ i, i < 6 ∨ 6 + 2 * (regs'.rxFifo.rffn.toNat + 1) ≤ i →
    ∀ k < 4, regs'.mb (4 * i + k) = regs.mb (4 * i + k)
  le_maxmb : ∀ i, 6 ≤ i → i ≤ 6 + 2 * (regs'.rxFifo.rffn.toNat + 1) - 1 → i ≤ regs'.maxmb
  occupied_iff : ∀ i, canIsMbOccupied regs'.rxFifo i ↔
    i ≤ 5 ∨ 6 ≤ i ∧ i ≤ 6 + 2 * (regs'.rxFifo.rffn.toNat + 1) - 1

/-- The mailboxes that were occupied are cleared in `regs'`, and no others. -/
structure CanRxfifoDisabled (regs regs' : CanRegs) : Prop where
  cleared : ∀ i, canIsMbOccupied regs.rxFifo i → ∀ k < 4, regs'.mb (4 * i + k) = 0
  others : ∀ i, ¬ canIsMbOccupied regs.rxFifo i → ∀ k < 4,
    regs'.mb (4 * i + k) = regs.mb (4 * i + k)

/-- The FIFO is set up when 1 is returned, and nothing changed when 0 is. Without `enable` it is
disabled. -/
def CanRxfifoSet (regs : CanRegs) (enable : Option CanRxFifoConfig) : Prop :=
  let r := canSetLegacyRxfifoCfg regs enable
  match enable with
  | some cfg => (r.1 = 1 → CanRxfifoEnabled cfg regs r.2) ∧ (r.1 = 0 → r.2 = regs)
  | none => CanRxfifoDisabled regs r.2

/-- There are at most 128 filters and their mailboxes are there. Without `enable`, the FIFO was
enabled or there is nothing in its mailboxes. -/
def CanRxfifoFits (regs : CanRegs) (enable : Option CanRxFifoConfig) : Prop :=
  match enable with
  | some cfg => cfg.idFilterNum.toNat ≤ 128 ∧ 7 + 2 * ((cfg.idFilterNum.toNat - 1) / 8) ≤ regs.maxmb
  | none => regs.rxFifo.rfen ∨
    ∀ i < 6 + 2 * (regs.rxFifo.rffn.toNat + 1), ∀ k < 4, regs.mb (4 * i + k) = 0

/-! ## Clearing mailboxes -/

theorem canClearMb_apply (mb : CanMem) {i j k : ℕ} (hk : k < 4) :
    canClearMb mb i (4 * j + k) = if j = i then 0 else mb (4 * j + k) := by
  simp only [canClearMb, Function.update_apply]
  by_cases h : j = i
  · subst h
    have hword : k = 0 ∨ k = 1 ∨ k = 2 ∨ k = 3 := by omega
    obtain rfl | rfl | rfl | rfl := hword <;> simp
  · have hword : ∀ c < 4, 4 * j + k ≠ 4 * i + c := by omega
    have hfirst : 4 * j + k ≠ 4 * i := hword 0 (by decide)
    rw [if_neg (hword 3 (by decide)), if_neg (hword 2 (by decide)), if_neg (hword 1 (by decide)),
      if_neg hfirst, if_neg h]

/-- A mailbox is cleared when the FIFO is disabled. -/
theorem canSetRxMailboxCfg_none {regs : CanRegs} (h : regs.rxFifo.rfen = false) (i : ℕ) :
    (canSetRxMailboxCfg regs i none).2 = { regs with mb := canClearMb regs.mb i } := by
  have hfree : canIsMbOccupied regs.rxFifo i = false := by
    rw [canIsMbOccupied, h, Bool.false_and]
  simp [canSetRxMailboxCfg, hfree]

/-- The loop clears the mailboxes one by one. The registers stay, so it is never refused. -/
theorem foldl_canSetRxMailboxCfg {regs : CanRegs} (h : regs.rxFifo.rfen = false) (n : ℕ) :
    (List.range n).foldl (fun regs i => (canSetRxMailboxCfg regs i none).2) regs =
      { regs with mb := (List.range n).foldl canClearMb regs.mb } := by
  induction n with
  | zero => rfl
  | succ n ih =>
    rw [List.range_succ, List.foldl_append, List.foldl_append, ih]
    have hclear : ({ regs with mb := (List.range n).foldl canClearMb regs.mb } :
        CanRegs).rxFifo.rfen = false := h
    exact canSetRxMailboxCfg_none hclear n

theorem foldl_canClearMb_apply (mb : CanMem) (n : ℕ) {i k : ℕ} (hk : k < 4) :
    (List.range n).foldl canClearMb mb (4 * i + k) = if i < n then 0 else mb (4 * i + k) := by
  induction n with
  | zero => simp
  | succ n ih =>
    rw [List.range_succ, List.foldl_append, List.foldl_cons, List.foldl_nil, canClearMb_apply _ hk,
      ih]
    grind

/-! ## The registers of the FIFO -/

theorem rffn_toNat (regs : CanRegs) :
    regs.rxFifo.rffn.toNat = (regs.ctrl23 &&& fldCanRffn).toNat := by
  have hlt : (regs.ctrl23 &&& fldCanRffn).toNat < 2 ^ 4 :=
    Nat.and_lt_two_pow _ (by decide)
  rw [CanRegs.rxFifo, BitVec.toNat_setWidth, Nat.mod_eq_of_lt hlt]

theorem rfen_clear (mcr3 : BitVec 8) : mcr3 &&& ~~~fldCanRfen &&& fldCanRfen = 0 := by
  decide +revert

theorem rfen_set (mcr3 : BitVec 8) : 0 ≠ (mcr3 ||| fldCanRfen) &&& fldCanRfen := by
  decide +revert

/-- The field that is written is read back. -/
theorem rffn_write (ctrl23 : BitVec 8) {rffn : ℕ} (h : rffn < 16) :
    (((ctrl23 &&& ~~~fldCanRffn) ||| BitVec.ofNat 8 rffn) &&& fldCanRffn).toNat = rffn := by
  have hfield : ((ctrl23 &&& ~~~fldCanRffn) ||| BitVec.ofNat 8 rffn) &&& fldCanRffn =
      BitVec.ofNat 8 rffn &&& fldCanRffn := by
    ext i hi
    simp only [BitVec.getElem_and, BitVec.getElem_or, BitVec.getElem_not]
    cases fldCanRffn[i] <;> simp
  have hmask : (BitVec.ofNat 8 rffn).toNat &&& 2 ^ 4 - 1 = rffn := by
    rw [Nat.and_two_pow_sub_one_eq_mod, BitVec.toNat_ofNat]
    omega
  rw [hfield, BitVec.toNat_and]
  exact hmask

/-- The mailboxes that an enabled FIFO occupies. -/
theorem canIsMbOccupied_iff (fifo : CanRxFifo) (i : ℕ) :
    canIsMbOccupied fifo i ↔ fifo.rfen ∧ i < 6 + 2 * (fifo.rffn.toNat + 1) := by
  rw [canIsMbOccupied, Bool.and_eq_true, decide_eq_true_eq]
  refine and_congr_right fun _ => ?_
  omega

/-! ## The filters -/

/-- The `rffn` that the loop finds. -/
theorem canFindRffn_eq {cfg : CanRxFifoConfig} (h : cfg.idFilterNum.toNat ≤ 128) :
    canFindRffn cfg = some ((cfg.idFilterNum.toNat - 1) / 8) := by
  rw [canFindRffn, List.find?_range_eq_some]
  refine ⟨?_, List.mem_range.2 (by omega), fun i hi => ?_⟩
  · rw [decide_eq_true_eq]
    omega
  · rw [Bool.not_eq_true', decide_eq_false_iff_not]
    omega

/-- More filters than the 16 steps of the field hold. -/
theorem canFindRffn_eq_none {cfg : CanRxFifoConfig} (h : 128 < cfg.idFilterNum.toNat) :
    canFindRffn cfg = none := by
  rw [canFindRffn, List.find?_eq_none]
  intro i hi
  rw [List.mem_range] at hi
  rw [decide_eq_true_eq]
  omega

/-- With all bits of the field set, there is room for every `rffn`. -/
theorem canSetupMb_room (regs : CanRegs) {rffn : ℕ} (h : rffn < 16) :
    ¬ ((canSetupMb regs).toNat : ℤ) - 8 - 2 * rffn < 0 := by
  have hbits : 127 ≤ (canSetupMb regs).toNat := by
    rw [canSetupMb, BitVec.toNat_or]
    exact Nat.right_le_or
  omega

theorem canCopyFilters_eq (cfg : CanRxFifoConfig) (n : ℕ) (mb : CanMem) :
    canCopyFilters cfg (6 + n) mb = (List.range (4 * n)).foldl
      (fun mb j => Function.update mb (4 * 6 + j) (cfg.word j)) mb := by
  have hcell : ∀ i k, 4 * (6 + i) + k = 4 * 6 + (4 * i + k) := by omega
  rw [canCopyFilters, Nat.add_sub_cancel_left]
  simp only [hcell]
  rw [Copies.foldl_foldl_counter 4 (fun j => 4 * 6 + j)]

theorem canCopyFilters_table (cfg : CanRxFifoConfig) (mb : CanMem) {n j : ℕ} (hj : j < 4 * n) :
    canCopyFilters cfg (6 + n) mb (4 * 6 + j) = cfg.word j := by
  rw [canCopyFilters_eq]
  exact Copies.foldl_update_apply (fun i _ k _ heq => Nat.add_left_cancel heq) hj mb

theorem canCopyFilters_others (cfg : CanRxFifoConfig) (mb : CanMem) {n i k : ℕ} (hk : k < 4)
    (hi : i < 6 ∨ 6 + n ≤ i) : canCopyFilters cfg (6 + n) mb (4 * i + k) = mb (4 * i + k) := by
  rw [canCopyFilters_eq]
  refine Copies.foldl_update_of_ne (fun j hj => ?_) mb
  omega

/-! ## With `enable` -/

/-- The registers behind a set-up whose loop has found `rffn`. -/
def canRegsSet (regs : CanRegs) (cfg : CanRxFifoConfig) (rffn : ℕ) : CanRegs :=
  canEnableRxfifo
    { regs with ctrl23 := (regs.ctrl23 &&& ~~~fldCanRffn) ||| BitVec.ofNat 8 rffn } cfg rffn

/-- Up to 128 filters are taken, whatever `MAXMB` is. -/
theorem canSetLegacyRxfifoCfg_of_le {regs : CanRegs} {cfg : CanRxFifoConfig}
    (h : cfg.idFilterNum.toNat ≤ 128) :
    canSetLegacyRxfifoCfg regs (some cfg) =
      (1, canRegsSet regs cfg ((cfg.idFilterNum.toNat - 1) / 8)) := by
  have hlt : (cfg.idFilterNum.toNat - 1) / 8 < 16 := by omega
  simp only [canSetLegacyRxfifoCfg, canFindRffn_eq h, if_neg (canSetupMb_room regs hlt),
    canRegsSet]

/-- More than 128 are taken too, and the field stays. -/
theorem canSetLegacyRxfifoCfg_of_lt {regs : CanRegs} {cfg : CanRxFifoConfig}
    (h : 128 < cfg.idFilterNum.toNat) :
    canSetLegacyRxfifoCfg regs (some cfg) = (1, canEnableRxfifo regs cfg 0) := by
  simp only [canSetLegacyRxfifoCfg, canFindRffn_eq_none h]

theorem canRegsSet_rffn (regs : CanRegs) (cfg : CanRxFifoConfig) {rffn : ℕ} (h : rffn < 16) :
    (canRegsSet regs cfg rffn).rxFifo.rffn.toNat = rffn := by
  rw [rffn_toNat]
  exact rffn_write regs.ctrl23 h

theorem canRegsSet_rfen (regs : CanRegs) (cfg : CanRxFifoConfig) (rffn : ℕ) :
    (canRegsSet regs cfg rffn).rxFifo.rfen = true :=
  decide_eq_true (rfen_set regs.mcr3)

theorem canRegsSet_mb (regs : CanRegs) (cfg : CanRxFifoConfig) (rffn : ℕ) :
    (canRegsSet regs cfg rffn).mb = canCopyFilters cfg (6 + (rffn + 1) * 2) regs.mb := rfl

/-- The set-up is as asked if the mailboxes are there. -/
theorem canRegsSet_enabled {regs : CanRegs} {cfg : CanRxFifoConfig}
    (hnum : cfg.idFilterNum.toNat ≤ 128)
    (hmaxmb : 7 + 2 * ((cfg.idFilterNum.toNat - 1) / 8) ≤ regs.maxmb) :
    CanRxfifoEnabled cfg regs (canRegsSet regs cfg ((cfg.idFilterNum.toNat - 1) / 8)) := by
  have hlt : (cfg.idFilterNum.toNat - 1) / 8 < 16 := by omega
  have hrffn := canRegsSet_rffn regs cfg hlt
  constructor
  case fits =>
    rw [hrffn]
    omega
  case stored =>
    intro j hj
    rw [canRegsSet_mb, canCopyFilters_table cfg _ (by omega), CanRxFifoConfig.word, if_pos hj]
  case unused =>
    intro j hnum hj
    rw [hrffn] at hj
    rw [canRegsSet_mb, canCopyFilters_table cfg _ (by omega), CanRxFifoConfig.word,
      if_neg (Nat.not_lt_of_le hnum)]
  case others =>
    intro i hi k hk
    rw [hrffn] at hi
    exact canCopyFilters_others cfg regs.mb hk (by omega)
  case le_maxmb =>
    intro i _ hi
    rw [hrffn] at hi
    -- `MAXMB` is not written
    show i ≤ regs.maxmb
    omega
  case occupied_iff =>
    intro i
    rw [canIsMbOccupied_iff, canRegsSet_rfen]
    simp only [true_and]
    omega

theorem canRxfifoSet_some_iff (regs : CanRegs) (cfg : CanRxFifoConfig) :
    CanRxfifoSet regs (some cfg) ↔ CanRxfifoFits regs (some cfg) := by
  constructor
  · intro ⟨hset, _⟩
    by_cases hnum : cfg.idFilterNum.toNat ≤ 128
    · rw [canSetLegacyRxfifoCfg_of_le hnum] at hset
      have hlt : (cfg.idFilterNum.toNat - 1) / 8 < 16 := by omega
      have hrffn := canRegsSet_rffn regs cfg hlt
      -- the last mailbox of the table
      have hlast : 7 + 2 * ((cfg.idFilterNum.toNat - 1) / 8) ≤ regs.maxmb :=
        (hset rfl).le_maxmb _ (by omega) (by rw [hrffn]; omega)
      exact ⟨hnum, hlast⟩
    · have hlt : 128 < cfg.idFilterNum.toNat := Nat.lt_of_not_le hnum
      rw [canSetLegacyRxfifoCfg_of_lt hlt] at hset
      -- the field has four bits
      have hfits := (hset rfl).fits
      have hfield := (canEnableRxfifo regs cfg 0).rxFifo.rffn.isLt
      omega
  · intro ⟨hnum, hmaxmb⟩
    rw [CanRxfifoSet, canSetLegacyRxfifoCfg_of_le hnum]
    exact ⟨fun _ => canRegsSet_enabled hnum hmaxmb, fun h => absurd h Nat.one_ne_zero⟩

/-! ## Without `enable` -/

theorem canSetLegacyRxfifoCfg_none (regs : CanRegs) :
    (canSetLegacyRxfifoCfg regs none).2 =
      { regs with
        mcr3 := regs.mcr3 &&& ~~~fldCanRfen
        mb := (List.range (6 + (regs.rxFifo.rffn.toNat + 1) * 2)).foldl canClearMb regs.mb } := by
  have hclear : ({ regs with mcr3 := regs.mcr3 &&& ~~~fldCanRfen } : CanRegs).rxFifo.rfen =
      false := by
    rw [CanRegs.rxFifo, decide_eq_false_iff_not, rfen_clear]
    exact fun hne => hne rfl
  rw [rffn_toNat]
  exact foldl_canSetRxMailboxCfg hclear _

theorem canRxfifoSet_none_iff (regs : CanRegs) :
    CanRxfifoSet regs none ↔ CanRxfifoFits regs none := by
  have hmb : ∀ i k, k < 4 → (canSetLegacyRxfifoCfg regs none).2.mb (4 * i + k) =
      if i < 6 + 2 * (regs.rxFifo.rffn.toNat + 1) then 0 else regs.mb (4 * i + k) := by
    intro i k hk
    rw [canSetLegacyRxfifoCfg_none, Nat.mul_comm 2]
    exact foldl_canClearMb_apply regs.mb _ hk
  constructor
  · intro ⟨_, hothers⟩
    by_cases hrfen : regs.rxFifo.rfen = true
    · exact Or.inl hrfen
    · -- no mailbox was occupied, so what was cleared had to be zero
      refine Or.inr fun i hi k hk => ?_
      have hkept := hothers i (fun hocc => hrfen ((canIsMbOccupied_iff _ i).1 hocc).1) k hk
      rw [← hkept, hmb i k hk, if_pos hi]
  · intro hfits
    constructor
    case cleared =>
      intro i hocc k hk
      rw [hmb i k hk, if_pos ((canIsMbOccupied_iff _ i).1 hocc).2]
    case others =>
      intro i hfree k hk
      rw [hmb i k hk]
      rcases hfits with hrfen | hzero
      · rw [if_neg fun hi => hfree ((canIsMbOccupied_iff _ i).2 ⟨hrfen, hi⟩)]
      · split
        case isTrue hi => exact (hzero i hi k hk).symm
        case isFalse => rfl

/-! ## The set-up -/

/-- `can_set_legacy_rxfifo_cfg` does what is asked where the filters fit. -/
theorem canSetLegacyRxfifoCfg_iff (regs : CanRegs) (enable : Option CanRxFifoConfig) :
    CanRxfifoSet regs enable ↔ CanRxfifoFits regs enable := by
  cases enable with
  | some cfg => exact canRxfifoSet_some_iff regs cfg
  | none => exact canRxfifoSet_none_iff regs

/-- With 16 mailboxes, 64 filters are set up in the mailboxes 6 to 21. -/
theorem canSetLegacyRxfifoCfg_not_fits : ¬ ∀ regs enable, CanRxfifoSet regs enable := by
  let regs : CanRegs := ⟨15, 0, 0, 0, 0, fun _ => 0⟩
  let cfg : CanRxFifoConfig := ⟨fun _ => 0, 64, .a, .low⟩
  intro hset
  have hone : (canSetLegacyRxfifoCfg regs (some cfg)).1 = 1 := by decide
  have hlast := ((hset regs (some cfg)).1 hone).le_maxmb 21 (by decide) (by decide)
  revert hlast
  decide

end TlBleSdk.Drivers
