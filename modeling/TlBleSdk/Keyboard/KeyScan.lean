import TlBleSdk.Lib.Ring
import TlBleSdk.Lib.Run
import Mathlib.Data.BitVec
import Mathlib.Data.List.GetD

/-!
# Keyboard scan

The debouncing and the matrix buffer of `application/keyboard/keyboard.c`. A matrix has a
word for each drive pin, and a bit of the word for each scan pin. `kb_scan_key_value` passes
the matrix it scanned through a filter; where the result differs from the last one it goes
to a buffer of four entries, which overwrites what was not read, and a matrix is read from
the buffer. Ghost key removal and key repetition are off, as in the defaults; the row scan
and the key mapping are left out.

Three history variables record the matrices scanned, what the filter made of them, and the
matrices that were read, the oldest first.
-/

namespace TlBleSdk.Keyboard

/-- A key matrix for `n` drive pins. -/
abbrev Matrix (n : ℕ) := Fin n → BitVec 32

/-- The static variables of the filter, and the matrix buffer with its pointers. -/
structure KeyScan (n : ℕ) where
  mtrxPre : Matrix n
  mtrxLast : Matrix n
  matrixBuff : ℕ → Matrix n
  matrixWptr : ℕ
  matrixRptr : ℕ
  sampled : List (Matrix n)
  filtered : List (Matrix n)
  read : List (Matrix n)

/-- The state after the start. -/
def init (n : ℕ) : KeyScan n where
  mtrxPre := 0
  mtrxLast := 0
  matrixBuff := fun _ => 0
  matrixWptr := 0
  matrixRptr := 0
  sampled := []
  filtered := []
  read := []

/-- A call of `kb_scan_key_value`, with the matrix that it scans. -/
structure ScanCall (n : ℕ) where
  pressedMatrix : Matrix n
  numlockStatus : BitVec 32
  readKey : Bool

/-- `KB_NUMLOCK_STATUS_INVALID`. -/
def ScanCall.invalid {n : ℕ} (c : ScanCall n) : Bool := c.numlockStatus.getLsbD 7

/-- `KB_NUMLOCK_STATUS_POWERON`. -/
def ScanCall.poweron {n : ℕ} (c : ScanCall n) : Bool := c.numlockStatus.getLsbD 15

namespace KeyScan

variable {n : ℕ}

/-- `key_debounce_filter`: the filtered matrix, whether it differs from the last one, and the
new state. -/
def keyDebounceFilter (s : KeyScan n) (mtrxCur : Matrix n) (filtEn : Bool) :
    Matrix n × Bool × KeyScan n :=
  let out : Matrix n := fun i =>
    if filtEn then
      (~~~s.mtrxLast i &&& (s.mtrxPre i &&& mtrxCur i)) |||
        (s.mtrxLast i &&& (s.mtrxPre i ||| mtrxCur i))
    else mtrxCur i
  (out, decide (out ≠ s.mtrxLast),
    { s with mtrxPre := mtrxCur, mtrxLast := out, sampled := s.sampled ++ [mtrxCur],
             filtered := s.filtered ++ [out] })

/-- The push to the matrix buffer. -/
def pushMatrix (s : KeyScan n) (m : Matrix n) : KeyScan n :=
  let s := { s with matrixBuff := Function.update s.matrixBuff (s.matrixWptr % 4) m,
                    matrixWptr := (s.matrixWptr + 1) % 8 }
  if 4 < (s.matrixWptr + 8 - s.matrixRptr) % 8 then
    { s with matrixRptr := (s.matrixWptr + 8 - 4) % 8 }
  else s

/-- The end of `kb_scan_key_value`: the matrix read, if there is one, goes to
`kb_remap_key_code`. -/
def readMatrix (s : KeyScan n) : KeyScan n :=
  if s.matrixWptr = s.matrixRptr then s
  else { s with matrixRptr := (s.matrixRptr + 1) % 8,
                read := s.read ++ [s.matrixBuff (s.matrixRptr % 4)] }

/-- `kb_scan_key_value`. -/
def kbScanKeyValue (s : KeyScan n) (c : ScanCall n) : KeyScan n :=
  let (pressedMatrix, keyChanged, s) := s.keyDebounceFilter c.pressedMatrix (!c.poweron)
  let s := if keyChanged then s.pushMatrix pressedMatrix else s
  if c.invalid then s
  else if !c.readKey then s
  else s.readMatrix

/-- The matrices in the buffer that were not read. -/
def unread (s : KeyScan n) : List (Matrix n) :=
  (List.range ((s.matrixWptr + 8 - s.matrixRptr) % 8)).map fun k =>
    s.matrixBuff ((s.matrixRptr + k) % 4)

/-- The matrix of the last call. -/
def current (s : KeyScan n) : Matrix n := s.filtered.getLastD 0

end KeyScan

/-! ## The filter -/

variable {n : ℕ}

/-- A bit of the `k`-th matrix. -/
def bitAt (ms : List (Matrix n)) (k : ℕ) (i : Fin n) (j : ℕ) : Bool := (ms.getD k 0 i).getLsbD j

/-- A bit before the `k`-th call. -/
def bitBefore (ms : List (Matrix n)) (k : ℕ) (i : Fin n) (j : ℕ) : Bool :=
  if k = 0 then false else bitAt ms (k - 1) i j

/-- A bit of `filtered` changes only to a value that two samples in a row have. -/
def Debounced (sampled filtered : List (Matrix n)) : Prop :=
  ∀ k < filtered.length, ∀ i j, bitAt filtered k i j ≠ bitBefore filtered k i j →
    0 < k ∧ bitAt sampled k i j = bitAt filtered k i j ∧
      bitAt sampled (k - 1) i j = bitAt filtered k i j

/-- A bit of `filtered` has the value that two samples in a row have. -/
def Settles (sampled filtered : List (Matrix n)) : Prop :=
  ∀ k, 0 < k → k < filtered.length → ∀ i j, bitAt sampled k i j = bitAt sampled (k - 1) i j →
    bitAt filtered k i j = bitAt sampled k i j

/-- The matrices that differ from the one before them; `m` is before the first. -/
def changesFrom (m : Matrix n) : List (Matrix n) → List (Matrix n)
  | [] => []
  | d :: ds => if d ≠ m then d :: changesFrom d ds else changesFrom d ds

theorem changesFrom_concat (m : Matrix n) (ds : List (Matrix n)) (d : Matrix n) :
    changesFrom m (ds ++ [d]) =
      changesFrom m ds ++ if d ≠ ds.getLastD m then [d] else [] := by
  induction ds generalizing m with
  | nil => by_cases h : d = m <;> simp [changesFrom, h]
  | cons e ds ih =>
    rw [List.cons_append, changesFrom, changesFrom, ih, List.getLastD_cons]
    by_cases h : e ≠ m <;> simp [h]

/-- The last change is the matrix of the last call. -/
theorem getLastD_changesFrom (m : Matrix n) (ds : List (Matrix n)) :
    (changesFrom m ds).getLastD m = ds.getLastD m := by
  induction ds generalizing m with
  | nil => rfl
  | cons d ds ih =>
    rw [changesFrom, List.getLastD_cons]
    by_cases h : d = m
    · rw [if_neg (not_not.mpr h), ← h, ih]
    · rw [if_pos h, List.getLastD_cons, ih]

/-- One bit of the filter. -/
theorem filter_bit {last pre cur : Bool}
    (h : ((!last && (pre && cur)) || (last && (pre || cur))) ≠ last) :
    cur = ((!last && (pre && cur)) || (last && (pre || cur))) ∧
      pre = ((!last && (pre && cur)) || (last && (pre || cur))) := by
  revert last pre cur
  decide

/-- One bit of the filter where the samples agree. -/
theorem filter_bit_of_eq {last pre cur : Bool} (h : cur = pre) :
    ((!last && (pre && cur)) || (last && (pre || cur))) = cur := by
  revert last pre cur
  decide

theorem bitAt_concat_of_lt {ms : List (Matrix n)} {k : ℕ} (hk : k < ms.length) (m : Matrix n)
    (i : Fin n) (j : ℕ) : bitAt (ms ++ [m]) k i j = bitAt ms k i j := by
  rw [bitAt, bitAt, List.getD_append _ _ _ _ hk]

theorem bitAt_concat_length (ms : List (Matrix n)) (m : Matrix n) (i : Fin n) (j : ℕ) :
    bitAt (ms ++ [m]) ms.length i j = (m i).getLsbD j := by
  rw [bitAt, List.getD_append_right _ _ _ _ le_rfl, Nat.sub_self]
  rfl

theorem bitBefore_concat_of_le {ms : List (Matrix n)} {k : ℕ} (hk : k ≤ ms.length)
    (m : Matrix n) (i : Fin n) (j : ℕ) : bitBefore (ms ++ [m]) k i j = bitBefore ms k i j := by
  unfold bitBefore
  split
  case isTrue => rfl
  case isFalse h0 => exact bitAt_concat_of_lt (by omega) m i j

theorem bitBefore_length (ms : List (Matrix n)) (i : Fin n) (j : ℕ) :
    bitBefore ms ms.length i j = (ms.getLastD 0 i).getLsbD j := by
  rcases List.eq_nil_or_concat ms with rfl | ⟨ms, m, rfl⟩
  · simp [bitBefore]
  · rw [List.concat_eq_append, bitBefore, if_neg (by simp), List.length_append,
      List.length_singleton, Nat.add_sub_cancel, bitAt_concat_length, List.getLastD_concat]

/-- The filter keeps the rule for every bit. -/
theorem Debounced.concat {sampled filtered : List (Matrix n)} (h : Debounced sampled filtered)
    (hlen : sampled.length = filtered.length) {cur out : Matrix n}
    (hbit : ∀ i j, (out i).getLsbD j ≠ (filtered.getLastD 0 i).getLsbD j →
      (cur i).getLsbD j = (out i).getLsbD j ∧
        (sampled.getLastD 0 i).getLsbD j = (out i).getLsbD j) :
    Debounced (sampled ++ [cur]) (filtered ++ [out]) := by
  intro k hk i j hne
  rw [List.length_append, List.length_singleton] at hk
  rcases Nat.lt_or_ge k filtered.length with hlt | hge
  · -- An earlier call: its samples are where they were.
    rw [bitAt_concat_of_lt hlt, bitBefore_concat_of_le hlt.le] at hne
    obtain ⟨h0, hcur, hpre⟩ := h k hlt i j hne
    rw [bitAt_concat_of_lt hlt, bitAt_concat_of_lt (hlen ▸ hlt),
      bitAt_concat_of_lt (by omega)]
    exact ⟨h0, hcur, hpre⟩
  · obtain rfl : k = filtered.length := by omega
    rw [bitAt_concat_length, bitBefore_concat_of_le le_rfl, bitBefore_length] at hne
    obtain ⟨hcur, hpre⟩ := hbit i j hne
    have h0 : 0 < filtered.length := by
      -- Before the first call both the last matrix and the sample are zero.
      rcases Nat.eq_zero_or_pos filtered.length with h0 | h0
      · rw [List.length_eq_zero_iff] at h0
        rw [h0] at hlen hne
        rw [List.length_eq_zero_iff.mp hlen] at hpre
        exact absurd hpre.symm hne
      · exact h0
    have hpre' : bitAt sampled (sampled.length - 1) i j = (out i).getLsbD j := by
      rw [← hpre, ← bitBefore_length, bitBefore, if_neg (by omega)]
    rw [bitAt_concat_length, ← hlen, bitAt_concat_length, bitAt_concat_of_lt (by omega)]
    exact ⟨by omega, hcur, hpre'⟩

theorem Settles.concat {sampled filtered : List (Matrix n)} (h : Settles sampled filtered)
    (hlen : sampled.length = filtered.length) {cur out : Matrix n}
    (hbit : ∀ i j, (cur i).getLsbD j = (sampled.getLastD 0 i).getLsbD j →
      (out i).getLsbD j = (cur i).getLsbD j) :
    Settles (sampled ++ [cur]) (filtered ++ [out]) := by
  intro k h0 hk i j heq
  rw [List.length_append, List.length_singleton] at hk
  rcases Nat.lt_or_ge k filtered.length with hlt | hge
  · rw [bitAt_concat_of_lt (hlen ▸ hlt), bitAt_concat_of_lt (by omega)] at heq
    rw [bitAt_concat_of_lt hlt, bitAt_concat_of_lt (hlen ▸ hlt)]
    exact h k h0 hlt i j heq
  · obtain rfl : k = sampled.length := by omega
    have hpre : bitAt sampled (sampled.length - 1) i j = (sampled.getLastD 0 i).getLsbD j := by
      rw [← bitBefore_length, bitBefore, if_neg (by omega)]
    rw [bitAt_concat_length, bitAt_concat_of_lt (by omega), hpre] at heq
    rw [bitAt_concat_length, hlen, bitAt_concat_length]
    exact hbit i j heq

/-! ## The matrix buffer -/

/-- What waits behind a push: a full buffer loses its oldest matrix. -/
def pushUnread {α : Type*} (q : List α) (m : α) : List α :=
  (if q.length = 4 then q.tail else q) ++ [m]

/-- The matrices `q` wait in the buffer. -/
def KeyScan.Waits (s : KeyScan n) (q : List (Matrix n)) : Prop :=
  Ring.Holds 8 4 s.matrixBuff s.matrixWptr s.matrixRptr q

namespace KeyScan

variable {s : KeyScan n} {q : List (Matrix n)}

theorem Waits.unread_eq (h : s.Waits q) : s.unread = q :=
  Ring.Holds.eq_window h (by decide) (by decide)

/-- The push. -/
theorem Waits.push (h : s.Waits q) (m : Matrix n) : (s.pushMatrix m).Waits (pushUnread q m) := by
  have hused := Ring.Holds.used_eq h (by decide)
  obtain ⟨hw, hr⟩ := Ring.Holds.ptr_lt h (by decide)
  have hle := Ring.Holds.length_le h
  unfold pushMatrix pushUnread
  by_cases hfull : q.length = 4
  · -- The read pointer is set behind the matrix that is overwritten.
    have hrptr : ((s.matrixWptr + 1) % 8 + 8 - 4) % 8 = (s.matrixRptr + 1) % 8 := by omega
    dsimp only
    rw [if_pos (by omega), if_pos hfull, hrptr]
    exact Ring.Holds.overwrite h (by decide) (by decide) hfull m
  · dsimp only
    rw [if_neg (by omega), if_neg hfull]
    exact Ring.Holds.push h (by decide) (by omega) m

/-- The read. -/
theorem Waits.read (h : s.Waits q) :
    s.readMatrix.Waits q.tail ∧ s.readMatrix.read = s.read ++ q.head?.toList := by
  have hnil := Ring.Holds.nil_iff h (by decide)
  unfold readMatrix
  cases q with
  | nil =>
    rw [if_pos (hnil.mpr rfl).symm]
    exact ⟨h, (List.append_nil _).symm⟩
  | cons m q =>
    rw [if_neg fun heq => List.cons_ne_nil m q (hnil.mp heq.symm)]
    exact ⟨Ring.Holds.tail h, by rw [Ring.Holds.head h (by decide)]; rfl⟩

/-- The two states agree in what the filter works on. -/
structure SameFilter (s s' : KeyScan n) : Prop where
  sampled : s'.sampled = s.sampled
  filtered : s'.filtered = s.filtered
  mtrxPre : s'.mtrxPre = s.mtrxPre
  mtrxLast : s'.mtrxLast = s.mtrxLast

theorem SameFilter.refl (s : KeyScan n) : SameFilter s s := ⟨rfl, rfl, rfl, rfl⟩

theorem SameFilter.trans {s s' s'' : KeyScan n} (h : SameFilter s s')
    (h' : SameFilter s' s'') : SameFilter s s'' where
  sampled := h'.sampled.trans h.sampled
  filtered := h'.filtered.trans h.filtered
  mtrxPre := h'.mtrxPre.trans h.mtrxPre
  mtrxLast := h'.mtrxLast.trans h.mtrxLast

theorem sameFilter_pushMatrix (m : Matrix n) : SameFilter s (s.pushMatrix m) := by
  unfold pushMatrix
  dsimp only
  split <;> exact ⟨rfl, rfl, rfl, rfl⟩

@[simp] theorem read_pushMatrix (m : Matrix n) : (s.pushMatrix m).read = s.read := by
  unfold pushMatrix
  dsimp only
  split <;> rfl

theorem sameFilter_readMatrix : SameFilter s s.readMatrix := by
  unfold readMatrix
  split <;> exact ⟨rfl, rfl, rfl, rfl⟩

/-- The filtered matrix of a call. -/
def debounced (s : KeyScan n) (c : ScanCall n) : Matrix n :=
  (s.keyDebounceFilter c.pressedMatrix (!c.poweron)).1

/-- The state behind the filter. -/
def filterState (s : KeyScan n) (c : ScanCall n) : KeyScan n :=
  (s.keyDebounceFilter c.pressedMatrix (!c.poweron)).2.2

/-- The state behind the push. -/
def pushState (s : KeyScan n) (c : ScanCall n) : KeyScan n :=
  if s.debounced c ≠ s.mtrxLast then (s.filterState c).pushMatrix (s.debounced c)
  else s.filterState c

theorem kbScanKeyValue_eq (s : KeyScan n) (c : ScanCall n) :
    s.kbScanKeyValue c =
      if !c.invalid ∧ c.readKey then (s.pushState c).readMatrix else s.pushState c := by
  have hpush : (if decide (s.debounced c ≠ s.mtrxLast) then
      (s.filterState c).pushMatrix (s.debounced c) else s.filterState c) = s.pushState c := by
    simp only [pushState, decide_eq_true_eq]
  unfold kbScanKeyValue
  change (if c.invalid then _ else if !c.readKey then _ else readMatrix _) = _
  rw [← hpush]
  cases c.invalid <;> cases c.readKey <;> rfl

/-- What waits in the buffer behind the push of a call, when `q` waits before it. -/
def offered (s : KeyScan n) (q : List (Matrix n)) (c : ScanCall n) : List (Matrix n) :=
  if s.debounced c ≠ s.mtrxLast then pushUnread q (s.debounced c) else q

theorem Waits.pushState (h : s.Waits q) (c : ScanCall n) :
    (s.pushState c).Waits (s.offered q c) ∧ (s.pushState c).read = s.read ∧
      SameFilter (s.filterState c) (s.pushState c) := by
  have h' : (s.filterState c).Waits q := h
  unfold KeyScan.pushState offered
  split
  case isTrue => exact ⟨h'.push _, read_pushMatrix _, sameFilter_pushMatrix _⟩
  case isFalse => exact ⟨h', rfl, .refl _⟩

/-- What a call does, when `q` waits before it. -/
structure Step (s : KeyScan n) (q : List (Matrix n)) (c : ScanCall n) (s' : KeyScan n) :
    Prop where
  filter : SameFilter (s.filterState c) s'
  buffer :
    if !c.invalid ∧ c.readKey then
      s'.Waits (s.offered q c).tail ∧ s'.read = s.read ++ (s.offered q c).head?.toList
    else s'.Waits (s.offered q c) ∧ s'.read = s.read

theorem step_kbScanKeyValue (h : s.Waits q) (c : ScanCall n) :
    Step s q c (s.kbScanKeyValue c) := by
  obtain ⟨hwaits, hread, hfilter⟩ := h.pushState c
  rw [kbScanKeyValue_eq]
  by_cases hc : !c.invalid ∧ c.readKey
  · rw [if_pos hc]
    refine ⟨hfilter.trans sameFilter_readMatrix, ?_⟩
    rw [if_pos hc]
    exact ⟨hwaits.read.1, by rw [hwaits.read.2, hread]⟩
  · rw [if_neg hc]
    refine ⟨hfilter, ?_⟩
    rw [if_neg hc]
    exact ⟨hwaits, hread⟩

end KeyScan

/-! ## Runs -/

/-- Of the changes `ch`, those in `r` were read and those in `q` wait: in order, the
waiting ones the last of all, and the last change among them or the last that was read. -/
structure InOrder {α : Type*} (ch r q : List α) : Prop where
  sublist : (r ++ q).Sublist ch
  suffix : q <:+ ch
  getLast? : (r ++ q).getLast? = ch.getLast?

section

variable {α : Type*} {ch r q : List α}

theorem InOrder.push (h : InOrder ch r q) (m : α) :
    InOrder (ch ++ [m]) r (pushUnread q m) := by
  have hkept : (if q.length = 4 then q.tail else q) <:+ q := by
    split
    · exact List.tail_suffix q
    · exact List.suffix_rfl
  refine ⟨?_, ?_, ?_⟩
  · rw [pushUnread, ← List.append_assoc]
    exact ((hkept.sublist.append_left r).trans h.sublist).append_right [m]
  · obtain ⟨t, ht⟩ := hkept.trans h.suffix
    exact ⟨t, by rw [pushUnread, ← List.append_assoc, ht]⟩
  · rw [pushUnread, ← List.append_assoc, List.getLast?_concat, List.getLast?_concat]

theorem InOrder.read (h : InOrder ch r q) : InOrder ch (r ++ q.head?.toList) q.tail := by
  have heq : r ++ q.head?.toList ++ q.tail = r ++ q := by
    cases q with
    | nil => simp
    | cons m q => simp
  exact ⟨heq ▸ h.sublist, (List.tail_suffix q).trans h.suffix, heq ▸ h.getLast?⟩

end

/-- What holds of the state at every moment. -/
structure KeyScanInv (s : KeyScan n) : Prop where
  mtrxPre : s.mtrxPre = s.sampled.getLastD 0
  mtrxLast : s.mtrxLast = s.current
  length : s.sampled.length = s.filtered.length
  debounced : Debounced s.sampled s.filtered
  settles : Settles s.sampled s.filtered
  waits : s.Waits s.unread
  inOrder : InOrder (changesFrom 0 s.filtered) s.read s.unread

theorem waits_init : (init n).Waits [] := .empty 8 4 _

theorem keyScanInv_init : KeyScanInv (init n) := by
  have hunread : (init n).unread = [] := waits_init.unread_eq
  refine ⟨rfl, rfl, rfl, fun k hk => absurd hk (Nat.not_lt_zero k),
    fun k _ hk => absurd hk (Nat.not_lt_zero k), ?_, ?_⟩
  · rw [hunread]
    exact waits_init
  · rw [hunread]
    exact ⟨.slnil, List.suffix_rfl, rfl⟩

/-- A bit of the filtered matrix. -/
theorem getLsbD_debounced (s : KeyScan n) {c : ScanCall n} (hc : c.poweron = false) (i : Fin n)
    (j : ℕ) : (s.debounced c i).getLsbD j =
      ((!(s.mtrxLast i).getLsbD j && ((s.mtrxPre i).getLsbD j && (c.pressedMatrix i).getLsbD j))
        || ((s.mtrxLast i).getLsbD j &&
          ((s.mtrxPre i).getLsbD j || (c.pressedMatrix i).getLsbD j))) := by
  have hout : s.debounced c i =
      (~~~s.mtrxLast i &&& (s.mtrxPre i &&& c.pressedMatrix i)) |||
        (s.mtrxLast i &&& (s.mtrxPre i ||| c.pressedMatrix i)) := by
    simp [KeyScan.debounced, KeyScan.keyDebounceFilter, hc]
  rw [hout]
  simp only [BitVec.getLsbD_or, BitVec.getLsbD_and, BitVec.getLsbD_not]
  by_cases hj : j < 32
  · simp [hj]
  · simp [BitVec.getLsbD_of_ge _ j (Nat.le_of_not_lt hj)]

theorem changesFrom_step {s : KeyScan n} (h : s.mtrxLast = s.current) (c : ScanCall n) :
    changesFrom 0 (s.filterState c).filtered =
      changesFrom 0 s.filtered ++ if s.debounced c ≠ s.mtrxLast then [s.debounced c] else [] := by
  rw [h]
  exact changesFrom_concat 0 s.filtered (s.debounced c)

/-- The changes and the buffer behind the push of a call. -/
theorem KeyScanInv.offered {s : KeyScan n} (h : KeyScanInv s) (c : ScanCall n) :
    InOrder (changesFrom 0 (s.filterState c).filtered) s.read (s.offered s.unread c) := by
  rw [changesFrom_step h.mtrxLast, KeyScan.offered]
  split
  · exact h.inOrder.push _
  · rw [List.append_nil]
    exact h.inOrder

theorem keyScanInv_step (s : KeyScan n) (c : ScanCall n) (h : KeyScanInv s)
    (hc : c.poweron = false) : KeyScanInv (s.kbScanKeyValue c) := by
  obtain ⟨hf, hbuffer⟩ := KeyScan.step_kbScanKeyValue h.waits c
  have hfiltered : (s.kbScanKeyValue c).filtered = s.filtered ++ [s.debounced c] := hf.filtered
  have hsampled : (s.kbScanKeyValue c).sampled = s.sampled ++ [c.pressedMatrix] := hf.sampled
  have hoffered := h.offered c
  rw [← hf.filtered] at hoffered
  -- A call with `read_key` also takes the oldest matrix, after the push.
  have hqueue : (s.kbScanKeyValue c).Waits (s.kbScanKeyValue c).unread ∧
      InOrder (changesFrom 0 (s.kbScanKeyValue c).filtered) (s.kbScanKeyValue c).read
        (s.kbScanKeyValue c).unread := by
    split at hbuffer
    · obtain ⟨hwaits, hread⟩ := hbuffer
      rw [hwaits.unread_eq, hread]
      exact ⟨hwaits, hoffered.read⟩
    · obtain ⟨hwaits, hread⟩ := hbuffer
      rw [hwaits.unread_eq, hread]
      exact ⟨hwaits, hoffered⟩
  refine ⟨?_, ?_, ?_, ?_, ?_, hqueue.1, hqueue.2⟩
  · rw [hsampled, List.getLastD_concat]
    exact hf.mtrxPre
  · rw [KeyScan.current, hfiltered, List.getLastD_concat]
    exact hf.mtrxLast
  · rw [hsampled, hfiltered, List.length_append, List.length_append, h.length]
    rfl
  · rw [hsampled, hfiltered]
    refine h.debounced.concat h.length fun i j hne => ?_
    have hlast : s.filtered.getLastD 0 = s.mtrxLast := h.mtrxLast.symm
    rw [hlast, getLsbD_debounced s hc] at hne
    rw [← h.mtrxPre, getLsbD_debounced s hc]
    exact filter_bit hne
  · rw [hsampled, hfiltered]
    refine h.settles.concat h.length fun i j heq => ?_
    rw [← h.mtrxPre] at heq
    rw [getLsbD_debounced s hc]
    exact filter_bit_of_eq heq

/-- A sample that differs in a bit from the one before it and from the one behind it does
not appear. -/
def NoGlitch (sampled filtered : List (Matrix n)) : Prop :=
  ∀ k, k + 1 < filtered.length → ∀ i j,
    (0 < k → bitAt sampled k i j ≠ bitAt sampled (k - 1) i j) →
    bitAt sampled (k + 1) i j ≠ bitAt sampled k i j →
    bitAt filtered k i j = bitBefore filtered k i j ∧
      bitAt filtered (k + 1) i j = bitAt filtered k i j

theorem Debounced.noGlitch {sampled filtered : List (Matrix n)}
    (h : Debounced sampled filtered) : NoGlitch sampled filtered := by
  intro k hk i j hbefore hbehind
  constructor
  · by_contra hne
    obtain ⟨h0, hcur, hpre⟩ := h k (by omega) i j hne
    exact hbefore h0 (hcur.trans hpre.symm)
  · by_contra hne
    obtain ⟨-, hcur, hpre⟩ := h (k + 1) hk i j hne
    exact hbehind (hcur.trans hpre.symm)

/-- What is wanted of the state at every moment. -/
structure KeyScanOk (s : KeyScan n) : Prop where
  debounced : Debounced s.sampled s.filtered
  settles : Settles s.sampled s.filtered
  noGlitch : NoGlitch s.sampled s.filtered
  /-- What was read and what waits are changes, in order and each at most once. -/
  inOrder : (s.read ++ s.unread).Sublist (changesFrom 0 s.filtered)
  /-- The last changes wait. -/
  suffix : s.unread <:+ changesFrom 0 s.filtered
  unread_le : s.unread.length ≤ 4
  /-- Where nothing waits, the last matrix that was read is the filtered one. -/
  caughtUp : s.matrixWptr = s.matrixRptr → changesFrom 0 s.filtered ≠ [] →
    s.read.getLast? = some s.current

/-- What is wanted of a call: a change goes to the buffer, where only the oldest matrix of a
full buffer makes room for it, and a read takes the oldest. -/
structure KeyScanStepOk (s : KeyScan n) (c : ScanCall n) : Prop where
  filtered : (s.kbScanKeyValue c).filtered = s.filtered ++ [s.debounced c]
  sampled : (s.kbScanKeyValue c).sampled = s.sampled ++ [c.pressedMatrix]
  buffer :
    let q := if s.debounced c ≠ s.current then pushUnread s.unread (s.debounced c)
      else s.unread
    if !c.invalid ∧ c.readKey then
      (s.kbScanKeyValue c).read = s.read ++ q.head?.toList ∧
        (s.kbScanKeyValue c).unread = q.tail
    else (s.kbScanKeyValue c).read = s.read ∧ (s.kbScanKeyValue c).unread = q

theorem KeyScanInv.ok {s : KeyScan n} (h : KeyScanInv s) : KeyScanOk s where
  debounced := h.debounced
  settles := h.settles
  noGlitch := h.debounced.noGlitch
  inOrder := h.inOrder.sublist
  suffix := h.inOrder.suffix
  unread_le := Ring.Holds.length_le h.waits
  caughtUp heq hne := by
    have hnil := (Ring.Holds.nil_iff h.waits (by decide)).mp heq.symm
    have hlast := h.inOrder.getLast?
    rw [hnil, List.append_nil] at hlast
    rw [hlast, List.getLast?_eq_some_getLast hne]
    congr 1
    rw [KeyScan.current, ← getLastD_changesFrom, List.getLastD_eq_getLast?,
      List.getLast?_eq_some_getLast hne, Option.getD_some]

theorem KeyScanInv.stepOk {s : KeyScan n} (h : KeyScanInv s) (c : ScanCall n) :
    KeyScanStepOk s c := by
  obtain ⟨hf, hbuffer⟩ := KeyScan.step_kbScanKeyValue h.waits c
  refine ⟨hf.filtered, hf.sampled, ?_⟩
  rw [KeyScan.offered, h.mtrxLast] at hbuffer
  split at hbuffer
  case isTrue hread =>
    dsimp only
    rw [if_pos hread, hbuffer.1.unread_eq]
    exact ⟨hbuffer.2, rfl⟩
  case isFalse hread =>
    dsimp only
    rw [if_neg hread, hbuffer.1.unread_eq]
    exact ⟨hbuffer.2, rfl⟩

/-- With the filter enabled every call and every moment of a run is as wanted. -/
theorem keyScan_ok (calls : List (ScanCall n)) (h : ∀ c ∈ calls, c.poweron = false) :
    Machine.Along KeyScan.kbScanKeyValue KeyScanStepOk (init n) calls ∧
      Machine.Always KeyScan.kbScanKeyValue KeyScanOk (init n) calls := by
  have hok : Machine.Along KeyScan.kbScanKeyValue (fun _ c => c.poweron = false) (init n)
      calls := Machine.along_of_forall_mem (init n) h
  exact ⟨Machine.along_of_invariant keyScanInv_step
      (fun _ c hs _ => hs.stepOk c) keyScanInv_init hok,
    Machine.always_of_invariant keyScanInv_step (fun _ hs => hs.ok)
      keyScanInv_init hok⟩

theorem keyScan_ok_press :
    Machine.Along KeyScan.kbScanKeyValue KeyScanStepOk (init 1)
        [⟨fun _ => 1, 0, true⟩, ⟨fun _ => 1, 0, true⟩] ∧
      Machine.Always KeyScan.kbScanKeyValue KeyScanOk (init 1)
        [⟨fun _ => 1, 0, true⟩, ⟨fun _ => 1, 0, true⟩] :=
  keyScan_ok [⟨fun _ => 1, 0, true⟩, ⟨fun _ => 1, 0, true⟩] (by decide)

end TlBleSdk.Keyboard
