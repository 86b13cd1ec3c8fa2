import Mathlib.Data.BitVec
import Mathlib.Logic.Function.Iterate

/-!
# Reflected cyclic redundancy checks

The remainder is shifted to the right, and the polynomial `poly`, in reflected form, is added
for each bit that falls out. Where the polynomial has its top bit, a step can be undone: the
top bit of the result is the bit that fell out. So remainders that differ stay different
over every message (`crc_injective`). The check sum is linear in the message (`crc_xor`).
-/

namespace Crc

variable {w : ℕ}

/-- One bit step. -/
def bit (poly c : BitVec w) : BitVec w := if c.getLsbD 0 then (c >>> 1) ^^^ poly else c >>> 1

/-- One byte step. -/
def byte (poly c : BitVec w) (b : UInt8) : BitVec w :=
  (bit poly)^[8] (c ^^^ b.toBitVec.setWidth w)

/-- The remainder of a message behind the remainder `c`. -/
def crc (poly c : BitVec w) (l : List UInt8) : BitVec w := l.foldl (byte poly) c

variable {poly : BitVec w}

/-- A message in two parts. -/
theorem crc_append (poly c : BitVec w) (l l' : List UInt8) :
    crc poly c (l ++ l') = crc poly (crc poly c l) l' := List.foldl_append

/-- The bit that fell out is the top bit of the result. -/
theorem msb_bit (hpoly : poly.msb = true) (c : BitVec w) : (bit poly c).msb = c.getLsbD 0 := by
  have hshift : (c >>> 1).msb = false := by
    rw [BitVec.msb_ushiftRight]
    simp
  unfold bit
  cases h : c.getLsbD 0 with
  | false => simp
  | true => rw [if_pos rfl, BitVec.msb_xor, hshift, hpoly]; rfl

theorem bit_injective (hpoly : poly.msb = true) : Function.Injective (bit poly) := by
  intro c d h
  have hlow : c.getLsbD 0 = d.getLsbD 0 := by
    rw [← msb_bit hpoly c, ← msb_bit hpoly d, h]
  have hshift : c >>> 1 = d >>> 1 := by
    unfold bit at h
    rw [hlow] at h
    cases hd : d.getLsbD 0 with
    | false => simpa [hd] using h
    | true => simpa [hd] using h
  apply BitVec.eq_of_getLsbD_eq
  intro i hi
  cases i with
  | zero => exact hlow
  | succ i =>
    have hbit := congrArg (fun x => x.getLsbD i) hshift
    simpa [Nat.add_comm] using hbit

theorem byte_injective (hpoly : poly.msb = true) (b : UInt8) :
    Function.Injective fun c => byte poly c b := by
  intro c d h
  have hxor := (bit_injective hpoly).iterate 8 h
  simpa using hxor

theorem bit_xor (poly c d : BitVec w) : bit poly (c ^^^ d) = bit poly c ^^^ bit poly d := by
  have hcancel : ∀ a b : BitVec w, a ^^^ poly ^^^ (b ^^^ poly) = a ^^^ b := by
    intro a b
    rw [BitVec.xor_assoc, BitVec.xor_comm b, ← BitVec.xor_assoc poly, BitVec.xor_self,
      BitVec.zero_xor]
  unfold bit
  rw [BitVec.getLsbD_xor, BitVec.ushiftRight_xor_distrib]
  cases c.getLsbD 0 with
  | false =>
    cases d.getLsbD 0 with
    | false => rfl
    | true => exact BitVec.xor_assoc _ _ _
  | true =>
    cases d.getLsbD 0 with
    | false =>
      show c >>> 1 ^^^ d >>> 1 ^^^ poly = c >>> 1 ^^^ poly ^^^ d >>> 1
      rw [BitVec.xor_assoc, BitVec.xor_comm (d >>> 1), BitVec.xor_assoc]
    | true => exact (hcancel _ _).symm

theorem iterate_bit_xor (poly c d : BitVec w) (n : ℕ) :
    (bit poly)^[n] (c ^^^ d) = (bit poly)^[n] c ^^^ (bit poly)^[n] d := by
  induction n with
  | zero => rfl
  | succ n ih =>
    simp only [Function.iterate_succ_apply']
    rw [ih, bit_xor]

theorem byte_xor (poly c d : BitVec w) (a b : UInt8) :
    byte poly (c ^^^ d) (a ^^^ b) = byte poly c a ^^^ byte poly d b := by
  unfold byte
  rw [← iterate_bit_xor, UInt8.toBitVec_xor, BitVec.setWidth_xor]
  congr 1
  rw [BitVec.xor_assoc, BitVec.xor_assoc, ← BitVec.xor_assoc d, BitVec.xor_comm d,
    BitVec.xor_assoc (BitVec.setWidth w _)]

/-- Bits that are 0 only fall out. -/
theorem iterate_bit_of_low (poly c : BitVec w) {n : ℕ} (h : ∀ i < n, c.getLsbD i = false) :
    (bit poly)^[n] c = c >>> n := by
  induction n with
  | zero => exact (BitVec.ushiftRight_zero c).symm
  | succ n ih =>
    have hbit : (c >>> n).getLsbD 0 = false := by
      rw [BitVec.getLsbD_ushiftRight]
      exact h n (Nat.lt_succ_self n)
    rw [Function.iterate_succ_apply', ih fun i hi => h i (Nat.lt_succ_of_lt hi), bit, hbit,
      BitVec.shiftRight_add]
    rfl

/-- Several bit steps at once: those of the bits that fall out, and the rest shifted. -/
theorem iterate_bit_split (poly c : BitVec w) (n : ℕ) :
    (bit poly)^[n] c = (bit poly)^[n] ((c.setWidth n).setWidth w) ^^^ c >>> n := by
  have hlow : ∀ i < n, (c ^^^ (c.setWidth n).setWidth w).getLsbD i = false := by
    intro i hi
    simp only [BitVec.getLsbD_xor, BitVec.getLsbD_setWidth, hi, decide_true, Bool.true_and]
    by_cases hw : i < w
    · simp [hw]
    · simp [BitVec.getLsbD_of_ge c i (by omega), hw]
  have hshift : (c ^^^ (c.setWidth n).setWidth w) >>> n = c >>> n := by
    apply BitVec.eq_of_getLsbD_eq
    intro i _
    simp [BitVec.getLsbD_ushiftRight, BitVec.getLsbD_xor, BitVec.getLsbD_setWidth]
  have hsum : c = (c.setWidth n).setWidth w ^^^ (c ^^^ (c.setWidth n).setWidth w) := by
    rw [BitVec.xor_comm c, ← BitVec.xor_assoc, BitVec.xor_self, BitVec.zero_xor]
  calc (bit poly)^[n] c
      = (bit poly)^[n] ((c.setWidth n).setWidth w ^^^ (c ^^^ (c.setWidth n).setWidth w)) := by
        rw [← hsum]
    _ = (bit poly)^[n] ((c.setWidth n).setWidth w) ^^^ c >>> n := by
        rw [iterate_bit_xor, iterate_bit_of_low poly _ hlow, hshift]

/-- A byte in two halves, the low one first. -/
theorem byte_eq_nibbles (poly c : BitVec w) (hw : 8 ≤ w) (b : UInt8) :
    byte poly c b = (bit poly)^[4] ((bit poly)^[4] (c ^^^ (b &&& 0x0F).toBitVec.setWidth w) ^^^
      (b >>> 4).toBitVec.setWidth w) := by
  -- the halves as bits of the byte
  have hlow : ∀ i, (b &&& 0x0F).toBitVec.getLsbD i = (decide (i < 4) && b.toBitVec.getLsbD i) := by
    intro i
    rw [UInt8.toBitVec_and, BitVec.getLsbD_and, Bool.and_comm]
    congr 1
    show (15 : ℕ).testBit i = _
    exact Nat.testBit_two_pow_sub_one 4 i
  have hhigh : ∀ i, (b >>> 4).toBitVec.getLsbD i = b.toBitVec.getLsbD (4 + i) := fun i =>
    BitVec.getLsbD_ushiftRight ..
  have hbyte : b.toBitVec.setWidth w = (b &&& 0x0F).toBitVec.setWidth w ^^^
      ((b >>> 4).toBitVec.setWidth w <<< 4) := by
    apply BitVec.eq_of_getLsbD_eq
    intro i hi
    simp only [BitVec.getLsbD_xor, BitVec.getLsbD_setWidth, BitVec.getLsbD_shiftLeft, hlow, hhigh,
      hi, decide_true, Bool.true_and]
    by_cases h4 : i < 4
    · simp [h4]
    · have hsub : 4 + (i - 4) = i := by omega
      have hlt : i - 4 < w := by omega
      simp [h4, hsub, hlt]
  have hup : (bit poly)^[4] ((b >>> 4).toBitVec.setWidth w <<< 4) =
      (b >>> 4).toBitVec.setWidth w := by
    rw [iterate_bit_of_low poly _ fun i hi => by simp [BitVec.getLsbD_shiftLeft, hi]]
    apply BitVec.eq_of_getLsbD_eq
    intro i hi
    rw [BitVec.getLsbD_ushiftRight, BitVec.getLsbD_shiftLeft, BitVec.getLsbD_setWidth,
      BitVec.getLsbD_setWidth, hhigh, hhigh]
    have hsub : 4 + i - 4 = i := by omega
    by_cases hin : 4 + i < w
    · simp [hin, hsub, hi]
    · -- the byte has no such bit
      have hout : 8 ≤ 4 + i := by omega
      simp [hin, BitVec.getLsbD_of_ge b.toBitVec (4 + i) hout]
  show (bit poly)^[4 + 4] _ = _
  rw [Function.iterate_add_apply, hbyte, ← BitVec.xor_assoc, iterate_bit_xor poly (c ^^^ _), hup]

/-- A check sum is linear: that of the sum of two messages is the sum of theirs. -/
theorem crc_xor (poly : BitVec w) {l l' : List UInt8} (h : l.length = l'.length)
    (c d : BitVec w) :
    crc poly (c ^^^ d) (List.zipWith (· ^^^ ·) l l') = crc poly c l ^^^ crc poly d l' := by
  induction l generalizing c d l' with
  | nil =>
    cases l' with
    | nil => rfl
    | cons b' l' => cases h
  | cons b l ih =>
    cases l' with
    | nil => cases h
    | cons b' l' =>
      show crc poly (byte poly (c ^^^ d) (b ^^^ b')) (List.zipWith _ l l') = _
      rw [byte_xor]
      exact ih (Nat.succ.inj h) _ _

/-- Two messages have the same check sum exactly if their sum has the check sum 0. -/
theorem crc_eq_iff (poly c : BitVec w) {l l' : List UInt8} (h : l.length = l'.length) :
    crc poly c l = crc poly c l' ↔ crc poly 0 (List.zipWith (· ^^^ ·) l l') = 0 := by
  have hsum := crc_xor poly h c c
  rw [BitVec.xor_self] at hsum
  rw [show (0 : BitVec w) = 0#w from rfl, hsum, BitVec.xor_eq_zero_iff]

/-! ## A message that carries its check sum -/

/-- The `n` low bytes of a remainder, the lowest one first. -/
def leBytes : ℕ → BitVec w → List UInt8
  | 0, _ => []
  | n + 1, c => UInt8.ofBitVec (c.setWidth 8) :: leBytes n (c >>> 8)

/-- The low byte of the remainder cancels itself. -/
theorem byte_low (poly c : BitVec w) : byte poly c (UInt8.ofBitVec (c.setWidth 8)) = c >>> 8 := by
  show (bit poly)^[8] (c ^^^ (c.setWidth 8).setWidth w) = _
  rw [iterate_bit_xor, iterate_bit_split, BitVec.xor_comm, ← BitVec.xor_assoc, BitVec.xor_self,
    BitVec.zero_xor]

theorem crc_leBytes (poly c : BitVec w) (n : ℕ) : crc poly c (leBytes n c) = c >>> (8 * n) := by
  induction n generalizing c with
  | zero => exact (BitVec.ushiftRight_zero c).symm
  | succ n ih =>
    show crc poly (byte poly c (UInt8.ofBitVec (c.setWidth 8))) (leBytes n (c >>> 8)) = _
    rw [byte_low, ih, ← BitVec.shiftRight_add, Nat.mul_succ, Nat.add_comm]

/-- A message with its remainder behind it leaves no remainder. -/
theorem crc_append_leBytes (poly c : BitVec w) (l : List UInt8) {n : ℕ} (hn : w ≤ 8 * n) :
    crc poly c (l ++ leBytes n (crc poly c l)) = 0 := by
  rw [crc_append, crc_leBytes]
  exact BitVec.ushiftRight_eq_zero hn

/-- Different remainders stay different. -/
theorem crc_injective (hpoly : poly.msb = true) (l : List UInt8) :
    Function.Injective fun c => crc poly c l := by
  induction l with
  | nil => exact fun c d h => h
  | cons b l ih => exact fun c d h => byte_injective hpoly b (ih h)

/-! ## Bursts -/

/-- The bits of a byte in the order in which they are taken up. -/
def byteBits (b : UInt8) : List Bool := (List.range 8).map b.toBitVec.getLsbD

/-- The bits of a message. -/
def bits (l : List UInt8) : List Bool := l.flatMap byteBits

/-- One bit of the message. -/
def bitStep (poly c : BitVec w) (b : Bool) : BitVec w := bit poly (if b then c ^^^ 1#w else c)

/-- The bits as the low bits of a remainder. -/
def ofBits : List Bool → BitVec w
  | [] => 0#w
  | b :: bs => (if b then 1#w else 0#w) ^^^ (ofBits bs <<< 1)

theorem getLsbD_ofBits (bs : List Bool) {i : ℕ} (hi : i < w) :
    (ofBits bs : BitVec w).getLsbD i = bs.getD i false := by
  induction bs generalizing i with
  | nil => simp [ofBits]
  | cons b bs ih =>
    have hone : (if b then 1#w else 0#w).getLsbD i = (b && decide (i = 0)) := by
      cases b with
      | false => simp
      | true => simp [hi]
    rw [ofBits, BitVec.getLsbD_xor, hone, BitVec.getLsbD_shiftLeft]
    cases i with
    | zero => simp
    | succ i =>
      rw [Nat.add_sub_cancel, ih (by omega)]
      simp [hi]

/-- A bit that is shifted up falls back down. -/
theorem bit_shiftLeft (poly c : BitVec w) (h : c.msb = false) : bit poly (c <<< 1) = c := by
  have hlow : (c <<< 1).getLsbD 0 = false := by simp
  unfold bit
  rw [hlow]
  apply BitVec.eq_of_getLsbD_eq
  intro i hi
  show ((c <<< 1) >>> 1).getLsbD i = _
  rw [BitVec.getLsbD_ushiftRight, BitVec.getLsbD_shiftLeft, Nat.add_sub_cancel_left]
  by_cases htop : 1 + i < w
  · simp [htop]
  · -- the top bit
    rw [BitVec.msb_eq_getLsbD_last] at h
    have hi' : i = w - 1 := by omega
    subst hi'
    simp [htop, h]

/-- Bits that fit the remainder may be taken up at once. -/
theorem foldl_bitStep (poly c : BitVec w) {bs : List Bool} (h : bs.length ≤ w) :
    bs.foldl (bitStep poly) c = (bit poly)^[bs.length] (c ^^^ ofBits bs) := by
  induction bs generalizing c with
  | nil => exact (BitVec.xor_zero).symm
  | cons b bs ih =>
    have hlen : bs.length < w := h
    have hmsb : (ofBits bs : BitVec w).msb = false := by
      rw [BitVec.msb_eq_getLsbD_last, getLsbD_ofBits bs (by omega), List.getD_eq_getElem?_getD,
        List.getElem?_eq_none (by omega), Option.getD_none]
    have hfirst : (if b then c ^^^ 1#w else c) = c ^^^ if b then 1#w else 0#w := by
      cases b with
      | false => exact BitVec.xor_zero.symm
      | true => rfl
    rw [List.foldl_cons, ih _ hlen.le, List.length_cons, Function.iterate_succ_apply, ofBits,
      ← BitVec.xor_assoc, bit_xor, bit_shiftLeft poly _ hmsb, bitStep, hfirst]

/-- A byte is taken up bit by bit. -/
theorem byte_eq_foldl (poly c : BitVec w) (hw : 8 ≤ w) (b : UInt8) :
    byte poly c b = (byteBits b).foldl (bitStep poly) c := by
  have hlen : (byteBits b).length = 8 := by simp [byteBits]
  have hbyte : (ofBits (byteBits b) : BitVec w) = b.toBitVec.setWidth w := by
    apply BitVec.eq_of_getLsbD_eq
    intro i hi
    rw [getLsbD_ofBits _ hi, BitVec.getLsbD_setWidth]
    by_cases h8 : i < 8
    · simp [byteBits, h8, hi]
    · rw [List.getD_eq_getElem?_getD, List.getElem?_eq_none (by omega), Option.getD_none,
        BitVec.getLsbD_of_ge b.toBitVec i (by omega), Bool.and_false]
  rw [foldl_bitStep poly c (by omega), hlen, hbyte]
  rfl

theorem crc_eq_foldl (poly c : BitVec w) (hw : 8 ≤ w) (l : List UInt8) :
    crc poly c l = (bits l).foldl (bitStep poly) c := by
  induction l generalizing c with
  | nil => rfl
  | cons b l ih =>
    show crc poly (byte poly c b) l = _
    rw [ih, byte_eq_foldl poly c hw]
    exact List.foldl_append.symm

/-- All the bits of the message that are set lie within `n` consecutive ones, and some are. -/
def IsBurst (n : ℕ) (l : List UInt8) : Prop :=
  ∃ i core j, bits l = List.replicate i false ++ core ++ List.replicate j false ∧
    true ∈ core ∧ core.length ≤ n

theorem bits_append (l l' : List UInt8) : bits (l ++ l') = bits l ++ bits l' := List.flatMap_append

theorem bits_replicate_zero (n : ℕ) :
    bits (List.replicate n (0 : UInt8)) = List.replicate (8 * n) false := by
  induction n with
  | zero => rfl
  | succ n ih =>
    rw [List.replicate_succ, Nat.mul_succ, Nat.add_comm, List.replicate_add, ← ih]
    rfl

theorem length_bits (l : List UInt8) : (bits l).length = 8 * l.length := by
  induction l with
  | nil => rfl
  | cons b l ih =>
    show (byteBits b ++ bits l).length = _
    rw [List.length_append, ih, byteBits, List.length_map, List.length_range, List.length_cons]
    omega

/-- A byte that is not 0 has a bit that is set. -/
theorem true_mem_byteBits {b : UInt8} (h : b ≠ 0) : true ∈ byteBits b := by
  by_contra hnone
  apply h
  rw [← UInt8.toBitVec_inj]
  apply BitVec.eq_of_getLsbD_eq
  intro i hi
  have hbit : b.toBitVec.getLsbD i ≠ true := fun hset =>
    hnone (List.mem_map.mpr ⟨i, List.mem_range.mpr hi, hset⟩)
  rw [Bool.eq_false_of_not_eq_true hbit]
  exact BitVec.getLsbD_zero.symm

/-- Bytes in a row. -/
theorem isBurst_of_bytes {n : ℕ} (i j : ℕ) {m : List UInt8} (hlen : 8 * m.length ≤ n)
    (hne : ∃ b ∈ m, b ≠ 0) :
    IsBurst n (List.replicate i 0 ++ m ++ List.replicate j 0) := by
  obtain ⟨b, hb, hb0⟩ := hne
  refine ⟨8 * i, bits m, 8 * j, ?_, ?_, (length_bits m).trans_le hlen⟩
  · rw [bits_append, bits_append, bits_replicate_zero, bits_replicate_zero]
  · exact List.mem_flatMap.mpr ⟨b, hb, true_mem_byteBits hb0⟩

theorem foldl_replicate_false (poly c : BitVec w) (n : ℕ) :
    (List.replicate n false).foldl (bitStep poly) c = (bit poly)^[n] c := by
  induction n generalizing c with
  | zero => rfl
  | succ n ih => exact ih _

theorem iterate_bit_zero (poly : BitVec w) (n : ℕ) : (bit poly)^[n] 0 = 0 := by
  rw [iterate_bit_of_low poly 0 fun i _ => BitVec.getLsbD_zero]
  exact BitVec.zero_ushiftRight

/-- A burst that fits the remainder leaves one. -/
theorem crc_ne_zero_of_isBurst (hpoly : poly.msb = true) (hw : 8 ≤ w) {l : List UInt8}
    (h : IsBurst w l) : crc poly 0 l ≠ 0 := by
  obtain ⟨i, core, j, hbits, hmem, hlen⟩ := h
  obtain ⟨k, hk, hset⟩ := List.getElem_of_mem hmem
  have hcore : (ofBits core : BitVec w) ≠ 0 := by
    intro hzero
    have hbit := getLsbD_ofBits (w := w) core (Nat.lt_of_lt_of_le hk hlen)
    rw [hzero, List.getD_eq_getElem?_getD, List.getElem?_eq_getElem hk, hset] at hbit
    exact absurd (BitVec.getLsbD_zero.symm.trans hbit) (by decide)
  have hsteps (n : ℕ) {c : BitVec w} (hc : c ≠ 0) : (bit poly)^[n] c ≠ 0 := fun hzero =>
    hc ((bit_injective hpoly).iterate n (hzero.trans (iterate_bit_zero poly n).symm))
  rw [crc_eq_foldl poly 0 hw, hbits, List.foldl_append, List.foldl_append, foldl_replicate_false,
    foldl_replicate_false, iterate_bit_zero, foldl_bitStep poly 0 hlen]
  refine hsteps j (hsteps core.length ?_)
  rwa [show (0 : BitVec w) = 0#w from rfl, BitVec.zero_xor]

/-- Two messages that differ by such a burst have different remainders. -/
theorem crc_ne_of_isBurst (hpoly : poly.msb = true) (hw : 8 ≤ w) (c : BitVec w)
    {l l' : List UInt8} (hlen : l.length = l'.length)
    (h : IsBurst w (List.zipWith (· ^^^ ·) l l')) : crc poly c l ≠ crc poly c l' := fun heq =>
  crc_ne_zero_of_isBurst hpoly hw h ((crc_eq_iff poly c hlen).mp heq)

end Crc
