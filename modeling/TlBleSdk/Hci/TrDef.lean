import Mathlib.Data.List.GetD
import Mathlib.Tactic.Common

/-!
# Common definitions of the HCI transport

The packet indicators, header lengths and byte-stream macros of `hci_tr_def.h`, and the
system timer the transports and the DFU read. Bytes are `UInt8`; counters and lengths are
natural numbers, and every truncation to the width of a C type is written out with `u8`,
`u16` or `u32`.
-/

namespace TlBleSdk

/-- Truncation to `u8`. -/
def u8 (n : ℕ) : ℕ := n % 256

/-- Truncation to `u16`. -/
def u16 (n : ℕ) : ℕ := n % 65536

/-- Truncation to `u32`. -/
def u32 (n : ℕ) : ℕ := n % 4294967296

@[simp] theorem u8_lt (n : ℕ) : u8 n < 256 := Nat.mod_lt _ (by decide)

theorem zero_lt_256 : 0 < 256 := by decide

theorem u8_of_lt {n : ℕ} (h : n < 256) : u8 n = n := Nat.mod_eq_of_lt h

theorem u16_of_lt {n : ℕ} (h : n < 65536) : u16 n = n := Nat.mod_eq_of_lt h

theorem u32_of_lt {n : ℕ} (h : n < 4294967296) : u32 n = n := Nat.mod_eq_of_lt h

/-- Subtraction in `u32`. -/
def u32Sub (a b : ℕ) : ℕ := u32 (a + 4294967296 - b)

theorem u32Sub_of_le {a b : ℕ} (h : b ≤ a) (ha : a < 4294967296) : u32Sub a b = a - b := by
  unfold u32Sub u32
  omega

namespace Hci

/-! ## Packet indicators and header lengths -/

def trTypeCmd : UInt8 := 0x01
def trTypeAcl : UInt8 := 0x02
def trTypeSco : UInt8 := 0x03
def trTypeEvent : UInt8 := 0x04
def trTypeIso : UInt8 := 0x05

def cmdHeadLen : ℕ := 3
def aclHeadLen : ℕ := 4
def evtHeadLen : ℕ := 2
def scoHeadLen : ℕ := 3

/-- `HCI_H5_HEAD_LEN`. -/
def hciH5HeadLen : ℕ := 4

/-- `HCI_H5_CRC_LEN`. -/
def hciH5CrcLen : ℕ := 2

/-- `HCI_TR_RX_BUF_SIZE` of `app_config.h`. -/
def hciTrRxBufSize : ℕ := 300

/-- `HCI_TR_TX_BUF_SIZE` of `app_config.h`. -/
def hciTrTxBufSize : ℕ := 300

/-- `MEM_SIZE_ALIGN16`. -/
def memSizeAlign16 (x : ℕ) : ℕ := (x + 15) / 16 * 16

/-! ## Byte streams -/

/-- `BYTES_TO_UINT16`, at offset `i` of the memory `p`. -/
def bytesToUint16 (p : ℕ → UInt8) (i : ℕ) : ℕ := (p i).toNat + (p (i + 1)).toNat * 256

/-- `BYTES_TO_UINT32`, at offset `i` of the memory `p`. -/
def bytesToUint32 (p : ℕ → UInt8) (i : ℕ) : ℕ :=
  (p i).toNat + (p (i + 1)).toNat * 256 + (p (i + 2)).toNat * 65536 +
    (p (i + 3)).toNat * 16777216

/-- `UINT16_TO_BSTREAM`. -/
def uint16ToBstream (n : ℕ) : List UInt8 := [UInt8.ofNat n, UInt8.ofNat (n / 256)]

/-- The memory a byte list occupies, zero behind its end. -/
def mem (l : List UInt8) (i : ℕ) : UInt8 := l.getD i 0

/-- The `n` bytes at `p`. -/
def bytes (p : ℕ → UInt8) (n : ℕ) : List UInt8 := (List.range n).map p

/-- The memory `p` behind a `memcpy` of `l` to the address `dst`. -/
def memcpy (p : ℕ → UInt8) (dst : ℕ) (l : List UInt8) : ℕ → UInt8 :=
  fun a => if dst ≤ a ∧ a < dst + l.length then l.getD (a - dst) 0 else p a

/-- The `n` bytes at the address `a`. -/
def bytesAt (p : ℕ → UInt8) (a n : ℕ) : List UInt8 := bytes (fun i => p (a + i)) n

@[simp] theorem length_bytes (p : ℕ → UInt8) (n : ℕ) : (bytes p n).length = n := by
  simp [bytes]

@[simp] theorem length_bytesAt (p : ℕ → UInt8) (a n : ℕ) : (bytesAt p a n).length = n :=
  length_bytes _ n

@[simp] theorem getElem_bytes (p : ℕ → UInt8) {n i : ℕ} (hi : i < (bytes p n).length) :
    (bytes p n)[i] = p i := by
  simp [bytes]

/-- The byte behind the first `n` is written. -/
theorem bytes_update_succ (p : ℕ → UInt8) (n : ℕ) (x : UInt8) :
    bytes (Function.update p n x) (n + 1) = bytes p n ++ [x] := by
  unfold bytes
  rw [List.range_succ, List.map_append, List.map_singleton, Function.update_self]
  congr 1
  refine List.map_congr_left fun i hi => Function.update_of_ne ?_ _ _
  exact Nat.ne_of_lt (List.mem_range.mp hi)

theorem getD_bytes (p : ℕ → UInt8) {n i : ℕ} (hi : i < n) (d : UInt8) :
    (bytes p n).getD i d = p i := by
  simp [bytes, List.getD_eq_getElem?_getD, hi]

theorem bytesToUint16_congr {p q : ℕ → UInt8} {i : ℕ} (h0 : p i = q i)
    (h1 : p (i + 1) = q (i + 1)) : bytesToUint16 p i = bytesToUint16 q i := by
  rw [bytesToUint16, bytesToUint16, h0, h1]

theorem bytes_mem_append (l m : List UInt8) : bytes (mem (l ++ m)) l.length = l := by
  apply List.ext_getElem
  · simp
  intro i hi hi'
  rw [getElem_bytes, mem, List.getD_eq_getElem _ _ (by rw [List.length_append]; omega),
    List.getElem_append_left hi']

theorem bytes_mem (l : List UInt8) : bytes (mem l) l.length = l := by
  have h := bytes_mem_append l []
  rwa [List.append_nil] at h

theorem bytes_congr {p q : ℕ → UInt8} {n : ℕ} (h : ∀ i < n, p i = q i) :
    bytes p n = bytes q n :=
  List.map_congr_left fun i hi => h i (List.mem_range.mp hi)

theorem bytesAt_congr {p q : ℕ → UInt8} {a n : ℕ} (h : ∀ i < n, p (a + i) = q (a + i)) :
    bytesAt p a n = bytesAt q a n :=
  bytes_congr h

theorem bytes_take_of_le (p : ℕ → UInt8) {k n : ℕ} (h : k ≤ n) :
    (bytes p n).take k = bytes p k := by
  apply List.ext_getElem
  · simp [h]
  intro i hi hi'
  simp

/-- What is copied behind the first `n` bytes follows them. -/
theorem bytes_memcpy (p : ℕ → UInt8) (n : ℕ) (l : List UInt8) :
    bytes (memcpy p n l) (n + l.length) = bytes p n ++ l := by
  apply List.ext_getElem
  · simp
  intro i hi hi'
  rw [getElem_bytes]
  rw [length_bytes] at hi
  unfold memcpy
  by_cases h : n ≤ i
  · rw [if_pos ⟨h, hi⟩, List.getElem_append_right (by simpa using h),
      List.getD_eq_getElem _ _ (by omega)]
    simp only [length_bytes]
  · rw [if_neg (by omega), List.getElem_append_left (by simpa using h), getElem_bytes]

/-- What was copied to an address is there. -/
theorem bytesAt_memcpy_self (p : ℕ → UInt8) (a : ℕ) (l : List UInt8) :
    bytesAt (memcpy p a l) a l.length = l := by
  apply List.ext_getElem
  · simp
  intro i hi hi'
  simp only [bytesAt, getElem_bytes, memcpy]
  rw [if_pos ⟨by omega, by omega⟩, Nat.add_sub_cancel_left, List.getD_eq_getElem _ _ hi']

/-- What fits one of equal slots leaves the bytes of the others. -/
theorem memcpy_slot_apply (p : ℕ → UInt8) {size i j k : ℕ} {l : List UInt8}
    (hfits : l.length ≤ size) (hij : i ≠ j) (hk : k < size) :
    memcpy p (j * size) l (i * size + k) = p (i * size + k) := by
  unfold memcpy
  rw [if_neg]
  rintro ⟨hlo, hhi⟩
  -- the slot before and the slot behind are each `size` bytes apart
  rcases Nat.lt_or_gt_of_ne hij with hlt | hgt
  · have hmul : (i + 1) * size ≤ j * size := Nat.mul_le_mul_right _ hlt
    rw [Nat.add_mul] at hmul
    omega
  · have hmul : (j + 1) * size ≤ i * size := Nat.mul_le_mul_right _ hgt
    rw [Nat.add_mul] at hmul
    omega

theorem bytes_memcpy_self (p : ℕ → UInt8) (l : List UInt8) :
    bytes (memcpy p 0 l) l.length = l := by
  have h := bytesAt_memcpy_self p 0 l
  simpa only [bytesAt, Nat.zero_add] using h

theorem bytes_add (p : ℕ → UInt8) (m n : ℕ) : bytes p (m + n) = bytes p m ++ bytesAt p m n := by
  simp only [bytes, bytesAt, List.range_add, List.map_append, List.map_map]
  rfl

theorem bytesAt_succ (p : ℕ → UInt8) (a n : ℕ) :
    bytesAt p a (n + 1) = p a :: bytesAt p (a + 1) n := by
  simp only [bytesAt, bytes, List.range_succ_eq_map, List.map_cons, List.map_map]
  congr 1
  exact List.map_congr_left fun i _ => congrArg p (by simp; omega)

/-- The memory holds the bytes `l` from the address `a` on. -/
def HasBytes (p : ℕ → UInt8) (a : ℕ) (l : List UInt8) : Prop := bytesAt p a l.length = l

@[simp] theorem hasBytes_nil (p : ℕ → UInt8) (a : ℕ) : HasBytes p a [] := rfl

theorem hasBytes_cons {p : ℕ → UInt8} {a : ℕ} {x : UInt8} {l : List UInt8} :
    HasBytes p a (x :: l) ↔ p a = x ∧ HasBytes p (a + 1) l := by
  unfold HasBytes
  rw [List.length_cons, bytesAt_succ, List.cons.injEq]

theorem hasBytes_append {p : ℕ → UInt8} {a : ℕ} {l m : List UInt8} :
    HasBytes p a (l ++ m) ↔ HasBytes p a l ∧ HasBytes p (a + l.length) m := by
  induction l generalizing a with
  | nil => simp
  | cons x l ih =>
    rw [List.cons_append, hasBytes_cons, hasBytes_cons, ih, and_assoc, List.length_cons,
      Nat.add_right_comm, Nat.add_assoc]

/-- A number of 16 bits in memory. -/
theorem HasBytes.uint16 {p : ℕ → UInt8} {a n : ℕ} (h : HasBytes p a (uint16ToBstream n)) :
    bytesToUint16 p a = u16 n := by
  obtain ⟨hlo, hhi⟩ := hasBytes_cons.mp h
  have hhi' := (hasBytes_cons.mp hhi).1
  unfold bytesToUint16 u16
  rw [hlo, hhi']
  simp only [UInt8.toNat_ofNat']
  omega

theorem memcpy_of_lt (p : ℕ → UInt8) {a i : ℕ} (l : List UInt8) (hi : i < a) :
    memcpy p a l i = p i :=
  if_neg fun h => Nat.not_le_of_lt hi h.1

/-- What is copied behind what was copied before. -/
theorem memcpy_memcpy (p : ℕ → UInt8) (a : ℕ) (l l' : List UInt8) :
    memcpy (memcpy p a l) (a + l.length) l' = memcpy p a (l ++ l') := by
  funext i
  unfold memcpy
  rw [List.length_append]
  by_cases hlt : i < a + l.length
  · rw [if_neg (by omega)]
    by_cases ha : a ≤ i
    · rw [if_pos ⟨ha, hlt⟩, if_pos ⟨ha, by omega⟩, List.getD_append _ _ _ _ (by omega)]
    · rw [if_neg fun h => ha h.1, if_neg fun h => ha h.1]
  · by_cases hend : i < a + l.length + l'.length
    · rw [if_pos ⟨by omega, hend⟩, if_pos ⟨by omega, by omega⟩,
        List.getD_append_right _ _ _ _ (by omega), Nat.sub_sub]
    · rw [if_neg fun h => hend h.2, if_neg fun h => hlt h.2, if_neg (by omega)]

theorem memcpy_singleton (p : ℕ → UInt8) (a : ℕ) (x : UInt8) :
    memcpy p a [x] = Function.update p a x := by
  funext i
  unfold memcpy
  by_cases h : i = a
  · subst h
    simp
  · rw [Function.update_of_ne h, if_neg]
    rintro ⟨hlo, hhi⟩
    rw [List.length_singleton] at hhi
    omega

theorem bytesToUint16_lt (p : ℕ → UInt8) (i : ℕ) : bytesToUint16 p i < 65536 := by
  have h0 := (p i).toNat_lt
  have h1 := (p (i + 1)).toNat_lt
  unfold bytesToUint16
  omega

/-! ## The system timer -/

/-- `SYSTEM_TIMER_TICK_1US` of the B91. The other chips, among them the TL321X that the demo of
the label is for, count 24 ticks. -/
def systemTimerTick1us : ℕ := 16

/-- `clock_time() | 1`. -/
def clockTimeOr1 (now : ℕ) : ℕ := u32 now ||| 1

/-- `clock_time_exceed`: at tick `now`, more than `us` microseconds passed since `ref`. -/
def clockTimeExceed (now ref us : ℕ) : Bool := us * systemTimerTick1us < u32Sub now ref

end Hci
end TlBleSdk
