import TlBleSdk.Hci.TrDef
import TlBleSdk.Lib.Ring
import TlBleSdk.Lib.Run

/-!
# The FIFO of `utility.c`

`my_fifo_push` copies a record with its length to the next of `num` equal slots, `my_fifo_get`
returns the slot of the oldest record and `my_fifo_pop` gives it back. A run of these calls is
compared with the queue of the records that were pushed and not popped. The length check of
`my_fifo_push` counts the record without the two bytes of its length, and `my_fifo_pop` does not
look whether there is a record: `myFifo_iff` states when the FIFO is the queue all the same.
-/

namespace TlBleSdk.Common

open Hci

/-- The arguments of `my_fifo_init`: `size` is an `int` there, `num` is used as a mask, and the
array of the slots lies in an address space of 32 bits. -/
structure FifoArray where
  size : ℕ
  num : ℕ
  p : ℕ → UInt8
  size_lt : size < 2147483648
  num_pow : ∃ k, k ≤ 7 ∧ num = 2 ^ k
  array_le : num * size ≤ 4294967296

/-- `my_fifo_t`, with the array that its `p` points to. -/
structure MyFifo extends FifoArray where
  wptr : ℕ
  rptr : ℕ
  wptr_lt : wptr < 256
  rptr_lt : rptr < 256

/-- `my_fifo_init`. -/
def myFifoInit (a : FifoArray) : MyFifo :=
  { a with wptr := 0, rptr := 0, wptr_lt := zero_lt_256, rptr_lt := zero_lt_256 }

namespace MyFifo

/-- The address `(ptr & (num - 1)) * size`, computed in `u32`. -/
def slot (f : MyFifo) (ptr : ℕ) : ℕ := u32 ((ptr &&& (f.num - 1)) * f.size)

/-- `(wptr - rptr) & 255`. -/
def used (f : MyFifo) : ℕ := (f.wptr + 256 - f.rptr) % 256

/-- The copy of a record to the slot at `wptr`, behind its length, and `wptr++`. -/
def write (f : MyFifo) (data : List UInt8) : MyFifo :=
  { f with
    p := memcpy f.p (f.slot f.wptr) (uint16ToBstream data.length ++ data)
    wptr := u8 (f.wptr + 1)
    wptr_lt := u8_lt _ }

/-- `my_fifo_push` of the bytes `data`: the FIFO and what is returned. -/
def push (f : MyFifo) (data : List UInt8) : MyFifo × ℤ :=
  if f.used ≥ f.num then (f, -1)
  else if data.length ≥ f.size then (f, -1)
  else (f.write data, 0)

/-- `my_fifo_pop`. -/
def pop (f : MyFifo) : MyFifo := { f with rptr := u8 (f.rptr + 1), rptr_lt := u8_lt _ }

/-- `my_fifo_get`: the address of a slot, or none for the null pointer. -/
def get (f : MyFifo) : Option ℕ := if f.rptr ≠ f.wptr then some (f.slot f.rptr) else none

/-- The record at an address: as many bytes as the two before them say. -/
def recordAt (f : MyFifo) (a : ℕ) : List UInt8 := bytesAt f.p (a + 2) (bytesToUint16 f.p a)

/-- The record that the caller of `my_fifo_get` finds. -/
def front (f : MyFifo) : Option (List UInt8) := f.get.map f.recordAt

/-- `my_fifo_push` does not return early. -/
def Takes (f : MyFifo) (data : List UInt8) : Prop := f.used < f.num ∧ data.length < f.size

theorem push_of_takes {f : MyFifo} {data : List UInt8} (h : f.Takes data) :
    f.push data = (f.write data, 0) := by
  unfold push
  rw [if_neg (Nat.not_le_of_lt h.1), if_neg (Nat.not_le_of_lt h.2)]

theorem push_of_not_takes {f : MyFifo} {data : List UInt8} (h : ¬ f.Takes data) :
    f.push data = (f, -1) := by
  unfold push
  split
  · rfl
  · rename_i hfree
    rw [if_pos]
    exact Nat.le_of_not_lt fun hlt => h ⟨Nat.lt_of_not_le hfree, hlt⟩

/-! ## Slots -/

theorem num_dvd (f : MyFifo) : f.num ∣ 256 := by
  obtain ⟨k, hk, hnum⟩ := f.num_pow
  rw [hnum, show 256 = 2 ^ 8 from rfl]
  exact Nat.pow_dvd_pow 2 (by omega)

theorem num_lt (f : MyFifo) : f.num < 256 := by
  obtain ⟨k, hk, hnum⟩ := f.num_pow
  rw [hnum, show 256 = 2 ^ 8 from rfl]
  exact Nat.pow_lt_pow_right (by decide) (by omega)

theorem num_pos (f : MyFifo) : 0 < f.num := by
  obtain ⟨k, -, hnum⟩ := f.num_pow
  rw [hnum]
  exact Nat.two_pow_pos k

/-- Slot `ptr % num` begins at its multiple of `size`. -/
theorem slot_eq (f : MyFifo) (ptr : ℕ) : f.slot ptr = ptr % f.num * f.size := by
  obtain ⟨k, -, hnum⟩ := f.num_pow
  have hmask : ptr &&& (f.num - 1) = ptr % f.num := by rw [hnum, Nat.and_two_pow_sub_one_eq_mod]
  rw [slot, hmask]
  apply u32_of_lt
  have hlt : ptr % f.num < f.num := Nat.mod_lt _ f.num_pos
  rcases Nat.eq_zero_or_pos f.size with hzero | hpos
  · rw [hzero, Nat.mul_zero]
    decide
  · exact Nat.lt_of_lt_of_le (Nat.mul_lt_mul_of_pos_right hlt hpos) f.array_le

/-- The record in slot `i`. -/
def entry (f : MyFifo) (i : ℕ) : List UInt8 := f.recordAt (i * f.size)

theorem length_recordAt (f : MyFifo) (a : ℕ) :
    (f.recordAt a).length = bytesToUint16 f.p a := length_bytesAt _ _ _

/-! ## What a push writes -/

variable {f : MyFifo} {data : List UInt8}

/-- A record and its length fit a slot. -/
def RecordFits (f : MyFifo) (data : List UInt8) : Prop :=
  data.length + 2 ≤ f.size ∧ data.length < 65536

instance : Decidable (f.RecordFits data) := inferInstanceAs (Decidable (_ ∧ _))

theorem length_image (data : List UInt8) :
    (uint16ToBstream data.length ++ data).length = data.length + 2 := by
  rw [List.length_append, Nat.add_comm]
  rfl

/-- The bytes of another slot stay as they are. -/
theorem write_apply (hfits : data.length + 2 ≤ f.size) {i k : ℕ} (hi : i ≠ f.wptr % f.num)
    (hk : k < f.size) : (f.write data).p (i * f.size + k) = f.p (i * f.size + k) := by
  show memcpy f.p (f.slot f.wptr) _ _ = _
  rw [slot_eq]
  exact memcpy_slot_apply f.p (by rw [length_image]; exact hfits) hi hk

/-- The record of another slot stays as it is. -/
theorem entry_write_of_ne (hfits : data.length + 2 ≤ f.size) {i : ℕ} (hi : i ≠ f.wptr % f.num)
    (hentry : (f.entry i).length + 2 ≤ f.size) : (f.write data).entry i = f.entry i := by
  have hlen : (f.entry i).length = bytesToUint16 f.p (i * f.size) := length_recordAt f _
  have hheader : bytesToUint16 (f.write data).p (i * f.size) =
      bytesToUint16 f.p (i * f.size) :=
    bytesToUint16_congr (write_apply hfits hi (k := 0) (by omega))
      (write_apply hfits hi (by omega))
  show bytesAt (f.write data).p (i * f.size + 2) (bytesToUint16 (f.write data).p (i * f.size)) = _
  rw [hheader]
  apply bytesAt_congr
  intro j hj
  rw [Nat.add_assoc]
  exact write_apply hfits hi (by omega)

/-- The length in front of the record that was written. -/
theorem header_write (f : MyFifo) (data : List UInt8) :
    bytesToUint16 (f.write data).p (f.slot f.wptr) = u16 data.length := by
  have himage := length_image data
  have hp : ∀ k < 2, (f.write data).p (f.slot f.wptr + k) =
      (uint16ToBstream data.length ++ data).getD k 0 := by
    intro k hk
    show memcpy f.p (f.slot f.wptr) _ _ = _
    unfold memcpy
    rw [if_pos ⟨by omega, by omega⟩, Nat.add_sub_cancel_left]
  unfold bytesToUint16
  rw [hp 1 (by decide), show (f.write data).p (f.slot f.wptr) = _ from hp 0 (by decide)]
  show (UInt8.ofNat data.length).toNat + (UInt8.ofNat (data.length / 256)).toNat * 256 = _
  simp only [UInt8.toNat_ofNat', u16]
  omega

/-- The record that was written. -/
theorem entry_write_self (hlen : data.length < 65536) :
    (f.write data).entry (f.wptr % f.num) = data := by
  have hheader := header_write f data
  rw [u16_of_lt hlen] at hheader
  show (f.write data).recordAt (f.wptr % f.num * f.size) = data
  rw [← slot_eq, recordAt, hheader]
  have hall := bytesAt_memcpy_self f.p (f.slot f.wptr) (uint16ToBstream data.length ++ data)
  rw [length_image, Nat.add_comm, bytesAt, bytes_add] at hall
  have hbody := (List.append_inj hall (Hci.length_bytes _ _)).2
  refine Eq.trans (bytes_congr fun i _ => ?_) hbody
  rw [Nat.add_assoc]
  rfl

end MyFifo

/-! ## Runs -/

inductive FifoOp where
  | push (data : List UInt8)
  | get
  | pop

/-- The FIFO, and the records that were pushed and not popped, the oldest first. -/
structure FifoRun where
  fifo : MyFifo
  stored : List (List UInt8)

/-- One call. -/
def fifoStep (s : FifoRun) : FifoOp → FifoRun
  | .push data =>
    ⟨(s.fifo.push data).1,
      if (s.fifo.push data).2 = 0 then s.stored ++ [data] else s.stored⟩
  | .get => s
  | .pop => ⟨s.fifo.pop, s.stored.tail⟩

theorem fifoStep_push {s : FifoRun} {data : List UInt8} (h : s.fifo.Takes data) :
    fifoStep s (.push data) = ⟨s.fifo.write data, s.stored ++ [data]⟩ := by
  dsimp only [fifoStep]
  rw [MyFifo.push_of_takes h]
  rfl

theorem fifoStep_push_of_not {s : FifoRun} {data : List UInt8} (h : ¬ s.fifo.Takes data) :
    fifoStep s (.push data) = s := by
  dsimp only [fifoStep]
  rw [MyFifo.push_of_not_takes h]
  rfl

namespace FifoRun

/-- The FIFO of `my_fifo_init`, without records. -/
def init (a : FifoArray) : FifoRun := ⟨myFifoInit a, []⟩

/-- `my_fifo_get` returns the oldest record. -/
def Serves (s : FifoRun) : Prop := s.fifo.front = s.stored.head?

/-- `my_fifo_get` returns the oldest record now, and after each of the pops that empty the FIFO. -/
def ServesAll (s : FifoRun) : Prop :=
  Machine.Always fifoStep Serves s (.replicate s.stored.length .pop)

/-- What is promised of a call: a push fails exactly if `num` records are stored or the record and
its length do not fit the slot, and else changes bytes of its own slot only. -/
def Returns (s : FifoRun) : FifoOp → Prop
  | .push data =>
    ((s.fifo.push data).2 = -1 ↔
      s.stored.length = s.fifo.num ∨ s.fifo.size < data.length + 2) ∧
    ((s.fifo.push data).2 ≠ -1 → ∀ a,
      a < s.fifo.slot s.fifo.wptr ∨ s.fifo.slot s.fifo.wptr + s.fifo.size ≤ a →
      (s.fifo.push data).1.p a = s.fifo.p a)
  | .get => True
  | .pop => True

/-- The call is right, and so are those of `my_fifo_get` behind it. -/
def StepOk (s : FifoRun) (op : FifoOp) : Prop := s.Returns op ∧ (fifoStep s op).ServesAll

/-- A record that passes the length check fits its slot with its length, and nothing is popped of
an empty FIFO. -/
def Fits (s : FifoRun) : FifoOp → Prop
  | .push data =>
    s.stored.length < s.fifo.num → data.length < s.fifo.size → s.fifo.RecordFits data
  | .get => True
  | .pop => s.stored ≠ []

/-! ## The invariant -/

/-- The slots hold the stored records, each with its length. -/
structure Inv (s : FifoRun) : Prop where
  holds : Ring.Holds 256 s.fifo.num s.fifo.entry s.fifo.wptr s.fifo.rptr s.stored
  fits : ∀ r ∈ s.stored, s.fifo.RecordFits r

theorem inv_init (a : FifoArray) : (init a).Inv :=
  ⟨Ring.Holds.empty _ _ _, fun _ hr => nomatch hr⟩

namespace Inv

variable {s : FifoRun} {data : List UInt8}

theorem used_eq (h : s.Inv) : s.fifo.used = s.stored.length := h.holds.used_eq s.fifo.num_lt

theorem serves (h : s.Inv) : s.Serves := by
  unfold Serves MyFifo.front MyFifo.get
  have hnil := h.holds.nil_iff s.fifo.num_lt
  cases hstored : s.stored with
  | nil =>
    rw [if_neg (fun hne => hne (hnil.mpr hstored))]
    rfl
  | cons r q =>
    have hne : s.fifo.rptr ≠ s.fifo.wptr := by
      intro heq
      rw [hnil.mp heq] at hstored
      cases hstored
    have hhead : s.fifo.entry (s.fifo.rptr % s.fifo.num) = r :=
      (hstored ▸ h.holds : Ring.Holds _ _ _ _ _ (r :: q)).head s.fifo.num_dvd
    rw [if_pos hne, Option.map_some, MyFifo.slot_eq]
    exact congrArg some hhead

theorem pop (h : s.Inv) (hne : s.stored ≠ []) : (fifoStep s .pop).Inv := by
  obtain ⟨r, q, hstored⟩ := List.exists_cons_of_ne_nil hne
  refine ⟨?_, fun r' hr' => h.fits r' (List.mem_of_mem_tail hr')⟩
  show Ring.Holds _ _ _ _ _ s.stored.tail
  rw [hstored]
  exact (hstored ▸ h.holds : Ring.Holds _ _ _ _ _ (r :: q)).tail

/-- The run that pops all records meets no empty FIFO. -/
theorem along_pops (s : FifoRun) :
    Machine.Along fifoStep Fits s (.replicate s.stored.length .pop) := by
  generalize hn : s.stored.length = n
  induction n generalizing s with
  | zero => trivial
  | succ n ih =>
    refine ⟨fun hnil => ?_, ih _ ?_⟩
    · rw [hnil] at hn
      cases hn
    · show s.stored.tail.length = n
      rw [List.length_tail, hn]
      rfl

/-- A free slot takes a record that fits. -/
theorem write (h : s.Inv) (hfree : s.stored.length < s.fifo.num) (hfits : s.fifo.RecordFits data) :
    Inv ⟨s.fifo.write data, s.stored ++ [data]⟩ := by
  have hw := h.holds.wptr_mod s.fifo.num_dvd
  refine ⟨?_, fun r hr => ?_⟩
  · refine (h.holds.push s.fifo.num_dvd hfree data).congr s.fifo.num_dvd fun k hk => ?_
    rw [List.length_append, List.length_singleton] at hk
    rcases Nat.lt_or_ge k s.stored.length with hlt | hge
    · -- an older record, in another slot
      have hne : (s.fifo.rptr + k) % s.fifo.num ≠ s.fifo.wptr % s.fifo.num :=
        hw ▸ Ring.mod_ne_of_lt (by omega) (by omega)
      have hslot := h.holds.slot_eq s.fifo.num_dvd hlt
      rw [Function.update_of_ne hne]
      apply MyFifo.entry_write_of_ne hfits.1 hne
      rw [hslot]
      exact (h.fits _ (List.getElem_mem _)).1
    · obtain rfl : k = s.stored.length := by omega
      rw [← hw, Function.update_self]
      exact MyFifo.entry_write_self hfits.2
  · rcases List.mem_append.mp hr with hr | hr
    · exact h.fits r hr
    · rw [List.mem_singleton.mp hr]
      exact hfits

/-- A step that meets `Fits` keeps the invariant. -/
theorem step (h : s.Inv) {op : FifoOp} (hok : s.Fits op) : (fifoStep s op).Inv := by
  cases op with
  | push data =>
    by_cases htakes : s.fifo.Takes data
    · rw [fifoStep_push htakes]
      have hfree := h.used_eq ▸ htakes.1
      exact h.write hfree (hok hfree htakes.2)
    · rw [fifoStep_push_of_not htakes]
      exact h
  | get => exact h
  | pop => exact h.pop hok

theorem servesAll (h : s.Inv) : s.ServesAll :=
  Machine.always_of_invariant (fun _ _ hs hok => hs.step hok) (fun _ hs => hs.serves) h
    (along_pops s)

theorem returns (h : s.Inv) {op : FifoOp} (hok : s.Fits op) : s.Returns op := by
  cases op with
  | push data =>
    have hused := h.used_eq
    have hroom := h.holds.length_le
    by_cases htakes : s.fifo.Takes data
    · obtain ⟨hfree, hlen⟩ := htakes
      have hfits := hok (hused ▸ hfree) hlen
      rw [Returns, MyFifo.push_of_takes ⟨hfree, hlen⟩]
      refine ⟨⟨fun hret => (nomatch hret), fun hfull => ?_⟩, fun _ a ha => ?_⟩
      · have hle := hfits.1
        omega
      · show memcpy s.fifo.p _ _ a = _
        unfold memcpy
        rw [if_neg]
        have hle := hfits.1
        rw [MyFifo.length_image]
        omega
    · rw [Returns, MyFifo.push_of_not_takes htakes]
      refine ⟨⟨fun _ => ?_, fun _ => rfl⟩, fun hret => absurd rfl hret⟩
      unfold MyFifo.Takes at htakes
      omega
  | get => trivial
  | pop => trivial

end Inv

/-! ## What the promise needs -/

/-- A record that is served has a length of two bytes. -/
theorem length_lt_of_serves {s : FifoRun} {r : List UInt8} {q : List (List UInt8)}
    (h : s.Serves) (hstored : s.stored = r :: q) : r.length < 65536 := by
  unfold Serves MyFifo.front at h
  rw [hstored, List.head?_cons] at h
  obtain ⟨a, -, ha⟩ := Option.map_eq_some_iff.mp h
  rw [← ha, MyFifo.length_recordAt]
  exact bytesToUint16_lt _ _

theorem length_lt_of_servesAll {s : FifoRun} (h : s.ServesAll) {r : List UInt8}
    (hr : r ∈ s.stored) : r.length < 65536 := by
  unfold ServesAll at h
  generalize hn : s.stored.length = n at h
  induction n generalizing s with
  | zero =>
    rw [List.eq_nil_of_length_eq_zero hn] at hr
    cases hr
  | succ n ih =>
    obtain ⟨x, q, hstored⟩ := List.exists_cons_of_length_eq_add_one hn
    rw [hstored] at hr
    rcases List.mem_cons.mp hr with rfl | hr
    · exact length_lt_of_serves h.1 hstored
    · have htail : (fifoStep s .pop).stored = q := congrArg List.tail hstored
      rw [hstored, List.length_cons] at hn
      exact ih (htail ▸ hr) (by rw [htail]; omega) h.2

/-- Only a step that meets `Fits` does what is promised. -/
theorem Inv.fits_of_ok {s : FifoRun} (h : s.Inv) {op : FifoOp} (hok : s.StepOk op) :
    s.Fits op := by
  obtain ⟨hreturns, hserves⟩ := hok
  cases op with
  | push data =>
    intro hfree hlen
    have htakes : s.fifo.Takes data := ⟨h.used_eq ▸ hfree, hlen⟩
    rw [Returns, MyFifo.push_of_takes htakes] at hreturns
    rw [fifoStep_push htakes] at hserves
    have hmem : data ∈ s.stored ++ [data] := List.mem_append_right _ (List.mem_singleton_self _)
    refine ⟨?_, length_lt_of_servesAll hserves hmem⟩
    by_contra hlong
    have hret := hreturns.1.mpr (Or.inr (by omega))
    cases hret
  | get => trivial
  | pop =>
    intro hnil
    -- the read pointer passes the write pointer, and a slot is returned
    have heq := (h.holds.nil_iff s.fifo.num_lt).mpr hnil
    have hptr : u8 (s.fifo.rptr + 1) ≠ s.fifo.wptr := by
      have hlt := s.fifo.wptr_lt
      rw [heq, u8]
      omega
    have hget : (fifoStep s .pop).fifo.get = some (s.fifo.pop.slot (u8 (s.fifo.rptr + 1))) :=
      if_pos hptr
    have hfront : (fifoStep s .pop).fifo.front = s.stored.tail.head? := hserves.head
    rw [MyFifo.front, hget, hnil] at hfront
    cases hfront

theorem Inv.ok_iff {s : FifoRun} (h : s.Inv) (op : FifoOp) : s.StepOk op ↔ s.Fits op :=
  ⟨h.fits_of_ok, fun hok => ⟨h.returns hok, (h.step hok).servesAll⟩⟩

end FifoRun

open FifoRun in
/-- In every sequence of calls each call does what is promised, and `my_fifo_get` serves the
records in order with their lengths, exactly if no record that passes the length check is too long
for a free slot with the two bytes of its length, and nothing is popped of an empty FIFO. -/
theorem myFifo_iff (a : FifoArray) (ops : List FifoOp) :
    Machine.Along fifoStep StepOk (init a) ops ↔ Machine.Along fifoStep Fits (init a) ops :=
  Machine.along_congr_of_invariant (fun _ _ h hok => h.step hok) (fun _ op h => h.ok_iff op)
    (inv_init a)

/-- Two slots of 4 bytes. -/
def twoSlots : FifoArray :=
  ⟨4, 2, fun _ => 0, by decide, ⟨1, by decide, rfl⟩, by decide⟩

/-- A record of 3 bytes is taken to a slot of 4, and its last byte becomes the length of the
record of 2 bytes in the next slot. -/
theorem not_myFifo_overflow :
    ¬ Machine.Along fifoStep FifoRun.StepOk (FifoRun.init twoSlots)
      [.push [7, 7], .push [8, 8], .pop, .push [1, 2, 1]] := by
  intro h
  have hserves := h.2.2.2.1.2.head
  revert hserves
  unfold FifoRun.Serves
  decide +kernel
end TlBleSdk.Common
