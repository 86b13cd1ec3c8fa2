import TlBleSdk.Hci.TrDef
import TlBleSdk.Lib.Ring

/-!
# HCI FIFOs

`hci_fifo_t`: a ring of `num` slots of `size` bytes with `u8` read and write pointers. The
stack accepts only powers of two below 256 for `num`, and `mask` is always `num - 1`, so
the structure carries the first as a field and defines the second. A slot is the byte list
last copied into it.
-/

namespace TlBleSdk.Hci

/-- `hci_fifo_t`. -/
structure HciFifo where
  size : ℕ
  num : ℕ
  wptr : ℕ
  rptr : ℕ
  p : ℕ → List UInt8
  num_pow : ∃ k, k ≤ 7 ∧ num = 2 ^ k
  wptr_lt : wptr < 256
  rptr_lt : rptr < 256

namespace HciFifo

theorem two_le_seven : 2 ≤ 7 := by decide

theorem three_le_seven : 3 ≤ 7 := by decide

/-- An empty FIFO of `2 ^ k` slots. -/
def empty (size k : ℕ) (hk : k ≤ 7) : HciFifo where
  size := size
  num := 2 ^ k
  wptr := 0
  rptr := 0
  p _ := []
  num_pow := ⟨k, hk, rfl⟩
  wptr_lt := zero_lt_256
  rptr_lt := zero_lt_256

/-- The `mask` field of `hci_fifo_t`. -/
def mask (f : HciFifo) : ℕ := f.num - 1

/-- The slot a pointer addresses: `p + (ptr & mask) * size`. -/
def slotIdx (f : HciFifo) (ptr : ℕ) : ℕ := ptr &&& f.mask

/-- The number of unread entries, `(u8)(wptr - rptr)`. -/
def used (f : HciFifo) : ℕ := (f.wptr + 256 - f.rptr) % 256

/-- Copy `e` into the slot at `wptr` and advance `wptr`. -/
def push (f : HciFifo) (e : List UInt8) : HciFifo where
  size := f.size
  num := f.num
  wptr := (f.wptr + 1) % 256
  rptr := f.rptr
  p := Function.update f.p (f.slotIdx f.wptr) e
  num_pow := f.num_pow
  wptr_lt := Nat.mod_lt _ (by decide)
  rptr_lt := f.rptr_lt

/-- Write `e` into the slot at `wptr`, which stays. -/
def write (f : HciFifo) (e : List UInt8) : HciFifo :=
  { f with p := Function.update f.p (f.slotIdx f.wptr) e }

/-- Advance `rptr` by `k`. -/
def drop (f : HciFifo) (k : ℕ) : HciFifo where
  size := f.size
  num := f.num
  wptr := f.wptr
  rptr := (f.rptr + k) % 256
  p := f.p
  num_pow := f.num_pow
  wptr_lt := f.wptr_lt
  rptr_lt := Nat.mod_lt _ (by decide)

/-- Both pointers set to zero. -/
def reset (f : HciFifo) : HciFifo :=
  { f with wptr := 0, rptr := 0, wptr_lt := zero_lt_256, rptr_lt := zero_lt_256 }

/-- The entry at the read pointer. -/
def front (f : HciFifo) : List UInt8 := f.p (f.slotIdx f.rptr)

@[simp] theorem push_num (f : HciFifo) (e : List UInt8) : (f.push e).num = f.num := rfl
@[simp] theorem push_rptr (f : HciFifo) (e : List UInt8) : (f.push e).rptr = f.rptr := rfl
@[simp] theorem push_size (f : HciFifo) (e : List UInt8) : (f.push e).size = f.size := rfl
@[simp] theorem drop_num (f : HciFifo) (k : ℕ) : (f.drop k).num = f.num := rfl
@[simp] theorem drop_wptr (f : HciFifo) (k : ℕ) : (f.drop k).wptr = f.wptr := rfl
@[simp] theorem drop_size (f : HciFifo) (k : ℕ) : (f.drop k).size = f.size := rfl
@[simp] theorem drop_p (f : HciFifo) (k : ℕ) : (f.drop k).p = f.p := rfl

theorem num_dvd (f : HciFifo) : f.num ∣ 256 := by
  obtain ⟨k, hk, hnum⟩ := f.num_pow
  rw [hnum, show 256 = 2 ^ 8 from rfl]
  exact Nat.pow_dvd_pow 2 (by omega)

theorem num_lt (f : HciFifo) : f.num < 256 := by
  obtain ⟨k, hk, hnum⟩ := f.num_pow
  rw [hnum, show 256 = 2 ^ 8 from rfl]
  exact Nat.pow_lt_pow_right (by decide) (by omega)

/-- Masking a pointer reduces it modulo the number of slots. -/
theorem slotIdx_eq (f : HciFifo) (ptr : ℕ) : f.slotIdx ptr = ptr % f.num := by
  obtain ⟨k, -, hnum⟩ := f.num_pow
  rw [slotIdx, mask, hnum, Nat.and_two_pow_sub_one_eq_mod]

/-- Dropping nothing is no change. -/
theorem drop_zero (f : HciFifo) : f.drop 0 = f := by
  cases f
  simp only [drop, Nat.add_zero, mk.injEq, true_and, and_true]
  exact Nat.mod_eq_of_lt (by assumption)

/-- A push into a FIFO that is not full. -/
theorem used_push {f : HciFifo} (h : f.used < f.num) (e : List UInt8) :
    (f.push e).used = f.used + 1 := by
  have hnum := f.num_lt
  have hw := f.wptr_lt
  have hr := f.rptr_lt
  unfold used at h ⊢
  show ((f.wptr + 1) % 256 + 256 - f.rptr) % 256 = _
  omega

@[simp] theorem foldl_push_num (f : HciFifo) (es : List (List UInt8)) :
    (es.foldl push f).num = f.num := by
  induction es generalizing f with
  | nil => rfl
  | cons e es ih => exact ih (f.push e)

/-! ## The history of a FIFO -/

/-- The FIFO holds the entries of `hist` behind the first `taken`. -/
def Holds (f : HciFifo) (hist : List (List UInt8)) (taken : ℕ) : Prop :=
  Ring.Tracks 256 f.num f.p f.wptr f.rptr hist taken

variable {f : HciFifo} {hist : List (List UInt8)} {taken : ℕ}

theorem Holds.used_eq (h : f.Holds hist taken) : f.used = hist.length - taken :=
  Ring.Tracks.used_eq h f.num_lt

theorem Holds.empty_iff (h : f.Holds hist taken) : f.wptr = f.rptr ↔ hist.length = taken :=
  Ring.Tracks.wptr_eq_rptr_iff h f.num_lt

theorem Holds.taken_le (h : f.Holds hist taken) : taken ≤ hist.length :=
  Ring.Tracks.taken_le h

theorem Holds.room (h : f.Holds hist taken) : hist.length ≤ taken + f.num :=
  Ring.Tracks.room h

/-- A push into a FIFO that is not full. -/
theorem Holds.push (h : f.Holds hist taken) (hfree : hist.length < taken + f.num)
    (e : List UInt8) : (f.push e).Holds (hist ++ [e]) taken := by
  have := Ring.Tracks.push h f.num_dvd hfree e
  rwa [← f.slotIdx_eq] at this

theorem Holds.write (h : f.Holds hist taken) (hfree : hist.length < taken + f.num)
    (e : List UInt8) : (f.write e).Holds hist taken := by
  have := Ring.Tracks.write h f.num_dvd hfree e
  rwa [← f.slotIdx_eq] at this

/-- As many pushes as there are free slots. -/
theorem Holds.foldl_push (h : f.Holds hist taken) {es : List (List UInt8)}
    (hfree : hist.length + es.length ≤ taken + f.num) :
    (es.foldl HciFifo.push f).Holds (hist ++ es) taken := by
  induction es generalizing f hist with
  | nil => simpa using h
  | cons e es ih =>
    rw [List.length_cons] at hfree
    have hnext := ih (h.push (by omega) e) (by
      rw [List.length_append, List.length_singleton]
      show _ ≤ taken + f.num
      omega)
    rwa [List.append_assoc] at hnext

theorem Holds.drop (h : f.Holds hist taken) {k : ℕ} (hk : taken + k ≤ hist.length) :
    (f.drop k).Holds hist (taken + k) :=
  Ring.Tracks.take h hk

/-- The slot `k` behind the read pointer. -/
theorem Holds.slot_eq (h : f.Holds hist taken) {k : ℕ} (hk : taken + k < hist.length) :
    f.p (f.slotIdx (f.rptr + k)) = hist[taken + k] := by
  rw [slotIdx_eq]
  exact Ring.Tracks.slot_eq h f.num_dvd hk

theorem Holds.front_eq (h : f.Holds hist taken) (hk : taken < hist.length) :
    f.front = hist[taken] := h.slot_eq (k := 0) hk

/-! ## The entries that wait -/

/-- The entries of `q` wait, the oldest first. -/
def Waits (f : HciFifo) (q : List (List UInt8)) : Prop :=
  Ring.Holds 256 f.num f.p f.wptr f.rptr q

variable {q : List (List UInt8)} {e : List UInt8}

theorem Waits.used_eq (h : f.Waits q) : f.used = q.length := Ring.Holds.used_eq h f.num_lt

theorem Waits.nil_iff (h : f.Waits q) : f.wptr = f.rptr ↔ q = [] :=
  eq_comm.trans (Ring.Holds.nil_iff h f.num_lt)

/-- A push into a FIFO that is not full. -/
theorem Waits.push (h : f.Waits q) (hfree : f.used < f.num) (e : List UInt8) :
    (f.push e).Waits (q ++ [e]) := by
  rw [h.used_eq] at hfree
  have := Ring.Holds.push h f.num_dvd hfree e
  rwa [← f.slotIdx_eq] at this

theorem Waits.front_eq (h : f.Waits (e :: q)) : f.front = e := by
  rw [front, slotIdx_eq]
  exact Ring.Holds.head h f.num_dvd

/-- The oldest entry goes. -/
theorem Waits.drop (h : f.Waits (e :: q)) : (f.drop 1).Waits q := Ring.Holds.tail h

/-- The `k` oldest entries go. -/
theorem Waits.dropMany (h : f.Waits q) {k : ℕ} (hk : k ≤ f.used) : (f.drop k).Waits (q.drop k) :=
  Ring.Holds.drop h (h.used_eq ▸ hk)

theorem Waits.length_le (h : f.Waits q) : q.length ≤ f.num := Ring.Holds.length_le h

/-- The slots between the pointers. -/
theorem Waits.eq_window (h : f.Waits q) :
    ((List.range f.used).map fun k => f.p (f.slotIdx (f.rptr + k))) = q := by
  simp only [slotIdx_eq]
  exact Ring.Holds.eq_window h f.num_dvd f.num_lt

theorem waits_empty (size k : ℕ) (hk : k ≤ 7) : (empty size k hk).Waits [] := .empty 256 _ _

/-- A FIFO whose pointers agree. -/
theorem waits_nil {f : HciFifo} (h : f.wptr = f.rptr) : f.Waits [] := by
  have hlt := f.wptr_lt
  refine ⟨List.replicate f.wptr [], f.wptr, ⟨?_, ?_, ?_, ?_, ?_⟩, ?_⟩
  · rw [List.length_replicate, Nat.mod_eq_of_lt hlt]
  · rw [← h, Nat.mod_eq_of_lt hlt]
  · rw [List.length_replicate]
  · rw [List.length_replicate]
    exact Nat.le_add_right _ _
  · intro i hi hle
    rw [List.length_replicate] at hi
    exact absurd hi (Nat.not_lt_of_le hle)
  · rw [List.drop_replicate, Nat.sub_self, List.replicate_zero]

theorem waits_reset (f : HciFifo) : f.reset.Waits [] := waits_nil rfl

end HciFifo
end TlBleSdk.Hci
