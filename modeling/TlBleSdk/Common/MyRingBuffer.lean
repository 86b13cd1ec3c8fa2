import TlBleSdk.Hci.TrDef
import TlBleSdk.Lib.Ring
import TlBleSdk.Lib.Run

/-!
# The byte ring of `utility.c`

`my_ring_buffer_*`: a ring of bytes whose indices are masked with `size - 1`, so that equal
indices mean an empty ring. `my_ring_buffer_free_len` is counted from `size`, one more than such
a ring can hold: pushing as many bytes as it announces makes the ring empty.

The fields are of type `u16`, and `my_ring_buffer_init` takes an `int`.
-/

namespace TlBleSdk.Common

open Hci

/-- `my_ring_buf_t`, with the array that its `p` points to. A size of 65536 or more is 0 in the
field `size`. -/
structure MyRingBuf where
  size : ℕ
  mask : ℕ
  wptr : ℕ
  rptr : ℕ
  p : ℕ → UInt8
  pow : ∃ k, k ≤ 16 ∧ mask = 2 ^ k - 1 ∧ size = u16 (2 ^ k)
  wptr_le : wptr ≤ mask
  rptr_le : rptr ≤ mask

/-- A power of two in the fields `size` and `mask`. -/
theorem ring_pow {s : ℕ} (h : ∃ k, s = 2 ^ k) :
    ∃ k, k ≤ 16 ∧ u16 (s - 1) = 2 ^ k - 1 ∧ u16 s = u16 (2 ^ k) := by
  obtain ⟨k, rfl⟩ := h
  have hpos : 0 < 2 ^ k := Nat.two_pow_pos k
  rcases Nat.lt_or_ge k 16 with hlt | hge
  · have hle : 2 ^ k ≤ 2 ^ 15 := Nat.pow_le_pow_right (by decide) (by omega)
    exact ⟨k, by omega, u16_of_lt (by omega), rfl⟩
  · -- from 16 on the power is a multiple of 65536
    obtain ⟨d, rfl⟩ := Nat.exists_eq_add_of_le hge
    have hd : 0 < 2 ^ d := Nat.two_pow_pos d
    rw [Nat.pow_add] at hpos ⊢
    refine ⟨16, le_rfl, ?_, ?_⟩
    · unfold u16
      omega
    · unfold u16
      omega

/-- `my_ring_buffer_init`. -/
def myRingBufferInit (p : ℕ → UInt8) (s : ℕ) (h : ∃ k, s = 2 ^ k) : MyRingBuf where
  size := u16 s
  mask := u16 (s - 1)
  wptr := 0
  rptr := 0
  p := p
  pow := ring_pow h
  wptr_le := Nat.zero_le _
  rptr_le := Nat.zero_le _

namespace MyRingBuf

/-- `(wptr - rptr) & mask`. -/
def used (f : MyRingBuf) : ℕ := (f.wptr + 65536 - f.rptr) &&& f.mask

/-- `my_ring_buffer_free_len`. -/
def freeLen (f : MyRingBuf) : ℕ := u16 (f.size + 65536 - f.used)

/-- `my_ring_buffer_data_len`. -/
def dataLen (f : MyRingBuf) : ℕ := u16 f.used

/-- `my_ring_buffer_push_byte`. -/
def pushByte (f : MyRingBuf) (data : UInt8) : MyRingBuf :=
  { f with
    p := Function.update f.p f.wptr data
    wptr := (f.wptr + 1) &&& f.mask
    wptr_le := Nat.and_le_right }

/-- `my_ring_buffer_push_bytes`. -/
def pushBytes (f : MyRingBuf) (data : List UInt8) : MyRingBuf := data.foldl pushByte f

/-- A byte of `my_ring_buffer_pull_bytes`, and the ring behind it. -/
def pullByte (f : MyRingBuf) : UInt8 × MyRingBuf :=
  (f.p f.rptr, { f with rptr := (f.rptr + 1) &&& f.mask, rptr_le := Nat.and_le_right })

/-- `my_ring_buffer_pull_bytes` of `n` bytes. -/
def pullBytes (f : MyRingBuf) : ℕ → List UInt8 × MyRingBuf
  | 0 => ([], f)
  | n + 1 =>
    let (data, f) := f.pullByte
    let (rest, f) := f.pullBytes n
    (data :: rest, f)

/-- `my_ring_buffer_delete`. -/
def delete (f : MyRingBuf) (n : ℕ) : MyRingBuf :=
  { f with rptr := (f.rptr + n) &&& f.mask, rptr_le := Nat.and_le_right }

/-- `my_ring_buffer_get`. -/
def get (f : MyRingBuf) (offset : ℕ) : UInt8 := f.p ((f.rptr + offset) &&& f.mask)

/-! ## The ring and the bytes in it -/

/-- The number of places, one for each index. -/
def places (f : MyRingBuf) : ℕ := f.mask + 1

theorem places_dvd (f : MyRingBuf) : f.places ∣ 65536 := by
  obtain ⟨k, hk, hmask, -⟩ := f.pow
  have hpos : 0 < 2 ^ k := Nat.two_pow_pos k
  have hplaces : f.places = 2 ^ k := by
    unfold places
    omega
  rw [hplaces, show 65536 = 2 ^ 16 from rfl]
  exact Nat.pow_dvd_pow 2 hk

theorem places_le (f : MyRingBuf) : f.places ≤ 65536 := Nat.le_of_dvd (by decide) f.places_dvd

theorem places_pos (f : MyRingBuf) : 0 < f.places := Nat.succ_pos _

/-- The size is the number of places, or 65536 places are the size 0. -/
theorem size_eq (f : MyRingBuf) : f.size = u16 f.places := by
  obtain ⟨k, -, hmask, hsize⟩ := f.pow
  have hpos : 0 < 2 ^ k := Nat.two_pow_pos k
  rw [hsize, places, hmask, Nat.sub_add_cancel hpos]

/-- Masking is reduction modulo the number of places. -/
theorem and_mask (f : MyRingBuf) (n : ℕ) : n &&& f.mask = n % f.places := by
  obtain ⟨k, -, hmask, -⟩ := f.pow
  have hpos : 0 < 2 ^ k := Nat.two_pow_pos k
  have hplaces : f.places = 2 ^ k := by
    unfold places
    omega
  rw [hmask, hplaces, Nat.and_two_pow_sub_one_eq_mod]

theorem used_eq (f : MyRingBuf) : f.used = (f.wptr + f.places - f.rptr) % f.places := by
  obtain ⟨d, hd⟩ := f.places_dvd
  have hd0 : 0 < d := by
    rcases Nat.eq_zero_or_pos d with rfl | h
    · omega
    · exact h
  have hr : f.rptr < f.places := Nat.lt_succ_of_le f.rptr_le
  have hsum : f.wptr + 65536 - f.rptr = f.wptr + f.places - f.rptr + f.places * (d - 1) := by
    have hmul : f.places * d = f.places + f.places * (d - 1) := by
      rw [Nat.add_comm, ← Nat.mul_succ, Nat.succ_eq_add_one, Nat.sub_add_cancel hd0]
    omega
  rw [used, f.and_mask, hsum, Nat.add_mul_mod_self_left]

theorem used_lt (f : MyRingBuf) : f.used < f.places := by
  rw [used, f.and_mask]
  exact Nat.mod_lt _ f.places_pos

theorem dataLen_eq (f : MyRingBuf) : f.dataLen = f.used :=
  u16_of_lt (Nat.lt_of_lt_of_le f.used_lt f.places_le)

/-- The bytes `q` wait in the ring. -/
def Waits (f : MyRingBuf) (q : List UInt8) : Prop :=
  Ring.Holds f.places f.places f.p f.wptr f.rptr q

variable {f : MyRingBuf} {q : List UInt8}

/-- As long as a place is free, the indices tell how many bytes wait. -/
theorem Waits.used (h : f.Waits q) (hlt : q.length < f.places) : f.used = q.length := by
  rw [used_eq]
  exact Ring.Holds.used_eq_of_lt h hlt

theorem Waits.pushByte (h : f.Waits q) (hlt : q.length < f.places) (data : UInt8) :
    (f.pushByte data).Waits (q ++ [data]) := by
  have hw : f.wptr % f.places = f.wptr := Nat.mod_eq_of_lt (Nat.lt_succ_of_le f.wptr_le)
  have hpush := Ring.Holds.push h dvd_rfl hlt data
  rw [hw] at hpush
  show Ring.Holds f.places f.places _ ((f.wptr + 1) &&& f.mask) f.rptr _
  rw [f.and_mask]
  exact hpush

/-- A push that leaves the places for all of its bytes. -/
theorem Waits.pushBytes (h : f.Waits q) {data : List UInt8}
    (hle : q.length + data.length ≤ f.places) :
    (f.pushBytes data).Waits (q ++ data) ∧ (f.pushBytes data).mask = f.mask ∧
      (f.pushBytes data).size = f.size := by
  induction data generalizing f q with
  | nil => exact ⟨by rwa [List.append_nil], rfl, rfl⟩
  | cons x data ih =>
    rw [List.length_cons] at hle
    have hplaces : (f.pushByte x).places = f.places := rfl
    have hnext := ih (h.pushByte (by omega) x) (by
      rw [hplaces, List.length_append, List.length_singleton]
      omega)
    rwa [List.append_assoc] at hnext

theorem Waits.delete (h : f.Waits q) {n : ℕ} (hn : n ≤ q.length) :
    (f.delete n).Waits (q.drop n) := by
  show Ring.Holds f.places f.places f.p f.wptr ((f.rptr + n) &&& f.mask) _
  rw [f.and_mask]
  exact Ring.Holds.drop h hn

theorem Waits.get (h : f.Waits q) {i : ℕ} (hi : i < q.length) : f.get i = q[i] := by
  unfold MyRingBuf.get
  rw [f.and_mask]
  exact Ring.Holds.slot_eq h dvd_rfl hi

/-- A pull is one deletion of a byte after the other. -/
theorem Waits.pullBytes (h : f.Waits q) {n : ℕ} (hn : n ≤ q.length) :
    (f.pullBytes n).1 = q.take n ∧ (f.pullBytes n).2.Waits (q.drop n) ∧
      (f.pullBytes n).2.mask = f.mask ∧ (f.pullBytes n).2.size = f.size := by
  induction n generalizing f q with
  | zero => exact ⟨rfl, h, rfl, rfl⟩
  | succ n ih =>
    cases q with
    | nil => exact absurd hn (by simp)
    | cons x q =>
      rw [List.length_cons] at hn
      have hx : f.p f.rptr = x := by
        have hget := h.get (i := 0) (by simp)
        have hr : (f.rptr + 0) &&& f.mask = f.rptr := by
          rw [f.and_mask]
          exact Nat.mod_eq_of_lt (Nat.lt_succ_of_le f.rptr_le)
        rwa [MyRingBuf.get, hr] at hget
      -- behind the oldest byte the others wait
      have htail : f.pullByte.2.Waits q := h.delete (n := 1) (by simp)
      obtain ⟨htake, hwaits, hmask, hsize⟩ := ih htail (by omega)
      refine ⟨?_, hwaits, hmask, hsize⟩
      show f.p f.rptr :: (f.pullByte.2.pullBytes n).1 = _
      rw [hx, htake, List.take_succ_cons]

end MyRingBuf

/-! ## Runs -/

/-- A call. `get` is a call of `my_ring_buffer_get`, which changes nothing. -/
inductive RingOp
  | push (data : List UInt8)
  | pull (n : ℕ)
  | delete (n : ℕ)
  | get (offset : ℕ)

/-- The ring, and the bytes pushed and not yet pulled or deleted. -/
structure RingRun where
  buf : MyRingBuf
  stored : List UInt8

/-- One call. -/
def ringStep (s : RingRun) : RingOp → RingRun
  | .push data => ⟨s.buf.pushBytes data, s.stored ++ data⟩
  | .pull n => ⟨(s.buf.pullBytes n).2, s.stored.drop n⟩
  | .delete n => ⟨s.buf.delete n, s.stored.drop n⟩
  | .get _ => s

namespace RingRun

/-- The ring of `my_ring_buffer_init`. -/
def init (p : ℕ → UInt8) (s : ℕ) (h : ∃ k, s = 2 ^ k) : RingRun := ⟨myRingBufferInit p s h, []⟩

/-- No more bytes are pushed than `my_ring_buffer_free_len` returns, and none taken or looked at
behind what `my_ring_buffer_data_len` returns. -/
def Accepted (s : RingRun) : RingOp → Prop
  | .push data => data.length ≤ s.buf.freeLen
  | .pull n => n ≤ s.buf.dataLen
  | .delete n => n ≤ s.buf.dataLen
  | .get offset => offset < s.buf.dataLen

instance : ∀ s op, Decidable (Accepted s op)
  | s, .push data => inferInstanceAs (Decidable (data.length ≤ s.buf.freeLen))
  | s, .pull n => inferInstanceAs (Decidable (n ≤ s.buf.dataLen))
  | s, .delete n => inferInstanceAs (Decidable (n ≤ s.buf.dataLen))
  | s, .get offset => inferInstanceAs (Decidable (offset < s.buf.dataLen))

/-- The ring shows the bytes stored, and as many. -/
def Shows (s : RingRun) : Prop :=
  s.buf.dataLen = s.stored.length ∧ ∀ i (h : i < s.stored.length), s.buf.get i = s.stored[i]

/-- A pull returns the oldest bytes, and the ring shows the bytes stored behind each call. -/
def StepOk (s : RingRun) (op : RingOp) : Prop :=
  (match op with
    | .pull n => (s.buf.pullBytes n).1 = s.stored.take n
    | .get offset => s.stored[offset]? = some (s.buf.get offset)
    | _ => True) ∧
  (ringStep s op).Shows

/-- A push leaves a free place, or pushes nothing. -/
def LeavesPlace (s : RingRun) : RingOp → Prop
  | .push data => data = [] ∨ data.length < s.buf.freeLen
  | _ => True

instance : ∀ s op, Decidable (LeavesPlace s op)
  | s, .push data => inferInstanceAs (Decidable (data = [] ∨ data.length < s.buf.freeLen))
  | _, .pull _ => inferInstanceAs (Decidable True)
  | _, .delete _ => inferInstanceAs (Decidable True)
  | _, .get _ => inferInstanceAs (Decidable True)

/-- The lengths add up to what the ring can hold, which `my_ring_buffer_is_full` compares with. -/
def CapacityOk (s : RingRun) : Prop := s.buf.freeLen + s.buf.dataLen = s.buf.mask

/-- The bytes wait in the ring, and one place at least is free. -/
structure Inv (s : RingRun) : Prop where
  waits : s.buf.Waits s.stored
  lt : s.stored.length < s.buf.places

/-- The lengths add up to the size, where a ring of the size 0 is empty. -/
def SumInv (s : RingRun) : Prop := s.buf.size = 0 → s.buf.wptr = s.buf.rptr

variable {s : RingRun}

theorem Inv.dataLen (h : s.Inv) : s.buf.dataLen = s.stored.length := by
  rw [MyRingBuf.dataLen_eq, h.waits.used h.lt]

theorem Inv.shows (h : s.Inv) : s.Shows := ⟨h.dataLen, fun _ hi => h.waits.get hi⟩

theorem SumInv.sum_eq (h : s.SumInv) : s.buf.freeLen + s.buf.dataLen = s.buf.size := by
  have hlt := s.buf.used_lt
  have hle := s.buf.places_le
  have hsize := s.buf.size_eq
  rw [MyRingBuf.dataLen_eq, MyRingBuf.freeLen]
  unfold u16 at hsize ⊢
  by_cases h0 : s.buf.size = 0
  · -- the indices are equal, so nothing is in the ring
    have hused : s.buf.used = 0 := by
      have hr : s.buf.rptr ≤ s.buf.mask := s.buf.rptr_le
      rw [MyRingBuf.used_eq, h h0, Nat.add_sub_cancel_left, Nat.mod_self]
    omega
  · omega

theorem size_pushBytes (f : MyRingBuf) (data : List UInt8) : (f.pushBytes data).size = f.size := by
  induction data generalizing f with
  | nil => rfl
  | cons x data ih => exact ih (f.pushByte x)

theorem size_pullBytes (f : MyRingBuf) (n : ℕ) : (f.pullBytes n).2.size = f.size := by
  induction n generalizing f with
  | zero => rfl
  | succ n ih => exact ih f.pullByte.2

/-- A call of a ring whose size is 0 pushes and takes nothing. -/
theorem SumInv.step (h : s.SumInv) {op : RingOp} (hop : s.Accepted op) :
    (ringStep s op).SumInv := by
  have hsum := h.sum_eq
  cases op with
  | push data =>
    intro h0
    cases data with
    | nil => exact h h0
    | cons x data =>
      have hzero : s.buf.size = 0 := (size_pushBytes s.buf (x :: data)).symm.trans h0
      have hlen : (x :: data).length ≤ s.buf.freeLen := hop
      rw [List.length_cons] at hlen
      omega
  | pull n =>
    have hn : n ≤ s.buf.dataLen := hop
    cases n with
    | zero => exact h
    | succ n =>
      intro h0
      have hzero : s.buf.size = 0 := (size_pullBytes s.buf (n + 1)).symm.trans h0
      omega
  | delete n =>
    intro h0
    have hzero : s.buf.size = 0 := h0
    have hn : n ≤ s.buf.dataLen := hop
    have hn0 : n = 0 := by omega
    have hr : s.buf.rptr % s.buf.places = s.buf.rptr :=
      Nat.mod_eq_of_lt (Nat.lt_succ_of_le s.buf.rptr_le)
    show s.buf.wptr = (s.buf.rptr + n) &&& s.buf.mask
    rw [s.buf.and_mask, hn0, Nat.add_zero, hr]
    exact h hzero
  | get offset => exact h

theorem Inv.step (h : s.Inv) {op : RingOp} (hop : s.Accepted op) (hplace : s.LeavesPlace op) :
    (ringStep s op).Inv := by
  have hlen := h.dataLen
  have hlt := h.lt
  cases op with
  | push data =>
    have hle := s.buf.places_le
    have hsize := s.buf.size_eq
    have hused := h.waits.used h.lt
    -- behind the push there is a free place
    have hfits : s.stored.length + data.length < s.buf.places := by
      rcases hplace with rfl | hplace
      · exact hlt
      · rw [MyRingBuf.freeLen, hused] at hplace
        unfold u16 at hsize hplace
        omega
    obtain ⟨hwaits, hmask, -⟩ := h.waits.pushBytes hfits.le
    refine ⟨hwaits, ?_⟩
    show (s.stored ++ data).length < (s.buf.pushBytes data).mask + 1
    rw [hmask, List.length_append]
    exact hfits
  | pull n =>
    have hn : n ≤ s.buf.dataLen := hop
    obtain ⟨-, hwaits, hmask, -⟩ := h.waits.pullBytes (hlen ▸ hn)
    refine ⟨hwaits, ?_⟩
    show (s.stored.drop n).length < (s.buf.pullBytes n).2.mask + 1
    rw [hmask, List.length_drop]
    exact Nat.lt_of_le_of_lt (Nat.sub_le _ _) hlt
  | delete n =>
    have hn : n ≤ s.buf.dataLen := hop
    refine ⟨h.waits.delete (hlen ▸ hn), ?_⟩
    show (s.stored.drop n).length < s.buf.places
    rw [List.length_drop]
    exact Nat.lt_of_le_of_lt (Nat.sub_le _ _) hlt
  | get offset => exact h

/-- A push of all the bytes that the ring announces leaves it without a byte to show. -/
theorem not_shows_of_full (h : s.Inv) {data : List UInt8} (hne : data ≠ [])
    (hfull : s.buf.freeLen ≤ data.length) (hop : data.length ≤ s.buf.freeLen) :
    ¬ (ringStep s (.push data)).Shows := by
  intro hshows
  have hpos := List.length_pos_of_ne_nil hne
  have hused := h.waits.used h.lt
  have hsize := s.buf.size_eq
  have hle := s.buf.places_le
  have hlt := h.lt
  -- behind the push the indices are equal, as in an empty ring
  have hall : s.stored.length + data.length = s.buf.places := by
    rw [MyRingBuf.freeLen, hused] at hfull hop
    unfold u16 at hsize hfull hop
    omega
  obtain ⟨-, hmask, -⟩ := h.waits.pushBytes hall.le
  have hdata := hshows.1
  have hbound := (s.buf.pushBytes data).used_lt
  rw [MyRingBuf.dataLen_eq] at hdata
  have hlen : (ringStep s (.push data)).stored.length = s.stored.length + data.length :=
    List.length_append
  have hplaces : (s.buf.pushBytes data).places = s.buf.places := congrArg (· + 1) hmask
  rw [hlen] at hdata
  have hdata' : (s.buf.pushBytes data).used = s.stored.length + data.length := hdata
  omega

theorem Inv.ok_iff (h : s.Inv) {op : RingOp} (hop : s.Accepted op) :
    s.StepOk op ↔ s.LeavesPlace op := by
  constructor
  · intro hok
    cases op with
    | push data =>
      by_cases hne : data = []
      · exact Or.inl hne
      · right
        by_contra hfull
        exact not_shows_of_full h hne (Nat.le_of_not_lt hfull) hop hok.2
    | pull n => trivial
    | delete n => trivial
    | get offset => trivial
  · intro hplace
    refine ⟨?_, (h.step hop hplace).shows⟩
    have hlen := h.dataLen
    cases op with
    | push data => trivial
    | pull n =>
      have hn : n ≤ s.buf.dataLen := hop
      exact (h.waits.pullBytes (hlen ▸ hn)).1
    | delete n => trivial
    | get offset =>
      have ho : offset < s.stored.length := hlen ▸ hop
      show s.stored[offset]? = some (s.buf.get offset)
      rw [List.getElem?_eq_getElem ho, h.waits.get ho]

theorem inv_init (p : ℕ → UInt8) (n : ℕ) (h : ∃ k, n = 2 ^ k) : (init p n h).Inv :=
  ⟨Ring.Holds.empty _ _ _, MyRingBuf.places_pos _⟩

theorem not_capacityOk (h : s.SumInv) : ¬ s.CapacityOk := by
  intro hcap
  have hsum := h.sum_eq
  have hsize := s.buf.size_eq
  have hle := s.buf.places_le
  have hplaces : s.buf.places = s.buf.mask + 1 := rfl
  unfold CapacityOk at hcap
  unfold u16 at hsize
  omega

/-- For every power of two and every sequence of calls that keep to the lengths returned: the ring
is the queue of the bytes pushed exactly if no push fills it up, and the lengths always add up to
the size, never to what the ring can hold. -/
theorem ringBuffer_iff (p : ℕ → UInt8) (n : ℕ) (h : ∃ k, n = 2 ^ k) (ops : List RingOp)
    (hops : Machine.Along ringStep Accepted (init p n h) ops) :
    (Machine.Along ringStep StepOk (init p n h) ops ↔
        Machine.Along ringStep LeavesPlace (init p n h) ops) ∧
      Machine.Always ringStep (fun s => s.buf.freeLen + s.buf.dataLen = s.buf.size) (init p n h)
        ops ∧
      Machine.Always ringStep (fun s => ¬ s.CapacityOk) (init p n h) ops := by
  have hsum : (init p n h).SumInv := fun _ => rfl
  refine ⟨?_, ?_, ?_⟩
  · exact Machine.along_congr_of_side (fun s op hs hop hplace => hs.step hop hplace)
      (fun s op hs hop => hs.ok_iff hop) (inv_init p n h) hops
  · exact Machine.always_of_invariant (fun s op hs hop => hs.step hop) (fun s hs => hs.sum_eq)
      hsum hops
  · exact Machine.always_of_invariant (fun s op hs hop => hs.step hop)
      (fun s hs => not_capacityOk hs) hsum hops

theorem two_pow_one : ∃ k, 2 = 2 ^ k := ⟨1, rfl⟩

/-- Bytes go through a ring of four and across its end. -/
theorem ringBuffer_iff_wrap :
    let s := init (fun _ => 0xEE) 4 ⟨2, rfl⟩
    let ops : List RingOp := [.push [1, 2, 3], .get 2, .pull 2, .push [4, 5], .get 2, .delete 1,
      .pull 2, .push [6]]
    Machine.Along ringStep StepOk s ops ∧
      Machine.Always ringStep (fun s => s.buf.freeLen + s.buf.dataLen = s.buf.size) s ops ∧
      Machine.Always ringStep (fun s => ¬ s.CapacityOk) s ops := by
  intro s ops
  have h := ringBuffer_iff (fun _ => 0xEE) 4 ⟨2, rfl⟩ ops (by decide)
  exact ⟨h.1.mpr (by decide), h.2⟩

/-- Two bytes fill a ring that announces two free bytes, and it shows none of them. -/
theorem not_ringBuffer_full :
    Machine.Along ringStep Accepted (init (fun _ => 0) 2 two_pow_one) [.push [7, 8]] ∧
      ¬ Machine.Along ringStep StepOk (init (fun _ => 0) 2 two_pow_one) [.push [7, 8]] := by
  refine ⟨by decide, fun h => ?_⟩
  have hlen := h.1.2.1
  revert hlen
  decide

end RingRun
end TlBleSdk.Common
