import TlBleSdk.Hci.TrDef
import TlBleSdk.Lib.Ring
import TlBleSdk.Lib.Run

/-!
# The ring buffer of the shell

`ring_buf_t` of `app_parse_char.c`, which takes the bytes that the shell receives. A write and a
read copy up to two segments; a segment that leaves `buffer[0..size)` has no result here. The ring
is compared with a queue of at most `size - 1` bytes.
-/

namespace TlBleSdk.Eslp

open Hci

/-- `ring_buf_t`. -/
structure RingBuf where
  writeIndex : ℕ
  readIndex : ℕ
  size : ℕ
  buffer : ℕ → UInt8

/-- `ring_buf_init`. -/
def ringBufInit (size : ℕ) (buffer : ℕ → UInt8) : RingBuf := ⟨0, 0, size, buffer⟩

namespace RingBuf

/-- `ring_buf_free_space`. -/
def ringBufFreeSpace (r : RingBuf) : ℕ :=
  if r.readIndex > r.writeIndex then u16 (r.readIndex - r.writeIndex - 1)
  else if r.writeIndex > r.readIndex then
    u16 (r.readIndex + r.size + 65536 - r.writeIndex - 1)
  else u16 (r.size + 65536 - 1)

/-- A segment of a write: the bytes are copied to the write index, which goes on. -/
def writeSegment (r : RingBuf) (data : List UInt8) : Option RingBuf :=
  if r.writeIndex + data.length ≤ r.size then
    some { r with
      buffer := memcpy r.buffer r.writeIndex data
      writeIndex := u16 ((r.writeIndex + data.length) % r.size) }
  else none

/-- A segment of a read: `n` bytes at the read index, which goes on. -/
def readSegment (r : RingBuf) (n : ℕ) : Option (RingBuf × List UInt8) :=
  if r.readIndex + n ≤ r.size then
    some ({ r with readIndex := u16 ((r.readIndex + n) % r.size) }, bytesAt r.buffer r.readIndex n)
  else none

/-- The `len1` of a write with `freeSpace` places and `remaining` bytes. -/
def firstLen (r : RingBuf) (freeSpace remaining : ℕ) : ℕ :=
  let len1 := if freeSpace < r.size - r.writeIndex then freeSpace else r.size - r.writeIndex
  if len1 > remaining then remaining else len1

/-- `ring_buf_write` of `buffer`: the ring behind it, and the number that it returns. -/
def ringBufWrite (r : RingBuf) (buffer : List UInt8) : Option (RingBuf × ℕ) := do
  let freeSpace := r.ringBufFreeSpace
  let remaining := buffer.length
  let len1 := if r.writeIndex ≥ r.readIndex then r.firstLen freeSpace remaining else 0
  -- without the first segment nothing changes up to here
  let r ← if r.writeIndex ≥ r.readIndex then r.writeSegment (buffer.take len1) else some r
  let buffer := buffer.drop len1
  let remaining := remaining - len1
  let freeSpace := freeSpace - len1
  let len2 := if remaining < freeSpace then remaining else freeSpace
  let r ← r.writeSegment (buffer.take len2)
  return (r, len1 + len2)

/-- `ring_buf_read` of `length` bytes: the ring behind it, and the bytes read. It returns their
number. -/
def ringBufRead (r : RingBuf) (length : ℕ) : Option (RingBuf × List UInt8) := do
  let (r, first) ←
    if r.readIndex > r.writeIndex then
      let available := r.size - r.readIndex
      r.readSegment (if available > length then length else available)
    else some (r, [])
  let remaining := length - first.length
  let (r, second) ←
    if r.readIndex < r.writeIndex then
      let available := r.writeIndex - r.readIndex
      r.readSegment (if available > remaining then remaining else available)
    else some (r, [])
  return (r, first ++ second)

end RingBuf

/-- A call. Its length is of type `u16`. -/
inductive RingBufCall
  | write (buffer : List UInt8) (h : buffer.length < 65536)
  | read (length : ℕ) (h : length < 65536)

/-- What a call returns: the number, and the bytes that a read stores. -/
structure RingBufRet where
  count : ℕ
  bytes : List UInt8

/-- A call of the ring. -/
def RingBuf.call (r : RingBuf) : RingBufCall → Option (RingBuf × RingBufRet)
  | .write buffer _ => do
    let (r, n) ← r.ringBufWrite buffer
    return (r, ⟨n, []⟩)
  | .read length _ => do
    let (r, bytes) ← r.ringBufRead length
    return (r, ⟨bytes.length, bytes⟩)

/-! ## The queue -/

/-- A call of a queue that holds at most `cap` bytes: a write appends the first bytes that have a
place, a read takes the oldest ones. -/
def boundedQueue (cap : ℕ) (q : List UInt8) : RingBufCall → List UInt8 × RingBufRet
  | .write buffer _ =>
    (q ++ buffer.take (cap - q.length), ⟨min buffer.length (cap - q.length), []⟩)
  | .read length _ => (q.drop length, ⟨min length q.length, q.take length⟩)

/-- The queue `q` is in the ring: the indices are below the size, and one place is free. -/
structure RingBuf.Stores (size : ℕ) (r : RingBuf) (q : List UInt8) : Prop where
  size_eq : r.size = size
  size_lt : size < 65536
  write_lt : r.writeIndex < size
  read_lt : r.readIndex < size
  room : q.length < size
  holds : Ring.Holds size size r.buffer r.writeIndex r.readIndex q

namespace RingBuf.Stores

variable {size : ℕ} {r : RingBuf} {q : List UInt8}

theorem used_eq (h : Stores size r q) :
    (r.writeIndex + size - r.readIndex) % size = q.length :=
  h.holds.used_eq_of_lt h.room

/-- The indices by the number of bytes: the stored part does not wrap, or it wraps once. -/
theorem indices (h : Stores size r q) :
    (r.readIndex ≤ r.writeIndex ∧ r.writeIndex = r.readIndex + q.length) ∨
      (r.writeIndex < r.readIndex ∧ r.writeIndex + size = r.readIndex + q.length) := by
  have hused := h.used_eq
  have hw := h.write_lt
  have hr := h.read_lt
  rcases Nat.lt_or_ge r.writeIndex r.readIndex with hlt | hge
  · right
    rw [Nat.mod_eq_of_lt (by omega)] at hused
    exact ⟨hlt, by omega⟩
  · left
    rw [Nat.mod_eq_sub_mod (by omega), Nat.mod_eq_of_lt (by omega)] at hused
    exact ⟨hge, by omega⟩

theorem freeSpace_eq (h : Stores size r q) : r.ringBufFreeSpace = size - 1 - q.length := by
  have hroom := h.room
  have hlt := h.size_lt
  have hw := h.write_lt
  have hsize := h.size_eq
  unfold ringBufFreeSpace u16
  rcases h.indices with ⟨hle, heq⟩ | ⟨hgt, heq⟩
  · rw [if_neg (by omega)]
    split <;> omega
  · rw [if_pos hgt]
    omega

/-- A segment of a write that has its places, up to the end of the buffer at most. -/
theorem writeSegment (h : Stores size r q) (data : List UInt8)
    (hend : r.writeIndex + data.length ≤ size) (hroom : q.length + data.length < size) :
    ∃ r', r.writeSegment data = some r' ∧ Stores size r' (q ++ data) ∧
      r'.readIndex = r.readIndex := by
  have hlt := h.size_lt
  have hpos : 0 < size := Nat.lt_of_le_of_lt (Nat.zero_le _) h.write_lt
  have hmod := Nat.mod_lt (r.writeIndex + data.length) hpos
  have hread : ∀ k < q.length, ¬ (r.writeIndex ≤ (r.readIndex + k) % size ∧
      (r.readIndex + k) % size < r.writeIndex + data.length) := by
    -- the bytes stored lie behind the free places
    intro k hk hin
    have hr := h.read_lt
    rcases Nat.lt_or_ge (r.readIndex + k) size with hlo | hhi
    · rw [Nat.mod_eq_of_lt hlo] at hin
      rcases h.indices with ⟨_, _⟩ | ⟨_, _⟩
      · omega
      · omega
    · rw [Nat.mod_eq_sub_mod hhi, Nat.mod_eq_of_lt (by omega)] at hin
      rcases h.indices with ⟨_, _⟩ | ⟨_, _⟩
      · omega
      · omega
  refine ⟨_, if_pos (by rw [h.size_eq]; exact hend), ⟨h.size_eq, hlt, ?_, h.read_lt, ?_, ?_⟩, rfl⟩
  · show u16 ((r.writeIndex + data.length) % r.size) < size
    rw [h.size_eq, u16_of_lt (by omega)]
    exact hmod
  · rw [List.length_append]
    exact hroom
  · show Ring.Holds size size _ (u16 ((r.writeIndex + data.length) % r.size)) _ _
    rw [h.size_eq, u16_of_lt (by omega)]
    refine h.holds.append dvd_rfl hroom.le ?_ ?_
    · intro i hi
      show memcpy r.buffer r.writeIndex data _ = _
      rw [Nat.mod_eq_of_lt (by omega)]
      unfold memcpy
      rw [if_pos ⟨by omega, by omega⟩, Nat.add_sub_cancel_left, List.getD_eq_getElem _ _ hi]
    · intro k hk
      exact if_neg (hread k hk)

/-- A segment of a read, up to the end of the buffer at most. -/
theorem readSegment (h : Stores size r q) (n : ℕ) (hend : r.readIndex + n ≤ size)
    (hn : n ≤ q.length) :
    ∃ r', r.readSegment n = some (r', q.take n) ∧ Stores size r' (q.drop n) ∧
      r'.writeIndex = r.writeIndex ∧ r'.readIndex = (r.readIndex + n) % size := by
  have hlt := h.size_lt
  have hpos : 0 < size := Nat.lt_of_le_of_lt (Nat.zero_le _) h.write_lt
  have hmod := Nat.mod_lt (r.readIndex + n) hpos
  have hindex : u16 ((r.readIndex + n) % r.size) = (r.readIndex + n) % size := by
    rw [h.size_eq, u16_of_lt (by omega)]
  -- the segment does not wrap, so that its bytes are those of the queue
  have hbytes : bytesAt r.buffer r.readIndex n = q.take n := by
    apply List.ext_getElem
    · rw [length_bytesAt, List.length_take, Nat.min_eq_left hn]
    intro i hi hi'
    rw [length_bytesAt] at hi
    have hslot := h.holds.slot_eq dvd_rfl (k := i) (by omega)
    rw [Nat.mod_eq_of_lt (by omega)] at hslot
    rw [List.getElem_take, ← hslot]
    simp [bytesAt]
  refine ⟨{ r with readIndex := (r.readIndex + n) % size }, ?_,
    ⟨h.size_eq, hlt, h.write_lt, hmod, ?_, h.holds.drop hn⟩, rfl, rfl⟩
  · unfold RingBuf.readSegment
    rw [if_pos (by rw [h.size_eq]; exact hend), hbytes, hindex]
  · rw [List.length_drop]
    exact Nat.lt_of_le_of_lt (Nat.sub_le _ _) h.room

theorem ite_lt_eq_min (a b : ℕ) : (if a < b then a else b) = min a b := (min_def_lt a b).symm

theorem ite_gt_eq_min (a b : ℕ) : (if a > b then b else a) = min b a := (min_def_lt b a).symm

theorem firstLen_eq (h : Stores size r q) (freeSpace remaining : ℕ) :
    r.firstLen freeSpace remaining = min remaining (min freeSpace (size - r.writeIndex)) := by
  rw [firstLen, h.size_eq, ite_lt_eq_min, ite_gt_eq_min]

/-- The free places go on from the write index to the end, and from 0 on. -/
theorem ringBufWrite_around (h : Stores size r q) (buffer : List UInt8)
    (hle : r.readIndex ≤ r.writeIndex) (heq : r.writeIndex = r.readIndex + q.length) :
    ∃ r', r.ringBufWrite buffer = some (r', min buffer.length (size - 1 - q.length)) ∧
      Stores size r' (q ++ buffer.take (size - 1 - q.length)) := by
  have hfree := h.freeSpace_eq
  have hroom := h.room
  have hw := h.write_lt
  generalize hfs : size - 1 - q.length = freeSpace at hfree ⊢
  have hlen1 := h.firstLen_eq freeSpace buffer.length
  generalize r.firstLen freeSpace buffer.length = len1 at hlen1
  have htake : (buffer.take len1).length = len1 := by
    rw [List.length_take]
    omega
  -- the first segment takes the places up to the end
  obtain ⟨r1, hr1, hs1, hread1⟩ := h.writeSegment (buffer.take len1) (by omega) (by omega)
  generalize hlen2 : min (buffer.length - len1) (freeSpace - len1) = len2
  have htake2 : ((buffer.drop len1).take len2).length = len2 := by
    rw [List.length_take, List.length_drop]
    omega
  have hq1 : (q ++ buffer.take len1).length = q.length + len1 := by
    rw [List.length_append, htake]
  have hend : r1.writeIndex + len2 ≤ size := by
    -- a second segment begins at 0 and ends before the read index
    have hidx := hs1.indices
    rw [hq1, hread1] at hidx
    have hw1 := hs1.write_lt
    omega
  obtain ⟨r2, hr2, hs2, -⟩ := hs1.writeSegment ((buffer.drop len1).take len2) (by omega) (by omega)
  refine ⟨r2, ?_, ?_⟩
  · unfold RingBuf.ringBufWrite
    have hlen1' : r.firstLen freeSpace buffer.length = len1 := by
      rw [h.firstLen_eq, hlen1]
    simp only [if_pos hle, hfree, hlen1', hr1, Option.bind_eq_bind, Option.bind_some]
    rw [ite_lt_eq_min, hlen2, hr2]
    show some (r2, len1 + len2) = _
    congr 2
    omega
  · rw [List.append_assoc, ← List.take_add] at hs2
    have hsum : buffer.take (len1 + len2) = buffer.take freeSpace := by
      rw [List.take_eq_take_iff]
      omega
    rwa [hsum] at hs2

/-- The free places lie between the indices. -/
theorem ringBufWrite_between (h : Stores size r q) (buffer : List UInt8)
    (hgt : r.writeIndex < r.readIndex) (heq : r.writeIndex + size = r.readIndex + q.length) :
    ∃ r', r.ringBufWrite buffer = some (r', min buffer.length (size - 1 - q.length)) ∧
      Stores size r' (q ++ buffer.take (size - 1 - q.length)) := by
  have hfree := h.freeSpace_eq
  have hroom := h.room
  have hr := h.read_lt
  generalize hfs : size - 1 - q.length = freeSpace at hfree ⊢
  generalize hlen : min buffer.length freeSpace = len
  have htake : (buffer.take len).length = len := by
    rw [List.length_take]
    omega
  obtain ⟨r', hr', hs', -⟩ := h.writeSegment (buffer.take len) (by omega) (by omega)
  refine ⟨r', ?_, ?_⟩
  · unfold RingBuf.ringBufWrite
    have hng : ¬ r.writeIndex ≥ r.readIndex := by omega
    simp only [if_neg hng, hfree, Option.bind_eq_bind, Option.bind_some, List.drop_zero,
      Nat.sub_zero, Nat.zero_add]
    rw [ite_lt_eq_min, hlen, hr']
    rfl
  · have hsum : buffer.take len = buffer.take freeSpace := by
      rw [List.take_eq_take_iff]
      omega
    rwa [hsum] at hs'

/-- A write stores the first bytes that have a place. -/
theorem ringBufWrite (h : Stores size r q) (buffer : List UInt8) :
    ∃ r', r.ringBufWrite buffer = some (r', min buffer.length (size - 1 - q.length)) ∧
      Stores size r' (q ++ buffer.take (size - 1 - q.length)) := by
  rcases h.indices with ⟨hle, heq⟩ | ⟨hgt, heq⟩
  · exact h.ringBufWrite_around buffer hle heq
  · exact h.ringBufWrite_between buffer hgt heq

/-- The bytes of a read of `n` bytes are those of a read of `length` bytes if no more are there. -/
theorem take_drop_of_min {n length : ℕ} (q : List UInt8) (hn : n = min length q.length) :
    q.take n = q.take length ∧ q.drop n = q.drop length := by
  rw [List.take_eq_take_iff, List.drop_eq_drop_iff]
  omega

/-- The stored bytes lie between the indices: one segment at most. -/
theorem ringBufRead_between (h : Stores size r q) (length : ℕ)
    (hle : r.readIndex ≤ r.writeIndex) (heq : r.writeIndex = r.readIndex + q.length) :
    ∃ r', r.ringBufRead length = some (r', q.take length) ∧ Stores size r' (q.drop length) := by
  have hw := h.write_lt
  have hng : ¬ r.readIndex > r.writeIndex := by omega
  unfold RingBuf.ringBufRead
  simp only [if_neg hng, Option.bind_eq_bind, Option.bind_some, List.length_nil, Nat.sub_zero,
    ite_gt_eq_min]
  by_cases hne : r.readIndex < r.writeIndex
  · have hn : min length (r.writeIndex - r.readIndex) = min length q.length := by omega
    obtain ⟨r', hr', hs', -⟩ := h.readSegment (min length q.length) (by omega) (by omega)
    obtain ⟨htake, hdrop⟩ := take_drop_of_min q (rfl : _ = min length q.length)
    rw [htake] at hr'
    rw [hdrop] at hs'
    refine ⟨r', ?_, hs'⟩
    rw [if_pos hne, hn, hr']
    rfl
  · -- an empty ring
    have hq : q = [] := List.eq_nil_of_length_eq_zero (by omega)
    refine ⟨r, ?_, by rw [hq, List.drop_nil, ← hq]; exact h⟩
    rw [if_neg hne, hq, List.take_nil]
    rfl

/-- The stored bytes go on to the end of the buffer, and from 0 on. -/
theorem ringBufRead_around (h : Stores size r q) (length : ℕ)
    (hgt : r.writeIndex < r.readIndex) (heq : r.writeIndex + size = r.readIndex + q.length) :
    ∃ r', r.ringBufRead length = some (r', q.take length) ∧ Stores size r' (q.drop length) := by
  have hr := h.read_lt
  -- the first segment has the bytes up to the end
  generalize hn1 : min length (size - r.readIndex) = n1
  obtain ⟨r1, hr1, hs1, hwrite1, hread1⟩ := h.readSegment n1 (by omega) (by omega)
  have htake1 : (q.take n1).length = n1 := by
    rw [List.length_take]
    omega
  have hdrop1 : (q.drop n1).length = q.length - n1 := List.length_drop
  have hidx := hs1.indices
  rw [hdrop1] at hidx
  unfold RingBuf.ringBufRead
  simp only [if_pos hgt, h.size_eq, ite_gt_eq_min, hn1, hr1, Option.bind_eq_bind, Option.bind_some,
    htake1]
  by_cases hne : r1.readIndex < r1.writeIndex
  · -- the first segment went on to the end
    have hw1 := hs1.write_lt
    generalize hn2 : min (length - n1) (q.length - n1) = n2
    obtain ⟨r2, hr2, hs2, -⟩ := hs1.readSegment n2 (by omega) (by omega)
    have hsum : n1 + n2 = min length q.length := by omega
    obtain ⟨htake, hdrop⟩ := take_drop_of_min q hsum
    rw [List.take_add] at htake
    rw [List.drop_drop, hdrop] at hs2
    have havail : min (length - n1) (r1.writeIndex - r1.readIndex) = n2 := by omega
    refine ⟨r2, ?_, hs2⟩
    rw [if_pos hne, havail, hr2, ← htake]
    rfl
  · -- nothing is left, or no more is asked for
    have hsum : n1 = min length q.length := by
      by_cases hend : r.readIndex + n1 < size
      · omega
      · have hmod : (r.readIndex + n1) % size = 0 := by
          have hall : r.readIndex + n1 = size := by omega
          rw [hall, Nat.mod_self]
        omega
    obtain ⟨htake, hdrop⟩ := take_drop_of_min q hsum
    rw [hdrop] at hs1
    refine ⟨r1, ?_, hs1⟩
    rw [if_neg hne, ← htake]
    show some (r1, q.take n1 ++ []) = _
    rw [List.append_nil]

/-- A read takes the oldest bytes. -/
theorem ringBufRead (h : Stores size r q) (length : ℕ) :
    ∃ r', r.ringBufRead length = some (r', q.take length) ∧ Stores size r' (q.drop length) := by
  rcases h.indices with ⟨hle, heq⟩ | ⟨hgt, heq⟩
  · exact h.ringBufRead_between length hle heq
  · exact h.ringBufRead_around length hgt heq

/-- A call of the ring does what the queue does. -/
theorem call (h : Stores size r q) (c : RingBufCall) :
    ∃ r', r.call c = some (r', (boundedQueue (size - 1) q c).2) ∧
      Stores size r' (boundedQueue (size - 1) q c).1 := by
  cases c with
  | write buffer hlen =>
    obtain ⟨r', hr', hs'⟩ := h.ringBufWrite buffer
    refine ⟨r', ?_, hs'⟩
    unfold RingBuf.call
    simp only [hr', Option.bind_eq_bind, Option.bind_some]
    rfl
  | read length hlen =>
    obtain ⟨r', hr', hs'⟩ := h.ringBufRead length
    refine ⟨r', ?_, hs'⟩
    unfold RingBuf.call
    simp only [hr', Option.bind_eq_bind, Option.bind_some, List.length_take]
    rfl

end RingBuf.Stores

/-- For every size from 1 on and every sequence of writes and reads: the ring of the shell does
what a queue of `size - 1` bytes does, and touches no byte behind its buffer. -/
theorem ringBuf_refines {size : ℕ} (hpos : 1 ≤ size) (hlt : size < 65536) (buffer : ℕ → UInt8)
    (calls : List RingBufCall) :
    Machine.Refines RingBuf.call (boundedQueue (size - 1)) (RingBuf.Stores size)
      (ringBufInit size buffer) [] calls := by
  have hinit : RingBuf.Stores size (ringBufInit size buffer) [] :=
    ⟨rfl, hlt, hpos, hpos, hpos, Ring.Holds.empty _ _ _⟩
  have hok : Machine.Along (fun q c => (boundedQueue (size - 1) q c).1) (fun _ _ => True) []
      calls := Machine.along_true _ _
  exact Machine.refines_of_along (fun r q c h _ => h.call c) hinit hok

/-- A ring of three takes two of three bytes. -/
theorem ringBuf_refines_three :
    Machine.Refines RingBuf.call (boundedQueue 2) (RingBuf.Stores 3) (ringBufInit 3 fun _ => 0) []
      [.write [1, 2, 3] (by decide), .read 1 (by decide), .write [4, 5] (by decide)] :=
  @ringBuf_refines 3 (by decide) (by decide) _ _

end TlBleSdk.Eslp
