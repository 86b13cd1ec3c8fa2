import TlBleSdk.Hci.TrDef
import TlBleSdk.Lib.Ring

/-!
# The log FIFO

`my_fifo_t` as the log uses it: `num` slots of `size` bytes in one array, with `u8` read and
write pointers. A record is a header of four bytes, of which two are the length, and the bytes
behind it. Nothing keeps a record from being longer than its slot, so the array is modelled byte
by byte.
-/

namespace TlBleSdk.Debug

open Hci

/-- `my_fifo_t`, with the array of its slots. `num` is masked, so it is a power of two. -/
structure MyFifo where
  size : ℕ
  num : ℕ
  wptr : ℕ
  rptr : ℕ
  p : ℕ → UInt8
  size_lt : size < 65536
  num_pow : ∃ k, k ≤ 7 ∧ num = 2 ^ k
  wptr_lt : wptr < 256
  rptr_lt : rptr < 256

theorem sixteen_slots : ∃ k, k ≤ 7 ∧ 16 = 2 ^ k := ⟨4, by decide, rfl⟩

theorem slot_size_lt : 288 < 65536 := by decide

/-- `print_fifo` with the default `TLKAPI_DEBUG_FIFO_SIZE` and `TLKAPI_DEBUG_FIFO_NUM`. -/
def printFifo : MyFifo :=
  ⟨288, 16, 0, 0, fun _ => 0, slot_size_lt, sixteen_slots, zero_lt_256, zero_lt_256⟩

/-- What a producer writes to a slot: the length in the header, and the bytes behind the header. -/
structure LogRecord where
  len : ℕ
  body : List UInt8

/-- The bytes that the length of the header announces. -/
def LogRecord.payload (r : LogRecord) : List UInt8 := r.body.take r.len

/-- All bytes of a record: its length, two bytes zero, and the bytes behind them. -/
def LogRecord.image (r : LogRecord) : List UInt8 :=
  uint16ToBstream r.len ++ [0, 0] ++ r.body

namespace MyFifo

/-- The address of the slot of a pointer: `(ptr & (num - 1)) * size`. -/
def slot (f : MyFifo) (ptr : ℕ) : ℕ := (ptr &&& (f.num - 1)) * f.size

/-- The number of unread records, `(u8)(wptr - rptr)`. -/
def used (f : MyFifo) : ℕ := (f.wptr + 256 - f.rptr) % 256

/-- A record is written to the slot at `wptr`, and `wptr` goes on. -/
def log (f : MyFifo) (r : LogRecord) : MyFifo :=
  { f with
    p := memcpy f.p (f.slot f.wptr) r.image
    wptr := (f.wptr + 1) % 256
    wptr_lt := Nat.mod_lt _ (by decide) }

/-- `rptr` goes on. -/
def next (f : MyFifo) : MyFifo :=
  { f with rptr := (f.rptr + 1) % 256, rptr_lt := Nat.mod_lt _ (by decide) }

/-- Both pointers are set to zero. -/
def reset (f : MyFifo) : MyFifo :=
  { f with wptr := 0, rptr := 0, wptr_lt := zero_lt_256, rptr_lt := zero_lt_256 }

@[simp] theorem log_size (f : MyFifo) (r : LogRecord) : (f.log r).size = f.size := rfl

theorem num_dvd (f : MyFifo) : f.num ∣ 256 := by
  obtain ⟨k, hk, hnum⟩ := f.num_pow
  rw [hnum, show 256 = 2 ^ 8 from rfl]
  exact Nat.pow_dvd_pow 2 (by omega)

theorem num_lt (f : MyFifo) : f.num < 256 := by
  obtain ⟨k, hk, hnum⟩ := f.num_pow
  rw [hnum, show 256 = 2 ^ 8 from rfl]
  exact Nat.pow_lt_pow_right (by decide) (by omega)

/-- Masking a pointer reduces it modulo the number of slots. -/
theorem slot_eq (f : MyFifo) (ptr : ℕ) : f.slot ptr = ptr % f.num * f.size := by
  obtain ⟨k, -, hnum⟩ := f.num_pow
  rw [slot, hnum, Nat.and_two_pow_sub_one_eq_mod]

/-! ## What a write keeps -/

/-- The bytes of another slot stay as they are. -/
theorem log_apply {f : MyFifo} {r : LogRecord} (hfits : r.image.length ≤ f.size) {i k : ℕ}
    (hi : i ≠ f.wptr % f.num) (hk : k < f.size) :
    (f.log r).p (i * f.size + k) = f.p (i * f.size + k) := by
  show memcpy f.p (f.slot f.wptr) r.image _ = _
  rw [slot_eq]
  exact memcpy_slot_apply f.p hfits hi hk

/-- A part of another slot. -/
theorem bytesAt_log {f : MyFifo} {r : LogRecord} (hfits : r.image.length ≤ f.size) {i k n : ℕ}
    (hi : i ≠ f.wptr % f.num) (hk : k + n ≤ f.size) :
    bytesAt (f.log r).p (i * f.size + k) n = bytesAt f.p (i * f.size + k) n := by
  apply bytesAt_congr
  intro j hj
  rw [Nat.add_assoc]
  exact log_apply hfits hi (by omega)

/-! ## The entries -/

/-- The entry of a slot: as many bytes behind the header as it says. -/
def entry (f : MyFifo) (i : ℕ) : List UInt8 :=
  bytesAt f.p (i * f.size + 4) (bytesToUint16 f.p (i * f.size))

/-- The entry of the slot that was written. -/
theorem entry_log_self {f : MyFifo} {r : LogRecord} (hfits : r.image.length ≤ f.size)
    (hlen : r.len ≤ r.body.length) : (f.log r).entry (f.wptr % f.num) = r.payload := by
  have hsize := f.size_lt
  have himage : r.image.length = r.body.length + 4 := by
    simp [LogRecord.image, uint16ToBstream]
  have hp : ∀ k, (hk : k < r.image.length) →
      (f.log r).p (f.wptr % f.num * f.size + k) = r.image[k] := by
    intro k hk
    show memcpy f.p (f.slot f.wptr) r.image _ = _
    unfold memcpy
    rw [slot_eq, if_pos ⟨by omega, by omega⟩, Nat.add_sub_cancel_left, List.getD_eq_getElem _ _ hk]
  have hheader : bytesToUint16 (f.log r).p (f.wptr % f.num * f.size) = r.len := by
    unfold bytesToUint16
    rw [show f.wptr % f.num * f.size = f.wptr % f.num * f.size + 0 from rfl, hp 0 (by omega),
      Nat.add_assoc, hp 1 (by omega)]
    show (UInt8.ofNat r.len).toNat + (UInt8.ofNat (r.len / 256)).toNat * 256 = r.len
    simp only [UInt8.toNat_ofNat']
    omega
  unfold entry
  rw [log_size, hheader]
  apply List.ext_getElem
  · rw [length_bytesAt, LogRecord.payload, List.length_take, Nat.min_eq_left hlen]
  intro j hj _
  rw [length_bytesAt] at hj
  simp only [bytesAt, getElem_bytes]
  rw [Nat.add_assoc, hp (4 + j) (by omega)]
  simp only [LogRecord.payload, LogRecord.image, List.getElem_take]
  rw [List.getElem_append_right (by simp [uint16ToBstream])]
  simp [uint16ToBstream]

/-- The entry of another slot. -/
theorem entry_log_of_ne {f : MyFifo} {r : LogRecord} (hfits : r.image.length ≤ f.size) {i : ℕ}
    (hi : i ≠ f.wptr % f.num) (hentry : 4 + (f.entry i).length ≤ f.size) :
    (f.log r).entry i = f.entry i := by
  have hlen : (f.entry i).length = bytesToUint16 f.p (i * f.size) := by
    rw [entry, length_bytesAt]
  have hheader : bytesToUint16 (f.log r).p (i * f.size) = bytesToUint16 f.p (i * f.size) := by
    unfold bytesToUint16
    rw [show i * f.size = i * f.size + 0 from rfl, log_apply hfits hi (by omega), Nat.add_assoc,
      log_apply hfits hi (by omega)]
  rw [entry, log_size, hheader]
  exact bytesAt_log hfits hi (by omega)

/-! ## The history of the FIFO -/

/-- The FIFO holds the records of `hist` behind the first `taken`, each within its slot. -/
structure Holds (f : MyFifo) (hist : List (List UInt8)) (taken : ℕ) : Prop where
  tracks : Ring.Tracks 256 f.num f.entry f.wptr f.rptr hist taken
  fits : ∀ r ∈ hist, 4 + r.length ≤ f.size

namespace Holds

variable {f : MyFifo} {hist : List (List UInt8)} {taken : ℕ}

theorem reset (f : MyFifo) : f.reset.Holds [] 0 :=
  ⟨Ring.Tracks.empty _ _ _, fun _ hr => nomatch hr⟩

theorem used_eq (h : f.Holds hist taken) : f.used = hist.length - taken :=
  h.tracks.used_eq f.num_lt

theorem empty_iff (h : f.Holds hist taken) : f.wptr = f.rptr ↔ hist.length = taken :=
  h.tracks.wptr_eq_rptr_iff f.num_lt

/-- A record that fits its slot is written to a free slot. -/
theorem log (h : f.Holds hist taken) {r : LogRecord} (hfree : hist.length < taken + f.num)
    (hfits : r.image.length ≤ f.size) (hlen : r.len ≤ r.body.length) :
    (f.log r).Holds (hist ++ [r.payload]) taken := by
  have hw : f.wptr % f.num = hist.length % f.num := by
    rw [h.tracks.wptr_eq, Nat.mod_mod_of_dvd _ f.num_dvd]
  have hpush := h.tracks.push f.num_dvd hfree r.payload
  refine ⟨hpush.congr fun i hi htaken => ?_, fun r' hr' => ?_⟩
  · rw [List.length_append, List.length_singleton] at hi
    rcases Nat.lt_or_ge i hist.length with hlt | hge
    · have hne : i % f.num ≠ f.wptr % f.num := hw ▸ Ring.mod_ne_of_lt hlt (by omega)
      have hslot := h.tracks.slot i hlt htaken
      rw [Function.update_of_ne hne, hslot, ← hslot]
      apply entry_log_of_ne hfits hne
      rw [hslot]
      exact h.fits _ (List.getElem_mem _)
    · obtain rfl : i = hist.length := by omega
      rw [← hw, Function.update_self]
      exact entry_log_self hfits hlen
  · rcases List.mem_append.mp hr' with hr' | hr'
    · exact h.fits r' hr'
    · rw [List.mem_singleton.mp hr', LogRecord.payload, List.length_take, Nat.min_eq_left hlen]
      simp only [LogRecord.image, uint16ToBstream, List.length_append, List.length_cons,
        List.length_nil] at hfits
      show 4 + r.len ≤ f.size
      omega

/-- The oldest record is taken. -/
theorem next (h : f.Holds hist taken) (hlt : taken < hist.length) :
    f.next.Holds hist (taken + 1) :=
  ⟨h.tracks.take hlt, h.fits⟩

/-- The header and the bytes of the oldest record. -/
theorem front (h : f.Holds hist taken) (hlt : taken < hist.length) :
    bytesToUint16 f.p (f.slot f.rptr) = hist[taken].length ∧
      bytesAt f.p (f.slot f.rptr + 4) hist[taken].length = hist[taken] := by
  have hentry : f.entry (f.rptr % f.num) = hist[taken] :=
    h.tracks.slot_eq f.num_dvd (k := 0) hlt
  have hlen := congrArg List.length hentry
  rw [entry, length_bytesAt] at hlen
  rw [slot_eq]
  refine ⟨hlen, ?_⟩
  rw [← hlen]
  exact hentry

end Holds
end MyFifo
end TlBleSdk.Debug
