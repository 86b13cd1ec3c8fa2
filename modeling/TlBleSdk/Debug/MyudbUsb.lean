import TlBleSdk.Debug.PrintFifo
import TlBleSdk.Lib.Run
import Mathlib.Data.List.Infix

/-!
# The log over USB

`myudb_usb.c`: the producers of records and `myudb_to_usb`, which sends a record in packets of up
to 64 bytes. A packet shorter than that ends the record.
-/

namespace TlBleSdk.Debug

open Hci

/-! ## Records -/

/-- `a - b` on `u32`. -/
def sub32 (a b : ℕ) : ℕ := (((a : ℤ) - b) % 4294967296).toNat

/-- The record of `usb_send_status_pkt`. -/
def usbSendStatusPktRecord (size : ℕ) (status bufferNum : UInt8) (pkt : List UInt8) : LogRecord :=
  let len := if sub32 size 8 < pkt.length then sub32 size 8 else pkt.length
  { len := len + 2, body := status :: bufferNum :: pkt.take len }

/-- The record of `usb_send_str_data`. -/
def usbSendStrDataRecord (size : ℕ) (str ph : List UInt8) : LogRecord :=
  let ns := if sub32 size 12 < str.length then sub32 size 12 else str.length
  let n := if sub32 size 12 < str.length then 0 else ph.length
  let n := if sub32 size 12 < n + ns then sub32 size 12 - ns else n
  { len := n + ns + 2 + 3
    body := [0x82, 8, 0x22, UInt8.ofNat n, UInt8.ofNat (n / 256)] ++ ph.take n ++ str.take ns }

/-- The digits of `usb_send_str_int`. -/
def intDigits (u : ℤ) : List UInt8 :=
  if u.tdiv 10 = 0 then [UInt8.ofInt (u.tmod 10 + 48)]
  else intDigits (u.tdiv 10) ++ [UInt8.ofInt (u.tmod 10 + 48)]
termination_by u.natAbs
decreasing_by
  rename_i h
  rw [Int.natAbs_tdiv]
  have hu : u.natAbs ≠ 0 := fun h0 => h (by rw [Int.natAbs_eq_zero.mp h0]; rfl)
  exact Nat.div_lt_self (Nat.pos_of_ne_zero hu) (by decide)

/-- The record of `usb_send_str_int`. -/
def usbSendStrIntRecord (str : List UInt8) (w : BitVec 32) : LogRecord :=
  let symbol : UInt8 := if w.toInt < 0 then 0x2D else 0x20
  let digits := intDigits (if w.toInt < 0 then (-w).toInt else w.toInt)
  { len := str.length + 2 + 1 + 1 + digits.length
    body := [0x82, 8, 0x20] ++ str ++ [symbol] ++ digits }

/-! ## The endpoint -/

/-- `myudb_print_fifo`, and `p` and `len` of `myudb_to_usb`; the records that were accepted, the
packets that were sent, and how many bytes the last record occupies. -/
structure Myudb where
  fifo : MyFifo
  p : Option ℕ
  len : ℕ
  accepted : List (List UInt8)
  sent : List (List UInt8)
  written : ℕ

namespace Myudb

/-- Before the first record. -/
def start (f : MyFifo) : Myudb where
  fifo := f.reset
  p := none
  len := 0
  accepted := []
  sent := []
  written := 0

/-- A record is written to the FIFO. -/
def accept (s : Myudb) (r : LogRecord) : Myudb :=
  { s with
    fifo := s.fifo.log r
    accepted := s.accepted ++ [r.payload]
    written := r.image.length }

/-- `myudb_print_fifo_full`. -/
def printFifoFull (s : Myudb) : Bool := s.fifo.num ≤ s.fifo.used

/-- A packet from the address `a` is sent. -/
def sendPacket (s : Myudb) (a : ℕ) : Myudb :=
  let n := if s.len < 64 then s.len else 64
  { s with
    sent := s.sent ++ [bytesAt s.fifo.p a n]
    len := s.len - n
    p := if n < 64 then none else some (a + n) }

end Myudb

/-- A call. -/
inductive MyudbEvent
  | strData (str ph : List UInt8)
  | statusPkt (status bufferNum : UInt8) (pkt : List UInt8)
  | strInt (str : List UInt8) (w : BitVec 32)
  | toUsb (epBusy : Bool)

/-- The record that a call accepts. -/
def Myudb.record (s : Myudb) : MyudbEvent → Option LogRecord
  | .strData str ph => some (usbSendStrDataRecord s.fifo.size str ph)
  | .statusPkt status bufferNum pkt =>
    some (usbSendStatusPktRecord s.fifo.size status bufferNum pkt)
  | .strInt str w =>
    if s.printFifoFull ∨ str.length = 0 then none else some (usbSendStrIntRecord str w)
  | .toUsb _ => none

/-- The packets of a record. -/
def packets (r : List UInt8) : List (List UInt8) :=
  if r.length < 64 then [r] else r.take 64 :: packets (r.drop 64)
termination_by r.length
decreasing_by
  rename_i h
  rw [List.length_drop]
  omega

namespace Myudb

/-- The number of records whose last packet was sent. -/
def completed (s : Myudb) : ℕ := s.sent.countP (·.length < 64)

/-- Whether a record is being sent. -/
def inProgress (s : Myudb) : ℕ := if s.p.isSome then 1 else 0

/-- The packets sent are the first ones of the records accepted, and all of them where nothing
waits. No record is written to the slot of one whose last packet was not sent, or leaves its
slot. -/
structure Ok (s : Myudb) : Prop where
  sent : s.sent <+: s.accepted.flatMap packets
  complete : s.p = none → s.fifo.wptr = s.fifo.rptr → s.sent = s.accepted.flatMap packets
  room : s.accepted.length ≤ s.completed + s.fifo.num
  written : s.written ≤ s.fifo.size

end Myudb

theorem bytesAt_take (p : ℕ → UInt8) (a : ℕ) {n k : ℕ} (hk : k ≤ n) :
    (bytesAt p a n).take k = bytesAt p a k := by
  apply List.ext_getElem
  · rw [List.length_take, length_bytesAt, length_bytesAt, Nat.min_eq_left hk]
  intro i hi hi'
  simp [bytesAt]

theorem bytesAt_drop (p : ℕ → UInt8) (a n k : ℕ) :
    (bytesAt p a n).drop k = bytesAt p (a + k) (n - k) := by
  apply List.ext_getElem
  · rw [List.length_drop, length_bytesAt, length_bytesAt]
  intro i hi hi'
  simp [bytesAt, Nat.add_assoc]

/-! ## The steps -/

namespace Myudb

variable {s : Myudb}

/-- The packets of the record that is being sent. -/
def pending (s : Myudb) : List (List UInt8) :=
  match s.p with
  | none => []
  | some a => packets (bytesAt s.fifo.p a s.len)

/-- The number of records taken from the FIFO. -/
def taken (s : Myudb) : ℕ := s.completed + s.inProgress

/-- The FIFO holds what was not taken. The packets of what was taken are sent or pending, and the
rest of the record that is being sent is in its slot. -/
structure Inv (s : Myudb) : Prop where
  holds : s.fifo.Holds s.accepted s.taken
  conserve : s.sent ++ s.pending = (s.accepted.take s.taken).flatMap packets
  region : ∀ a, s.p = some a →
    ∃ k, a = (s.taken - 1) % s.fifo.num * s.fifo.size + k ∧ k + s.len ≤ s.fifo.size
  room : s.accepted.length ≤ s.completed + s.fifo.num
  written : s.written ≤ s.fifo.size

theorem inProgress_none (h : s.p = none) : s.inProgress = 0 := by simp [inProgress, h]

theorem inProgress_some {a : ℕ} (h : s.p = some a) : s.inProgress = 1 := by simp [inProgress, h]

namespace Inv

theorem start (f : MyFifo) : (start f).Inv where
  holds := .reset f
  conserve := rfl
  region _ ha := nomatch ha
  room := Nat.zero_le _
  written := Nat.zero_le _

theorem toOk (h : s.Inv) : s.Ok where
  sent := by
    have hprefix := List.IsPrefix.flatMap (List.take_prefix s.taken s.accepted) packets
    rw [← h.conserve] at hprefix
    exact (List.prefix_append _ _).trans hprefix
  complete hp hempty := by
    have hconserve := h.conserve
    have hpending : s.pending = [] := by simp [pending, hp]
    rwa [hpending, List.append_nil, ← h.holds.empty_iff.mp hempty, List.take_length] at hconserve
  room := h.room
  written := h.written

/-- A record is accepted. -/
theorem accept (h : s.Inv) {r : LogRecord} (hfree : s.fifo.used + s.inProgress < s.fifo.num)
    (hfits : r.image.length ≤ s.fifo.size) (hlen : r.len ≤ r.body.length) :
    (s.accept r).Inv := by
  have hused := h.holds.used_eq
  have hle := h.holds.tracks.taken_le
  have htaken : s.taken = s.completed + s.inProgress := rfl
  -- the record that is being sent has another slot
  have hslot : ∀ a, s.p = some a → (s.taken - 1) % s.fifo.num ≠ s.fifo.wptr % s.fifo.num := by
    intro a ha
    have hone := inProgress_some ha
    rw [h.holds.tracks.wptr_eq, Nat.mod_mod_of_dvd _ s.fifo.num_dvd]
    exact Ring.mod_ne_of_lt (by omega) (by omega)
  have hpending : (s.accept r).pending = s.pending := by
    unfold pending
    show (match s.p with
      | none => []
      | some a => packets (bytesAt (s.fifo.log r).p a s.len)) = _
    cases hp : s.p with
    | none => rfl
    | some a =>
      obtain ⟨k, rfl, hk⟩ := h.region a hp
      dsimp only
      rw [MyFifo.bytesAt_log hfits (hslot _ hp) hk]
  refine ⟨h.holds.log (by omega) hfits hlen, ?_, h.region, ?_, hfits⟩
  · rw [hpending]
    show s.sent ++ s.pending = ((s.accepted ++ [r.payload]).take s.taken).flatMap packets
    rw [h.conserve, List.take_append_of_le_length hle]
  · show (s.accepted ++ [r.payload]).length ≤ s.completed + s.fifo.num
    rw [List.length_append, List.length_singleton]
    omega

/-- What is sent and the packets that are left are those of the records that were taken. -/
theorem conserve_some (h : s.Inv) {a : ℕ} (hp : s.p = some a) :
    s.sent ++ packets (bytesAt s.fifo.p a s.len) = (s.accepted.take s.taken).flatMap packets := by
  have hconserve := h.conserve
  rwa [show s.pending = packets (bytesAt s.fifo.p a s.len) by simp [pending, hp]] at hconserve

/-- The last packet of a record is sent: it is the one that is shorter. -/
theorem sendPacket_last (h : s.Inv) {a : ℕ} (hp : s.p = some a) (hshort : s.len < 64) :
    (s.sendPacket a).Inv := by
  have heq : s.sendPacket a =
      { s with
        sent := s.sent ++ [bytesAt s.fifo.p a s.len]
        len := s.len - s.len
        p := none } := by
    simp only [Myudb.sendPacket, if_pos hshort]
  have hcompleted : (s.sendPacket a).completed = s.completed + 1 := by
    rw [heq, completed, List.countP_append, List.countP_singleton, length_bytesAt,
      if_pos (by simpa using hshort)]
    rfl
  have htaken : (s.sendPacket a).taken = s.taken := by
    have hzero : (s.sendPacket a).inProgress = 0 := inProgress_none (by rw [heq])
    rw [taken, hcompleted, hzero, taken, inProgress_some hp]
  have hconserve := h.conserve_some hp
  rw [packets, length_bytesAt, if_pos hshort] at hconserve
  refine ⟨?_, ?_, ?_, ?_, h.written⟩
  · rw [htaken]
    exact h.holds
  · rw [htaken, heq]
    exact (List.append_nil _).trans hconserve
  · intro a' ha'
    rw [heq] at ha'
    exact nomatch ha'
  · rw [hcompleted]
    exact Nat.le_trans h.room (by show _ ≤ s.completed + 1 + s.fifo.num; omega)

/-- A full packet is sent, and the record goes on behind it. -/
theorem sendPacket_full (h : s.Inv) {a : ℕ} (hp : s.p = some a) (hlong : ¬ s.len < 64) :
    (s.sendPacket a).Inv := by
  have heq : s.sendPacket a = { s with
      sent := s.sent ++ [bytesAt s.fifo.p a 64], len := s.len - 64, p := some (a + 64) } := by
    simp only [Myudb.sendPacket, if_neg hlong]
    rfl
  have hcompleted : (s.sendPacket a).completed = s.completed := by
    rw [heq, completed, List.countP_append, List.countP_singleton, length_bytesAt]
    rfl
  have htaken : (s.sendPacket a).taken = s.taken := by
    have hone : (s.sendPacket a).inProgress = 1 := inProgress_some (by rw [heq])
    rw [taken, hcompleted, hone, taken, inProgress_some hp]
  have hconserve := h.conserve_some hp
  rw [packets, length_bytesAt, if_neg hlong, bytesAt_take _ _ (by omega), bytesAt_drop]
    at hconserve
  refine ⟨?_, ?_, ?_, ?_, h.written⟩
  · rw [htaken]
    exact h.holds
  · rw [htaken, heq]
    show s.sent ++ [_] ++ packets (bytesAt s.fifo.p (a + 64) (s.len - 64)) = _
    rw [List.append_assoc]
    exact hconserve
  · intro a' ha'
    obtain ⟨k, hk, hfits⟩ := h.region a hp
    rw [heq] at ha'
    cases ha'
    refine ⟨k + 64, ?_, ?_⟩
    · rw [htaken, hk, Nat.add_assoc]
      rfl
    · rw [heq]
      show k + 64 + (s.len - 64) ≤ s.fifo.size
      omega
  · rw [hcompleted]
    exact h.room

/-- A packet is sent. -/
theorem sendPacket (h : s.Inv) {a : ℕ} (hp : s.p = some a) : (s.sendPacket a).Inv := by
  by_cases hshort : s.len < 64
  · exact h.sendPacket_last hp hshort
  · exact h.sendPacket_full hp hshort

end Inv
end Myudb

end TlBleSdk.Debug
