import TlBleSdk.Dfu.Defs
import TlBleSdk.Lib.Run

/-!
# The event FIFO

The events of the DFU wait in `bltHci_txfifo` until the transport takes them out. Beside the
world runs the queue that the FIFO is meant to be: it has room for `num` events, an event
joins it if there is room, and the transport takes the oldest.

The code compares the pointers as `int`, so once `wptr` has wrapped and `rptr` has not, it
finds room in a full FIFO.
-/

namespace TlBleSdk.Dfu

open Hci Machine

/-- A use of the FIFO: the calls of `hci_dfu_port.c` that put an event into it, and the
transport, which takes the `k` oldest. -/
inductive EvtUse where
  | cmdCmpl (opcode : ℕ) (param : List UInt8)
  | cmdCmplStatus (opcode : ℕ) (status : UInt8)
  | cmdStatus (opcode : ℕ) (status : UInt8)
  | transmit (k : ℕ)

/-- The world, and the events that should wait. -/
structure EvtQueue where
  w : World
  waiting : List (List UInt8)

namespace EvtQueue

/-- A queue with room for `num`. -/
def offer (num : ℕ) (q : List (List UInt8)) (ev : List UInt8) : List (List UInt8) :=
  if q.length < num then q ++ [ev] else q

/-- One use. -/
def step (s : EvtQueue) : EvtUse → EvtQueue
  | .cmdCmpl opcode param =>
    ⟨s.w.sendCmdCmplEvt opcode param,
      offer s.w.txFifo.num s.waiting (cmdCmplEvt opcode param)⟩
  | .cmdCmplStatus opcode status =>
    ⟨s.w.sendCmdCmplStatusEvt opcode status,
      offer s.w.txFifo.num s.waiting (cmdCmplEvt opcode [status])⟩
  | .cmdStatus opcode status =>
    ⟨s.w.sendCmdStatusEvt opcode status,
      offer s.w.txFifo.num s.waiting (cmdStatusEvt opcode status)⟩
  | .transmit k =>
    if k ≤ s.w.txFifo.used then
      ⟨{ s.w with txFifo := s.w.txFifo.drop k }, s.waiting.drop k⟩
    else s

/-- An empty FIFO of `2 ^ k` slots. -/
def start (flash : NorFlash.Cells) (size k : ℕ) (hk : k ≤ 7) : EvtQueue :=
  ⟨World.powerOn flash (HciFifo.empty size k hk), []⟩

end EvtQueue

/-- An event lies in its slot, and its two lengths are those of the bytes behind them. -/
structure EvtWellFormed (size : ℕ) (ev : List UInt8) : Prop where
  fits : ev.length ≤ size
  length_eq : bytesToUint16 (mem ev) 0 + 2 = ev.length
  paramLen_eq : (mem ev 4).toNat + 5 = ev.length

theorem length_cmdCmplEvt (opcode : ℕ) (param : List UInt8) :
    (cmdCmplEvt opcode param).length = 8 + param.length := by
  simp only [cmdCmplEvt, uint16ToBstream, List.length_append, List.length_cons,
    List.length_nil]

/-- A command complete event is well formed if its parameters fit the slot and an 8-bit
length. -/
theorem evtWellFormed_cmdCmplEvt {size opcode : ℕ} {param : List UInt8} :
    EvtWellFormed size (cmdCmplEvt opcode param) ↔
      8 + param.length ≤ size ∧ param.length ≤ 252 := by
  have hlen := length_cmdCmplEvt opcode param
  have hparam : (mem (cmdCmplEvt opcode param) 4).toNat = (3 + param.length) % 256 :=
    UInt8.toNat_ofNat'
  constructor
  · rintro ⟨hfits, -, hparamLen⟩
    omega
  · rintro ⟨hfits, hle⟩
    refine ⟨by omega, ?_, by omega⟩
    have h0 : (mem (cmdCmplEvt opcode param) 0).toNat = (6 + param.length) % 256 :=
      UInt8.toNat_ofNat'
    have h1 : (mem (cmdCmplEvt opcode param) (0 + 1)).toNat = (6 + param.length) / 256 % 256 :=
      UInt8.toNat_ofNat'
    rw [bytesToUint16]
    omega

/-- A command status event is well formed if it fits the slot. -/
theorem evtWellFormed_cmdStatusEvt {size opcode : ℕ} {status : UInt8} :
    EvtWellFormed size (cmdStatusEvt opcode status) ↔ 9 ≤ size := by
  have hlen : (cmdStatusEvt opcode status).length = 9 := rfl
  constructor
  · intro h
    rw [← hlen]
    exact h.fits
  · intro h
    have h0 : mem (cmdStatusEvt opcode status) 0 = 7 := rfl
    have h1 : mem (cmdStatusEvt opcode status) 1 = 0 := rfl
    have h4 : mem (cmdStatusEvt opcode status) 4 = 4 := rfl
    refine ⟨hlen.trans_le h, ?_, ?_⟩
    · rw [bytesToUint16, h0, h1, hlen]
      decide
    · rw [h4, hlen]
      decide

namespace EvtQueue

/-- What is wanted: the events that wait are those that should, whole and well formed. The
FIFO holds at most `num` of them. -/
structure Keeps (s : EvtQueue) : Prop where
  holds : Ring.Holds 256 s.w.txFifo.num s.w.txFifo.p s.w.txFifo.wptr s.w.txFifo.rptr s.waiting
  wellFormed : ∀ ev ∈ s.waiting, EvtWellFormed s.w.txFifo.size ev

/-- A full FIFO gets no event while `wptr` has wrapped and `rptr` has not, and what joins the
queue fits its slot and an 8-bit length. -/
def Ok (s : EvtQueue) (u : EvtUse) : Prop :=
  match u with
  | .cmdCmpl _ param =>
    (s.w.txFifo.used = s.w.txFifo.num → s.w.txFifo.rptr ≤ s.w.txFifo.wptr) ∧
      (s.w.txFifo.used < s.w.txFifo.num →
        8 + param.length ≤ s.w.txFifo.size ∧ param.length ≤ 252)
  | .cmdCmplStatus _ _ =>
    (s.w.txFifo.used = s.w.txFifo.num → s.w.txFifo.rptr ≤ s.w.txFifo.wptr) ∧
      (s.w.txFifo.used < s.w.txFifo.num → 9 ≤ s.w.txFifo.size)
  | .cmdStatus _ _ =>
    (s.w.txFifo.used = s.w.txFifo.num → s.w.txFifo.rptr ≤ s.w.txFifo.wptr) ∧
      (s.w.txFifo.used < s.w.txFifo.num → 9 ≤ s.w.txFifo.size)
  | .transmit _ => True

theorem Keeps.waits {s : EvtQueue} (h : s.Keeps) : s.w.txFifo.Waits s.waiting := h.holds

/-- An event goes into a FIFO that has room, and stays out of a full one whose pointers did
not wrap apart. -/
theorem keeps_sendEvt_iff {s : EvtQueue} (h : s.Keeps) (ev : List UInt8) :
    Keeps ⟨s.w.sendEvt ev, offer s.w.txFifo.num s.waiting ev⟩ ↔
      (s.w.txFifo.used = s.w.txFifo.num → s.w.txFifo.rptr ≤ s.w.txFifo.wptr) ∧
        (s.w.txFifo.used < s.w.txFifo.num → EvtWellFormed s.w.txFifo.size ev) := by
  have hused := h.waits.used_eq
  have hle := h.waits.length_le
  have hw := s.w.txFifo.wptr_lt
  have hr := s.w.txFifo.rptr_lt
  have hnum := s.w.txFifo.num_lt
  have hdiff : s.w.txFifo.used = (s.w.txFifo.wptr + 256 - s.w.txFifo.rptr) % 256 := rfl
  unfold World.sendEvt offer
  rcases Nat.lt_or_ge s.waiting.length s.w.txFifo.num with hlt | hge
  · rw [if_neg (by omega), if_pos hlt]
    have hpush := h.waits.push (by omega) ev
    constructor
    · intro h'
      exact ⟨fun heq => by omega, fun _ => h'.wellFormed ev (by simp)⟩
    · rintro ⟨-, hev⟩
      refine ⟨hpush, fun e he => ?_⟩
      rcases List.mem_append.mp he with he | he
      · exact h.wellFormed e he
      · rw [List.mem_singleton.mp he]
        exact hev (by omega)
  · rw [if_neg (Nat.not_lt.mpr hge)]
    by_cases hwrap : s.w.txFifo.rptr ≤ s.w.txFifo.wptr
    · rw [if_pos (by omega)]
      exact ⟨fun _ => ⟨fun _ => hwrap, fun hlt => by omega⟩, fun _ => h⟩
    · rw [if_neg (by omega)]
      constructor
      · -- The FIFO counts one event more than the queue.
        intro h'
        have hused' := h'.waits.used_eq
        have hdiff' : (s.w.txFifo.push ev).used =
            ((s.w.txFifo.wptr + 1) % 256 + 256 - s.w.txFifo.rptr) % 256 := rfl
        dsimp only at hused'
        omega
      · rintro ⟨hle', -⟩
        exact absurd (hle' (by omega)) hwrap

/-- The transport takes the oldest events. -/
theorem keeps_transmit {s : EvtQueue} (h : s.Keeps) (k : ℕ) : (s.step (.transmit k)).Keeps := by
  simp only [step]
  split
  case isTrue hk =>
    exact ⟨h.waits.dropMany hk, fun ev hev => h.wellFormed ev (List.mem_of_mem_drop hev)⟩
  case isFalse => exact h

/-- One use keeps the queue exactly if it is as `Ok` says. -/
theorem keeps_step_iff {s : EvtQueue} (h : s.Keeps) (u : EvtUse) :
    (s.step u).Keeps ↔ s.Ok u := by
  cases u with
  | cmdCmpl opcode param =>
    exact (keeps_sendEvt_iff h _).trans
      (and_congr_right fun _ => imp_congr_right fun _ => evtWellFormed_cmdCmplEvt)
  | cmdCmplStatus opcode status =>
    exact (keeps_sendEvt_iff h _).trans (and_congr_right fun _ => imp_congr_right fun _ =>
      evtWellFormed_cmdCmplEvt.trans (and_iff_left (by simp)))
  | cmdStatus opcode status =>
    exact (keeps_sendEvt_iff h _).trans
      (and_congr_right fun _ => imp_congr_right fun _ => evtWellFormed_cmdStatusEvt)
  | transmit k => exact iff_of_true (keeps_transmit h k) trivial

theorem keeps_start (flash : NorFlash.Cells) (size k : ℕ) (hk : k ≤ 7) :
    (start flash size k hk).Keeps :=
  ⟨.empty 256 _ _, fun _ h => by cases h⟩

/-- A run keeps the queue at every moment exactly if no event comes to a full FIFO whose
`wptr` has wrapped below `rptr`, and all that join the queue fit. -/
theorem keeps_iff (flash : NorFlash.Cells) (size k : ℕ) (hk : k ≤ 7) (uses : List EvtUse) :
    Always step Keeps (start flash size k hk) uses ↔ Along step Ok (start flash size k hk) uses :=
  have hstep : ∀ s u, True → Keeps s → True → (Keeps (step s u) ↔ Ok s u) :=
    fun _ u _ h _ => keeps_step_iff h u
  always_iff_along hstep (fun _ _ _ _ _ _ => trivial) (along_true _ uses) trivial
    (keeps_start flash size k hk)

theorem keeps_iff_eight :
    Always step Keeps (start (fun _ => 0xFF) 260 3 (by decide))
        [.cmdStatus 1 0, .cmdCmpl 2 [0], .transmit 1] ↔
      Along step Ok (start (fun _ => 0xFF) 260 3 (by decide))
        [.cmdStatus 1 0, .cmdCmpl 2 [0], .transmit 1] :=
  keeps_iff (fun _ => 0xFF) 260 3 (by decide) [.cmdStatus 1 0, .cmdCmpl 2 [0], .transmit 1]

/-! ## A full FIFO across the wrap -/

/-- `n` times an event and its transmission. -/
def evtRounds (n : ℕ) : List EvtUse :=
  (List.replicate n [EvtUse.cmdStatus 0 0, EvtUse.transmit 1]).flatten

/-- A FIFO of one slot, empty, with both pointers at `a`. -/
structure EmptyAt (a : ℕ) (s : EvtQueue) : Prop where
  num : s.w.txFifo.num = 1
  wptr : s.w.txFifo.wptr = a
  rptr : s.w.txFifo.rptr = a

/-- An event for the empty FIFO. -/
theorem EmptyAt.cmdStatus {a : ℕ} {s : EvtQueue} (h : EmptyAt a s) :
    (s.step (.cmdStatus 0 0)).w.txFifo = s.w.txFifo.push (cmdStatusEvt 0 0) := by
  simp only [step, World.sendCmdStatusEvt, World.sendEvt]
  rw [if_neg]
  rw [h.num, h.wptr, h.rptr]
  omega

theorem EmptyAt.round {a : ℕ} {s : EvtQueue} (h : EmptyAt a s) :
    EmptyAt ((a + 1) % 256) ((s.step (.cmdStatus 0 0)).step (.transmit 1)) := by
  have hlt := s.w.txFifo.wptr_lt
  have hwptr := h.wptr
  have hfifo := h.cmdStatus
  generalize s.step (.cmdStatus 0 0) = s' at hfifo ⊢
  have hused : 1 ≤ s'.w.txFifo.used := by
    rw [hfifo, HciFifo.used]
    show 1 ≤ ((s.w.txFifo.wptr + 1) % 256 + 256 - s.w.txFifo.rptr) % 256
    rw [h.wptr, h.rptr]
    omega
  rw [step, if_pos hused]
  refine ⟨?_, ?_, ?_⟩
  · simp only [hfifo, HciFifo.drop, HciFifo.push, h.num]
  · simp only [hfifo, HciFifo.drop, HciFifo.push, h.wptr]
  · simp only [hfifo, HciFifo.drop, HciFifo.push, h.rptr]

theorem EmptyAt.rounds {a : ℕ} {s : EvtQueue} (h : EmptyAt a s) (n : ℕ) :
    EmptyAt ((a + n) % 256) (run step s (evtRounds n)) := by
  induction n generalizing a s with
  | zero =>
    have ha : a % 256 = a := by
      rw [← h.wptr]
      exact Nat.mod_eq_of_lt s.w.txFifo.wptr_lt
    rw [Nat.add_zero, ha]
    exact h
  | succ n ih =>
    have hnext := ih h.round
    have ha : ((a + 1) % 256 + n) % 256 = (a + (n + 1)) % 256 := by omega
    rw [ha] at hnext
    exact hnext

/-- Behind 255 events that were transmitted, a FIFO of one slot is full with `wptr` at 0, and
the next event overwrites the one in it. -/
theorem not_keeps_wrapped :
    ¬ ∀ (flash : NorFlash.Cells) (size k : ℕ) (hk : k ≤ 7) (uses : List EvtUse),
      Always step Keeps (start flash size k hk) uses := by
  intro h
  have hstart : EmptyAt 0 (start (fun _ => 0xFF) 16 0 (by decide)) := ⟨rfl, rfl, rfl⟩
  have hempty := hstart.rounds 255
  have hfull := (h (fun _ => 0xFF) 16 0 (by decide) (evtRounds 255 ++ [.cmdStatus 0 0])).last
  have hover := (h (fun _ => 0xFF) 16 0 (by decide)
    (evtRounds 255 ++ [.cmdStatus 0 0, .cmdStatus 0 0])).last
  simp only [run_append, run_cons, run_nil] at hfull hover
  generalize run step (start (fun _ => 0xFF) 16 0 (by decide)) (evtRounds 255) = s
    at hempty hfull hover
  obtain ⟨hwrap, -⟩ := (keeps_step_iff hfull (.cmdStatus 0 0)).mp hover
  simp only [hempty.cmdStatus, HciFifo.used, HciFifo.push, hempty.wptr,
    hempty.rptr, hempty.num] at hwrap
  exact absurd hwrap (by decide)

end EvtQueue
end TlBleSdk.Dfu
