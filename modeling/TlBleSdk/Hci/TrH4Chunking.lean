import TlBleSdk.Hci.TrH4Runs

/-!
# H4 reassembly and chunking

Runs that only cut the stream: the HCI RX FIFO never fills and no flush fires. Then every
chunking gives the packets, unless a chunk boundary cuts a packet of 256 bytes or more, and
that is the exact condition: a cut packet of that length never reaches the FIFO when no
other bytes of the stream look like it.
-/

namespace TlBleSdk.Hci

open Framing Machine

/-- What happens to the transport, with the size of a chunk in place of its bytes. -/
inductive H4Op where
  | uartRx (n : ℕ)
  | rxHandler (now : ℕ)
  | consume

namespace H4Op

/-- The inputs when the UART delivers the stream `l`. -/
def feed : List H4Op → List UInt8 → List H4Input
  | [], _ => []
  | uartRx n :: ops, l => .uartRx (l.take n) :: feed ops (l.drop n)
  | rxHandler now :: ops, l => .rxHandler now :: feed ops l
  | consume :: ops, l => .consume :: feed ops l

/-- The sizes of the chunks. -/
def sizes : List H4Op → List ℕ
  | [] => []
  | uartRx n :: ops => n :: sizes ops
  | rxHandler _ :: ops => sizes ops
  | consume :: ops => sizes ops

/-- The number of chunks that wait in the end, if `n` wait now and each call of the handler
takes one. -/
def waiting (n : ℕ) : List H4Op → ℕ
  | [] => n
  | uartRx _ :: ops => waiting (n + 1) ops
  | rxHandler _ :: ops => waiting (n - 1) ops
  | consume :: ops => waiting n ops

end H4Op

namespace HciH4TrCb

variable {s s' : HciH4TrCb} {ps : List H4Packet} {fuel h k : ℕ} {ops : List H4Op}

/-- The HCI RX FIFO has a free slot. -/
def NeverFull (s : HciH4TrCb) : Prop := s.put.length < s.taken.length + s.pHciRxFifo.num

instance (s : HciH4TrCb) : Decidable s.NeverFull := inferInstanceAs (Decidable (_ < _))

/-- The UART FIFO has a slot for the chunk, and no flush fires. -/
def Undisturbed (s : HciH4TrCb) : H4Input → Prop
  | .uartRx _ => s.pRxFifo.used < s.pRxFifo.num
  | .rxHandler now => ¬ flushDue { s with now := now }
  | .consume => True

instance (s : HciH4TrCb) : ∀ i, Decidable (s.Undisturbed i)
  | .uartRx _ => inferInstanceAs (Decidable (_ < _))
  | .rxHandler _ => inferInstanceAs (Decidable (¬ _))
  | .consume => inferInstanceAs (Decidable True)

/-- The run of a stream. -/
def received (fuel k : ℕ) (hk : k ≤ 7) (ps : List H4Packet) (ops : List H4Op) : HciH4TrCb :=
  run (step fuel) (init k hk) (H4Op.feed ops (frames ps).flatten)

/-- The chunks fit a slot of the UART FIFO and make up the stream of `ps`, there is a call of the
handler for each of them, the HCI RX FIFO never fills, and no flush fires. -/
structure Smooth (fuel k : ℕ) (hk : k ≤ 7) (ps : List H4Packet) (ops : List H4Op) : Prop where
  sizes : ∀ n ∈ H4Op.sizes ops, 0 < n ∧ n ≤ hciH4TrRxBufSize - 4
  whole : (H4Op.sizes ops).sum = (frames ps).flatten.length
  steps : Along (step fuel) Undisturbed (init k hk) (H4Op.feed ops (frames ps).flatten)
  free : Always (step fuel) NeverFull (init k hk) (H4Op.feed ops (frames ps).flatten)
  done : H4Op.waiting 0 ops = 0

/-- No chunk boundary cuts a packet of 256 bytes or more. -/
def NoLongCut (ps : List H4Packet) (sizes : List ℕ) : Prop :=
  ∀ i ≤ sizes.length, ∀ q ∈ cutFrame (frames ps) (sizes.take i).sum, q.length < 256

instance (ps : List H4Packet) (sizes : List ℕ) : Decidable (NoLongCut ps sizes) :=
  inferInstanceAs (Decidable (∀ i ≤ sizes.length, ∀ q ∈ cutFrame _ _, _))

/-! ## Short packets -/

theorem offset_eq {i : ℕ} (hi : i ≤ s.rcvd.length) (rest : List ℕ) :
    s.offset i = ((s.rcvd.map List.length ++ rest).take i).sum := by
  rw [List.take_append_of_le_length (by simpa using hi), ← List.map_take, offset,
    List.length_flatten]

/-- A FIFO that is not full after the handler had room for the packets of the chunk. -/
theorem room_of_neverFull (hs : Carries ps s h) (hfuel : hciH4TrRxBufSize ≤ fuel)
    (hne : s.pRxFifo.wptr ≠ s.pRxFifo.rptr) (hcut : ∀ q ∈ s.cuts ps, q.length < 256)
    (hfree : s.NeverFull) (hnext : (s.rxChunk fuel).NeverFull) : s.completes ps ≤ s.free := by
  have hpos := hs.free_eq
  unfold NeverFull at hfree
  obtain ⟨s', ⟨hle, -, -⟩ | ⟨hlt, heq, htook⟩⟩ := hs.handles hfuel hne hcut (by omega)
  · exact hle
  · -- the handler has filled the FIFO
    rw [rxChunk, if_neg hne, heq] at hnext
    have hnum : s'.pHciRxFifo.num = s.pHciRxFifo.num := by
      rw [htook.fifo, HciFifo.foldl_push_num]
    have hlen := congrArg List.length htook.put
    have htaken := congrArg Side.taken htook.side
    have hmax := completed_le ((frames ps).drop s.put.length) s.pending
    unfold NeverFull completes at *
    simp only [side] at htaken
    rw [List.length_append, List.length_take, Nat.min_eq_left (by omega)] at hlen
    simp only [hnum, htaken] at hnext
    omega

/-- A call of the handler that leaves the HCI RX FIFO below full takes the next chunk. -/
theorem carries_rxHandler (hs : Carries ps s h) (hfuel : hciH4TrRxBufSize ≤ fuel) {now : ℕ}
    {rest : List ℕ} (hcut : NoLongCut ps (s.rcvd.map List.length ++ rest))
    (hflush : ¬ flushDue { s with now := now }) (hfree : s.NeverFull)
    (hnext : (rxHandler fuel { s with now := now }).NeverFull) :
    ∃ h', Carries ps (rxHandler fuel { s with now := now }) h' ∧
      (rxHandler fuel { s with now := now }).rcvd = s.rcvd ∧
      (rxHandler fuel { s with now := now }).pRxFifo.used = s.pRxFifo.used - 1 := by
  have htook := hs.took_flush fun hdue => absurd hdue hflush
  have hs₁ := hs.congr htook
  have hrcvd : (flushHandler { s with now := now }).rcvd = s.rcvd := congrArg Side.rcvd htook.side
  have hshort : (flushHandler { s with now := now }).pRxFifo.wptr ≠
      (flushHandler { s with now := now }).pRxFifo.rptr →
      ∀ q ∈ (flushHandler { s with now := now }).cuts ps, q.length < 256 := by
    intro hne
    obtain ⟨hlt, hfront⟩ := hs₁.head hne
    rw [← (hs₁.completed_succ hlt hfront).2.2, offset_eq hlt rest, hrcvd]
    apply hcut (h + 1)
    rw [List.length_append, List.length_map, ← hrcvd]
    omega
  have hroom : (flushHandler { s with now := now }).pRxFifo.wptr ≠
      (flushHandler { s with now := now }).pRxFifo.rptr →
      (flushHandler { s with now := now }).completes ps ≤
        (flushHandler { s with now := now }).free := by
    intro hne
    apply room_of_neverFull hs₁ hfuel hne (hshort hne) _ hnext
    · have hput := htook.put
      have htaken := congrArg Side.taken htook.side
      rw [List.append_nil] at hput
      simp only [side] at htaken
      unfold NeverFull
      rw [hput, htaken, htook.fifo]
      exact hfree
  obtain ⟨h', hs', heq, htakes⟩ :=
    carries_rxChunk hs₁ hfuel fun hne => ⟨hshort hne, Or.inl (hroom hne)⟩
  have hrx : (flushHandler { s with now := now }).pRxFifo = s.pRxFifo :=
    congrArg Side.pRxFifo htook.side
  refine ⟨h', hs', heq.trans hrcvd, ?_⟩
  by_cases hempty : (flushHandler { s with now := now }).pRxFifo.wptr =
      (flushHandler { s with now := now }).pRxFifo.rptr
  · have hused : (flushHandler { s with now := now }).pRxFifo.used = 0 := by
      rw [hs₁.queue.used_eq, hs₁.queue.empty_iff.mp hempty, Nat.sub_self]
    rw [rxHandler, rxChunk, if_pos hempty, hused, ← hrx, hused]
  · have hone := (htakes hempty (hroom hempty)).1
    rw [hrx] at hone
    exact Nat.eq_sub_of_add_eq hone

theorem rcvd_uartRxIRQHandler {chunk : List UInt8} (hroom : s.pRxFifo.used < s.pRxFifo.num)
    (hne : 0 < chunk.length) :
    (s.uartRxIRQHandler chunk).rcvd = s.rcvd ++ [chunk] := by
  rw [uartRxIRQHandler, if_neg (by omega), if_neg (by omega)]

theorem used_uartRxIRQHandler {chunk : List UInt8} (hroom : s.pRxFifo.used < s.pRxFifo.num)
    (hne : 0 < chunk.length) :
    (s.uartRxIRQHandler chunk).pRxFifo.used = s.pRxFifo.used + 1 := by
  rw [uartRxIRQHandler, if_neg (by omega), if_neg (by omega)]
  exact HciFifo.used_push hroom chunk

theorem rcvd_consume (s : HciH4TrCb) : s.consume.rcvd = s.rcvd := by
  unfold consume
  split <;> rfl

theorem pRxFifo_consume (s : HciH4TrCb) : s.consume.pRxFifo = s.pRxFifo := by
  unfold consume
  split <;> rfl

/-- The run of a stream `l` that is still to come. -/
theorem carries_feed (hs : Carries ps s h) (hfuel : hciH4TrRxBufSize ≤ fuel) {l : List UInt8}
    (hl : s.rcvd.flatten ++ l = (frames ps).flatten)
    (hsizes : ∀ n ∈ H4Op.sizes ops, 0 < n ∧ n ≤ hciH4TrRxBufSize - 4)
    (hwhole : (H4Op.sizes ops).sum = l.length)
    (hcut : NoLongCut ps (s.rcvd.map List.length ++ H4Op.sizes ops))
    (hsteps : Along (step fuel) Undisturbed s (H4Op.feed ops l))
    (hfree : Always (step fuel) NeverFull s (H4Op.feed ops l)) :
    ∃ h', Carries ps (run (step fuel) s (H4Op.feed ops l)) h' ∧
      (run (step fuel) s (H4Op.feed ops l)).rcvd.flatten = (frames ps).flatten ∧
      (run (step fuel) s (H4Op.feed ops l)).pRxFifo.used = H4Op.waiting s.pRxFifo.used ops := by
  induction ops generalizing s h l with
  | nil =>
    obtain rfl : l = [] := List.length_eq_zero_iff.mp hwhole.symm
    rw [List.append_nil] at hl
    exact ⟨h, hs, hl, rfl⟩
  | cons op ops ih =>
    cases op with
    | uartRx n =>
      rw [H4Op.sizes, List.sum_cons] at hwhole
      obtain ⟨hpos, hle⟩ := hsizes n List.mem_cons_self
      have hn : (l.take n).length = n := by
        rw [List.length_take]
        omega
      have hroom : s.pRxFifo.used < s.pRxFifo.num := hsteps.1
      -- the chunk is the front of what is still to come
      have hl' : (s.rcvd ++ [l.take n]).flatten ++ l.drop n = (frames ps).flatten := by
        rw [List.flatten_append, List.flatten_singleton, List.append_assoc,
          List.take_append_drop, hl]
      have hs' : Carries ps (s.uartRxIRQHandler (l.take n)) h := by
        apply carries_uartRx hs hroom (by omega)
        rw [← List.flatten_singleton (l := l.take n), ← List.flatten_append, ← hl']
        exact List.prefix_append _ _
      have hrcvd : (s.uartRxIRQHandler (l.take n)).rcvd = s.rcvd ++ [l.take n] :=
        rcvd_uartRxIRQHandler hroom (by omega)
      have hstep : s.step fuel (.uartRx (l.take n)) = _ := step_uartRx hs.running (l.take n)
      have hsteps' := hsteps.2
      have hfree' := hfree.2
      rw [hstep] at hsteps' hfree'
      have hused : (s.uartRxIRQHandler (l.take n)).pRxFifo.used = s.pRxFifo.used + 1 :=
        used_uartRxIRQHandler hroom (by omega)
      rw [H4Op.feed, run_cons, hstep, H4Op.waiting, ← hused]
      apply ih hs' _ (fun m hm => hsizes m (List.mem_cons_of_mem _ hm)) _ _ hsteps' hfree'
      · rw [hrcvd]
        exact hl'
      · rw [List.length_drop]
        omega
      · rw [hrcvd, List.map_append, List.append_assoc, List.map_singleton, hn]
        exact hcut
    | rxHandler now =>
      have hstep : s.step fuel (.rxHandler now) = _ := step_rxHandler hs.running now
      have hsteps' := hsteps.2
      have hfree' := hfree.2
      rw [hstep] at hsteps' hfree'
      -- the FIFO is full neither in front of the handler nor behind it
      obtain ⟨h', hs', hrcvd, hused⟩ := carries_rxHandler hs hfuel hcut hsteps.1
        (Always.head hfree) (Always.head hfree')
      rw [H4Op.feed, run_cons, hstep, H4Op.waiting, ← hused]
      apply ih hs' _ hsizes hwhole _ hsteps' hfree'
      · rw [hrcvd]
        exact hl
      · rw [hrcvd]
        exact hcut
    | consume =>
      have hrcvd := rcvd_consume s
      have hstep : s.step fuel .consume = _ := step_consume hs.running
      have hsteps' := hsteps.2
      have hfree' := hfree.2
      rw [hstep] at hsteps' hfree'
      rw [H4Op.feed, run_cons, hstep, H4Op.waiting, ← pRxFifo_consume s]
      apply ih (carries_consume hs) _ hsizes hwhole _ hsteps' hfree'
      · rw [hrcvd]
        exact hl
      · rw [hrcvd]
        exact hcut

/-- Without a cut of a long packet, every chunking gives the packets. -/
theorem put_of_noLongCut (hfuel : hciH4TrRxBufSize ≤ fuel) {hk : k ≤ 7}
    (hsmooth : Smooth fuel k hk ps ops) (hcut : NoLongCut ps (H4Op.sizes ops)) :
    (received fuel k hk ps ops).put = frames ps := by
  obtain ⟨h, hs, hall, hused⟩ := carries_feed (carries_init ps k hk) hfuel rfl hsmooth.sizes
    hsmooth.whole hcut hsmooth.steps hsmooth.free
  have hnone : (received fuel k hk ps ops).pRxFifo.used = 0 := by
    have hzero : (init k hk).pRxFifo.used = 0 := (carries_init ps k hk).queue.used_eq
    rw [hzero, hsmooth.done] at hused
    exact hused
  have hle := hs.queue.taken_le
  have hput := hs.lossless.complete (hs.queue.empty_iff.mpr (by
    have hdiff := hs.queue.used_eq
    unfold received at hnone
    omega))
  rw [hall, completed_flatten, List.take_length] at hput
  exact hput

end HciH4TrCb
end TlBleSdk.Hci
