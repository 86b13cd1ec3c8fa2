import TlBleSdk.Hci.TrH4Reassembly

/-!
# Runs of the H4 transport

A stream of packets comes in chunks, and `HCI_Tr_H4RxHandler` and the stack take turns.
`Carries` is the invariant of the runs that lose and duplicate nothing: up to the end of a
chunk, the packets that are complete have been put and the rest is in the backup buffer.
-/

namespace TlBleSdk.Hci
namespace HciH4TrCb

open Framing Machine

variable {s s' : HciH4TrCb} {ps : List H4Packet} {fuel h : ℕ}

/-- The frames of a stream. -/
def frames (ps : List H4Packet) : List (List UInt8) := ps.map H4Packet.encode

/-- The offset in the stream behind the first `h` chunks. -/
def offset (s : HciH4TrCb) (h : ℕ) : ℕ := (s.rcvd.take h).flatten.length

/-- The transport has handled the first `h` chunks of the stream of `ps`. -/
structure Carries (ps : List H4Packet) (s : HciH4TrCb) (h : ℕ) : Prop where
  queue : s.pRxFifo.Holds s.rcvd h
  stream : s.rcvd.flatten <+: (frames ps).flatten
  chunk_le : ∀ c ∈ s.rcvd, c.length ≤ hciH4TrRxBufSize - 4
  put : s.put = (frames ps).take (completed (frames ps) (s.offset h))
  backs : s.Backs (leftover (frames ps) (s.offset h))
  cut : ∀ q ∈ cutFrame (frames ps) (s.offset h), q.length < 256
  fifo : s.pHciRxFifo.Holds s.put s.taken.length
  taken : s.taken <+: s.put
  running : s.hung = false

namespace Carries

variable {c : List UInt8}

/-- The chunks handled so far are the beginning of the stream. -/
theorem handled (hs : Carries ps s h) (h' : ℕ) :
    (s.rcvd.take h').flatten = (frames ps).flatten.take (s.offset h') := by
  have hpre : (s.rcvd.take h').flatten <+: s.rcvd.flatten := by
    conv_rhs => rw [← List.take_append_drop h' s.rcvd, List.flatten_append]
    exact List.prefix_append _ _
  exact List.prefix_iff_eq_take.mp (hpre.trans hs.stream)

theorem offset_le (hs : Carries ps s h) (h' : ℕ) : s.offset h' ≤ (frames ps).flatten.length := by
  have hlen := congrArg List.length (hs.handled h')
  rw [List.length_take] at hlen
  unfold offset at hlen ⊢
  omega

theorem put_length (hs : Carries ps s h) :
    s.put.length = completed (frames ps) (s.offset h) := by
  rw [hs.put, List.length_take, Nat.min_eq_left (completed_le _ _)]

theorem put_eq (hs : Carries ps s h) : s.put = (frames ps).take s.put.length := by
  rw [hs.put_length]
  exact hs.put

theorem offset_succ (hlt : h < s.rcvd.length) :
    s.offset (h + 1) = s.offset h + s.rcvd[h].length := by
  unfold offset
  rw [List.take_succ_eq_append_getElem hlt, List.flatten_append, List.length_append,
    List.flatten_singleton]

/-- The frames still expected begin with the backup buffer and the next chunk. -/
theorem next (hs : Carries ps s h) (hlt : h < s.rcvd.length) :
    leftover (frames ps) (s.offset h) ++ s.rcvd[h] <+:
      ((frames ps).drop s.put.length).flatten := by
  have hnext := hs.handled (h + 1)
  rw [List.take_succ_eq_append_getElem hlt, List.flatten_append, hs.handled h,
    List.flatten_singleton] at hnext
  rw [hs.put_length]
  apply leftover_append_prefix
  rw [hnext]
  exact List.take_prefix _ _

/-- The backup buffer begins the first packet that is still expected. -/
theorem begun (hs : Carries ps s h) :
    Begun (ps.drop s.put.length) (leftover (frames ps) (s.offset h)) := by
  rcases leftover_begins (frames ps) (s.offset h) with hnil | ⟨q, rest, hq, hdrop, hcut⟩
  · exact Or.inl hnil
  · rw [← hs.put_length, frames, ← List.map_drop] at hdrop
    obtain ⟨p, ps', hps', hp, -⟩ := List.map_eq_cons_iff.mp hdrop
    exact Or.inr ⟨p, ps', q, hps', hp, hq, hp ▸ hs.cut _ hcut⟩

theorem head (hs : Carries ps s h) (hne : s.pRxFifo.wptr ≠ s.pRxFifo.rptr) :
    ∃ hlt : h < s.rcvd.length, s.pRxFifo.front = s.rcvd[h] := by
  have hle := hs.queue.taken_le
  have hlt : h < s.rcvd.length := by
    have := mt hs.queue.empty_iff.mpr hne
    omega
  exact ⟨hlt, hs.queue.front_eq hlt⟩

/-- A state that differs only in what the invariant does not mention. -/
theorem congr (hs : Carries ps s h) (htook : Took s s' [] (leftover (frames ps) (s.offset h))) :
    Carries ps s' h := by
  have hside := htook.side
  simp only [side, Side.mk.injEq] at hside
  obtain ⟨hrx, hrcvd, htaken, hhung⟩ := hside
  have hput : s'.put = s.put := htook.put.trans (List.append_nil _)
  have hfifo : s'.pHciRxFifo = s.pHciRxFifo := htook.fifo
  have hoff : s'.offset h = s.offset h := by rw [offset, hrcvd, offset]
  exact ⟨by rw [hrx, hrcvd]; exact hs.queue, by rw [hrcvd]; exact hs.stream,
    by rw [hrcvd]; exact hs.chunk_le, by rw [hput, hoff]; exact hs.put,
    by rw [hoff]; exact htook.backs, by rw [hoff]; exact hs.cut,
    by rw [hfifo, hput, htaken]; exact hs.fifo, by rw [htaken, hput]; exact hs.taken,
    by rw [hhung]; exact hs.running⟩

end Carries

/-! ## The other side of the FIFOs -/

/-- A chunk of the stream comes in. -/
theorem carries_uartRx {chunk : List UInt8} (hs : Carries ps s h)
    (hroom : s.pRxFifo.used < s.pRxFifo.num) (hlen : chunk.length ≤ hciH4TrRxBufSize - 4)
    (hpre : s.rcvd.flatten ++ chunk <+: (frames ps).flatten) :
    Carries ps (s.uartRxIRQHandler chunk) h := by
  have hle := hs.queue.taken_le
  have hfree : s.rcvd.length < h + s.pRxFifo.num := by
    rw [hs.queue.used_eq] at hroom
    omega
  rw [uartRxIRQHandler, if_neg (by omega)]
  by_cases hzero : chunk.length = 0
  · rw [if_pos hzero]
    exact ⟨hs.queue.write hfree chunk, hs.stream, hs.chunk_le, hs.put,
      ⟨hs.backs.cnt, hs.backs.buf, hs.backs.lt⟩, hs.cut, hs.fifo, hs.taken, hs.running⟩
  · rw [if_neg hzero]
    have hoff : (s.rcvd ++ [chunk]).take h = s.rcvd.take h :=
      List.take_append_of_le_length hle
    constructor
    case queue => exact hs.queue.push hfree chunk
    case stream => simpa using hpre
    case chunk_le =>
      intro c hc
      rcases List.mem_append.mp hc with hc | hc
      · exact hs.chunk_le c hc
      · rwa [List.mem_singleton.mp hc]
    case put =>
      show s.put = (frames ps).take (completed _ (((s.rcvd ++ [chunk]).take h).flatten.length))
      rw [hoff]
      exact hs.put
    case backs =>
      show Backs _ (leftover _ (((s.rcvd ++ [chunk]).take h).flatten.length))
      rw [hoff]
      exact ⟨hs.backs.cnt, hs.backs.buf, hs.backs.lt⟩
    case cut =>
      show ∀ q ∈ cutFrame _ (((s.rcvd ++ [chunk]).take h).flatten.length), _
      rw [hoff]
      exact hs.cut
    case fifo => exact hs.fifo
    case taken => exact hs.taken
    case running => exact hs.running

/-- The stack takes a packet. -/
theorem carries_consume (hs : Carries ps s h) : Carries ps s.consume h := by
  unfold consume
  split
  · exact hs
  next hne =>
    have hle := hs.fifo.taken_le
    have hlt : s.taken.length < s.put.length := by
      have := mt hs.fifo.empty_iff.mpr hne
      omega
    constructor
    case queue => exact hs.queue
    case stream => exact hs.stream
    case chunk_le => exact hs.chunk_le
    case put => exact hs.put
    case backs => exact ⟨hs.backs.cnt, hs.backs.buf, hs.backs.lt⟩
    case cut => exact hs.cut
    case fifo =>
      show (s.pHciRxFifo.drop 1).Holds s.put (s.taken ++ [s.pHciRxFifo.front]).length
      rw [List.length_append]
      exact hs.fifo.drop hlt
    case taken =>
      show s.taken ++ [s.pHciRxFifo.front] <+: s.put
      have htaken := List.prefix_iff_eq_take.mp hs.taken
      rw [hs.fifo.front_eq hlt, List.prefix_iff_eq_take, List.length_append, List.length_singleton,
        List.take_succ_eq_append_getElem hlt, ← htaken]
    case running => exact hs.running

/-! ## The receive handler -/

/-- The number of bytes the frames still expected have in the backup buffer and in the next
chunk. -/
def pending (s : HciH4TrCb) : ℕ := s.backupCnt + s.pRxFifo.front.length

/-- The number of packets that the next chunk completes. -/
def completes (ps : List H4Packet) (s : HciH4TrCb) : ℕ :=
  completed ((frames ps).drop s.put.length) s.pending

/-- The packet that the end of the next chunk cuts. -/
def cuts (ps : List H4Packet) (s : HciH4TrCb) : Option (List UInt8) :=
  cutFrame ((frames ps).drop s.put.length) s.pending

namespace Carries

theorem free_eq (hs : Carries ps s h) :
    s.free = s.taken.length + s.pHciRxFifo.num - s.put.length := by
  have hle := hs.fifo.taken_le
  rw [free, hs.fifo.used_eq]
  omega

/-- A flush of an empty backup buffer changes nothing. -/
theorem took_flush (hs : Carries ps s h) {now : ℕ}
    (hflush : flushDue { s with now := now } → s.backupCnt = 0) :
    Took s (flushHandler { s with now := now }) [] (leftover (frames ps) (s.offset h)) := by
  have hbacks := hs.backs
  unfold flushHandler
  split
  next hdue =>
    rw [List.length_eq_zero_iff.mp (hbacks.cnt.symm.trans (hflush hdue))]
    exact ⟨rfl, (List.append_nil _).symm, ⟨rfl, rfl, by decide⟩, rfl⟩
  · exact ⟨rfl, (List.append_nil _).symm, ⟨hbacks.cnt, hbacks.buf, hbacks.lt⟩, rfl⟩

theorem pending_eq (hs : Carries ps s h) (hlt : h < s.rcvd.length)
    (hfront : s.pRxFifo.front = s.rcvd[h]) :
    s.pending = (leftover (frames ps) (s.offset h) ++ s.rcvd[h]).length := by
  rw [pending, hs.backs.cnt, hfront, List.length_append]

theorem completed_succ (hs : Carries ps s h) (hlt : h < s.rcvd.length)
    (hfront : s.pRxFifo.front = s.rcvd[h]) :
    completed (frames ps) (s.offset (h + 1)) = s.put.length + s.completes ps ∧
      leftover (frames ps) (s.offset (h + 1)) =
        leftover ((frames ps).drop s.put.length) s.pending ∧
      cutFrame (frames ps) (s.offset (h + 1)) = s.cuts ps := by
  have hle := hs.offset_le h
  rw [completes, cuts, hs.pending_eq hlt hfront, offset_succ hlt, hs.put_length]
  exact ⟨completed_append hle _, leftover_append hle _, cutFrame_append hle _⟩

/-- What the loop makes of the next chunk. -/
theorem handles (hs : Carries ps s h) (hfuel : hciH4TrRxBufSize ≤ fuel)
    (hne : s.pRxFifo.wptr ≠ s.pRxFifo.rptr) (hcut : ∀ q ∈ s.cuts ps, q.length < 256)
    (hroom : s.backupCnt ≠ 0 → s.completes ps ≠ 0 → 0 < s.free) :
    Handles s ((frames ps).drop s.put.length) s.pending
      (rxLoop fuel s.pRxFifo.front s.pRxFifo.front.length s) := by
  obtain ⟨hlt, hfront⟩ := hs.head hne
  have hpending := hs.pending_eq hlt hfront
  have hle := hs.chunk_le _ (List.getElem_mem hlt)
  have hnext := hs.next hlt
  rw [cuts, hpending] at hcut
  rw [completes, hpending] at hroom
  rw [hpending, hfront]
  rw [frames, ← List.map_drop] at hcut hroom hnext ⊢
  refine rxLoop_handles ?_ hs.backs hs.begun hnext hcut ?_
  · have : hciH4TrRxBufSize = 608 := rfl
    omega
  · intro hb
    apply hroom
    rw [hs.backs.cnt]
    exact (List.length_pos_iff.mpr hb).ne'

/-- The packets that `out` lists have been put, and there was room for them. -/
theorem fifo_append (hs : Carries ps s h) {out : List (List UInt8)} {b : List UInt8}
    (htook : Took s s' out b) (hroom : out.length ≤ s.free) :
    s'.pHciRxFifo.Holds s'.put s'.taken.length ∧ s'.taken <+: s'.put := by
  have hside := htook.side
  simp only [side, Side.mk.injEq] at hside
  have hfree := hs.free_eq
  have hle := hs.fifo.taken_le
  have hmax := hs.fifo.room
  rw [htook.put, htook.fifo, hside.2.2.1]
  exact ⟨hs.fifo.foldl_push (by omega), hs.taken.trans (List.prefix_append _ _)⟩

/-- The next chunk has been handled: the packets it completes are put. -/
theorem advance (hs : Carries ps s h) (hne : s.pRxFifo.wptr ≠ s.pRxFifo.rptr)
    (hcut : ∀ q ∈ s.cuts ps, q.length < 256) (hroom : s.completes ps ≤ s.free)
    (htook : Took s s' (((frames ps).drop s.put.length).take (s.completes ps))
      (leftover ((frames ps).drop s.put.length) s.pending)) :
    Carries ps { s' with pRxFifo := s'.pRxFifo.drop 1 } (h + 1) := by
  obtain ⟨hlt, hfront⟩ := hs.head hne
  obtain ⟨hcomp, hleft, hcutFrame⟩ := hs.completed_succ hlt hfront
  have hside := htook.side
  simp only [side, Side.mk.injEq] at hside
  obtain ⟨hrx, hrcvd, -, hhung⟩ := hside
  have hfifo := hs.fifo_append htook (Nat.le_trans (List.length_take_le _ _) hroom)
  have hoff : s'.offset (h + 1) = s.offset (h + 1) := by rw [offset, hrcvd, offset]
  constructor
  case queue =>
    show (s'.pRxFifo.drop 1).Holds s'.rcvd (h + 1)
    rw [hrx, hrcvd]
    exact hs.queue.drop hlt
  case stream =>
    show s'.rcvd.flatten <+: _
    rw [hrcvd]
    exact hs.stream
  case chunk_le =>
    show ∀ c ∈ s'.rcvd, _
    rw [hrcvd]
    exact hs.chunk_le
  case put =>
    show s'.put = (frames ps).take (completed (frames ps) (s'.offset (h + 1)))
    rw [hoff, hcomp, htook.put, List.take_add]
    exact congrArg (· ++ _) hs.put_eq
  case backs =>
    show Backs _ (leftover (frames ps) (s'.offset (h + 1)))
    rw [hoff, hleft]
    exact ⟨htook.backs.cnt, htook.backs.buf, htook.backs.lt⟩
  case cut =>
    show ∀ q ∈ cutFrame (frames ps) (s'.offset (h + 1)), _
    rw [hoff, hcutFrame]
    exact hcut
  case fifo => exact hfifo.1
  case taken => exact hfifo.2
  case running =>
    show s'.hung = false
    rw [hhung]
    exact hs.running

end Carries

/-! ## Steps -/

/-- What the UART delivers: the stream of `ps`, in chunks that fit a slot of the UART FIFO,
while that has a free slot. -/
def Feeds (ps : List H4Packet) (s : HciH4TrCb) : H4Input → Prop
  | .uartRx chunk => s.pRxFifo.used < s.pRxFifo.num ∧ chunk.length ≤ hciH4TrRxBufSize - 4 ∧
      s.rcvd.flatten ++ chunk <+: (frames ps).flatten
  | .rxHandler _ => True
  | .consume => True

/-- The next chunk cuts no packet of 256 bytes or more, and the packets that it completes fit
the HCI RX FIFO, or that is full and the chunk starts with a packet. -/
def ChunkOk (ps : List H4Packet) (s : HciH4TrCb) : Prop :=
  s.pRxFifo.wptr ≠ s.pRxFifo.rptr → (∀ q ∈ s.cuts ps, q.length < 256) ∧
    (s.completes ps ≤ s.free ∨ (s.free = 0 ∧ s.backupCnt = 0))

/-- The step does not meet the defects of the handler, and no flush drops the beginning of a
packet. -/
def HandlerOk (ps : List H4Packet) (s : HciH4TrCb) : H4Input → Prop
  | .rxHandler now => (flushDue { s with now := now } → s.backupCnt = 0) ∧
      s.ChunkOk ps
  | .uartRx _ => True
  | .consume => True

instance (ps : List H4Packet) (s : HciH4TrCb) : ∀ i, Decidable (s.Feeds ps i)
  | .uartRx _ => inferInstanceAs (Decidable (_ ∧ _ ∧ _))
  | .rxHandler _ => inferInstanceAs (Decidable True)
  | .consume => inferInstanceAs (Decidable True)

instance (ps : List H4Packet) (s : HciH4TrCb) : Decidable (s.ChunkOk ps) :=
  inferInstanceAs (Decidable (_ → (∀ q ∈ s.cuts ps, _) ∧ _))

instance (ps : List H4Packet) (s : HciH4TrCb) : ∀ i, Decidable (s.HandlerOk ps i)
  | .rxHandler _ => inferInstanceAs (Decidable ((_ → _) ∧ _))
  | .uartRx _ => inferInstanceAs (Decidable True)
  | .consume => inferInstanceAs (Decidable True)

/-- What the next chunk completes and cuts, and the room for it, stay as they are. -/
theorem next_congr (ps : List H4Packet) {b : List UInt8} (hs : s.Backs b) (htook : Took s s' [] b) :
    s'.pRxFifo = s.pRxFifo ∧ s'.put = s.put ∧ s'.free = s.free ∧ s'.backupCnt = s.backupCnt ∧
      s'.completes ps = s.completes ps ∧ s'.cuts ps = s.cuts ps := by
  have hrx : s'.pRxFifo = s.pRxFifo := congrArg Side.pRxFifo htook.side
  have hput : s'.put = s.put := htook.put.trans (List.append_nil _)
  have hfifo : s'.pHciRxFifo = s.pHciRxFifo := htook.fifo
  have hcnt : s'.backupCnt = s.backupCnt := htook.backs.cnt.trans hs.cnt.symm
  unfold cuts completes pending free
  rw [hrx, hput, hfifo, hcnt]
  exact ⟨rfl, rfl, rfl, rfl, rfl, rfl⟩

theorem ChunkOk.congr (hok : s.ChunkOk ps) {b : List UInt8} (hs : s.Backs b)
    (htook : Took s s' [] b) : s'.ChunkOk ps := by
  obtain ⟨hrx, -, hfree, hcnt, hcompletes, hcuts⟩ := next_congr ps hs htook
  unfold ChunkOk
  rw [hrx, hfree, hcnt, hcompletes, hcuts]
  exact hok

/-- What waits is taken: the next chunk leaves the UART FIFO, and the packets that it completes
are put. -/
def TakesChunk (ps : List H4Packet) (s s' : HciH4TrCb) : Prop :=
  s'.pRxFifo.used + 1 = s.pRxFifo.used ∧
    s'.put = s.put ++ ((frames ps).drop s.put.length).take (s.completes ps)

/-- No call loses or delays what has room: a chunk that comes is queued, a call that finds a
chunk queued, and room for the packets that it completes, takes it, and the stack gets a packet
that was put. -/
def Progress (fuel : ℕ) (ps : List H4Packet) (s : HciH4TrCb) : H4Input → Prop
  | .rxHandler now => s.pRxFifo.wptr ≠ s.pRxFifo.rptr → s.completes ps ≤ s.free →
      TakesChunk ps s (s.step fuel (.rxHandler now))
  | .uartRx chunk => chunk ≠ [] → (s.step fuel (.uartRx chunk)).rcvd = s.rcvd ++ [chunk]
  | .consume => s.taken ≠ s.put → ∃ p, (s.step fuel .consume).taken = s.taken ++ [p]

/-- A call of the handler behind the flush. Where the FIFO has room, it takes the chunk. -/
theorem carries_rxChunk (hs : Carries ps s h) (hfuel : hciH4TrRxBufSize ≤ fuel)
    (hok : s.ChunkOk ps) :
    ∃ h', Carries ps (s.rxChunk fuel) h' ∧ (s.rxChunk fuel).rcvd = s.rcvd ∧
      (s.pRxFifo.wptr ≠ s.pRxFifo.rptr → s.completes ps ≤ s.free →
        TakesChunk ps s (s.rxChunk fuel)) := by
  unfold rxChunk
  split
  next heq => exact ⟨h, hs, rfl, fun hne => absurd heq hne⟩
  next hne =>
    obtain ⟨hcut, hroom⟩ := hok hne
    obtain ⟨s', ⟨hle, heq, htook⟩ | ⟨hlt, heq, htook⟩⟩ := hs.handles hfuel hne hcut (by omega)
    · rw [heq]
      have hs' := hs.advance hne hcut hle htook
      have hrcvd : s'.rcvd = s.rcvd := congrArg Side.rcvd htook.side
      refine ⟨h + 1, hs', hrcvd, fun _ _ => ⟨?_, htook.put⟩⟩
      obtain ⟨hlt, -⟩ := hs.head hne
      rw [hs'.queue.used_eq, hs.queue.used_eq]
      show s'.rcvd.length - (h + 1) + 1 = _
      rw [hrcvd]
      omega
    · -- the FIFO is full and the chunk has not been touched
      rw [heq]
      obtain ⟨hfree, hcnt⟩ : s.free = 0 ∧ s.backupCnt = 0 := by
        rcases hroom with hle | hfull
        · exact absurd hlt (Nat.not_lt.mpr hle)
        · exact hfull
      rw [hfree] at htook
      have hnil := List.length_eq_zero_iff.mp (hs.backs.cnt.symm.trans hcnt)
      exact ⟨h, hs.congr (by rw [hnil]; exact htook), congrArg Side.rcvd htook.side,
        fun _ hle => absurd hlt (Nat.not_lt.mpr hle)⟩

theorem carries_step (hs : Carries ps s h) (hfuel : hciH4TrRxBufSize ≤ fuel) {i : H4Input}
    (hfeeds : s.Feeds ps i) (hok : s.HandlerOk ps i) : ∃ h', Carries ps (s.step fuel i) h' := by
  cases i with
  | uartRx chunk =>
    rw [step_uartRx hs.running]
    exact ⟨h, carries_uartRx hs hfeeds.1 hfeeds.2.1 hfeeds.2.2⟩
  | consume =>
    rw [step_consume hs.running]
    exact ⟨h, carries_consume hs⟩
  | rxHandler now =>
    rw [step_rxHandler hs.running]
    have htook := hs.took_flush hok.1
    obtain ⟨h', hs', -⟩ := carries_rxChunk (hs.congr htook) hfuel (hok.2.congr hs.backs htook)
    exact ⟨h', hs'⟩

theorem progress_step (hs : Carries ps s h) (hfuel : hciH4TrRxBufSize ≤ fuel) {i : H4Input}
    (hfeeds : s.Feeds ps i) (hok : s.HandlerOk ps i) : s.Progress fuel ps i := by
  cases i with
  | uartRx chunk =>
    intro hne
    rw [step_uartRx hs.running, uartRxIRQHandler, if_neg (Nat.not_le.mpr hfeeds.1),
      if_neg (mt List.length_eq_zero_iff.mp hne)]
  | consume =>
    intro hne
    rw [step_consume hs.running, consume, if_neg]
    · exact ⟨_, rfl⟩
    · exact fun hempty => hne (hs.taken.eq_of_length (hs.fifo.empty_iff.mp hempty).symm)
  | rxHandler now =>
    intro hne hroom
    rw [step_rxHandler hs.running]
    have htook := hs.took_flush hok.1
    obtain ⟨hrx, hput, hfree, -, hcompletes, -⟩ := next_congr ps hs.backs htook
    obtain ⟨-, -, -, htakes⟩ :=
      carries_rxChunk (hs.congr htook) hfuel (hok.2.congr hs.backs htook)
    rw [hrx, hcompletes, hfree] at htakes
    have hchunk := htakes hne hroom
    unfold TakesChunk at hchunk ⊢
    rw [hrx, hput, hcompletes] at hchunk
    exact hchunk

/-! ## Back-pressure -/

/-- Nothing is lost and nothing duplicated: every packet is put once and in order, the stack
reads what has been put, and behind the last chunk all packets that are complete are put. -/
structure Lossless (ps : List H4Packet) (s : HciH4TrCb) : Prop where
  running : s.hung = false
  once : s.put <+: frames ps
  kept : s.taken <+: s.put
  room : s.put.length ≤ s.taken.length + s.pHciRxFifo.num
  complete : s.pRxFifo.wptr = s.pRxFifo.rptr →
    s.put = (frames ps).take (completed (frames ps) s.rcvd.flatten.length)

theorem Carries.lossless (hs : Carries ps s h) : Lossless ps s where
  running := hs.running
  once := by
    rw [hs.put]
    exact List.take_prefix _ _
  kept := hs.taken
  room := hs.fifo.room
  complete hempty := by
    have hall := hs.queue.empty_iff.mp hempty
    rw [hs.put, offset, ← hall, List.take_length]

theorem frames_ne_nil (ps : List H4Packet) : ∀ q ∈ frames ps, q ≠ [] := by
  intro q hq
  obtain ⟨p, -, rfl⟩ := List.mem_map.mp hq
  exact p.encode_ne_nil

theorem carries_init (ps : List H4Packet) (k : ℕ) (hk : k ≤ 7) : Carries ps (init k hk) 0 where
  queue := Ring.Tracks.empty 256 _ _
  stream := List.nil_prefix
  chunk_le := nofun
  put := by
    show [] = (frames ps).take (completed (frames ps) 0)
    rw [completed_zero (frames_ne_nil ps), List.take_zero]
  backs := by
    show (init k hk).Backs (leftover (frames ps) 0)
    rw [leftover_zero]
    exact ⟨rfl, rfl, by decide⟩
  cut := by
    show ∀ q ∈ cutFrame (frames ps) 0, _
    rw [cutFrame_zero]
    exact nofun
  fifo := Ring.Tracks.empty 256 _ _
  taken := List.nil_prefix
  running := rfl

/-- While no flush drops a half packet, no packet of 256 bytes or more is cut, and the
packets that a chunk completes fit the HCI RX FIFO, nothing is lost and nothing
duplicated, and no call leaves a chunk that has room. -/
theorem back_pressure (hfuel : hciH4TrRxBufSize ≤ fuel) (k : ℕ) (hk : k ≤ 7)
    (ps : List H4Packet) (is : List H4Input)
    (hok : Along (step fuel) (fun s i => s.Feeds ps i ∧ s.HandlerOk ps i) (init k hk) is) :
    Always (step fuel) (Lossless ps) (init k hk) is ∧
      Along (step fuel) (Progress fuel ps) (init k hk) is := by
  have hstep : ∀ s i, (∃ h, Carries ps s h) → s.Feeds ps i ∧ s.HandlerOk ps i →
      ∃ h, Carries ps (s.step fuel i) h := by
    intro s i ⟨h, hs⟩ ⟨hfeeds, hok⟩
    exact carries_step hs hfuel hfeeds hok
  have hinit : ∃ h, Carries ps (init k hk) h := ⟨0, carries_init ps k hk⟩
  constructor
  · apply always_of_invariant hstep _ hinit hok
    intro s ⟨h, hs⟩
    exact hs.lossless
  · apply along_of_invariant hstep _ hinit hok
    intro s i ⟨h, hs⟩ hi
    exact progress_step hs hfuel hi.1 hi.2

/-- A command without parameters. -/
def emptyCmd (lo : UInt8) : H4Packet := ⟨.cmd, lo, 0x0c, [], by decide, by decide⟩

/-- Two commands, the second one cut, to a FIFO of two slots. -/
def cutRun : List H4Input :=
  [.uartRx [0x01, 0x01, 0x0c, 0x00, 0x01, 0x02], .uartRx [0x0c, 0x00], .rxHandler 1,
    .rxHandler 1, .consume, .consume]

theorem back_pressure_cutRun :
    Always (step hciH4TrRxBufSize) (Lossless [emptyCmd 1, emptyCmd 2]) (init 1 (by decide))
        cutRun ∧
      Along (step hciH4TrRxBufSize) (Progress hciH4TrRxBufSize [emptyCmd 1, emptyCmd 2])
        (init 1 (by decide)) cutRun :=
  back_pressure (Nat.le_refl _) 1 (by decide) _ _ (by decide +kernel)

/-- A chunk of two commands, to a FIFO of one slot that the stack empties in between. -/
def restartRun : List H4Input :=
  [.uartRx [0x01, 0x01, 0x0c, 0x00, 0x01, 0x02, 0x0c, 0x00], .rxHandler 1, .consume,
    .rxHandler 1]

theorem back_pressure_fails :
    (Along (step hciH4TrRxBufSize) (Feeds [emptyCmd 1, emptyCmd 2]) (init 0 (by decide))
        restartRun ∧
      ¬ Always (step hciH4TrRxBufSize) (Lossless [emptyCmd 1, emptyCmd 2]) (init 0 (by decide))
        restartRun) ∧
    (Along (step hciH4TrRxBufSize) (Feeds [emptyCmd 1, emptyCmd 2]) (init 0 (by decide))
        cutRun ∧
      ¬ Always (step hciH4TrRxBufSize) (Lossless [emptyCmd 1, emptyCmd 2]) (init 0 (by decide))
        cutRun) := by
  refine ⟨⟨by decide +kernel, ?_⟩, by decide +kernel, ?_⟩
  · -- the first command is put twice
    intro h
    exact absurd h.last.once (by decide +kernel)
  · -- the backup path overwrites the first command
    intro h
    exact absurd h.last.kept (by decide +kernel)

end HciH4TrCb
end TlBleSdk.Hci
