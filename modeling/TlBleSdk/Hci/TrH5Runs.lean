import TlBleSdk.Hci.TrH5Frames

/-!
# Runs of the H5 transport

A stream of SLIP frames comes in the chunks `cs`. What a run keeps is stated chunk by chunk:
a property `ByChunk` is kept by the loop over one chunk, and holds behind all of them at the
end (`ByChunk.run`). `byChunk_deframed` is the one for streams of which no chunk boundary
cuts a frame of 256 bytes or more.
-/

namespace TlBleSdk.Hci

open Framing Machine

/-- The chunks that the UART delivers. -/
def H5Input.chunks : List H5Input → List (List UInt8)
  | [] => []
  | uartRx chunk :: is => chunk :: chunks is
  | rxHandler _ :: is => chunks is

/-- The number of chunks that wait in the end, if `n` wait now and each call of the handler
takes all of them. -/
def H5Input.waiting (n : ℕ) : List H5Input → ℕ
  | [] => n
  | uartRx _ :: is => waiting (n + 1) is
  | rxHandler _ :: is => waiting 0 is

namespace HciH5TrCb

variable {s s' : HciH5TrCb} {b c l : List UInt8} {f : SlipFrame} {fs : List SlipFrame}
  {cs : List (List UInt8)} {fuel h n : ℕ} {P : HciH5TrCb → ℕ → Prop}

/-! ## Chunk by chunk -/

/-- The first `h` of the chunks `cs` are handled, and some more are queued. -/
structure Queued (cs : List (List UInt8)) (s : HciH5TrCb) (h : ℕ) : Prop where
  queue : s.pRxFifo.Holds s.rcvd h
  rcvd : s.rcvd <+: cs
  running : s.hung = false

/-- A property of the frames found and of the backup buffer that the loop over a chunk
keeps. -/
structure ByChunk (fuel : ℕ) (cs : List (List UInt8)) (P : HciH5TrCb → ℕ → Prop) : Prop where
  congr : ∀ {s s' h}, P s h → s'.slips = s.slips → s'.pBackupBuf = s.pBackupBuf →
    s'.backupCnt = s.backupCnt → P s' h
  loop : ∀ {s h} (hlt : h < cs.length), P s h →
    ∃ s', rxLoop fuel cs[h] s = some s' ∧ s'.side = s.side ∧ P s' (h + 1)

theorem ByChunk.queue (hP : ByChunk fuel cs P) (hs : Queued cs s h) (hPs : P s h)
    (hn : s.rcvd.length - h < n) :
    ∃ s', rxQueue fuel n s = some s' ∧ Queued cs s' s'.rcvd.length ∧ s'.rcvd = s.rcvd ∧
      P s' s'.rcvd.length := by
  induction n generalizing s h with
  | zero => exact absurd hn (Nat.not_lt_zero _)
  | succ n ih =>
    have hle := hs.queue.taken_le
    unfold rxQueue
    by_cases hempty : s.pRxFifo.wptr = s.pRxFifo.rptr
    · rw [if_pos hempty]
      obtain rfl := hs.queue.empty_iff.mp hempty
      exact ⟨s, rfl, hs, rfl, hPs⟩
    · rw [if_neg hempty]
      have hlt : h < s.rcvd.length := by
        have := mt hs.queue.empty_iff.mpr hempty
        omega
      have hlt' : h < cs.length := Nat.lt_of_lt_of_le hlt hs.rcvd.length_le
      have hfront : s.pRxFifo.front = cs[h] := by
        rw [hs.queue.front_eq hlt, hs.rcvd.getElem hlt]
      obtain ⟨s₁, heq, hside, hP₁⟩ := hP.loop hlt' hPs
      simp only [side, Side.mk.injEq] at hside
      obtain ⟨hrx, hrcvd, hhung⟩ := hside
      have hs₁ : Queued cs { s₁ with pRxFifo := s₁.pRxFifo.drop 1 } (h + 1) := by
        refine ⟨?_, ?_, hhung.trans hs.running⟩
        · show (s₁.pRxFifo.drop 1).Holds s₁.rcvd (h + 1)
          rw [hrx, hrcvd]
          exact hs.queue.drop hlt
        · show s₁.rcvd <+: cs
          rw [hrcvd]
          exact hs.rcvd
      obtain ⟨s', heq', hs', hrcvd', hP'⟩ := ih hs₁ (hP.congr hP₁ rfl rfl rfl)
        (show s₁.rcvd.length - (h + 1) < n by rw [hrcvd]; omega)
      rw [hfront, heq]
      exact ⟨s', heq', hs', hrcvd'.trans hrcvd, hP'⟩

/-- The UART FIFO has a slot for the chunk, and no flush fires. -/
def Undisturbed (s : HciH5TrCb) : H5Input → Prop
  | .uartRx _ => s.pRxFifo.used < s.pRxFifo.num
  | .rxHandler now => ¬ flushDue { s with now := now }

instance (s : HciH5TrCb) : ∀ i, Decidable (s.Undisturbed i)
  | .uartRx _ => inferInstanceAs (Decidable (_ < _))
  | .rxHandler _ => inferInstanceAs (Decidable (¬ _))

theorem queued_uartRx (hs : Queued cs s h) (hroom : s.pRxFifo.used < s.pRxFifo.num) (hc : c ≠ [])
    (hpre : s.rcvd ++ [c] <+: cs) :
    Queued cs (s.uartRxIRQHandler c) h ∧ (s.uartRxIRQHandler c).rcvd = s.rcvd ++ [c] := by
  have hfree : s.rcvd.length < h + s.pRxFifo.num := by
    have := hs.queue.taken_le
    rw [hs.queue.used_eq] at hroom
    omega
  have hpos := List.length_pos_iff.mpr hc
  rw [uartRxIRQHandler, if_neg (by omega), if_neg (by omega)]
  exact ⟨⟨hs.queue.push hfree c, hpre, hs.running⟩, rfl⟩

/-- A call of the handler without a flush takes all the chunks that are queued. -/
theorem ByChunk.rxHandler (hP : ByChunk fuel cs P) (hs : Queued cs s h) (hPs : P s h)
    (hfuel : 256 ≤ fuel) {now : ℕ} (hflush : ¬ flushDue { s with now := now }) :
    Queued cs (rxHandler fuel { s with now := now }) s.rcvd.length ∧
      P (rxHandler fuel { s with now := now }) s.rcvd.length ∧
      (rxHandler fuel { s with now := now }).rcvd = s.rcvd := by
  have hs₁ : Queued cs { s with now := now } h := ⟨hs.queue, hs.rcvd, hs.running⟩
  have hroom := hs.queue.room
  have hnum := s.pRxFifo.num_lt
  obtain ⟨s', heq, hs', hrcvd, hP'⟩ := hP.queue hs₁ (hP.congr hPs rfl rfl rfl)
    (show s.rcvd.length - h < fuel by omega)
  have hhandler : HciH5TrCb.rxHandler fuel { s with now := now } = s' := by
    unfold HciH5TrCb.rxHandler flushHandler
    rw [if_neg hflush, heq]
  rw [hhandler]
  rw [hrcvd] at hs' hP'
  exact ⟨hs', hP', hrcvd⟩

/-- The property holds behind every run that only cuts the stream, and the chunks that no call
of the handler has taken are queued. -/
theorem ByChunk.run (hP : ByChunk fuel cs P) {is : List H5Input} (hs : Queued cs s h)
    (hPs : P s h) (hfuel : 256 ≤ fuel) (hcs : s.rcvd ++ H5Input.chunks is = cs)
    (hne : ∀ c ∈ H5Input.chunks is, c ≠ []) (hsteps : Along (step fuel) Undisturbed s is) :
    ∃ h', Queued cs (Machine.run (step fuel) s is) h' ∧ P (Machine.run (step fuel) s is) h' ∧
      cs.length = h' + H5Input.waiting (s.rcvd.length - h) is := by
  induction is generalizing s h with
  | nil =>
    rw [H5Input.chunks, List.append_nil] at hcs
    have hle := hs.queue.taken_le
    exact ⟨h, hs, hPs, by rw [H5Input.waiting, ← hcs]; omega⟩
  | cons i is ih =>
    cases i with
    | uartRx c =>
      rw [H5Input.chunks] at hcs hne
      have hcs' : s.rcvd ++ [c] ++ H5Input.chunks is = cs := by
        rw [List.append_assoc, List.singleton_append, hcs]
      obtain ⟨hs', hrcvd⟩ := queued_uartRx hs hsteps.1 (hne c List.mem_cons_self)
        (hcs' ▸ List.prefix_append _ _)
      have hstep : s.step fuel (.uartRx c) = _ := step_uartRx hs.running c
      have hsteps' := hsteps.2
      rw [hstep] at hsteps'
      have hwait : (s.uartRxIRQHandler c).rcvd.length - h = s.rcvd.length - h + 1 := by
        have hle := hs.queue.taken_le
        rw [hrcvd, List.length_append, List.length_singleton]
        omega
      rw [run_cons, hstep, H5Input.waiting, ← hwait]
      apply ih hs' _ (hrcvd.symm ▸ hcs') (fun d hd => hne d (List.mem_cons_of_mem _ hd)) hsteps'
      apply hP.congr hPs <;> unfold uartRxIRQHandler <;> split <;> try split
      all_goals rfl
    | rxHandler now =>
      obtain ⟨hs', hP', hrcvd⟩ := hP.rxHandler hs hPs hfuel hsteps.1
      have hstep : s.step fuel (.rxHandler now) = _ := step_rxHandler hs.running now
      have hsteps' := hsteps.2
      rw [hstep] at hsteps'
      have hwait : (HciH5TrCb.rxHandler fuel { s with now := now }).rcvd.length -
          s.rcvd.length = 0 := by
        rw [hrcvd, Nat.sub_self]
      rw [run_cons, hstep, H5Input.waiting, ← hwait]
      exact ih hs' hP' (hrcvd.symm ▸ hcs) hne hsteps'

/-! ## Short frames -/

/-- The frames as bytes. -/
def frames (fs : List SlipFrame) : List (List UInt8) := fs.map SlipFrame.encode

/-- The offset in the stream behind the first `h` chunks. -/
def offset (cs : List (List UInt8)) (h : ℕ) : ℕ := (cs.take h).flatten.length

theorem take_offset (cs : List (List UInt8)) (h : ℕ) :
    cs.flatten.take (offset cs h) = (cs.take h).flatten := by
  have happ : cs.flatten = (cs.take h).flatten ++ (cs.drop h).flatten := by
    rw [← List.flatten_append, List.take_append_drop]
  rw [happ]
  exact List.take_left

theorem offset_le (cs : List (List UInt8)) (h : ℕ) : offset cs h ≤ cs.flatten.length := by
  have hlen := congrArg List.length (take_offset cs h)
  rw [List.length_take] at hlen
  unfold offset at hlen ⊢
  omega

theorem offset_succ (hlt : h < cs.length) : offset cs (h + 1) = offset cs h + cs[h].length := by
  unfold offset
  rw [List.take_succ_eq_append_getElem hlt, List.flatten_append, List.length_append,
    List.flatten_singleton]

/-- No chunk boundary cuts a frame of 256 bytes or more. -/
def NoLongCut (fs : List SlipFrame) (cs : List (List UInt8)) : Prop :=
  ∀ h ≤ cs.length, ∀ q ∈ cutFrame (frames fs) (offset cs h), q.length < 256

instance (fs : List SlipFrame) (cs : List (List UInt8)) : Decidable (NoLongCut fs cs) :=
  inferInstanceAs (Decidable (∀ h ≤ cs.length, ∀ q ∈ cutFrame _ _, _))

/-- The frames that end in the first `h` chunks are found, and the backup buffer holds the
beginning of the next one. -/
structure Deframed (fs : List SlipFrame) (cs : List (List UInt8)) (s : HciH5TrCb) (h : ℕ) :
    Prop where
  slips : s.slips = (frames fs).take (completed (frames fs) (offset cs h))
  backs : s.Backs (leftover (frames fs) (offset cs h))

theorem deframed_init (fs : List SlipFrame) (cs : List (List UInt8)) : Deframed fs cs init 0 where
  slips := by
    show [] = (frames fs).take (completed (frames fs) 0)
    have hne : ∀ q ∈ frames fs, q ≠ [] := by
      intro q hq
      obtain ⟨f, -, rfl⟩ := List.mem_map.mp hq
      exact nofun
    rw [completed_zero hne, List.take_zero]
  backs := by
    show Backs init (leftover (frames fs) 0)
    rw [leftover_zero]
    exact ⟨rfl, rfl, by decide⟩

theorem byChunk_deframed (hcs : cs.flatten = (frames fs).flatten)
    (hfuel : ∀ c ∈ cs, c.length < fuel) (hcut : NoLongCut fs cs) :
    ByChunk fuel cs (Deframed fs cs) where
  congr hs hslips hbuf hcnt :=
    ⟨hslips.trans hs.slips, hcnt.trans hs.backs.cnt, hbuf ▸ hs.backs.buf, hs.backs.lt⟩
  loop := by
    intro s h hlt hs
    have hle : offset cs h ≤ (frames fs).flatten.length := hcs ▸ offset_le cs h
    have hnext : leftover (frames fs) (offset cs h) ++ cs[h] <+:
        ((frames fs).drop (completed (frames fs) (offset cs h))).flatten := by
      apply leftover_append_prefix
      rw [← hcs, take_offset, ← List.flatten_singleton (l := cs[h]), ← List.flatten_append,
        ← List.take_succ_eq_append_getElem hlt, ← take_offset]
      exact List.take_prefix _ _
    have hcut' := hcut (h + 1) hlt
    rw [offset_succ hlt, cutFrame_append hle] at hcut'
    have hbegun : Begun (fs.drop (completed (frames fs) (offset cs h)))
        (leftover (frames fs) (offset cs h)) := by
      rcases leftover_begins (frames fs) (offset cs h) with hnil | ⟨q, rest, hq, hdrop, hcutq⟩
      · exact Or.inl hnil
      · rw [frames, ← List.map_drop] at hdrop
        obtain ⟨f, fs', hfs', hf, -⟩ := List.map_eq_cons_iff.mp hdrop
        exact Or.inr ⟨f, fs', q, hfs', hf, hq, hf ▸ hcut h (Nat.le_of_lt hlt) _ hcutq⟩
    obtain ⟨s', heq, htook⟩ := rxLoop_took (hfuel _ (List.getElem_mem hlt)) hs.backs hbegun
      (by rwa [List.map_drop]) (by rwa [List.map_drop])
    rw [List.map_drop] at htook
    refine ⟨s', heq, htook.side, ?_, ?_⟩
    · rw [htook.slips, hs.slips, offset_succ hlt, completed_append hle, List.take_add]
      rfl
    · rw [offset_succ hlt, leftover_append hle]
      exact htook.backs

end HciH5TrCb
end TlBleSdk.Hci
