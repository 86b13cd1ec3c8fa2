import TlBleSdk.Hci.TrH5Runs

/-!
# Long SLIP frames that a chunk boundary cuts

The backup path counts in 8 bits, so a frame of 256 bytes or more is found only by the
direct path, inside one chunk. `longHeads` counts the places of a byte list where such a
frame starts; a chunk gives at most that many calls with a long frame, and when a boundary
cuts a long frame the chunks have together fewer of them than the stream. So the calls of the
SLIP handler are the frames of the stream exactly when no boundary cuts a long frame.
-/

namespace TlBleSdk.Hci

open Framing Machine

/-! ## Counting long frames -/

/-- The number of frames of 256 bytes or more. -/
def longs (ls : List (List UInt8)) : ℕ := ls.countP fun l => 256 ≤ l.length

/-- A frame of 256 bytes or more starts here. -/
def longHead : List UInt8 → Bool
  | [] => false
  | x :: l => x = slipFlag && (findSlipFlag l).any fun r => 256 ≤ (x :: l).length - r.length + 1

/-- The number of places where a frame of 256 bytes or more starts. -/
def longHeads : List UInt8 → ℕ
  | [] => 0
  | x :: l => (if longHead (x :: l) then 1 else 0) + longHeads l

theorem findSlipFlag_suffix {l r : List UInt8} (h : findSlipFlag l = some r) :
    r <:+ l ∧ ∃ m, r = slipFlag :: m := by
  induction l with
  | nil => exact absurd h nofun
  | cons x l ih =>
    rw [findSlipFlag] at h
    split at h
    · obtain ⟨hsuf, hm⟩ := ih h
      exact ⟨hsuf.trans (List.suffix_cons x l), hm⟩
    next hx =>
      obtain rfl := Option.some.inj h
      exact ⟨List.suffix_refl _, l, by rw [Decidable.not_not.mp hx]⟩

theorem findSlipFlag_append_of_some {l r : List UInt8} (h : findSlipFlag l = some r)
    (m : List UInt8) : findSlipFlag (l ++ m) = some (r ++ m) := by
  induction l with
  | nil => exact absurd h nofun
  | cons x l ih =>
    rw [findSlipFlag] at h
    rw [List.cons_append, findSlipFlag]
    split at h
    next hx => rw [if_pos hx, ih h]
    next hx =>
      obtain rfl := Option.some.inj h
      rw [if_neg hx]
      rfl

/-- A frame that starts in `l` starts there in `l ++ m`, too. -/
theorem longHead_append {l : List UInt8} (h : longHead l = true) (m : List UInt8) :
    longHead (l ++ m) = true := by
  cases l with
  | nil => exact absurd h nofun
  | cons x l =>
    simp only [longHead, Bool.and_eq_true, Option.any_eq_true] at h
    obtain ⟨hx, r, hr, hlen⟩ := h
    simp only [List.cons_append, longHead, Bool.and_eq_true, Option.any_eq_true]
    refine ⟨hx, r ++ m, findSlipFlag_append_of_some hr m, ?_⟩
    have hle := (findSlipFlag_suffix hr).1.length_le
    simp only [decide_eq_true_eq, List.length_cons, List.length_append] at hlen ⊢
    omega

theorem longHeads_append (l m : List UInt8) :
    longHeads l + longHeads m ≤ longHeads (l ++ m) := by
  induction l with
  | nil => simp [longHeads]
  | cons x l ih =>
    simp only [List.cons_append, longHeads]
    by_cases h : longHead (x :: l) = true
    · have happ := longHead_append h m
      rw [List.cons_append] at happ
      rw [if_pos h, if_pos happ]
      omega
    · rw [if_neg h]
      omega

/-- A frame that starts in `l` and ends in `m` counts only when they are together. -/
theorem longHeads_append_of_cut {l₁ l₂ m : List UInt8} (hne : l₂ ≠ [])
    (hcut : longHead l₂ = false) (h : longHead (l₂ ++ m) = true) :
    longHeads (l₁ ++ l₂) + longHeads m + 1 ≤ longHeads (l₁ ++ l₂ ++ m) := by
  induction l₁ with
  | nil =>
    obtain ⟨x, l, rfl⟩ := List.exists_cons_of_ne_nil hne
    have happ := longHeads_append l m
    rw [List.cons_append] at h
    simp only [List.nil_append, List.cons_append, longHeads, hcut, h, if_true]
    simp only [Bool.false_eq_true, if_false]
    omega
  | cons x l ih =>
    simp only [List.cons_append, longHeads]
    by_cases hx : longHead (x :: (l ++ l₂)) = true
    · have happ := longHead_append hx m
      rw [List.cons_append] at happ
      rw [if_pos hx, if_pos happ]
      omega
    · rw [if_neg hx]
      omega

theorem longHeads_suffix {l m : List UInt8} (h : l <:+ m) : longHeads l ≤ longHeads m := by
  obtain ⟨k, rfl⟩ := h
  have := longHeads_append k l
  omega

/-- The long frames of the chunks are long frames of the stream. -/
theorem longHeads_flatten (cs : List (List UInt8)) :
    (cs.map longHeads).sum ≤ longHeads cs.flatten := by
  induction cs with
  | nil => exact Nat.le_refl _
  | cons c cs ih =>
    have := longHeads_append c cs.flatten
    rw [List.map_cons, List.sum_cons, List.flatten_cons]
    omega

theorem longHead_encode (f : SlipFrame) (l : List UInt8) :
    longHead (f.encode ++ l) = decide (256 ≤ f.encode.length) := by
  have hlen : (slipFlag :: (f.body ++ slipFlag :: l)).length - (slipFlag :: l).length + 1 =
      f.encode.length := by
    rw [f.length_encode]
    simp only [List.length_cons, List.length_append]
    omega
  have henc : f.encode ++ l = slipFlag :: (f.body ++ slipFlag :: l) := by
    simp [SlipFrame.encode]
  rw [henc, longHead, findSlipFlag_append f.body_ne, Option.any_some, hlen]
  simp

/-- A frame, followed by another one or by nothing. -/
theorem longHeads_encode (f : SlipFrame) {l : List UInt8} (hl : ∀ x ∈ l.head?, x = slipFlag) :
    longHeads (f.encode ++ l) = (if 256 ≤ f.encode.length then 1 else 0) + longHeads l := by
  have hbody : ∀ m : List UInt8, (∀ x ∈ m, x ≠ slipFlag) → longHeads (m ++ slipFlag :: l) =
      longHeads (slipFlag :: l) := by
    intro m hm
    induction m with
    | nil => rfl
    | cons x m ih =>
      rw [List.cons_append, longHeads, longHead, ih fun y hy => hm y (List.mem_cons_of_mem _ hy)]
      simp [hm x List.mem_cons_self]
  have hlast : longHeads (slipFlag :: l) = longHeads l := by
    cases l with
    | nil => rfl
    | cons x l =>
      rw [longHeads, longHead, hl x rfl]
      simp [findSlipFlag]
  have hhead := longHead_encode f l
  have henc : f.encode ++ l = slipFlag :: (f.body ++ slipFlag :: l) := by
    simp [SlipFrame.encode]
  rw [henc] at hhead ⊢
  rw [longHeads, hbody _ f.body_ne, hlast, hhead]
  simp

theorem head_flatten_frames (fs : List SlipFrame) :
    ∀ x ∈ (fs.map SlipFrame.encode).flatten.head?, x = slipFlag := by
  cases fs with
  | nil => exact nofun
  | cons f fs =>
    intro x hx
    exact (Option.some.inj hx).symm

/-- The stream has as many long frames as its frames. -/
theorem longHeads_frames (fs : List SlipFrame) :
    longHeads (fs.map SlipFrame.encode).flatten = longs (fs.map SlipFrame.encode) := by
  induction fs with
  | nil => rfl
  | cons f fs ih =>
    rw [List.map_cons, List.flatten_cons, longHeads_encode f (head_flatten_frames fs), ih, longs,
      longs, List.countP_cons]
    simp only [decide_eq_true_eq]
    omega

namespace HciH5TrCb

variable {s s' s₁ s₂ : HciH5TrCb} {l c : List UInt8} {m n fuel h : ℕ} {fs : List SlipFrame}
  {cs : List (List UInt8)}

/-! ## Calls with a long frame -/

/-- From `s` to `s'` the SLIP handler has been called with at most `n` long frames. -/
structure Calls (n : ℕ) (s s' : HciH5TrCb) : Prop where
  side : s'.side = s.side
  slips : longs s'.slips ≤ longs s.slips + n

theorem Calls.refl (s : HciH5TrCb) : Calls n s s := ⟨rfl, Nat.le_add_right _ _⟩

theorem Calls.trans (h₁ : Calls m s s₁) (h₂ : Calls n s₁ s₂) : Calls (m + n) s s₂ where
  side := h₂.side.trans h₁.side
  slips := by
    have := h₁.slips
    have := h₂.slips
    omega

theorem Calls.mono (h : Calls m s s') (hmn : m ≤ n) : Calls n s s' where
  side := h.side
  slips := by
    have := h.slips
    omega

theorem calls_slipHandler (s : HciH5TrCb) (l : List UInt8) :
    Calls (if 256 ≤ l.length then 1 else 0) s (s.slipHandler l) where
  side := rfl
  slips := by
    show longs (s.slips ++ [l]) ≤ _
    rw [longs, longs, List.countP_append, List.countP_singleton]
    simp

/-- The backup path finds no long frame. -/
theorem calls_backupLoop (l : List UInt8) (cnt : ℕ) (s : HciH5TrCb) :
    Calls 0 s (backupLoop l cnt s).2 := by
  induction l generalizing cnt s with
  | nil => exact Calls.refl s
  | cons x l ih =>
    unfold backupLoop
    split
    · exact ⟨rfl, Nat.le_refl _⟩
    split
    · split
      · exact ih _ _
      · have hcall := calls_slipHandler (s.appendBackup [x])
          (bytes (s.appendBackup [x]).pBackupBuf (s.appendBackup [x]).backupCnt)
        rw [if_neg] at hcall
        · exact ⟨hcall.side, hcall.slips⟩
        · rw [length_bytes]
          exact Nat.not_le.mpr (u8_lt _)
    · have hrest := ih (u16 (cnt + 1)) (s.appendBackup [x]).timerEnable
      exact ⟨hrest.side, hrest.slips⟩

theorem calls_backupHandler (l : List UInt8) (s : HciH5TrCb) :
    Calls 0 s (s.backupHandler l).2 := by
  unfold backupHandler
  split
  · exact ⟨rfl, Nat.le_refl _⟩
  · exact calls_backupLoop l 0 s

theorem calls_rxBackup (l : List UInt8) (s : HciH5TrCb) :
    (s.rxBackup l).1 <:+ l ∧ Calls 0 s (s.rxBackup l).2 := by
  unfold rxBackup
  split
  · exact ⟨List.drop_suffix _ _, calls_backupHandler l s⟩
  · exact ⟨List.suffix_refl l, Calls.refl s⟩

theorem findSlipHeadFlag_suffix {r : List UInt8} (h : findSlipHeadFlag l = some r) :
    r <:+ l ∧ ∃ m, r = slipFlag :: m := by
  induction l with
  | nil => cases h
  | cons x l ih =>
    cases l with
    | nil =>
      rw [findSlipHeadFlag] at h
      split at h
      next hx =>
        obtain rfl := Option.some.inj h
        exact ⟨List.suffix_refl _, [], by rw [hx]⟩
      · cases h
    | cons y l =>
      rw [findSlipHeadFlag] at h
      split at h
      next hx =>
        obtain rfl := Option.some.inj h
        exact ⟨List.suffix_refl _, y :: l, by rw [hx.1]⟩
      · obtain ⟨hsuf, hm⟩ := ih h
        exact ⟨hsuf.trans (List.suffix_cons x _), hm⟩

/-- The loop over a chunk ends, and has found at most the long frames that start in it. -/
theorem calls_rxLoop (hfuel : l.length < fuel) (hlen : l.length < 65535) (s : HciH5TrCb) :
    ∃ s', rxLoop fuel l s = some s' ∧ Calls (longHeads l) s s' := by
  induction fuel generalizing l s with
  | zero => exact absurd hfuel (Nat.not_lt_zero _)
  | succ fuel ih =>
    by_cases hne : l.length = 0
    · exact ⟨s, if_pos hne, Calls.refl s⟩
    have hback := calls_rxBackup l s
    cases hr : s.rxBackup l with
    | mk c s₁ =>
    rw [hr] at hback
    obtain ⟨hsuf, hback⟩ : c <:+ l ∧ Calls 0 s s₁ := hback
    rw [rxLoop_turn hne hr]
    cases hhead : findSlipHeadFlag c with
    | none => exact ⟨_, rfl, hback.mono (Nat.zero_le _)⟩
    | some pBuf =>
      obtain ⟨hsuf₁, m, rfl⟩ := findSlipHeadFlag_suffix hhead
      have hle := (hsuf₁.trans hsuf).length_le
      have hheads := longHeads_suffix (hsuf₁.trans hsuf)
      have hpart := (hback.trans (calls_backupHandler (slipFlag :: m) _)).mono
        (Nat.zero_le (longHeads l))
      simp only [List.drop_succ_cons, List.drop_zero]
      cases hflag : findSlipFlag m with
      | none => exact ⟨_, rfl, hpart⟩
      | some pBuf2 =>
        have hle₂ := (findSlipFlag_suffix hflag).1.length_le
        rw [List.length_cons] at hle
        simp only [List.length_cons]
        split
        · exact ⟨_, rfl, hpart⟩
        rw [u16_of_lt (show m.length + 1 - pBuf2.length + 1 < 65536 by omega)]
        generalize hslip : m.length + 1 - pBuf2.length + 1 = slipLen
        have hpos : slipLen - 1 + 1 = slipLen := by omega
        have hdrop : (slipFlag :: m).drop slipLen = m.drop (slipLen - 1) := by
          rw [← hpos, List.drop_succ_cons, Nat.add_sub_cancel]
        have htail := longHeads_suffix (List.drop_suffix (slipLen - 1) m)
        have hshort : (m.drop (slipLen - 1)).length ≤ m.length := by
          rw [List.length_drop]
          omega
        rw [hdrop]
        split
        · obtain ⟨s', heq, hcalls⟩ :=
            ih (Nat.lt_of_le_of_lt hshort (show m.length < fuel by omega)) (by omega) s₁
          refine ⟨s', heq, (hback.trans hcalls).mono ?_⟩
          rw [longHeads] at hheads
          omega
        · obtain ⟨s', heq, hcalls⟩ :=
            ih (Nat.lt_of_le_of_lt hshort (show m.length < fuel by omega)) (by omega)
            (s₁.slipHandler ((slipFlag :: m).take slipLen))
          refine ⟨s', heq, ((hback.trans (calls_slipHandler s₁ _)).trans hcalls).mono ?_⟩
          -- a call with a long frame is one that starts here
          rw [longHeads] at hheads
          split
          next hlong =>
            rw [List.length_take, List.length_cons] at hlong
            rw [if_pos] at hheads
            · omega
            · simp only [longHead, hflag, Option.any_some, List.length_cons, hslip]
              simp
              omega
          · omega

/-! ## Chunking -/

/-- The chunks handled give no more long frames than start in them. -/
theorem byChunk_calls (hfuel : ∀ c ∈ cs, c.length < fuel) (hlen : ∀ c ∈ cs, c.length < 65535) :
    ByChunk fuel cs fun s h => longs s.slips ≤ ((cs.take h).map longHeads).sum where
  congr hs hslips _ _ := by rwa [hslips]
  loop := by
    intro s h hlt hs
    have hmem := List.getElem_mem hlt
    obtain ⟨s', heq, hcalls⟩ := calls_rxLoop (hfuel _ hmem) (hlen _ hmem) s
    refine ⟨s', heq, hcalls.side, ?_⟩
    have hslips := hcalls.slips
    rw [List.take_succ_eq_append_getElem hlt, List.map_append, List.sum_append,
      List.map_singleton, List.sum_singleton]
    omega

/-- When a boundary cuts a long frame, the chunks have fewer long frames than the stream. -/
theorem longHeads_of_cut (hcs : cs.flatten = (frames fs).flatten) (hcut : ¬ NoLongCut fs cs) :
    (cs.map longHeads).sum < longs (frames fs) := by
  unfold NoLongCut at hcut
  push Not at hcut
  obtain ⟨h, -, q, hq, hlong⟩ := hcut
  obtain ⟨pre, post, hsplit, hlo, hhi⟩ := cutFrame_split hq
  obtain ⟨pre', rest, rfl, rfl, hrest⟩ := List.map_eq_append_iff.mp hsplit
  obtain ⟨f, post', rfl, rfl, rfl⟩ := List.map_eq_cons_iff.mp hrest
  -- the cut frame is `a ++ m`: the chunks up to the boundary end in `a`
  obtain ⟨a, m, ham, halen⟩ : ∃ a m, f.encode = a ++ m ∧
      (pre'.map SlipFrame.encode).flatten.length + a.length = offset cs h := by
    refine ⟨f.encode.take (offset cs h - (pre'.map SlipFrame.encode).flatten.length),
      f.encode.drop _, (List.take_append_drop _ _).symm, ?_⟩
    rw [List.length_take]
    omega
  have hlen := congrArg List.length ham
  rw [List.length_append] at hlen
  have hsides : (cs.take h).flatten = (pre'.map SlipFrame.encode).flatten ++ a ∧
      (cs.drop h).flatten = m ++ (post'.map SlipFrame.encode).flatten := by
    apply List.append_inj
    · rw [← List.flatten_append, List.take_append_drop, hcs, frames, List.map_append,
        List.map_cons, List.flatten_append, List.flatten_cons, ham]
      simp only [List.append_assoc]
    · rw [List.length_append, halen]
      rfl
  have ha : a ≠ [] := List.ne_nil_of_length_pos (by omega)
  have hm : m ≠ [] := List.ne_nil_of_length_pos (by omega)
  obtain ⟨b', m', hbody, rfl, -⟩ := f.split ham ha hm
  have hpart : longHead (slipFlag :: b') = false := by
    have hne : ∀ x ∈ b', x ≠ slipFlag := fun x hx =>
      f.body_ne x (hbody ▸ List.mem_append_left _ hx)
    rw [longHead, findSlipFlag_of_ne hne]
    rfl
  have hwhole := longHead_encode f (post'.map SlipFrame.encode).flatten
  rw [ham, List.append_assoc, ← ham, decide_eq_true hlong] at hwhole
  have hstrict : longHeads ((pre'.map SlipFrame.encode).flatten ++ _) + _ + 1 ≤ _ :=
    longHeads_append_of_cut ha hpart hwhole
  have hleft := longHeads_flatten (cs.take h)
  have hright := longHeads_flatten (cs.drop h)
  rw [hsides.1] at hleft
  rw [hsides.2] at hright
  have hstream := longHeads_frames (pre' ++ f :: post')
  rw [List.map_append, List.map_cons, List.flatten_append, List.flatten_cons, ham] at hstream
  have hsum : (cs.map longHeads).sum =
      ((cs.take h).map longHeads).sum + ((cs.drop h).map longHeads).sum := by
    rw [← List.sum_append, ← List.map_append, List.take_append_drop]
  rw [frames, List.map_append, List.map_cons, ham, ← hstream, hsum]
  simp only [List.append_assoc] at hstrict ⊢
  omega

/-- The run of the inputs `is`. -/
def received (fuel : ℕ) (is : List H5Input) : HciH5TrCb := run (step fuel) init is

/-- The chunks fit a slot of the UART FIFO and make up the stream of `fs`, a call of the handler
follows them, and no flush fires. -/
structure Smooth (fuel : ℕ) (fs : List SlipFrame) (is : List H5Input) : Prop where
  fits : ∀ c ∈ H5Input.chunks is, c ≠ [] ∧ c.length ≤ hciH5TrRxBufSize - 4
  stream : (H5Input.chunks is).flatten = (frames fs).flatten
  steps : Along (step fuel) Undisturbed init is
  done : H5Input.waiting 0 is = 0

/-- Behind a run, the first `h` chunks are all of them. -/
theorem Smooth.byChunk {is : List H5Input} (hsmooth : Smooth fuel fs is)
    (hfuel : hciH5TrRxBufSize ≤ fuel) {P : HciH5TrCb → ℕ → Prop}
    (hP : ByChunk fuel (H5Input.chunks is) P) (hinit : P init 0) :
    (received fuel is).hung = false ∧ P (received fuel is) (H5Input.chunks is).length := by
  have hsize : hciH5TrRxBufSize = 1248 := rfl
  have hs : Queued (H5Input.chunks is) init 0 :=
    ⟨Ring.Tracks.empty 256 _ _, List.nil_prefix, rfl⟩
  obtain ⟨h, hs', hP', hall⟩ := hP.run hs hinit (by omega) rfl (fun c hc => (hsmooth.fits c hc).1)
    hsmooth.steps
  have hzero : (init.rcvd.length - 0 : ℕ) = 0 := rfl
  rw [hzero, hsmooth.done, Nat.add_zero] at hall
  rw [hall]
  exact ⟨hs'.running, hP'⟩

/-- Deframing does not depend on the chunking exactly when no boundary cuts a frame of 256
bytes or more. -/
theorem deframing_iff (hfuel : hciH5TrRxBufSize ≤ fuel) (fs : List SlipFrame)
    (is : List H5Input) (hsmooth : Smooth fuel fs is) :
    (received fuel is).slips = frames fs ↔ NoLongCut fs (H5Input.chunks is) := by
  have hsize : hciH5TrRxBufSize = 1248 := rfl
  have hshort : ∀ c ∈ H5Input.chunks is, c.length < fuel ∧ c.length < 65535 := by
    intro c hc
    have := (hsmooth.fits c hc).2
    omega
  constructor
  · intro hslips
    by_contra hcut
    have hless := longHeads_of_cut hsmooth.stream hcut
    have hcalls := (hsmooth.byChunk hfuel (byChunk_calls (fun c hc => (hshort c hc).1)
      (fun c hc => (hshort c hc).2)) (Nat.zero_le _)).2
    rw [hslips, List.take_length] at hcalls
    omega
  · intro hcut
    have hdeframed := (hsmooth.byChunk hfuel (byChunk_deframed hsmooth.stream
      (fun c hc => (hshort c hc).1) hcut) (deframed_init fs _)).2
    rw [hdeframed.slips, offset, List.take_length, hsmooth.stream, completed_flatten,
      List.take_length]

/-- A frame of `n + 2` bytes. -/
def zeroFrame (n : ℕ) (h : 4 ≤ n ∧ n + 2 ≤ hciH5TrRxBufSize) : SlipFrame :=
  ⟨List.replicate n 0, by simpa using h.1, fun x hx => by
    rw [List.eq_of_mem_replicate hx]
    decide, by simpa using h.2⟩

/-- A chunk with the first delimiter of a frame, and one with its other bytes. -/
def delimiterApart (n : ℕ) : List H5Input :=
  [.uartRx [slipFlag], .rxHandler 1, .uartRx (List.replicate n 0 ++ [slipFlag]), .rxHandler 1]

theorem deframing_255 :
    (received hciH5TrRxBufSize (delimiterApart 253)).slips = frames [zeroFrame 253 (by decide)] :=
  (deframing_iff (Nat.le_refl _) _ _
    ⟨by decide +kernel, by decide +kernel, by decide +kernel, by decide +kernel⟩).mpr
    (by decide +kernel)

theorem deframing_256 :
    Smooth hciH5TrRxBufSize [zeroFrame 254 (by decide)] (delimiterApart 254) ∧
      (received hciH5TrRxBufSize (delimiterApart 254)).slips ≠
        frames [zeroFrame 254 (by decide)] :=
  ⟨⟨by decide +kernel, by decide +kernel, by decide +kernel, by decide +kernel⟩,
    by decide +kernel⟩

end HciH5TrCb
end TlBleSdk.Hci
