import TlBleSdk.Hci.TrH4Chunking
import Mathlib.Data.List.Chain

/-!
# Long packets that a chunk boundary cuts

The backup path counts in 8 bits, so a packet of 256 bytes or more reaches the HCI RX FIFO
only through the direct path, out of a single chunk (`Sourced`). That holds in every state,
also behind a packet the handler has lost. A packet that the boundary cuts and that no other
bytes of the stream look like is therefore never put.
-/

namespace TlBleSdk.Hci

open Framing Machine

namespace HciH4TrCb

variable {s s' s₁ s₂ : HciH4TrCb} {Q : List UInt8 → Prop} {c l : List UInt8} {fuel : ℕ}

/-- From `s` to `s'` only packets that satisfy `Q` have been put. -/
structure PutsOnly (Q : List UInt8 → Prop) (s s' : HciH4TrCb) : Prop where
  rx : s'.pRxFifo = s.pRxFifo
  put : ∀ p ∈ s'.put, p ∈ s.put ∨ Q p

theorem PutsOnly.refl (s : HciH4TrCb) : PutsOnly Q s s := ⟨rfl, fun _ hp => Or.inl hp⟩

theorem PutsOnly.trans (h₁ : PutsOnly Q s s₁) (h₂ : PutsOnly Q s₁ s₂) : PutsOnly Q s s₂ where
  rx := h₂.rx.trans h₁.rx
  put p hp := (h₂.put p hp).elim (h₁.put p) Or.inr

theorem putsOnly_putPacket (h : Q l) : PutsOnly Q s (s.putPacket l) where
  rx := rfl
  put p hp := by
    rcases List.mem_append.mp hp with hp | hp
    · exact Or.inl hp
    · exact Or.inr (List.mem_singleton.mp hp ▸ h)

/-! ## The backup path -/

theorem putsOnly_appendBackup (s : HciH4TrCb) (l : List UInt8) :
    PutsOnly Q s (s.appendBackup l) := ⟨rfl, fun _ hp => Or.inl hp⟩

theorem putsOnly_timerEnable (s : HciH4TrCb) : PutsOnly Q s s.timerEnable :=
  ⟨rfl, fun _ hp => Or.inl hp⟩

/-- What the backup path puts has less than 256 bytes. -/
theorem putsOnly_putBackup (hQ : ∀ p, p.length < 256 → Q p) (h : s.backupCnt < 256) :
    PutsOnly Q s
      (timerDisable { s.putPacket (bytes s.pBackUpBuf s.backupCnt) with backupCnt := 0 }) := by
  have hput : PutsOnly Q s (s.putPacket (bytes s.pBackUpBuf s.backupCnt)) := by
    apply putsOnly_putPacket
    apply hQ
    rwa [length_bytes]
  exact ⟨hput.rx, hput.put⟩

theorem putsOnly_backUpBody (hQ : ∀ p, p.length < 256 → Q p) (headLen paramLen len : ℕ) :
    PutsOnly Q s (s.backUpBody headLen paramLen l len).2 := by
  have happ := putsOnly_appendBackup (Q := Q) s
  unfold backUpBody
  dsimp only
  split
  · exact (happ _).trans (putsOnly_putBackup hQ (u8_lt _))
  · exact (happ _).trans (putsOnly_timerEnable _)

theorem putsOnly_backUpPacket (hQ : ∀ p, p.length < 256 → Q p) (headLen len : ℕ)
    (paramLenOf : (ℕ → UInt8) → ℕ) :
    PutsOnly Q s (s.backUpPacket headLen paramLenOf l len).2 := by
  have happ := putsOnly_appendBackup (Q := Q) s
  unfold backUpPacket
  split
  · exact putsOnly_backUpBody hQ _ _ _
  split
  · exact (happ _).trans (putsOnly_backUpBody hQ _ _ _)
  · exact (happ _).trans (putsOnly_timerEnable _)

theorem putsOnly_backUpHandler (hQ : ∀ p, p.length < 256 → Q p) (len : ℕ) :
    PutsOnly Q s (s.backUpHandler l len).2 := by
  unfold backUpHandler
  split
  · exact ⟨rfl, fun _ hp => Or.inl hp⟩
  dsimp only
  split
  · exact putsOnly_backUpPacket hQ _ _ _
  split
  · exact putsOnly_backUpPacket hQ _ _ _
  · exact PutsOnly.refl s

/-! ## The loop -/

/-- What is put comes from the backup buffer or out of the chunk `c`. -/
def ShortOrIn (c p : List UInt8) : Prop := p.length < 256 ∨ p <:+: c

/-- A turn puts what it should, and goes on with a rest of `l`. -/
def Turn.PutsOnly (c : List UInt8) (s : HciH4TrCb) (l : List UInt8) : Turn → Prop
  | .next s' l' _ => HciH4TrCb.PutsOnly (ShortOrIn c) s s' ∧ l' <:+ l
  | .full s' => HciH4TrCb.PutsOnly (ShortOrIn c) s s'

theorem Turn.PutsOnly.backUp (len : ℕ) :
    Turn.PutsOnly c s l (.next (s.backUpHandler l len).2 l 0) :=
  ⟨putsOnly_backUpHandler (fun _ hp => Or.inl hp) len, List.suffix_refl l⟩

theorem putsOnly_rxPacket (hl : l <:+ c) (pktLen len : ℕ) :
    Turn.PutsOnly c s l (s.rxPacket pktLen l len) := by
  unfold rxPacket
  split
  · split
    · exact PutsOnly.refl s
    · exact ⟨putsOnly_putPacket (Or.inr ((List.take_prefix _ _).isInfix.trans hl.isInfix)),
        List.drop_suffix _ _⟩
  split
  · exact Turn.PutsOnly.backUp len
  · exact ⟨PutsOnly.refl s, List.suffix_refl l⟩

theorem putsOnly_rxHeader (hl : l <:+ c) (headLen paramLen len : ℕ) :
    Turn.PutsOnly c s l (s.rxHeader headLen paramLen l len) := by
  unfold rxHeader
  split
  · exact Turn.PutsOnly.backUp len
  · exact putsOnly_rxPacket hl _ len

theorem putsOnly_rxSkip (headLen paramLen len : ℕ) :
    Turn.PutsOnly c s l (s.rxSkip headLen paramLen l len) := by
  unfold rxSkip
  split <;> exact ⟨PutsOnly.refl s, List.suffix_refl l⟩

theorem putsOnly_rxSwitch (hl : l <:+ c) (len : ℕ) :
    Turn.PutsOnly c s l (s.rxSwitch l len) := by
  unfold rxSwitch
  dsimp only
  split
  · exact putsOnly_rxHeader hl _ _ len
  split
  · exact putsOnly_rxHeader hl _ _ len
  split
  · exact putsOnly_rxHeader hl _ _ len
  split
  · exact putsOnly_rxSkip _ _ len
  split
  · exact putsOnly_rxSkip _ _ len
  · exact ⟨PutsOnly.refl s, List.suffix_refl l⟩

theorem Turn.PutsOnly.trans {t : Turn} (h₁ : HciH4TrCb.PutsOnly (ShortOrIn c) s s₁)
    {l' : List UInt8} (hl : l' <:+ l) (h₂ : Turn.PutsOnly c s₁ l' t) : Turn.PutsOnly c s l t := by
  cases t with
  | next s' l'' len => exact ⟨h₁.trans h₂.1, h₂.2.trans hl⟩
  | full s' => exact HciH4TrCb.PutsOnly.trans h₁ h₂

theorem putsOnly_rxTurn (hl : l <:+ c) (len : ℕ) : Turn.PutsOnly c s l (s.rxTurn l len) := by
  unfold rxTurn
  split
  · have hback := putsOnly_backUpHandler (Q := ShortOrIn c) (s := s) (l := l)
      (fun _ hp => Or.inl hp) len
    dsimp only
    split
    · exact ⟨hback, List.drop_suffix _ _⟩
    · exact Turn.PutsOnly.trans hback (List.drop_suffix _ _)
        (putsOnly_rxSwitch ((List.drop_suffix _ _).trans hl) _)
  · exact putsOnly_rxSwitch hl len

theorem putsOnly_rxLoop (hl : l <:+ c) (len : ℕ) {r : Bool × HciH4TrCb}
    (h : rxLoop fuel l len s = some r) : PutsOnly (ShortOrIn c) s r.2 := by
  induction fuel generalizing s l len with
  | zero => exact absurd h nofun
  | succ fuel ih =>
    unfold rxLoop at h
    split at h
    · obtain rfl := Option.some.inj h
      exact PutsOnly.refl s
    have hturn := putsOnly_rxTurn (s := s) hl len
    split at h
    next s' l' len' heq =>
      rw [heq] at hturn
      exact hturn.1.trans (ih (hturn.2.trans hl) _ h)
    next s' heq =>
      rw [heq] at hturn
      obtain rfl := Option.some.inj h
      exact hturn

/-! ## Runs -/

/-- The UART FIFO holds chunks that satisfy `C`, and each long packet that has been put lies
in one of them. -/
structure Sourced (C : List UInt8 → Prop) (s : HciH4TrCb) : Prop where
  slot : ∀ i, s.pRxFifo.p i = [] ∨ C (s.pRxFifo.p i)
  put : ∀ p ∈ s.put, p.length < 256 ∨ ∃ c, C c ∧ p <:+: c

variable {C : List UInt8 → Prop}

theorem Sourced.of_putsOnly (h : Sourced C s)
    (hput : PutsOnly (ShortOrIn s.pRxFifo.front) s s') : Sourced C s' where
  slot i := by
    rw [hput.rx]
    exact h.slot i
  put p hp := by
    rcases hput.put p hp with hold | hlt | hin
    · exact h.put p hold
    · exact Or.inl hlt
    · rcases h.slot (s.pRxFifo.slotIdx s.pRxFifo.rptr) with hnil | hc
      · rw [HciFifo.front, hnil] at hin
        rw [List.infix_nil.mp hin]
        exact Or.inl (by decide)
      · exact Or.inr ⟨_, hc, hin⟩

theorem sourced_rxChunk (h : Sourced C s) : Sourced C (s.rxChunk fuel) := by
  unfold rxChunk
  split
  · exact h
  cases hloop : rxLoop fuel s.pRxFifo.front s.pRxFifo.front.length s with
  | none => exact ⟨h.slot, h.put⟩
  | some r =>
    have h' := h.of_putsOnly (putsOnly_rxLoop (List.suffix_refl _) _ hloop)
    obtain ⟨done, s'⟩ := r
    cases done with
    | true => exact ⟨h'.slot, h'.put⟩
    | false => exact h'

theorem sourced_step {i : H4Input} (h : Sourced C s) (hi : ∀ chunk, i = .uartRx chunk → C chunk) :
    Sourced C (s.step fuel i) := by
  unfold step
  split
  · exact h
  cases i with
  | uartRx chunk =>
    have hwrite : ∀ i j, Function.update s.pRxFifo.p j chunk i = [] ∨
        C (Function.update s.pRxFifo.p j chunk i) := by
      intro i j
      by_cases hij : i = j
      · rw [hij, Function.update_self]
        exact Or.inr (hi chunk rfl)
      · rw [Function.update_of_ne hij]
        exact h.slot i
    dsimp only
    unfold uartRxIRQHandler
    split
    · exact ⟨fun i => hwrite i _, h.put⟩
    split
    · exact ⟨fun i => hwrite i _, h.put⟩
    · exact ⟨fun i => hwrite i _, h.put⟩
  | rxHandler now =>
    apply sourced_rxChunk
    unfold flushHandler
    split
    · exact ⟨h.slot, h.put⟩
    · exact ⟨h.slot, h.put⟩
  | consume =>
    dsimp only
    unfold consume
    split
    · exact h
    · exact ⟨h.slot, h.put⟩

/-- A long packet that a run has put lies in one of the chunks. -/
theorem sourced_run {k : ℕ} {hk : k ≤ 7} {is : List H4Input}
    (his : ∀ chunk, .uartRx chunk ∈ is → C chunk) :
    Sourced C (run (step fuel) (init k hk) is) := by
  have hok : Along (step fuel) (fun _ i => ∀ chunk, i = .uartRx chunk → C chunk) (init k hk) is :=
    along_of_forall_mem _ fun i hi chunk heq => his chunk (heq ▸ hi)
  refine run_invariant (fun s i hs hi => sourced_step hs hi) ?_ hok
  exact ⟨fun _ => Or.inl rfl, nofun⟩

/-! ## A stream with one mark -/

/-- The packet with zeros behind its header. -/
def blank (lo : UInt8) (p : H4Packet) : H4Packet :=
  ⟨p.type, lo, 0, List.replicate p.body.length 0, by simpa using p.body_le, by simpa using p.fits⟩

theorem length_encode_blank (lo : UInt8) (p : H4Packet) :
    (blank lo p).encode.length = p.encode.length := by
  rw [H4Packet.length_encode, H4Packet.length_encode]
  simp [blank]

theorem code_ne_zero (t : H4Type) : t.code ≠ 0 := by
  cases t <;> decide

/-- The two bytes do not look like the beginning of a marked packet. -/
def Unmarked (x y : UInt8) : Prop := ¬ (x ≠ 0 ∧ y = 1)

/-- No two bytes of `l` look like the beginning of a marked packet, nor do the last byte and
whatever follows. -/
def Calm (l : List UInt8) : Prop := l.IsChain Unmarked ∧ ∀ x ∈ l.getLast?, x = 0

theorem unmarked_zero_left (y : UInt8) : Unmarked 0 y := fun h => h.1 rfl

theorem unmarked_zero_right (x : UInt8) : Unmarked x 0 := fun h => absurd h.2 (by decide)

theorem Calm.append {l₁ l₂ : List UInt8} (h₁ : Calm l₁) (h₂ : l₂.IsChain Unmarked) :
    (l₁ ++ l₂).IsChain Unmarked := by
  apply List.IsChain.append h₁.1 h₂
  intro x hx y _
  rw [h₁.2 x hx]
  exact unmarked_zero_left y

theorem calm_flatten {ls : List (List UInt8)} (h : ∀ l ∈ ls, Calm l) : Calm ls.flatten := by
  induction ls with
  | nil => exact ⟨List.isChain_nil, nofun⟩
  | cons l ls ih =>
    have hrest := ih fun l hl => h l (List.mem_cons_of_mem _ hl)
    refine ⟨(h l List.mem_cons_self).append hrest.1, ?_⟩
    intro x hx
    rw [List.flatten_cons, List.getLast?_append, Option.mem_def, Option.or_eq_some_iff] at hx
    rcases hx with hx | ⟨-, hx⟩
    · exact hrest.2 x hx
    · exact (h l List.mem_cons_self).2 x hx

theorem calm_replicate (n : ℕ) : Calm (List.replicate n 0) := by
  refine ⟨List.isChain_replicate_of_rel n (unmarked_zero_left 0), ?_⟩
  intro x hx
  rw [List.getLast?_replicate] at hx
  split at hx
  · exact absurd hx nofun
  · exact (Option.some.inj hx).symm

theorem Calm.zero_cons {l : List UInt8} (h : Calm l) : Calm (0 :: l) := by
  refine ⟨h.1.cons fun y _ => unmarked_zero_left y, ?_⟩
  intro x hx
  rw [List.getLast?_cons, Option.mem_some_iff] at hx
  subst hx
  cases hl : l.getLast? with
  | none => rfl
  | some z => exact h.2 z hl

theorem Calm.cons {l : List UInt8} {x y : UInt8} (h : Calm (y :: l)) (hxy : Unmarked x y) :
    Calm (x :: y :: l) := by
  refine ⟨List.isChain_cons_cons.mpr ⟨hxy, h.1⟩, ?_⟩
  intro z hz
  apply h.2
  rwa [List.getLast?_cons_cons] at hz

theorem Calm.cons_zero {l : List UInt8} (h : Calm l) (x : UInt8) : Calm (x :: 0 :: l) :=
  h.zero_cons.cons (unmarked_zero_right x)

/-- The bytes of a blank packet behind the packet indicator. -/
theorem calm_tail (lo : UInt8) (t : H4Type) {n : ℕ} (hn : n < 256) :
    Calm (lo :: 0 :: (t.lenField n ++ List.replicate n 0)) := by
  have hzero := calm_replicate n
  apply Calm.cons_zero
  cases t with
  | cmd =>
    cases n with
    | zero => exact ⟨List.isChain_singleton _, by simp [H4Type.lenField]⟩
    | succ n => exact (calm_replicate n).cons_zero _
  | acl =>
    show Calm (UInt8.ofNat n :: UInt8.ofNat (n / 256) :: List.replicate n 0)
    rw [Nat.div_eq_of_lt hn]
    exact hzero.cons_zero _
  | iso =>
    show Calm (UInt8.ofNat n :: UInt8.ofNat (n / 256) :: List.replicate n 0)
    rw [Nat.div_eq_of_lt hn]
    exact hzero.cons_zero _

/-- Only one place breaks the chain. -/
theorem length_of_junction {U V U' V' : List UInt8} {x y : UInt8} (hU : U.IsChain Unmarked)
    (hV : V.IsChain Unmarked) (hxy : ¬ Unmarked x y) (h : U ++ V = U' ++ x :: y :: V') :
    U'.length + 1 = U.length := by
  have hpair : ∀ {l l₁ l₂ : List UInt8}, l.IsChain Unmarked → l ≠ l₁ ++ x :: y :: l₂ := by
    rintro l l₁ l₂ hl rfl
    exact hxy (List.isChain_cons_cons.mp hl.right_of_append).1
  rcases List.append_eq_append_iff.mp h with ⟨m, hm, hV'⟩ | ⟨m, rfl, hm⟩
  · -- `x` is behind `U`
    exact absurd hV' (hpair hV)
  · match m with
    | [] => exact absurd hm.symm (@hpair V [] V' hV)
    | [_] => simp
    | z :: w :: m =>
      simp only [List.cons_append, List.cons.injEq] at hm
      obtain ⟨rfl, rfl, -⟩ := hm
      exact absurd rfl (hpair hU)

/-- A chunk of the stream `l`, and where it lies: no boundary is inside it. -/
theorem mem_feed {ops : List H4Op} {l chunk : List UInt8} (h : .uartRx chunk ∈ H4Op.feed ops l) :
    ∃ l₁ l₂, l = l₁ ++ chunk ++ l₂ ∧ ∀ i, ((H4Op.sizes ops).take i).sum ≤ l₁.length ∨
      l₁.length + chunk.length ≤ ((H4Op.sizes ops).take i).sum := by
  induction ops generalizing l with
  | nil => exact absurd h List.not_mem_nil
  | cons op ops ih =>
    cases op with
    | uartRx n =>
      rw [H4Op.feed, List.mem_cons, H4Input.uartRx.injEq] at h
      rcases h with rfl | h
      · refine ⟨[], l.drop n, by rw [List.nil_append, List.take_append_drop], ?_⟩
        rintro (_ | i)
        · exact Or.inl (Nat.le_refl _)
        · right
          rw [H4Op.sizes, List.take_succ_cons, List.sum_cons, List.length_take, List.length_nil]
          omega
      · obtain ⟨l₁, l₂, hl, hbound⟩ := ih h
        refine ⟨l.take n ++ l₁, l₂, ?_, ?_⟩
        · rw [List.append_assoc, List.append_assoc, ← List.append_assoc l₁, ← hl,
            List.take_append_drop]
        · have hlen := congrArg List.length hl
          simp only [List.length_append, List.length_drop] at hlen
          rintro (_ | i)
          · exact Or.inl (Nat.zero_le _)
          · have := hbound i
            rw [H4Op.sizes, List.take_succ_cons, List.sum_cons, List.length_append,
              List.length_take]
            omega
    | rxHandler now =>
      rw [H4Op.feed, List.mem_cons] at h
      exact ih (h.resolve_left fun heq => by cases heq)
    | consume =>
      rw [H4Op.feed, List.mem_cons] at h
      exact ih (h.resolve_left fun heq => by cases heq)

/-- The type and the length of a packet. -/
def shape (p : H4Packet) : H4Type × ℕ := (p.type, p.body.length)

@[simp] theorem shape_blank (lo : UInt8) (p : H4Packet) : shape (blank lo p) = shape p := by
  simp [shape, blank]

theorem map_shape_blank (ps : List H4Packet) : (ps.map (blank 0)).map shape = ps.map shape := by
  rw [List.map_map]
  exact List.map_congr_left fun p _ => shape_blank 0 p

theorem length_flatten_blank (ps : List H4Packet) :
    (frames (ps.map (blank 0))).flatten.length = (frames ps).flatten.length := by
  induction ps with
  | nil => rfl
  | cons p ps ih =>
    show ((blank 0 p).encode ++ (frames (ps.map (blank 0))).flatten).length =
      (p.encode ++ (frames ps).flatten).length
    rw [List.length_append, List.length_append, length_encode_blank, ih]

theorem encode_blank (lo : UInt8) (p : H4Packet) : (blank lo p).encode =
    p.type.code :: lo :: 0 ::
      (p.type.lenField p.body.length ++ List.replicate p.body.length 0) := by
  simp [H4Packet.encode, blank]

theorem calm_frames_blank (ps : List H4Packet) : Calm (frames (ps.map (blank 0))).flatten := by
  apply calm_flatten
  intro l hl
  rw [frames, List.map_map, List.mem_map] at hl
  obtain ⟨p, -, rfl⟩ := hl
  rw [Function.comp_apply, encode_blank]
  exact (calm_tail 0 p.type p.body_lt).cons (unmarked_zero_right _)

/-- A packet of 256 bytes or more that a boundary cuts can be lost: with zeros in the other
packets and a mark in this one, it is never put. -/
theorem exists_lost {fuel k : ℕ} {hk : k ≤ 7} {ops : List H4Op} {ps : List H4Packet}
    (hcut : ¬ NoLongCut ps (H4Op.sizes ops)) :
    ∃ ps', ps'.map shape = ps.map shape ∧ (received fuel k hk ps' ops).put ≠ frames ps' := by
  unfold NoLongCut at hcut
  push Not at hcut
  obtain ⟨i, -, q, hq, hlong⟩ := hcut
  obtain ⟨pre', post', hsplit, hlo, hhi⟩ := cutFrame_split hq
  obtain ⟨pre, rest, rfl, rfl, hrest⟩ := List.map_eq_append_iff.mp hsplit
  obtain ⟨p, post, rfl, rfl, rfl⟩ := List.map_eq_cons_iff.mp hrest
  refine ⟨pre.map (blank 0) ++ blank 1 p :: post.map (blank 0), ?_, ?_⟩
  · rw [List.map_append, List.map_cons, map_shape_blank, map_shape_blank, shape_blank,
      List.map_append, List.map_cons]
  intro hput
  -- the packet is put, so it lies in a chunk
  have hmem : (blank 1 p).encode ∈ (received fuel k hk
      (pre.map (blank 0) ++ blank 1 p :: post.map (blank 0)) ops).put := by
    rw [hput]
    exact List.mem_map_of_mem (List.mem_append_right _ List.mem_cons_self)
  have hsourced : Sourced (fun chunk => .uartRx chunk ∈ H4Op.feed ops (frames
      (pre.map (blank 0) ++ blank 1 p :: post.map (blank 0))).flatten)
      (received fuel k hk (pre.map (blank 0) ++ blank 1 p :: post.map (blank 0)) ops) :=
    sourced_run fun chunk h => h
  rcases hsourced.put _ hmem with hshort | ⟨c, hc, c₁, c₂, hin⟩
  · rw [length_encode_blank] at hshort
    omega
  obtain ⟨l₁, l₂, hl, hbound⟩ := mem_feed hc
  -- the mark tells where, and that is where the boundary cuts it
  have hjunction : (l₁ ++ c₁).length + 1 =
      ((frames (pre.map (blank 0))).flatten ++ [p.type.code]).length := by
    rw [frames, List.map_append, List.map_cons, List.flatten_append, List.flatten_cons, ← hin] at hl
    have htail := encode_blank 1 p
    generalize hT : 0 :: (p.type.lenField p.body.length ++ List.replicate p.body.length 0) = T
      at htail
    have hmark : ((frames (pre.map (blank 0))).flatten ++ [p.type.code]) ++
        ((1 :: T) ++ (frames (post.map (blank 0))).flatten) =
        (l₁ ++ c₁) ++ p.type.code :: 1 :: (T ++ c₂ ++ l₂) := by
      rw [htail] at hl
      simpa [frames] using hl
    apply length_of_junction _ _ _ hmark
    · exact (calm_frames_blank pre).append (List.isChain_singleton _)
    · subst hT
      exact (calm_tail 1 p.type p.body_lt).append (calm_frames_blank post).1
    · exact fun h => h ⟨code_ne_zero p.type, rfl⟩
  have hlen := congrArg List.length hin
  have hpos := hbound i
  have hpre := length_flatten_blank pre
  simp only [List.length_append, List.length_singleton, length_encode_blank] at hjunction hlen
  unfold frames at hpre hjunction
  omega

/-- Whether a boundary cuts a long packet depends on the lengths alone. -/
theorem noLongCut_congr {ps ps' : List H4Packet} (h : ps'.map shape = ps.map shape)
    {sizes : List ℕ} (hcut : NoLongCut ps sizes) : NoLongCut ps' sizes := by
  have hlens : (frames ps').map List.length = (frames ps).map List.length := by
    have hshape : ∀ p : H4Packet, p.encode.length = 1 + (shape p).1.headLen + (shape p).2 :=
      H4Packet.length_encode
    simp only [frames, List.map_map, Function.comp_def, hshape]
    have := congrArg (List.map fun t : H4Type × ℕ => 1 + t.1.headLen + t.2) h
    simpa only [List.map_map, Function.comp_def] using this
  intro i hi q hq
  have hlen := length_cutFrame hlens (sizes.take i).sum
  rw [Option.mem_def.mp hq] at hlen
  obtain ⟨q', hq', hlen'⟩ := Option.map_eq_some_iff.mp hlen.symm
  rw [← hlen']
  exact hcut i hi q' hq'

/-- Reassembly does not depend on the chunking exactly when no boundary cuts a packet of 256
bytes or more: then all packets of these types and lengths are received, and otherwise there
are contents that are not. -/
theorem reassembly_iff {fuel : ℕ} (hfuel : hciH4TrRxBufSize ≤ fuel) (k : ℕ) (hk : k ≤ 7)
    (ps : List H4Packet) (ops : List H4Op) :
    (NoLongCut ps (H4Op.sizes ops) → ∀ ps', ps'.map shape = ps.map shape →
      Smooth fuel k hk ps' ops → (received fuel k hk ps' ops).put = frames ps') ∧
    (¬ NoLongCut ps (H4Op.sizes ops) → ∃ ps', ps'.map shape = ps.map shape ∧
      (received fuel k hk ps' ops).put ≠ frames ps') :=
  ⟨fun hcut _ hshape hsmooth => put_of_noLongCut hfuel hsmooth (noLongCut_congr hshape hcut),
    exists_lost⟩

/-- A chunk with the first byte, and one with the other bytes. -/
def firstByteApart (n : ℕ) : List H4Op := [.uartRx 1, .rxHandler 1, .uartRx (n - 1), .rxHandler 1]

theorem zeros_le_maxBody {n : ℕ} (h : n ≤ 0xFF) :
    (List.replicate n (0 : UInt8)).length ≤ H4Type.cmd.maxBody := by
  simpa [H4Type.maxBody] using h

theorem zeros_le_slot {n : ℕ} (h : n ≤ 0xFF) :
    1 + H4Type.cmd.headLen + (List.replicate n (0 : UInt8)).length ≤ hciRxFifoSize := by
  simp only [H4Type.headLen, cmdHeadLen, hciRxFifoSize, List.length_replicate]
  omega

/-- A command with `n` parameter bytes, all zero. -/
def zeroCmd (n : ℕ) (h : n ≤ 0xFF) : H4Packet :=
  ⟨.cmd, 0x03, 0x0c, List.replicate n 0, zeros_le_maxBody h, zeros_le_slot h⟩

theorem smooth_firstByteApart :
    Smooth hciH4TrRxBufSize 1 (by decide) [zeroCmd 251 (by decide)] (firstByteApart 255) ∧
      Smooth hciH4TrRxBufSize 1 (by decide) [zeroCmd 252 (by decide)] (firstByteApart 256) :=
  ⟨⟨by decide, by decide +kernel, by decide +kernel, by decide +kernel, by decide +kernel⟩,
    by decide, by decide +kernel, by decide +kernel, by decide +kernel, by decide +kernel⟩

theorem reassembly_255 :
    (received hciH4TrRxBufSize 1 (by decide) [zeroCmd 251 (by decide)] (firstByteApart 255)).put =
      frames [zeroCmd 251 (by decide)] :=
  (reassembly_iff (Nat.le_refl _) 1 (by decide) _ _).1 (by decide +kernel) _ rfl
    smooth_firstByteApart.1

theorem reassembly_256 :
    Smooth hciH4TrRxBufSize 1 (by decide) [zeroCmd 252 (by decide)] (firstByteApart 256) ∧
      (received hciH4TrRxBufSize 1 (by decide) [zeroCmd 252 (by decide)]
        (firstByteApart 256)).put ≠ frames [zeroCmd 252 (by decide)] :=
  ⟨smooth_firstByteApart.2, by decide +kernel⟩

end HciH4TrCb
end TlBleSdk.Hci
