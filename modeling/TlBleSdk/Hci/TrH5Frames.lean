import TlBleSdk.Hci.TrH5
import TlBleSdk.Lib.Framing

/-!
# SLIP frames and one chunk of an H5 stream

The frames between two delimiters, and what the loop of `HCI_Tr_H5RxHandler` makes of a
chunk, for the frames that are still expected, the first of them begun in the backup buffer
(`rxLoop_took`).
-/

namespace TlBleSdk.Hci

open Framing

/-! ## Frames -/

/-- A SLIP frame that fits the H5 transport buffer: the bytes between its delimiters. -/
structure SlipFrame where
  body : List UInt8
  body_ge : 4 ≤ body.length
  body_ne : ∀ x ∈ body, x ≠ slipFlag
  fits : body.length + 2 ≤ hciH5TrRxBufSize

namespace SlipFrame

/-- The bytes of the frame. -/
def encode (f : SlipFrame) : List UInt8 := slipFlag :: (f.body ++ [slipFlag])

theorem length_encode (f : SlipFrame) : f.encode.length = f.body.length + 2 := by
  simp [encode]

/-- A frame cut in two nonempty parts. -/
theorem split {f : SlipFrame} {b q : List UInt8} (h : f.encode = b ++ q) (hb : b ≠ [])
    (hq : q ≠ []) : ∃ b' m, f.body = b' ++ m ∧ b = slipFlag :: b' ∧ q = m ++ [slipFlag] := by
  obtain ⟨x, b', rfl⟩ := List.exists_cons_of_ne_nil hb
  obtain ⟨m, y, rfl⟩ : ∃ m y, q = m ++ [y] := ⟨_, _, (List.dropLast_append_getLast hq).symm⟩
  rw [encode, List.cons_append, List.cons.injEq, ← List.append_assoc] at h
  obtain ⟨rfl, h⟩ := h
  obtain ⟨hbody, hlast⟩ := List.append_inj' h rfl
  obtain rfl := List.singleton_inj.mp hlast
  exact ⟨b', m, hbody, rfl, rfl⟩

end SlipFrame

/-! ## The searches -/

theorem findSlipFlag_of_ne {l : List UInt8} (h : ∀ x ∈ l, x ≠ slipFlag) :
    findSlipFlag l = none := by
  induction l with
  | nil => rfl
  | cons x l ih =>
    rw [findSlipFlag, if_pos (h x List.mem_cons_self)]
    exact ih fun y hy => h y (List.mem_cons_of_mem _ hy)

theorem findSlipFlag_append {l : List UInt8} (h : ∀ x ∈ l, x ≠ slipFlag) (rest : List UInt8) :
    findSlipFlag (l ++ slipFlag :: rest) = some (slipFlag :: rest) := by
  induction l with
  | nil => rfl
  | cons x l ih =>
    rw [List.cons_append, findSlipFlag, if_pos (h x List.mem_cons_self)]
    exact ih fun y hy => h y (List.mem_cons_of_mem _ hy)

/-- A delimiter in front of another byte, or at the end, is found where it is. -/
theorem findSlipHeadFlag_cons {l : List UInt8} (h : ∀ x ∈ l.head?, x ≠ slipFlag) :
    findSlipHeadFlag (slipFlag :: l) = some (slipFlag :: l) := by
  cases l with
  | nil => rfl
  | cons y l => rw [findSlipHeadFlag, if_pos ⟨rfl, h y rfl⟩]

namespace HciH5TrCb

variable {s s' s₁ s₂ : HciH5TrCb} {b c l m : List UInt8} {f : SlipFrame} {fs : List SlipFrame}
  {out out₁ out₂ : List (List UInt8)} {fuel cnt : ℕ}

/-! ## What a part of the handler has done -/

/-- The part of the state that the receive paths do not touch, without the tick. -/
structure Side where
  pRxFifo : HciFifo
  rcvd : List (List UInt8)
  hung : Bool

/-- What the receive paths do not touch. -/
def side (s : HciH5TrCb) : Side := ⟨s.pRxFifo, s.rcvd, s.hung⟩

/-- The backup buffer holds `b`. -/
structure Backs (s : HciH5TrCb) (b : List UInt8) : Prop where
  cnt : s.backupCnt = b.length
  buf : bytes s.pBackupBuf b.length = b
  lt : b.length < 256

/-- From `s` to `s'` the SLIP handler has been called with `out`, and the backup buffer has
come to hold `b`. -/
structure Took (s s' : HciH5TrCb) (out : List (List UInt8)) (b : List UInt8) : Prop where
  slips : s'.slips = s.slips ++ out
  backs : s'.Backs b
  side : s'.side = s.side

theorem Took.refl (h : s.Backs b) : Took s s [] b := ⟨(List.append_nil _).symm, h, rfl⟩

theorem Took.trans (h₁ : Took s s₁ out₁ b) (h₂ : Took s₁ s₂ out₂ l) :
    Took s s₂ (out₁ ++ out₂) l where
  slips := by rw [h₂.slips, h₁.slips, List.append_assoc]
  backs := h₂.backs
  side := h₂.side.trans h₁.side

theorem Backs.append (h : s.Backs b) (hlt : b.length + l.length < 256) :
    (s.appendBackup l).Backs (b ++ l) where
  cnt := by
    rw [List.length_append]
    show u8 (s.backupCnt + l.length) = _
    rw [h.cnt, u8_of_lt hlt]
  buf := by
    rw [List.length_append]
    show bytes (memcpy s.pBackupBuf s.backupCnt l) _ = _
    rw [h.cnt, bytes_memcpy, h.buf]
  lt := by rwa [List.length_append]

theorem took_appendBackup (h : s.Backs b) (hlt : b.length + l.length < 256) :
    Took s (s.appendBackup l) [] (b ++ l) :=
  ⟨(List.append_nil _).symm, h.append hlt, rfl⟩

theorem took_timerEnable (h : Took s s' out b) : Took s s'.timerEnable out b :=
  ⟨h.slips, ⟨h.backs.cnt, h.backs.buf, h.backs.lt⟩, h.side⟩

/-- The buffer holds the whole frame. -/
theorem took_slipBackup (h : s.Backs b) :
    Took s (s.slipHandler (bytes s.pBackupBuf s.backupCnt)).clearBackup [b] [] := by
  rw [h.cnt, h.buf]
  exact ⟨rfl, ⟨rfl, rfl, by decide⟩, rfl⟩

theorem took_slipHandler (h : s.Backs []) (l : List UInt8) : Took s (s.slipHandler l) [l] [] :=
  ⟨rfl, ⟨h.cnt, h.buf, h.lt⟩, rfl⟩

/-! ## The backup path -/

/-- Bytes that are no delimiter are kept, one after the other. -/
theorem backupLoop_append (l : List UInt8) (h : s.Backs b) (hm : ∀ x ∈ m, x ≠ slipFlag)
    (hlt : b.length + m.length < 256) (hcnt : cnt + m.length < 65536) :
    ∃ s', Took s s' [] (b ++ m) ∧
      backupLoop (m ++ l) cnt s = backupLoop l (cnt + m.length) s' := by
  induction m generalizing s b cnt with
  | nil =>
    refine ⟨s, ?_, rfl⟩
    rw [List.append_nil]
    exact Took.refl h
  | cons x m ih =>
    rw [List.length_cons] at hlt hcnt
    have htook := took_timerEnable (took_appendBackup (l := [x]) h (by simp; omega))
    have hcnt' : cnt + 1 + m.length < 65536 := by omega
    obtain ⟨s', htook', heq⟩ := ih htook.backs (fun y hy => hm y (List.mem_cons_of_mem _ hy))
      (by simp; omega) hcnt'
    refine ⟨s', ?_, ?_⟩
    · rw [List.append_assoc] at htook'
      exact htook.trans htook'
    · rw [List.cons_append, backupLoop, if_neg, if_neg (hm x List.mem_cons_self),
        u16_of_lt (by omega), heq, List.length_cons]
      · congr 1
        omega
      · rw [h.cnt]
        have : hciH5TrRxBufSize = 1248 := rfl
        omega

/-- The rest of a short frame completes it. -/
theorem backupLoop_finish (l : List UInt8) (h : s.Backs b) (hlt : b.length + 1 < 256)
    (hone : b.length ≠ 1)
    (hcnt : cnt + 1 < 65536) :
    ∃ s', Took s s' [b ++ [slipFlag]] [] ∧ backupLoop (slipFlag :: l) cnt s = (cnt + 1, s') := by
  have htook := took_appendBackup (l := [slipFlag]) h hlt
  refine ⟨_, htook.trans (took_slipBackup htook.backs), ?_⟩
  rw [backupLoop, if_neg, if_pos rfl, if_neg (by rwa [h.cnt]), u16_of_lt hcnt]
  rw [h.cnt]
  have : hciH5TrRxBufSize = 1248 := rfl
  omega

/-- The first part of a turn, when the bytes at hand go on with the frame in the backup
buffer: `q` is missing. -/
theorem rxBackup_finish (h : s.Backs b) (hb : b ≠ []) {q : List UInt8} (hf : f.encode = b ++ q)
    (hq : q ≠ []) (hshort : f.encode.length < 256) (rest : List UInt8) :
    ∃ s', Took s s' [f.encode] [] ∧ s.rxBackup (q ++ rest) = (rest, s') := by
  obtain ⟨b', m, hbody, rfl, rfl⟩ := f.split hf hb hq
  have hne := f.body_ne
  have hge := f.body_ge
  rw [f.length_encode] at hshort
  rw [hbody] at hne hge hshort
  simp only [List.length_append] at hge hshort
  obtain ⟨s₁, htook₁, heq₁⟩ := backupLoop_append (slipFlag :: rest) h
    (fun x hx => hne x (List.mem_append_right _ hx)) (by simp; omega)
    (show 0 + m.length < 65536 by omega)
  obtain ⟨s₂, htook₂, heq₂⟩ := backupLoop_finish rest htook₁.backs
    (by simp; omega) (by rw [List.length_append, List.length_cons]; omega)
    (show 0 + m.length + 1 < 65536 by omega)
  have hloop : s.backupHandler (m ++ [slipFlag] ++ rest) = (m.length + 1, s₂) := by
    rw [backupHandler, h.cnt, if_neg (by simp), List.append_assoc, List.singleton_append, heq₁,
      heq₂, Nat.zero_add]
  refine ⟨s₂, ?_, ?_⟩
  · rw [hf, ← List.append_assoc]
    exact htook₁.trans htook₂
  · rw [rxBackup, h.cnt, if_pos (by simp)]
    have hdrop : u8 (m.length + 1) = (m ++ [slipFlag]).length := by
      rw [u8_of_lt (by omega), List.length_append, List.length_singleton]
    simp only [hloop, hdrop, List.drop_left]

theorem rxBackup_keep (h : s.Backs b) (hb : b ≠ []) {q : List UInt8} (hf : f.encode = b ++ q)
    (hq : q ≠ []) (hshort : f.encode.length < 256) (hpre : c <+: q) (hlt : c.length < q.length) :
    ∃ s', Took s s' [] (b ++ c) ∧ s.rxBackup c = ([], s') := by
  obtain ⟨b', m, hbody, rfl, rfl⟩ := f.split hf hb hq
  have hne := f.body_ne
  rw [f.length_encode] at hshort
  rw [hbody] at hne hshort
  simp only [List.length_append, List.length_singleton] at hshort hlt
  have hcm : c <+: m := List.prefix_of_prefix_length_le hpre (List.prefix_append _ _) (by omega)
  obtain ⟨s', htook, heq⟩ := backupLoop_append [] h
    (fun x hx => hne x (List.mem_append_right _ (hcm.subset hx))) (by simp; omega)
    (show 0 + c.length < 65536 by omega)
  have hloop : s.backupHandler c = (c.length, s') := by
    rw [List.append_nil] at heq
    rw [backupHandler, h.cnt, if_neg (by simp), heq, Nat.zero_add, backupLoop]
  refine ⟨s', htook, ?_⟩
  rw [rxBackup, h.cnt, if_pos (by simp)]
  simp only [hloop, u8_of_lt (show c.length < 256 by omega), List.drop_length]

/-! ## The direct path -/

/-- A turn behind the backup path. -/
theorem rxLoop_turn (hne : l.length ≠ 0) (hrest : s.rxBackup l = (c, s')) :
    rxLoop (fuel + 1) l s =
      match findSlipHeadFlag c with
      | none => some s'
      | some pBuf =>
        match findSlipFlag (pBuf.drop 1) with
        | none => some (s'.backupHandler pBuf).2
        | some pBuf2 =>
          if pBuf.length = 1 then some (s'.backupHandler pBuf).2
          else
            let slipLen := u16 (pBuf.length - pBuf2.length + 1)
            if slipLen < 6 then rxLoop fuel (pBuf.drop slipLen) s'
            else rxLoop fuel (pBuf.drop slipLen) (s'.slipHandler (pBuf.take slipLen)) := by
  refine (if_neg hne).trans ?_
  generalize s.rxBackup l = r at hrest ⊢
  subst hrest
  rfl

theorem rxBackup_nil (h : s.Backs []) (l : List UInt8) : s.rxBackup l = (l, s) := by
  rw [rxBackup, h.cnt]
  rfl

/-- The beginning of a frame at the end of a chunk. -/
theorem rxLoop_part (h : s.Backs []) {q : List UInt8} (hf : f.encode = c ++ q) (hc : c ≠ [])
    (hq : q ≠ []) (hlt : c.length < 256) :
    ∃ s', rxLoop (fuel + 1) c s = some s' ∧ Took s s' [] c := by
  obtain ⟨b', m, hbody, rfl, rfl⟩ := f.split hf hc hq
  have hne : ∀ x ∈ b', x ≠ slipFlag := fun x hx =>
    f.body_ne x (hbody ▸ List.mem_append_left _ hx)
  refine ⟨_, ?_, took_timerEnable (took_appendBackup (l := slipFlag :: b') h (by simpa using hlt))⟩
  rw [rxLoop_turn (by simp) (rxBackup_nil h _),
    findSlipHeadFlag_cons fun x hx => hne x (List.mem_of_mem_head? hx)]
  show (match findSlipFlag b' with | none => _ | some pBuf2 => _) = _
  rw [findSlipFlag_of_ne hne]
  simp only [backupHandler, h.cnt, List.length_nil, if_true]

/-- A frame that lies in the chunk whole. -/
theorem rxLoop_whole (h : s.Backs []) (rest : List UInt8) :
    rxLoop (fuel + 1) (f.encode ++ rest) s = rxLoop fuel rest (s.slipHandler f.encode) := by
  have hge := f.body_ge
  have hfits := f.fits
  have hlen := f.length_encode
  have hsize : hciH5TrRxBufSize = 1248 := rfl
  have henc : f.encode ++ rest = slipFlag :: (f.body ++ slipFlag :: rest) := by
    simp [SlipFrame.encode]
  have hhead : ∀ x ∈ (f.body ++ slipFlag :: rest).head?, x ≠ slipFlag := by
    intro x hx
    rw [List.head?_append_of_ne_nil _ (List.ne_nil_of_length_pos (by omega))] at hx
    exact f.body_ne x (List.mem_of_mem_head? hx)
  have hslip : u16 ((slipFlag :: (f.body ++ slipFlag :: rest)).length -
      (slipFlag :: rest).length + 1) = f.encode.length := by
    simp only [List.length_cons, List.length_append]
    rw [u16_of_lt (by omega), hlen]
    omega
  rw [rxLoop_turn (by rw [List.length_append]; omega) (rxBackup_nil h _), henc,
    findSlipHeadFlag_cons hhead]
  simp only [List.drop_succ_cons, List.drop_zero, findSlipFlag_append f.body_ne, hslip]
  rw [if_neg (by simp), if_neg (by omega), ← henc, List.take_left, List.drop_left]

/-! ## One chunk -/

/-- The bytes `b` begin the first of the frames `fs`, a short one, unless there are none. -/
def Begun (fs : List SlipFrame) (b : List UInt8) : Prop :=
  b = [] ∨ ∃ f fs' q, fs = f :: fs' ∧ f.encode = b ++ q ∧ q ≠ [] ∧ f.encode.length < 256

/-- The loop from the end of a frame on. -/
theorem rxLoop_direct (hfuel : c.length < fuel) (h : s.Backs [])
    (hc : c <+: (fs.map SlipFrame.encode).flatten)
    (hcut : ∀ q ∈ cutFrame (fs.map SlipFrame.encode) c.length, q.length < 256) :
    ∃ s', rxLoop fuel c s = some s' ∧
      Took s s' ((fs.map SlipFrame.encode).take (completed (fs.map SlipFrame.encode) c.length))
        (leftover (fs.map SlipFrame.encode) c.length) := by
  induction fs generalizing c s fuel with
  | nil =>
    obtain rfl : c = [] := by simpa using hc
    obtain ⟨fuel, rfl⟩ := Nat.exists_eq_add_of_lt hfuel
    exact ⟨s, rfl, Took.refl h⟩
  | cons f fs ih =>
    rw [List.map_cons] at hc hcut ⊢
    obtain ⟨fuel, rfl⟩ : ∃ k, fuel = k + 1 := ⟨fuel - 1, by omega⟩
    by_cases hlt : c.length < f.encode.length
    · have hpre : c <+: f.encode :=
        List.prefix_of_prefix_length_le hc (List.prefix_append _ _) (by omega)
      rw [completed_of_lt hlt, leftover_of_lt hlt, ← List.prefix_iff_eq_take.mp hpre]
      by_cases hne : c = []
      · subst hne
        exact ⟨s, rfl, Took.refl h⟩
      · have hpos := List.length_pos_iff.mpr hne
        obtain ⟨q, hq⟩ := hpre
        have hqne : q ≠ [] := by
          rintro rfl
          rw [← hq, List.append_nil] at hlt
          exact absurd hlt (Nat.lt_irrefl _)
        have hshort := hcut f.encode (by rw [cutFrame_of_lt hlt (by omega)]; rfl)
        exact rxLoop_part h hq.symm hne hqne (by omega)
    · obtain ⟨rest, rfl⟩ : f.encode <+: c :=
        List.prefix_of_prefix_length_le (List.prefix_append _ _) hc (by omega)
      rw [List.flatten_cons, List.prefix_append_right_inj] at hc
      rw [List.length_append, f.length_encode] at hfuel
      rw [List.length_append, cutFrame_add] at hcut
      have hcall := took_slipHandler h f.encode
      obtain ⟨s', heq, htook⟩ := ih (show rest.length < fuel by omega) hcall.backs hc hcut
      refine ⟨s', (rxLoop_whole h rest).trans heq, ?_⟩
      rw [List.length_append, completed_add, leftover_add]
      exact hcall.trans htook

/-- The loop from the beginning of a chunk on. -/
theorem rxLoop_took (hfuel : c.length < fuel) (h : s.Backs b) (hbegun : Begun fs b)
    (hc : b ++ c <+: (fs.map SlipFrame.encode).flatten)
    (hcut : ∀ q ∈ cutFrame (fs.map SlipFrame.encode) (b ++ c).length, q.length < 256) :
    ∃ s', rxLoop fuel c s = some s' ∧
      Took s s'
        ((fs.map SlipFrame.encode).take (completed (fs.map SlipFrame.encode) (b ++ c).length))
        (leftover (fs.map SlipFrame.encode) (b ++ c).length) := by
  rcases hbegun with rfl | ⟨f, fs, q, rfl, hf, hq, hshort⟩
  · exact rxLoop_direct hfuel h hc hcut
  by_cases hb : b = []
  · subst hb
    exact rxLoop_direct hfuel h hc hcut
  rw [List.map_cons] at hc hcut ⊢
  have hlen := congrArg List.length hf
  rw [List.length_append] at hlen
  have hqpos := List.length_pos_iff.mpr hq
  obtain ⟨fuel, rfl⟩ : ∃ k, fuel = k + 1 := ⟨fuel - 1, by omega⟩
  by_cases hne : c = []
  · -- the frame stays in the backup buffer as it is
    subst hne
    rw [List.append_nil, completed_of_lt (by omega), leftover_of_lt (by omega), hf, List.take_left]
    exact ⟨s, rfl, Took.refl h⟩
  have hcpos := List.length_pos_iff.mpr hne
  rw [List.flatten_cons, hf, List.append_assoc, List.prefix_append_right_inj] at hc
  by_cases hlt : c.length < q.length
  · -- the frame goes on beyond the chunk
    have hpre : c <+: q :=
      List.prefix_of_prefix_length_le hc (List.prefix_append _ _) (by omega)
    obtain ⟨s', htook, hback⟩ := rxBackup_keep h hb hf hq hshort hpre hlt
    refine ⟨s', rxLoop_turn (by omega) hback, ?_⟩
    obtain ⟨q', rfl⟩ := hpre
    have hshorter : (b ++ c).length < f.encode.length := by
      rw [List.length_append]
      omega
    rw [completed_of_lt hshorter, leftover_of_lt hshorter, hf, ← List.append_assoc, List.take_left]
    exact htook
  · -- the chunk completes the frame
    obtain ⟨rest, rfl⟩ : q <+: c :=
      List.prefix_of_prefix_length_le (List.prefix_append _ _) hc (by omega)
    rw [List.prefix_append_right_inj] at hc
    rw [← List.append_assoc, ← hf, List.length_append, cutFrame_add] at hcut
    rw [← List.append_assoc, ← hf, List.length_append, completed_add, leftover_add]
    rw [List.length_append] at hfuel
    obtain ⟨s₁, htook, hback⟩ := rxBackup_finish h hb hf hq hshort rest
    obtain ⟨s', heq, htook'⟩ :=
      rxLoop_direct (show rest.length < fuel + 1 by omega) htook.backs hc hcut
    refine ⟨s', ?_, htook.trans htook'⟩
    rw [← heq, rxLoop_turn (by omega) hback]
    cases rest with
    | nil => rfl
    | cons x rest => rw [rxLoop_turn (by simp) (rxBackup_nil htook.backs _)]

end HciH5TrCb
end TlBleSdk.Hci
