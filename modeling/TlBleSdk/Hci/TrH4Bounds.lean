import TlBleSdk.Hci.TrH4Acts
import TlBleSdk.Hci.TrH4Cut
import Mathlib.Logic.Relation

/-!
# The bounds of the H4 parser

Turn for turn the loop of `HCI_Tr_H4RxHandler` follows the walk through the bytes before it: a
turn stays inside its chunk, the backup buffer and the slots exactly if what the walk finds is
harmless, and it leaves what the walk leaves. So the loop is safe exactly if the walk gets
through.
-/

namespace TlBleSdk.Hci

open Machine H4Walk

namespace HciH4TrCb

variable {s s' : HciH4TrCb} {pPacket : List UInt8} {len headLen : ℕ}

/-- The bytes before the parser. -/
def walk (s : HciH4TrCb) (pPacket : List UInt8) (len : ℕ) : H4Walk where
  kept := bytes s.pBackUpBuf s.backupCnt
  rest := pPacket.take len
  num := s.pHciRxFifo.num
  used := s.pHciRxFifo.used

/-- A loop inside its chunk, which is in a slot of the UART. -/
structure InChunk (pPacket : List UInt8) (len : ℕ) (s : HciH4TrCb) : Prop where
  kept : s.KeptOk
  len_le : len ≤ pPacket.length
  length_le : pPacket.length ≤ hciH4TrRxBufSize - 4

theorem InChunk.length_rest (h : s.InChunk pPacket len) : (s.walk pPacket len).rest.length = len :=
  List.length_take_of_le h.len_le

theorem InChunk.len_le_slot (h : s.InChunk pPacket len) : len ≤ hciH4TrRxBufSize - 4 :=
  Nat.le_trans h.len_le h.length_le

theorem InChunk.drop (h : s.InChunk pPacket len) (hkept : s'.KeptOk) (n : ℕ) :
    s'.InChunk (pPacket.drop n) (len - n) where
  kept := hkept
  len_le := by
    rw [List.length_drop]
    exact Nat.sub_le_sub_right h.len_le _
  length_le := by
    rw [List.length_drop]
    exact Nat.le_trans (Nat.sub_le _ _) h.length_le

theorem walk_kept : (s.walk pPacket len).kept = [] ↔ s.backupCnt = 0 := by
  rw [← List.length_eq_zero_iff]
  exact (length_bytes _ _).symm ▸ Iff.rfl

/-! ## The backup handler -/

/-- What the walk needs to know of a packet in the backup buffer. -/
theorem InChunk.exists_kept (h : s.InChunk pPacket len) (h0 : s.backupCnt ≠ 0) :
    ∃ headLen paramLenOf, KeptAs (s.pBackUpBuf 0) headLen paramLenOf ∧
      s.backupCnt < 1 + headLen + paramLenOf s.pBackUpBuf ∧
      declared (mem ((s.walk pPacket len).kept ++ (s.walk pPacket len).rest)) =
        1 + headLen + paramLenOf (mem (bytes s.pBackUpBuf s.backupCnt ++ pPacket.take len)) := by
  obtain ⟨headLen, paramLenOf, has⟩ := exists_keptAs (h.kept.type h0)
  refine ⟨headLen, paramLenOf, has, ?_, ?_⟩
  · rw [← has.declared _ rfl]
    exact h.kept.short h0
  · apply has.declared
    show mem (bytes s.pBackUpBuf s.backupCnt ++ pPacket.take len) 0 = _
    rw [mem_bytes_append _ (by omega), memcpy_of_lt _ _ (Nat.pos_of_ne_zero h0)]

theorem InChunk.held_eq (h : s.InChunk pPacket len) {paramLenOf : (ℕ → UInt8) → ℕ}
    (hdeclared : declared (mem ((s.walk pPacket len).kept ++ (s.walk pPacket len).rest)) =
      1 + headLen + paramLenOf (mem (bytes s.pBackUpBuf s.backupCnt ++ pPacket.take len))) :
    (s.walk pPacket len).held = s.heldOf headLen paramLenOf pPacket len := by
  rw [held, hdeclared, h.length_rest]
  show min _ ((bytes s.pBackUpBuf s.backupCnt).length + len) = _
  rw [length_bytes]
  rfl

/-- What the backup handler does stays inside exactly if what goes to the buffer fits it. -/
theorem backUpActs_inside (h : s.InChunk pPacket len) :
    (∀ a ∈ s.backUpActs pPacket len, a.Inside) ↔ (s.walk pPacket len).KeptFits := by
  unfold KeptFits
  rw [ne_eq, walk_kept]
  by_cases h0 : s.backupCnt = 0
  · rw [backUpActs, if_pos h0]
    refine iff_of_true ?_ fun hne => absurd h0 hne
    simp only [List.forall_mem_cons, List.not_mem_nil, false_implies, implies_true, and_true,
      H4Act.inside_read, H4Act.inside_backup]
    exact ⟨h.len_le, Nat.le_trans h.len_le_slot (by decide)⟩
  · obtain ⟨headLen, paramLenOf, has, hshort, hdeclared⟩ := h.exists_kept h0
    have hfirst : H4Act.Inside (.backup 1) := show 1 ≤ hciH4TrRxBufSize by decide
    rw [has.acts s pPacket len h0 rfl, List.forall_mem_cons, and_iff_right hfirst,
      backUpPacketActs_inside has.reads has.head_lt h.kept.cnt_lt hshort h.len_le h.len_le_slot,
      h.held_eq hdeclared]
    exact ⟨fun hle _ => hle, fun hle => hle h0⟩

theorem used_push_mod (f : HciFifo) (e : List UInt8) : (f.push e).used = u8 (f.used + 1) := by
  have hw := f.wptr_lt
  have hr := f.rptr_lt
  unfold HciFifo.used u8
  show ((f.wptr + 1) % 256 + 256 - f.rptr) % 256 = _
  omega

/-- The handler leaves what the walk leaves of a packet in the backup buffer. -/
theorem walk_continued (h : s.InChunk pPacket len) (h0 : s.backupCnt ≠ 0) :
    (s.backUpHandler pPacket len).2.walk (pPacket.drop (u8 (s.backUpHandler pPacket len).1))
      (len - u8 (s.backUpHandler pPacket len).1) = (s.walk pPacket len).continued := by
  obtain ⟨headLen, paramLenOf, has, hshort, hdeclared⟩ := h.exists_kept h0
  have hlen := h.len_le
  have hslot : len ≤ 604 := h.len_le_slot
  have hcnt := h.kept.cnt_lt
  have hheld := h.held_eq hdeclared
  rw [has.handler s pPacket len h0 rfl,
    backUpPacket_eq has.reads has.head_lt hcnt hshort hlen (by omega), continued,
    if_neg (mt walk_kept.mp h0), hdeclared, hheld]
  have hle : s.backupCnt ≤ s.heldOf headLen paramLenOf pPacket len := by
    refine Nat.le_min.mpr ⟨?_, Nat.le_add_right _ _⟩
    by_cases hwhole : 1 + headLen ≤ s.backupCnt
    · rw [paramLenOf_kept has.reads _ hwhole]
      exact Nat.le_of_lt hshort
    · omega
  have hdecl : s.heldOf headLen paramLenOf pPacket len ≤ 1 + headLen +
      paramLenOf (mem (bytes s.pBackUpBuf s.backupCnt ++ pPacket.take len)) := Nat.min_le_left _ _
  have hall : s.heldOf headLen paramLenOf pPacket len ≤ s.backupCnt + len := Nat.min_le_right _ _
  generalize s.heldOf headLen paramLenOf pPacket len = n at hle hdecl hall ⊢
  generalize 1 + headLen + paramLenOf _ = d at hdecl ⊢
  have htake : (pPacket.take (n - s.backupCnt)).length = n - s.backupCnt :=
    List.length_take_of_le (by omega)
  have hcnt' : (s.appendBackup (pPacket.take (n - s.backupCnt))).backupCnt = u8 n := by
    show u8 (s.backupCnt + (pPacket.take (n - s.backupCnt)).length) = _
    rw [htake, Nat.add_sub_cancel' hle]
  have hrest : ∀ m, (pPacket.drop m).take (len - m) = (s.walk pPacket len).rest.drop m :=
    fun m => List.drop_take.symm
  have hkept : (s.walk pPacket len).kept.length = s.backupCnt := length_bytes _ _
  rw [hkept]
  by_cases hwhole : n = d ∧ n < 256
  · -- the packet is whole, and the 8-bit count shows it
    have hdone : (s.appendBackup (pPacket.take (n - s.backupCnt))).backupCnt = d := by
      rw [hcnt', u8_of_lt hwhole.2, hwhole.1]
    rw [if_pos hwhole, endPacket, if_pos hdone]
    simp only [walk, u8_of_lt (show n - s.backupCnt < 256 by omega), hrest]
    congr 1
    exact used_push_mod _ _
  · -- the buffer keeps as many bytes as the 8-bit count says
    have hpart : (s.appendBackup (pPacket.take (n - s.backupCnt))).backupCnt ≠ d := by
      have hmod : u8 n ≤ n := Nat.mod_le _ _
      have hlt := u8_lt n
      omega
    rw [if_neg hwhole, endPacket, if_neg hpart]
    simp only [walk, hrest]
    congr 1
    show bytes (memcpy s.pBackUpBuf s.backupCnt (pPacket.take (n - s.backupCnt)))
      (s.appendBackup (pPacket.take (n - s.backupCnt))).backupCnt = _
    have hle' : u8 n ≤ s.backupCnt + (pPacket.take (n - s.backupCnt)).length := by
      rw [htake, Nat.add_sub_cancel' hle]
      exact Nat.mod_le _ _
    have hpart' : bytes s.pBackUpBuf s.backupCnt ++ pPacket.take (n - s.backupCnt) =
        ((s.walk pPacket len).kept ++ (s.walk pPacket len).rest).take n := by
      have hbytes : (bytes s.pBackUpBuf s.backupCnt).take n = bytes s.pBackUpBuf s.backupCnt :=
        List.take_of_length_le (by rwa [length_bytes])
      show _ = (bytes s.pBackUpBuf s.backupCnt ++ pPacket.take len).take n
      rw [List.take_append, length_bytes, hbytes, List.take_take, Nat.min_eq_left (by omega)]
    have hmod : u8 n ≤ n := Nat.mod_le _ _
    rw [hcnt', ← bytes_take_of_le _ hle', bytes_memcpy, hpart', List.take_take,
      Nat.min_eq_left hmod]
    rfl

/-! ## The `switch` -/

/-- A turn leads where the walk goes: it ends the loop, or leaves the bytes `w'` before it. -/
def Turn.Leads : Option H4Walk → Turn → Prop
  | none, .next _ _ len' => len' = 0
  | none, .full _ => True
  | some w', .next s' pPacket' len' => s'.InChunk pPacket' len' ∧ s'.walk pPacket' len' = w'
  | some _, .full _ => False

/-- A turn from the bytes `w` on: it stays inside exactly if the walk finds nothing wrong at
the packet pointer, and then leads where the walk goes. -/
structure Follows (w : H4Walk) (acts : List H4Act) (t : Turn) : Prop where
  inside : (∀ a ∈ acts, a.Inside) ↔ ∃ o, w.AtPointer o
  leads : ∀ o, w.AtPointer o → t.Leads o

/-- Bytes that go to the backup buffer end the chunk. -/
theorem follows_backUp (h : s.InChunk pPacket len)
    (hat : ∀ o, (s.walk pPacket len).AtPointer o ↔ o = none ∧ (s.walk pPacket len).KeptFits) :
    Follows (s.walk pPacket len) (s.backUpActs pPacket len)
      (.next (s.backUpHandler pPacket len).2 pPacket 0) where
  inside := by
    rw [backUpActs_inside h]
    exact ⟨fun hfits => ⟨none, (hat none).mpr ⟨rfl, hfits⟩⟩, fun ⟨o, ho⟩ => ((hat o).mp ho).2⟩
  leads o ho := by
    obtain ⟨rfl, -⟩ := (hat o).mp ho
    rfl

/-- The end of a packet that is used up. -/
theorem InChunk.putPacket (h : s.InChunk pPacket len) (hroom : s.pHciRxFifo.used < s.pHciRxFifo.num)
    (p : List UInt8) (n : ℕ) : (s.putPacket p).InChunk (pPacket.drop n) (len - n) ∧
      (s.putPacket p).walk (pPacket.drop n) (len - n) =
        { s.walk pPacket len with
          rest := (s.walk pPacket len).rest.drop n, used := (s.walk pPacket len).used + 1 } := by
  have hkept : (s.putPacket p).KeptOk := ⟨h.kept.cnt_lt, h.kept.type, h.kept.short⟩
  refine ⟨h.drop hkept n, ?_⟩
  have hused : (s.putPacket p).pHciRxFifo.used = s.pHciRxFifo.used + 1 :=
    HciFifo.used_push hroom p
  have hrest : (pPacket.drop n).take (len - n) = (pPacket.take len).drop n := List.drop_take.symm
  simp only [walk, hused, hrest]
  rfl

theorem rxPacket_follows (h : s.InChunk pPacket len) {head size : ℕ} (hhead : head ≤ len)
    (hstored : stored (s.walk pPacket len).rest = some (head, size)) :
    Follows (s.walk pPacket len) (s.rxPacketActs size pPacket len)
      (s.rxPacket size pPacket len) := by
  have hat := fun o => atPointer_stored (o := o) hstored
  rw [h.length_rest] at hat
  unfold rxPacketActs rxPacket
  by_cases h0 : size = 0
  · -- The pointer stays.
    have hwhole : ¬ (size ≠ 0 ∧ size ≤ len) := fun hp => hp.1 h0
    have hpart : ¬ (size ≠ 0 ∧ len < size) := fun hp => hp.1 h0
    have hat' : ∀ o, (s.walk pPacket len).AtPointer o ↔ o = some (s.walk pPacket len) := by
      intro o
      rw [hat, if_neg (by omega), if_pos h0]
    rw [if_neg hwhole, if_neg hwhole, if_neg hpart, if_neg hpart]
    refine ⟨iff_of_true nofun ⟨_, (hat' _).mpr rfl⟩, fun o ho => ?_⟩
    rw [(hat' o).mp ho]
    exact ⟨h, rfl⟩
  by_cases hle : size ≤ len
  · -- The packet is whole, and goes to the HCI RX FIFO if that has a slot.
    have hwhole : size ≠ 0 ∧ size ≤ len := ⟨h0, hle⟩
    have hat' : ∀ o, (s.walk pPacket len).AtPointer o ↔
        if s.pHciRxFifo.num ≤ s.pHciRxFifo.used then o = none
        else o = some { s.walk pPacket len with
          rest := (s.walk pPacket len).rest.drop size, used := (s.walk pPacket len).used + 1 } ∧
            size ≤ hciRxFifoSize := by
      intro o
      rw [hat, if_neg (by omega), if_neg h0]
      rfl
    rw [if_pos hwhole, if_pos hwhole]
    by_cases hfull : s.pHciRxFifo.num ≤ s.pHciRxFifo.used
    · simp only [if_pos hfull] at hat' ⊢
      refine ⟨iff_of_true nofun ⟨_, (hat' _).mpr rfl⟩, fun o ho => ?_⟩
      rw [(hat' o).mp ho]
      trivial
    · simp only [if_neg hfull] at hat' ⊢
      refine ⟨?_, fun o ho => ?_⟩
      · simp only [List.forall_mem_cons, List.not_mem_nil, false_implies, implies_true, and_true,
          H4Act.inside_read, H4Act.inside_store, H4Act.inside_sub, hat', exists_eq_left]
        exact ⟨fun hin => hin.2.1, fun hslot => ⟨Nat.le_trans hle h.len_le, hslot, hle⟩⟩
      · rw [((hat' o).mp ho).1]
        exact h.putPacket (Nat.not_le.mp hfull) _ _
  · -- What there is of the packet goes to the backup buffer.
    have hwhole : ¬ (size ≠ 0 ∧ size ≤ len) := fun hp => hle hp.2
    have hpart : size ≠ 0 ∧ len < size := ⟨h0, Nat.not_le.mp hle⟩
    rw [if_neg hwhole, if_neg hwhole, if_pos hpart, if_pos hpart]
    apply follows_backUp h
    intro o
    rw [hat, if_pos (.inr hpart.2)]

/-- A packet for the stack, of whose size the parser has 16 bits. -/
theorem rxHeader_follows (h : s.InChunk pPacket len) {headLen paramLen size : ℕ}
    (hstored : stored (s.walk pPacket len).rest = some (1 + headLen, size))
    (hsize : 1 + headLen ≤ len → u16 (1 + headLen + paramLen) = size) :
    Follows (s.walk pPacket len) (s.rxHeaderActs headLen paramLen pPacket len)
      (s.rxHeader headLen paramLen pPacket len) := by
  unfold rxHeaderActs rxHeader
  by_cases hhead : len < 1 + headLen
  · rw [if_pos hhead, if_pos hhead]
    apply follows_backUp h
    intro o
    rw [atPointer_stored hstored, h.length_rest, if_pos (.inl hhead)]
  · have hle := Nat.not_lt.mp hhead
    have hread : (H4Act.read pPacket.length (1 + headLen)).Inside := Nat.le_trans hle h.len_le
    rw [if_neg hhead, if_neg hhead, hsize hle]
    obtain ⟨hinside, hleads⟩ := rxPacket_follows h hle hstored
    exact ⟨by rw [List.forall_mem_cons, and_iff_right hread, hinside], hleads⟩

/-- A packet that is skipped. -/
theorem rxSkip_follows (h : s.InChunk pPacket len) {headLen paramLen size : ℕ}
    (hhead : headLen < 255) (hparam : paramLen < 256)
    (hstored : stored (s.walk pPacket len).rest = none)
    (hskipped : skipped (s.walk pPacket len).rest = some (1 + headLen, size))
    (hsize : 1 + headLen ≤ len → 1 + headLen + paramLen = size) :
    Follows (s.walk pPacket len) (rxSkipActs headLen paramLen pPacket len)
      (s.rxSkip headLen paramLen pPacket len) := by
  have hat := fun o => atPointer_skipped (o := o) hstored hskipped
  rw [h.length_rest] at hat
  unfold rxSkipActs rxSkip
  by_cases hshort : len < 1 + headLen
  · simp only [if_pos hshort] at hat ⊢
    refine ⟨iff_of_true nofun ⟨_, (hat _).mpr rfl⟩, fun o ho => ?_⟩
    rw [(hat o).mp ho]
    rfl
  · have hle := Nat.not_lt.mp hshort
    have hread : 1 + headLen ≤ pPacket.length := Nat.le_trans hle h.len_le
    simp only [if_neg hshort] at hat ⊢
    rw [u16_of_lt (by omega), hsize hle]
    refine ⟨?_, fun o ho => ?_⟩
    · simp only [List.forall_mem_cons, List.not_mem_nil, false_implies, implies_true, and_true,
        H4Act.inside_read, H4Act.inside_sub, hat, exists_eq_left, hread, true_and]
    · obtain ⟨rfl, hwhole⟩ := (hat o).mp ho
      have hslot := h.len_le_slot
      rw [u32Sub_of_le hwhole (Nat.lt_of_le_of_lt hslot (by decide))]
      refine ⟨⟨h.kept, Nat.le_trans (Nat.sub_le _ _) h.len_le, h.length_le⟩, ?_⟩
      have hrest : pPacket.take (len - size) = (pPacket.take len).take (len - size) := by
        rw [List.take_take, Nat.min_eq_left (Nat.sub_le _ _)]
      simp only [walk, hrest]

theorem aclParamLen_take (hlen : 1 + aclHeadLen ≤ len) :
    aclParamLen (mem (pPacket.take len)) = aclParamLen (mem pPacket) :=
  readsHeader_acl.congr fun _ hi => mem_take _ (Nat.lt_of_lt_of_le hi hlen)

theorem rxSwitch_follows (h : s.InChunk pPacket len) (hpos : 0 < len) :
    Follows (s.walk pPacket len) (s.rxSwitchActs pPacket len) (s.rxSwitch pPacket len) := by
  have hread : (H4Act.read pPacket.length 1).Inside := Nat.le_trans hpos h.len_le
  have htype : mem (s.walk pPacket len).rest 0 = mem pPacket 0 := mem_take _ hpos
  have hmem : ∀ i < len, mem (s.walk pPacket len).rest i = mem pPacket i :=
    fun i hi => mem_take _ hi
  -- The first act reads the type, the others are those of its case.
  have hcons : ∀ {acts t}, Follows (s.walk pPacket len) acts t →
      Follows (s.walk pPacket len) (.read pPacket.length 1 :: acts) t := fun hf =>
    ⟨by rw [List.forall_mem_cons, and_iff_right hread, hf.inside], hf.leads⟩
  unfold rxSwitchActs rxSwitch
  dsimp only
  apply hcons
  by_cases hcmd : mem pPacket 0 = trTypeCmd
  · rw [if_pos hcmd, if_pos hcmd]
    refine rxHeader_follows h (by rw [stored, htype, if_pos hcmd]) fun hhead => ?_
    have hparam := UInt8.toNat_lt (mem pPacket 3)
    rw [cmdParamLen, cmdParamLen, hmem 3 (Nat.lt_of_lt_of_le (by decide) hhead), u16_of_lt]
    unfold cmdHeadLen
    omega
  rw [if_neg hcmd, if_neg hcmd]
  by_cases hacl : mem pPacket 0 = trTypeAcl
  · rw [if_pos hacl, if_pos hacl]
    refine rxHeader_follows h (by rw [stored, htype, if_neg hcmd, if_pos hacl]) fun hhead => ?_
    exact congrArg (fun n => u16 (1 + aclHeadLen + n)) (aclParamLen_take hhead).symm
  rw [if_neg hacl, if_neg hacl]
  by_cases hiso : mem pPacket 0 = trTypeIso
  · rw [if_pos hiso, if_pos hiso]
    refine rxHeader_follows h (by rw [stored, htype, if_neg hcmd, if_neg hacl, if_pos hiso])
      fun hhead => ?_
    show _ = 1 + aclHeadLen + aclParamLen (mem (pPacket.take len)) % 1024
    rw [aclParamLen_take hhead, u16_of_lt]
    unfold aclHeadLen
    omega
  rw [if_neg hiso, if_neg hiso]
  have hstored : stored (s.walk pPacket len).rest = none := by
    rw [stored, htype, if_neg hcmd, if_neg hacl, if_neg hiso]
  by_cases hevt : mem pPacket 0 = trTypeEvent
  · rw [if_pos hevt, if_pos hevt]
    refine rxSkip_follows h (by decide) (UInt8.toNat_lt _) hstored
      (by rw [skipped, htype, if_pos hevt]) fun hhead => ?_
    rw [hmem 2 (Nat.lt_of_lt_of_le (by decide) hhead)]
  rw [if_neg hevt, if_neg hevt]
  by_cases hsco : mem pPacket 0 = trTypeSco
  · rw [if_pos hsco, if_pos hsco]
    refine rxSkip_follows h (by decide) (UInt8.toNat_lt _) hstored
      (by rw [skipped, htype, if_neg hevt, if_pos hsco]) fun hhead => ?_
    rw [hmem 3 (Nat.lt_of_lt_of_le (by decide) hhead)]
  · rw [if_neg hsco, if_neg hsco]
    have hskipped : skipped (s.walk pPacket len).rest = none := by
      rw [skipped, htype, if_neg hevt, if_neg hsco]
    refine ⟨iff_of_true nofun ⟨none, .unknown hstored hskipped⟩, fun o ho => ?_⟩
    rw [(atPointer_unknown hstored hskipped).mp ho]
    rfl

/-! ## A turn -/

/-- The loop after a turn that uses the chunk up, or returns. -/
theorem rxTurn_follows (h : s.InChunk pPacket len) (hpos : 0 < len) :
    ((∀ a ∈ s.rxTurnActs pPacket len, a.Inside) ↔ (s.walk pPacket len).KeptFits ∧
      ((s.walk pPacket len).continued.rest = [] ∨
        ∃ o, (s.walk pPacket len).continued.AtPointer o)) ∧
      ((s.walk pPacket len).continued.rest = [] → (s.rxTurn pPacket len).Leads none) ∧
      ((s.walk pPacket len).continued.rest ≠ [] →
        ∀ o, (s.walk pPacket len).continued.AtPointer o → (s.rxTurn pPacket len).Leads o) := by
  unfold rxTurnActs rxTurn
  by_cases h0 : s.backupCnt = 0
  · have hsame : (s.walk pPacket len).continued = s.walk pPacket len :=
      if_pos (walk_kept.mpr h0)
    have hfits : (s.walk pPacket len).KeptFits := fun hne => absurd (walk_kept.mpr h0) hne
    have hrest : (s.walk pPacket len).rest ≠ [] := by
      rw [← List.length_pos_iff, h.length_rest]
      exact hpos
    obtain ⟨hinside, hleads⟩ := rxSwitch_follows h hpos
    rw [if_neg (not_not_intro h0), if_neg (not_not_intro h0), hsame, hinside]
    exact ⟨⟨fun hat => ⟨hfits, .inr hat⟩, fun hat => hat.2.resolve_left hrest⟩,
      fun hnil => absurd hnil hrest, fun _ => hleads⟩
  · have hcont := walk_continued h h0
    have hkept : (s.backUpHandler pPacket len).2.KeptOk := h.kept.backUpHandler h0
    have hle : u8 (s.backUpHandler pPacket len).1 ≤ len :=
      Nat.le_trans (Nat.mod_le _ _) (backUpHandler_le _ _ _)
    rw [if_pos h0, if_pos h0]
    dsimp only
    generalize u8 (s.backUpHandler pPacket len).1 = res at hcont hle ⊢
    have hafter : (s.backUpHandler pPacket len).2.InChunk (pPacket.drop res) (len - res) :=
      h.drop hkept res
    have hnil : (s.walk pPacket len).continued.rest = [] ↔ len - res = 0 := by
      rw [← hcont, ← List.length_eq_zero_iff, hafter.length_rest]
    simp only [List.forall_mem_append, List.forall_mem_cons, backUpActs_inside h,
      H4Act.inside_sub, hle, true_and, hnil]
    by_cases hend : len - res = 0
    · rw [if_pos hend, if_pos hend]
      exact ⟨and_congr_right fun _ => iff_of_true nofun (.inl hend), fun _ => rfl,
        fun hne => absurd (hnil.mpr hend) hne⟩
    · obtain ⟨hinside, hleads⟩ := rxSwitch_follows hafter (Nat.pos_of_ne_zero hend)
      rw [if_neg hend, if_neg hend, hinside, hcont]
      rw [hcont] at hleads
      exact ⟨and_congr_right fun _ => (or_iff_right hend).symm, fun h0 => absurd h0 hend,
        fun _ => hleads⟩

end HciH4TrCb

/-! ## The loop -/

/-- The loop `while (len)` before a turn. -/
structure H4Loop where
  s : HciH4TrCb
  pPacket : List UInt8
  len : ℕ

namespace H4Loop

/-- The next turn. -/
def Next (c c' : H4Loop) : Prop :=
  c.len ≠ 0 ∧ c.s.rxTurn c.pPacket c.len = .next c'.s c'.pPacket c'.len

/-- Some turns later. -/
def Reaches : H4Loop → H4Loop → Prop := Relation.ReflTransGen Next

/-- The loop ends. -/
def Ends (c : H4Loop) : Prop := ∃ fuel, HciH4TrCb.rxLoop fuel c.pPacket c.len c.s ≠ none

/-- What is wanted: the loop ends, and in every turn all that it touches is inside and `len`
does not wrap. -/
structure Safe (c : H4Loop) : Prop where
  ends : c.Ends
  inside : ∀ c', c.Reaches c' → c'.len ≠ 0 →
    ∀ a ∈ c'.s.rxTurnActs c'.pPacket c'.len, a.Inside

/-- The loop is inside its chunk. -/
def InChunk (c : H4Loop) : Prop := c.s.InChunk c.pPacket c.len

/-- The bytes before the loop. -/
def walk (c : H4Loop) : H4Walk := c.s.walk c.pPacket c.len

variable {c c' : H4Loop}

theorem safe_done (h0 : c.len = 0) : c.Safe where
  ends := by
    refine ⟨1, ?_⟩
    rw [h0, HciH4TrCb.rxLoop_done]
    nofun
  inside c' hreach hne := by
    obtain rfl | ⟨c₁, hnext, -⟩ := Relation.ReflTransGen.cases_head hreach
    · exact absurd h0 hne
    · exact absurd h0 hnext.1

/-- The loop is safe if the turn stays inside and the rest of the loop is safe. -/
theorem safe_of_turn (h0 : c.len ≠ 0)
    (hinside : ∀ a ∈ c.s.rxTurnActs c.pPacket c.len, a.Inside)
    (hrest : ∀ c', Next c c' → c'.Safe) : c.Safe where
  ends := by
    cases hturn : c.s.rxTurn c.pPacket c.len with
    | full s' =>
      refine ⟨1, ?_⟩
      rw [HciH4TrCb.rxLoop_turn h0, hturn]
      nofun
    | next s' pPacket' len' =>
      obtain ⟨fuel, hfuel⟩ := (hrest ⟨s', pPacket', len'⟩ ⟨h0, hturn⟩).ends
      refine ⟨fuel + 1, ?_⟩
      rw [HciH4TrCb.rxLoop_turn h0, hturn]
      exact hfuel
  inside c' hreach hne := by
    obtain rfl | ⟨c₁, hnext, hreach'⟩ := Relation.ReflTransGen.cases_head hreach
    · exact hinside
    · exact (hrest c₁ hnext).inside c' hreach' hne

/-- A walk that gets through keeps the loop safe. -/
theorem safe_of_through {w : H4Walk} (h : w.Through) (hin : c.InChunk) (hw : c.walk = w) :
    c.Safe := by
  induction h generalizing c with
  | done hnil =>
    subst hw
    apply safe_done
    rw [← hin.length_rest]
    exact List.length_eq_zero_iff.mpr hnil
  | taken hfits hnil =>
    subst hw
    by_cases h0 : c.len = 0
    · exact safe_done h0
    obtain ⟨hinside, hleads, -⟩ := HciH4TrCb.rxTurn_follows hin (Nat.pos_of_ne_zero h0)
    refine safe_of_turn h0 (hinside.mpr ⟨hfits, .inl hnil⟩) fun c' hnext => safe_done ?_
    have hl := hleads hnil
    rw [hnext.2] at hl
    exact hl
  | last hfits hat =>
    subst hw
    by_cases h0 : c.len = 0
    · exact safe_done h0
    obtain ⟨hinside, hnone, hleads⟩ := HciH4TrCb.rxTurn_follows hin (Nat.pos_of_ne_zero h0)
    refine safe_of_turn h0 (hinside.mpr ⟨hfits, .inr ⟨_, hat⟩⟩) fun c' hnext => safe_done ?_
    have hl : (c.s.rxTurn c.pPacket c.len).Leads none := by
      by_cases hnil : c.walk.continued.rest = []
      · exact hnone hnil
      · exact hleads hnil none hat
    rw [hnext.2] at hl
    exact hl
  | turn hfits hat _ ih =>
    subst hw
    by_cases h0 : c.len = 0
    · exact safe_done h0
    obtain ⟨hinside, hnone, hleads⟩ := HciH4TrCb.rxTurn_follows hin (Nat.pos_of_ne_zero h0)
    refine safe_of_turn h0 (hinside.mpr ⟨hfits, .inr ⟨_, hat⟩⟩) fun c' hnext => ?_
    -- what stands at the pointer does not matter where the backup handler took all of the chunk
    by_cases hnil : c.walk.continued.rest = []
    · have hl := hnone hnil
      rw [hnext.2] at hl
      exact safe_done hl
    · have hl := hleads hnil _ hat
      rw [hnext.2] at hl
      exact ih hl.1 hl.2

/-- A loop that is safe is a walk that gets through. -/
theorem through_of_safe (hin : c.InChunk) {fuel : ℕ}
    (hfuel : HciH4TrCb.rxLoop fuel c.pPacket c.len c.s ≠ none)
    (hinside : ∀ c', c.Reaches c' → c'.len ≠ 0 →
      ∀ a ∈ c'.s.rxTurnActs c'.pPacket c'.len, a.Inside) : c.walk.Through := by
  induction fuel generalizing c with
  | zero => exact absurd rfl hfuel
  | succ fuel ih =>
    by_cases h0 : c.len = 0
    · apply H4Walk.Through.done
      rw [← List.length_eq_zero_iff]
      exact hin.length_rest.trans h0
    obtain ⟨hfollows, -, hleads⟩ := HciH4TrCb.rxTurn_follows hin (Nat.pos_of_ne_zero h0)
    obtain ⟨hfits, hrest⟩ := hfollows.mp (hinside c .refl h0)
    by_cases hnil : c.walk.continued.rest = []
    · exact .taken hfits hnil
    obtain ⟨o, hat⟩ := hrest.resolve_left hnil
    cases o with
    | none => exact .last hfits hat
    | some w' =>
      have hl := hleads hnil _ hat
      rw [HciH4TrCb.rxLoop_turn h0] at hfuel
      cases hturn : c.s.rxTurn c.pPacket c.len with
      | full s' =>
        rw [hturn] at hl
        exact absurd hl nofun
      | next s' pPacket' len' =>
        -- the turn leaves what the walk leaves, with a turn less to go
        rw [hturn] at hl hfuel
        have hnext : Next c ⟨s', pPacket', len'⟩ := ⟨h0, hturn⟩
        obtain ⟨hin', rfl⟩ := hl
        refine .turn hfits hat (ih (c := ⟨s', pPacket', len'⟩) hin' hfuel ?_)
        exact fun c' hreach => hinside c' (.head hnext hreach)

/-- The loop is safe exactly if the walk through the bytes before it gets through. -/
theorem safe_iff_through (h : c.InChunk) : c.Safe ↔ c.walk.Through :=
  ⟨fun hsafe => hsafe.ends.elim fun _ hfuel => through_of_safe h hfuel hsafe.inside,
    fun hthrough => safe_of_through hthrough h rfl⟩

end H4Loop

namespace HciH4TrCb

variable {s : HciH4TrCb} {pPacket : List UInt8} {len fuel : ℕ}

/-! ## Runs -/

/-- A turn leaves the beginning of a packet in the backup buffer, if anything. -/
def Turn.KeptOk : Turn → Prop
  | .next s _ _ => s.KeptOk
  | .full s => s.KeptOk

theorem rxPacket_keptOk (h : s.KeptOk) (htype : IsKept (mem pPacket 0)) {pktLen : ℕ}
    (hpkt : pktLen ≤ declared (mem pPacket)) : (s.rxPacket pktLen pPacket len).KeptOk := by
  unfold rxPacket
  split
  · split
    · exact h
    · exact ⟨h.cnt_lt, h.type, h.short⟩
  split
  next hpart => exact h.backUpNew htype (Nat.lt_of_lt_of_le hpart.2 hpkt)
  · exact h

theorem rxHeader_keptOk (h : s.KeptOk) (htype : IsKept (mem pPacket 0)) {paramLen : ℕ}
    (hhead : 1 + headLen + paramLen ≤ declared (mem pPacket)) :
    (s.rxHeader headLen paramLen pPacket len).KeptOk := by
  unfold rxHeader
  split
  next hpart => exact h.backUpNew htype (by omega)
  · exact rxPacket_keptOk h htype (Nat.le_trans (Nat.mod_le _ _) hhead)

theorem rxSkip_keptOk (h : s.KeptOk) (headLen paramLen : ℕ) :
    (s.rxSkip headLen paramLen pPacket len).KeptOk := by
  unfold rxSkip
  split
  · exact h
  · exact h

theorem rxSwitch_keptOk (h : s.KeptOk) (pPacket : List UInt8) (len : ℕ) :
    (s.rxSwitch pPacket len).KeptOk := by
  unfold rxSwitch
  dsimp only
  split
  next hcmd => exact rxHeader_keptOk h (.inl hcmd) (by rw [declared, if_pos hcmd])
  split
  next hcmd hacl => exact rxHeader_keptOk h (.inr (.inl hacl)) (by rw [declared, if_neg hcmd])
  split
  next hcmd hacl hiso =>
    refine rxHeader_keptOk h (.inr (.inr hiso)) ?_
    rw [declared, if_neg hcmd]
    exact Nat.add_le_add_left (Nat.mod_le _ _) _
  split
  · exact rxSkip_keptOk h _ _
  split
  · exact rxSkip_keptOk h _ _
  · exact h

theorem rxTurn_keptOk (h : s.KeptOk) (pPacket : List UInt8) (len : ℕ) :
    (s.rxTurn pPacket len).KeptOk := by
  unfold rxTurn
  split
  next h0 =>
    have hback : (s.backUpHandler pPacket len).2.KeptOk := h.backUpHandler h0
    dsimp only
    split
    · exact hback
    · exact rxSwitch_keptOk hback _ _
  · exact rxSwitch_keptOk h _ _

theorem rxLoop_keptOk (h : s.KeptOk) {r : Bool × HciH4TrCb}
    (hr : rxLoop fuel pPacket len s = some r) : r.2.KeptOk := by
  induction fuel generalizing s pPacket len with
  | zero => exact absurd hr nofun
  | succ fuel ih =>
    by_cases h0 : len = 0
    · rw [h0, rxLoop_done] at hr
      obtain rfl := Option.some.inj hr
      exact h
    have hturn := rxTurn_keptOk h pPacket len
    rw [rxLoop_turn h0] at hr
    cases heq : s.rxTurn pPacket len with
    | next s' pPacket' len' =>
      rw [heq] at hr hturn
      exact ih hturn hr
    | full s' =>
      rw [heq] at hr hturn
      obtain rfl := Option.some.inj hr
      exact hturn

theorem rxChunk_keptOk (h : s.KeptOk) : (s.rxChunk fuel).KeptOk := by
  unfold rxChunk
  split
  · exact h
  cases hloop : rxLoop fuel s.pRxFifo.front s.pRxFifo.front.length s with
  | none => exact ⟨h.cnt_lt, h.type, h.short⟩
  | some r =>
    have hr := rxLoop_keptOk h hloop
    obtain ⟨done, s'⟩ := r
    cases done with
    | true => exact ⟨hr.cnt_lt, hr.type, hr.short⟩
    | false => exact hr

theorem flushHandler_keptOk (h : s.KeptOk) (now : ℕ) :
    { s with now := now }.flushHandler.KeptOk := by
  unfold flushHandler
  split
  · exact keptOk_of_cnt rfl
  · exact ⟨h.cnt_lt, h.type, h.short⟩

theorem step_keptOk (h : s.KeptOk) (i : H4Input) : (s.step fuel i).KeptOk := by
  unfold step
  split
  · exact h
  cases i with
  | uartRx chunk =>
    dsimp only
    unfold uartRxIRQHandler
    split
    · exact ⟨h.cnt_lt, h.type, h.short⟩
    split
    · exact ⟨h.cnt_lt, h.type, h.short⟩
    · exact ⟨h.cnt_lt, h.type, h.short⟩
  | rxHandler now => exact rxChunk_keptOk (flushHandler_keptOk h now)
  | consume =>
    dsimp only
    unfold consume
    split
    · exact h
    · exact ⟨h.cnt_lt, h.type, h.short⟩

/-- In every reachable state the backup buffer holds the beginning of a packet, if anything. -/
theorem keptOk_run {k : ℕ} {hk : k ≤ 7} (is : List H4Input) :
    (run (step fuel) (init k hk) is).KeptOk := by
  have hstep : ∀ (s : HciH4TrCb) (i : H4Input), s.KeptOk → True → (s.step fuel i).KeptOk :=
    fun _ i h _ => step_keptOk h i
  exact run_invariant hstep (keptOk_of_cnt rfl) (along_true _ is)

/-- The loop of `HCI_Tr_H4RxHandler`, called at the tick `now`, for the oldest chunk. -/
def rxStart (s : HciH4TrCb) (now : ℕ) : H4Loop :=
  ⟨{ s with now := now }.flushHandler, s.pRxFifo.front, s.pRxFifo.front.length⟩

/-- The bytes before that call: the oldest chunk, and in the backup buffer what is not flushed. -/
def walkStart (s : HciH4TrCb) (now : ℕ) : H4Walk where
  kept := if { s with now := now }.flushDue then [] else bytes s.pBackUpBuf s.backupCnt
  rest := s.pRxFifo.front
  num := s.pHciRxFifo.num
  used := s.pHciRxFifo.used

theorem walk_rxStart (s : HciH4TrCb) (now : ℕ) : (s.rxStart now).walk = s.walkStart now := by
  have hrest : s.pRxFifo.front.take s.pRxFifo.front.length = s.pRxFifo.front := List.take_length
  unfold rxStart H4Loop.walk walkStart walk flushHandler
  rw [hrest]
  split
  · rfl
  · rfl

/-- In every reachable state, and for every chunk that the UART can put into a slot, the parser
ends, stays inside the chunk, the backup buffer and the slots of the HCI RX FIFO and keeps `len`
from wrapping exactly if the walk through the bytes before it gets through. -/
theorem rxHandler_safe_iff (fuel k : ℕ) (hk : k ≤ 7) (is : List H4Input) (now : ℕ)
    (his : ∀ chunk, .uartRx chunk ∈ is → chunk.length ≤ hciH4TrRxBufSize - 4) :
    (rxStart (run (step fuel) (init k hk) is) now).Safe ↔
      (walkStart (run (step fuel) (init k hk) is) now).Through := by
  rw [← walk_rxStart]
  apply H4Loop.safe_iff_through
  have hsourced : Sourced (fun chunk => chunk.length ≤ hciH4TrRxBufSize - 4)
      (run (step fuel) (init k hk) is) := sourced_run his
  refine ⟨flushHandler_keptOk (keptOk_run is) now, Nat.le_refl _, ?_⟩
  obtain hnil | hlen := hsourced.slot ((run (step fuel) (init k hk) is).pRxFifo.slotIdx
    (run (step fuel) (init k hk) is).pRxFifo.rptr)
  · rw [rxStart, HciFifo.front, hnil]
    exact Nat.zero_le _
  · exact hlen

/-- A reset command cut behind three bytes, and a chunk with the last one, another reset and an
event. -/
def resetCut : List H4Input :=
  [.uartRx [1, 3, 12], .rxHandler 0, .uartRx [0, 1, 3, 12, 0, 4, 14, 0]]

theorem through_resetCut :
    (walkStart (run (step 5) (init 3 (by decide)) resetCut) 1).Through := by
  have hstart : walkStart (run (step 5) (init 3 (by decide)) resetCut) 1 =
      ⟨[1, 3, 12], [0, 1, 3, 12, 0, 4, 14, 0], 8, 0⟩ := by decide
  rw [hstart]
  -- The command in the backup buffer, the next one, the event.
  refine .turn (fun _ => by decide)
    (@AtPointer.whole _ 4 4 rfl (by decide) (by decide) (by decide) (by decide) (by decide)) ?_
  refine .turn (fun _ => by decide) (@AtPointer.skip _ 3 3 rfl (by decide) (by decide)) ?_
  exact .done rfl

theorem rxHandler_safe_resetCut :
    (rxStart (run (step 5) (init 3 (by decide)) resetCut) 1).Safe :=
  (rxHandler_safe_iff 5 3 (by decide) resetCut 1 fun chunk h => by
    simp only [resetCut, List.mem_cons, H4Input.uartRx.injEq, reduceCtorEq, List.not_mem_nil,
      or_false, false_or] at h
    obtain rfl | rfl := h
    · decide
    · decide).mpr through_resetCut

/-- An event packet that declares a byte more than the chunk has makes `len` wrap. -/
theorem not_rxHandler_safe_event :
    ¬ ∀ (fuel k : ℕ) (hk : k ≤ 7) (is : List H4Input) (now : ℕ),
      (∀ chunk, .uartRx chunk ∈ is → chunk.length ≤ hciH4TrRxBufSize - 4) →
        (rxStart (run (step fuel) (init k hk) is) now).Safe := by
  intro h
  have hsafe := h 5 3 (by decide) [.uartRx [4, 0, 1]] 0 fun chunk hmem => by
    rw [List.mem_singleton] at hmem
    cases hmem
    decide
  have hinside := hsafe.inside _ .refl (by decide)
  exact absurd hinside (by decide)

end HciH4TrCb
end TlBleSdk.Hci
