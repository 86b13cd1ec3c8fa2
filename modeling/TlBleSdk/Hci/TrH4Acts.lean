import TlBleSdk.Hci.TrH4Walk

/-!
# What the H4 parser touches

What `HCI_Tr_H4RxHandler` and `HCI_Tr_H4BackUpHandler` touch in a turn of their loop, written
beside each of their functions: how far behind the packet pointer they read, how far into the
backup buffer they go, how long the packets are that they copy to the HCI RX FIFO, and what
they subtract from `len`. The headers come from the host and nothing compares them with the
sizes of the buffers or, for the types that are skipped, with `len`; the lemmas say when a
turn stays inside.
-/

namespace TlBleSdk.Hci

/-- What the parser does that can go wrong: it reads `n` bytes at the packet pointer, behind
which the chunk has `rest`; it uses the first `n` bytes of the backup buffer; it copies a
packet of `n` bytes to a slot of the HCI RX FIFO; it subtracts `n` from `len`. -/
inductive H4Act where
  | read (rest n : ℕ)
  | backup (n : ℕ)
  | store (n : ℕ)
  | sub (len n : ℕ)

/-- The act stays inside the chunk, the backup buffer or the slot, and `len` does not wrap. -/
def H4Act.Inside : H4Act → Prop
  | .read rest n => n ≤ rest
  | .backup n => n ≤ hciH4TrRxBufSize
  | .store n => n ≤ hciRxFifoSize
  | .sub len n => n ≤ len

theorem H4Act.inside_read (rest n : ℕ) : (read rest n).Inside ↔ n ≤ rest := Iff.rfl

theorem H4Act.inside_backup (n : ℕ) : (backup n).Inside ↔ n ≤ hciH4TrRxBufSize := Iff.rfl

theorem H4Act.inside_store (n : ℕ) : (store n).Inside ↔ n ≤ hciRxFifoSize := Iff.rfl

theorem H4Act.inside_sub (len n : ℕ) : (sub len n).Inside ↔ n ≤ len := Iff.rfl

instance : DecidablePred H4Act.Inside
  | .read rest n => inferInstanceAs (Decidable (n ≤ rest))
  | .backup n => inferInstanceAs (Decidable (n ≤ hciH4TrRxBufSize))
  | .store n => inferInstanceAs (Decidable (n ≤ hciRxFifoSize))
  | .sub len n => inferInstanceAs (Decidable (n ≤ len))

namespace HciH4TrCb

/-! ## What a turn does -/

/-- The acts of `backUpBody`. -/
def backUpBodyActs (headLen paramLen : ℕ) (pPacket : List UInt8) (len : ℕ) (s : HciH4TrCb) :
    List H4Act :=
  let cpyLen := u16 (1 + headLen + paramLen + 65536 - s.backupCnt)
  let s' := s.appendBackup (pPacket.take (min cpyLen len))
  [.read pPacket.length (min cpyLen len), .backup (s.backupCnt + min cpyLen len)] ++
    if s'.backupCnt = 1 + headLen + paramLen then
      [.backup s'.backupCnt, .store s'.backupCnt]
    else []

/-- The acts of `backUpPacket`. -/
def backUpPacketActs (headLen : ℕ) (paramLenOf : (ℕ → UInt8) → ℕ) (pPacket : List UInt8)
    (len : ℕ) (s : HciH4TrCb) : List H4Act :=
  if 1 + headLen ≤ s.backupCnt then
    .backup (1 + headLen) :: s.backUpBodyActs headLen (paramLenOf s.pBackUpBuf) pPacket len
  else if 1 + headLen ≤ s.backupCnt + len then
    let cpyLen := 1 + headLen - s.backupCnt
    let s' := s.appendBackup (pPacket.take cpyLen)
    [.read pPacket.length cpyLen, .backup (1 + headLen), .sub len cpyLen] ++
      s'.backUpBodyActs headLen (paramLenOf s'.pBackUpBuf) (pPacket.drop cpyLen) (len - cpyLen)
  else [.read pPacket.length len, .backup (s.backupCnt + len)]

/-- The acts of `HCI_Tr_H4BackUpHandler`. -/
def backUpActs (pPacket : List UInt8) (len : ℕ) (s : HciH4TrCb) : List H4Act :=
  if s.backupCnt = 0 then [.read pPacket.length len, .backup len]
  else .backup 1 ::
    if s.pBackUpBuf 0 = trTypeCmd then s.backUpPacketActs cmdHeadLen cmdParamLen pPacket len
    else if s.pBackUpBuf 0 = trTypeAcl ∨ s.pBackUpBuf 0 = trTypeIso then
      s.backUpPacketActs aclHeadLen aclParamLen pPacket len
    else []

/-- The acts of `rxPacket`. -/
def rxPacketActs (pktLen : ℕ) (pPacket : List UInt8) (len : ℕ) (s : HciH4TrCb) : List H4Act :=
  if pktLen ≠ 0 ∧ pktLen ≤ len then
    if s.pHciRxFifo.num ≤ s.pHciRxFifo.used then []
    else [.read pPacket.length pktLen, .store pktLen, .sub len pktLen]
  else if pktLen ≠ 0 ∧ len < pktLen then s.backUpActs pPacket len
  else []

/-- The acts of `rxHeader`. -/
def rxHeaderActs (headLen paramLen : ℕ) (pPacket : List UInt8) (len : ℕ) (s : HciH4TrCb) :
    List H4Act :=
  if len < 1 + headLen then s.backUpActs pPacket len
  else .read pPacket.length (1 + headLen) ::
    s.rxPacketActs (u16 (1 + headLen + paramLen)) pPacket len

/-- The acts of `rxSkip`. -/
def rxSkipActs (headLen paramLen : ℕ) (pPacket : List UInt8) (len : ℕ) : List H4Act :=
  if len < 1 + headLen then []
  else [.read pPacket.length (1 + headLen), .sub len (u16 (1 + headLen + paramLen))]

/-- The acts of the `switch`. -/
def rxSwitchActs (pPacket : List UInt8) (len : ℕ) (s : HciH4TrCb) : List H4Act :=
  let hciType := mem pPacket 0
  .read pPacket.length 1 ::
    if hciType = trTypeCmd then
      s.rxHeaderActs cmdHeadLen (cmdParamLen (mem pPacket)) pPacket len
    else if hciType = trTypeAcl then
      s.rxHeaderActs aclHeadLen (aclParamLen (mem pPacket)) pPacket len
    else if hciType = trTypeIso then
      s.rxHeaderActs aclHeadLen (aclParamLen (mem pPacket) % 1024) pPacket len
    else if hciType = trTypeEvent then rxSkipActs evtHeadLen (mem pPacket 2).toNat pPacket len
    else if hciType = trTypeSco then rxSkipActs scoHeadLen (mem pPacket 3).toNat pPacket len
    else []

/-- The acts of one turn of the loop. -/
def rxTurnActs (pPacket : List UInt8) (len : ℕ) (s : HciH4TrCb) : List H4Act :=
  if s.backupCnt ≠ 0 then
    let r := s.backUpHandler pPacket len
    let res := u8 r.1
    s.backUpActs pPacket len ++ .sub len res ::
      if len - res = 0 then [] else r.2.rxSwitchActs (pPacket.drop res) (len - res)
  else s.rxSwitchActs pPacket len

/-! ## Lengths in the header -/

variable {s s' : HciH4TrCb} {pPacket : List UInt8} {len headLen : ℕ}
  {paramLenOf : (ℕ → UInt8) → ℕ} {type : UInt8}

/-- `paramLenOf` reads a 16-bit length in the header. -/
structure ReadsHeader (headLen : ℕ) (paramLenOf : (ℕ → UInt8) → ℕ) : Prop where
  congr : ∀ {p q : ℕ → UInt8}, (∀ i < 1 + headLen, p i = q i) → paramLenOf p = paramLenOf q
  lt : ∀ p, paramLenOf p < 65536

theorem readsHeader_cmd : ReadsHeader cmdHeadLen cmdParamLen where
  congr h := congrArg UInt8.toNat (h 3 (by decide))
  lt p := Nat.lt_of_lt_of_le (p 3).toNat_lt (by decide)

theorem readsHeader_acl : ReadsHeader aclHeadLen aclParamLen where
  congr h := bytesToUint16_congr (h 3 (by decide)) (h 4 (by decide))
  lt p := bytesToUint16_lt p 3

/-- The types that the backup handler completes. -/
def IsKept (type : UInt8) : Prop := type = trTypeCmd ∨ type = trTypeAcl ∨ type = trTypeIso

/-- What the backup handler does with a packet of this type. -/
structure KeptAs (type : UInt8) (headLen : ℕ) (paramLenOf : (ℕ → UInt8) → ℕ) : Prop where
  head_lt : headLen < 255
  reads : ReadsHeader headLen paramLenOf
  declared : ∀ p : ℕ → UInt8, p 0 = type → H4Walk.declared p = 1 + headLen + paramLenOf p
  handler : ∀ (s : HciH4TrCb) (pPacket : List UInt8) (len : ℕ), s.backupCnt ≠ 0 →
    s.pBackUpBuf 0 = type →
    s.backUpHandler pPacket len = s.backUpPacket headLen paramLenOf pPacket len
  acts : ∀ (s : HciH4TrCb) (pPacket : List UInt8) (len : ℕ), s.backupCnt ≠ 0 →
    s.pBackUpBuf 0 = type →
    s.backUpActs pPacket len = .backup 1 :: s.backUpPacketActs headLen paramLenOf pPacket len

theorem exists_keptAs (h : IsKept type) : ∃ headLen paramLenOf, KeptAs type headLen paramLenOf := by
  by_cases hcmd : type = trTypeCmd
  · refine ⟨cmdHeadLen, cmdParamLen, by decide, readsHeader_cmd, fun p hp => ?_,
      fun s pPacket len h0 hs => ?_, fun s pPacket len h0 hs => ?_⟩
    · rw [H4Walk.declared, hp, if_pos hcmd]
    · rw [backUpHandler, if_neg h0]
      dsimp only
      rw [hs, if_pos hcmd]
    · rw [backUpActs, if_neg h0, hs, if_pos hcmd]
  · have hacl := h.resolve_left hcmd
    refine ⟨aclHeadLen, aclParamLen, by decide, readsHeader_acl, fun p hp => ?_,
      fun s pPacket len h0 hs => ?_, fun s pPacket len h0 hs => ?_⟩
    · rw [H4Walk.declared, hp, if_neg hcmd]
    · rw [backUpHandler, if_neg h0]
      dsimp only
      rw [hs, if_neg hcmd, if_pos hacl]
    · rw [backUpActs, if_neg h0, hs, if_neg hcmd, if_pos hacl]

/-! ## What the backup buffer holds -/

/-- The backup buffer holds the beginning of a packet that it can complete, if anything. -/
structure KeptOk (s : HciH4TrCb) : Prop where
  cnt_lt : s.backupCnt < 256
  type : s.backupCnt ≠ 0 → IsKept (s.pBackUpBuf 0)
  short : s.backupCnt ≠ 0 → s.backupCnt < H4Walk.declared s.pBackUpBuf

theorem keptOk_of_cnt (h : s.backupCnt = 0) : s.KeptOk :=
  ⟨by rw [h]; decide, fun h0 => absurd h h0, fun h0 => absurd h h0⟩

/-- What a call of the handler leaves of a packet: the first bytes stay, and there are still
fewer than the header declares. -/
structure Shorter (headLen : ℕ) (paramLenOf : (ℕ → UInt8) → ℕ) (s s' : HciH4TrCb) : Prop where
  cnt_lt : s'.backupCnt < 256
  buf : ∀ i < s.backupCnt, s'.pBackUpBuf i = s.pBackUpBuf i
  short : s'.backupCnt = 0 ∨ s'.backupCnt < 1 + headLen + paramLenOf s'.pBackUpBuf

theorem appendBackup_buf (l : List UInt8) : ∀ i < s.backupCnt,
    (s.appendBackup l).pBackUpBuf i = s.pBackUpBuf i :=
  fun _ hi => memcpy_of_lt _ l hi

theorem appendBackup_nil (hcnt : s.backupCnt < 256) : s.appendBackup [] = s := by
  have hbuf : memcpy s.pBackUpBuf s.backupCnt [] = s.pBackUpBuf := by
    funext i
    exact if_neg fun h => Nat.not_lt.mpr h.1 h.2
  rw [appendBackup, hbuf, List.length_nil, Nat.add_zero, u8_of_lt hcnt]

/-- The body goes on behind the header, or there is nothing to go on with. -/
theorem backUpBody_shorter (hparam : ReadsHeader headLen paramLenOf) (hcnt : s.backupCnt < 256)
    (hshort : s.backupCnt ≤ 1 + headLen + paramLenOf s.pBackUpBuf)
    (hhead : 1 + headLen ≤ s.backupCnt ∨ pPacket = []) :
    Shorter headLen paramLenOf s
      (s.backUpBody headLen (paramLenOf s.pBackUpBuf) pPacket len).2 := by
  have hbuf := fun l => s.appendBackup_buf l
  unfold backUpBody
  dsimp only
  generalize hl : pPacket.take _ = l
  have hle : l.length ≤ 1 + headLen + paramLenOf s.pBackUpBuf - s.backupCnt := by
    rw [← hl, List.length_take]
    unfold u16
    omega
  have hparam' : paramLenOf (s.appendBackup l).pBackUpBuf = paramLenOf s.pBackUpBuf := by
    obtain hhead | rfl := hhead
    · exact hparam.congr fun i hi => hbuf l i (by omega)
    · rw [List.take_nil] at hl
      rw [← hl, appendBackup_nil hcnt]
  split
  · exact ⟨Nat.zero_lt_succ _, hbuf l, .inl rfl⟩
  next hpart =>
    refine ⟨u8_lt _, hbuf l, .inr ?_⟩
    have hcnt' : (s.appendBackup l).backupCnt ≤ s.backupCnt + l.length := Nat.mod_le _ _
    show (s.appendBackup l).backupCnt < 1 + headLen + paramLenOf (s.appendBackup l).pBackUpBuf
    rw [hparam']
    omega

theorem backUpPacket_shorter (hparam : ReadsHeader headLen paramLenOf) (hhead : headLen < 255)
    (hcnt : s.backupCnt < 256) (hshort : s.backupCnt < 1 + headLen + paramLenOf s.pBackUpBuf) :
    Shorter headLen paramLenOf s (s.backUpPacket headLen paramLenOf pPacket len).2 := by
  unfold backUpPacket
  split
  next hwhole => exact backUpBody_shorter hparam hcnt (Nat.le_of_lt hshort) (.inl hwhole)
  split
  next hpart hhere =>
    -- The header comes first. If the chunk does not have it, it has nothing behind it.
    dsimp only
    generalize hl : pPacket.take (1 + headLen - s.backupCnt) = l
    have hlen : l.length = min (1 + headLen - s.backupCnt) pPacket.length := by
      rw [← hl, List.length_take]
    have hcnt' : (s.appendBackup l).backupCnt = s.backupCnt + l.length := u8_of_lt (by omega)
    have hbody : Shorter headLen paramLenOf (s.appendBackup l)
        ((s.appendBackup l).backUpBody headLen (paramLenOf (s.appendBackup l).pBackUpBuf)
          (pPacket.drop (1 + headLen - s.backupCnt))
          (len - (1 + headLen - s.backupCnt))).2 := by
      refine backUpBody_shorter hparam (by omega) (by omega) ?_
      by_cases hall : 1 + headLen - s.backupCnt ≤ pPacket.length
      · exact .inl (by omega)
      · exact .inr (List.drop_eq_nil_of_le (Nat.le_of_not_le hall))
    refine ⟨hbody.cnt_lt, fun i hi => ?_, hbody.short⟩
    rw [hbody.buf i (by omega), appendBackup_buf l i hi]
  next hpart hhere =>
    have hle : (pPacket.take len).length ≤ len := List.length_take_le _ _
    have hcnt' : u8 (s.backupCnt + (pPacket.take len).length) ≤ s.backupCnt +
        (pPacket.take len).length := Nat.mod_le _ _
    refine ⟨u8_lt _, fun i hi => memcpy_of_lt _ _ hi, .inr ?_⟩
    show u8 (s.backupCnt + (pPacket.take len).length) < _
    omega

/-- A packet in the backup buffer is continued. -/
theorem KeptOk.backUpHandler (h : s.KeptOk) (h0 : s.backupCnt ≠ 0) :
    (s.backUpHandler pPacket len).2.KeptOk := by
  obtain ⟨headLen, paramLenOf, has⟩ := exists_keptAs (h.type h0)
  have hshort : Shorter headLen paramLenOf s (s.backUpHandler pPacket len).2 := by
    rw [has.handler s pPacket len h0 rfl]
    refine backUpPacket_shorter has.reads has.head_lt h.cnt_lt ?_
    rw [← has.declared _ rfl]
    exact h.short h0
  have htype := hshort.buf 0 (Nat.pos_of_ne_zero h0)
  refine ⟨hshort.cnt_lt, fun _ => htype ▸ h.type h0, fun h0' => ?_⟩
  rw [has.declared _ htype]
  exact hshort.short.resolve_left h0'

/-- The beginning of a packet that the chunk ends in goes to the backup buffer. -/
theorem KeptOk.backUpNew (h : s.KeptOk) (htype : IsKept (mem pPacket 0))
    (hlen : len < H4Walk.declared (mem pPacket)) : (s.backUpHandler pPacket len).2.KeptOk := by
  by_cases h0 : s.backupCnt = 0
  · obtain ⟨headLen, paramLenOf, has⟩ := exists_keptAs htype
    have hle := List.length_take_le len pPacket
    have hbuf : ∀ i < (pPacket.take len).length,
        memcpy s.pBackUpBuf s.backupCnt (pPacket.take len) i = mem pPacket i := by
      intro i hi
      have hi' : i < len := Nat.lt_of_lt_of_le hi hle
      rw [memcpy, h0, if_pos ⟨Nat.zero_le _, by omega⟩, Nat.sub_zero, mem]
      simp only [List.getD_eq_getElem?_getD, List.getElem?_take_of_lt hi']
    have hcnt : u8 (s.backupCnt + (pPacket.take len).length) ≤ (pPacket.take len).length := by
      rw [h0, Nat.zero_add]
      exact Nat.mod_le _ _
    rw [HciH4TrCb.backUpHandler, if_pos h0]
    rw [has.declared _ rfl] at hlen
    refine ⟨u8_lt _, fun hne => ?_, fun hne => ?_⟩
    · have hpos : u8 (s.backupCnt + (pPacket.take len).length) ≠ 0 := hne
      show IsKept (memcpy s.pBackUpBuf s.backupCnt (pPacket.take len) 0)
      rw [hbuf 0 (by omega)]
      exact htype
    · have hpos : u8 (s.backupCnt + (pPacket.take len).length) ≠ 0 := hne
      show u8 (s.backupCnt + (pPacket.take len).length) <
        H4Walk.declared (memcpy s.pBackUpBuf s.backupCnt (pPacket.take len))
      rw [has.declared _ (hbuf 0 (by omega))]
      by_cases hhead : 1 + headLen ≤ (pPacket.take len).length
      · rw [has.reads.congr fun i hi => hbuf i (by omega)]
        omega
      · omega
  · exact h.backUpHandler h0

/-! ## What the handler does with a chunk -/

/-- The packet in the buffer with what the chunk has of it, by the header that is there. -/
def heldOf (headLen : ℕ) (paramLenOf : (ℕ → UInt8) → ℕ) (pPacket : List UInt8) (len : ℕ)
    (s : HciH4TrCb) : ℕ :=
  min (1 + headLen + paramLenOf (mem (bytes s.pBackUpBuf s.backupCnt ++ pPacket.take len)))
    (s.backupCnt + len)

theorem mem_bytes_append (p : ℕ → UInt8) {n i : ℕ} {l : List UInt8} (hi : i < n + l.length) :
    mem (bytes p n ++ l) i = memcpy p n l i := by
  unfold mem memcpy
  by_cases hn : n ≤ i
  · rw [if_pos ⟨hn, hi⟩, List.getD_append_right _ _ _ _ (by rwa [length_bytes]), length_bytes]
  · rw [if_neg fun h => hn h.1, List.getD_append _ _ _ _ (by rw [length_bytes]; omega),
      getD_bytes p (Nat.not_le.mp hn)]

theorem mem_take {n i : ℕ} (l : List UInt8) (hi : i < n) : mem (l.take n) i = mem l i := by
  unfold mem
  simp only [List.getD_eq_getElem?_getD, List.getElem?_take_of_lt hi]

theorem memcpy_take (p : ℕ → UInt8) {a k i : ℕ} {l : List UInt8} (hk : k ≤ l.length)
    (hi : i < a + k) : memcpy p a (l.take k) i = memcpy p a l i := by
  unfold memcpy
  rw [List.length_take, Nat.min_eq_left hk]
  by_cases ha : a ≤ i
  · rw [if_pos ⟨ha, hi⟩, if_pos ⟨ha, by omega⟩]
    simp only [List.getD_eq_getElem?_getD, List.getElem?_take_of_lt (show i - a < k by omega)]
  · rw [if_neg fun h => ha h.1, if_neg fun h => ha h.1]

/-- A header that is in the backup buffer. -/
theorem paramLenOf_kept (hparam : ReadsHeader headLen paramLenOf) (l : List UInt8)
    (hwhole : 1 + headLen ≤ s.backupCnt) :
    paramLenOf (mem (bytes s.pBackUpBuf s.backupCnt ++ l)) = paramLenOf s.pBackUpBuf :=
  hparam.congr fun i hi => by
    rw [mem_bytes_append _ (by omega), memcpy_of_lt _ _ (by omega)]

/-- A header that the chunk completes. -/
theorem paramLenOf_appendBackup (hparam : ReadsHeader headLen paramLenOf)
    (hlen : len ≤ pPacket.length) {k : ℕ} (hk : 1 + headLen = s.backupCnt + k) (hle : k ≤ len) :
    paramLenOf (s.appendBackup (pPacket.take k)).pBackUpBuf =
      paramLenOf (mem (bytes s.pBackUpBuf s.backupCnt ++ pPacket.take len)) :=
  hparam.congr fun i hi => by
    show memcpy s.pBackUpBuf s.backupCnt (pPacket.take k) i = _
    rw [mem_bytes_append _ (by rw [List.length_take_of_le hlen]; omega),
      memcpy_take _ (by omega) (by omega), memcpy_take _ hlen (by omega)]

/-- The packet in the backup buffer is put if it is there whole. -/
def endPacket (pktLen : ℕ) (s : HciH4TrCb) : HciH4TrCb :=
  if s.backupCnt = pktLen then
    timerDisable { s.putPacket (bytes s.pBackUpBuf s.backupCnt) with backupCnt := 0 }
  else s.timerEnable

theorem backUpBody_eq (headLen paramLen : ℕ) (pPacket : List UInt8) (len : ℕ) (s : HciH4TrCb) :
    s.backUpBody headLen paramLen pPacket len =
      (min (u16 (1 + headLen + paramLen + 65536 - s.backupCnt)) len,
        (s.appendBackup (pPacket.take (min (u16 (1 + headLen + paramLen + 65536 -
          s.backupCnt)) len))).endPacket (1 + headLen + paramLen)) := rfl

/-- What is missing behind the header is less than 16 bits count. -/
theorem u16_missing {d c : ℕ} (hle : c ≤ d) (hlt : d < c + 65536) :
    u16 (d + 65536 - c) = d - c := by
  unfold u16
  omega

theorem appendBackup_appendBackup (l l' : List UInt8) (h : s.backupCnt + l.length < 256) :
    (s.appendBackup l).appendBackup l' = s.appendBackup (l ++ l') := by
  simp only [appendBackup, u8_of_lt h, memcpy_memcpy, List.length_append, Nat.add_assoc]

/-- With a chunk that is there, the handler copies what there is of the packet. -/
theorem backUpPacket_eq (hparam : ReadsHeader headLen paramLenOf) (hhead : headLen < 255)
    (hcnt : s.backupCnt < 256) (hshort : s.backupCnt < 1 + headLen + paramLenOf s.pBackUpBuf)
    (hlen : len ≤ pPacket.length) (hlt : len < 65536) :
    s.backUpPacket headLen paramLenOf pPacket len =
      (s.heldOf headLen paramLenOf pPacket len - s.backupCnt,
        (s.appendBackup (pPacket.take (s.heldOf headLen paramLenOf pPacket len -
          s.backupCnt))).endPacket (1 + headLen +
            paramLenOf (mem (bytes s.pBackUpBuf s.backupCnt ++ pPacket.take len)))) := by
  have hdeclared := hparam.lt (mem (bytes s.pBackUpBuf s.backupCnt ++ pPacket.take len))
  unfold heldOf backUpPacket
  by_cases hwhole : 1 + headLen ≤ s.backupCnt
  · rw [← paramLenOf_kept hparam (pPacket.take len) hwhole] at hshort ⊢
    rw [if_pos hwhole]
    generalize paramLenOf (mem _) = n at hshort hdeclared ⊢
    have hcpy : min (1 + headLen + n - s.backupCnt) len =
        min (1 + headLen + n) (s.backupCnt + len) - s.backupCnt := by omega
    rw [backUpBody_eq, u16_missing (Nat.le_of_lt hshort) (by omega), hcpy]
  rw [if_neg hwhole]
  by_cases hhere : 1 + headLen ≤ s.backupCnt + len
  · rw [if_pos hhere]
    dsimp only
    generalize hk : 1 + headLen - s.backupCnt = k
    have hl : (pPacket.take k).length = k := List.length_take_of_le (by omega)
    have hcnt' : (s.appendBackup (pPacket.take k)).backupCnt = 1 + headLen := by
      show u8 (s.backupCnt + (pPacket.take k).length) = _
      rw [hl, u8_of_lt (by omega)]
      omega
    rw [paramLenOf_appendBackup hparam hlen (by omega) (by omega)]
    generalize paramLenOf (mem _) = n at hdeclared ⊢
    have hheld : min (1 + headLen + n) (s.backupCnt + len) - s.backupCnt =
        k + min n (len - k) := by omega
    rw [backUpBody_eq, hcnt', u16_missing (Nat.le_add_right _ _) (by omega),
      Nat.add_sub_cancel_left, hheld, u16_of_lt (by omega), List.take_add,
      ← appendBackup_appendBackup _ _ (by omega)]
  · rw [if_neg hhere]
    have hheld : min (1 + headLen +
        paramLenOf (mem (bytes s.pBackUpBuf s.backupCnt ++ pPacket.take len)))
        (s.backupCnt + len) - s.backupCnt = len := by omega
    have hpart : (s.appendBackup (pPacket.take len)).backupCnt ≠ 1 + headLen +
        paramLenOf (mem (bytes s.pBackUpBuf s.backupCnt ++ pPacket.take len)) := by
      show u8 (s.backupCnt + (pPacket.take len).length) ≠ _
      rw [List.length_take_of_le hlen, u8_of_lt (by omega)]
      omega
    rw [hheld, endPacket, if_neg hpart]

/-! ## When the handler stays inside -/

/-- The bytes behind the header end in the buffer. -/
theorem backUpBodyActs_inside {paramLen : ℕ} (hlen : len ≤ pPacket.length) :
    (∀ a ∈ s.backUpBodyActs headLen paramLen pPacket len, a.Inside) ↔
      s.backupCnt + min (u16 (1 + headLen + paramLen + 65536 - s.backupCnt)) len ≤
        hciH4TrRxBufSize := by
  have hread : min (u16 (1 + headLen + paramLen + 65536 - s.backupCnt)) len ≤ pPacket.length :=
    Nat.le_trans (Nat.min_le_right _ _) hlen
  -- What is put is shorter than 256 bytes.
  have hput : ∀ n, H4Act.Inside (.backup (u8 n)) ∧ H4Act.Inside (.store (u8 n)) := fun n =>
    ⟨Nat.le_trans (Nat.le_of_lt (u8_lt n)) (by decide),
      Nat.le_trans (Nat.le_of_lt (u8_lt n)) (by decide)⟩
  unfold backUpBodyActs
  dsimp only
  split
  · simp only [List.cons_append, List.nil_append, List.forall_mem_cons, List.not_mem_nil,
      false_implies, implies_true, and_true]
    exact ⟨fun h => h.2.1, fun h => ⟨hread, h, hput _⟩⟩
  · simp only [List.append_nil, List.forall_mem_cons, List.not_mem_nil, false_implies,
      implies_true, and_true]
    exact ⟨fun h => h.2, fun h => ⟨hread, h⟩⟩

theorem backUpPacketActs_inside (hparam : ReadsHeader headLen paramLenOf) (hhead : headLen < 255)
    (hcnt : s.backupCnt < 256) (hshort : s.backupCnt < 1 + headLen + paramLenOf s.pBackUpBuf)
    (hlen : len ≤ pPacket.length) (hlt : len ≤ hciH4TrRxBufSize - 4) :
    (∀ a ∈ s.backUpPacketActs headLen paramLenOf pPacket len, a.Inside) ↔
      s.heldOf headLen paramLenOf pPacket len ≤ hciH4TrRxBufSize := by
  have hsize : hciH4TrRxBufSize = 608 := rfl
  have hchunk : len ≤ 604 := hlt
  have hdeclared := hparam.lt (mem (bytes s.pBackUpBuf s.backupCnt ++ pPacket.take len))
  unfold heldOf backUpPacketActs
  by_cases hwhole : 1 + headLen ≤ s.backupCnt
  · rw [← paramLenOf_kept hparam (pPacket.take len) hwhole] at hshort ⊢
    have hhead' : H4Act.Inside (.backup (1 + headLen)) := show 1 + headLen ≤ _ by omega
    rw [if_pos hwhole, List.forall_mem_cons, and_iff_right hhead', backUpBodyActs_inside hlen,
      u16_missing (Nat.le_of_lt hshort) (by omega)]
    omega
  rw [if_neg hwhole]
  by_cases hhere : 1 + headLen ≤ s.backupCnt + len
  · rw [if_pos hhere]
    dsimp only
    generalize hk : 1 + headLen - s.backupCnt = k
    have hl : (pPacket.take k).length = k := List.length_take_of_le (by omega)
    have hcnt' : (s.appendBackup (pPacket.take k)).backupCnt = 1 + headLen := by
      show u8 (s.backupCnt + (pPacket.take k).length) = _
      rw [hl, u8_of_lt (by omega)]
      omega
    have hlen' : len - k ≤ (pPacket.drop k).length := by
      rw [List.length_drop]
      omega
    rw [paramLenOf_appendBackup hparam hlen (by omega) (by omega)]
    simp only [List.cons_append, List.nil_append, List.forall_mem_cons,
      backUpBodyActs_inside hlen', hcnt', H4Act.inside_read, H4Act.inside_backup,
      H4Act.inside_sub]
    rw [u16_missing (Nat.le_add_right _ _) (by omega), Nat.add_sub_cancel_left]
    omega
  · rw [if_neg hhere]
    simp only [List.forall_mem_cons, List.not_mem_nil, false_implies, implies_true, and_true,
      H4Act.inside_read, H4Act.inside_backup]
    omega

theorem backUpBody_le (headLen paramLen : ℕ) (pPacket : List UInt8) (len : ℕ) (s : HciH4TrCb) :
    (s.backUpBody headLen paramLen pPacket len).1 ≤ len := Nat.min_le_right _ _

theorem backUpPacket_le (headLen : ℕ) (paramLenOf : (ℕ → UInt8) → ℕ) (pPacket : List UInt8)
    (len : ℕ) (s : HciH4TrCb) : (s.backUpPacket headLen paramLenOf pPacket len).1 ≤ len := by
  unfold backUpPacket
  split
  · exact backUpBody_le _ _ _ _ _
  split
  · have hbody := backUpBody_le headLen
      (paramLenOf (s.appendBackup (pPacket.take (1 + headLen - s.backupCnt))).pBackUpBuf)
      (pPacket.drop (1 + headLen - s.backupCnt)) (len - (1 + headLen - s.backupCnt))
      (s.appendBackup (pPacket.take (1 + headLen - s.backupCnt)))
    refine Nat.le_trans (Nat.mod_le _ _) ?_
    omega
  · exact Nat.le_refl len

/-- The backup handler takes no more than there is. -/
theorem backUpHandler_le (pPacket : List UInt8) (len : ℕ) (s : HciH4TrCb) :
    (s.backUpHandler pPacket len).1 ≤ len := by
  unfold backUpHandler
  split
  · exact Nat.le_refl len
  dsimp only
  split
  · exact backUpPacket_le _ _ _ _ _
  split
  · exact backUpPacket_le _ _ _ _ _
  · exact Nat.le_refl len

end HciH4TrCb
end TlBleSdk.Hci
