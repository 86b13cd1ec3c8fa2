import TlBleSdk.Hci.TrH4
import TlBleSdk.Lib.Framing

/-!
# H4 packets and the two receive paths

The packets a host sends, as `HCI_Tr_H4RxHandler` is meant to take them, and one lemma for
each way the code meets one: whole in a chunk, begun at the end of a chunk, continued, and
completed. `Took` is what all of them conclude: which packets have gone to the HCI RX FIFO
and which bytes the backup buffer holds afterwards.
-/

namespace TlBleSdk.Hci

/-! ## Packets -/

inductive H4Type where
  | cmd
  | acl
  | iso
deriving DecidableEq, Repr

namespace H4Type

/-- The packet indicator. -/
def code : H4Type → UInt8
  | cmd => trTypeCmd
  | acl => trTypeAcl
  | iso => trTypeIso

/-- The length of the header behind the packet indicator. -/
def headLen : H4Type → ℕ
  | cmd => cmdHeadLen
  | acl => aclHeadLen
  | iso => aclHeadLen

/-- What the length field can express. -/
def maxBody : H4Type → ℕ
  | cmd => 0xFF
  | acl => 0xFFFF
  | iso => 0x3FFF

/-- The length field. -/
def lenField : H4Type → ℕ → List UInt8
  | cmd, n => [UInt8.ofNat n]
  | acl, n => uint16ToBstream n
  | iso, n => uint16ToBstream n

/-- How the backup handler reads the length field. -/
def paramLen : H4Type → (ℕ → UInt8) → ℕ
  | cmd => cmdParamLen
  | acl => aclParamLen
  | iso => aclParamLen

end H4Type

/-- A well-formed packet that fits a slot of the HCI RX FIFO. The two bytes behind the
packet indicator are the opcode of a command or the handle and flags of a data packet. -/
structure H4Packet where
  type : H4Type
  lo : UInt8
  hi : UInt8
  body : List UInt8
  body_le : body.length ≤ type.maxBody
  fits : 1 + type.headLen + body.length ≤ hciRxFifoSize

namespace H4Packet

/-- The bytes of the packet. -/
def encode (p : H4Packet) : List UInt8 :=
  [p.type.code, p.lo, p.hi] ++ p.type.lenField p.body.length ++ p.body

theorem length_encode (p : H4Packet) :
    p.encode.length = 1 + p.type.headLen + p.body.length := by
  cases h : p.type <;>
    simp [encode, h, H4Type.lenField, H4Type.headLen, cmdHeadLen, aclHeadLen,
      uint16ToBstream] <;> omega

theorem body_lt (p : H4Packet) : p.body.length < 256 := by
  have hle := p.body_le
  have hfits := p.fits
  cases h : p.type <;> rw [h] at hle hfits <;>
    simp only [H4Type.maxBody, H4Type.headLen, cmdHeadLen, aclHeadLen, hciRxFifoSize]
      at hle hfits <;>
    omega

theorem encode_ne_nil (p : H4Packet) : p.encode ≠ [] := nofun

/-- A memory that holds the header holds the packet indicator. -/
theorem code_of_agrees {p : H4Packet} {m : ℕ → UInt8}
    (hm : ∀ i < 1, m i = p.encode.getD i 0) : m 0 = p.type.code := by
  rw [hm 0 (by decide)]
  rfl

/-- A memory that holds the header holds the length field. -/
theorem paramLen_of_agrees {p : H4Packet} {m : ℕ → UInt8}
    (hm : ∀ i < 1 + p.type.headLen, m i = p.encode.getD i 0) :
    p.type.paramLen m = p.body.length := by
  have hlt := p.body_lt
  cases h : p.type <;> rw [h] at hm
  case cmd =>
    show (m 3).toNat = _
    rw [hm 3 (by decide), encode, h]
    show (UInt8.ofNat p.body.length).toNat = _
    rw [UInt8.toNat_ofNat']
    omega
  all_goals
    show (m 3).toNat + (m 4).toNat * 256 = _
    rw [hm 3 (by decide), hm 4 (by decide), encode, h]
    show (UInt8.ofNat p.body.length).toNat + (UInt8.ofNat (p.body.length / 256)).toNat * 256 = _
    rw [UInt8.toNat_ofNat', UInt8.toNat_ofNat']
    omega

end H4Packet

namespace HciH4TrCb

/-! ## What a part of the handler has done -/

/-- The part of the state that the receive paths do not touch, without the tick. -/
structure Side where
  pRxFifo : HciFifo
  rcvd : List (List UInt8)
  taken : List (List UInt8)
  hung : Bool

/-- What the receive paths do not touch. -/
def side (s : HciH4TrCb) : Side := ⟨s.pRxFifo, s.rcvd, s.taken, s.hung⟩

/-- The backup buffer holds `b`. -/
structure Backs (s : HciH4TrCb) (b : List UInt8) : Prop where
  cnt : s.backupCnt = b.length
  buf : bytes s.pBackUpBuf b.length = b
  lt : b.length < 256

/-- From `s` to `s'` the packets `out` have gone to the HCI RX FIFO, and the backup buffer
has come to hold `b`. -/
structure Took (s s' : HciH4TrCb) (out : List (List UInt8)) (b : List UInt8) : Prop where
  fifo : s'.pHciRxFifo = out.foldl HciFifo.push s.pHciRxFifo
  put : s'.put = s.put ++ out
  backs : s'.Backs b
  side : s'.side = s.side

variable {s s' s₁ s₂ : HciH4TrCb} {b l : List UInt8} {out out₁ out₂ : List (List UInt8)}

theorem Took.trans (h₁ : Took s s₁ out₁ b) (h₂ : Took s₁ s₂ out₂ l) :
    Took s s₂ (out₁ ++ out₂) l where
  fifo := by rw [h₂.fifo, h₁.fifo, List.foldl_append]
  put := by rw [h₂.put, h₁.put, List.append_assoc]
  backs := h₂.backs
  side := h₂.side.trans h₁.side

theorem Backs.getD (h : s.Backs b) {i : ℕ} (hi : i < b.length) : s.pBackUpBuf i = b.getD i 0 := by
  rw [← getD_bytes s.pBackUpBuf hi 0, h.buf]

/-- The header of a packet that is in the backup buffer. -/
theorem Backs.agrees (h : s.Backs b) {p : H4Packet} {q : List UInt8} (hp : p.encode = b ++ q)
    {n : ℕ} (hn : n ≤ b.length) : ∀ i < n, s.pBackUpBuf i = p.encode.getD i 0 := by
  intro i hi
  rw [h.getD (by omega), hp, List.getD_append _ _ _ _ (by omega)]

theorem Backs.append (h : s.Backs b) (hlt : b.length + l.length < 256) :
    (s.appendBackup l).Backs (b ++ l) where
  cnt := by
    rw [List.length_append]
    show u8 (s.backupCnt + l.length) = _
    rw [h.cnt, u8_of_lt hlt]
  buf := by
    rw [List.length_append]
    show bytes (memcpy s.pBackUpBuf s.backupCnt l) _ = _
    rw [h.cnt, bytes_memcpy, h.buf]
  lt := by rwa [List.length_append]

/-! ## The backup path -/

/-- `l` goes on with the bytes `q` that are missing of a packet, of which `b` is in the
backup buffer: all of them are there, or not yet. The buffer stays below 256 bytes. -/
structure GoesOn (b q l : List UInt8) : Prop where
  agree : q <+: l ∨ (l <+: q ∧ l.length < q.length)
  lt : b.length + min q.length l.length < 256

/-- What the backup path is to do with `l`: complete the packet `p` and use up `q`, or keep
`l`. The result is the number of bytes it has used. -/
def Fills (s : HciH4TrCb) (p : H4Packet) (b q l : List UInt8) (r : ℕ × HciH4TrCb) : Prop :=
  (q <+: l ∧ r.1 = q.length ∧ Took s r.2 [p.encode] []) ∨
    (l <+: q ∧ l.length < q.length ∧ r.1 = l.length ∧ Took s r.2 [] (b ++ l))

variable {p : H4Packet} {q : List UInt8}

theorem took_appendBackup (h : s.Backs b) (hlt : b.length + l.length < 256) :
    Took s (s.appendBackup l) [] (b ++ l) :=
  ⟨rfl, (List.append_nil _).symm, h.append hlt, rfl⟩

theorem took_timerEnable (h : Took s s' out b) : Took s s'.timerEnable out b :=
  ⟨h.fifo, h.put, ⟨h.backs.cnt, h.backs.buf, h.backs.lt⟩, h.side⟩

/-- The buffer holds the whole packet: it is put. -/
theorem took_putBackup (h : s.Backs l) :
    Took s (timerDisable { s.putPacket (bytes s.pBackUpBuf s.backupCnt) with backupCnt := 0 })
      [l] [] := by
  rw [h.cnt, h.buf]
  exact ⟨rfl, rfl, ⟨rfl, rfl, by decide⟩, rfl⟩

theorem backUpBody_fills (h : s.Backs b) (hp : p.encode = b ++ q) (hl : GoesOn b q l) :
    Fills s p b q l (s.backUpBody p.type.headLen p.body.length l l.length) := by
  have hlen := congrArg List.length hp
  rw [List.length_append, p.length_encode] at hlen
  have hfits := p.fits
  rw [hciRxFifoSize] at hfits
  have hcpy : min (u16 (1 + p.type.headLen + p.body.length + 65536 - s.backupCnt)) l.length =
      min q.length l.length := by
    rw [h.cnt, u16]
    omega
  have hlt := hl.lt
  unfold backUpBody
  simp only [hcpy]
  rcases hl.agree with ⟨rest, rfl⟩ | ⟨hpre, hshort⟩
  · rw [List.length_append, Nat.min_eq_left (by omega)] at hlt ⊢
    have hback := h.append hlt
    have htook := took_appendBackup h hlt
    rw [List.take_left, if_pos (by rw [hback.cnt, List.length_append, hlen])]
    rw [← hp] at hback htook
    exact Or.inl ⟨List.prefix_append _ _, rfl, htook.trans (took_putBackup hback)⟩
  · rw [Nat.min_eq_right (by omega)] at hlt ⊢
    have hback := h.append hlt
    rw [List.take_length, if_neg (by rw [hback.cnt, List.length_append]; omega)]
    exact Or.inr ⟨hpre, hshort, rfl, took_timerEnable (took_appendBackup h hlt)⟩

/-- The first `n` bytes are the same in `q` and `l`, and behind them `l` goes on. -/
theorem GoesOn.split (h : GoesOn b q l) {n : ℕ} (hq : n ≤ q.length) (hl : n ≤ l.length) :
    ∃ q₁ q₂ l₂, q = q₁ ++ q₂ ∧ l = q₁ ++ l₂ ∧ q₁.length = n ∧ GoesOn (b ++ q₁) q₂ l₂ := by
  have hlt := h.lt
  rcases h.agree with ⟨rest, rfl⟩ | ⟨⟨rest, rfl⟩, hshort⟩
  · refine ⟨q.take n, q.drop n, q.drop n ++ rest, (List.take_append_drop n q).symm, ?_, ?_,
      Or.inl (List.prefix_append _ _), ?_⟩
    · rw [← List.append_assoc, List.take_append_drop]
    · rw [List.length_take, Nat.min_eq_left hq]
    · simp only [List.length_append, List.length_take, List.length_drop] at hlt ⊢
      omega
  · refine ⟨l.take n, l.drop n ++ rest, l.drop n, ?_, (List.take_append_drop n l).symm, ?_,
      Or.inr ⟨List.prefix_append _ _, ?_⟩, ?_⟩
    · rw [← List.append_assoc, List.take_append_drop]
    · rw [List.length_take, Nat.min_eq_left hl]
    · simp only [List.length_append, List.length_drop] at hshort ⊢
      omega
    · simp only [List.length_append, List.length_take, List.length_drop] at hlt ⊢
      omega

/-- The bytes `q₁` have been kept before. -/
theorem Fills.append {q₁ q₂ l₂ : List UInt8} {r : ℕ × HciH4TrCb}
    (htook : Took s s₁ [] (b ++ q₁)) (h : Fills s₁ p (b ++ q₁) q₂ l₂ r) :
    Fills s p b (q₁ ++ q₂) (q₁ ++ l₂) (q₁.length + r.1, r.2) := by
  rcases h with ⟨hpre, hres, htook₂⟩ | ⟨hpre, hshort, hres, htook₂⟩
  · refine Or.inl ⟨(List.prefix_append_right_inj q₁).mpr hpre, ?_, htook.trans htook₂⟩
    rw [List.length_append, hres]
  · refine Or.inr ⟨(List.prefix_append_right_inj q₁).mpr hpre, ?_, ?_, ?_⟩
    · simpa only [List.length_append, Nat.add_lt_add_iff_left] using hshort
    · rw [List.length_append, hres]
    · rw [← List.append_assoc]
      exact htook.trans htook₂

/-- The result counts bytes of the packet. -/
theorem Fills.res_le {r : ℕ × HciH4TrCb} (h : Fills s p b q l r) : r.1 ≤ q.length := by
  rcases h with ⟨-, hres, -⟩ | ⟨-, hshort, hres, -⟩ <;> omega

theorem backUpPacket_fills (h : s.Backs b) (hp : p.encode = b ++ q) (hl : GoesOn b q l) :
    Fills s p b q l (s.backUpPacket p.type.headLen p.type.paramLen l l.length) := by
  have hlen := congrArg List.length hp
  rw [List.length_append, p.length_encode] at hlen
  have hlt := hl.lt
  unfold backUpPacket
  rw [h.cnt]
  by_cases hhead : 1 + p.type.headLen ≤ b.length
  · rw [if_pos hhead, H4Packet.paramLen_of_agrees (h.agrees hp hhead)]
    exact backUpBody_fills h hp hl
  rw [if_neg hhead]
  by_cases hall : 1 + p.type.headLen ≤ b.length + l.length
  · -- the header is completed first, by the bytes `q₁` that `q` and `l` share
    rw [if_pos hall]
    obtain ⟨q₁, q₂, l₂, rfl, rfl, hq₁, hl₂⟩ :=
      hl.split (show 1 + p.type.headLen - b.length ≤ q.length by omega) (by omega)
    rw [List.length_append] at hlen
    have hlt₂ := hl₂.lt
    rw [List.length_append] at hlt₂
    have htook := took_appendBackup h (show b.length + q₁.length < 256 by omega)
    have hp₂ : p.encode = b ++ q₁ ++ q₂ := by rw [hp, List.append_assoc]
    have hfill := backUpBody_fills htook.backs hp₂ hl₂
    have hfits := p.fits
    rw [hciRxFifoSize] at hfits
    rw [← hq₁]
    simp only [List.take_left, List.drop_left, List.length_append, Nat.add_sub_cancel_left]
    rw [H4Packet.paramLen_of_agrees
      (htook.backs.agrees hp₂ (by rw [List.length_append]; omega)),
      u16_of_lt (by have := hfill.res_le; omega)]
    exact Fills.append htook hfill
  · rw [if_neg hall, List.take_length]
    have hpre : l <+: q := by
      rcases hl.agree with hle | ⟨hpre, -⟩
      · have := hle.length_le
        omega
      · exact hpre
    exact Or.inr ⟨hpre, by omega, rfl, took_timerEnable (took_appendBackup h (by omega))⟩

/-- The backup handler on the bytes behind the beginning of a packet. -/
theorem backUpHandler_fills (h : s.Backs b) (hb : b ≠ []) (hp : p.encode = b ++ q)
    (hl : GoesOn b q l) : Fills s p b q l (s.backUpHandler l l.length) := by
  have hpos := List.length_pos_iff.mpr hb
  have hfill := backUpPacket_fills h hp hl
  unfold backUpHandler
  rw [h.cnt, if_neg (by omega), H4Packet.code_of_agrees (h.agrees hp hpos)]
  cases htype : p.type <;> rw [htype] at hfill
  case cmd => exact hfill
  case acl => exact hfill
  case iso => exact hfill

/-- The backup handler on the beginning of a packet. -/
theorem backUpHandler_begin (h : s.Backs []) (hlt : l.length < 256) :
    Took s (s.backUpHandler l l.length).2 [] l := by
  unfold backUpHandler
  rw [h.cnt, if_pos List.length_nil, List.take_length]
  have hlt' : ([] : List UInt8).length + l.length < 256 := by simpa using hlt
  exact took_timerEnable (took_appendBackup h hlt')

/-! ## The direct path -/

/-- How `HCI_Tr_H4RxHandler` reads the length field: of a data packet of the type ISO it
takes ten bits. -/
theorem rxSwitch_eq {len : ℕ} (hpos : 0 < len)
    (hagree : ∀ i < len, i < p.encode.length → mem l i = p.encode.getD i 0) :
    s.rxSwitch l len =
      if len < 1 + p.type.headLen then .next (s.backUpHandler l len).2 l 0
      else s.rxPacket p.encode.length l len := by
  have hfits := p.fits
  rw [hciRxFifoSize] at hfits
  have hlen := p.length_encode
  have hcode : mem l 0 = p.type.code :=
    H4Packet.code_of_agrees fun i hi => hagree i (by omega) (by omega)
  have hheader : s.rxSwitch l len =
      s.rxHeader p.type.headLen (if p.type = .iso then p.type.paramLen (mem l) % 1024
        else p.type.paramLen (mem l)) l len := by
    unfold rxSwitch
    rw [hcode]
    cases p.type <;> rfl
  rw [hheader, rxHeader]
  split
  · rfl
  next hhead =>
    rw [H4Packet.paramLen_of_agrees fun i hi => hagree i (by omega) (by omega),
      Nat.mod_eq_of_lt (show p.body.length < 1024 by omega), ite_self, u16_of_lt (by omega),
      hlen]

/-- A packet that lies in the chunk whole. -/
theorem rxSwitch_whole (rest : List UInt8) :
    s.rxSwitch (p.encode ++ rest) (p.encode ++ rest).length =
      if s.pHciRxFifo.num ≤ s.pHciRxFifo.used then .full s
      else .next (s.putPacket p.encode) rest rest.length := by
  have hlen := p.length_encode
  rw [rxSwitch_eq (p := p), if_neg, rxPacket, if_pos, List.take_left, List.drop_left,
    List.length_append, Nat.add_sub_cancel_left]
  · rw [List.length_append]
    omega
  · rw [List.length_append]
    omega
  · rw [List.length_append]
    omega
  · intro i _ hi
    exact List.getD_append _ _ _ _ hi

/-- The beginning of a packet at the end of the chunk. -/
theorem rxSwitch_part (hpre : l <+: p.encode) (hne : l ≠ []) (hlt : l.length < p.encode.length) :
    s.rxSwitch l l.length = .next (s.backUpHandler l l.length).2 l 0 := by
  have hpos := List.length_pos_iff.mpr hne
  obtain ⟨q, hq⟩ := hpre
  rw [rxSwitch_eq (p := p) hpos]
  · split
    · rfl
    · rw [rxPacket, if_neg (by omega), if_pos ⟨by omega, hlt⟩]
  · intro i hi _
    rw [← hq, List.getD_append _ _ _ _ hi]
    rfl

end HciH4TrCb
end TlBleSdk.Hci
