import TlBleSdk.Hci.H5Steps

/-!
# What H5 packs and what it unpacks

The header keeps its fields except for the upper bits of the length: `HCI_H5_PackHeader`
masks the shifted length with `0x0fff`, which leaves 8 of its 12 bits
(`unpackHeader_frame`). The sender starts the CRC at `0xFFFF` and the receiver at `0`, so
the check of a frame that carries one fails (`not_crcValid_frame`).
-/

namespace TlBleSdk.Hci

/-! ## Bit fields -/

/-- A field of `k` bits and another behind it. -/
theorem or_shiftLeft {a k : ℕ} (h : a < 2 ^ k) (b : ℕ) : a ||| b <<< k = a + 2 ^ k * b := by
  rw [Nat.or_comm, ← Nat.shiftLeft_add_eq_or_of_lt h, Nat.shiftLeft_eq, Nat.add_comm,
    Nat.mul_comm]

theorem and_mask1 (x : ℕ) : x &&& 0x01 = x % 2 := Nat.and_two_pow_sub_one_eq_mod x 1
theorem and_mask3 (x : ℕ) : x &&& 0x07 = x % 8 := Nat.and_two_pow_sub_one_eq_mod x 3
theorem and_mask4 (x : ℕ) : x &&& 0x0F = x % 16 := Nat.and_two_pow_sub_one_eq_mod x 4
theorem and_mask12 (x : ℕ) : x &&& 0x0FFF = x % 4096 := Nat.and_two_pow_sub_one_eq_mod x 12

/-! ## The header -/

/-- The fields of a header are within their widths. -/
structure HciH5Head.Fits (head : HciH5Head) : Prop where
  seqNum_lt : head.seqNum < 8
  ackNum_lt : head.ackNum < 8
  crc_le : head.crc ≤ 1
  reliable_le : head.reliable ≤ 1
  pktType_lt : head.pktType < 16

variable {head : HciH5Head}

/-- The first byte of a header. -/
theorem flags_eq (h : head.Fits) :
    u16 (head.seqNum <<< 0 ||| head.ackNum <<< 3 ||| head.crc <<< 6 ||| head.reliable <<< 7) =
      head.seqNum + 8 * head.ackNum + 64 * head.crc + 128 * head.reliable := by
  obtain ⟨hseq, hack, hcrc, hrel, -⟩ := h
  have h0 : head.seqNum <<< 0 = head.seqNum := rfl
  have h1 : head.seqNum + 2 ^ 3 * head.ackNum < 2 ^ 6 := by omega
  have h2 : head.seqNum + 2 ^ 3 * head.ackNum + 2 ^ 6 * head.crc < 2 ^ 7 := by omega
  rw [h0, or_shiftLeft (show head.seqNum < 2 ^ 3 from hseq), or_shiftLeft h1, or_shiftLeft h2,
    u16_of_lt (by omega)]
  omega

/-- The next two bytes: the mask keeps 8 bits of the length. -/
theorem typeLen_eq (h : head.Fits) :
    u16 (head.pktType ||| (head.payloadLen <<< 4 &&& 0x0fff)) =
      head.pktType + 16 * (head.payloadLen % 256) := by
  have htype : head.pktType < 2 ^ 4 := h.pktType_lt
  have hmask : head.payloadLen <<< 4 &&& 0x0fff = (head.payloadLen % 256) <<< 4 := by
    rw [and_mask12, Nat.shiftLeft_eq, Nat.shiftLeft_eq]
    omega
  rw [hmask, or_shiftLeft htype]
  unfold u16
  omega

/-- The three bytes of a header in front of the checksum, as a number. -/
def HciH5Head.value (head : HciH5Head) : ℕ :=
  head.seqNum + 8 * head.ackNum + 64 * head.crc + 128 * head.reliable +
    256 * head.pktType + 4096 * (head.payloadLen % 256)

theorem packHeader_eq (h : head.Fits) : ∃ b0 b1 b2 : UInt8,
    hciH5PackHeader head = [b0, b1, b2, hciH5CheckSumCalc b0 b1 b2] ∧
      b0.toNat + 256 * b1.toNat + 65536 * b2.toNat = head.value := by
  refine ⟨_, _, _, rfl, ?_⟩
  rw [flags_eq h, typeLen_eq h]
  obtain ⟨hseq, hack, hcrc, hrel, htype⟩ := h
  simp only [UInt8.toNat_ofNat', Nat.shiftRight_eq_div_pow, HciH5Head.value]
  omega

theorem checkSum_toNat (b0 b1 b2 : UInt8) :
    (hciH5CheckSumCalc b0 b1 b2).toNat = 255 - (b0.toNat + b1.toNat + b2.toNat) % 256 := by
  simp only [hciH5CheckSumCalc, UInt8.toNat_not, UInt8.toNat_add, UInt8.size]
  omega

@[simp] theorem length_packHeader (head : HciH5Head) :
    (hciH5PackHeader head).length = hciH5HeadLen := rfl

/-- The checksum of a packed header is valid. -/
theorem checkSumValid_packHeader (h : head.Fits) (rest : List UInt8) :
    hciH5IsCheckSumValid (mem (hciH5PackHeader head ++ rest)) = true := by
  obtain ⟨b0, b1, b2, hpack, -⟩ := packHeader_eq h
  have hsum := checkSum_toNat b0 b1 b2
  rw [hpack]
  unfold hciH5IsCheckSumValid
  simp only [mem, List.cons_append, List.getD_cons_zero, List.getD_cons_succ, decide_eq_true_eq]
  omega

/-- The header `got` has the fields of `head`, but only 8 bits of its length. -/
structure HciH5Head.ReadsAs (got head : HciH5Head) : Prop where
  seqNum_eq : got.seqNum = head.seqNum
  ackNum_eq : got.ackNum = head.ackNum
  crc_eq : got.crc = head.crc
  reliable_eq : got.reliable = head.reliable
  pktType_eq : got.pktType = head.pktType
  payloadLen_eq : got.payloadLen = head.payloadLen % 256

/-- A header is unpacked as it was packed, with the length modulo 256. -/
theorem unpackHeader_packHeader (h : head.Fits) (rest : List UInt8) :
    (hciH5UnpackHeader (mem (hciH5PackHeader head ++ rest))).ReadsAs head := by
  obtain ⟨b0, b1, b2, hpack, hvalue⟩ := packHeader_eq h
  obtain ⟨hseq, hack, hcrc, hrel, htype⟩ := h
  have hck := (hciH5CheckSumCalc b0 b1 b2).toNat_lt
  have hhead : bytesToUint32 (mem (hciH5PackHeader head ++ rest)) 0 =
      head.value + 16777216 * (hciH5CheckSumCalc b0 b1 b2).toNat := by
    rw [hpack, ← hvalue]
    simp only [bytesToUint32, mem, List.cons_append, List.getD_cons_zero, List.getD_cons_succ]
    omega
  unfold hciH5UnpackHeader
  simp only [hhead, and_mask1, and_mask3, and_mask4, and_mask12, Nat.shiftRight_eq_div_pow,
    HciH5Head.value]
  constructor <;> dsimp only <;> omega

/-! ## Frames -/

variable {packet : List UInt8}

theorem length_crcBytes (head : HciH5Head) (buf : List UInt8) :
    (hciH5CrcBytes head buf).length = if head.crc ≠ 0 then hciH5CrcLen else 0 := by
  unfold hciH5CrcBytes
  split <;> rfl

theorem length_frame (head : HciH5Head) (packet : List UInt8) :
    (hciH5Frame head packet).length =
      u16 (hciH5HeadLen + packet.length + if head.crc ≠ 0 then hciH5CrcLen else 0) := by
  unfold hciH5Frame
  simp only [List.length_take, List.length_append, length_packHeader, length_crcBytes]
  exact Nat.min_eq_left (Nat.mod_le _ _)

/-- A frame that is not cut below the header begins with it. -/
theorem frame_begins (h : hciH5HeadLen ≤ (hciH5Frame head packet).length) :
    ∃ rest, hciH5Frame head packet = hciH5PackHeader head ++ rest := by
  rw [length_frame] at h
  refine ⟨(packet ++ hciH5CrcBytes head (hciH5PackHeader head ++ packet)).take (u16 (hciH5HeadLen +
    packet.length + if head.crc ≠ 0 then hciH5CrcLen else 0) - hciH5HeadLen), ?_⟩
  show List.take _ _ = _
  rw [List.append_assoc, List.take_append, List.take_of_length_le h, length_packHeader]

/-- The header of a frame, read back. -/
theorem unpackHeader_frame (packet : List UInt8) (hfits : head.Fits)
    (h : hciH5HeadLen ≤ (hciH5Frame head packet).length) :
    (hciH5UnpackHeader (mem (hciH5Frame head packet))).ReadsAs head := by
  obtain ⟨rest, hrest⟩ := frame_begins h
  rw [hrest]
  exact unpackHeader_packHeader hfits rest

theorem checkSumValid_frame (hfits : head.Fits)
    (h : hciH5HeadLen ≤ (hciH5Frame head packet).length) :
    hciH5IsCheckSumValid (mem (hciH5Frame head packet)) = true := by
  obtain ⟨rest, hrest⟩ := frame_begins h
  rw [hrest]
  exact checkSumValid_packHeader hfits rest

/-- The length check passes exactly where 8 bits hold the length. -/
theorem lenValid_frame (packet : List UInt8) (hfits : head.Fits)
    (hlen : head.payloadLen = u16 packet.length) :
    hciH5LenValid (hciH5UnpackHeader (mem (hciH5Frame head packet)))
      (hciH5Frame head packet).length = true ↔ packet.length % 65536 < 256 := by
  have hn := length_frame head packet
  unfold u16 hciH5HeadLen hciH5CrcLen at hn
  unfold hciH5LenValid hciH5HeadLen hciH5CrcLen
  by_cases hcut : (hciH5Frame head packet).length < 4
  · -- a frame without its header has no valid length
    split at hn <;> split <;> simp only [decide_eq_true_eq] <;> omega
  · have hgot := unpackHeader_frame packet hfits (Nat.le_of_not_lt hcut)
    generalize hciH5UnpackHeader (mem (hciH5Frame head packet)) = got at hgot ⊢
    have hgotLen : got.payloadLen = packet.length % 65536 % 256 := by
      rw [hgot.payloadLen_eq, hlen, u16]
    rw [hgot.crc_eq, hgotLen]
    by_cases h0 : head.crc = 0
    · rw [if_neg (not_not_intro h0)] at hn
      rw [if_pos h0, decide_eq_true_eq]
      omega
    · rw [if_pos h0] at hn
      rw [if_neg h0, decide_eq_true_eq]
      omega

/-- A frame without CRC whose length 8 bits hold. -/
theorem frame_of_crc_eq_zero (hcrc : head.crc = 0) (hlen : packet.length < 65532) :
    hciH5Frame head packet = hciH5PackHeader head ++ packet := by
  have htail : hciH5CrcBytes head (hciH5PackHeader head ++ packet) = [] := if_neg (by simpa)
  show List.take _ (_ ++ hciH5CrcBytes head (hciH5PackHeader head ++ packet)) = _
  rw [htail, List.append_nil, if_neg (by simpa), u16_of_lt (by unfold hciH5HeadLen; omega)]
  apply List.take_of_length_le
  simp

/-! ## The CRC -/

/-- A number of 16 bits from its bytes. -/
theorem toNat_eq_of_bytes (c : BitVec 16) :
    c.toNat = (c &&& 0xff#16).toNat + 256 * (c >>> 8 &&& 0xff#16).toNat := by
  have hc := c.isLt
  have hand : ∀ n, n &&& 255 = n % 256 := fun n => Nat.and_two_pow_sub_one_eq_mod n 8
  simp only [BitVec.toNat_and, BitVec.toNat_ushiftRight, BitVec.toNat_ofNat, Nat.reducePow,
    Nat.reduceMod, hand, Nat.shiftRight_eq_div_pow]
  omega

theorem byte_lt (c : BitVec 16) : (c &&& 0xff#16).toNat < 256 := by
  rw [BitVec.toNat_and]
  exact Nat.lt_of_le_of_lt Nat.and_le_right (by decide)

/-- The receiver starts the CRC at another value, so it never finds the CRC sent. -/
theorem not_crcValid_frame (head : HciH5Head) (packet : List UInt8) (hcrc : head.crc ≠ 0)
    (hlen : packet.length ≤ 4095) :
    hciH5CrcValid (mem (hciH5Frame head packet)) (hciH5Frame head packet).length = false := by
  let buf := hciH5PackHeader head ++ packet
  let sent := hciH5CcittCrc16Calc 0xFFFF#16 buf
  let lo := UInt8.ofNat (sent &&& 0xFF#16).toNat
  let hi := UInt8.ofNat (sent >>> 8 &&& 0xFF#16).toNat
  have hbuf : buf.length = 4 + packet.length := List.length_append
  have hframe : hciH5Frame head packet = buf ++ [hi, lo] := by
    have htail : hciH5CrcBytes head buf = [hi, lo] := if_pos hcrc
    show (buf ++ hciH5CrcBytes head buf).take _ = _
    rw [htail, if_pos hcrc]
    apply List.take_of_length_le
    rw [List.length_append, hbuf, u16_of_lt (by unfold hciH5HeadLen hciH5CrcLen; omega)]
    rfl
  have hpLen : u16 ((buf ++ [hi, lo]).length - hciH5CrcLen) = buf.length := by
    rw [List.length_append, show buf.length + [hi, lo].length - hciH5CrcLen = buf.length from rfl,
      u16_of_lt (by omega)]
  have hlast : mem (buf ++ [hi, lo]) buf.length = hi := by simp [mem]
  have hlast' : mem (buf ++ [hi, lo]) (buf.length + 1) = lo := by simp [mem]
  by_contra h
  rw [Bool.not_eq_false, hframe] at h
  unfold hciH5CrcValid at h
  simp only [hpLen, hlast, hlast', bytes_mem_append, Bool.and_eq_true, decide_eq_true_eq] at h
  -- the CRC received has the bytes of the CRC sent
  obtain ⟨hlo, hhi⟩ := h
  rw [UInt8.toNat_ofNat', Nat.mod_eq_of_lt (byte_lt _)] at hlo hhi
  have heq : hciH5CcittCrc16Calc 0x0000#16 buf = sent := by
    apply BitVec.eq_of_toNat_eq
    rw [toNat_eq_of_bytes, toNat_eq_of_bytes sent, hlo, hhi]
  exact absurd (Crc.crc_injective rfl buf heq) (by decide)

/-! ## The round trip -/

/-- `HCI_H5_PacketHandler` of `peer` accepts the frame that `HCI_H5_Send` builds in the state
`cb`: the checksum and the length are valid, the header is the one packed, and so are the
CRC checks of `HCI_H5_DecodeDataPdu`. -/
def HciH5RoundTrip (cb peer : HciH5Cb) (h5Type : ℕ) (packet : List UInt8) : Prop :=
  let head := hciH5SendHead cb h5Type packet.length
  let frame := hciH5Frame head packet
  let got := hciH5UnpackHeader (mem frame)
  hciH5IsCheckSumValid (mem frame) = true ∧
    (got.seqNum = head.seqNum ∧ got.ackNum = head.ackNum ∧ got.crc = head.crc ∧
      got.reliable = head.reliable ∧ got.pktType = head.pktType ∧
      got.payloadLen = head.payloadLen) ∧
    hciH5LenValid got frame.length = true ∧
    hciH5DataValid peer got (mem frame) frame.length = true

/-- The header of a packet to send. -/
theorem sendHead_fits {cb : HciH5Cb} (h : cb.InRange) {h5Type : ℕ} (htype : h5Type < 16)
    (len : ℕ) : (hciH5SendHead cb h5Type len).Fits where
  seqNum_lt := by
    unfold hciH5SendHead
    dsimp only
    split
    · exact h.txSeq_lt
    · decide
  ackNum_lt := h.txAck_lt
  crc_le := by
    unfold hciH5SendHead
    dsimp only
    split
    · exact h.crc_le
    · decide
  reliable_le := by
    unfold hciH5SendHead
    dsimp only
    split <;> decide
  pktType_lt := htype

/-- The CRC flag is clear. -/
theorem sendHead_crc_eq_zero (cb : HciH5Cb) (h5Type len : ℕ) :
    (hciH5SendHead cb h5Type len).crc = 0 ↔
      cb.config.dataIntgrtChkType = 0 ∨ h5Type = hciH5PktTypeAck ∨
        h5Type = hciH5PktTypeLinkCtrl := by
  unfold hciH5SendHead
  dsimp only
  split
  · rename_i h
    simp [h.1, h.2]
  · rename_i h
    rw [not_and_or, not_not, not_not] at h
    simp [h]

/-- A frame makes the round trip exactly if it has a payload of at most 255 bytes and no
CRC. -/
theorem roundTrip_iff (cb peer : HciH5Cb) (hcb : cb.InRange) (hpeer : peer.config = cb.config)
    (h5Type : ℕ) (htype : h5Type < 16) (packet : List UInt8) (hlen : packet.length ≤ 4095) :
    HciH5RoundTrip cb peer h5Type packet ↔
      packet.length ≤ 255 ∧
        (cb.config.dataIntgrtChkType = 0 ∨ h5Type = hciH5PktTypeAck ∨
          h5Type = hciH5PktTypeLinkCtrl) := by
  rw [← sendHead_crc_eq_zero cb h5Type packet.length]
  have hfits := sendHead_fits hcb htype packet.length
  have hpay : (hciH5SendHead cb h5Type packet.length).payloadLen = u16 packet.length := rfl
  have hframe := length_frame (hciH5SendHead cb h5Type packet.length) packet
  have hnot := not_crcValid_frame (hciH5SendHead cb h5Type packet.length) packet
  have hlenValid := lenValid_frame packet hfits hpay
  unfold HciH5RoundTrip
  dsimp only
  generalize hciH5SendHead cb h5Type packet.length = head at *
  have h4 : hciH5HeadLen ≤ (hciH5Frame head packet).length := by
    rw [hframe, u16_of_lt]
    · omega
    · unfold hciH5HeadLen hciH5CrcLen
      split <;> omega
  have hgot := unpackHeader_frame packet hfits h4
  have hsum := checkSumValid_frame hfits h4
  have hu16 : u16 packet.length = packet.length := u16_of_lt (by omega)
  unfold hciH5DataValid
  rw [hpeer, hgot.crc_eq]
  constructor
  · rintro ⟨-, -, hvalid, hdata⟩
    have hshort := hlenValid.mp hvalid
    refine ⟨by omega, ?_⟩
    by_contra hcrc
    rw [hnot hcrc hlen] at hdata
    simp [hcrc] at hdata
  · rintro ⟨hshort, hcrc⟩
    refine ⟨hsum, ⟨hgot.seqNum_eq, hgot.ackNum_eq, rfl, hgot.reliable_eq, hgot.pktType_eq, ?_⟩,
      hlenValid.mpr (by omega), by simp [hcrc]⟩
    rw [hgot.payloadLen_eq, hpay, hu16]
    omega

/-- A control block in which the CRC option is `crc`. -/
def h5Example (crc : ℕ) : HciH5Cb :=
  { hciH5Init ⟨1, 0, crc, 0⟩ (HciFifo.empty 260 3 HciFifo.three_le_seven)
      (HciFifo.empty 260 3 HciFifo.three_le_seven) 0 with config := ⟨1, 0, crc, 0⟩ }

theorem roundTrip_example :
    HciH5RoundTrip (h5Example 0) (h5Example 0) hciH5PktTypeAcl [1, 2, 3] :=
  (roundTrip_iff (h5Example 0) (h5Example 0)
    ⟨by decide, by decide, by decide, by decide, by decide⟩ rfl
    hciH5PktTypeAcl (by decide) [1, 2, 3] (by decide)).mpr ⟨by decide, Or.inl rfl⟩

/-- A payload of 256 bytes, and a payload of 3 bytes with its CRC. -/
theorem not_roundTrip_example :
    ¬ HciH5RoundTrip (h5Example 0) (h5Example 0) hciH5PktTypeAcl (List.replicate 256 0) ∧
      ¬ HciH5RoundTrip (h5Example 1) (h5Example 1) hciH5PktTypeAcl [1, 2, 3] := by
  unfold HciH5RoundTrip
  decide +kernel

end TlBleSdk.Hci
