import TlBleSdk.Hci.H5Frame

/-!
# The frames of an active link

An active endpoint sends pure ACKs, data frames with an entry of `pHciTxFifo`, and answers
to a late CONFIG message. This file says what the peer makes of each: a data frame whose
length 8 bits do not hold, or with a CRC, is dropped, and any other frame arrives as it was
sent.
-/

namespace TlBleSdk.Hci

/-- A frame of an active link: `data k n` carries the packet `k` and acknowledges the packets
before `n`. -/
inductive Pdu
  | config
  | ack (n : ℕ)
  | data (k n : ℕ)

def Pdu.data? : Pdu → Option ℕ
  | data k _ => some k
  | _ => none

def Pdu.ack? : Pdu → Option ℕ
  | ack n => some n
  | data _ n => some n
  | config => none

/-- The packet in a slot of `pHciTxFifo`, as it is put into `pHciRxFifo`. -/
def packetOf (slot : List UInt8) : List UInt8 := UInt8.ofNat (slotType slot) :: slotPayload slot

/-- The header of the data frame with the packet `slot`. -/
def dataHead (k n crc : ℕ) (slot : List UInt8) : HciH5Head :=
  ⟨k % 8, n % 8, crc, 1, slotType slot, 0, u16 (slotPayload slot).length⟩

/-- A CONFIG or CONFIG_RSP message. -/
def IsConfigFrame (frame : List UInt8) : Prop :=
  ∃ n msg byte, n < 8 ∧ (msg = hciH5MsgConfig ∨ msg = hciH5MsgConfigRsp) ∧
    frame = hciH5Frame ⟨0, n, 0, 0, hciH5PktTypeLinkCtrl, 0, 3⟩ (uint16ToBstream msg ++ [byte])

/-- The frame is the one for `pdu`, where the host gave the entries `given`. -/
def Carries (given : List (List UInt8)) (frame : List UInt8) : Pdu → Prop
  | .config => IsConfigFrame frame
  | .ack n => frame = pureAckFrame (n % 8)
  | .data k n => ∃ slot crc, given[k]? = some slot ∧
      hciH5IsReliablePacket (slotType slot) = true ∧ crc ≤ 1 ∧
      frame = hciH5Frame (dataHead k n crc slot) (slotPayload slot)

/-- A frame carries what it carries after the host gave more. -/
theorem Carries.append {given : List (List UInt8)} {frame : List UInt8} {pdu : Pdu}
    (h : Carries given frame pdu) (more : List (List UInt8)) :
    Carries (given ++ more) frame pdu := by
  cases pdu with
  | config => exact h
  | ack n => exact h
  | data k n =>
    obtain ⟨slot, crc, hslot, hrest⟩ := h
    refine ⟨slot, crc, ?_, hrest⟩
    obtain ⟨hk, -⟩ := List.getElem?_eq_some_iff.mp hslot
    rwa [List.getElem?_append_left hk]

variable {cb : HciH5Cb}

/-! ## What the peer makes of a frame -/

/-- Only an over-long packet cuts the header of its frame. -/
theorem headLen_le_frame (head : HciH5Head) (packet : List UInt8) (h : packet.length < 65530) :
    hciH5HeadLen ≤ (hciH5Frame head packet).length := by
  rw [length_frame, u16_of_lt]
  · omega
  · unfold hciH5HeadLen hciH5CrcLen
    split <;> omega

/-- What follows the header of a frame. -/
theorem mem_packHeader (head : HciH5Head) (rest : List UInt8) (i : ℕ) :
    mem (hciH5PackHeader head ++ rest) (hciH5HeadLen + i) = mem rest i := by
  unfold mem
  rw [List.getD_append_right _ _ _ _ (by rw [length_packHeader]; omega), length_packHeader,
    Nat.add_sub_cancel_left]

/-- A pure ACK arrives. -/
theorem receive_ack (hactive : cb.linkState = .active) {n : ℕ} (hn : n < 8) :
    cb.kind (mem (pureAckFrame n)) (pureAckFrame n).length = .pureAck ∧
      (hciH5UnpackHeader (mem (pureAckFrame n))).ackNum = n := by
  have hfits : (HciH5Head.mk 0 n 0 0 hciH5PktTypeAck 0 0).Fits :=
    ⟨Nat.zero_lt_succ 7, hn, Nat.zero_le _, Nat.zero_le _, Nat.zero_lt_succ 15⟩
  have hlen := headLen_le_frame (HciH5Head.mk 0 n 0 0 hciH5PktTypeAck 0 0) []
    (by decide)
  have hgot := unpackHeader_frame _ hfits hlen
  have hsum := checkSumValid_frame hfits hlen
  have hvalid := (lenValid_frame [] hfits rfl).mpr (by decide)
  refine ⟨?_, hgot.ackNum_eq⟩
  unfold HciH5Cb.kind pureAckFrame
  dsimp only
  rw [hsum, hvalid, hgot.pktType_eq, hactive]
  rfl

/-- The length field of a slot is 16 bits wide and counts the type. -/
theorem slotLen_cases (slot : List UInt8) : slotLen slot < 65535 ∨ slotLen slot = 4294967295 := by
  have h := bytesToUint16_lt (mem slot) 0
  unfold slotLen u32Sub u32
  omega

@[simp] theorem length_slotPayload (slot : List UInt8) :
    (slotPayload slot).length = slotLen slot := by
  simp [slotPayload]

theorem isDataType_of_reliable {type : ℕ} (h : hciH5IsReliablePacket type = true) :
    hciH5IsDataType type = true ∧ type ≠ hciH5PktTypeAck ∧ type ≠ hciH5PktTypeLinkCtrl ∧
      type < 16 := by
  unfold hciH5IsReliablePacket at h
  unfold hciH5IsDataType
  simp only [Bool.or_eq_true, decide_eq_true_eq] at h ⊢
  rcases h with (h | h) | h <;> subst h <;> decide

theorem fits_dataHead (k n : ℕ) {crc : ℕ} {slot : List UInt8} (hcrc : crc ≤ 1)
    (htype : slotType slot < 16) : (dataHead k n crc slot).Fits :=
  ⟨Nat.mod_lt _ (Nat.zero_lt_succ 7), Nat.mod_lt _ (Nat.zero_lt_succ 7), hcrc, le_rfl, htype⟩

theorem payloadLen_dataHead (k n crc : ℕ) (slot : List UInt8) :
    (dataHead k n crc slot).payloadLen = u16 (slotPayload slot).length := rfl

/-- A length that 8 bits hold is the one of the slot. -/
theorem slotLen_lt_of_mod {slot : List UInt8} (hlen : slotLen slot % 65536 < 256) :
    slotLen slot < 256 := by
  rcases slotLen_cases slot with h | h
  · omega
  · rw [h] at hlen
    exact absurd hlen (by decide)

/-- The payload of a data frame without a CRC. -/
theorem payload_dataFrame (k n : ℕ) {slot : List UInt8} (hshort : slotLen slot < 256) :
    bytes (fun i => mem (hciH5Frame (dataHead k n 0 slot) (slotPayload slot)) (hciH5HeadLen + i))
      (slotLen slot) = slotPayload slot := by
  have hframe : hciH5Frame (dataHead k n 0 slot) (slotPayload slot) =
      hciH5PackHeader (dataHead k n 0 slot) ++ slotPayload slot :=
    frame_of_crc_eq_zero rfl (by rw [length_slotPayload]; omega)
  simp only [hframe, mem_packHeader]
  rw [← length_slotPayload slot]
  exact bytes_mem (slotPayload slot)

/-- A data frame whose length 8 bits do not hold is dropped. -/
theorem receive_long (k n : ℕ) {crc : ℕ} {slot : List UInt8} (hcrc : crc ≤ 1)
    (htype : slotType slot < 16) (hlen : ¬ slotLen slot % 65536 < 256) :
    let frame := hciH5Frame (dataHead k n crc slot) (slotPayload slot)
    cb.kind (mem frame) frame.length = .dropped := by
  have hvalid := lenValid_frame (slotPayload slot) (fits_dataHead k n hcrc htype)
    (payloadLen_dataHead k n crc slot)
  rw [length_slotPayload] at hvalid
  intro frame
  unfold HciH5Cb.kind
  dsimp only
  rw [show hciH5LenValid (hciH5UnpackHeader (mem frame)) frame.length = false from
    Bool.eq_false_iff.mpr fun h => hlen (hvalid.mp h)]
  split <;> rfl

/-- A data frame arrives, as it was sent, or it is dropped. -/
theorem receive_data (hactive : cb.linkState = .active) (k n : ℕ) {crc : ℕ} {slot : List UInt8}
    (hrel : hciH5IsReliablePacket (slotType slot) = true) (hcrc : crc ≤ 1) :
    let frame := hciH5Frame (dataHead k n crc slot) (slotPayload slot)
    cb.kind (mem frame) frame.length = .dropped ∨
      cb.kind (mem frame) frame.length =
          (if k % 8 = cb.txAck then .expected else .unexpected) ∧
        (hciH5UnpackHeader (mem frame)).ackNum = n % 8 ∧
        rxSlot (hciH5UnpackHeader (mem frame)) (mem frame) = packetOf slot := by
  obtain ⟨hdata, hnack, hnlink, htype⟩ := isDataType_of_reliable hrel
  by_cases hlen : slotLen slot % 65536 < 256
  · -- 8 bits hold the length
    have hfits := fits_dataHead k n hcrc htype
    have hshort := slotLen_lt_of_mod hlen
    have hhead := headLen_le_frame (dataHead k n crc slot) (slotPayload slot)
      (by rw [length_slotPayload]; omega)
    have hgot := unpackHeader_frame _ hfits hhead
    have hsum := checkSumValid_frame hfits hhead
    have hvalid := lenValid_frame (slotPayload slot) hfits (payloadLen_dataHead k n crc slot)
    rw [length_slotPayload] at hvalid
    have hvalid := hvalid.mpr hlen
    have hnot := not_crcValid_frame (dataHead k n crc slot) (slotPayload slot)
    have hlen4095 : (slotPayload slot).length ≤ 4095 := by
      rw [length_slotPayload]
      omega
    have hu16 : u16 (slotPayload slot).length % 256 = slotLen slot := by
      rw [length_slotPayload, u16_of_lt (by omega)]
      omega
    have hpayload : crc = 0 → bytes (fun i => mem (hciH5Frame (dataHead k n crc slot)
        (slotPayload slot)) (hciH5HeadLen + i)) (slotLen slot) = slotPayload slot := by
      rintro rfl
      exact payload_dataFrame k n hshort
    generalize hciH5Frame (dataHead k n crc slot) (slotPayload slot) = frame at *
    have hgtype : (hciH5UnpackHeader (mem frame)).pktType = slotType slot := hgot.pktType_eq
    have hgrel : (hciH5UnpackHeader (mem frame)).reliable = 1 := hgot.reliable_eq
    have hgcrc : (hciH5UnpackHeader (mem frame)).crc = crc := hgot.crc_eq
    have hgseq : (hciH5UnpackHeader (mem frame)).seqNum = k % 8 := hgot.seqNum_eq
    have hglen := hgot.payloadLen_eq.trans hu16
    unfold HciH5Cb.kind rxSlot hciH5Payload
    dsimp only
    by_cases h0 : crc = 0
    · right
      refine ⟨?_, hgot.ackNum_eq, ?_⟩
      · have hok : hciH5DataValid cb (hciH5UnpackHeader (mem frame)) (mem frame) frame.length =
            true := by
          simp [hciH5DataValid, hgcrc, h0]
        simp [hsum, hvalid, hgtype, hnack, hnlink, hdata, hactive, hok, hgrel, hgseq]
      · rw [hgtype, hglen, hpayload h0]
        rfl
    · left
      have hbad : hciH5DataValid cb (hciH5UnpackHeader (mem frame)) (mem frame) frame.length =
          false := by
        simp [hciH5DataValid, hgcrc, h0, hnot h0 hlen4095]
      simp [hsum, hvalid, hgtype, hnack, hnlink, hdata, hactive, hbad]
  · exact .inl (receive_long k n hcrc htype hlen)

theorem bytesToUint16_message {n : ℕ} (h : n < 65536) (rest : List UInt8) :
    bytesToUint16 (mem (uint16ToBstream n ++ rest)) 0 = n := by
  simp only [bytesToUint16, mem, uint16ToBstream, List.cons_append, List.nil_append,
    List.getD_cons_zero, List.getD_cons_succ, UInt8.toNat_ofNat']
  omega

/-- A late CONFIG message is answered, a late CONFIG_RSP message ignored. -/
theorem receive_config (blcHciReset : HciFifo → HciFifo → HciFifo × HciFifo)
    (hactive : cb.linkState = .active) {frame : List UInt8} (h : IsConfigFrame frame) (now : ℕ)
    (slip : Bool) :
    hciH5PacketHandler blcHciReset cb now slip (mem frame) frame.length = cb ∨
      hciH5PacketHandler blcHciReset cb now slip (mem frame) frame.length =
        hciH5SendConfigRsp cb slip := by
  obtain ⟨n, msg, byte, hn, hmsg, rfl⟩ := h
  have hfits : (HciH5Head.mk 0 n 0 0 hciH5PktTypeLinkCtrl 0 3).Fits :=
    ⟨Nat.zero_lt_succ 7, hn, Nat.zero_le _, Nat.zero_le _, Nat.lt_succ_self 15⟩
  have hpacket : (uint16ToBstream msg ++ [byte]).length = 3 := rfl
  have hlt : msg < 65536 := by rcases hmsg with rfl | rfl <;> decide
  have hbytes := bytesToUint16_message hlt [byte]
  generalize uint16ToBstream msg ++ [byte] = packet at hpacket hbytes ⊢
  have hlen := headLen_le_frame (HciH5Head.mk 0 n 0 0 hciH5PktTypeLinkCtrl 0 3) packet
    (by rw [hpacket]; decide)
  have hgot := unpackHeader_frame _ hfits hlen
  have hsum := checkSumValid_frame hfits hlen
  have hvalid := (lenValid_frame packet hfits (by rw [hpacket]; rfl)).mpr
    (by rw [hpacket]; decide)
  have hframe : hciH5Frame ⟨0, n, 0, 0, hciH5PktTypeLinkCtrl, 0, 3⟩ packet = _ :=
    frame_of_crc_eq_zero rfl (by rw [hpacket]; decide)
  have hread : bytesToUint16 (mem (hciH5Frame ⟨0, n, 0, 0, hciH5PktTypeLinkCtrl, 0, 3⟩ packet))
      hciH5HeadLen = msg := by
    have h0 := mem_packHeader ⟨0, n, 0, 0, hciH5PktTypeLinkCtrl, 0, 3⟩ packet 0
    have h1 := mem_packHeader ⟨0, n, 0, 0, hciH5PktTypeLinkCtrl, 0, 3⟩ packet 1
    rw [hframe, ← hbytes]
    unfold bytesToUint16
    rw [Nat.add_zero] at h0
    rw [h0, h1]
  have hkind : cb.kind (mem (hciH5Frame ⟨0, n, 0, 0, hciH5PktTypeLinkCtrl, 0, 3⟩ packet))
      (hciH5Frame ⟨0, n, 0, 0, hciH5PktTypeLinkCtrl, 0, 3⟩ packet).length = .linkCtrl := by
    unfold HciH5Cb.kind
    dsimp only
    rw [hsum, hvalid, hgot.pktType_eq]
    rfl
  rw [packetHandler_linkCtrl hkind]
  unfold hciH5DecodeLinkPdu
  dsimp only
  rw [hread, hactive]
  rcases hmsg with rfl | rfl
  · right
    rfl
  · left
    rfl

end TlBleSdk.Hci
