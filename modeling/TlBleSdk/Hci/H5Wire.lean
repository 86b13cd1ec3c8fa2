import TlBleSdk.Hci.SlipDecode
import TlBleSdk.Hci.TrH5Cut

/-!
# H5 packets on the wire

The layers below H5, from end to end: `HCI_Slip_EncodePacket` makes frames of the packets, the
UART carries their bytes in chunks of its own, `HCI_Tr_H5RxHandler` finds the frames again and
`HCI_Slip_DecodePacket` gives the packets to the H5 handler. So the link between two H5 endpoints
may be taken for a channel of packets.

A packet is encoded with the flow control setting of its moment, which the decoder need not know.
-/

namespace TlBleSdk.Hci

open Machine HciH5TrCb

/-- A packet that `HCI_Slip_EncodePacket` has room for, and whether flow control is enabled. -/
structure SlipPacket where
  oofEnable : Bool
  packet : List UInt8
  four_le : 4 ≤ packet.length
  length_le : packet.length ≤ hciH5TxBufSize
  fits : packet.length + packet.countP (slipEscaped oofEnable) + 2 ≤ hciSlipEncodeBufSize

namespace SlipPacket

/-- The mode of the encoder. -/
def slipCb (x : SlipPacket) : HciH5SlipCb := slipInit.setFlowCtrlEnable x.oofEnable

/-- What the UART sends for the packet. -/
def encoded (x : SlipPacket) : List UInt8 := (x.slipCb.encodePacket x.packet).encodeBuf

theorem length_stuff (x : SlipPacket) :
    ((slipEscapeCode x.oofEnable).stuff x.packet).length =
      x.packet.length + x.packet.countP (slipEscaped x.oofEnable) := by
  have henc := length_encodePacket x.slipCb x.packet
  rw [encodeBuf_encodePacket] at henc
  simpa [slipCb, HciH5SlipCb.setFlowCtrlEnable] using henc

/-- The packet as a frame of the transport. -/
def frame (x : SlipPacket) : SlipFrame where
  body := (slipEscapeCode x.oofEnable).stuff x.packet
  body_ge := by
    have h4 := x.four_le
    rw [length_stuff]
    omega
  body_ne y hy hflag := by
    subst hflag
    have hescaped : slipEscaped x.oofEnable slipFlag = true := by cases x.oofEnable <;> decide
    exact not_mem_stuff_of_escaped hescaped (by decide) x.packet hy
  fits := by
    have hfits := x.fits
    have hsize : hciSlipEncodeBufSize ≤ hciH5TrRxBufSize := by decide
    rw [length_stuff]
    omega

theorem encode_frame (x : SlipPacket) : x.frame.encode = x.encoded :=
  (encodeBuf_encodePacket x.slipCb x.packet).symm

end SlipPacket

/-- `HCI_Tr_SlipHandler` gives the frames to `HCI_Slip_DecodePacket`. -/
def HciH5SlipCb.decodeFrames (r : HciH5SlipCb) (slips : List (List UInt8)) : HciH5SlipCb :=
  slips.foldl (fun r q => r.decodePacket (mem q) q.length) r

/-- The frames of packets are decoded to the packets. -/
theorem h5Pkts_decodeFrames (r : HciH5SlipCb) (xs : List SlipPacket) :
    (r.decodeFrames (xs.map SlipPacket.encoded)).h5Pkts =
      r.h5Pkts ++ xs.map SlipPacket.packet := by
  unfold HciH5SlipCb.decodeFrames
  induction xs generalizing r with
  | nil => exact (List.append_nil _).symm
  | cons x xs ih =>
    have hsize : hciH5TxBufSize = hciSlipDecodeBufSize := by decide
    have hdecode := h5Pkts_decodePacket_encode r x.oofEnable x.four_le (hsize ▸ x.length_le)
      ((bytes_mem x.encoded).trans (encodeBuf_encodePacket x.slipCb x.packet))
    rw [List.map_cons, List.foldl_cons, ih, hdecode, List.append_assoc]
    rfl

variable {fuel : ℕ}

/-- The transport finds the frames where no chunk boundary cuts one of 256 bytes or more. -/
theorem slips_received (hfuel : hciH5TrRxBufSize ≤ fuel) {fs : List SlipFrame}
    {is : List H5Input} (hsmooth : Smooth fuel fs is) (hcut : NoLongCut fs (H5Input.chunks is)) :
    (received fuel is).slips = frames fs := by
  have hsize : hciH5TrRxBufSize = 1248 := rfl
  have hshort : ∀ c ∈ H5Input.chunks is, c.length < fuel := by
    intro c hc
    have hle := (hsmooth.fits c hc).2
    omega
  have hdeframed := (hsmooth.byChunk hfuel (byChunk_deframed hsmooth.stream hshort hcut)
    (deframed_init fs _)).2
  rw [hdeframed.slips, offset, List.take_length, hsmooth.stream, Framing.completed_flatten,
    List.take_length]

/-- Whatever the packets are, and however the UART cuts their bytes into chunks that find room
and are handled in time, the H5 handler gets the packets, each once and in order, where no chunk
boundary cuts a frame of 256 bytes or more. -/
theorem wire_transparent (hfuel : hciH5TrRxBufSize ≤ fuel) (xs : List SlipPacket)
    (is : List H5Input) (hsmooth : Smooth fuel (xs.map SlipPacket.frame) is)
    (hcut : NoLongCut (xs.map SlipPacket.frame) (H5Input.chunks is)) (r : HciH5SlipCb) :
    (r.decodeFrames (received fuel is).slips).h5Pkts =
      r.h5Pkts ++ xs.map SlipPacket.packet := by
  have hframes : frames (xs.map SlipPacket.frame) = xs.map SlipPacket.encoded := by
    rw [frames, List.map_map]
    exact List.map_congr_left fun x _ => x.encode_frame
  rw [slips_received hfuel hsmooth hcut, hframes, h5Pkts_decodeFrames]

/-- Two packets, the second one encoded with flow control. -/
def examplePackets : List SlipPacket :=
  [⟨false, [0xC0, 0x11, 0xDB, 0x00], by decide, by decide, by decide⟩,
    ⟨true, [0x13, 0x11, 0xDB, 0x02, 0xC0], by decide, by decide, by decide⟩]

/-- Their bytes one by one, each handled before the next one comes. -/
def byteByByte : List H5Input :=
  (examplePackets.flatMap SlipPacket.encoded).flatMap fun b => [.uartRx [b], .rxHandler 1]

theorem wire_transparent_example :
    (slipInit.decodeFrames (received hciH5TrRxBufSize byteByByte).slips).h5Pkts =
      [[0xC0, 0x11, 0xDB, 0x00], [0x13, 0x11, 0xDB, 0x02, 0xC0]] :=
  wire_transparent (Nat.le_refl _) examplePackets byteByByte
    ⟨by decide +kernel, by decide +kernel, by decide +kernel, by decide +kernel⟩
    (by decide +kernel) slipInit

end TlBleSdk.Hci
