import TlBleSdk.Hci.TrH5
import TlBleSdk.Lib.Escape

/-!
# The SLIP layer of H5

The encoder and the decoder of `hci_slip.c`. The decoder reads the frame through a pointer,
so it works on a memory; it stops where its buffer is full, where it does not know an
escape sequence, and where the 32-bit length it counts down is zero. The assertions are
empty in this build, so a frame that is longer than the encode buffer is written behind it.

The codes are those of `Escape`, with the decoder's table for all four symbols and the
encoder's for those of the mode.
-/

namespace TlBleSdk.Hci

/-- `MEM_SIZE_ALIGN4`. -/
def memSizeAlign4 (x : ℕ) : ℕ := (x + 3) / 4 * 4

/-- `HCI_H5_TX_BUF_SIZE`. -/
def hciH5TxBufSize : ℕ := memSizeAlign4 (hciH5HeadLen + hciTrTxBufSize + hciH5CrcLen)

/-- `HCI_SLIP_DECODE_BUF_SIZE`. -/
def hciSlipDecodeBufSize : ℕ := memSizeAlign4 (hciH5HeadLen + hciTrRxBufSize + hciH5CrcLen)

/-- `HCI_SLIP_ENCODE_BUF_SIZE`. -/
def hciSlipEncodeBufSize : ℕ :=
  memSizeAlign4 (2 + (hciH5HeadLen + hciTrTxBufSize + hciH5CrcLen) * 2)

/-- `SLIP_INVALID_UNENCODED`. -/
def slipInvalidUnencoded : UInt8 := 0x00

/-- `SLIP_INVALID_ESCAPE`. -/
def slipInvalidEscape : ℕ := 0x0000

/-- `SLIP_ESCAPE`. -/
def slipEscape : UInt8 := 0xDB

/-- `slipEscapeTbl`: the escape sequences with the bytes they stand for. -/
def slipEscapeTbl : List (ℕ × UInt8) :=
  [(0xDCDB, 0xC0), (0xDDDB, 0xDB), (0xDEDB, 0x11), (0xDFDB, 0x13)]

/-- `HCI_Slip_GetUnencoded`. -/
def slipGetUnencoded (escapeSeq : ℕ) : UInt8 :=
  match slipEscapeTbl.find? fun e => escapeSeq = e.1 with
  | some e => e.2
  | none => slipInvalidUnencoded

/-- `HCI_SLip_GetEscapeCode`. -/
def slipGetEscapeCode (unencoded : UInt8) : ℕ :=
  match slipEscapeTbl.find? fun e => unencoded = e.2 with
  | some e => e.1
  | none => slipInvalidEscape

/-- `HciH5SlipCb_t`: the mode, the `encodeLen` bytes behind the DMA length in the encode
buffer, and, as history, the packets given to the H5 handler. -/
structure HciH5SlipCb where
  oofEnable : Bool
  encodeBuf : List UInt8
  h5Pkts : List (List UInt8)

/-- `HCI_Slip_Init`. -/
def slipInit : HciH5SlipCb := { oofEnable := false, encodeBuf := [], h5Pkts := [] }

/-- `HCI_SLip_SetFlowCtrlEnable`. -/
def HciH5SlipCb.setFlowCtrlEnable (s : HciH5SlipCb) (enable : Bool) : HciH5SlipCb :=
  { s with oofEnable := enable }

/-- One round of the loop of `HCI_Slip_EncodePacket`: what it puts out for a byte. -/
def slipEncodeByte (oofEnable : Bool) (x : UInt8) : List UInt8 :=
  if x = 0xC0 ∨ x = 0xDB ∨ x = 0x11 ∨ x = 0x13 then
    if !oofEnable ∧ (x = 0x11 ∨ x = 0x13) then [x]
    else uint16ToBstream (slipGetEscapeCode x)
  else [x]

/-- `HCI_Slip_EncodePacket`. -/
def HciH5SlipCb.encodePacket (s : HciH5SlipCb) (p : List UInt8) : HciH5SlipCb :=
  { s with encodeBuf := slipFlag :: p.flatMap (slipEncodeByte s.oofEnable) ++ [slipFlag] }

/-- The loop of `HCI_Slip_DecodePacket`, at the offset `i` of the memory `p`, with `room`
bytes left in the decode buffer behind `out`; `none` where the packet is discarded. -/
def slipDecodeLoop (p : ℕ → UInt8) : ℕ → ℕ → ℕ → List UInt8 → Option (List UInt8)
  | 0, len, _, out => if len = 0 then some out else none
  | room + 1, len, i, out =>
    if len = 0 then some out
    else if p i = slipEscape then
      let unencoded := slipGetUnencoded (bytesToUint16 p i)
      if unencoded = slipInvalidUnencoded then none
      else slipDecodeLoop p room (u32Sub len 2) (i + 2) (out ++ [unencoded])
    else slipDecodeLoop p room (len - 1) (i + 1) (out ++ [p i])

/-- `HCI_Slip_DecodePacket`. -/
def HciH5SlipCb.decodePacket (s : HciH5SlipCb) (p : ℕ → UInt8) (len : ℕ) : HciH5SlipCb :=
  if len < 6 then s
  else
    match slipDecodeLoop p hciSlipDecodeBufSize (len - 2) 1 [] with
    | some out => { s with h5Pkts := s.h5Pkts ++ [out] }
    | none => s

/-! ## The codes -/

/-- The bytes that the encoder replaces. -/
def slipEscaped (oofEnable : Bool) (x : UInt8) : Bool :=
  x = 0xC0 ∨ x = 0xDB ∨ oofEnable ∧ (x = 0x11 ∨ x = 0x13)

/-- The byte the decoder takes `DB y` for. -/
def slipUncode (y : UInt8) : Option UInt8 :=
  let unencoded := slipGetUnencoded (slipEscape.toNat + y.toNat * 256)
  if unencoded = slipInvalidUnencoded then none else some unencoded

/-- The byte behind `DB` in what the encoder puts out for `x`. -/
def slipCode (oofEnable : Bool) (x : UInt8) : Option UInt8 :=
  if slipEscaped oofEnable x then some (UInt8.ofNat (slipGetEscapeCode x / 256)) else none

theorem slipEscaped_cases {oofEnable : Bool} {x : UInt8} (h : slipEscaped oofEnable x) :
    x = 0xC0 ∨ x = 0xDB ∨ x = 0x11 ∨ x = 0x13 := by
  unfold slipEscaped at h
  simp only [decide_eq_true_eq] at h
  tauto

theorem slipUncode_slipCode {oofEnable : Bool} {x y : UInt8} (h : slipCode oofEnable x = some y) :
    slipUncode y = some x := by
  unfold slipCode at h
  split at h
  case isTrue hx =>
    cases h
    rcases slipEscaped_cases hx with rfl | rfl | rfl | rfl <;> decide
  case isFalse => cases h

/-- The escape code of `hci_slip.c`. -/
def slipEscapeCode (oofEnable : Bool) : EscapeCode UInt8 where
  esc := slipEscape
  code := slipCode oofEnable
  uncode := slipUncode
  code_esc := by cases oofEnable <;> decide
  uncode_code := slipUncode_slipCode

/-- A byte that the encoder does not replace. -/
theorem slipCode_eq_none {oofEnable : Bool} {x : UInt8} :
    slipCode oofEnable x = none ↔ slipEscaped oofEnable x = false := by
  unfold slipCode
  split <;> simp_all

theorem isSome_slipCode (oofEnable : Bool) (x : UInt8) :
    (slipCode oofEnable x).isSome = slipEscaped oofEnable x := by
  unfold slipCode
  split <;> simp_all

/-- The loop of the encoder stuffs. -/
theorem slipEncodeByte_eq (oofEnable : Bool) (x : UInt8) :
    slipEncodeByte oofEnable x = (slipEscapeCode oofEnable).stuffOne x := by
  by_cases h : x = 0xC0 ∨ x = 0xDB ∨ x = 0x11 ∨ x = 0x13
  · rcases h with rfl | rfl | rfl | rfl <;> cases oofEnable <;> decide
  · have hnone : slipCode oofEnable x = none := by
      rw [slipCode_eq_none]
      exact Bool.eq_false_iff.mpr fun hx => h (slipEscaped_cases hx)
    rw [EscapeCode.stuffOne_of_none (c := slipEscapeCode oofEnable) hnone, slipEncodeByte,
      if_neg h]

theorem encodeBuf_encodePacket (s : HciH5SlipCb) (p : List UInt8) :
    (s.encodePacket p).encodeBuf =
      slipFlag :: (slipEscapeCode s.oofEnable).stuff p ++ [slipFlag] := by
  have h : slipEncodeByte s.oofEnable = (slipEscapeCode s.oofEnable).stuffOne :=
    funext (slipEncodeByte_eq s.oofEnable)
  simp only [HciH5SlipCb.encodePacket, EscapeCode.stuff, h]

/-- The length of a frame. -/
theorem length_encodePacket (s : HciH5SlipCb) (p : List UInt8) :
    (s.encodePacket p).encodeBuf.length = p.length + p.countP (slipEscaped s.oofEnable) + 2 := by
  have hcount : (fun x => ((slipEscapeCode s.oofEnable).code x).isSome) =
      slipEscaped s.oofEnable := funext (isSome_slipCode s.oofEnable)
  rw [encodeBuf_encodePacket, List.length_append, List.length_cons, EscapeCode.length_stuff,
    hcount]
  simp only [List.length_singleton]

/-! ## The decoder -/

theorem slipDecodeLoop_nil (p : ℕ → UInt8) (room i : ℕ) (out : List UInt8) :
    slipDecodeLoop p room 0 i out = some out := by
  cases room <;> rfl

theorem slipDecodeLoop_full (p : ℕ → UInt8) (len i : ℕ) (out : List UInt8) :
    slipDecodeLoop p 0 (len + 1) i out = none := rfl

/-- An escape sequence in the loop. -/
theorem slipDecodeLoop_escape {p : ℕ → UInt8} {i : ℕ} (h : p i = slipEscape)
    (room len : ℕ) (out : List UInt8) :
    slipDecodeLoop p (room + 1) (len + 1) i out =
      (slipUncode (p (i + 1))).bind fun x =>
        slipDecodeLoop p room (u32Sub (len + 1) 2) (i + 2) (out ++ [x]) := by
  rw [slipDecodeLoop, if_neg (Nat.succ_ne_zero len), if_pos h]
  have hseq : bytesToUint16 p i = slipEscape.toNat + (p (i + 1)).toNat * 256 := by
    rw [bytesToUint16, h]
  simp only [hseq, slipUncode]
  split <;> rfl

/-- Any other byte in the loop. -/
theorem slipDecodeLoop_plain {p : ℕ → UInt8} {i : ℕ} (h : p i ≠ slipEscape)
    (room len : ℕ) (out : List UInt8) :
    slipDecodeLoop p (room + 1) (len + 1) i out =
      slipDecodeLoop p room len (i + 1) (out ++ [p i]) := by
  rw [slipDecodeLoop, if_neg (Nat.succ_ne_zero len), if_neg h, Nat.add_sub_cancel]

/-- A delimiter behind the escape byte is no code. -/
theorem slipUncode_slipFlag : slipUncode slipFlag = none := by decide

/-- Putting a byte before what is limited to `room` bytes. -/
theorem filter_map_cons (o : Option (List UInt8)) (x : UInt8) (room : ℕ) (out : List UInt8) :
    ((o.map (x :: ·)).filter (·.length ≤ room + 1)).map (out ++ ·) =
      (o.filter (·.length ≤ room)).map (out ++ [x] ++ ·) := by
  cases o with
  | none => rfl
  | some l => by_cases h : l.length ≤ room <;> simp [Option.filter, h]

theorem filter_map_cons_zero (o : Option (List UInt8)) (x : UInt8) :
    (o.map (x :: ·)).filter (·.length ≤ 0) = none := by
  cases o <;> simp [Option.filter]

/-- Where `bs` lies in the memory before a delimiter, the loop undoes its stuffing, if the
result has room in the buffer. -/
def SlipDecodes (oofEnable : Bool) (p : ℕ → UInt8) (bs : List UInt8) : Prop :=
  ∀ i room out, bytesAt p i (bs.length + 1) = bs ++ [slipFlag] →
    slipDecodeLoop p room bs.length i out =
      (((slipEscapeCode oofEnable).unstuff bs).filter (·.length ≤ room)).map (out ++ ·)

section

variable {oofEnable : Bool} {p : ℕ → UInt8}

theorem slipDecodes_nil : SlipDecodes oofEnable p [] := by
  intro i room out _
  simp [slipDecodeLoop_nil, EscapeCode.unstuff, Option.filter]

/-- An escape byte before the delimiter makes an unknown sequence. -/
theorem slipDecodes_escape_last : SlipDecodes oofEnable p [slipEscape] := by
  intro i room out hmem
  have hnone : (slipEscapeCode oofEnable).unstuff [slipEscape] = none := if_pos rfl
  rw [List.length_singleton, bytesAt_succ, bytesAt_succ, List.singleton_append] at hmem
  obtain ⟨h0, h1⟩ := List.cons_eq_cons.mp hmem
  obtain ⟨h1, -⟩ := List.cons_eq_cons.mp h1
  rw [hnone, List.length_singleton]
  cases room with
  | zero => rfl
  | succ room =>
    rw [slipDecodeLoop_escape h0, h1, slipUncode_slipFlag]
    rfl

theorem slipDecodes_escape {y : UInt8} {l : List UInt8} (hl : l.length + 2 < 4294967296)
    (ih : SlipDecodes oofEnable p l) : SlipDecodes oofEnable p (slipEscape :: y :: l) := by
  intro i room out hmem
  have hunstuff : (slipEscapeCode oofEnable).unstuff (slipEscape :: y :: l) =
      (slipUncode y).bind fun z => ((slipEscapeCode oofEnable).unstuff l).map (z :: ·) :=
    if_pos rfl
  rw [List.length_cons, List.length_cons, bytesAt_succ, bytesAt_succ, List.cons_append,
    List.cons_append] at hmem
  obtain ⟨h0, hmem⟩ := List.cons_eq_cons.mp hmem
  obtain ⟨h1, hmem⟩ := List.cons_eq_cons.mp hmem
  rw [hunstuff, List.length_cons, List.length_cons]
  cases room with
  -- A full buffer drops the packet, whatever the sequence means.
  | zero =>
    rw [slipDecodeLoop_full]
    cases slipUncode y with
    | none => rfl
    | some z => rw [Option.bind_some, filter_map_cons_zero, Option.map_none]
  | succ room =>
    have hlen : u32Sub (l.length + 1 + 1) 2 = l.length :=
      u32Sub_of_le (Nat.le_add_left 2 _) hl
    rw [slipDecodeLoop_escape h0, h1, hlen]
    cases slipUncode y with
    | none => rfl
    | some z => rw [Option.bind_some, Option.bind_some, filter_map_cons, ih _ _ _ hmem]

theorem slipDecodes_plain {x : UInt8} {l : List UInt8} (hx : x ≠ slipEscape)
    (ih : SlipDecodes oofEnable p l) : SlipDecodes oofEnable p (x :: l) := by
  intro i room out hmem
  rw [List.length_cons, bytesAt_succ, List.cons_append] at hmem
  obtain ⟨rfl, htail⟩ := List.cons_eq_cons.mp hmem
  rw [EscapeCode.unstuff_cons_of_ne (c := slipEscapeCode oofEnable) hx, List.length_cons]
  cases room with
  | zero => rw [slipDecodeLoop_full, filter_map_cons_zero, Option.map_none]
  | succ room => rw [slipDecodeLoop_plain hx, filter_map_cons, ih _ _ _ htail]

/-- The decoder undoes the stuffing of what lies between two delimiters. It does so for the
codes of either mode. -/
theorem slipDecodes (bs : List UInt8) (hlen : bs.length < 4294967296) :
    SlipDecodes oofEnable p bs := by
  -- The decoder takes the bytes as `unstuff` does: one, or two behind an escape byte.
  induction bs using EscapeCode.unstuff.induct (c := slipEscapeCode oofEnable) with
  | case1 => exact slipDecodes_nil
  | case2 => exact slipDecodes_escape_last
  | case3 x hx => exact slipDecodes_plain hx slipDecodes_nil
  | case4 y l ih =>
    simp only [List.length_cons] at hlen
    exact slipDecodes_escape hlen (ih (by omega))
  | case5 x y l hx ih =>
    rw [List.length_cons] at hlen
    exact slipDecodes_plain hx (ih (by omega))

end

/-- What `HCI_Slip_DecodePacket` makes of a frame: of the bytes between the delimiters it
undoes the stuffing, and the H5 handler is called once with the result. -/
theorem h5Pkts_decodePacket (s : HciH5SlipCb) (oofEnable : Bool) {p : ℕ → UInt8}
    {bs : List UInt8} (hp : bytes p (bs.length + 2) = slipFlag :: bs ++ [slipFlag])
    (h4 : 4 ≤ bs.length) (hlen : bs.length < 4294967296) :
    (s.decodePacket p (bs.length + 2)).h5Pkts = s.h5Pkts ++
      (((slipEscapeCode oofEnable).unstuff bs).filter
        (·.length ≤ hciSlipDecodeBufSize)).toList := by
  have hmem : bytesAt p 1 (bs.length + 1) = bs ++ [slipFlag] := by
    have h0 : bytesAt p 0 (bs.length + 1 + 1) = slipFlag :: bs ++ [slipFlag] := by
      simpa only [bytesAt, Nat.zero_add] using hp
    rw [bytesAt_succ, List.cons_append] at h0
    exact (List.cons_eq_cons.mp h0).2
  rw [HciH5SlipCb.decodePacket, if_neg (by omega), Nat.add_sub_cancel,
    slipDecodes bs hlen 1 _ [] hmem]
  cases ((slipEscapeCode oofEnable).unstuff bs).filter (·.length ≤ hciSlipDecodeBufSize) with
  | none => exact (List.append_nil _).symm
  | some l => rfl

/-! ## The round trip -/

/-- What is wanted of the frame for the packet `p`. -/
structure SlipRoundTrip (s : HciH5SlipCb) (p : List UInt8) : Prop where
  /-- The frame lies between two delimiters and has none inside. -/
  delimited : ∃ bs, (s.encodePacket p).encodeBuf = slipFlag :: bs ++ [slipFlag] ∧
    slipFlag ∉ bs
  /-- With software flow control it has no flow control characters. -/
  flowCtrl : s.oofEnable → 0x11 ∉ (s.encodePacket p).encodeBuf ∧
    0x13 ∉ (s.encodePacket p).encodeBuf
  length_le : (s.encodePacket p).encodeBuf.length ≤ 2 * p.length + 2
  fits : (s.encodePacket p).encodeBuf.length ≤ hciSlipEncodeBufSize
  /-- Every receiver that has the frame in its memory takes `p` out of it, once. -/
  decodes : ∀ (r : HciH5SlipCb) (m : ℕ → UInt8) (n : ℕ),
    bytes m n = (s.encodePacket p).encodeBuf →
      (r.decodePacket m n).h5Pkts = r.h5Pkts ++ [p]

/-- No replaced byte is a code. -/
theorem slipUncode_of_escaped {oofEnable : Bool} {x : UInt8} (h : slipEscaped oofEnable x) :
    slipUncode x = none := by
  rcases slipEscaped_cases h with rfl | rfl | rfl | rfl <;> decide

/-- Of the replaced bytes only the escape byte is on the wire. -/
theorem not_mem_stuff_of_escaped {oofEnable : Bool} {x : UInt8} (h : slipEscaped oofEnable x)
    (hx : x ≠ slipEscape) (p : List UInt8) : x ∉ (slipEscapeCode oofEnable).stuff p := by
  intro hmem
  rcases EscapeCode.mem_stuff hmem with hnone | rfl | ⟨z, hz⟩
  · rw [slipCode_eq_none.mp hnone] at h
    cases h
  · exact hx rfl
  · have hun := slipUncode_slipCode hz
    rw [slipUncode_of_escaped h] at hun
    cases hun

/-- A receiver takes the packet out of its frame. -/
theorem h5Pkts_decodePacket_encode (r : HciH5SlipCb) (oofEnable : Bool) {p : List UInt8}
    (h4 : 4 ≤ p.length) (hp : p.length ≤ hciSlipDecodeBufSize) {m : ℕ → UInt8} {n : ℕ}
    (hm : bytes m n = slipFlag :: (slipEscapeCode oofEnable).stuff p ++ [slipFlag]) :
    (r.decodePacket m n).h5Pkts = r.h5Pkts ++ [p] := by
  have hn : n = ((slipEscapeCode oofEnable).stuff p).length + 2 := by
    have := congrArg List.length hm
    simpa using this
  have hsize : hciSlipDecodeBufSize = 308 := by decide
  have hlen := EscapeCode.length_stuff (c := slipEscapeCode oofEnable) p
  have hcount := List.countP_le_length
    (p := fun x => ((slipEscapeCode oofEnable).code x).isSome) (l := p)
  subst hn
  rw [h5Pkts_decodePacket r oofEnable hm (by omega) (by omega), EscapeCode.unstuff_stuff]
  simp [Option.filter, hp]

/-- The frame for a packet of an admissible length is as wanted, up to its length. -/
theorem slipRoundTrip_of_le (s : HciH5SlipCb) {p : List UInt8} (h4 : 4 ≤ p.length)
    (hp : p.length ≤ hciH5TxBufSize)
    (hfits : p.length + p.countP (slipEscaped s.oofEnable) + 2 ≤ hciSlipEncodeBufSize) :
    SlipRoundTrip s p where
  delimited := ⟨_, encodeBuf_encodePacket s p,
    not_mem_stuff_of_escaped (by cases s.oofEnable <;> decide) (by decide) p⟩
  flowCtrl hoof := by
    -- With flow control XON and XOFF are escaped too.
    rw [encodeBuf_encodePacket, hoof]
    have h11 : 0x11 ∉ (slipEscapeCode true).stuff p :=
      not_mem_stuff_of_escaped (by decide) (by decide) p
    have h13 : 0x13 ∉ (slipEscapeCode true).stuff p :=
      not_mem_stuff_of_escaped (by decide) (by decide) p
    simp [h11, h13, slipFlag]
  length_le := by
    have hcount := List.countP_le_length (p := slipEscaped s.oofEnable) (l := p)
    rw [length_encodePacket]
    omega
  fits := by rwa [length_encodePacket]
  decodes r m n hm :=
    h5Pkts_decodePacket_encode r s.oofEnable h4 hp (hm.trans (encodeBuf_encodePacket s p))

/-- The encode buffer is laid out for 306 bytes, of which each may be replaced; the packet
buffer of H5 has 308. The round trip works as wanted for a packet exactly if the bytes
replaced in it leave its frame within the encode buffer. -/
theorem slipRoundTrip_iff (s : HciH5SlipCb) (p : List UInt8) (h4 : 4 ≤ p.length)
    (hp : p.length ≤ hciH5TxBufSize) :
    SlipRoundTrip s p ↔
      p.length + p.countP (slipEscaped s.oofEnable) + 2 ≤ hciSlipEncodeBufSize :=
  ⟨fun h => length_encodePacket s p ▸ h.fits, slipRoundTrip_of_le s h4 hp⟩

theorem slipRoundTrip_iff_four :
    SlipRoundTrip (slipInit.setFlowCtrlEnable true) [0xC0, 0xDB, 0x11, 0x13] ↔
      4 + 4 + 2 ≤ hciSlipEncodeBufSize :=
  slipRoundTrip_iff (slipInit.setFlowCtrlEnable true) [0xC0, 0xDB, 0x11, 0x13] (by decide)
    (by decide)

/-- A packet of 308 bytes `C0` makes a frame of 618 bytes. -/
theorem not_slipRoundTrip_full :
    ¬ ∀ (s : HciH5SlipCb) (p : List UInt8), 4 ≤ p.length → p.length ≤ hciH5TxBufSize →
      SlipRoundTrip s p := by
  intro h
  have hlen : (List.replicate 308 (0xC0 : UInt8)).length = 308 := List.length_replicate
  have hsize : hciH5TxBufSize = 308 := by decide
  have hfits := (h slipInit (List.replicate 308 0xC0) (by omega) (by omega)).fits
  have hcount : (List.replicate 308 (0xC0 : UInt8)).countP (slipEscaped slipInit.oofEnable) =
      308 := by
    rw [List.countP_replicate, if_pos (by decide)]
  rw [length_encodePacket, hlen, hcount] at hfits
  exact absurd hfits (by decide)

end TlBleSdk.Hci
