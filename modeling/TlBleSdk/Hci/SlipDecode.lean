import TlBleSdk.Hci.Slip
import Mathlib.Logic.Relation

/-!
# The SLIP decoder on any frame

The transport hands `HCI_Slip_DecodePacket` what lies between two delimiters, whatever that
is. Here the loop of the decoder is taken round by round: `SlipRound` holds its variables,
and `Reached` the values they go through. A round takes one byte or, behind an escape byte,
two; a delimiter behind an escape byte is no code, so the second one is never missing.

What the loop returns is `slipDecodeLoop`; whether it returns is a matter of the places of
the escape bytes.
-/

namespace TlBleSdk.Hci

/-! ## The rounds -/

/-- The variables of the loop of `HCI_Slip_DecodePacket`: the offset of `pBuf`, `len`, and the
`decodeLen` bytes of the decode buffer. -/
structure SlipRound where
  i : ℕ
  len : ℕ
  out : List UInt8

namespace SlipRound

/-- The variables before the first round. -/
def first (n : ℕ) : SlipRound := { i := 1, len := n - 2, out := [] }

/-- One round of the loop; `none` where the packet is discarded. -/
def next (p : ℕ → UInt8) (d : SlipRound) : Option SlipRound :=
  if p d.i = slipEscape then
    let unencoded := slipGetUnencoded (bytesToUint16 p d.i)
    if unencoded = slipInvalidUnencoded then none
    else if hciSlipDecodeBufSize < d.out.length + 1 then none
    else some { i := d.i + 2, len := u32Sub d.len 2, out := d.out ++ [unencoded] }
  else if hciSlipDecodeBufSize < d.out.length + 1 then none
  else some { i := d.i + 1, len := d.len - 1, out := d.out ++ [p d.i] }

/-- The offsets a round reads. -/
def reads (p : ℕ → UInt8) (d : SlipRound) : List ℕ :=
  if p d.i = slipEscape then [d.i, d.i + 1] else [d.i]

/-- The loop goes from one round into the next. -/
def Step (p : ℕ → UInt8) (d d' : SlipRound) : Prop := d.len ≠ 0 ∧ d.next p = some d'

/-- The values the variables go through for a packet of `n` bytes. -/
def Reached (p : ℕ → UInt8) (n : ℕ) (d : SlipRound) : Prop :=
  6 ≤ n ∧ Relation.ReflTransGen (Step p) (first n) d

end SlipRound

/-- `n` bytes with a delimiter at either end, as the transport hands them over. -/
structure IsSlipFrame (p : ℕ → UInt8) (n : ℕ) : Prop where
  pos : 0 < n
  lt : n < 4294967296
  first : p 0 = slipFlag
  last : p (n - 1) = slipFlag

/-- The bytes between the delimiters. -/
def slipBody (p : ℕ → UInt8) (n : ℕ) : List UInt8 := bytesAt p 1 (n - 2)

/-- Every `DB` starts one of the four escape pairs. -/
def SlipEscapesValid (bs : List UInt8) : Prop :=
  ∀ i, bs[i]? = some slipEscape →
    ∃ y, bs[i + 1]? = some y ∧ (y = 0xDC ∨ y = 0xDD ∨ y = 0xDE ∨ y = 0xDF)

/-- How many bytes the escape pairs leave. -/
def slipDecodedLen (bs : List UInt8) : ℕ := bs.length - bs.count slipEscape

/-! ## One round -/

/-- The codes behind an escape byte. -/
theorem isSome_slipUncode (y : UInt8) :
    (slipUncode y).isSome ↔ y = 0xDC ∨ y = 0xDD ∨ y = 0xDE ∨ y = 0xDF := by
  have h : ∀ n < 256, (slipUncode (UInt8.ofNat n)).isSome ↔ UInt8.ofNat n = 0xDC ∨
      UInt8.ofNat n = 0xDD ∨ UInt8.ofNat n = 0xDE ∨ UInt8.ofNat n = 0xDF := by
    decide +kernel
  have hy := h y.toNat y.toNat_lt
  rwa [UInt8.ofNat_toNat] at hy

/-- What a round that goes on does to the variables. -/
theorem SlipRound.next_cases {p : ℕ → UInt8} {d d' : SlipRound} (h : d.next p = some d') :
    d.out.length < hciSlipDecodeBufSize ∧
      (p d.i = slipEscape ∧ (∃ x, slipUncode (p (d.i + 1)) = some x ∧
          d' = ⟨d.i + 2, u32Sub d.len 2, d.out ++ [x]⟩) ∨
        p d.i ≠ slipEscape ∧ d' = ⟨d.i + 1, d.len - 1, d.out ++ [p d.i]⟩) := by
  unfold next at h
  by_cases hesc : p d.i = slipEscape
  · have hseq : bytesToUint16 p d.i = slipEscape.toNat + (p (d.i + 1)).toNat * 256 := by
      rw [bytesToUint16, hesc]
    simp only [if_pos hesc, hseq] at h
    split at h
    · cases h
    case isFalse hvalid =>
      split at h
      · cases h
      case isFalse hroom =>
        cases h
        refine ⟨by omega, .inl ⟨hesc, _, ?_, rfl⟩⟩
        simp only [slipUncode, if_neg hvalid]
  · rw [if_neg hesc] at h
    split at h
    · cases h
    case isFalse hroom =>
      cases h
      exact ⟨by omega, .inr ⟨hesc, rfl⟩⟩

/-- The loop of the decoder takes its rounds. -/
theorem slipDecodeLoop_eq_next {p : ℕ → UInt8} {room : ℕ} {d : SlipRound}
    (hroom : d.out.length + room = hciSlipDecodeBufSize) (hlen : d.len ≠ 0) :
    slipDecodeLoop p room d.len d.i d.out =
      (d.next p).bind fun d' => slipDecodeLoop p (room - 1) d'.len d'.i d'.out := by
  cases room with
  | zero =>
    have hfull : hciSlipDecodeBufSize < d.out.length + 1 := by omega
    rw [slipDecodeLoop, if_neg hlen, SlipRound.next]
    simp only [hfull, if_true]
    split
    · split <;> rfl
    · rfl
  | succ room =>
    have hfull : ¬ hciSlipDecodeBufSize < d.out.length + 1 := by omega
    rw [slipDecodeLoop, if_neg hlen, SlipRound.next, Nat.add_sub_cancel]
    simp only [hfull, if_false]
    split
    · split <;> rfl
    · rfl

/-! ## All rounds -/

section

variable {p : ℕ → UInt8} {n : ℕ}

/-- What holds in every round: `len` bytes are left before the closing delimiter, and
what was decoded fits the buffer. -/
structure SlipRound.Inv (n : ℕ) (d : SlipRound) : Prop where
  left : d.i + d.len = n - 1
  pos : 0 < d.i
  fits : d.out.length ≤ hciSlipDecodeBufSize

theorem SlipRound.inv_first (h6 : 6 ≤ n) : (first n).Inv n where
  left := by simp only [first]; omega
  pos := Nat.one_pos
  fits := Nat.zero_le _

/-- An escape sequence lies before the delimiter. -/
theorem SlipRound.Inv.two_le {d : SlipRound} (hd : d.Inv n) (hp : p (n - 1) = slipFlag)
    (hlen : d.len ≠ 0) {x : UInt8} (hx : slipUncode (p (d.i + 1)) = some x) : 2 ≤ d.len := by
  by_contra hlt
  have hlast : d.i + 1 = n - 1 := by
    have := hd.left
    omega
  rw [hlast, hp, slipUncode_slipFlag] at hx
  cases hx

/-- What a round takes off `len` it adds to `pBuf`. -/
theorem SlipRound.Inv.step {d d' : SlipRound} (hd : d.Inv n) (hp : p (n - 1) = slipFlag)
    (hn : n < 4294967296) (h : Step p d d') : d'.Inv n ∧ d'.len < d.len := by
  have hleft := hd.left
  have hlen := h.1
  obtain ⟨hroom, ⟨-, x, hx, rfl⟩ | ⟨-, rfl⟩⟩ := next_cases h.2
  · have htwo := hd.two_le hp hlen hx
    have hsub : u32Sub d.len 2 = d.len - 2 := u32Sub_of_le htwo (by omega)
    refine ⟨⟨?_, Nat.succ_pos _, ?_⟩, ?_⟩
    · simp only [hsub]
      omega
    · simpa [Nat.succ_le_iff] using hroom
    · simp only [hsub]
      omega
  · refine ⟨⟨?_, Nat.succ_pos _, ?_⟩, ?_⟩
    · simp only
      omega
    · simpa [Nat.succ_le_iff] using hroom
    · simp only
      omega

theorem SlipRound.Reached.inv {d : SlipRound} (hp : p (n - 1) = slipFlag) (hn : n < 4294967296)
    (h : Reached p n d) : d.Inv n := by
  obtain ⟨h6, hrun⟩ := h
  induction hrun with
  | refl => exact inv_first h6
  | tail _ hstep ih => exact (ih.step hp hn hstep).1

/-- The rounds that end with `len` at zero are those of a packet that is not discarded. -/
theorem slipDecodeLoop_eq_some_iff (hp : p (n - 1) = slipFlag) (hn : n < 4294967296)
    {out : List UInt8} {room : ℕ} {d : SlipRound} (hd : d.Inv n)
    (hroom : d.out.length + room = hciSlipDecodeBufSize) :
    slipDecodeLoop p room d.len d.i d.out = some out ↔
      ∃ i, Relation.ReflTransGen (SlipRound.Step p) d ⟨i, 0, out⟩ := by
  -- By induction on the bytes left, for the loop takes some in each round.
  induction hk : d.len using Nat.strong_induction_on generalizing d room with
  | _ k ih =>
  subst hk
  by_cases hlen : d.len = 0
  · rw [hlen, slipDecodeLoop_nil]
    constructor
    · rintro h
      cases h
      exact ⟨d.i, hlen ▸ .refl⟩
    · rintro ⟨i, hrun⟩
      rcases Relation.ReflTransGen.cases_head hrun with h | ⟨d', hstep, -⟩
      · rw [h]
      · exact absurd hlen hstep.1
  · rw [slipDecodeLoop_eq_next hroom hlen]
    cases hnext : d.next p with
    | none =>
      rw [Option.bind_none]
      constructor
      · intro h
        cases h
      · rintro ⟨i, hrun⟩
        rcases Relation.ReflTransGen.cases_head hrun with h | ⟨d', hstep, -⟩
        · rw [h] at hlen
          exact absurd rfl hlen
        · rw [hstep.2] at hnext
          cases hnext
    | some d' =>
      have hstep : SlipRound.Step p d d' := ⟨hlen, hnext⟩
      obtain ⟨hd', hlt⟩ := hd.step hp hn hstep
      have hroom' : d'.out.length + (room - 1) = hciSlipDecodeBufSize := by
        obtain ⟨hfree, ⟨-, x, -, rfl⟩ | ⟨-, rfl⟩⟩ := SlipRound.next_cases hnext <;>
          simp only [List.length_append, List.length_singleton] <;> omega
      rw [Option.bind_some, ih d'.len hlt hd' hroom' rfl]
      constructor
      · rintro ⟨i, hrun⟩
        exact ⟨i, .head hstep hrun⟩
      · rintro ⟨i, hrun⟩
        rcases Relation.ReflTransGen.cases_head hrun with h | ⟨d'', hstep', hrest⟩
        · rw [h] at hlen
          exact absurd rfl hlen
        · -- The rounds of one packet are determined.
          have heq : d'' = d' := Option.some.inj (hstep'.2.symm.trans hnext)
          exact ⟨i, heq ▸ hrest⟩

/-- `len` cannot go down for ever. -/
theorem SlipRound.exists_stop (hp : p (n - 1) = slipFlag) (hn : n < 4294967296)
    (f : ℕ → SlipRound) (h0 : Reached p n (f 0)) :
    ∃ k ≤ (f 0).len, ¬ Step p (f k) (f (k + 1)) := by
  by_contra hall
  push Not at hall
  have hdown : ∀ k ≤ (f 0).len + 1, Reached p n (f k) ∧ (f k).len + k ≤ (f 0).len := by
    intro k
    induction k with
    | zero => exact fun _ => ⟨h0, le_rfl⟩
    | succ k ih =>
      intro hk
      obtain ⟨⟨h6, hrun⟩, hle⟩ := ih (by omega)
      have hstep := hall k (by omega)
      have hlt := ((Reached.inv hp hn ⟨h6, hrun⟩).step hp hn hstep).2
      exact ⟨⟨h6, hrun.tail hstep⟩, by omega⟩
  have hlast := (hdown ((f 0).len + 1) le_rfl).2
  omega

end

/-! ## The body of a frame -/

section

variable {p : ℕ → UInt8} {n : ℕ}

/-- The escape byte is no code. -/
theorem uncode_esc : (slipEscapeCode false).uncode (slipEscapeCode false).esc = none := by decide

theorem slipEscapesValid_iff (bs : List UInt8) :
    SlipEscapesValid bs ↔ (slipEscapeCode false).Valid bs := by
  simp only [SlipEscapesValid, EscapeCode.Valid, slipEscapeCode, isSome_slipUncode]

@[simp] theorem length_slipBody : (slipBody p n).length = n - 2 := length_bytesAt _ _ _

/-- A frame is its body between the delimiters. -/
theorem IsSlipFrame.bytes_eq (h : IsSlipFrame p n) (h2 : 2 ≤ n) :
    bytes p ((slipBody p n).length + 2) = slipFlag :: slipBody p n ++ [slipFlag] := by
  obtain ⟨k, rfl⟩ : ∃ k, n = k + 2 := ⟨n - 2, by omega⟩
  have hlast : p (1 + k) = slipFlag := by
    rw [Nat.add_comm]
    exact h.last
  have hbody : slipBody p (k + 2) = bytesAt p 1 k := rfl
  have h0 : bytes p (k + 2) = bytesAt p 0 (k + 1 + 1) := by
    simp only [bytesAt, Nat.zero_add]
  have hsucc : bytesAt p 1 (k + 1) = bytesAt p 1 k ++ [p (1 + k)] := by
    simp only [bytesAt, bytes, List.range_succ, List.map_append, List.map_singleton]
  rw [length_slipBody, Nat.add_sub_cancel, h0, bytesAt_succ, h.first, hbody, Nat.zero_add, hsucc,
    hlast]
  rfl

/-- What the handler is given for a frame. -/
theorem IsSlipFrame.h5Pkts_eq (h : IsSlipFrame p n) (s : HciH5SlipCb) (h6 : 6 ≤ n) :
    (s.decodePacket p n).h5Pkts = s.h5Pkts ++
      (((slipEscapeCode false).unstuff (slipBody p n)).filter
        (·.length ≤ hciSlipDecodeBufSize)).toList := by
  have hlt := h.lt
  have hlen : (slipBody p n).length + 2 = n := by
    rw [length_slipBody]
    omega
  have hpkts := h5Pkts_decodePacket s false (h.bytes_eq (by omega))
    (by rw [length_slipBody]; omega) (by rw [length_slipBody]; omega)
  rwa [hlen] at hpkts

/-- The decoder accepts a body: each escape byte starts a pair, and the result fits. -/
theorem filter_unstuff_isSome_iff (bs : List UInt8) :
    (((slipEscapeCode false).unstuff bs).filter (·.length ≤ hciSlipDecodeBufSize)).isSome ↔
      SlipEscapesValid bs ∧ slipDecodedLen bs ≤ hciSlipDecodeBufSize := by
  have hvalid := EscapeCode.isSome_unstuff_iff uncode_esc bs
  rw [slipEscapesValid_iff, ← hvalid]
  cases hm : (slipEscapeCode false).unstuff bs with
  | none => simp [Option.filter]
  | some m =>
    have hlen := EscapeCode.length_of_unstuff uncode_esc hm
    have hdec : slipDecodedLen bs = m.length := by
      unfold slipDecodedLen
      simp only [slipEscapeCode] at hlen
      omega
    rw [hdec]
    by_cases hfits : m.length ≤ hciSlipDecodeBufSize <;> simp [Option.filter, hfits]

/-! ## Any frame -/

/-- What is wanted of the decoder on the packet of `n` bytes at `p`, where the handler is to
be called for the bodies that `accepts` tells. -/
structure SlipDecodeSafe (accepts : List UInt8 → Prop) (s : HciH5SlipCb) (p : ℕ → UInt8)
    (n : ℕ) : Prop where
  /-- No succession of rounds goes on for ever. -/
  terminates : ∀ f : ℕ → SlipRound, SlipRound.Reached p n (f 0) →
    ∃ k, ¬ SlipRound.Step p (f k) (f (k + 1))
  /-- A round reads nothing behind the closing delimiter. -/
  reads : ∀ d, SlipRound.Reached p n d → d.len ≠ 0 → ∀ a ∈ d.reads p, a ≤ n - 1
  /-- What `len` loses is what `pBuf` passes. -/
  no_wrap : ∀ d d', SlipRound.Reached p n d → SlipRound.Step p d d' →
    d'.len + (d'.i - d.i) = d.len ∧ d.i < d'.i
  decodeLen_le : ∀ d, SlipRound.Reached p n d → d.out.length ≤ hciSlipDecodeBufSize
  /-- The handler is called at most once, with what the last round leaves, -/
  once : (s.decodePacket p n).h5Pkts = s.h5Pkts ∨ ∃ i out, SlipRound.Reached p n ⟨i, 0, out⟩ ∧
    (s.decodePacket p n).h5Pkts = s.h5Pkts ++ [out]
  /-- and it is called for the frames that are to be accepted. -/
  handler : (s.decodePacket p n).h5Pkts ≠ s.h5Pkts ↔ accepts (slipBody p n)

/-- The bodies the decoder takes: it has a guard for those of less than four bytes. -/
def SlipAccepts (bs : List UInt8) : Prop :=
  4 ≤ bs.length ∧ SlipEscapesValid bs ∧ slipDecodedLen bs ≤ hciSlipDecodeBufSize

theorem IsSlipFrame.handler_iff (h : IsSlipFrame p n) (s : HciH5SlipCb) :
    (s.decodePacket p n).h5Pkts ≠ s.h5Pkts ↔ SlipAccepts (slipBody p n) := by
  by_cases h6 : 6 ≤ n
  · have h4 : 4 ≤ (slipBody p n).length := by
      rw [length_slipBody]
      omega
    rw [h.h5Pkts_eq s h6, SlipAccepts, ← filter_unstuff_isSome_iff, and_iff_right h4]
    cases ((slipEscapeCode false).unstuff (slipBody p n)).filter
      (·.length ≤ hciSlipDecodeBufSize) <;> simp
  · have hsame : s.decodePacket p n = s := by rw [HciH5SlipCb.decodePacket, if_pos (by omega)]
    have h4 : ¬ 4 ≤ (slipBody p n).length := by
      rw [length_slipBody]
      omega
    simp only [hsame, SlipAccepts, h4, ne_eq, not_true_eq_false, false_and]

theorem IsSlipFrame.once (h : IsSlipFrame p n) (s : HciH5SlipCb) :
    (s.decodePacket p n).h5Pkts = s.h5Pkts ∨ ∃ i out, SlipRound.Reached p n ⟨i, 0, out⟩ ∧
      (s.decodePacket p n).h5Pkts = s.h5Pkts ++ [out] := by
  by_cases h6 : 6 ≤ n
  · rw [HciH5SlipCb.decodePacket, if_neg (by omega)]
    cases hout : slipDecodeLoop p hciSlipDecodeBufSize (n - 2) 1 [] with
    | none => exact .inl rfl
    | some out =>
      obtain ⟨i, hrun⟩ := (slipDecodeLoop_eq_some_iff h.last h.lt (SlipRound.inv_first h6)
        (Nat.zero_add _)).mp hout
      exact .inr ⟨i, out, ⟨h6, hrun⟩, rfl⟩
  · rw [HciH5SlipCb.decodePacket, if_pos (by omega)]
    exact .inl rfl

/-- On every frame the decoder keeps to the frame and to its buffer, and the handler is
called for the bodies of four bytes and more whose escape pairs are valid and whose decoded
bytes fit. -/
theorem slipDecodeSafe (s : HciH5SlipCb) (p : ℕ → UInt8) (n : ℕ) (h : IsSlipFrame p n) :
    SlipDecodeSafe SlipAccepts s p n where
  terminates f h0 := by
    obtain ⟨k, -, hk⟩ := SlipRound.exists_stop h.last h.lt f h0
    exact ⟨k, hk⟩
  reads d hd hlen a ha := by
    have hleft := (hd.inv h.last h.lt).left
    unfold SlipRound.reads at ha
    split at ha <;> simp only [List.mem_cons, List.not_mem_nil, or_false] at ha <;> omega
  no_wrap d d' hd hstep := by
    have hinv := hd.inv h.last h.lt
    have hleft := hinv.left
    obtain ⟨hinv', hlt⟩ := hinv.step h.last h.lt hstep
    have hleft' := hinv'.left
    omega
  decodeLen_le d hd := (hd.inv h.last h.lt).fits
  once := h.once s
  handler := h.handler_iff s

theorem slipDecodeSafe_example :
    IsSlipFrame (mem [0xC0, 0x00, 0xDB, 0xDC, 0x0F, 0xDB, 0xC0]) 7 ∧
      SlipDecodeSafe SlipAccepts slipInit (mem [0xC0, 0x00, 0xDB, 0xDC, 0x0F, 0xDB, 0xC0]) 7 :=
  have h : IsSlipFrame (mem [0xC0, 0x00, 0xDB, 0xDC, 0x0F, 0xDB, 0xC0]) 7 :=
    ⟨by decide, by decide, rfl, rfl⟩
  ⟨h, slipDecodeSafe slipInit _ 7 h⟩

/-- A body of one byte is valid and fits, but the decoder does not look at it. -/
theorem not_slipDecodeSafe_short :
    ¬ ∀ (s : HciH5SlipCb) (p : ℕ → UInt8) (n : ℕ), IsSlipFrame p n →
      SlipDecodeSafe
        (fun bs => SlipEscapesValid bs ∧ slipDecodedLen bs ≤ hciSlipDecodeBufSize) s p n := by
  intro h
  have hframe : IsSlipFrame (mem [0xC0, 0x01, 0xC0]) 3 := ⟨by decide, by decide, rfl, rfl⟩
  have hbody : slipBody (mem [0xC0, 0x01, 0xC0]) 3 = [0x01] := by decide
  have hvalid : SlipEscapesValid [0x01] := by
    rw [slipEscapesValid_iff, EscapeCode.valid_cons_of_ne (by decide)]
    exact EscapeCode.valid_nil
  refine (h slipInit _ 3 hframe).handler.mpr ?_ (by decide)
  rw [hbody]
  exact ⟨hvalid, by decide⟩

end

end TlBleSdk.Hci
