import TlBleSdk.Hci.TrH4Packets

/-!
# One chunk of an H4 stream

What the loop of `HCI_Tr_H4RxHandler` makes of a chunk, for the packets that are still
expected, the first of them begun in the backup buffer (`rxLoop_handles`).
-/

namespace TlBleSdk.Hci
namespace HciH4TrCb

open Framing

variable {s s' : HciH4TrCb} {b c l : List UInt8} {p : H4Packet} {ps : List H4Packet}
  {fuel : ℕ}

/-- The slots of the HCI RX FIFO that are free. -/
def free (s : HciH4TrCb) : ℕ := s.pHciRxFifo.num - s.pHciRxFifo.used

/-- What the loop makes of bytes of which `qs` are the frames, the first of them begun by
the `n₀` bytes in the backup buffer: all of it, when the packets completed fit the HCI RX
FIFO; otherwise it puts as many as fit and returns. -/
def Handles (s : HciH4TrCb) (qs : List (List UInt8)) (n : ℕ) (r : Option (Bool × HciH4TrCb)) :
    Prop :=
  ∃ s', (completed qs n ≤ s.free ∧ r = some (true, s') ∧
      Took s s' (qs.take (completed qs n)) (leftover qs n)) ∨
    (s.free < completed qs n ∧ r = some (false, s') ∧ Took s s' (qs.take s.free) [])

theorem handles_of_lt {qs : List (List UInt8)} {q : List UInt8} {n : ℕ}
    {r : Option (Bool × HciH4TrCb)}
    (hn : n < q.length) (hr : r = some (true, s')) (htook : Took s s' [] (q.take n)) :
    Handles s (q :: qs) n r := by
  refine ⟨s', Or.inl ?_⟩
  rw [completed_of_lt hn, leftover_of_lt hn]
  exact ⟨Nat.zero_le _, hr, htook⟩

/-- Behind the first packet. -/
theorem Handles.cons {s₁ : HciH4TrCb} {q : List UInt8} {qs : List (List UInt8)} {n : ℕ}
    {r : Option (Bool × HciH4TrCb)} (htook : Took s s₁ [q] []) (hfree : 0 < s.free)
    (h : Handles s₁ qs n r) : Handles s (q :: qs) (q.length + n) r := by
  have hfree₁ : s₁.free + 1 = s.free := by
    unfold free at hfree ⊢
    rw [htook.fifo]
    show s.pHciRxFifo.num - (s.pHciRxFifo.push q).used + 1 = _
    rw [HciFifo.used_push (by omega)]
    omega
  unfold Handles
  rw [completed_add, leftover_add]
  obtain ⟨s', ⟨hle, heq, htook'⟩ | ⟨hlt, heq, htook'⟩⟩ := h
  · exact ⟨s', Or.inl ⟨by omega, heq, htook.trans htook'⟩⟩
  · refine ⟨s', Or.inr ⟨by omega, heq, ?_⟩⟩
    rw [← hfree₁]
    exact htook.trans htook'

theorem rxLoop_done (s : HciH4TrCb) (l : List UInt8) : rxLoop (fuel + 1) l 0 s = some (true, s) :=
  rfl

theorem rxLoop_turn {len : ℕ} (hlen : len ≠ 0) : rxLoop (fuel + 1) l len s =
    match s.rxTurn l len with
    | .next s l len => rxLoop fuel l len s
    | .full s => some (false, s) := by
  exact if_neg hlen

theorem rxTurn_direct (h : s.Backs []) (len : ℕ) : s.rxTurn l len = s.rxSwitch l len := by
  rw [rxTurn, h.cnt, if_neg (fun h => h rfl)]

theorem Took.refl (h : s.Backs b) : Took s s [] b := ⟨rfl, (List.append_nil _).symm, h, rfl⟩

theorem took_putPacket (h : s.Backs []) (l : List UInt8) : Took s (s.putPacket l) [l] [] :=
  ⟨rfl, rfl, ⟨h.cnt, h.buf, h.lt⟩, rfl⟩

/-- The loop from the end of a packet on. -/
theorem rxLoop_direct (hfuel : c.length < fuel) (h : s.Backs [])
    (hc : c <+: (ps.map H4Packet.encode).flatten)
    (hcut : ∀ q ∈ cutFrame (ps.map H4Packet.encode) c.length, q.length < 256) :
    Handles s (ps.map H4Packet.encode) c.length (rxLoop fuel c c.length s) := by
  induction ps generalizing c s fuel with
  | nil =>
    obtain rfl : c = [] := by simpa using hc
    obtain ⟨fuel, rfl⟩ := Nat.exists_eq_add_of_lt hfuel
    exact ⟨s, Or.inl ⟨Nat.zero_le _, rfl, rfl, (List.append_nil _).symm, h, rfl⟩⟩
  | cons p ps ih =>
    rw [List.map_cons] at hc hcut ⊢
    obtain ⟨fuel, rfl⟩ : ∃ k, fuel = k + 1 := ⟨fuel - 1, by omega⟩
    by_cases hlt : c.length < p.encode.length
    · -- `c` is the beginning of the packet, or empty
      have hpre : c <+: p.encode :=
        List.prefix_of_prefix_length_le hc (List.prefix_append _ _) (by omega)
      have htake := List.prefix_iff_eq_take.mp hpre
      by_cases hne : c = []
      · subst hne
        exact handles_of_lt hlt (rxLoop_done s []) (Took.refl h)
      · have hpos := List.length_pos_iff.mpr hne
        obtain ⟨fuel, rfl⟩ : ∃ k, fuel = k + 1 := ⟨fuel - 1, by omega⟩
        have hshort := hcut p.encode (by rw [cutFrame_of_lt hlt (by omega)]; rfl)
        have hbegin := backUpHandler_begin (l := c) h (by omega)
        rw [htake] at hbegin
        refine handles_of_lt hlt ?_ hbegin
        rw [rxLoop_turn (by omega), rxTurn_direct h, rxSwitch_part hpre hne hlt, ← htake]
        rfl
    · -- the packet is in `c` as a whole and does not go through the backup buffer
      obtain ⟨rest, rfl⟩ : p.encode <+: c :=
        List.prefix_of_prefix_length_le (List.prefix_append _ _) hc (by omega)
      rw [List.flatten_cons, List.prefix_append_right_inj] at hc
      rw [List.length_append] at hfuel
      have hpos := p.length_encode
      rw [List.length_append, cutFrame_add] at hcut
      rw [rxLoop_turn (by rw [List.length_append]; omega), rxTurn_direct h, rxSwitch_whole]
      by_cases hfull : s.pHciRxFifo.num ≤ s.pHciRxFifo.used
      · have hfree : s.free = 0 := Nat.sub_eq_zero_of_le hfull
        rw [if_pos hfull]
        refine ⟨s, Or.inr ⟨?_, rfl, ?_⟩⟩
        · rw [List.length_append, completed_add]
          omega
        · rw [hfree]
          exact Took.refl h
      · have hput := took_putPacket h p.encode
        rw [if_neg hfull, List.length_append]
        exact Handles.cons hput (Nat.sub_pos_of_lt (Nat.lt_of_not_le hfull))
          (ih (by omega) hput.backs hc hcut)

/-- A turn that completes the packet in the backup buffer. -/
theorem rxTurn_finish (h : s.Backs b) (hb : b ≠ []) {q : List UInt8} (hp : p.encode = b ++ q)
    (hshort : p.encode.length < 256) (rest : List UInt8) :
    ∃ s', Took s s' [p.encode] [] ∧ s.rxTurn (q ++ rest) (q ++ rest).length =
      if rest.length = 0 then .next s' rest 0 else s'.rxSwitch rest rest.length := by
  have hbpos := List.length_pos_iff.mpr hb
  have hlen := congrArg List.length hp
  rw [List.length_append] at hlen
  have hgoes : GoesOn b q (q ++ rest) := ⟨Or.inl (List.prefix_append _ _), by omega⟩
  rcases backUpHandler_fills h hb hp hgoes with ⟨-, hres, htook⟩ | ⟨-, hlt, -, -⟩
  · refine ⟨_, htook, ?_⟩
    rw [rxTurn, h.cnt, if_pos (by omega)]
    have hleft : (q ++ rest).length - q.length = rest.length := by
      rw [List.length_append, Nat.add_sub_cancel_left]
    simp only [hres, u8_of_lt (show q.length < 256 by omega), List.drop_left, hleft]
  · rw [List.length_append] at hlt
    omega

/-- A turn that moves the whole chunk to the backup buffer. -/
theorem rxTurn_keep (h : s.Backs b) (hb : b ≠ []) {q : List UInt8} (hp : p.encode = b ++ q)
    (hshort : p.encode.length < 256) (hpre : c <+: q) (hlt : c.length < q.length) :
    ∃ s', Took s s' [] (b ++ c) ∧ s.rxTurn c c.length = .next s' [] 0 := by
  have hbpos := List.length_pos_iff.mpr hb
  have hlen := congrArg List.length hp
  rw [List.length_append] at hlen
  have hgoes : GoesOn b q c := ⟨Or.inr ⟨hpre, hlt⟩, by omega⟩
  rcases backUpHandler_fills h hb hp hgoes with ⟨hle, -, -⟩ | ⟨-, -, hres, htook⟩
  · have := hle.length_le
    omega
  · refine ⟨_, htook, ?_⟩
    rw [rxTurn, h.cnt, if_pos (by omega)]
    simp only [hres, u8_of_lt (show c.length < 256 by omega), Nat.sub_self, List.drop_length,
      if_true]

/-- The bytes `b` begin the first of the packets `ps`, a short one, unless there are none. -/
def Begun (ps : List H4Packet) (b : List UInt8) : Prop :=
  b = [] ∨ ∃ p ps' q, ps = p :: ps' ∧ p.encode = b ++ q ∧ q ≠ [] ∧ p.encode.length < 256

/-- The loop from the beginning of a chunk on. -/
theorem rxLoop_handles (hfuel : c.length < fuel) (h : s.Backs b) (hbegun : Begun ps b)
    (hc : b ++ c <+: (ps.map H4Packet.encode).flatten)
    (hcut : ∀ q ∈ cutFrame (ps.map H4Packet.encode) (b ++ c).length, q.length < 256)
    (hroom : b ≠ [] → completed (ps.map H4Packet.encode) (b ++ c).length ≠ 0 → 0 < s.free) :
    Handles s (ps.map H4Packet.encode) (b ++ c).length (rxLoop fuel c c.length s) := by
  rcases hbegun with rfl | ⟨p, ps, q, rfl, hp, hq, hshort⟩
  · exact rxLoop_direct hfuel h hc hcut
  by_cases hb : b = []
  · subst hb
    exact rxLoop_direct hfuel h hc hcut
  rw [List.map_cons] at hc hcut hroom ⊢
  have hlen := congrArg List.length hp
  rw [List.length_append] at hlen
  rw [List.flatten_cons, hp, List.append_assoc, List.prefix_append_right_inj] at hc
  have hqpos := List.length_pos_iff.mpr hq
  have hbpos := List.length_pos_iff.mpr hb
  obtain ⟨fuel, rfl⟩ : ∃ k, fuel = k + 1 := ⟨fuel - 1, by omega⟩
  by_cases hne : c = []
  · -- the packet stays in the backup buffer as it is
    subst hne
    rw [List.append_nil]
    refine handles_of_lt (by omega) (rxLoop_done s []) ?_
    rw [hp, List.take_left]
    exact Took.refl h
  have hcpos := List.length_pos_iff.mpr hne
  obtain ⟨fuel, rfl⟩ : ∃ k, fuel = k + 1 := ⟨fuel - 1, by omega⟩
  by_cases hlt : c.length < q.length
  · -- the packet goes on beyond the chunk
    have hpre : c <+: q :=
      List.prefix_of_prefix_length_le hc (List.prefix_append _ _) (by omega)
    obtain ⟨s', htook, hturn⟩ := rxTurn_keep h hb hp hshort hpre hlt
    refine handles_of_lt ?_ (?_ : _ = some (true, s')) ?_
    · rw [List.length_append]
      omega
    · rw [rxLoop_turn (by omega), hturn]
      rfl
    · obtain ⟨q', rfl⟩ := hpre
      rwa [hp, ← List.append_assoc, List.take_left]
  · -- the chunk completes the packet
    obtain ⟨rest, rfl⟩ : q <+: c :=
      List.prefix_of_prefix_length_le (List.prefix_append _ _) hc (by omega)
    rw [List.prefix_append_right_inj] at hc
    rw [← List.append_assoc, ← hp, List.length_append, cutFrame_add] at hcut
    rw [← List.append_assoc, ← hp, List.length_append, completed_add] at hroom
    rw [← List.append_assoc, ← hp, List.length_append]
    rw [List.length_append] at hfuel
    have hfree := hroom hb (Nat.succ_ne_zero _)
    obtain ⟨s', htook, hturn⟩ := rxTurn_finish h hb hp hshort rest
    have hloop : rxLoop (fuel + 1 + 1) (q ++ rest) (q ++ rest).length s =
        rxLoop (fuel + 1 + 1) rest rest.length s' := by
      rw [rxLoop_turn (by rw [List.length_append]; omega), hturn]
      by_cases hrest : rest.length = 0
      · rw [if_pos hrest, List.length_eq_zero_iff.mp hrest]
        rfl
      · rw [if_neg hrest, rxLoop_turn hrest, rxTurn_direct htook.backs]
    rw [← List.length_append, hloop, List.length_append]
    exact Handles.cons htook hfree
      (rxLoop_direct (show rest.length < fuel + 1 + 1 by omega) htook.backs hc hcut)

end HciH4TrCb
end TlBleSdk.Hci
