import TlBleSdk.Hci.TrH4

/-!
# The bytes before the H4 parser

When a chunk is harmless, said of the bytes alone: those that the backup buffer holds of a
packet, those of the chunk behind them, and the slots of the HCI RX FIFO. The chunk is walked
from packet to packet by the lengths that their headers declare, and each packet has to fit
where its kind goes. An event or SCO packet shortens what is left, but it stays in front. A
packet of 256 bytes or more in the backup buffer does not come to its end there, as the buffer
is counted in 8 bits: the first bytes are kept and the walk goes on inside the packet.
-/

namespace TlBleSdk.Hci

/-- What the parser has before it: the bytes in the backup buffer, what is left of the chunk,
the slots of the HCI RX FIFO and those in use. -/
structure H4Walk where
  kept : List UInt8
  rest : List UInt8
  num : ℕ
  used : ℕ
  deriving DecidableEq

namespace H4Walk

/-! ## Lengths -/

/-- The length of the packet in the backup buffer, by its header. -/
def declared (p : ℕ → UInt8) : ℕ :=
  if p 0 = trTypeCmd then 1 + cmdHeadLen + cmdParamLen p else 1 + aclHeadLen + aclParamLen p

/-- A packet for the stack at the head of `l`: the bytes up to its parameters, and its length
as the parser has it in 16 bits. -/
def stored (l : List UInt8) : Option (ℕ × ℕ) :=
  if mem l 0 = trTypeCmd then some (1 + cmdHeadLen, 1 + cmdHeadLen + cmdParamLen (mem l))
  else if mem l 0 = trTypeAcl then
    some (1 + aclHeadLen, u16 (1 + aclHeadLen + aclParamLen (mem l)))
  else if mem l 0 = trTypeIso then
    some (1 + aclHeadLen, 1 + aclHeadLen + aclParamLen (mem l) % 1024)
  else none

/-- A packet that the host never receives, likewise. -/
def skipped (l : List UInt8) : Option (ℕ × ℕ) :=
  if mem l 0 = trTypeEvent then some (1 + evtHeadLen, 1 + evtHeadLen + (mem l 2).toNat)
  else if mem l 0 = trTypeSco then some (1 + scoHeadLen, 1 + scoHeadLen + (mem l 3).toNat)
  else none

/-! ## The backup buffer -/

/-- The packet in the backup buffer, with what the chunk has of it. -/
def held (w : H4Walk) : ℕ :=
  min (declared (mem (w.kept ++ w.rest))) (w.kept.length + w.rest.length)

/-- It fits the buffer. -/
def KeptFits (w : H4Walk) : Prop := w.kept ≠ [] → w.held ≤ hciH4TrRxBufSize

/-- The packet in the backup buffer goes on with the chunk. If it is there whole, and the count
shows it, it goes to the HCI RX FIFO, full or not. -/
def continued (w : H4Walk) : H4Walk :=
  if w.kept = [] then w
  else if w.held = declared (mem (w.kept ++ w.rest)) ∧ w.held < 256 then
    { w with kept := [], rest := w.rest.drop (w.held - w.kept.length), used := u8 (w.used + 1) }
  else
    { w with
      kept := (w.kept ++ w.rest).take (u8 w.held)
      rest := w.rest.drop (u8 (w.held - w.kept.length)) }

/-! ## The walk -/

/-- What stands at the packet pointer is harmless, and what is left behind it if the walk goes
on. -/
inductive AtPointer (w : H4Walk) : Option H4Walk → Prop where
  | unknown (hstored : stored w.rest = none) (hskipped : skipped w.rest = none) :
    AtPointer w none
  | beginning {head size : ℕ} (hstored : stored w.rest = some (head, size))
    (hpart : w.rest.length < head ∨ w.rest.length < size) (hfits : w.KeptFits) :
    AtPointer w none
  | full {head size : ℕ} (hstored : stored w.rest = some (head, size))
    (hhead : head ≤ w.rest.length) (hwhole : size ≤ w.rest.length) (hsize : size ≠ 0)
    (hfull : w.num ≤ w.used) : AtPointer w none
  | whole {head size : ℕ} (hstored : stored w.rest = some (head, size))
    (hhead : head ≤ w.rest.length) (hwhole : size ≤ w.rest.length) (hsize : size ≠ 0)
    (hroom : w.used < w.num) (hslot : size ≤ hciRxFifoSize) :
    AtPointer w (some { w with rest := w.rest.drop size, used := w.used + 1 })
  -- Its length does not get past it.
  | noLength {head : ℕ} (hstored : stored w.rest = some (head, 0))
    (hhead : head ≤ w.rest.length) : AtPointer w (some w)
  | headless {head size : ℕ} (hskipped : skipped w.rest = some (head, size))
    (hpart : w.rest.length < head) : AtPointer w none
  | skip {head size : ℕ} (hskipped : skipped w.rest = some (head, size))
    (hhead : head ≤ w.rest.length) (hwhole : size ≤ w.rest.length) :
    AtPointer w (some { w with rest := w.rest.take (w.rest.length - size) })

/-! What can stand at the pointer, by the kind of its packet. -/

variable {w : H4Walk} {o : Option H4Walk} {head size : ℕ}

theorem atPointer_unknown (hstored : stored w.rest = none) (hskipped : skipped w.rest = none) :
    w.AtPointer o ↔ o = none := by
  constructor
  · intro hat
    cases hat with
    | unknown _ _ => rfl
    | beginning _ _ _ => rfl
    | full _ _ _ _ _ => rfl
    | headless _ _ => rfl
    | whole hst _ _ _ _ _ => rw [hstored] at hst; exact absurd hst nofun
    | noLength hst _ => rw [hstored] at hst; exact absurd hst nofun
    | skip hskip _ _ => rw [hskipped] at hskip; exact absurd hskip nofun
  · rintro rfl
    exact .unknown hstored hskipped

theorem skipped_of_stored {l : List UInt8} {p : ℕ × ℕ} (h : stored l = some p) :
    skipped l = none := by
  unfold stored at h
  unfold skipped
  split at h
  next htype => rw [htype, if_neg (by decide), if_neg (by decide)]
  split at h
  next htype => rw [htype, if_neg (by decide), if_neg (by decide)]
  split at h
  next htype => rw [htype, if_neg (by decide), if_neg (by decide)]
  · exact absurd h nofun

theorem atPointer_stored (h : stored w.rest = some (head, size)) : w.AtPointer o ↔
      if w.rest.length < head ∨ w.rest.length < size then o = none ∧ w.KeptFits
      else if size = 0 then o = some w
      else if w.num ≤ w.used then o = none
      else o = some { w with rest := w.rest.drop size, used := w.used + 1 } ∧
        size ≤ hciRxFifoSize := by
  have hskipped := skipped_of_stored h
  constructor
  · intro hat
    cases hat with
    | unknown hstored _ => rw [h] at hstored; exact absurd hstored nofun
    | beginning hstored hpart hfits =>
      rw [h] at hstored
      obtain ⟨rfl, rfl⟩ := Prod.mk.inj (Option.some.inj hstored)
      rw [if_pos hpart]
      exact ⟨rfl, hfits⟩
    | full hstored hhead hwhole hsize hfull =>
      rw [h] at hstored
      obtain ⟨rfl, rfl⟩ := Prod.mk.inj (Option.some.inj hstored)
      rw [if_neg (by omega), if_neg hsize, if_pos hfull]
    | whole hstored hhead hwhole hsize hroom hslot =>
      rw [h] at hstored
      obtain ⟨rfl, rfl⟩ := Prod.mk.inj (Option.some.inj hstored)
      rw [if_neg (by omega), if_neg hsize, if_neg (Nat.not_le.mpr hroom)]
      exact ⟨rfl, hslot⟩
    | noLength hstored hhead =>
      rw [h] at hstored
      obtain ⟨rfl, rfl⟩ := Prod.mk.inj (Option.some.inj hstored)
      rw [if_neg (by omega), if_pos rfl]
    | headless hskip _ => rw [hskipped] at hskip; exact absurd hskip nofun
    | skip hskip _ _ => rw [hskipped] at hskip; exact absurd hskip nofun
  · intro hat
    split at hat
    next hpart =>
      obtain ⟨rfl, hfits⟩ := hat
      exact .beginning h hpart hfits
    next hpart =>
    split at hat
    next hsize =>
      subst hat hsize
      exact .noLength h (by omega)
    next hsize =>
    split at hat
    next hfull =>
      subst hat
      exact .full h (by omega) (by omega) hsize hfull
    next hfull =>
      obtain ⟨rfl, hslot⟩ := hat
      exact .whole h (by omega) (by omega) hsize (Nat.not_le.mp hfull) hslot

theorem atPointer_skipped (hstored : stored w.rest = none)
    (h : skipped w.rest = some (head, size)) : w.AtPointer o ↔
      if w.rest.length < head then o = none
      else o = some { w with rest := w.rest.take (w.rest.length - size) } ∧
        size ≤ w.rest.length := by
  constructor
  · intro hat
    cases hat with
    | unknown _ hskip => rw [h] at hskip; exact absurd hskip nofun
    | beginning hst _ _ => rw [hstored] at hst; exact absurd hst nofun
    | full hst _ _ _ _ => rw [hstored] at hst; exact absurd hst nofun
    | whole hst _ _ _ _ _ => rw [hstored] at hst; exact absurd hst nofun
    | noLength hst _ => rw [hstored] at hst; exact absurd hst nofun
    | headless hskip hpart =>
      rw [h] at hskip
      obtain ⟨rfl, rfl⟩ := Prod.mk.inj (Option.some.inj hskip)
      rw [if_pos hpart]
    | skip hskip hhead hwhole =>
      rw [h] at hskip
      obtain ⟨rfl, rfl⟩ := Prod.mk.inj (Option.some.inj hskip)
      rw [if_neg (Nat.not_lt.mpr hhead)]
      exact ⟨rfl, hwhole⟩
  · intro hat
    split at hat
    next hpart =>
      subst hat
      exact .headless h hpart
    next hpart =>
      obtain ⟨rfl, hwhole⟩ := hat
      exact .skip h (Nat.not_lt.mp hpart) hwhole

/-- The walk gets through the chunk: it comes to an end, and all that it finds is harmless. -/
inductive Through : H4Walk → Prop where
  | done {w : H4Walk} (h : w.rest = []) : Through w
  | taken {w : H4Walk} (hfits : w.KeptFits) (h : w.continued.rest = []) : Through w
  | last {w : H4Walk} (hfits : w.KeptFits) (h : AtPointer w.continued none) : Through w
  | turn {w w' : H4Walk} (hfits : w.KeptFits) (h : AtPointer w.continued (some w'))
    (hthrough : Through w') : Through w

end H4Walk
end TlBleSdk.Hci
