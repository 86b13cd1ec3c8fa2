import TlBleSdk.Lib.NorFlash
import TlBleSdk.Lib.Run
import TlBleSdk.Hci.TrDef
import Mathlib.Logic.Function.Basic
import Mathlib.Data.List.OfFn

/-!
# The flash log of the attribute handles

`simple_sdp.c`: the records of peer devices in a flash sector, one in each slot of 32 bytes.
The mark of a slot is its first byte, and it is written last. A slot is free while its mark is
`0xFF`, and a deleted record has its mark cleared.

The log is compared with a map from the address of a device to its handles. It implements the
map as long as a record is stored for addresses without one only, and no store goes to a slot
that an earlier store left half written.
-/

namespace TlBleSdk.Common

open NorFlash Hci

/-- `ATT_BOND_MARK`. -/
def attBondMark : UInt8 := 0x5A

/-- `ATT_ERASE_MARK`. -/
def attEraseMark : UInt8 := 0x00

/-- `FLASH_SDP_ATT_MAX_SIZE`. -/
def flashSdpAttMaxSize : ℕ := 2 * 4096

/-- The size of `dev_att_t`, without support for resolvable private addresses. -/
def devAttSize : ℕ := 32

/-- The address of a device with its type. -/
structure PeerKey where
  adrType : UInt8
  addr : Fin 6 → UInt8

/-- The seven bytes `peer_adrType` and `peer_addr`. -/
def PeerKey.bytes (key : PeerKey) : List UInt8 := key.adrType :: List.ofFn key.addr

theorem bytes_injective {key key' : PeerKey} (h : key.bytes = key'.bytes) : key = key' := by
  obtain ⟨htype, haddr⟩ := List.cons.inj h
  have haddr' := List.ofFn_injective haddr
  cases key
  cases key'
  congr

instance : DecidableEq PeerKey := fun key key' =>
  decidable_of_iff (key.bytes = key'.bytes) ⟨bytes_injective, congrArg _⟩

/-- What is stored of `dev_char_info_t`. -/
structure SdpInfo where
  key : PeerKey
  charHandle : Fin 8 → UInt16

/-- A handle in flash. -/
def handleBytes (h : UInt16) : List UInt8 := uint16ToBstream h.toNat

/-! ## The log -/

/-- The addresses of the slots in the sector at `base`. -/
def sdpSlots (base : ℕ) : List ℕ :=
  (List.range (flashSdpAttMaxSize / devAttSize)).map fun i => base + devAttSize * i

/-- The writes of `dev_char_info_store_peer_att_handle` to the slot at `a`, the mark last. -/
def storeWrites (a : ℕ) (dev : SdpInfo) : List Write :=
  [(a + 1, dev.key.bytes), (a + 20, handleBytes (dev.charHandle 2)),
    (a + 22, handleBytes (dev.charHandle 3)), (a + 24, handleBytes (dev.charHandle 4)),
    (a + 26, handleBytes (dev.charHandle 5)), (a, [attBondMark])]

/-- The slot that is stored to: the first one that is free. -/
def storeSlot (base : ℕ) (c : Cells) : Option ℕ := (sdpSlots base).find? fun a => c a = 0xFF

/-- `dev_char_info_store_peer_att_handle`, up to a power cut behind `cut` writes. -/
def devCharInfoStorePeerAttHandle (base : ℕ) (c : Cells) (dev : SdpInfo) (cut : ℕ) : Cells :=
  match storeSlot base c with
  | some a => programAll c ((storeWrites a dev).take cut)
  | none => c

/-- The record in the slot is bonded, and its address is the one of the key. -/
def attMatch (c : Cells) (key : PeerKey) (a : ℕ) : Bool :=
  c a = attBondMark && read c (a + 1) 7 = key.bytes

/-- The loop that looks for a record. It ends at a free slot. -/
def searchLoop (c : Cells) (key : PeerKey) : List ℕ → Option ℕ
  | [] => none
  | a :: as => if c a = 0xFF then none else if attMatch c key a then some a else searchLoop c key as

/-- `dev_char_info_search_peer_att_handle_by_peer_mac`, with the record it reads. -/
def devCharInfoSearch (base : ℕ) (c : Cells) (key : PeerKey) : Option (List UInt8) :=
  (searchLoop c key (sdpSlots base)).map fun a => read c a devAttSize

/-- `dev_char_info_delete_peer_att_handle_by_peer_mac`, up to a power cut behind `cut` writes. -/
def devCharInfoDelete (base : ℕ) (c : Cells) (key : PeerKey) (cut : ℕ) : Cells :=
  match searchLoop c key (sdpSlots base) with
  | some a => programAll c ([(a, [attEraseMark])].take cut)
  | none => c

/-- An operation on the log, and the number of its writes before the power is cut. -/
inductive SdpEvent
  | store (dev : SdpInfo) (cut : ℕ)
  | delete (key : PeerKey) (cut : ℕ)

def sdpStep (base : ℕ) (c : Cells) : SdpEvent → Cells
  | .store dev cut => devCharInfoStorePeerAttHandle base c dev cut
  | .delete key cut => devCharInfoDelete base c key cut

/-! ## The map -/

/-- The record that the map holds for each address. -/
abbrev SdpMap := PeerKey → Option (Fin 8 → UInt16)

/-- The bytes of the record of a device. The handles that are not stored read as erased. -/
def attImage (key : PeerKey) (h : Fin 8 → UInt16) : List UInt8 :=
  [attBondMark] ++ key.bytes ++ List.replicate 12 0xFF ++ handleBytes (h 2) ++ handleBytes (h 3) ++
    handleBytes (h 4) ++ handleBytes (h 5) ++ List.replicate 4 0xFF

/-- An operation on the map. A store is complete with all its writes, where there is a slot. -/
def sdpMapStep (base : ℕ) (c : Cells) (m : SdpMap) : SdpEvent → SdpMap
  | .store dev cut =>
    if (∃ a ∈ sdpSlots base, c a = 0xFF) ∧ 6 ≤ cut then
      Function.update m dev.key (some dev.charHandle)
    else m
  | .delete key cut => if 1 ≤ cut then Function.update m key none else m

/-- The log and the map. -/
def sdpPairStep (base : ℕ) (p : Cells × SdpMap) (ev : SdpEvent) : Cells × SdpMap :=
  (sdpStep base p.1 ev, sdpMapStep base p.1 p.2 ev)

/-- Every search finds the record of the map, byte for byte, or none where it has none. -/
def SdpOk (base : ℕ) (p : Cells × SdpMap) : Prop :=
  ∀ key, devCharInfoSearch base p.1 key = (p.2 key).map (attImage key)

/-- A complete store is for an address without a record, and the cells of its slot take the
record. -/
def SdpCond (base : ℕ) (p : Cells × SdpMap) : SdpEvent → Prop
  | .store dev cut => 6 ≤ cut → ∀ a, storeSlot base p.1 = some a →
      searchLoop p.1 dev.key (sdpSlots base) = none ∧
        ∀ w ∈ storeWrites a dev, Takes p.1 w.1 w.2
  | .delete _ _ => True

/-! ## A slot -/

section Slot

variable {base a i j : ℕ} {c : Cells} {key : PeerKey} {dev : SdpInfo}

@[simp] theorem length_bytes (key : PeerKey) : key.bytes.length = 7 := by
  rw [PeerKey.bytes, List.length_cons, List.length_ofFn]

@[simp] theorem length_handleBytes (h : UInt16) : (handleBytes h).length = 2 := rfl

theorem storeWrites_disjoint (a : ℕ) (dev : SdpInfo) : DisjointWrites (storeWrites a dev) := by
  unfold DisjointWrites storeWrites
  simp only [List.pairwise_cons, List.mem_cons, List.not_mem_nil, or_false, forall_eq_or_imp,
    forall_eq, length_bytes, length_handleBytes, List.length_singleton]
  refine ⟨?_, ?_, ?_, ?_, ?_, ?_, List.Pairwise.nil⟩ <;> simp

/-- The writes of a store stay within the slot, and leave its reserved bytes alone. -/
theorem storeWrites_avoids {w : Write} (hw : w ∈ storeWrites a dev) {x : ℕ}
    (hx : x < a ∨ a + 8 ≤ x ∧ x < a + 20 ∨ a + 28 ≤ x) : w.Avoids x := by
  simp only [storeWrites, List.mem_cons, List.not_mem_nil, or_false] at hw
  unfold Write.Avoids
  rcases hw with rfl | rfl | rfl | rfl | rfl | rfl <;> simp <;> omega

/-- The writes before the last one leave the mark alone. -/
theorem storeWrites_take_avoids {w : Write} {cut : ℕ} (hcut : cut < 6)
    (hw : w ∈ (storeWrites a dev).take cut) : w.Avoids a := by
  have hw' : w ∈ (storeWrites a dev).take 5 :=
    (List.take_subset_take_left _ (by omega)) hw
  simp only [storeWrites, List.take_succ_cons, List.take_zero, List.mem_cons, List.not_mem_nil,
    or_false] at hw'
  unfold Write.Avoids
  rcases hw' with rfl | rfl | rfl | rfl | rfl <;> simp

/-- The bytes of a slot, part by part. -/
theorem read_slot (c : Cells) (a : ℕ) :
    read c a devAttSize = read c a 1 ++ read c (a + 1) 7 ++ read c (a + 8) 12 ++
      read c (a + 20) 2 ++ read c (a + 22) 2 ++ read c (a + 24) 2 ++ read c (a + 26) 2 ++
      read c (a + 28) 4 := by
  rw [show devAttSize = 1 + 7 + 12 + 2 + 2 + 2 + 2 + 4 from rfl, read_add, read_add, read_add,
    read_add, read_add, read_add, read_add]

/-- A slot behind a complete store, where its cells took the record. -/
theorem read_stored (htakes : ∀ w ∈ storeWrites a dev, Takes c w.1 w.2)
    (hblank : Erased c (a + 8) 12 ∧ Erased c (a + 28) 4) :
    read (programAll c (storeWrites a dev)) a devAttSize = attImage dev.key dev.charHandle := by
  have hread : ∀ w ∈ storeWrites a dev,
      read (programAll c (storeWrites a dev)) w.1 w.2.length = w.2 :=
    fun w hw => read_programAll (storeWrites_disjoint a dev) htakes hw
  have hkeep : ∀ x, a + 8 ≤ x ∧ x < a + 20 ∨ a + 28 ≤ x →
      programAll c (storeWrites a dev) x = c x := by
    intro x hx
    exact programAll_of_avoids (fun w hw => storeWrites_avoids hw (.inr hx)) c
  have hrsvd : read (programAll c (storeWrites a dev)) (a + 8) 12 = List.replicate 12 0xFF := by
    apply Erased.read_eq
    intro i hi
    rw [hkeep _ (.inl ⟨by omega, by omega⟩)]
    exact hblank.1 i hi
  have hlast : read (programAll c (storeWrites a dev)) (a + 28) 4 = List.replicate 4 0xFF := by
    apply Erased.read_eq
    intro i hi
    rw [hkeep _ (.inr (by omega))]
    exact hblank.2 i hi
  have hkey := hread (a + 1, dev.key.bytes) (by simp [storeWrites])
  have hota := hread (a + 20, handleBytes (dev.charHandle 2)) (by simp [storeWrites])
  have hconsume := hread (a + 22, handleBytes (dev.charHandle 3)) (by simp [storeWrites])
  have hkeyReport := hread (a + 24, handleBytes (dev.charHandle 4)) (by simp [storeWrites])
  have hmouse := hread (a + 26, handleBytes (dev.charHandle 5)) (by simp [storeWrites])
  have hmark := hread (a, [attBondMark]) (by simp [storeWrites])
  simp only [length_bytes, length_handleBytes, List.length_singleton] at hkey hota hmark
  simp only [length_handleBytes] at hconsume hkeyReport hmouse
  rw [read_slot, hmark, hkey, hrsvd, hota, hconsume, hkeyReport, hmouse, hlast]
  rfl

/-- Writes to the slot `n` leave the other slots and the reserved bytes alone. -/
theorem programAll_frame {n : ℕ} {ws : List Write}
    (hws : ∀ w ∈ ws, w ∈ storeWrites (base + 32 * n) dev) (c : Cells) :
    (∀ i < 256, i ≠ n → ∀ k < 32,
      programAll c ws (base + 32 * i + k) = c (base + 32 * i + k)) ∧
    ∀ i < 256, ∀ k, 8 ≤ k ∧ k < 20 ∨ 28 ≤ k ∧ k < 32 →
      programAll c ws (base + 32 * i + k) = c (base + 32 * i + k) := by
  constructor
  · intro i hi hne k hk
    apply programAll_of_avoids
    intro w hw
    apply storeWrites_avoids (hws w hw)
    omega
  · intro i hi k hk
    apply programAll_of_avoids
    intro w hw
    apply storeWrites_avoids (hws w hw)
    omega

end Slot

/-! ## The loops over the slots -/

section Loops

variable {base n : ℕ} {c : Cells} {key : PeerKey}

/-- The search looks for a match among the slots before the first free one. -/
theorem searchLoop_eq_find? (c : Cells) (key : PeerKey) (as : List ℕ) :
    searchLoop c key as = (as.takeWhile fun a => c a ≠ 0xFF).find? (attMatch c key) := by
  induction as with
  | nil => rfl
  | cons a as ih =>
    unfold searchLoop
    by_cases hfree : c a = 0xFF
    · rw [if_pos hfree, List.takeWhile_cons_of_neg (by simpa using hfree)]
      rfl
    · rw [if_neg hfree, List.takeWhile_cons_of_pos (by simpa using hfree), List.find?_cons, ih]
      cases attMatch c key a <;> rfl

/-- The slots are those in use, and behind them those that are free. -/
theorem sdpSlots_split (base : ℕ) (hn : n ≤ 256) :
    sdpSlots base = (List.range n).map (fun i => base + 32 * i) ++
      (List.range (256 - n)).map fun i => base + 32 * (n + i) := by
  have hrange : List.range 256 = List.range n ++ (List.range (256 - n)).map (n + ·) := by
    rw [← List.range_add, Nat.add_sub_cancel' hn]
  unfold sdpSlots
  rw [show flashSdpAttMaxSize / devAttSize = 256 from rfl, hrange, List.map_append, List.map_map]
  rfl

end Loops

/-! ## Slots that are left alone -/

/-- The slot `i` holds what it held. -/
def SameSlot (base : ℕ) (c c' : Cells) (i : ℕ) : Prop :=
  ∀ k < 32, c' (base + 32 * i + k) = c (base + 32 * i + k)

namespace SameSlot

variable {base i : ℕ} {c c' : Cells}

theorem mark (h : SameSlot base c c' i) : c' (base + 32 * i) = c (base + 32 * i) :=
  h 0 (by decide)

theorem key (h : SameSlot base c c' i) :
    read c' (base + 32 * i + 1) 7 = read c (base + 32 * i + 1) 7 := by
  apply read_congr
  intro k hk
  rw [Nat.add_assoc]
  exact h (1 + k) (by omega)

theorem image (h : SameSlot base c c' i) :
    read c' (base + 32 * i) devAttSize = read c (base + 32 * i) devAttSize :=
  read_congr h

end SameSlot

/-! ## The invariant -/

/-- The first `n` slots have been stored to and the others have not. The bonded ones hold the
records of the map, each for another address, and no reserved byte was ever written. -/
structure LogInv (base n : ℕ) (c : Cells) (m : SdpMap) : Prop where
  le : n ≤ 256
  used : ∀ i < n, c (base + 32 * i) = attBondMark ∨ c (base + 32 * i) = attEraseMark
  free : ∀ i, n ≤ i → i < 256 → c (base + 32 * i) = 0xFF
  blank : ∀ i < 256, Erased c (base + 32 * i + 8) 12 ∧ Erased c (base + 32 * i + 28) 4
  bonded : ∀ i < n, c (base + 32 * i) = attBondMark → ∃ key h, m key = some h ∧
    read c (base + 32 * i + 1) 7 = key.bytes ∧ read c (base + 32 * i) devAttSize = attImage key h
  found : ∀ key, m key ≠ none → ∃ i < n, c (base + 32 * i) = attBondMark ∧
    read c (base + 32 * i + 1) 7 = key.bytes
  unique : ∀ i < n, ∀ j < n, c (base + 32 * i) = attBondMark → c (base + 32 * j) = attBondMark →
    read c (base + 32 * i + 1) 7 = read c (base + 32 * j + 1) 7 → i = j

namespace LogInv

variable {base n : ℕ} {c : Cells} {m : SdpMap} {key : PeerKey}

theorem mark_ne (h : LogInv base n c m) {i : ℕ} (hi : i < n) : c (base + 32 * i) ≠ 0xFF := by
  rcases h.used i hi with hmark | hmark
  · rw [hmark]
    decide
  · rw [hmark]
    decide

/-- The search goes through the slots in use. -/
theorem searchLoop_eq (h : LogInv base n c m) (key : PeerKey) :
    searchLoop c key (sdpSlots base) =
      ((List.range n).map fun i => base + 32 * i).find? (attMatch c key) := by
  rw [searchLoop_eq_find?, sdpSlots_split base h.le, List.takeWhile_append_of_pos]
  · have hnil : ((List.range (256 - n)).map fun i => base + 32 * (n + i)).takeWhile
        (fun a => decide (c a ≠ 0xFF)) = [] := by
      cases hrest : 256 - n with
      | zero => rfl
      | succ k =>
        rw [List.range_succ_eq_map, List.map_cons, List.takeWhile_cons_of_neg]
        simpa using h.free n (Nat.le_refl n) (by omega)
    rw [hnil, List.append_nil]
  · intro a ha
    obtain ⟨i, hi, rfl⟩ := List.mem_map.mp ha
    simpa using h.mark_ne (List.mem_range.mp hi)

/-- The store goes to the first slot that is not in use. -/
theorem storeSlot_eq (h : LogInv base n c m) :
    storeSlot base c = if n < 256 then some (base + 32 * n) else none := by
  unfold storeSlot
  rw [sdpSlots_split base h.le, List.find?_append]
  have hnone : ((List.range n).map fun i => base + 32 * i).find? (fun a => decide (c a = 0xFF)) =
      none := by
    rw [List.find?_eq_none]
    intro a ha
    obtain ⟨i, hi, rfl⟩ := List.mem_map.mp ha
    simpa using h.mark_ne (List.mem_range.mp hi)
  rw [hnone, Option.none_or]
  split
  case isTrue hn =>
    obtain ⟨k, hk⟩ : ∃ k, 256 - n = k + 1 := ⟨255 - n, by omega⟩
    rw [hk, List.range_succ_eq_map, List.map_cons, List.find?_cons_of_pos]
    · rfl
    · simpa using h.free n (Nat.le_refl n) hn
  case isFalse hn =>
    rw [show 256 - n = 0 by omega]
    rfl

/-- What the search finds is the record of the map. -/
theorem found_slot (h : LogInv base n c m) {a : ℕ}
    (ha : searchLoop c key (sdpSlots base) = some a) :
    ∃ i < n, a = base + 32 * i ∧ c a = attBondMark ∧ read c (a + 1) 7 = key.bytes ∧
      ∃ hd, m key = some hd ∧ read c a devAttSize = attImage key hd := by
  rw [h.searchLoop_eq] at ha
  have hmem := List.mem_of_find?_eq_some ha
  have hmatch := List.find?_some ha
  obtain ⟨i, hi, rfl⟩ := List.mem_map.mp hmem
  unfold attMatch at hmatch
  rw [Bool.and_eq_true, decide_eq_true_eq, decide_eq_true_eq] at hmatch
  obtain ⟨key', hd, hmap, hbytes, hread⟩ := h.bonded i (List.mem_range.mp hi) hmatch.1
  have hkey : key' = key := bytes_injective (hbytes.symm.trans hmatch.2)
  subst hkey
  exact ⟨i, List.mem_range.mp hi, rfl, hmatch.1, hmatch.2, hd, hmap, hread⟩

theorem map_none_of_search (h : LogInv base n c m)
    (hnone : searchLoop c key (sdpSlots base) = none) : m key = none := by
  by_contra hsome
  obtain ⟨i, hi, hmark, hbytes⟩ := h.found key hsome
  rw [h.searchLoop_eq, List.find?_eq_none] at hnone
  apply hnone (base + 32 * i) (List.mem_map_of_mem (List.mem_range.mpr hi))
  unfold attMatch
  rw [Bool.and_eq_true, decide_eq_true_eq, decide_eq_true_eq]
  exact ⟨hmark, hbytes⟩

/-- Under the invariant every search agrees with the map. -/
theorem sdpOk (h : LogInv base n c m) : SdpOk base (c, m) := by
  intro key
  show (searchLoop c key (sdpSlots base)).map _ = (m key).map _
  cases hs : searchLoop c key (sdpSlots base) with
  | none => rw [h.map_none_of_search hs]; rfl
  | some a =>
    obtain ⟨i, hi, -, -, -, hd, hmap, hread⟩ := h.found_slot hs
    rw [hmap, Option.map_some, Option.map_some, hread]

/-- Reserved bytes that were left alone are still blank. -/
theorem blank_congr (h : LogInv base n c m) {c' : Cells}
    (hblank : ∀ i < 256, ∀ k, 8 ≤ k ∧ k < 20 ∨ 28 ≤ k ∧ k < 32 →
      c' (base + 32 * i + k) = c (base + 32 * i + k)) :
    ∀ i < 256, Erased c' (base + 32 * i + 8) 12 ∧ Erased c' (base + 32 * i + 28) 4 := by
  intro i hi
  constructor
  · intro k hk
    rw [Nat.add_assoc, hblank i hi (8 + k) (.inl ⟨by omega, by omega⟩), ← Nat.add_assoc]
    exact (h.blank i hi).1 k hk
  · intro k hk
    rw [Nat.add_assoc, hblank i hi (28 + k) (.inr ⟨by omega, by omega⟩), ← Nat.add_assoc]
    exact (h.blank i hi).2 k hk

/-- No slot in use has an address that is not found. -/
theorem ne_bytes_of_search (h : LogInv base n c m)
    (hnone : searchLoop c key (sdpSlots base) = none) {i : ℕ} (hi : i < n)
    (hbond : c (base + 32 * i) = attBondMark) : read c (base + 32 * i + 1) 7 ≠ key.bytes := by
  intro heq
  obtain ⟨key', hd, hmap, hbytes, -⟩ := h.bonded i hi hbond
  rw [bytes_injective (hbytes.symm.trans heq), h.map_none_of_search hnone] at hmap
  cases hmap

/-- The record of a slot that is left alone. -/
theorem bonded_of_same (h : LogInv base n c m) {c' : Cells} {i : ℕ} (hi : i < n)
    (hsame : SameSlot base c c' i) (hbond : c' (base + 32 * i) = attBondMark) :
    ∃ key hd, m key = some hd ∧ read c (base + 32 * i + 1) 7 = key.bytes ∧
      read c' (base + 32 * i + 1) 7 = key.bytes ∧
        read c' (base + 32 * i) devAttSize = attImage key hd := by
  rw [hsame.mark] at hbond
  obtain ⟨key, hd, hmap, hbytes, hread⟩ := h.bonded i hi hbond
  exact ⟨key, hd, hmap, hbytes, hsame.key.trans hbytes, hsame.image.trans hread⟩

/-- Two slots that are left alone have different addresses. -/
theorem unique_of_same (h : LogInv base n c m) {c' : Cells} {i j : ℕ} (hi : i < n) (hj : j < n)
    (hsamei : SameSlot base c c' i) (hsamej : SameSlot base c c' j)
    (hbi : c' (base + 32 * i) = attBondMark) (hbj : c' (base + 32 * j) = attBondMark)
    (hij : read c' (base + 32 * i + 1) 7 = read c' (base + 32 * j + 1) 7) : i = j := by
  rw [hsamei.mark] at hbi
  rw [hsamej.mark] at hbj
  rw [hsamei.key, hsamej.key] at hij
  exact h.unique i hi j hj hbi hbj hij

/-- A step that leaves the slots in use alone, and the marks and reserved bytes of the others. -/
theorem congr (h : LogInv base n c m) {c' : Cells} (hused : ∀ i < n, SameSlot base c c' i)
    (hfree : ∀ i, n ≤ i → i < 256 → c' (base + 32 * i) = c (base + 32 * i))
    (hblank : ∀ i < 256, ∀ k, 8 ≤ k ∧ k < 20 ∨ 28 ≤ k ∧ k < 32 →
      c' (base + 32 * i + k) = c (base + 32 * i + k)) : LogInv base n c' m := by
  constructor
  case le => exact h.le
  case used =>
    intro i hi
    rw [(hused i hi).mark]
    exact h.used i hi
  case free =>
    intro i hi hlt
    rw [hfree i hi hlt]
    exact h.free i hi hlt
  case blank => exact h.blank_congr hblank
  case bonded =>
    intro i hi hbond
    obtain ⟨key, hd, hmap, -, hbytes, hread⟩ := h.bonded_of_same hi (hused i hi) hbond
    exact ⟨key, hd, hmap, hbytes, hread⟩
  case found =>
    intro key hne
    obtain ⟨i, hi, hbond, hbytes⟩ := h.found key hne
    exact ⟨i, hi, (hused i hi).mark.trans hbond, (hused i hi).key.trans hbytes⟩
  case unique =>
    intro i hi j hj
    exact h.unique_of_same hi hj (hused i hi) (hused j hj)

/-- A store that is cut keeps the map. -/
theorem store_cut (h : LogInv base n c m) (hn : n < 256) (dev : SdpInfo) {cut : ℕ}
    (hcut : cut < 6) :
    LogInv base n (programAll c ((storeWrites (base + 32 * n) dev).take cut)) m := by
  obtain ⟨hother, hblank⟩ := programAll_frame
    (fun w (hw : w ∈ (storeWrites (base + 32 * n) dev).take cut) => List.mem_of_mem_take hw) c
  refine h.congr (fun i hi => hother i (by omega) (by omega)) ?_ hblank
  intro i hi hlt
  by_cases hin : i = n
  · subst hin
    exact programAll_of_avoids (fun w hw => storeWrites_take_avoids hcut hw) c
  · exact hother i hlt hin 0 (by decide)

/-- The first free slot gets the record of an address without one. -/
theorem bond (h : LogInv base n c m) (hn : n < 256) {c' : Cells} {hd : Fin 8 → UInt16}
    (hnew : searchLoop c key (sdpSlots base) = none)
    (hother : ∀ i < 256, i ≠ n → SameSlot base c c' i)
    (hblank : ∀ i < 256, ∀ k, 8 ≤ k ∧ k < 20 ∨ 28 ≤ k ∧ k < 32 →
      c' (base + 32 * i + k) = c (base + 32 * i + k))
    (hmark : c' (base + 32 * n) = attBondMark)
    (hkey : read c' (base + 32 * n + 1) 7 = key.bytes)
    (himage : read c' (base + 32 * n) devAttSize = attImage key hd) :
    LogInv base (n + 1) c' (Function.update m key (some hd)) := by
  have hused : ∀ i < n, SameSlot base c c' i := fun i hi => hother i (by omega) (by omega)
  -- no slot in use has the address
  have hne : ∀ i < n, c' (base + 32 * i) = attBondMark →
      read c' (base + 32 * i + 1) 7 ≠ key.bytes := by
    intro i hi hbond
    rw [(hused i hi).mark] at hbond
    rw [(hused i hi).key]
    exact h.ne_bytes_of_search hnew hi hbond
  have hlast : ∀ i, i < n + 1 → i < n ∨ i = n := fun i hi => by omega
  constructor
  case le => exact hn
  case used =>
    intro i hi
    rcases hlast i hi with hi | rfl
    · rw [(hused i hi).mark]
      exact h.used i hi
    · exact .inl hmark
  case free =>
    intro i hi hlt
    rw [(hother i hlt (by omega)).mark]
    exact h.free i (by omega) hlt
  case blank => exact h.blank_congr hblank
  case bonded =>
    intro i hi hbond
    rcases hlast i hi with hi | rfl
    · obtain ⟨key', hd', hmap, -, hbytes, hread⟩ := h.bonded_of_same hi (hused i hi) hbond
      have hkne : key' ≠ key := by
        rintro rfl
        exact hne i hi hbond hbytes
      exact ⟨key', hd', by rw [Function.update_of_ne hkne, hmap], hbytes, hread⟩
    · exact ⟨key, hd, Function.update_self .., hkey, himage⟩
  case found =>
    intro key' hsome
    by_cases hk : key' = key
    · subst hk
      exact ⟨n, Nat.lt_succ_self n, hmark, hkey⟩
    · rw [Function.update_of_ne hk] at hsome
      obtain ⟨i, hi, hbond, hbytes⟩ := h.found key' hsome
      exact ⟨i, by omega, (hused i hi).mark.trans hbond, (hused i hi).key.trans hbytes⟩
  case unique =>
    intro i hi j hj hbi hbj hij
    rcases hlast i hi with hi | rfl
    · rcases hlast j hj with hj | rfl
      · exact h.unique_of_same hi hj (hused i hi) (hused j hj) hbi hbj hij
      · exact absurd (hij.trans hkey) (hne i hi hbi)
    · rcases hlast j hj with hj | rfl
      · exact absurd (hij.symm.trans hkey) (hne j hj hbj)
      · rfl

/-- The slot of an address is marked as erased. -/
theorem unbond (h : LogInv base n c m) {c' : Cells} {i : ℕ} (hi : i < n)
    (hbond : c (base + 32 * i) = attBondMark) (hbytes : read c (base + 32 * i + 1) 7 = key.bytes)
    (hother : ∀ j < 256, j ≠ i → SameSlot base c c' j)
    (hblank : ∀ j < 256, ∀ k, 8 ≤ k ∧ k < 20 ∨ 28 ≤ k ∧ k < 32 →
      c' (base + 32 * j + k) = c (base + 32 * j + k))
    (hmark : c' (base + 32 * i) = attEraseMark) :
    LogInv base n c' (Function.update m key none) := by
  have hle := h.le
  have hne : ∀ j, c' (base + 32 * j) = attBondMark → j ≠ i := by
    rintro j hj rfl
    rw [hmark] at hj
    exact absurd hj (by decide)
  constructor
  case le => exact h.le
  case used =>
    intro j hj
    by_cases hji : j = i
    · subst hji
      exact .inr hmark
    · rw [(hother j (by omega) hji).mark]
      exact h.used j hj
  case free =>
    intro j hj hlt
    rw [(hother j hlt (by omega)).mark]
    exact h.free j hj hlt
  case blank => exact h.blank_congr hblank
  case bonded =>
    intro j hj hbondj
    have hsame := hother j (by omega) (hne j hbondj)
    obtain ⟨key', hd', hmap', hold, hbytes', hread'⟩ := h.bonded_of_same hj hsame hbondj
    have hkne : key' ≠ key := by
      rintro rfl
      rw [hsame.mark] at hbondj
      exact hne j (hsame.mark.trans hbondj)
        (h.unique j hj i hi hbondj hbond (hold.trans hbytes.symm))
    exact ⟨key', hd', by rw [Function.update_of_ne hkne, hmap'], hbytes', hread'⟩
  case found =>
    intro key' hsome
    have hkne : key' ≠ key := by
      rintro rfl
      rw [Function.update_self] at hsome
      exact hsome rfl
    rw [Function.update_of_ne hkne] at hsome
    obtain ⟨j, hj, hbondj, hbytesj⟩ := h.found key' hsome
    have hji : j ≠ i := by
      rintro rfl
      exact hkne (bytes_injective (hbytesj.symm.trans hbytes))
    have hsame := hother j (by omega) hji
    exact ⟨j, hj, hsame.mark.trans hbondj, hsame.key.trans hbytesj⟩
  case unique =>
    intro j hj l hl hbj hbl
    exact h.unique_of_same hj hl (hother j (by omega) (hne j hbj)) (hother l (by omega) (hne l hbl))
      hbj hbl

/-- A complete store for an address without a record, in cells that take it, adds it to the
map. -/
theorem store_done (h : LogInv base n c m) (hn : n < 256) {dev : SdpInfo}
    (hnew : searchLoop c dev.key (sdpSlots base) = none)
    (htakes : ∀ w ∈ storeWrites (base + 32 * n) dev, Takes c w.1 w.2) :
    LogInv base (n + 1) (programAll c (storeWrites (base + 32 * n) dev))
      (Function.update m dev.key (some dev.charHandle)) := by
  obtain ⟨hother, hblank⟩ := programAll_frame
    (fun w (hw : w ∈ storeWrites (base + 32 * n) dev) => hw) c
  have hwrite : ∀ w ∈ storeWrites (base + 32 * n) dev,
      read (programAll c (storeWrites (base + 32 * n) dev)) w.1 w.2.length = w.2 :=
    fun w hw => read_programAll (storeWrites_disjoint _ dev) htakes hw
  have hkey := hwrite (base + 32 * n + 1, dev.key.bytes) (by simp [storeWrites])
  rw [length_bytes] at hkey
  have hmark := hwrite (base + 32 * n, [attBondMark]) (by simp [storeWrites])
  exact h.bond hn hnew hother hblank (List.head_eq_of_cons_eq hmark) hkey
    (read_stored htakes (h.blank n hn))

theorem delete_done (h : LogInv base n c m) {a : ℕ}
    (ha : searchLoop c key (sdpSlots base) = some a) :
    LogInv base n (programAll c [(a, [attEraseMark])]) (Function.update m key none) := by
  obtain ⟨i, hi, rfl, hbond, hbytes, -⟩ := h.found_slot ha
  have hmark : programAll c [(base + 32 * i, [attEraseMark])] (base + 32 * i) = attEraseMark := by
    show program c (base + 32 * i) [attEraseMark] (base + 32 * i + 0) = attEraseMark
    rw [program_apply, Nat.add_zero, hbond]
    rfl
  have hother : ∀ x, x ≠ base + 32 * i →
      programAll c [(base + 32 * i, [attEraseMark])] x = c x := by
    intro x hx
    apply programAll_of_avoids
    intro w hw
    rw [List.mem_singleton.mp hw]
    unfold Write.Avoids
    rw [List.length_singleton]
    omega
  exact h.unbond hi hbond hbytes (fun j hj hji k hk => hother _ (by omega))
    (fun j hj k hk => hother _ (by omega)) hmark

theorem storeSlot_isSome : (storeSlot base c).isSome ↔ ∃ a ∈ sdpSlots base, c a = 0xFF := by
  rw [storeSlot, List.find?_isSome]
  simp only [decide_eq_true_eq]

/-- A store keeps the log and the map together if it meets the condition. -/
theorem step_store (h : LogInv base n c m) {dev : SdpInfo} {cut : ℕ}
    (hcond : SdpCond base (c, m) (.store dev cut)) :
    ∃ n', LogInv base n' (devCharInfoStorePeerAttHandle base c dev cut)
      (if (∃ a ∈ sdpSlots base, c a = 0xFF) ∧ 6 ≤ cut then
        Function.update m dev.key (some dev.charHandle) else m) := by
  have hslot := h.storeSlot_eq
  simp only [← storeSlot_isSome]
  unfold devCharInfoStorePeerAttHandle
  by_cases hn : n < 256
  · rw [if_pos hn] at hslot
    rw [hslot]
    by_cases hcut : 6 ≤ cut
    · obtain ⟨hnew, htakes⟩ := hcond hcut _ hslot
      have hall : (storeWrites (base + 32 * n) dev).take cut = storeWrites (base + 32 * n) dev :=
        List.take_of_length_le hcut
      rw [if_pos ⟨rfl, hcut⟩]
      dsimp only
      rw [hall]
      exact ⟨n + 1, h.store_done hn hnew htakes⟩
    · -- the mark that makes the record valid is written last
      rw [if_neg fun hboth => hcut hboth.2]
      exact ⟨n, h.store_cut hn dev (by omega)⟩
  · -- the sector is full
    rw [if_neg hn] at hslot
    rw [hslot, if_neg fun hboth => Bool.false_ne_true hboth.1]
    exact ⟨n, h⟩

theorem step_delete (h : LogInv base n c m) (key : PeerKey) (cut : ℕ) :
    LogInv base n (devCharInfoDelete base c key cut)
      (if 1 ≤ cut then Function.update m key none else m) := by
  unfold devCharInfoDelete
  cases hs : searchLoop c key (sdpSlots base) with
  | none =>
    -- there is nothing to delete
    dsimp only
    by_cases hcut : 1 ≤ cut
    · rw [if_pos hcut, ← h.map_none_of_search hs, Function.update_eq_self]
      exact h
    · rw [if_neg hcut]
      exact h
  | some a =>
    by_cases hcut : 1 ≤ cut
    · rw [if_pos hcut]
      dsimp only
      rw [List.take_of_length_le (show [(a, [attEraseMark])].length ≤ cut from hcut)]
      exact h.delete_done hs
    · rw [if_neg hcut, show cut = 0 by omega]
      exact h

/-- A step that meets the condition keeps the log and the map together. -/
theorem step (h : LogInv base n c m) {ev : SdpEvent} (hcond : SdpCond base (c, m) ev) :
    ∃ n', LogInv base n' (sdpPairStep base (c, m) ev).1 (sdpPairStep base (c, m) ev).2 := by
  cases ev with
  | store dev cut => exact h.step_store hcond
  | delete key cut => exact ⟨n, h.step_delete key cut⟩

/-- An erased sector, and the empty map. -/
theorem erased (h : Erased c base flashSdpAttMaxSize) : LogInv base 0 c fun _ => none where
  le := Nat.zero_le _
  used i hi := absurd hi (Nat.not_lt_zero i)
  free i _ hi := h (32 * i) (by unfold flashSdpAttMaxSize; omega)
  blank i hi := by
    constructor
    · intro k hk
      rw [Nat.add_assoc, Nat.add_assoc]
      exact h _ (by unfold flashSdpAttMaxSize; omega)
    · intro k hk
      rw [Nat.add_assoc, Nat.add_assoc]
      exact h _ (by unfold flashSdpAttMaxSize; omega)
  bonded i hi := absurd hi (Nat.not_lt_zero i)
  found key hne := absurd rfl hne
  unique i hi := absurd hi (Nat.not_lt_zero i)

end LogInv

/-- On an erased sector, in every run whose steps meet the condition, with power cuts before any
write, every search finds what the map holds. -/
theorem sdp_log (base : ℕ) (c : Cells) (evs : List SdpEvent)
    (hc : Erased c base flashSdpAttMaxSize)
    (hcond : Machine.Along (sdpPairStep base) (SdpCond base) (c, fun _ => none) evs) :
    Machine.Always (sdpPairStep base) (SdpOk base) (c, fun _ => none) evs := by
  have hstep : ∀ (p : Cells × SdpMap) (ev : SdpEvent), (∃ n, LogInv base n p.1 p.2) →
      SdpCond base p ev →
      ∃ n, LogInv base n (sdpPairStep base p ev).1 (sdpPairStep base p ev).2 := by
    rintro ⟨c, m⟩ ev ⟨n, hn⟩ hok
    exact hn.step hok
  have hok : ∀ p : Cells × SdpMap, (∃ n, LogInv base n p.1 p.2) → SdpOk base p := by
    rintro ⟨c, m⟩ ⟨n, hn⟩
    exact hn.sdpOk
  exact Machine.always_of_invariant hstep hok ⟨0, LogInv.erased hc⟩ hcond

/-- A device whose handles are all `h`. -/
def plainDevice (h : UInt16) : SdpInfo := ⟨⟨0, fun _ => 0x11⟩, fun _ => h⟩

/-- Another device. -/
def otherDevice : SdpInfo := ⟨⟨1, fun _ => 0x22⟩, fun i => UInt16.ofNat (16 + i)⟩

/-- A device is stored and deleted, the store of another one is cut behind three writes and done
again, and the first one is stored with new handles. -/
theorem sdp_log_example :
    Machine.Always (sdpPairStep 0) (SdpOk 0) (fun _ => 0xFF, fun _ => none)
      [.store (plainDevice 9) 6, .delete (plainDevice 9).key 1, .store otherDevice 3,
        .store otherDevice 6, .store (plainDevice 6) 6] := by
  have hstore {c : Cells} {m : SdpMap} {dev : SdpInfo} {a : ℕ} (hslot : storeSlot 0 c = some a)
      (hnew : searchLoop c dev.key (sdpSlots 0) = none)
      (htakes : ∀ w ∈ storeWrites a dev, Takes c w.1 w.2) : SdpCond 0 (c, m) (.store dev 6) := by
    intro _ b hb
    obtain rfl := Option.some.inj (hslot.symm.trans hb)
    exact ⟨hnew, htakes⟩
  apply sdp_log 0 (fun _ => 0xFF) _ fun _ _ => rfl
  refine ⟨hstore (a := 0) ?_ ?_ ?_, trivial, fun hcut => absurd hcut (by decide),
    hstore (a := 32) ?_ ?_ ?_, hstore (a := 64) ?_ ?_ ?_, trivial⟩
  all_goals decide +kernel

/-- The second record for one address is not found, as the first one still is. And a record
that is stored where the power was cut in an earlier store reads as a mixture of both. -/
theorem not_sdpOk_example :
    ¬ Machine.Always (sdpPairStep 0) (SdpOk 0) (fun _ => 0xFF, fun _ => none)
        [.store (plainDevice 9) 6, .store (plainDevice 6) 6] ∧
      ¬ Machine.Always (sdpPairStep 0) (SdpOk 0) (fun _ => 0xFF, fun _ => none)
        [.store (plainDevice 9) 5, .store (plainDevice 6) 6] := by
  constructor
  · intro h
    exact absurd (h.last (plainDevice 6).key) (by decide +kernel)
  · intro h
    exact absurd (h.last (plainDevice 6).key) (by decide +kernel)

end TlBleSdk.Common
