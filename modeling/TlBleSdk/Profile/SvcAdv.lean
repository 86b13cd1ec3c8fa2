import TlBleSdk.Hci.TrDef
import TlBleSdk.Lib.Records

/-!
# Advertising data

The lookups of `svc_adv.c` in the bytes of an advertising report, and `blc_adv_buildAdvData`.
Addresses count from `advData` on. Behind the report the memory goes on, and each lookup records
the bytes of it that it reads.
-/

namespace TlBleSdk.Profile

open Hci Records

/-! ## Constants -/

/-- `DT_COMPLETE_LIST_16BIT_SERVICE_UUID`. -/
def dtCompleteList16bitServiceUuid : UInt8 := 0x03

/-- `DT_SERVICE_DATA_16BIT_UUID`. -/
def dtServiceData16bitUuid : UInt8 := 0x16

/-- `DT_CSIP_RSI`. -/
def dtCsipRsi : UInt8 := 0x2E

/-- `SERVICE_UUID_BROADCAST_AUDIO_ANNOUNCEMENT`. -/
def serviceUuidBroadcastAudioAnnouncement : ℕ := 0x1852

/-! ## The lookups -/

/-- What a lookup returns, what it writes through `outLen`, and the bytes it reads. -/
structure Lookup where
  ptr : Option ℕ
  outLen : Option UInt8
  reads : List ℕ
deriving DecidableEq

/-- The loop of both lookups: `hit` takes a structure after it read its type and `reads`. -/
def advLoop (m : ℕ → UInt8) (hit : ℕ → Bool) (reads : ℕ → List ℕ) (p len : ℕ) :
    Option ℕ × List ℕ :=
  if len = 0 then (none, [])
  -- the type is read before the length is compared with what is left
  else if hit p then (some p, (p + 1) :: reads p)
  else if (m p).toNat + 1 < len then
    let r := advLoop m hit reads (p + ((m p).toNat + 1)) (len - ((m p).toNat + 1))
    (r.1, ((p + 1) :: reads p) ++ p :: r.2)
  else (none, ((p + 1) :: reads p) ++ [p])
termination_by len

/-- What both lookups make of the loop: the pointer is `skip` bytes behind the start of the
structure found, and `valueLen` makes `*outLen` of its length byte. The pointer `outLen` may be
`NULL`. -/
def advLookup (m : ℕ → UInt8) (hit : ℕ → Bool) (reads : ℕ → List ℕ) (skip : ℕ)
    (valueLen : UInt8 → UInt8) (len : ℕ) (outLen : Bool) : Lookup :=
  match advLoop m hit reads 0 len with
  | (some p, reads) =>
    if outLen then ⟨some (p + skip), some (valueLen (m p)), reads ++ [p]⟩
    else ⟨some (p + skip), none, reads⟩
  | (none, reads) => ⟨none, if outLen then some 0 else none, reads⟩

/-- The structure at `p` has the type. -/
def hasType (m : ℕ → UInt8) (advType : UInt8) (p : ℕ) : Bool := m (p + 1) = advType

/-- `blc_adv_getAdvTypeInformation`. -/
def blcAdvGetAdvTypeInformation (m : ℕ → UInt8) (len : ℕ) (advType : UInt8) (outLen : Bool) :
    Lookup :=
  advLookup m (hasType m advType) (fun _ => []) 2 (fun p0 => p0 - 1) len outLen

/-- The structure at `p` has the type, and the bytes behind its type are `cmpValue`. -/
def hasValue (m : ℕ → UInt8) (advType : UInt8) (cmpValue : List UInt8) (p : ℕ) : Bool :=
  m (p + 1) = advType && bytesAt m (p + 2) cmpValue.length = cmpValue

/-- `memcmp` looks at `cmpValueLen` bytes of a structure that has the type. -/
def cmpReads (m : ℕ → UInt8) (advType : UInt8) (cmpValueLen p : ℕ) : List ℕ :=
  if m (p + 1) = advType then (List.range cmpValueLen).map fun i => p + 2 + i else []

/-- `blc_adv_getAdvTypeInformationWithCmpValue`. -/
def blcAdvGetAdvTypeInformationWithCmpValue (m : ℕ → UInt8) (len : ℕ) (advType : UInt8)
    (cmpValue : List UInt8) (outLen : Bool) : Lookup :=
  advLookup m (hasValue m advType cmpValue) (cmpReads m advType cmpValue.length)
    (cmpValue.length + 2) (fun p0 => p0 - UInt8.ofNat cmpValue.length - 1) len outLen

/-- `blc_adv_get16BitServiceDataInformation`. -/
def blcAdvGet16BitServiceDataInformation (m : ℕ → UInt8) (len serviceUuid : ℕ) (outLen : Bool) :
    Lookup :=
  blcAdvGetAdvTypeInformationWithCmpValue m len dtServiceData16bitUuid
    (uint16ToBstream serviceUuid) outLen

/-- A found value of `n` bytes that is copied, if it has this length, and all bytes that are read
for it. -/
def copyFound (m : ℕ → UInt8) (r : Lookup) (n : ℕ) : Option (List UInt8) × List ℕ :=
  match r.ptr with
  | some buff =>
    -- a value of another length is not copied
    if r.outLen = some (UInt8.ofNat n) then
      (some (bytesAt m buff n), r.reads ++ (List.range n).map fun i => buff + i)
    else (none, r.reads)
  | none => (none, r.reads)

/-- `blc_advGetBroadcastID`: the bytes that get to `broadcastID`, if it returns `true`. -/
def blcAdvGetBroadcastID (m : ℕ → UInt8) (len : ℕ) : Option (List UInt8) × List ℕ :=
  copyFound m
    (blcAdvGet16BitServiceDataInformation m len serviceUuidBroadcastAudioAnnouncement true) 3

/-- `blc_adv_getCsipRSI`: the bytes that get to `rsi`, if it returns `true`. -/
def blcAdvGetCsipRSI (m : ℕ → UInt8) (len : ℕ) : Option (List UInt8) × List ℕ :=
  copyFound m (blcAdvGetAdvTypeInformation m len dtCsipRsi true) 6

/-- The loop over `n` UUIDs from `pUuid` on. -/
def uuidLoop (m : ℕ → UInt8) (uuid : ℕ) (pUuid : ℕ) : (n : ℕ) → Bool × List ℕ
  | 0 => (false, [])
  | n + 1 =>
    -- the loop ends at the first one that is equal
    if bytesToUint16 m pUuid = uuid then (true, [pUuid, pUuid + 1])
    else
      let r := uuidLoop m uuid (pUuid + 2) n
      (r.1, pUuid :: (pUuid + 1) :: r.2)

/-- `blc_adv_get16BitServiceUuid`. -/
def blcAdvGet16BitServiceUuid (m : ℕ → UInt8) (len uuid : ℕ) : Bool × List ℕ :=
  let r := blcAdvGetAdvTypeInformation m len dtCompleteList16bitServiceUuid true
  match r.ptr, r.outLen with
  | some pUuid, some uuidLen =>
    let found := uuidLoop m uuid pUuid (uuidLen.toNat / 2)
    (found.1, r.reads ++ found.2)
  | _, _ => (false, r.reads)

/-! ## The structures that a lookup comes to -/

/-- Where the structures of a report start, along their length bytes. -/
def adStarts (m : ℕ → UInt8) (len : ℕ) : List ℕ := starts (fun p => (m p).toNat) 0 len

theorem advLoop_fst (m : ℕ → UInt8) (hit : ℕ → Bool) (reads : ℕ → List ℕ) (p len : ℕ) :
    (advLoop m hit reads p len).1 = (starts (fun p => (m p).toNat) p len).find? hit := by
  induction len using Nat.strongRecOn generalizing p with
  | _ len ih =>
    rw [advLoop, starts]
    by_cases hlen : len = 0
    · rw [if_pos hlen, if_pos hlen]
      rfl
    rw [if_neg hlen, if_neg hlen]
    by_cases hhit : hit p
    · -- the loop ends here, whatever is left
      rw [if_pos hhit]
      split_ifs <;> rw [List.find?_cons_of_pos hhit]
    · rw [if_neg hhit]
      split_ifs with hlt
      · -- the next structure is as far on as the length byte says
        rw [List.find?_cons_of_neg hhit]
        exact ih _ (by omega) _
      · rw [List.find?_cons_of_neg hhit]
        rfl

/-- What the loop reads is in the first `bound` bytes exactly if that is so at each structure it
comes to. -/
theorem advLoop_reads (m : ℕ → UInt8) (hit : ℕ → Bool) (reads : ℕ → List ℕ) (p len bound : ℕ) :
    (∀ a ∈ (advLoop m hit reads p len).2, a < bound) ↔
      ∀ q ∈ visited hit (starts (fun p => (m p).toNat) p len),
        q + 1 < bound ∧ ∀ a ∈ reads q, a < bound := by
  induction len using Nat.strongRecOn generalizing p with
  | _ len ih =>
    rw [advLoop, starts]
    by_cases hlen : len = 0
    · rw [if_pos hlen, if_pos hlen]
      simp [visited_nil]
    rw [if_neg hlen, if_neg hlen]
    by_cases hhit : hit p
    · rw [if_pos hhit]
      split_ifs <;> simp [visited_cons, hhit]
    · rw [if_neg hhit]
      split_ifs with hlt
      · -- what is read of this structure, and what the loop reads behind it
        have hrest := ih _ (by omega : len - ((m p).toNat + 1) < len) (p + ((m p).toNat + 1))
        simp only [visited_cons, hhit, List.cons_append, List.forall_mem_cons,
          List.forall_mem_append, hrest]
        constructor
        · rintro ⟨hp, hreads, -, hall⟩
          exact ⟨⟨hp, hreads⟩, hall⟩
        · rintro ⟨⟨hp, hreads⟩, hall⟩
          exact ⟨hp, hreads, by omega, hall⟩
      · simp only [visited_cons, hhit, List.cons_append, List.forall_mem_cons,
          List.forall_mem_append, visited_nil]
        constructor
        · rintro ⟨hp, hreads, -⟩
          exact ⟨⟨hp, hreads⟩, by simp⟩
        · rintro ⟨⟨hp, hreads⟩, -⟩
          exact ⟨hp, hreads, by simp; omega⟩

/-! ## What the lookups return and read -/

section Lookup

variable (m : ℕ → UInt8) (hit : ℕ → Bool) (reads : ℕ → List ℕ) (skip : ℕ)
  (valueLen : UInt8 → UInt8) (len : ℕ)

/-- The pointer is behind the start of the first structure that `hit` takes. -/
theorem advLookup_ptr (out : Bool) : (advLookup m hit reads skip valueLen len out).ptr =
    ((adStarts m len).find? hit).map (· + skip) := by
  rw [adStarts, ← advLoop_fst m hit reads, advLookup]
  obtain ⟨_ | p, rs⟩ := advLoop m hit reads 0 len
  · rfl
  · cases out <;> rfl

theorem advLookup_outLen (out : Bool) : (advLookup m hit reads skip valueLen len out).outLen =
    if out then some (((adStarts m len).find? hit).elim 0 fun q => valueLen (m q)) else none := by
  rw [adStarts, ← advLoop_fst m hit reads, advLookup]
  obtain ⟨_ | p, rs⟩ := advLoop m hit reads 0 len
  · rfl
  · cases out <;> rfl

/-- What a lookup reads is in the report exactly if the type and what `reads` adds are, at each
structure that it comes to. -/
theorem advLookup_reads (out : Bool) :
    (∀ a ∈ (advLookup m hit reads skip valueLen len out).reads, a < len) ↔
      ∀ q ∈ visited hit (adStarts m len), q + 2 ≤ len ∧ ∀ a ∈ reads q, a < len := by
  have hptr := advLoop_fst m hit reads 0 len
  refine Iff.trans ?_ (advLoop_reads m hit reads 0 len len)
  rw [advLookup]
  generalize advLoop m hit reads 0 len = r at hptr ⊢
  obtain ⟨_ | p, rs⟩ := r
  · rfl
  · -- the length byte of the structure found is in the report in any case
    have hp : p < len := by
      have hmem := lt_of_mem_starts (List.mem_of_find?_eq_some hptr.symm)
      omega
    cases out
    · rfl
    · simp [or_imp, forall_and, hp]

end Lookup

/-! ## Reads within the report -/

/-- The lookup reads in the report only, and what it returns is in the report. -/
def Lookup.Safe (len : ℕ) (r : Lookup) : Prop :=
  (∀ a ∈ r.reads, a < len) ∧
    match r.ptr with
    | none => ∀ n, r.outLen = some n → n = 0
    | some p => p ≤ len ∧ ∀ n, r.outLen = some n → p + n.toNat ≤ len

/-- Each structure that the lookup by type comes to has its length and type in the report. -/
def HeadersFit (m : ℕ → UInt8) (t : UInt8) (len : ℕ) : Prop :=
  ∀ q ∈ visited (hasType m t) (adStarts m len), q + 2 ≤ len

/-- Each structure that the lookup with a value comes to has its length and type in the report, and
if it has the type, as many bytes as are compared. -/
def ValuesFit (m : ℕ → UInt8) (t : UInt8) (cmp : List UInt8) (len : ℕ) : Prop :=
  ∀ q ∈ visited (hasValue m t cmp) (adStarts m len),
    q + 2 ≤ len ∧ (m (q + 1) = t → q + 2 + cmp.length ≤ len)

theorem advLookup_safe_iff (m : ℕ → UInt8) (hit : ℕ → Bool) (reads : ℕ → List ℕ) (skip : ℕ)
    (valueLen : UInt8 → UInt8) (len : ℕ) (out : Bool) :
    (advLookup m hit reads skip valueLen len out).Safe len ↔
      (∀ q ∈ visited hit (adStarts m len), q + 2 ≤ len ∧ ∀ a ∈ reads q, a < len) ∧
        ∀ q, (adStarts m len).find? hit = some q →
          q + skip ≤ len ∧ (out = true → q + skip + (valueLen (m q)).toNat ≤ len) := by
  rw [Lookup.Safe, advLookup_reads, advLookup_ptr, advLookup_outLen]
  refine and_congr_right fun _ => ?_
  cases (adStarts m len).find? hit with
  | none => cases out <;> simp
  | some q => cases out <;> simp

theorem cmpReads_iff (m : ℕ → UInt8) (t : UInt8) (n q len : ℕ) (hq : q + 2 ≤ len) :
    (∀ a ∈ cmpReads m t n q, a < len) ↔ (m (q + 1) = t → q + 2 + n ≤ len) := by
  unfold cmpReads
  split_ifs with ht
  · simp only [List.forall_mem_map, List.mem_range, ht, forall_const]
    constructor
    · intro h
      by_cases hn : n = 0
      · omega
      · have hlast := h (n - 1) (by omega)
        omega
    · intro h i hi
      omega
  · simp [ht]

theorem valuesFit_iff (m : ℕ → UInt8) (t : UInt8) (cmp : List UInt8) (len : ℕ) :
    ValuesFit m t cmp len ↔
      ∀ q ∈ visited (hasValue m t cmp) (adStarts m len),
        q + 2 ≤ len ∧ ∀ a ∈ cmpReads m t cmp.length q, a < len :=
  forall₂_congr fun q _ => and_congr_right fun hq => (cmpReads_iff m t _ q len hq).symm

/-- A lookup by type is safe exactly if the structures that it comes to have their headers in the
report, and the value of the one it finds ends there. -/
theorem getAdvTypeInformation_safe_iff (m : ℕ → UInt8) (len : ℕ) (t : UInt8) (out : Bool) :
    (blcAdvGetAdvTypeInformation m len t out).Safe len ↔
      HeadersFit m t len ∧ ∀ q, (adStarts m len).find? (hasType m t) = some q → out = true →
        q + 2 + (m q - 1).toNat ≤ len := by
  rw [blcAdvGetAdvTypeInformation, advLookup_safe_iff]
  simp only [List.not_mem_nil, false_imp_iff, implies_true, and_true]
  refine and_congr_right fun hheads => forall₂_congr fun q hq => and_iff_right ?_
  exact hheads q (mem_visited_of_find? hq)

/-- A lookup with a value is safe exactly if the structures that it comes to have their headers and
the bytes that are compared in the report, and the rest of the one it finds ends there. -/
theorem getAdvTypeInformationWithCmpValue_safe_iff (m : ℕ → UInt8) (len : ℕ) (t : UInt8)
    (cmp : List UInt8) (out : Bool) :
    (blcAdvGetAdvTypeInformationWithCmpValue m len t cmp out).Safe len ↔
      ValuesFit m t cmp len ∧
        ∀ q, (adStarts m len).find? (hasValue m t cmp) = some q → out = true →
          q + 2 + cmp.length + (m q - UInt8.ofNat cmp.length - 1).toNat ≤ len := by
  rw [blcAdvGetAdvTypeInformationWithCmpValue, advLookup_safe_iff, ← valuesFit_iff]
  have hadd : ∀ q, q + (cmp.length + 2) = q + 2 + cmp.length := fun q => by omega
  simp only [hadd]
  refine and_congr_right fun hvals => forall₂_congr fun q hq => and_iff_right ?_
  have hhit : hasValue m t cmp q = true := List.find?_some hq
  rw [hasValue, Bool.and_eq_true, decide_eq_true_iff] at hhit
  exact (hvals q (mem_visited_of_find? hq)).2 hhit.1

/-! ## The readers of a found value -/

/-- What is copied from the pointer of a lookup is in the report exactly if the lookup reads there
and the value it copies ends there. -/
theorem copyFound_reads_iff (m : ℕ → UInt8) (r : Lookup) {n len : ℕ} (hn : 0 < n) :
    (∀ a ∈ (copyFound m r n).2, a < len) ↔
      (∀ a ∈ r.reads, a < len) ∧
        ∀ p, r.ptr = some p → r.outLen = some (UInt8.ofNat n) → p + n ≤ len := by
  unfold copyFound
  cases hptr : r.ptr with
  | none => simp
  | some p =>
    by_cases hlen : r.outLen = some (UInt8.ofNat n)
    · simp only [hlen, if_true, List.forall_mem_append, List.forall_mem_map, List.mem_range]
      refine and_congr_right fun _ => ?_
      constructor
      · -- the last byte that is copied
        rintro h p' ⟨⟩ -
        have hlast := h (n - 1) (by omega)
        omega
      · intro h i hi
        have hend := h p rfl trivial
        omega
    · simp [hlen]

/-- The UUIDs that the loop looks at are in the report. -/
theorem uuidLoop_reads_iff (m : ℕ → UInt8) (uuid p n len : ℕ) :
    (∀ a ∈ (uuidLoop m uuid p n).2, a < len) ↔
      ∀ i < n, (∀ j < i, bytesToUint16 m (p + 2 * j) ≠ uuid) → p + 2 * i + 2 ≤ len := by
  induction n generalizing p with
  | zero => simp [uuidLoop]
  | succ n ih =>
    rw [Nat.forall_lt_succ_left, uuidLoop]
    by_cases hfound : bytesToUint16 m p = uuid
    · rw [if_pos hfound]
      -- nothing is read behind the UUID
      have hnone : ∀ i < n, (∀ j < i + 1, bytesToUint16 m (p + 2 * j) ≠ uuid) →
          p + 2 * (i + 1) + 2 ≤ len :=
        fun i _ hne => absurd hfound (hne 0 (Nat.succ_pos i))
      rw [and_iff_left hnone]
      simp
      omega
    · rw [if_neg hfound]
      have hshift : ∀ i, p + 2 * (i + 1) = p + 2 + 2 * i := fun i => by omega
      simp only [List.forall_mem_cons, ih, Nat.forall_lt_succ_left, hshift, Nat.mul_zero,
        Nat.add_zero, ne_eq, hfound, not_false_eq_true, true_and]
      constructor
      · rintro ⟨hp, hp1, hrest⟩
        exact ⟨fun _ => by omega, hrest⟩
      · rintro ⟨hp, hrest⟩
        have hp := hp fun _ hj => absurd hj (Nat.not_lt_zero _)
        exact ⟨by omega, by omega, hrest⟩

theorem getAdvTypeInformation_reads_iff (m : ℕ → UInt8) (len : ℕ) (t : UInt8) (out : Bool) :
    (∀ a ∈ (blcAdvGetAdvTypeInformation m len t out).reads, a < len) ↔ HeadersFit m t len := by
  rw [blcAdvGetAdvTypeInformation, advLookup_reads]
  simp only [List.not_mem_nil, false_imp_iff, implies_true, and_true]
  rfl

theorem getAdvTypeInformationWithCmpValue_reads_iff (m : ℕ → UInt8) (len : ℕ) (t : UInt8)
    (cmp : List UInt8) (out : Bool) :
    (∀ a ∈ (blcAdvGetAdvTypeInformationWithCmpValue m len t cmp out).reads, a < len) ↔
      ValuesFit m t cmp len := by
  rw [blcAdvGetAdvTypeInformationWithCmpValue, advLookup_reads, valuesFit_iff]

theorem sub_one_eq_six {x : UInt8} : x - 1 = 6 ↔ x = 7 := by grind

theorem sub_three_eq_three {x : UInt8} : x - 2 - 1 = 3 ↔ x = 6 := by grind

theorem blcAdvGetBroadcastID_reads_iff (m : ℕ → UInt8) (len : ℕ) :
    (∀ a ∈ (blcAdvGetBroadcastID m len).2, a < len) ↔
      ValuesFit m dtServiceData16bitUuid (uint16ToBstream serviceUuidBroadcastAudioAnnouncement)
          len ∧
        ∀ q, (adStarts m len).find? (hasValue m dtServiceData16bitUuid
            (uint16ToBstream serviceUuidBroadcastAudioAnnouncement)) = some q →
          m q = 6 → q + 7 ≤ len := by
  rw [blcAdvGetBroadcastID, copyFound_reads_iff m _ (by decide),
    blcAdvGet16BitServiceDataInformation, getAdvTypeInformationWithCmpValue_reads_iff]
  refine and_congr_right fun _ => ?_
  rw [blcAdvGetAdvTypeInformationWithCmpValue, advLookup_ptr, advLookup_outLen]
  cases (adStarts m len).find? (hasValue m dtServiceData16bitUuid
      (uint16ToBstream serviceUuidBroadcastAudioAnnouncement)) with
  | none => simp
  | some q =>
    have hsix : m q - 2 - 1 = 3 ↔ m q = 6 := sub_three_eq_three
    simp [uint16ToBstream, hsix, Nat.add_assoc]

theorem blcAdvGetCsipRSI_reads_iff (m : ℕ → UInt8) (len : ℕ) :
    (∀ a ∈ (blcAdvGetCsipRSI m len).2, a < len) ↔
      HeadersFit m dtCsipRsi len ∧
        ∀ q, (adStarts m len).find? (hasType m dtCsipRsi) = some q → m q = 7 → q + 8 ≤ len := by
  rw [blcAdvGetCsipRSI, copyFound_reads_iff m _ (by decide), getAdvTypeInformation_reads_iff]
  refine and_congr_right fun _ => ?_
  rw [blcAdvGetAdvTypeInformation, advLookup_ptr, advLookup_outLen]
  cases (adStarts m len).find? (hasType m dtCsipRsi) with
  | none => simp
  | some q =>
    have hseven : m q - 1 = 6 ↔ m q = 7 := sub_one_eq_six
    simp [hseven, Nat.add_assoc]

theorem blcAdvGet16BitServiceUuid_reads_iff (m : ℕ → UInt8) (len uuid : ℕ) :
    (∀ a ∈ (blcAdvGet16BitServiceUuid m len uuid).2, a < len) ↔
      HeadersFit m dtCompleteList16bitServiceUuid len ∧
        ∀ q, (adStarts m len).find? (hasType m dtCompleteList16bitServiceUuid) = some q →
          ∀ i < (m q - 1).toNat / 2, (∀ j < i, bytesToUint16 m (q + 2 + 2 * j) ≠ uuid) →
            q + 2 + 2 * i + 2 ≤ len := by
  have hreads :=
    getAdvTypeInformation_reads_iff m len dtCompleteList16bitServiceUuid true
  have hptr := advLookup_ptr m (hasType m dtCompleteList16bitServiceUuid) (fun _ => []) 2
    (fun p0 => p0 - 1) len true
  have hout := advLookup_outLen m (hasType m dtCompleteList16bitServiceUuid) (fun _ => []) 2
    (fun p0 => p0 - 1) len true
  rw [← blcAdvGetAdvTypeInformation] at hptr hout
  rw [← hreads, blcAdvGet16BitServiceUuid]
  cases hfound : (adStarts m len).find? (hasType m dtCompleteList16bitServiceUuid) with
  | none =>
    rw [hfound] at hptr hout
    rw [hptr, hout]
    simp
  | some q =>
    rw [hfound] at hptr hout
    rw [hptr, hout]
    simp only [Option.map_some, Option.elim_some, if_true, List.forall_mem_append,
      uuidLoop_reads_iff]
    simp

/-- Exactly when the lookups in a report are safe: where the structures that they come to have
their headers (and the bytes that are compared) in the report, and what they return or copy of the
structure they find ends there. -/
theorem svcAdv_safe_iff (m : ℕ → UInt8) (len : ℕ) (t : UInt8) (cmp : List UInt8) (uuid : ℕ)
    (out : Bool) :
    ((blcAdvGetAdvTypeInformation m len t out).Safe len ↔
      HeadersFit m t len ∧ ∀ q, (adStarts m len).find? (hasType m t) = some q → out = true →
        q + 2 + (m q - 1).toNat ≤ len) ∧
    ((blcAdvGetAdvTypeInformationWithCmpValue m len t cmp out).Safe len ↔
      ValuesFit m t cmp len ∧
        ∀ q, (adStarts m len).find? (hasValue m t cmp) = some q → out = true →
          q + 2 + cmp.length + (m q - UInt8.ofNat cmp.length - 1).toNat ≤ len) ∧
    ((∀ a ∈ (blcAdvGetBroadcastID m len).2, a < len) ↔
      ValuesFit m dtServiceData16bitUuid (uint16ToBstream serviceUuidBroadcastAudioAnnouncement)
          len ∧
        ∀ q, (adStarts m len).find? (hasValue m dtServiceData16bitUuid
            (uint16ToBstream serviceUuidBroadcastAudioAnnouncement)) = some q →
          m q = 6 → q + 7 ≤ len) ∧
    ((∀ a ∈ (blcAdvGetCsipRSI m len).2, a < len) ↔
      HeadersFit m dtCsipRsi len ∧
        ∀ q, (adStarts m len).find? (hasType m dtCsipRsi) = some q → m q = 7 → q + 8 ≤ len) ∧
    ((∀ a ∈ (blcAdvGet16BitServiceUuid m len uuid).2, a < len) ↔
      HeadersFit m dtCompleteList16bitServiceUuid len ∧
        ∀ q, (adStarts m len).find? (hasType m dtCompleteList16bitServiceUuid) = some q →
          ∀ i < (m q - 1).toNat / 2, (∀ j < i, bytesToUint16 m (q + 2 + 2 * j) ≠ uuid) →
            q + 2 + 2 * i + 2 ≤ len) :=
  ⟨getAdvTypeInformation_safe_iff m len t out,
    getAdvTypeInformationWithCmpValue_safe_iff m len t cmp out,
    blcAdvGetBroadcastID_reads_iff m len, blcAdvGetCsipRSI_reads_iff m len,
    blcAdvGet16BitServiceUuid_reads_iff m len uuid⟩

/-- The type of a structure that only has its length byte in the report is read behind it. -/
theorem svcAdv_reads_behind_report :
    ¬ ∀ (m : ℕ → UInt8) (len : ℕ) (t : UInt8) (out : Bool),
      (blcAdvGetAdvTypeInformation m len t out).Safe len := by
  intro h
  obtain ⟨hheads, -⟩ := (getAdvTypeInformation_safe_iff (fun _ => 0) 1 1 true).mp (h _ 1 1 true)
  have hstarts : adStarts (fun _ => 0) 1 = [0] := starts_of_le (by decide) (by decide)
  have hzero : 0 ∈ visited (hasType (fun _ => 0) 1) (adStarts (fun _ => 0) 1) := by
    rw [hstarts]
    decide
  exact absurd (hheads 0 hzero) (by decide)

end TlBleSdk.Profile
