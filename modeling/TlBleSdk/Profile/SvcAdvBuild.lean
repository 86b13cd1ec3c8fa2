import TlBleSdk.Profile.SvcAdv

/-!
# Building advertising data

`blc_adv_buildAdvData` writes structures one behind the other, and the lookups find them again. A
lookup with a value compares without regard to the end of a structure, so that one that is too
short is taken if the bytes of the next one complete it.
-/

namespace TlBleSdk.Profile

open Hci Records

/-- A `blc_adv_ltv_t`: its length byte counts the type and the value. -/
structure BlcAdvLtv where
  type : UInt8
  value : List UInt8
  length_le : value.length ≤ 254

namespace BlcAdvLtv

def len (s : BlcAdvLtv) : ℕ := s.value.length + 1

/-- The structure as it is sent. -/
def encoded (s : BlcAdvLtv) : List UInt8 := UInt8.ofNat s.len :: s.type :: s.value

@[simp] theorem length_encoded (s : BlcAdvLtv) : s.encoded.length = s.len + 1 := rfl

theorem toNat_ofNat_len (s : BlcAdvLtv) : (UInt8.ofNat s.len).toNat = s.len := by
  have hlen := s.length_le
  rw [UInt8.toNat_ofNat', len]
  omega

end BlcAdvLtv

/-- The loop of `blc_adv_buildAdvData`, for at most `fuel` turns: the memory, and the end of what
is written. The counter `i` is a `u8`. -/
def buildLoop (ltvs : List BlcAdvLtv) (numLtvs : ℕ) :
    (fuel : ℕ) → (ℕ → UInt8) → (ptr i : ℕ) → Option ((ℕ → UInt8) × ℕ)
  | 0, m, ptr, i => if i < numLtvs then none else some (m, ptr)
  | fuel + 1, m, ptr, i =>
    if i < numLtvs then
      (ltvs[i]?).bind fun s =>
        let m := Function.update m ptr (UInt8.ofNat s.len)
        let m := Function.update m (ptr + 1) s.type
        let m := memcpy m (ptr + 2) s.value
        buildLoop ltvs numLtvs fuel m (ptr + 2 + (s.len - 1)) (u8 (i + 1))
    else some (m, ptr)

/-- `blc_adv_buildAdvData`: the memory, and the length it returns. -/
def blcAdvBuildAdvData (fuel : ℕ) (m : ℕ → UInt8) (ltvs : List BlcAdvLtv) (numLtvs : ℕ) :
    Option ((ℕ → UInt8) × ℕ) :=
  (buildLoop ltvs numLtvs fuel m 0 0).map fun r => (r.1, u16 r.2)

/-- The structures one behind the other. -/
def advData (ltvs : List BlcAdvLtv) : List UInt8 := ltvs.flatMap BlcAdvLtv.encoded

@[simp] theorem advData_nil : advData [] = [] := rfl

@[simp] theorem advData_cons (s : BlcAdvLtv) (l : List BlcAdvLtv) :
    advData (s :: l) = s.encoded ++ advData l := List.flatMap_cons

theorem advData_concat (l : List BlcAdvLtv) (s : BlcAdvLtv) :
    advData (l ++ [s]) = advData l ++ s.encoded := by
  simp [advData]

/-- The stores of one turn. -/
theorem store_encoded (m : ℕ → UInt8) (ptr : ℕ) (s : BlcAdvLtv) :
    memcpy (Function.update (Function.update m ptr (UInt8.ofNat s.len)) (ptr + 1) s.type) (ptr + 2)
      s.value = memcpy m ptr s.encoded := by
  rw [← memcpy_singleton m, ← memcpy_singleton _ (ptr + 1)]
  have hhead := memcpy_memcpy m ptr [UInt8.ofNat s.len] [s.type]
  have hall := memcpy_memcpy m ptr [UInt8.ofNat s.len, s.type] s.value
  rw [List.length_singleton] at hhead
  rw [hhead]
  exact hall

/-- With the structures `pre` written, the loop writes the others. -/
theorem buildLoop_spec (m : ℕ → UInt8) {pre post : List BlcAdvLtv} {fuel : ℕ}
    (hlen : (pre ++ post).length ≤ 255) (hfuel : post.length ≤ fuel) :
    buildLoop (pre ++ post) (pre ++ post).length fuel (memcpy m 0 (advData pre))
        (advData pre).length pre.length =
      some (memcpy m 0 (advData (pre ++ post)), (advData (pre ++ post)).length) := by
  induction post generalizing pre fuel with
  | nil =>
    rw [List.append_nil]
    cases fuel <;> simp [buildLoop]
  | cons s post ih =>
    obtain ⟨f, rfl⟩ : ∃ f, fuel = f + 1 := by
      rw [List.length_cons] at hfuel
      exact ⟨fuel - 1, by omega⟩
    rw [List.length_append, List.length_cons] at hlen
    have hs : (pre ++ s :: post)[pre.length]? = some s := by simp
    have hassoc : pre ++ s :: post = (pre ++ [s]) ++ post := by simp
    have hu8 : u8 (pre.length + 1) = (pre ++ [s]).length := by
      rw [u8_of_lt (by omega), List.length_append, List.length_singleton]
    have hptr : (advData pre).length + 2 + (s.len - 1) = (advData (pre ++ [s])).length := by
      rw [advData_concat, List.length_append, BlcAdvLtv.length_encoded, BlcAdvLtv.len]
      omega
    -- what is in the buffer then is the encoding of one structure more
    have hmem := memcpy_memcpy m 0 (advData pre) s.encoded
    rw [Nat.zero_add, ← advData_concat] at hmem
    rw [buildLoop, if_pos (by simp), hs, Option.bind_some]
    dsimp only
    rw [store_encoded, hmem, hptr, hu8, hassoc]
    apply ih
    · rw [List.length_append, List.length_append, List.length_singleton]
      omega
    · rw [List.length_cons] at hfuel
      omega

/-- The structures are written one behind the other, and their length is returned. -/
theorem blcAdvBuildAdvData_eq (m : ℕ → UInt8) {l : List BlcAdvLtv} {fuel : ℕ}
    (hlen : l.length ≤ 255) (hfuel : l.length ≤ fuel) :
    blcAdvBuildAdvData fuel m l l.length =
      some (memcpy m 0 (advData l), u16 (advData l).length) := by
  have hloop := @buildLoop_spec m [] l fuel hlen hfuel
  have hmem : memcpy m 0 (advData []) = m := by
    funext i
    exact if_neg fun h => absurd h.2 (Nat.not_lt_zero i)
  rw [hmem] at hloop
  rw [blcAdvBuildAdvData]
  exact congrArg (Option.map fun r => (r.1, u16 r.2)) hloop

/-! ## Where the structures are -/

/-- The structures with the addresses where they start. -/
def places : ℕ → List BlcAdvLtv → List (ℕ × BlcAdvLtv)
  | _, [] => []
  | a, s :: l => (a, s) :: places (a + s.encoded.length) l

/-- The bytes of the structures are at their places. -/
theorem hasBytes_of_mem_places {m : ℕ → UInt8} {a : ℕ} {l : List BlcAdvLtv}
    (h : HasBytes m a (advData l)) : ∀ e ∈ places a l, HasBytes m e.1 e.2.encoded := by
  induction l generalizing a with
  | nil => simp [places]
  | cons s l ih =>
    rw [advData_cons, hasBytes_append] at h
    rw [places, List.forall_mem_cons]
    exact ⟨h.1, ih h.2⟩

/-- A walk over the bytes comes to the structures. -/
theorem starts_advData {m : ℕ → UInt8} {a : ℕ} {l : List BlcAdvLtv}
    (h : HasBytes m a (advData l)) :
    starts (fun p => (m p).toNat) a (advData l).length = (places a l).map Prod.fst := by
  induction l generalizing a with
  | nil => exact starts_zero a
  | cons s l ih =>
    rw [advData_cons, hasBytes_append] at h
    have hlen : (m a).toNat + 1 = s.encoded.length := by
      rw [(hasBytes_cons.mp h.1).1, s.toNat_ofNat_len]
      rfl
    rw [advData_cons, List.length_append, starts_append hlen, ih h.2, places, List.map_cons]

/-! ## Finding a structure -/

section Found

variable {m : ℕ → UInt8} {q : ℕ} {s : BlcAdvLtv}

/-- The parts of a structure in memory. -/
theorem hasBytes_encoded (h : HasBytes m q s.encoded) :
    (m q).toNat = s.value.length + 1 ∧ m (q + 1) = s.type ∧ HasBytes m (q + 2) s.value := by
  obtain ⟨hlen, hrest⟩ := hasBytes_cons.mp h
  obtain ⟨htype, hvalue⟩ := hasBytes_cons.mp hrest
  exact ⟨by rw [hlen, s.toNat_ofNat_len, BlcAdvLtv.len], htype, hvalue⟩

/-- The first bytes of a value. -/
theorem bytesAt_take (h : HasBytes m q s.value) {n : ℕ} (hn : n ≤ s.value.length) :
    bytesAt m q n = s.value.take n := by
  rw [← List.take_append_drop n s.value, hasBytes_append] at h
  have htake := h.1
  rwa [HasBytes, List.length_take, Nat.min_eq_left hn] at htake

/-- A value behind its first bytes. -/
theorem bytesAt_drop (h : HasBytes m q s.value) {n : ℕ} (hn : n ≤ s.value.length) :
    bytesAt m (q + n) (s.value.length - n) = s.value.drop n := by
  rw [← List.take_append_drop n s.value, hasBytes_append] at h
  have hdrop := h.2
  rwa [HasBytes, List.length_take, List.length_drop, Nat.min_eq_left hn] at hdrop

end Found

/-- The lookup returns what is behind the first `n` bytes of the value of the first structure that
`P` holds of, and its length. -/
def Finds (m : ℕ → UInt8) (l : List BlcAdvLtv) (P : BlcAdvLtv → Bool) (n : ℕ) (r : Lookup) : Prop :=
  match (places 0 l).find? fun e => P e.2 with
  | none => r.ptr = none ∧ r.outLen = some 0
  | some (q, s) =>
    r.ptr = some (q + 2 + n) ∧ r.outLen = some (UInt8.ofNat (s.value.length - n)) ∧
      bytesAt m (q + 2 + n) (s.value.length - n) = s.value.drop n

/-- The first structure among the places is the first one of the list. -/
theorem find?_places (a : ℕ) (l : List BlcAdvLtv) (P : BlcAdvLtv → Bool) :
    ((places a l).find? fun e => P e.2).map Prod.snd = l.find? P := by
  induction l generalizing a with
  | nil => rfl
  | cons s l ih =>
    rw [places, List.find?_cons, List.find?_cons]
    cases P s with
    | true => rfl
    | false => exact ih _

/-- What a lookup in the bytes of the structures comes to. -/
theorem find?_adStarts {m : ℕ → UInt8} {l : List BlcAdvLtv} (h : HasBytes m 0 (advData l))
    (hit : ℕ → Bool) : (adStarts m (advData l).length).find? hit =
      ((places 0 l).find? fun e => hit e.1).map Prod.fst := by
  rw [adStarts, starts_advData h, List.find?_map]
  rfl

/-- The length byte counts the type, and the `k` bytes that are left out. -/
theorem sub_length_eq {x : UInt8} {n k : ℕ} (hx : x.toNat = n + 1) (hn : n ≤ 254) (hk : k ≤ n) :
    x - UInt8.ofNat k - 1 = UInt8.ofNat (n - k) := by
  have hx' : x = UInt8.ofNat (n - k) + 1 + UInt8.ofNat k := by
    apply UInt8.toNat_inj.mp
    rw [hx, UInt8.toNat_add, UInt8.toNat_add, UInt8.toNat_ofNat', UInt8.toNat_ofNat']
    simp
    omega
  rw [hx']
  grind

/-- A lookup by type finds the first structure of the type. -/
theorem getAdvTypeInformation_finds {m : ℕ → UInt8} {l : List BlcAdvLtv}
    (h : HasBytes m 0 (advData l)) (t : UInt8) :
    Finds m l (fun s => s.type = t) 0
      (blcAdvGetAdvTypeInformation m (advData l).length t true) := by
  have hplaces := hasBytes_of_mem_places h
  have hhit : ∀ e ∈ places 0 l, hasType m t e.1 = decide (e.2.type = t) := by
    intro e he
    rw [hasType, (hasBytes_encoded (hplaces e he)).2.1]
  have hfind : (places 0 l).find? (fun e => hasType m t e.1) =
      (places 0 l).find? fun e => decide (e.2.type = t) := List.find?_congr hhit
  unfold Finds
  rw [blcAdvGetAdvTypeInformation, advLookup_ptr, advLookup_outLen, find?_adStarts h, hfind]
  cases hfound : (places 0 l).find? fun e => decide (e.2.type = t) with
  | none => exact ⟨rfl, rfl⟩
  | some e =>
    obtain ⟨hlen, -, hvalue⟩ := hasBytes_encoded (hplaces e (List.mem_of_find?_eq_some hfound))
    have hsub := sub_length_eq hlen e.2.length_le (Nat.zero_le _)
    refine ⟨rfl, congrArg some ?_, bytesAt_drop hvalue (Nat.zero_le _)⟩
    simpa using hsub

/-- The structure has the type, and its value begins with `cmp`. -/
def begins (t : UInt8) (cmp : List UInt8) (s : BlcAdvLtv) : Bool :=
  s.type = t ∧ cmp <+: s.value

/-- No structure of the type in front of the first one that begins with `cmp` is shorter than `cmp`
and completed to it by the bytes behind it. -/
def NoneCompleted (m : ℕ → UInt8) (l : List BlcAdvLtv) (t : UInt8) (cmp : List UInt8) : Prop :=
  ∀ e ∈ (places 0 l).takeWhile (fun e => !begins t cmp e.2),
    e.2.type = t → e.2.value.length < cmp.length → bytesAt m (e.1 + 2) cmp.length ≠ cmp

section CmpValue

variable {m : ℕ → UInt8} {l : List BlcAdvLtv} {t : UInt8} {cmp : List UInt8}

/-- A structure that is not shorter than `cmp` is compared by its value. -/
theorem hasValue_iff_of_le {q : ℕ} {s : BlcAdvLtv} (h : HasBytes m q s.encoded)
    (hle : cmp.length ≤ s.value.length) : hasValue m t cmp q = begins t cmp s := by
  obtain ⟨-, htype, hvalue⟩ := hasBytes_encoded h
  have hiff : bytesAt m (q + 2) cmp.length = cmp ↔ cmp <+: s.value := by
    rw [bytesAt_take hvalue hle, List.prefix_iff_eq_take, eq_comm]
  simp only [hasValue, begins, htype, hiff, Bool.decide_and]

/-- A structure that begins with `cmp` is taken. -/
theorem hasValue_of_begins {q : ℕ} {s : BlcAdvLtv} (h : HasBytes m q s.encoded)
    (hs : begins t cmp s = true) : hasValue m t cmp q = true := by
  have hprefix : cmp <+: s.value := (of_decide_eq_true hs).2
  rwa [hasValue_iff_of_le h hprefix.length_le]

theorem noneCompleted_iff (h : HasBytes m 0 (advData l)) :
    NoneCompleted m l t cmp ↔
      ((places 0 l).find? fun e => hasValue m t cmp e.1) =
        (places 0 l).find? fun e => begins t cmp e.2 := by
  have hplaces := hasBytes_of_mem_places h
  rw [find?_eq_find?_iff fun e he hs => hasValue_of_begins (hplaces e he) hs]
  refine forall₂_congr fun e he => ?_
  have hbytes := hplaces e ((List.takeWhile_prefix _).subset he)
  have hnot : begins t cmp e.2 = false := by simpa using List.mem_takeWhile_imp he
  by_cases hle : cmp.length ≤ e.2.value.length
  · rw [hasValue_iff_of_le hbytes hle, hnot]
    exact iff_of_true (fun _ hlt => absurd hlt (by omega)) rfl
  · -- a structure that is too short is compared with what is behind it, too
    have htype := (hasBytes_encoded hbytes).2.1
    simp only [hasValue, htype, Bool.and_eq_false_iff, decide_eq_false_iff_not]
    constructor
    · intro hshort
      by_cases ht : e.2.type = t
      · exact .inr (hshort ht (by omega))
      · exact .inl ht
    · rintro hor ht -
      exact hor.resolve_left (not_not.mpr ht)

/-- At one place there is one length, so that a structure that is taken where another one begins
with the value is not too short. -/
theorem begins_of_same_place {q : ℕ} {s s' : BlcAdvLtv} (h : HasBytes m q s.encoded)
    (h' : HasBytes m q s'.encoded) (hs : begins t cmp s = true)
    (htaken : hasValue m t cmp q = true) : begins t cmp s' = true := by
  have hlen := (hasBytes_encoded h).1
  have hlen' := (hasBytes_encoded h').1
  rw [hlen] at hlen'
  have hle := (of_decide_eq_true hs).2.length_le
  rwa [← hasValue_iff_of_le h' (by omega)]

/-- What a lookup hands out is what is left of the value of the first structure that is taken. -/
theorem finds_of_find?_eq (h : HasBytes m 0 (advData l))
    (heq : ((places 0 l).find? fun e => hasValue m t cmp e.1) =
      (places 0 l).find? fun e => begins t cmp e.2) :
    Finds m l (begins t cmp) cmp.length
      (blcAdvGetAdvTypeInformationWithCmpValue m (advData l).length t cmp true) := by
  rw [blcAdvGetAdvTypeInformationWithCmpValue, Finds, advLookup_ptr, advLookup_outLen,
    find?_adStarts h, heq]
  cases hfound : (places 0 l).find? fun e => begins t cmp e.2 with
  | none => exact ⟨rfl, rfl⟩
  | some e =>
    obtain ⟨hlen, -, hvalue⟩ :=
      hasBytes_encoded (hasBytes_of_mem_places h e (List.mem_of_find?_eq_some hfound))
    have hs : begins t cmp e.2 = true :=
      List.find?_some (p := fun e : ℕ × BlcAdvLtv => begins t cmp e.2) hfound
    have hle := (of_decide_eq_true hs).2.length_le
    refine ⟨?_, congrArg some (sub_length_eq hlen e.2.length_le hle), bytesAt_drop hvalue hle⟩
    show some (e.1 + (cmp.length + 2)) = some (e.1 + 2 + cmp.length)
    congr 1
    omega

/-- A lookup with a value finds the first structure that begins with it exactly if no shorter one
is completed to it. -/
theorem getAdvTypeInformationWithCmpValue_finds_iff (h : HasBytes m 0 (advData l)) :
    Finds m l (begins t cmp) cmp.length
        (blcAdvGetAdvTypeInformationWithCmpValue m (advData l).length t cmp true) ↔
      NoneCompleted m l t cmp := by
  have hplaces := hasBytes_of_mem_places h
  rw [noneCompleted_iff h]
  refine ⟨fun hfinds => ?_, finds_of_find?_eq h⟩
  rw [blcAdvGetAdvTypeInformationWithCmpValue, Finds, advLookup_ptr, find?_adStarts h] at hfinds
  cases hfound : (places 0 l).find? fun e => begins t cmp e.2 with
  | none =>
    rw [hfound] at hfinds
    simpa using hfinds.1
  | some e =>
    rw [hfound] at hfinds
    cases hhit : (places 0 l).find? fun e => hasValue m t cmp e.1 with
    | none =>
      rw [hhit] at hfinds
      exact absurd hfinds.1 (by simp)
    | some e' =>
      rw [hhit] at hfinds
      have hptr : e'.1 + (cmp.length + 2) = e.1 + 2 + cmp.length := Option.some.inj hfinds.1
      have hplace : e.1 = e'.1 := by omega
      have hbytes := hplaces e (List.mem_of_find?_eq_some hfound)
      rw [hplace] at hbytes
      have hbegins : begins t cmp e'.2 = true :=
        begins_of_same_place hbytes (hplaces e' (List.mem_of_find?_eq_some hhit))
          (List.find?_some (p := fun e : ℕ × BlcAdvLtv => begins t cmp e.2) hfound)
          (List.find?_some (p := fun e : ℕ × BlcAdvLtv => hasValue m t cmp e.1) hhit)
      rw [← hfound]
      exact (find?_of_find?_eq_some (fun e he hs => hasValue_of_begins (hplaces e he) hs) hhit
        hbegins).symm

end CmpValue

/-! ## The list of UUIDs -/

theorem uuidLoop_eq_true_iff (m : ℕ → UInt8) (uuid p n : ℕ) :
    (uuidLoop m uuid p n).1 = true ↔ ∃ i < n, bytesToUint16 m (p + 2 * i) = uuid := by
  induction n generalizing p with
  | zero => simp [uuidLoop]
  | succ n ih =>
    rw [uuidLoop, Nat.exists_lt_succ_left]
    split_ifs with hfound
    · exact iff_of_true rfl (.inl hfound)
    · have hshift : ∀ i, p + 2 * (i + 1) = p + 2 + 2 * i := fun i => by omega
      simp only [ih, hshift, Nat.mul_zero, Nat.add_zero, hfound, false_or]

/-- The UUID is found exactly if it is in the first complete list of them. -/
theorem blcAdvGet16BitServiceUuid_iff {m : ℕ → UInt8} {l : List BlcAdvLtv}
    (h : HasBytes m 0 (advData l)) (uuid : ℕ) :
    (blcAdvGet16BitServiceUuid m (advData l).length uuid).1 = true ↔
      ∃ s, l.find? (fun s => s.type = dtCompleteList16bitServiceUuid) = some s ∧
        ∃ i < s.value.length / 2, bytesToUint16 (mem s.value) (2 * i) = uuid := by
  have hfinds := getAdvTypeInformation_finds h dtCompleteList16bitServiceUuid
  rw [← find?_places 0 l, blcAdvGet16BitServiceUuid]
  unfold Finds at hfinds
  cases hfound : (places 0 l).find? fun e => e.2.type = dtCompleteList16bitServiceUuid with
  | none =>
    rw [hfound] at hfinds
    rw [hfinds.1]
    simp
  | some e =>
    rw [hfound] at hfinds
    obtain ⟨hptr, hout, hvalue⟩ := hfinds
    rw [hptr, hout]
    have hlen : (UInt8.ofNat (e.2.value.length - 0)).toNat = e.2.value.length := by
      have hle := e.2.length_le
      rw [UInt8.toNat_ofNat']
      omega
    -- the bytes at the pointer are those of the value
    have hbyte : ∀ j < e.2.value.length, m (e.1 + 2 + 0 + j) = mem e.2.value j := by
      intro j hj
      have hget := congrArg (fun l => l.getD j 0) hvalue
      rw [List.drop_zero, Nat.sub_zero, bytesAt, getD_bytes _ hj] at hget
      exact hget
    have hpair : ∀ i < e.2.value.length / 2, bytesToUint16 m (e.1 + 2 + 0 + 2 * i) =
        bytesToUint16 (mem e.2.value) (2 * i) := by
      intro i hi
      rw [bytesToUint16, bytesToUint16, hbyte _ (by omega), Nat.add_assoc _ (2 * i),
        hbyte _ (by omega)]
    simp only [uuidLoop_eq_true_iff, hlen, Option.map_some, Option.some.injEq, exists_eq_left']
    exact exists_congr fun i => and_congr_right fun hi => by rw [hpair i hi]

/-! ## The round trip -/

/-- What `blc_adv_buildAdvData` writes, the lookup by type and the one of the UUIDs find again. The
lookup with a value does exactly if no structure that is too short is completed to it. -/
theorem svcAdv_round_trip (p : ℕ → UInt8) {l : List BlcAdvLtv} (hlen : l.length ≤ 255)
    (hbytes : (advData l).length < 65536) :
    ∃ m n, (∀ fuel, l.length ≤ fuel → blcAdvBuildAdvData fuel p l l.length = some (m, n)) ∧
      bytes m n = advData l ∧
      (∀ t, Finds m l (fun s => s.type = t) 0 (blcAdvGetAdvTypeInformation m n t true)) ∧
      (∀ t cmp, Finds m l (begins t cmp) cmp.length
          (blcAdvGetAdvTypeInformationWithCmpValue m n t cmp true) ↔ NoneCompleted m l t cmp) ∧
      ∀ uuid, (blcAdvGet16BitServiceUuid m n uuid).1 = true ↔
        ∃ s, l.find? (fun s => s.type = dtCompleteList16bitServiceUuid) = some s ∧
          ∃ i < s.value.length / 2, bytesToUint16 (mem s.value) (2 * i) = uuid := by
  have hmem : HasBytes (memcpy p 0 (advData l)) 0 (advData l) := bytesAt_memcpy_self p 0 _
  refine ⟨memcpy p 0 (advData l), (advData l).length, fun fuel hfuel => ?_,
    bytes_memcpy_self p _, getAdvTypeInformation_finds hmem,
    fun t cmp => getAdvTypeInformationWithCmpValue_finds_iff hmem,
    blcAdvGet16BitServiceUuid_iff hmem⟩
  rw [blcAdvBuildAdvData_eq p hlen hfuel, u16_of_lt hbytes]

/-- Flags and a list of one UUID. -/
theorem svcAdv_round_trip_uuid :
    ∃ m n, blcAdvBuildAdvData 2 (fun _ => 0)
        [⟨0x01, [0x06], by decide⟩, ⟨0x03, [0x57, 0x18], by decide⟩] 2 = some (m, n) ∧
      (blcAdvGet16BitServiceUuid m n 0x1857).1 = true := by
  obtain ⟨m, n, hbuild, -, -, -, huuid⟩ := svcAdv_round_trip (fun _ => 0)
    (l := [⟨0x01, [0x06], by decide⟩, ⟨0x03, [0x57, 0x18], by decide⟩]) (by decide) (by decide)
  refine ⟨m, n, hbuild 2 le_rfl, (huuid 0x1857).mpr ⟨⟨0x03, [0x57, 0x18], by decide⟩, ?_, 0, ?_⟩⟩
  · rfl
  · decide

/-- A value of one byte is completed by the length byte of the next structure. -/
theorem cmpValue_across_structures :
    ¬ ∀ (p m : ℕ → UInt8) (n : ℕ) (l : List BlcAdvLtv) (t : UInt8) (cmp : List UInt8),
      l.length ≤ 255 → (advData l).length < 65536 → cmp.length ≤ 255 →
      blcAdvBuildAdvData l.length p l l.length = some (m, n) →
      Finds m l (begins t cmp) cmp.length
        (blcAdvGetAdvTypeInformationWithCmpValue m n t cmp true) := by
  intro h
  let l : List BlcAdvLtv := [⟨0xFF, [1], by decide⟩, ⟨0x0A, [0], by decide⟩]
  have hmem : HasBytes (memcpy (fun _ => 0) 0 (advData l)) 0 (advData l) :=
    bytesAt_memcpy_self _ 0 _
  have hfinds := h (fun _ => 0) _ _ l 0xFF [1, 2] (by decide) (by decide) (by decide)
    (blcAdvBuildAdvData_eq _ (by decide) le_rfl)
  have hshort := (getAdvTypeInformationWithCmpValue_finds_iff hmem).mp hfinds
  refine hshort (0, ⟨0xFF, [1], by decide⟩) ?_ rfl (by decide) (by decide)
  rw [places, List.takeWhile_cons_of_pos (by decide)]
  exact List.mem_cons_self

end TlBleSdk.Profile
