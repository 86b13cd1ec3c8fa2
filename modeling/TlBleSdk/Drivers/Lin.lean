import Mathlib.Data.Nat.Bitwise
import TlBleSdk.Hci.TrDef
import TlBleSdk.Lib.EndAround

/-!
# The checksum of LIN

`lin_software_checksum` of `lin.c`, with the protected id, and `lin_get_response_data`, which takes
it of what was received. The controller gives the id without its parity bits.
-/

namespace TlBleSdk.Drivers

open Hci

/-- `lin_checksum_type_e`. -/
inductive LinChecksumType where
  | classic
  | enhanced
deriving DecidableEq

/-- `LIN_GET_ID_BIT`. -/
def linGetIdBit (x : UInt8) (y : UInt32) : UInt32 := (x.toUInt32 >>> y) &&& 0x01

/-- `lin_software_pid`. -/
def linSoftwarePid (id : UInt8) : UInt8 :=
  let pid := ((linGetIdBit id 0 ^^^ linGetIdBit id 1 ^^^ linGetIdBit id 2 ^^^
    linGetIdBit id 4) <<< 6).toUInt8
  let pid := pid ||| (~~~(linGetIdBit id 1 ^^^ linGetIdBit id 3 ^^^ linGetIdBit id 4 ^^^
    linGetIdBit id 5) <<< 7).toUInt8
  pid ||| (0x3F &&& id)

/-- A turn of the loop of `lin_software_checksum`. -/
def linAdd (ret : UInt16) (data : UInt8) : UInt16 :=
  let ret := ret + data.toUInt16
  if ret &&& 0x100 ≠ 0 then (ret &&& 0xff) + 1 else ret

/-- The `ret` that `lin_software_checksum` starts with. -/
def linStart (id : UInt8) : LinChecksumType → UInt16
  | .classic => 0
  | .enhanced => (linSoftwarePid id).toUInt16

/-- `lin_software_checksum`. -/
def linSoftwareChecksum (id : UInt8) (data : ℕ → UInt8) (len : UInt8) (type : LinChecksumType) :
    UInt8 :=
  let ret := (List.range len.toNat).foldl (fun ret i => linAdd ret (data i)) (linStart id type)
  (~~~ret &&& 0xff).toUInt8

/-! ## Receiving a response -/

/-- What is read of `lin_handle_t`. -/
structure LinHandle where
  initFlag : Bool
  dmaModeEnable : Bool

/-- The DMA status and buffer, the number of bytes in the receive buffer and what its reads give one
after the other, and the register with the id. -/
structure LinRx where
  dmaTc : Bool
  dmaBuffer : ℕ → UInt8
  rxCnt : UInt8
  dataBuf : ℕ → UInt8
  frame0 : UInt8

/-- `lin_get_response_result_t`. -/
structure LinGetResponseResult where
  pid : UInt8
  len : UInt8
  checksum : UInt8

/-- `lin_get_pid`. -/
def linGetPid (rx : LinRx) : UInt8 := rx.frame0 &&& 0x3f

/-- `lin_receive_ndma`: the number of bytes received, and `data`. -/
def linReceiveNdma (rx : LinRx) (data : ℕ → UInt8) (dataLen : UInt8) : UInt8 × (ℕ → UInt8) :=
  (List.range rx.rxCnt.toNat).foldl (fun (ret, data) i =>
    if i < dataLen.toNat then (ret + 1, Function.update data i (rx.dataBuf i)) else (ret, data))
    (0, data)

/-- `lin_get_response_data`: what it returns, `data`, and what it writes to `result`. -/
def linGetResponseData (handle : LinHandle) (rx : LinRx) (data : Option (ℕ → UInt8))
    (dataLen : UInt8) (type : LinChecksumType) :
    Bool × Option (ℕ → UInt8) × Option LinGetResponseResult :=
  match data with
  | none => (false, none, none)
  | some buf =>
    if dataLen = 0 ∨ 8 < dataLen then (false, some buf, none)
    else if !handle.initFlag then (false, some buf, some ⟨0, 0, 0⟩)
    else if handle.dmaModeEnable then
      if rx.dmaTc then
        let buf := memcpy buf 0 (bytes rx.dmaBuffer dataLen.toNat)
        let pid := linGetPid rx
        (true, some buf, some ⟨pid, dataLen, linSoftwareChecksum pid buf dataLen type⟩)
      else (false, some buf, some ⟨0, 0, 0⟩)
    else
      let (len, buf) := linReceiveNdma rx buf dataLen
      if len = dataLen then
        let pid := linGetPid rx
        (true, some buf, some ⟨pid, len, linSoftwareChecksum pid buf dataLen type⟩)
      -- too few bytes: the number of them is told, but no checksum
      else (false, some buf, some ⟨0, len, 0⟩)

/-! ## The law -/

/-- The numbers that a checksum is for. -/
def linSummed (id : UInt8) (data : ℕ → UInt8) (len : UInt8) (type : LinChecksumType) : List ℕ :=
  (match type with
    | .classic => []
    | .enhanced => [(linSoftwarePid id).toNat]) ++ (bytes data len.toNat).map UInt8.toNat

/-- Bit 8 of a sum of two bytes is its carry. -/
theorem carry_iff {s : UInt16} (hs : s.toNat < 512) : s &&& 0x100 ≠ 0 ↔ 255 < s.toNat := by
  have hbit : (s &&& 0x100).toNat = (s.toNat.testBit 8).toNat * 2 ^ 8 :=
    (UInt16.toNat_and s 0x100).trans (Nat.and_two_pow s.toNat 8)
  rw [ne_eq, ← UInt16.toNat_inj, hbit, Nat.testBit_eq_decide_div_mod_eq]
  show ¬ (decide (s.toNat / 256 % 2 = 1)).toNat * 256 = 0 ↔ 255 < s.toNat
  by_cases hcarry : s.toNat / 256 % 2 = 1
  · rw [decide_eq_true hcarry]
    exact iff_of_true (by decide) (by omega)
  · rw [decide_eq_false hcarry]
    exact iff_of_false (fun h => h rfl) (by omega)

/-- A turn adds the byte with an end-around carry. -/
theorem toNat_linAdd {ret : UInt16} (hret : ret.toNat ≤ 255) (b : UInt8) :
    (linAdd ret b).toNat = EndAround.add 255 ret.toNat b.toNat := by
  have hb := b.toNat_lt
  have hsum : (ret + b.toUInt16).toNat = ret.toNat + b.toNat := by
    rw [UInt16.toNat_add, UInt8.toNat_toUInt16]
    exact Nat.mod_eq_of_lt (by omega)
  unfold linAdd EndAround.add
  generalize ret + b.toUInt16 = s at hsum ⊢
  dsimp only
  have hlow : (s &&& 0xff).toNat = s.toNat % 256 :=
    (UInt16.toNat_and s 0xff).trans (Nat.and_two_pow_sub_one_eq_mod s.toNat 8)
  by_cases hcarry : 255 < s.toNat
  · rw [if_pos ((carry_iff (by omega)).mpr hcarry), if_pos (by omega), UInt16.toNat_add, hlow]
    show (s.toNat % 256 + 1) % 65536 = ret.toNat + b.toNat - 255
    omega
  · rw [if_neg (fun h => hcarry ((carry_iff (by omega)).mp h)), if_neg (by omega), hsum]

/-- The accumulator stays in a byte. -/
theorem toNat_foldl_linAdd (l : List UInt8) {ret : UInt16} (hret : ret.toNat ≤ 255) :
    (l.foldl linAdd ret).toNat = (l.map UInt8.toNat).foldl (EndAround.add 255) ret.toNat := by
  induction l generalizing ret with
  | nil => rfl
  | cons b l ih =>
    have hb := b.toNat_lt
    have hadd := toNat_linAdd hret b
    have hle : (linAdd ret b).toNat ≤ 255 := by
      rw [hadd]
      exact EndAround.add_le hret (by omega)
    rw [List.foldl_cons, ih hle, hadd, List.map_cons, List.foldl_cons]

theorem linSummed_le (id : UInt8) (data : ℕ → UInt8) (len : UInt8) (type : LinChecksumType) :
    ∀ b ∈ linSummed id data len type, b ≤ 255 := by
  have hbyte : ∀ x : UInt8, x.toNat ≤ 255 := fun x => Nat.le_of_lt_succ x.toNat_lt
  intro b hb
  rcases List.mem_append.mp hb with hstart | hdata
  · cases type with
    | classic => exact absurd hstart List.not_mem_nil
    | enhanced =>
      rw [List.mem_singleton.mp hstart]
      exact hbyte _
  · obtain ⟨x, -, rfl⟩ := List.mem_map.mp hdata
    exact hbyte x

/-- The checksum is the complement of the sum. -/
theorem toNat_linSoftwareChecksum (id : UInt8) (data : ℕ → UInt8) (len : UInt8)
    (type : LinChecksumType) :
    (linSoftwareChecksum id data len type).toNat =
      255 - EndAround.sum 255 (linSummed id data len type) := by
  have hstart : (linStart id type).toNat ≤ 255 ∧
      EndAround.sum 255 (linSummed id data len type) =
        ((bytes data len.toNat).map UInt8.toNat).foldl (EndAround.add 255)
          (linStart id type).toNat := by
    cases type with
    | classic => exact ⟨Nat.zero_le 255, rfl⟩
    | enhanced =>
      have hpid := (linSoftwarePid id).toNat_lt
      have hadd : EndAround.add 255 0 (linSoftwarePid id).toNat = (linSoftwarePid id).toNat := by
        rw [EndAround.add, Nat.zero_add, if_neg (by omega)]
      constructor
      · rw [linStart, UInt8.toNat_toUInt16]
        omega
      · rw [linStart, UInt8.toNat_toUInt16, linSummed, EndAround.sum, List.singleton_append,
          List.foldl_cons, hadd]
  have hle : EndAround.sum 255 (linSummed id data len type) ≤ 255 := by
    rw [EndAround.sum_eq_wrap (linSummed_le id data len type)]
    exact EndAround.wrap_le (by decide) _
  have hfold := toNat_foldl_linAdd (bytes data len.toNat) hstart.1
  rw [← hstart.2, bytes, List.foldl_map] at hfold
  unfold linSoftwareChecksum
  generalize (List.range len.toNat).foldl (fun ret i => linAdd ret (data i)) (linStart id type) =
    ret at hfold ⊢
  rw [← hfold] at hle ⊢
  rw [UInt16.toNat_toUInt8, UInt16.toNat_and, UInt16.toNat_not]
  show ((65536 - 1 - ret.toNat) &&& 2 ^ 8 - 1) % 2 ^ 8 = 255 - ret.toNat
  rw [Nat.and_two_pow_sub_one_eq_mod]
  omega

/-- The parity bits do not depend on those of the id. -/
theorem linSoftwarePid_idem (id : UInt8) :
    linSoftwarePid (linSoftwarePid id) = linSoftwarePid id := by
  have hall : ∀ n : Fin 256, linSoftwarePid (linSoftwarePid (UInt8.ofFin n)) =
    linSoftwarePid (UInt8.ofFin n) := by decide +kernel
  exact hall id.toFin

/-- The checksums of two texts are equal exactly if their totals are congruent modulo 255, and both
are zero or none is. -/
theorem linSoftwareChecksum_eq_iff {id id' len len' : UInt8} {data data' : ℕ → UInt8}
    {type type' : LinChecksumType} :
    linSoftwareChecksum id data len type = linSoftwareChecksum id' data' len' type' ↔
      ((linSummed id data len type).sum = 0 ↔ (linSummed id' data' len' type').sum = 0) ∧
        (linSummed id data len type).sum ≡ (linSummed id' data' len' type').sum [MOD 255] := by
  have hsum := EndAround.sum_eq_wrap (linSummed_le id data len type)
  have hsum' := EndAround.sum_eq_wrap (linSummed_le id' data' len' type')
  have hle := EndAround.wrap_le (by decide : 0 < 255) (linSummed id data len type).sum
  have hle' := EndAround.wrap_le (by decide : 0 < 255) (linSummed id' data' len' type').sum
  rw [← EndAround.wrap_eq_wrap_iff, ← UInt8.toNat_inj, toNat_linSoftwareChecksum,
    toNat_linSoftwareChecksum, hsum, hsum']
  omega

theorem linSum_checksum (id : UInt8) (data : ℕ → UInt8) (len : UInt8) (type : LinChecksumType) :
    EndAround.sum 255 (linSummed id data len type ++
      [(linSoftwareChecksum id data len type).toNat]) = 0xFF := by
  rw [toNat_linSoftwareChecksum]
  exact EndAround.sum_complement (by decide) (linSummed_le id data len type)

theorem linSoftwareChecksum_pid (id : UInt8) (data : ℕ → UInt8) (len : UInt8)
    (type : LinChecksumType) :
    linSoftwareChecksum (linSoftwarePid id) data len type =
      linSoftwareChecksum id data len type := by
  unfold linSoftwareChecksum linStart
  rw [linSoftwarePid_idem]

theorem bytes_update (p : ℕ → UInt8) (n i : ℕ) (x : UInt8) :
    bytes (Function.update p i x) n = (bytes p n).set i x := by
  apply List.ext_getElem
  · simp
  intro j hj hj'
  rw [getElem_bytes, List.getElem_set, getElem_bytes, Function.update_apply]
  simp only [eq_comm]

/-- The numbers of a text with another byte. -/
theorem linSummed_update (id : UInt8) (data : ℕ → UInt8) {len : UInt8} (type : LinChecksumType)
    {i : ℕ} (hi : i < len.toNat) (x : UInt8) : ∃ k,
    (linSummed id data len type)[k]? = some (data i).toNat ∧
      linSummed id (Function.update data i x) len type =
        (linSummed id data len type).set k x.toNat := by
  unfold linSummed
  generalize (match type with
    | .classic => []
    | .enhanced => [(linSoftwarePid id).toNat] : List ℕ) = front
  refine ⟨front.length + i, ?_, ?_⟩
  · rw [List.getElem?_append_right (Nat.le_add_right _ _), Nat.add_sub_cancel_left, bytes,
      List.map_map, List.getElem?_map, List.getElem?_range hi]
    rfl
  · rw [List.set_append_right _ _ (Nat.le_add_right _ _), Nat.add_sub_cancel_left, ← List.map_set,
      bytes_update]

/-- Texts that differ in a byte have different checksums, unless they differ by 255. -/
theorem linSoftwareChecksum_ne {id id' len len' x y : UInt8} {data data' : ℕ → UInt8}
    {type type' : LinChecksumType} {k : ℕ}
    (hk : (linSummed id data len type)[k]? = some x.toNat)
    (hset : linSummed id' data' len' type' = (linSummed id data len type).set k y.toNat)
    (hxy : ((y.toNat : ℤ) - x.toNat).natAbs ∉ [0, 255]) :
    linSoftwareChecksum id' data' len' type' ≠ linSoftwareChecksum id data len type := by
  simp only [List.mem_cons, List.not_mem_nil, or_false, not_or] at hxy
  have hle := linSummed_le id data len type
  have hx := x.toNat_lt
  have hy := y.toNat_lt
  have hne := EndAround.sum_set_ne hle hk (by omega : y.toNat ≤ 255) (by omega) (by omega)
  rw [← hset, EndAround.sum_eq_wrap hle, EndAround.sum_eq_wrap (linSummed_le id' data' len' type')]
    at hne
  intro heq
  obtain ⟨hzero, hmod⟩ := linSoftwareChecksum_eq_iff.mp heq
  exact hne (EndAround.wrap_eq_wrap_iff.mpr ⟨hzero, hmod⟩)

/-- A response that is reported complete has the checksum of its bytes and of the protected id, of
which the controller gives the id only. -/
theorem linGetResponseData_checksum {handle : LinHandle} {rx : LinRx}
    {data data' : Option (ℕ → UInt8)} {dataLen : UInt8} {type : LinChecksumType}
    {result : Option LinGetResponseResult}
    (h : linGetResponseData handle rx data dataLen type = (true, data', result)) :
    ∃ buf res, data' = some buf ∧ result = some res ∧ res.pid = linGetPid rx ∧
      res.len = dataLen ∧
      res.checksum = linSoftwareChecksum (linSoftwarePid res.pid) buf dataLen type := by
  have hpid (buf : ℕ → UInt8) : linSoftwareChecksum (linGetPid rx) buf dataLen type =
      linSoftwareChecksum (linSoftwarePid (linGetPid rx)) buf dataLen type :=
    (linSoftwareChecksum_pid _ buf dataLen type).symm
  unfold linGetResponseData at h
  cases data with
  | none => exact nomatch h
  | some buf =>
    dsimp only at h
    split_ifs at h with hargs hinit hdma htc hlen
    · exact nomatch h
    · exact nomatch h
    · -- DMA has all bytes
      cases h
      exact ⟨_, _, rfl, rfl, rfl, rfl, hpid _⟩
    · exact nomatch h
    · cases h
      exact ⟨_, _, rfl, rfl, rfl, hlen, hpid _⟩
    · exact nomatch h

/-- The sum with the checksum is 0xFF, the parity bits of the id do not matter, and a byte that is
changed shows unless the change is by 255. A complete response has the checksum of what was
received. -/
theorem linSoftwareChecksum_law (id : UInt8) (data : ℕ → UInt8) (len : UInt8)
    (type : LinChecksumType) :
    EndAround.sum 255 (linSummed id data len type ++
      [(linSoftwareChecksum id data len type).toNat]) = 0xFF ∧
    linSoftwareChecksum (linSoftwarePid id) data len type =
      linSoftwareChecksum id data len type ∧
    (∀ i < len.toNat, ∀ x : UInt8, ((x.toNat : ℤ) - (data i).toNat).natAbs ∉ [0, 255] →
      linSoftwareChecksum id (Function.update data i x) len type ≠
        linSoftwareChecksum id data len type) ∧
    (∀ id', ((linSoftwarePid id').toNat - (linSoftwarePid id).toNat : ℤ).natAbs ∉ [0, 255] →
      linSoftwareChecksum id' data len .enhanced ≠ linSoftwareChecksum id data len .enhanced) ∧
    ∀ handle rx dst data' result,
      linGetResponseData handle rx dst len type = (true, data', result) →
      ∃ buf res, data' = some buf ∧ result = some res ∧ res.pid = linGetPid rx ∧ res.len = len ∧
        res.checksum = linSoftwareChecksum (linSoftwarePid res.pid) buf len type := by
  refine ⟨linSum_checksum id data len type, linSoftwareChecksum_pid id data len type,
    fun i hi x hx => ?_, fun id' hid => ?_, fun _ _ _ _ _ h => linGetResponseData_checksum h⟩
  · obtain ⟨k, hk, hset⟩ := linSummed_update id data type hi x
    exact linSoftwareChecksum_ne hk hset hx
  · have hk : (linSummed id data len .enhanced)[0]? = some (linSoftwarePid id).toNat := rfl
    exact linSoftwareChecksum_ne hk rfl hid

end TlBleSdk.Drivers
