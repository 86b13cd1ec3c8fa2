import TlBleSdk.Common.SdpDiscovery

/-!
# When service discovery returns

The first pass ends with the first answer that is no list of declarations, and nothing else ends
it. The second pass always ends. Within a request the only write that may leave its array is the
copy of a packet to `dat`.
-/

namespace TlBleSdk.Common

open Hci Checked

/-! ## What a wait takes -/

/-- The packets of one call of the idle function that the handler takes. -/
def acceptedIn : ℕ → List AttPacket → List AttPacket
  | _, [] => []
  | busy, pk :: pks =>
    if takesPacket busy pk then pk :: acceptedIn 0 pks else acceptedIn busy pks

/-- The packets that the handler takes during a wait: those of the first call with any. -/
def accepted (busy : ℕ) : List (List AttPacket) → List AttPacket
  | [] => []
  | call :: calls => if (acceptedIn busy call).isEmpty then accepted busy calls
    else acceptedIn busy call

/-- The answer comes before the last call. -/
def answered (busy : ℕ) : List (List AttPacket) → Bool
  | [] => false
  | call :: calls => if (acceptedIn busy call).isEmpty then answered busy calls
    else !calls.isEmpty

/-- What a wait leaves of `host_att_req_busy`. -/
def busyLeft (busy : ℕ) (calls : List (List AttPacket)) : ℕ :=
  if (accepted busy calls).isEmpty then busy else 0

theorem busyLeft_of_answered {busy : ℕ} {calls : List (List AttPacket)}
    (h : answered busy calls = true) : busyLeft busy calls = 0 := by
  refine if_neg ?_
  induction calls with
  | nil => exact absurd h nofun
  | cons call calls ih =>
    rw [answered] at h
    rw [accepted]
    split at h
    next hnone =>
      rw [if_pos hnone]
      exact ih h
    next hsome =>
      rw [if_neg hsome]
      exact hsome

/-- A packet is within `dat`, with its header. -/
def AttPacket.Fits (pk : AttPacket) : Prop := pk.l2capLen + 6 ≤ datSize

instance (pk : AttPacket) : Decidable pk.Fits := inferInstanceAs (Decidable (_ ≤ _))

/-- `dat` behind the copies of packets. -/
def copyAll (dat : ℕ → UInt8) (pks : List AttPacket) : ℕ → UInt8 :=
  pks.foldl (fun dat pk => memcpy dat 0 (bytes pk.p (pk.l2capLen + 6))) dat

/-- The opcode that packets leave behind: an empty one does not reach it. -/
def opcodeLeft (op : UInt8) (pks : List AttPacket) : UInt8 :=
  pks.foldl (fun op pk => if pk.l2capLen = 0 then op else pk.opcode) op

theorem copyAll_opcode (dat : ℕ → UInt8) (pks : List AttPacket) :
    copyAll dat pks 6 = opcodeLeft (dat 6) pks := by
  induction pks generalizing dat with
  | nil => rfl
  | cons pk pks ih =>
    have hcopy : memcpy dat 0 (bytes pk.p (pk.l2capLen + 6)) 6 =
        if pk.l2capLen = 0 then dat 6 else pk.opcode := by
      unfold memcpy
      rw [Hci.length_bytes]
      by_cases hlen : pk.l2capLen = 0
      · rw [if_neg (by omega), if_pos hlen]
      · rw [if_pos (by omega), if_neg hlen, getD_bytes _ (by omega)]
        rfl
    show copyAll _ pks 6 = opcodeLeft _ pks
    rw [ih]
    exact congrArg (opcodeLeft · pks) hcopy

/-- The handler, over one call of the idle function. -/
theorem foldlM_handler (pks : List AttPacket) (dat : ℕ → UInt8) (busy : ℕ) :
    pks.foldlM hostAttClientHandler ⟨dat, datSize, busy⟩ =
      if ∀ pk ∈ acceptedIn busy pks, pk.Fits then
        .ok ⟨copyAll dat (acceptedIn busy pks), datSize,
          if (acceptedIn busy pks).isEmpty then busy else 0⟩
      else .error .dat := by
  induction pks generalizing dat busy with
  | nil => rw [if_pos fun pk hpk => (nomatch hpk)]; rfl
  | cons pk pks ih =>
    rw [List.foldlM_cons, hostAttClientHandler, acceptedIn]
    by_cases htakes : takesPacket busy pk = true
    · rw [if_pos htakes, if_pos htakes]
      by_cases hfits : pk.l2capLen + 6 ≤ datSize
      · rw [if_pos hfits]
        have hpk : pk.Fits := hfits
        refine (ih _ _).trans ?_
        simp only [List.forall_mem_cons, hpk, true_and, List.isEmpty_cons, ite_self]
        rfl
      · rw [if_neg hfits, if_neg fun hall => hfits (hall pk List.mem_cons_self)]
        rfl
    · rw [if_neg htakes, if_neg htakes]
      exact ih dat busy

/-- A wait that begins with the answer. -/
theorem waitLoop_of_idle (dat : ℕ → UInt8) (calls : List (List AttPacket)) :
    waitLoop ⟨dat, datSize, 0⟩ calls = .ok (!calls.isEmpty, ⟨dat, datSize, 0⟩) := by
  cases calls with
  | nil => rfl
  | cons call calls => rw [waitLoop, if_pos rfl]; rfl

theorem waitLoop_eq {busy : ℕ} (hbusy : busy ≠ 0) (dat : ℕ → UInt8)
    (calls : List (List AttPacket)) :
    waitLoop ⟨dat, datSize, busy⟩ calls =
      if ∀ pk ∈ accepted busy calls, pk.Fits then
        .ok (answered busy calls,
          ⟨copyAll dat (accepted busy calls), datSize, busyLeft busy calls⟩)
      else .error .dat := by
  induction calls with
  | nil => rw [if_pos fun pk hpk => (nomatch hpk)]; rfl
  | cons call calls ih =>
    rw [waitLoop, if_neg hbusy, foldlM_handler, busyLeft, accepted, answered]
    by_cases hnone : (acceptedIn busy call).isEmpty = true
    · have hnil := List.isEmpty_iff.mp hnone
      simp only [hnil, List.isEmpty_nil, if_true]
      rw [if_pos fun pk hpk => (nomatch hpk)]
      exact ih
    · simp only [hnone, if_false, Bool.false_eq_true]
      split
      · exact waitLoop_of_idle _ _
      · rfl

theorem busyOf_ne {handle : ℕ} {op : UInt8} (hop : op ≠ 0) : busyOf handle op ≠ 0 := by
  have hpos : op.toNat ≠ 0 := fun h => hop (UInt8.toNat_inj.mp h)
  unfold busyOf
  omega

theorem opcode_ne : ∀ request : AttRequest, request.opcode ≠ 0
  | .readByType _ => (by decide : attOpReadByTypeReq ≠ 0)
  | .findInformation _ => (by decide : attOpFindInformationReq ≠ 0)
  | .read _ => (by decide : attOpReadReq ≠ 0)

/-- The wait for the answer to a request. -/
theorem hostAttServiceWaitEvent_eq (handle : ℕ) (dat : ℕ → UInt8) (request : AttRequest)
    (calls : List (List AttPacket)) :
    hostAttServiceWaitEvent handle (Function.update dat 6 request.opcode) calls =
      if ∀ pk ∈ accepted (busyOf handle request.opcode) calls, pk.Fits then
        .ok (answered (busyOf handle request.opcode) calls,
          ⟨copyAll (Function.update dat 6 request.opcode)
            (accepted (busyOf handle request.opcode) calls), datSize,
            busyLeft (busyOf handle request.opcode) calls⟩)
      else .error .dat := by
  unfold hostAttServiceWaitEvent
  rw [Function.update_self]
  exact waitLoop_eq (busyOf_ne (opcode_ne request)) _ calls

/-! ## One request -/

/-- The packets that the handler takes while a request waits are within `dat`. -/
def RoundFits (a : SdpArgs) (st : SdpState) (calls : List (List AttPacket)) : Prop :=
  ∀ request, st.request = some request →
    ∀ pk ∈ accepted (busyOf a.handle request.opcode) calls, pk.Fits

/-- The answer to a request for declarations is late or is no list of them. -/
def EndsPass (a : SdpArgs) (calls : List (List AttPacket)) : Prop :=
  answered (busyOf a.handle attOpReadByTypeReq) calls = false ∨
    opcodeLeft attOpReadByTypeReq (accepted (busyOf a.handle attOpReadByTypeReq) calls) ≠
      attOpReadByTypeRsp

/-- The indices are within the arrays. -/
structure InArrays (a : SdpArgs) (st : SdpState) : Prop where
  pos16 : 0 < a.n16
  pos128 : 0 < a.n128
  le16 : st.i16 ≤ a.n16
  report : ∀ i, st.phase = .info i ∨ (∃ handle, st.phase = .read i handle) → i < st.i16

/-- The number of requests that are left at most, in the second pass. -/
def requestsLeft (st : SdpState) : ℕ :=
  match st.phase with
  | .chars => 0
  | .info i => 2 * (st.i16 - i)
  | .read i _ => 2 * (st.i16 - i) - 1
  | .done _ => 0

section Writes

variable {a : SdpArgs} {st : SdpState} {i : ℕ}

theorem write16_of_lt (hi : i < a.n16) (f : AttDbUuid16 → AttDbUuid16) :
    write16 a st i f = .ok { st with p16 := Function.update st.p16 i (f (st.p16 i)) } := if_pos hi

theorem write128_of_lt (hi : i < a.n128) (f : AttDbUuid128 → AttDbUuid128) :
    write128 a st i f = .ok { st with p128 := Function.update st.p128 i (f (st.p128 i)) } :=
  if_pos hi

/-- An entry is written within the arrays. -/
theorem entry16_ok (h : InArrays a st) (pd : ℕ) :
    ∃ st', entry16 a st pd = .ok st' ∧ InArrays a st' ∧ st'.phase = st.phase := by
  unfold entry16
  by_cases hroom : st.i16 < a.n16
  · simp only [if_pos hroom, write16_of_lt hroom]
    exact ⟨_, rfl, ⟨h.pos16, h.pos128, hroom, fun i hi => Nat.lt_succ_of_lt (h.report i hi)⟩, rfl⟩
  · simp only [if_neg hroom]
    exact ⟨_, rfl, ⟨h.pos16, h.pos128, h.le16, h.report⟩, rfl⟩

theorem entry128_ok (h : InArrays a st) (pd : ℕ) :
    ∃ st', entry128 a st pd = .ok st' ∧ InArrays a st' ∧ st'.phase = st.phase := by
  unfold entry128
  by_cases hroom : st.i128 < a.n128
  · simp only [if_pos hroom, write128_of_lt hroom]
    exact ⟨_, rfl, ⟨h.pos16, h.pos128, h.le16, h.report⟩, rfl⟩
  · simp only [if_neg hroom]
    exact ⟨_, rfl, ⟨h.pos16, h.pos128, h.le16, h.report⟩, rfl⟩

variable {entry : SdpState → ℕ → Except SdpFault SdpState} {P : SdpState → Prop}

/-- The loop over the entries keeps what each entry keeps. -/
theorem entryLoop_ok (size : ℕ)
    (hentry : ∀ st pd, P st → ∃ st', entry st pd = .ok st' ∧ P st')
    (fuel l2capLen pd : ℕ) {st : SdpState} (h : P st) :
    ∃ st' left, entryLoop size entry fuel l2capLen pd st = .ok (st', left) ∧ P st' := by
  induction fuel generalizing l2capLen pd st with
  | zero => exact ⟨st, l2capLen, rfl, h⟩
  | succ fuel ih =>
    rw [entryLoop]
    split
    · obtain ⟨st', hok, h'⟩ := hentry st pd h
      rw [hok]
      exact ih _ _ h'
    · exact ⟨st, l2capLen, rfl, h⟩

/-- An answer with declarations is stored within the arrays. -/
theorem parseChars_ok (h : InArrays a st) :
    ∃ st', parseChars a st = .ok st' ∧ InArrays a st' ∧ st'.phase = st.phase := by
  have hloop : ∀ size entry, (∀ st' pd, InArrays a st' ∧ st'.phase = st.phase →
      ∃ st'', entry st' pd = .ok st'' ∧ InArrays a st'' ∧ st''.phase = st.phase) →
      ∃ st', entries size entry st = .ok st' ∧ InArrays a st' ∧ st'.phase = st.phase := by
    intro size entry hentry
    obtain ⟨st', left, hok, h', hphase⟩ :=
      entryLoop_ok size hentry (bytesToUint16 st.dat 2) (bytesToUint16 st.dat 2) 8 ⟨h, rfl⟩
    unfold entries
    simp only [hok]
    exact ⟨_, rfl, ⟨h'.pos16, h'.pos128, h'.le16, h'.report⟩, hphase⟩
  unfold parseChars
  split
  · refine hloop 21 _ fun st' pd ⟨h', hphase⟩ => ?_
    obtain ⟨st'', hok, h'', hphase'⟩ := entry128_ok h' pd
    exact ⟨st'', hok, h'', hphase'.trans hphase⟩
  · split
    · refine hloop 7 _ fun st' pd ⟨h', hphase⟩ => ?_
      obtain ⟨st'', hok, h'', hphase'⟩ := entry16_ok h' pd
      exact ⟨st'', hok, h'', hphase'.trans hphase⟩
    · exact ⟨st, rfl, h, rfl⟩

theorem nextReport_le (h : InArrays a st) (i : ℕ) :
    InArrays a (nextReport st i) ∧ requestsLeft (nextReport st i) ≤ 2 * (st.i16 - i) ∧
      (nextReport st i).phase ≠ .chars := by
  unfold nextReport
  split
  case h_1 j hfind =>
    have hj := List.mem_range'_1.mp (List.mem_of_find?_eq_some hfind)
    refine ⟨⟨h.pos16, h.pos128, h.le16, ?_⟩, ?_, fun hphase => (nomatch hphase)⟩
    · rintro i (hi | ⟨handle, hi⟩)
      · cases hi
        show j < st.i16
        omega
      · cases hi
    · show 2 * (st.i16 - j) ≤ _
      omega
  case h_2 =>
    refine ⟨⟨h.pos16, h.pos128, h.le16, ?_⟩, Nat.zero_le _, fun hphase => (nomatch hphase)⟩
    rintro i (hi | ⟨handle, hi⟩)
    · cases hi
    · cases hi

/-- In the first pass, a list of declarations is stored and keeps the pass, and every other answer
ends it. -/
theorem takeAnswer_first (h : InArrays a st) (hphase : st.phase = .chars) :
    ∃ st', takeAnswer a st = .ok st' ∧ InArrays a st' ∧
      (st'.phase = .chars ↔ st.dat 6 = attOpReadByTypeRsp) := by
  unfold takeAnswer
  rw [hphase]
  dsimp only
  split
  case isTrue hop =>
    have hnum : ∀ p16 p128, InArrays a { st with p16 := p16, p128 := p128 } :=
      fun p16 p128 => ⟨h.pos16, h.pos128, h.le16, h.report⟩
    obtain ⟨h', -, hne⟩ := nextReport_le (hnum _ _) 0
    refine ⟨_, ?_, h', iff_of_false hne hop⟩
    unfold secondPass
    rw [write16_of_lt h.pos16]
    dsimp only [bind, Except.bind]
    rw [write128_of_lt h.pos128]
  case isFalse hop =>
    obtain ⟨st', hok, h', hphase'⟩ := parseChars_ok h
    exact ⟨st', hok, h', iff_of_true (hphase'.trans hphase) (by_contra hop)⟩

/-- In the second pass, every answer leaves fewer requests. -/
theorem takeAnswer_second (h : InArrays a st) (hne : st.phase ≠ .chars)
    (hrequest : st.request ≠ none) :
    ∃ st', takeAnswer a st = .ok st' ∧ InArrays a st' ∧ st'.phase ≠ .chars ∧
      requestsLeft st' < requestsLeft st := by
  unfold takeAnswer
  cases hphase : st.phase with
  | chars => exact absurd hphase hne
  | info i =>
    have hi : i < st.i16 := h.report i (.inl hphase)
    have hleft : requestsLeft st = 2 * (st.i16 - i) := by rw [requestsLeft, hphase]
    rw [hleft]
    dsimp only
    split
    case h_1 handle _ =>
      refine ⟨_, rfl, ⟨h.pos16, h.pos128, h.le16, ?_⟩, fun hchars => (nomatch hchars), ?_⟩
      · rintro j (hj | ⟨handle', hj⟩)
        · cases hj
        · cases hj
          exact hi
      · show 2 * (st.i16 - i) - 1 < _
        omega
    case h_2 =>
      obtain ⟨h', hle, hne'⟩ := nextReport_le h (i + 1)
      exact ⟨_, rfl, h', hne', by omega⟩
  | read i handle =>
    have hi : i < st.i16 := h.report i (.inr ⟨handle, hphase⟩)
    have hleft : requestsLeft st = 2 * (st.i16 - i) - 1 := by rw [requestsLeft, hphase]
    have hnew : ∀ p16, InArrays a { st with p16 := p16 } :=
      fun p16 => ⟨h.pos16, h.pos128, h.le16, h.report⟩
    have hlast : ∀ p16, ∃ st', (.ok (nextReport { st with p16 := p16 } (i + 1)) :
        Except SdpFault SdpState) = .ok st' ∧ InArrays a st' ∧ st'.phase ≠ .chars ∧
        requestsLeft st' < 2 * (st.i16 - i) - 1 := by
      intro p16
      obtain ⟨h', hle, hne'⟩ := nextReport_le (hnew p16) (i + 1)
      change requestsLeft _ ≤ 2 * (st.i16 - (i + 1)) at hle
      exact ⟨_, rfl, h', hne', by omega⟩
    rw [hleft]
    dsimp only
    split
    · rw [write16_of_lt (Nat.lt_of_lt_of_le hi h.le16)]
      exact hlast _
    · exact hlast st.p16
  | done status => exact absurd (by rw [SdpState.request, hphase]) hrequest

end Writes

/-- A request whose packets do not fit is a fault, and every other one is none. -/
theorem discoveryStep_fault {a : SdpArgs} {st : SdpState} {calls : List (List AttPacket)}
    (hbad : ¬ RoundFits a st calls) : discoveryStep a st calls = .error .dat := by
  unfold RoundFits at hbad
  push Not at hbad
  obtain ⟨request, hrequest, pk, hpk, hlong⟩ := hbad
  unfold discoveryStep
  rw [hrequest]
  dsimp only
  rw [hostAttServiceWaitEvent_eq, if_neg fun hall => hlong (hall pk hpk)]
  rfl

/-- The state behind the wait for a request. -/
def withAnswer (a : SdpArgs) (st : SdpState) (request : AttRequest)
    (calls : List (List AttPacket)) : SdpState :=
  { st with
    dat := copyAll (Function.update st.dat 6 request.opcode)
      (accepted (busyOf a.handle request.opcode) calls)
    busy := busyLeft (busyOf a.handle request.opcode) calls }

/-- A request with an answer. -/
theorem discoveryStep_of_answered {a : SdpArgs} {st : SdpState} {calls : List (List AttPacket)}
    {request : AttRequest} (hrequest : st.request = some request) (hfits : RoundFits a st calls)
    (hanswer : answered (busyOf a.handle request.opcode) calls = true) :
    discoveryStep a st calls = takeAnswer a (withAnswer a st request calls) := by
  unfold discoveryStep
  rw [hrequest]
  dsimp only
  rw [hostAttServiceWaitEvent_eq, if_pos (hfits request hrequest), hanswer]
  rfl

/-- A request without an answer. -/
theorem discoveryStep_of_late {a : SdpArgs} {st : SdpState} {calls : List (List AttPacket)}
    {request : AttRequest} (hrequest : st.request = some request) (hfits : RoundFits a st calls)
    (hlate : answered (busyOf a.handle request.opcode) calls = false) :
    discoveryStep a st calls =
      .ok { withAnswer a st request calls with phase := .done .timeout } := by
  unfold discoveryStep
  rw [hrequest]
  dsimp only
  rw [hostAttServiceWaitEvent_eq, if_pos (hfits request hrequest), hlate]
  rfl

namespace InArrays

variable {a : SdpArgs} {st : SdpState} {calls : List (List AttPacket)}

theorem withAnswer (h : InArrays a st) (request : AttRequest) (calls : List (List AttPacket)) :
    InArrays a (withAnswer a st request calls) :=
  ⟨h.pos16, h.pos128, h.le16, h.report⟩

theorem returned (h : InArrays a st) (status : SdpStatus) :
    InArrays a { st with phase := .done status } := by
  refine ⟨h.pos16, h.pos128, h.le16, ?_⟩
  rintro i (hi | ⟨handle, hi⟩)
  · cases hi
  · cases hi

/-- A request of the first pass. -/
theorem step_first (h : InArrays a st) (hphase : st.phase = .chars)
    (hfits : RoundFits a st calls) :
    ∃ st', discoveryStep a st calls = .ok st' ∧ InArrays a st' ∧
      (st'.phase = .chars ↔ ¬ EndsPass a calls) := by
  have hrequest : st.request = some (.readByType st.s) := by rw [SdpState.request, hphase]
  unfold EndsPass
  cases hanswer : answered (busyOf a.handle attOpReadByTypeReq) calls with
  | false =>
    refine ⟨_, discoveryStep_of_late hrequest hfits hanswer, (h.withAnswer _ _).returned _, ?_⟩
    exact iff_of_false (fun hchars => (nomatch hchars)) (fun hnot => hnot (.inl rfl))
  | true =>
    obtain ⟨st', hok, h', hiff⟩ := takeAnswer_first (h.withAnswer _ calls) hphase
    refine ⟨st', (discoveryStep_of_answered hrequest hfits hanswer).trans hok, h', ?_⟩
    have hop : (Common.withAnswer a st (.readByType st.s) calls).dat 6 = opcodeLeft
        attOpReadByTypeReq (accepted (busyOf a.handle attOpReadByTypeReq) calls) := by
      refine (copyAll_opcode _ _).trans ?_
      rw [Function.update_self]
      rfl
    rw [hiff, hop]
    simp

/-- A request of the second pass. -/
theorem step_second (h : InArrays a st) (hne : st.phase ≠ .chars) (hrequest : st.request ≠ none)
    (hfits : RoundFits a st calls) :
    ∃ st', discoveryStep a st calls = .ok st' ∧ InArrays a st' ∧ st'.phase ≠ .chars ∧
      requestsLeft st' < requestsLeft st := by
  obtain ⟨request, hrequest'⟩ := Option.ne_none_iff_exists'.mp hrequest
  cases hanswer : answered (busyOf a.handle request.opcode) calls with
  | false =>
    refine ⟨_, discoveryStep_of_late hrequest' hfits hanswer, (h.withAnswer _ _).returned _,
      fun hchars => (nomatch hchars), ?_⟩
    show 0 < requestsLeft st
    unfold requestsLeft
    cases hphase : st.phase with
    | chars => exact absurd hphase hne
    | info i =>
      have hi := h.report i (.inl hphase)
      show 0 < 2 * (st.i16 - i)
      omega
    | read i handle =>
      have hi := h.report i (.inr ⟨handle, hphase⟩)
      show 0 < 2 * (st.i16 - i) - 1
      omega
    | done status => exact absurd (by rw [SdpState.request, hphase]) hrequest
  | true =>
    obtain ⟨st', hok, h', hne', hlt⟩ :=
      takeAnswer_second (h.withAnswer request calls) hne hrequest
    exact ⟨st', (discoveryStep_of_answered hrequest' hfits hanswer).trans hok, h', hne', hlt⟩

/-- A request is without a fault exactly if its packets fit. -/
theorem step_ok (h : InArrays a st) (hfits : RoundFits a st calls) :
    ∃ st', discoveryStep a st calls = .ok st' ∧ InArrays a st' := by
  by_cases hchars : st.phase = .chars
  · obtain ⟨st', hok, h', -⟩ := h.step_first hchars hfits
    exact ⟨st', hok, h'⟩
  · by_cases hrequest : st.request = none
    · exact ⟨st, by rw [discoveryStep, hrequest], h⟩
    · obtain ⟨st', hok, h', -⟩ := h.step_second hchars hrequest hfits
      exact ⟨st', hok, h'⟩

end InArrays

/-! ## All requests -/

section Runs

variable {a : SdpArgs} {start : Except SdpFault SdpState}
  {peer : ℕ → SdpState → List (List AttPacket)}

/-- Discovery returns behind finitely many requests, without a write behind an end of an array. -/
def SdpReturns (a : SdpArgs) (start : Except SdpFault SdpState)
    (peer : ℕ → SdpState → List (List AttPacket)) : Prop :=
  ∃ k st status, discoveryRun a start peer k = .ok st ∧ st.phase = .done status

theorem discoveryStart_ok (a : SdpArgs) (dat : ℕ → UInt8) (p16 : ℕ → AttDbUuid16)
    (p128 : ℕ → AttDbUuid128) (h16 : 0 < a.n16) (h128 : 0 < a.n128) :
    ∃ st, discoveryStart a dat p16 p128 = .ok st ∧ InArrays a st ∧ st.phase = .chars := by
  unfold discoveryStart
  rw [write16_of_lt h16]
  dsimp only [bind, Except.bind]
  rw [write128_of_lt h128]
  refine ⟨_, rfl, ⟨h16, h128, Nat.zero_le _, ?_⟩, rfl⟩
  rintro i (hi | ⟨handle, hi⟩)
  · cases hi
  · cases hi

/-- The counts are stored in the first entries. -/
theorem pos_of_discoveryStart_ok {dat : ℕ → UInt8} {p16 : ℕ → AttDbUuid16}
    {p128 : ℕ → AttDbUuid128} (h : Ok (discoveryStart a dat p16 p128)) :
    0 < a.n16 ∧ 0 < a.n128 := by
  unfold discoveryStart at h
  obtain ⟨st, hst, h'⟩ := ok_bind.mp h
  unfold write16 at hst
  unfold write128 at h'
  split at hst
  · split at h'
    · exact ⟨‹_›, ‹_›⟩
    · exact absurd h' (not_ok_error _)
  · cases hst

/-- Behind a fault there is no request. -/
theorem ok_of_discoveryRun_ok {j k : ℕ} (hjk : j ≤ k) (h : Ok (discoveryRun a start peer k)) :
    Ok (discoveryRun a start peer j) := by
  induction hjk with
  | refl => exact h
  | step _ ih =>
    obtain ⟨st, hst, -⟩ := ok_bind.mp h
    exact ih ⟨st, hst⟩

theorem discoveryRun_succ {k : ℕ} {st : SdpState} (h : discoveryRun a start peer k = .ok st) :
    discoveryRun a start peer (k + 1) = discoveryStep a st (peer k st) := by
  rw [discoveryRun, h]
  rfl

/-- A function that has returned makes no request. -/
theorem discoveryRun_of_done {k : ℕ} {st : SdpState} (h : discoveryRun a start peer k = .ok st)
    (hdone : st.request = none) (n : ℕ) : discoveryRun a start peer (k + n) = .ok st := by
  induction n with
  | zero => exact h
  | succ n ih =>
    rw [← Nat.add_assoc, discoveryRun_succ ih, discoveryStep, hdone]

theorem request_of_done {st : SdpState} {status : SdpStatus} (h : st.phase = .done status) :
    st.request = none := by
  rw [SdpState.request, h]

/-- Two ends of a run are the same. -/
theorem discoveryRun_end {k k' : ℕ} {st st' : SdpState}
    (h : discoveryRun a start peer k = .ok st) (hend : st.request = none)
    (h' : discoveryRun a start peer k' = .ok st') (hend' : st'.request = none) : st = st' := by
  rcases Nat.le_total k k' with hle | hle
  · have hlast := discoveryRun_of_done h hend (k' - k)
    rw [Nat.add_sub_cancel' hle, h'] at hlast
    exact (Except.ok.inj hlast).symm
  · have hlast := discoveryRun_of_done h' hend' (k - k')
    rw [Nat.add_sub_cancel' hle, h] at hlast
    exact Except.ok.inj hlast

/-- Where all packets fit, no request is a fault. -/
theorem discoveryRun_ok {st₀ : SdpState} (hstart : start = .ok st₀) (h₀ : InArrays a st₀)
    (hfits : ∀ k st, discoveryRun a start peer k = .ok st → RoundFits a st (peer k st)) (k : ℕ) :
    ∃ st, discoveryRun a start peer k = .ok st ∧ InArrays a st := by
  induction k with
  | zero => exact ⟨st₀, hstart, h₀⟩
  | succ k ih =>
    obtain ⟨st, hst, hin⟩ := ih
    rw [discoveryRun_succ hst]
    exact hin.step_ok (hfits k st hst)

/-- The second pass comes to its end. -/
theorem returns_of_second (hfits : ∀ k st, discoveryRun a start peer k = .ok st →
    RoundFits a st (peer k st)) {k : ℕ} {st : SdpState} (hst : discoveryRun a start peer k = .ok st)
    (hin : InArrays a st) (hne : st.phase ≠ .chars) : SdpReturns a start peer := by
  generalize hn : requestsLeft st = n
  induction n using Nat.strongRecOn generalizing k st with
  | ind n ih =>
    cases hrequest : st.request with
    | none =>
      cases hphase : st.phase with
      | done status => exact ⟨k, st, status, hst, hphase⟩
      | chars => exact absurd hphase hne
      | info i =>
        rw [SdpState.request, hphase] at hrequest
        cases hrequest
      | read i handle =>
        rw [SdpState.request, hphase] at hrequest
        cases hrequest
    | some request =>
      obtain ⟨st', hok, hin', hne', hlt⟩ :=
        hin.step_second hne (by rw [hrequest]; exact Option.some_ne_none _) (hfits k st hst)
      exact ih _ (hn ▸ hlt) ((discoveryRun_succ hst).trans hok) hin' hne' rfl

/-- A discovery that returns has met an answer that ends the first pass. -/
theorem endsPass_of_returns {st₀ : SdpState} (hstart : start = .ok st₀) (h₀ : InArrays a st₀)
    (hphase : st₀.phase = .chars)
    (hfits : ∀ k st, discoveryRun a start peer k = .ok st → RoundFits a st (peer k st))
    (h : SdpReturns a start peer) :
    ∃ k st, discoveryRun a start peer k = .ok st ∧ st.phase = .chars ∧ EndsPass a (peer k st) := by
  by_contra hnone
  push Not at hnone
  have hall : ∀ k, ∃ st, discoveryRun a start peer k = .ok st ∧ InArrays a st ∧
      st.phase = .chars := by
    intro k
    induction k with
    | zero => exact ⟨st₀, hstart, h₀, hphase⟩
    | succ k ih =>
      obtain ⟨st, hst, hin, hchars⟩ := ih
      obtain ⟨st', hok, hin', hiff⟩ := hin.step_first hchars (hfits k st hst)
      exact ⟨st', (discoveryRun_succ hst).trans hok, hin', hiff.mpr (hnone k st hst hchars)⟩
  obtain ⟨k, st, status, hst, hdone⟩ := h
  obtain ⟨st', hst', -, hchars⟩ := hall k
  rw [hst] at hst'
  cases hst'
  rw [hdone] at hchars
  cases hchars

/-- Up to its return, the packets that a discovery takes fit. -/
theorem fits_of_returns (h : SdpReturns a start peer) {k : ℕ} {st : SdpState}
    (hst : discoveryRun a start peer k = .ok st) : RoundFits a st (peer k st) := by
  obtain ⟨n, st', status, hst', hdone⟩ := h
  have hnone := request_of_done hdone
  by_contra hbad
  have hfault : ¬ Ok (discoveryRun a start peer (k + 1)) := by
    rw [discoveryRun_succ hst, discoveryStep_fault hbad]
    exact not_ok_error _
  rcases Nat.lt_or_ge k n with hlt | hge
  · exact hfault (ok_of_discoveryRun_ok hlt ⟨st', hst'⟩)
  · have hlast := discoveryRun_of_done hst' hnone (k + 1 - n)
    rw [Nat.add_sub_cancel' (Nat.le_succ_of_le hge)] at hlast
    exact hfault ⟨st', hlast⟩

end Runs

/-- Whatever arrives for the requests, discovery returns behind finitely many of them without a
write behind an end of `dat`, `p16` or `p128` exactly if both arrays have an entry, no packet that
the handler takes is longer than `dat`, and an answer to a request for declarations is late or is
no list of them. -/
theorem sdpReturns_iff (a : SdpArgs) (dat : ℕ → UInt8) (p16 : ℕ → AttDbUuid16)
    (p128 : ℕ → AttDbUuid128) (peer : ℕ → SdpState → List (List AttPacket)) :
    SdpReturns a (discoveryStart a dat p16 p128) peer ↔
      (0 < a.n16 ∧ 0 < a.n128) ∧
      (∀ k st, discoveryRun a (discoveryStart a dat p16 p128) peer k = .ok st →
        RoundFits a st (peer k st)) ∧
      ∃ k st, discoveryRun a (discoveryStart a dat p16 p128) peer k = .ok st ∧
        st.phase = .chars ∧ EndsPass a (peer k st) := by
  constructor
  · intro h
    obtain ⟨k, st, status, hst, -⟩ := id h
    have hpos := pos_of_discoveryStart_ok (ok_of_discoveryRun_ok (Nat.zero_le k) ⟨st, hst⟩)
    obtain ⟨st₀, hstart, h₀, hphase⟩ := discoveryStart_ok a dat p16 p128 hpos.1 hpos.2
    have hfits : ∀ k st, discoveryRun a (discoveryStart a dat p16 p128) peer k = .ok st →
        RoundFits a st (peer k st) := fun _ _ => fits_of_returns h
    exact ⟨hpos, hfits, endsPass_of_returns hstart h₀ hphase hfits h⟩
  · rintro ⟨⟨h16, h128⟩, hfits, k, st, hst, hchars, hends⟩
    obtain ⟨st₀, hstart, h₀, -⟩ := discoveryStart_ok a dat p16 p128 h16 h128
    obtain ⟨st', hst', hin⟩ := discoveryRun_ok hstart h₀ hfits k
    rw [hst] at hst'
    cases hst'
    obtain ⟨st'', hok, hin', hiff⟩ := hin.step_first hchars (hfits k st hst)
    exact returns_of_second hfits ((discoveryRun_succ hst).trans hok) hin'
      fun hphase => hiff.mp hphase hends

end TlBleSdk.Common
