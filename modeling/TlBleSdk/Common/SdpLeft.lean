import TlBleSdk.Common.SdpReturns

/-!
# What service discovery leaves behind

Behind the return `p_att_response` still points to where `dat` was, and `host_att_req_busy` is what
the last wait has left of it. Every packet that the handler takes then is written outside: the
answer that was waited for in vain, or, where nothing is waited for, an error.
-/

namespace TlBleSdk.Common

open Hci Checked

/-! ## `host_att_req_busy` -/

section Left

variable {a : SdpArgs} {st st' : SdpState} {start : Except SdpFault SdpState}
  {peer : ℕ → SdpState → List (List AttPacket)} {i : ℕ}

theorem write16_busy {f : AttDbUuid16 → AttDbUuid16} (h : write16 a st i f = .ok st') :
    st'.busy = st.busy := by
  unfold write16 at h
  split at h
  · cases h
    rfl
  · cases h

theorem write128_busy {f : AttDbUuid128 → AttDbUuid128} (h : write128 a st i f = .ok st') :
    st'.busy = st.busy := by
  unfold write128 at h
  split at h
  · cases h
    rfl
  · cases h

theorem entry16_busy {pd : ℕ} (h : entry16 a st pd = .ok st') : st'.busy = st.busy := by
  unfold entry16 at h
  dsimp only at h
  split at h
  · obtain ⟨st₁, h₁, h₂⟩ := bind_eq_ok.mp h
    have hbusy := write16_busy h₁
    cases h₂
    exact hbusy
  · cases h
    rfl

theorem entry128_busy {pd : ℕ} (h : entry128 a st pd = .ok st') : st'.busy = st.busy := by
  unfold entry128 at h
  dsimp only at h
  split at h
  · obtain ⟨st₁, h₁, h₂⟩ := bind_eq_ok.mp h
    have hbusy := write128_busy h₁
    cases h₂
    exact hbusy
  · cases h
    rfl

theorem entryLoop_busy {size : ℕ} {entry : SdpState → ℕ → Except SdpFault SdpState}
    (hentry : ∀ st st' pd, entry st pd = .ok st' → st'.busy = st.busy) {fuel l2capLen pd left : ℕ}
    (h : entryLoop size entry fuel l2capLen pd st = .ok (st', left)) : st'.busy = st.busy := by
  induction fuel generalizing l2capLen pd st with
  | zero =>
    cases h
    rfl
  | succ fuel ih =>
    rw [entryLoop] at h
    split at h
    · obtain ⟨st₁, h₁, h₂⟩ := bind_eq_ok.mp h
      exact (ih h₂).trans (hentry _ _ _ h₁)
    · cases h
      rfl

theorem parseChars_busy (h : parseChars a st = .ok st') : st'.busy = st.busy := by
  have hloop : ∀ {size entry}, (∀ st st' pd, entry st pd = .ok st' → st'.busy = st.busy) →
      entries size entry st = .ok st' → st'.busy = st.busy := by
    intro size entry hentry h
    unfold entries at h
    obtain ⟨⟨st₁, left⟩, h₁, h₂⟩ := bind_eq_ok.mp h
    have hbusy := entryLoop_busy hentry h₁
    cases h₂
    exact hbusy
  unfold parseChars at h
  split at h
  · exact hloop (fun _ _ _ => entry128_busy) h
  split at h
  · exact hloop (fun _ _ _ => entry16_busy) h
  · cases h
    rfl

theorem nextReport_busy (st : SdpState) (i : ℕ) : (nextReport st i).busy = st.busy := by
  unfold nextReport
  split
  · rfl
  · rfl

/-- Only the waits change `host_att_req_busy`. -/
theorem takeAnswer_busy (h : takeAnswer a st = .ok st') : st'.busy = st.busy := by
  unfold takeAnswer at h
  split at h
  · split at h
    · obtain ⟨st₁, h₁, h'⟩ := bind_eq_ok.mp h
      obtain ⟨st₂, h₂, h''⟩ := bind_eq_ok.mp h'
      cases h''
      rw [nextReport_busy, write128_busy h₂, write16_busy h₁]
    · exact parseChars_busy h
  · split at h
    · cases h
      rfl
    · cases h
      exact nextReport_busy _ _
  · split at h
    · obtain ⟨st₁, h₁, h'⟩ := bind_eq_ok.mp h
      cases h'
      rw [nextReport_busy, write16_busy h₁]
    · cases h
      exact nextReport_busy _ _
  · cases h
    rfl

/-! ## The end of a run -/

/-- What has come of the requests before `k`: all have had an answer and `host_att_req_busy` is
zero, or one has not, and it is what that wait has left. -/
inductive Waited (a : SdpArgs) (start : Except SdpFault SdpState)
    (peer : ℕ → SdpState → List (List AttPacket)) (k : ℕ) (st : SdpState) : Prop where
  | idle (hbusy : st.busy = 0)
    (hall : ∀ j < k, ∀ st' request, discoveryRun a start peer j = .ok st' →
      st'.request = some request → answered (busyOf a.handle request.opcode) (peer j st') = true)
  | late {j : ℕ} {st' : SdpState} {request : AttRequest}
    (hrun : discoveryRun a start peer j = .ok st') (hrequest : st'.request = some request)
    (hlate : answered (busyOf a.handle request.opcode) (peer j st') = false)
    (hend : st.request = none)
    (hbusy : st.busy = busyLeft (busyOf a.handle request.opcode) (peer j st'))

/-- What one request makes of it. -/
theorem Waited.step {k : ℕ} (hrun : discoveryRun a start peer k = .ok st)
    (hrun' : discoveryRun a start peer (k + 1) = .ok st') (hfits : RoundFits a st (peer k st))
    (h : Waited a start peer k st) : Waited a start peer (k + 1) st' := by
  rw [discoveryRun_succ hrun] at hrun'
  cases hrequest : st.request with
  | none =>
    -- behind the end nothing is sent, so nothing is waited for
    have hsame : st' = st := by
      rw [discoveryStep, hrequest] at hrun'
      exact (Except.ok.inj hrun').symm
    subst hsame
    cases h with
    | idle hbusy hall =>
      refine .idle hbusy fun j hj st₁ request h₁ hrequest₁ => ?_
      obtain hlt | rfl := Nat.lt_succ_iff_lt_or_eq.mp hj
      · exact hall j hlt st₁ request h₁ hrequest₁
      · rw [hrun] at h₁
        cases h₁
        rw [hrequest] at hrequest₁
        cases hrequest₁
    | late hrun₁ hrequest₁ hlate hend hbusy => exact .late hrun₁ hrequest₁ hlate hend hbusy
  | some request =>
    cases h with
    | idle hbusy hall =>
      cases hanswer : answered (busyOf a.handle request.opcode) (peer k st) with
      | true =>
        rw [discoveryStep_of_answered hrequest hfits hanswer] at hrun'
        refine .idle ?_ fun j hj st₁ request₁ h₁ hrequest₁ => ?_
        · exact (takeAnswer_busy hrun').trans (busyLeft_of_answered hanswer)
        · obtain hlt | rfl := Nat.lt_succ_iff_lt_or_eq.mp hj
          · exact hall j hlt st₁ request₁ h₁ hrequest₁
          · rw [hrun] at h₁
            cases h₁
            rw [hrequest] at hrequest₁
            cases hrequest₁
            exact hanswer
      | false =>
        -- a wait in vain ends the discovery
        rw [discoveryStep_of_late hrequest hfits hanswer] at hrun'
        cases hrun'
        exact .late hrun hrequest hanswer rfl rfl
    | late _ _ _ hend _ =>
      rw [hrequest] at hend
      cases hend

theorem waited_run {st₀ : SdpState} (hstart : start = .ok st₀) (hbusy : st₀.busy = 0)
    (hfits : ∀ k st, discoveryRun a start peer k = .ok st → RoundFits a st (peer k st)) (k : ℕ) :
    ∀ st, discoveryRun a start peer k = .ok st → Waited a start peer k st := by
  induction k with
  | zero =>
    rintro st hrun
    obtain rfl := Except.ok.inj (hstart.symm.trans hrun)
    exact .idle hbusy fun j hj => absurd hj (Nat.not_lt_zero j)
  | succ k ih =>
    intro st' hrun'
    obtain ⟨st, hrun, -⟩ := bind_eq_ok.mp hrun'
    exact (ih st hrun).step hrun hrun' (hfits k st hrun)

/-- Behind the return every packet that the handler takes is written where no array is. -/
theorem foldlM_left (late : List AttPacket) (st : SdpState) :
    Ok (late.foldlM hostAttClientHandler st.left) ↔ ∀ pk ∈ late, takesPacket st.busy pk = false := by
  induction late with
  | nil => exact iff_of_true (ok_pure _) fun pk hpk => absurd hpk List.not_mem_nil
  | cons pk late ih =>
    rw [List.foldlM_cons, List.forall_mem_cons, hostAttClientHandler]
    cases htakes : takesPacket st.busy pk with
    | true =>
      have htakes' : takesPacket st.left.busy pk = true := htakes
      -- the pointer is left, the array is not: there is no room for a single byte
      have hsize : ¬ pk.l2capLen + 6 ≤ st.left.size := Nat.not_succ_le_zero _
      rw [if_pos htakes', if_neg hsize]
      exact iff_of_false (not_ok_error _) fun h => Bool.false_ne_true h.1.symm
    | false =>
      have htakes' : ¬ takesPacket st.left.busy pk = true := by
        show ¬ takesPacket st.busy pk = true
        rw [htakes]
        exact Bool.false_ne_true
      rw [if_neg htakes', and_iff_right rfl]
      exact ih

/-- Discovery returns, and behind the return none of the packets `late` that are handed to
`host_att_client_handler` is written either. -/
def SdpSafe (a : SdpArgs) (start : Except SdpFault SdpState)
    (peer : ℕ → SdpState → List (List AttPacket)) (late : List AttPacket) : Prop :=
  ∃ k st status, discoveryRun a start peer k = .ok st ∧ st.phase = .done status ∧
    Ok (late.foldlM hostAttClientHandler st.left)

/-- No packet behind the return is taken: none for a request that was not answered in time, and
if there is none such, no error of a connection that the idle value of `host_att_req_busy`
names. -/
structure LateUntaken (a : SdpArgs) (start : Except SdpFault SdpState)
    (peer : ℕ → SdpState → List (List AttPacket)) (late : List AttPacket) : Prop where
  timeout : ∀ k st request, discoveryRun a start peer k = .ok st → st.request = some request →
    answered (busyOf a.handle request.opcode) (peer k st) = false →
    ∀ pk ∈ late, takesPacket (busyLeft (busyOf a.handle request.opcode) (peer k st)) pk = false
  idle : (∀ k st request, discoveryRun a start peer k = .ok st → st.request = some request →
    answered (busyOf a.handle request.opcode) (peer k st) = true) →
    ∀ pk ∈ late, takesPacket 0 pk = false

/-- At the end of a run without a fault. -/
theorem lateUntaken_iff {st₀ : SdpState} (hstart : start = .ok st₀) (hbusy : st₀.busy = 0)
    (hfits : ∀ k st, discoveryRun a start peer k = .ok st → RoundFits a st (peer k st)) {k : ℕ}
    (hrun : discoveryRun a start peer k = .ok st) (hend : st.request = none)
    (late : List AttPacket) :
    (∀ pk ∈ late, takesPacket st.busy pk = false) ↔ LateUntaken a start peer late := by
  have hwaited := waited_run hstart hbusy hfits k st hrun
  constructor
  · intro h
    refine ⟨fun j st' request hrun' hrequest hlate => ?_, fun hall => ?_⟩
    · -- The request that was not answered is the last one.
      have hstep := (discoveryRun_succ hrun').trans
        (discoveryStep_of_late hrequest (hfits j st' hrun') hlate)
      have hsame := discoveryRun_end hrun hend hstep rfl
      rw [hsame] at h
      exact h
    · cases hwaited with
      | idle hbusy _ => rwa [hbusy] at h
      | late hrun' hrequest hlate _ _ =>
        rw [hall _ _ _ hrun' hrequest] at hlate
        cases hlate
  · intro h
    cases hwaited with
    | idle hbusy hall =>
      rw [hbusy]
      refine h.idle fun j st' request hrun' hrequest => ?_
      rcases Nat.lt_or_ge j k with hlt | hge
      · exact hall j hlt st' request hrun' hrequest
      · -- from `k` on the run stays where it is, without a request
        have hlast := discoveryRun_of_done hrun hend (j - k)
        rw [Nat.add_sub_cancel' hge, hrun'] at hlast
        cases hlast
        rw [hrequest] at hend
        cases hend
    | late hrun' hrequest hlate _ hbusy =>
      rw [hbusy]
      exact h.timeout _ _ _ hrun' hrequest hlate

end Left

theorem busy_of_discoveryStart {a : SdpArgs} {dat : ℕ → UInt8} {p16 : ℕ → AttDbUuid16}
    {p128 : ℕ → AttDbUuid128} {st : SdpState} (h : discoveryStart a dat p16 p128 = .ok st) :
    st.busy = 0 := by
  obtain ⟨st₁, h₁, h₂⟩ := bind_eq_ok.mp h
  rw [write128_busy h₂, write16_busy h₁]

/-- Whatever arrives for the requests and behind the return, discovery returns behind finitely many
requests without a write behind an end of `dat`, `p16` or `p128`, and none follows, exactly if both
arrays have an entry, no packet that the handler takes is longer than `dat`, an answer to a request
for declarations is late or is no list of them, and the handler takes no packet behind the
return. -/
theorem sdpSafe_iff (a : SdpArgs) (dat : ℕ → UInt8) (p16 : ℕ → AttDbUuid16)
    (p128 : ℕ → AttDbUuid128) (peer : ℕ → SdpState → List (List AttPacket))
    (late : List AttPacket) :
    SdpSafe a (discoveryStart a dat p16 p128) peer late ↔
      (0 < a.n16 ∧ 0 < a.n128) ∧
      (∀ k st, discoveryRun a (discoveryStart a dat p16 p128) peer k = .ok st →
        RoundFits a st (peer k st)) ∧
      (∃ k st, discoveryRun a (discoveryStart a dat p16 p128) peer k = .ok st ∧
        st.phase = .chars ∧ EndsPass a (peer k st)) ∧
      LateUntaken a (discoveryStart a dat p16 p128) peer late := by
  constructor
  · rintro ⟨k, st, status, hrun, hdone, hlate⟩
    obtain ⟨hpos, hfits, hends⟩ := (sdpReturns_iff a dat p16 p128 peer).mp
      ⟨k, st, status, hrun, hdone⟩
    obtain ⟨st₀, hstart, -, -⟩ := discoveryStart_ok a dat p16 p128 hpos.1 hpos.2
    refine ⟨hpos, hfits, hends, ?_⟩
    rw [← lateUntaken_iff hstart (busy_of_discoveryStart hstart) hfits hrun (request_of_done hdone)]
    exact (foldlM_left late st).mp hlate
  · rintro ⟨hpos, hfits, hends, hlate⟩
    obtain ⟨k, st, status, hrun, hdone⟩ :=
      (sdpReturns_iff a dat p16 p128 peer).mpr ⟨hpos, hfits, hends⟩
    obtain ⟨st₀, hstart, -, -⟩ := discoveryStart_ok a dat p16 p128 hpos.1 hpos.2
    refine ⟨k, st, status, hrun, hdone, (foldlM_left late st).mpr ?_⟩
    rwa [lateUntaken_iff hstart (busy_of_discoveryStart hstart) hfits hrun (request_of_done hdone)]

/-- A list of declarations without an entry. -/
def emptyList : AttPacket := ⟨0x80, mem [0x02, 0x06, 0x02, 0x00, 0x04, 0x00, 0x09, 0x07]⟩

/-- A list of declarations of 251 bytes. -/
def longList : AttPacket := ⟨0x80, mem [0x02, 0xFF, 0xFB, 0x00, 0x04, 0x00, 0x09, 0x07]⟩

/-- The error that there is no attribute. -/
def notFound : AttPacket :=
  ⟨0x80, mem [0x02, 0x09, 0x05, 0x00, 0x04, 0x00, 0x01, 0x08, 0x01, 0x00, 0x0A]⟩

/-- What a discovery that is safe has met behind its return. -/
theorem SdpSafe.untaken {a : SdpArgs} {dat : ℕ → UInt8} {p16 : ℕ → AttDbUuid16}
    {p128 : ℕ → AttDbUuid128} {peer : ℕ → SdpState → List (List AttPacket)}
    {late : List AttPacket} (h : SdpSafe a (discoveryStart a dat p16 p128) peer late) :
    LateUntaken a (discoveryStart a dat p16 p128) peer late := by
  obtain ⟨k, st, status, hrun, hdone, hlate⟩ := h
  have hpos := pos_of_discoveryStart_ok (ok_of_discoveryRun_ok (Nat.zero_le k) ⟨st, hrun⟩)
  obtain ⟨st₀, hstart, -, -⟩ := discoveryStart_ok a dat p16 p128 hpos.1 hpos.2
  have hfits : ∀ j st', discoveryRun a (discoveryStart a dat p16 p128) peer j = .ok st' →
      RoundFits a st' (peer j st') := fun _ _ => fits_of_returns ⟨k, st, status, hrun, hdone⟩
  exact (lateUntaken_iff hstart (busy_of_discoveryStart hstart) hfits hrun
    (request_of_done hdone) late).mp ((foldlM_left late st).mp hlate)

/-- A peer that answers with the empty list is asked forever, and a list of 251 bytes is copied to
a `dat` of 256 bytes with its header of 6. Behind the return an error is copied to where `dat`
was, and so is the answer to a request whose time is over. -/
theorem not_sdpSafe :
    (∀ late, ¬ SdpSafe appSdpArgs (discoveryStart appSdpArgs (fun _ => 0) db16 db128)
        (fun _ _ => [[emptyList], []]) late) ∧
      (∀ late, ¬ SdpSafe appSdpArgs (discoveryStart appSdpArgs (fun _ => 0) db16 db128)
        (fun _ _ => [[longList], []]) late) ∧
      ¬ SdpSafe appSdpArgs (discoveryStart appSdpArgs (fun _ => 0) db16 db128)
        (fun _ _ => [[notFound], []]) [notFound] ∧
      ¬ SdpSafe appSdpArgs (discoveryStart appSdpArgs (fun _ => 0) db16 db128)
        (fun _ _ => [[]]) [emptyList] := by
  obtain ⟨st₀, hstart, h₀, hphase⟩ :=
    discoveryStart_ok appSdpArgs (fun _ => 0) db16 db128 (by decide) (by decide)
  have hrequest : st₀.request = some (.readByType st₀.s) := by rw [SdpState.request, hphase]
  refine ⟨?_, ?_, fun h => ?_, fun h => ?_⟩
  · rintro late ⟨n, st, status, hrun, hdone, -⟩
    have hreturns : SdpReturns appSdpArgs (discoveryStart appSdpArgs (fun _ => 0) db16 db128)
        (fun _ _ => [[emptyList], []]) := ⟨n, st, status, hrun, hdone⟩
    obtain ⟨k, st, -, -, hends⟩ :=
      endsPass_of_returns hstart h₀ hphase (fun _ _ => fits_of_returns hreturns) hreturns
    rcases hends with hlate | hop
    · exact absurd hlate (by decide +kernel)
    · exact hop (by decide +kernel)
  · rintro late ⟨n, st, status, hrun, hdone, -⟩
    have hfits := fits_of_returns ⟨n, st, status, hrun, hdone⟩ (k := 0) hstart
    have hlong : longList ∈ accepted (busyOf 0x80 attOpReadByTypeReq) [[longList], []] :=
      List.mem_singleton_self _
    exact absurd (hfits _ hrequest longList hlong) (by decide +kernel)
  · have hanswered (request : AttRequest) :
        answered (busyOf 0x80 request.opcode) [[notFound], []] = true := by
      cases request with
      | readByType _ =>
        show answered (busyOf 0x80 attOpReadByTypeReq) [[notFound], []] = true
        decide +kernel
      | findInformation _ =>
        show answered (busyOf 0x80 attOpFindInformationReq) [[notFound], []] = true
        decide +kernel
      | read _ =>
        show answered (busyOf 0x80 attOpReadReq) [[notFound], []] = true
        decide +kernel
    have hidle := h.untaken.idle (fun _ _ request _ _ => hanswered request) notFound
      (List.mem_singleton_self _)
    exact absurd hidle (by decide +kernel)
  · have hlate : answered (busyOf 0x80 attOpReadByTypeReq) [[]] = false := by decide +kernel
    have htakes : takesPacket (busyLeft (busyOf 0x80 attOpReadByTypeReq) [[]]) emptyList = true := by
      decide +kernel
    have huntaken := h.untaken.timeout 0 st₀ _ hstart hrequest hlate emptyList
      (List.mem_singleton_self _)
    exact absurd (htakes.symm.trans huntaken).symm Bool.false_ne_true

end TlBleSdk.Common
