import TlBleSdk.Common.SdpCharacteristics
import Mathlib.Data.List.Nodup

/-!
# The report references

The second pass of service discovery, for a conforming peer, and what the whole of it finds. The
report reference of a characteristic is looked for in one answer, from the value of the
characteristic on, and of the handle listed there only the low byte is kept.
-/

namespace TlBleSdk.Common

open Hci Checked

/-! ## The answer with the descriptors -/

/-- The first report reference before the next declaration. -/
def scan : List Attribute → Option Attribute
  | [] => none
  | x :: xs =>
    if x.type = characteristicType ∨ x.type = primaryServiceType then none
    else if x.type = referenceType then some x
    else scan xs

/-- A type in memory. -/
theorem short_eq_iff {uuid : UInt16} {n : ℕ} (hn : n < 65536) :
    AttUuid.short uuid = .short (UInt16.ofNat n) ↔ uuid.toNat = n := by
  rw [AttUuid.short.injEq, ← UInt16.toNat_inj, UInt16.toNat_ofNat', Nat.mod_eq_of_lt hn]

/-- The loop over the handles and types of an answer. -/
theorem infoLoop_page {dat : ℕ → UInt8} {es : List Attribute}
    (hshort : ∀ x ∈ es, x.type.isShort = true) {fuel pd : ℕ} (hfuel : es.length ≤ fuel)
    (hbytes : HasBytes dat pd (es.flatMap Attribute.entry)) :
    infoLoop dat fuel (es.length * 4) pd = (scan es).map fun x => x.handle % 256 := by
  induction es generalizing fuel pd with
  | nil =>
    cases fuel with
    | zero => rfl
    | succ fuel => rw [infoLoop, List.length_nil, if_neg (by omega)]; rfl
  | cons x es ih =>
    obtain ⟨fuel, rfl⟩ : ∃ n, fuel = n + 1 :=
      ⟨fuel - 1, by rw [List.length_cons] at hfuel; omega⟩
    cases htype : x.type with
    | long uuid =>
      have hlong := hshort x List.mem_cons_self
      rw [htype] at hlong
      cases hlong
    | short uuid =>
      have hsize : x.entry.length = 4 := by rw [x.length_entry, htype]; rfl
      rw [List.flatMap_cons, hasBytes_append, hsize] at hbytes
      obtain ⟨hentry, hrest⟩ := hbytes
      obtain ⟨hhandle, huuid⟩ := hasBytes_append.mp hentry
      rw [htype] at huuid
      have hu : bytesToUint16 dat (pd + 2) = uuid.toNat :=
        huuid.uint16.trans (u16_of_lt uuid.toNat_lt)
      have hlow : (dat pd).toNat = x.handle % 256 := by
        rw [(hasBytes_cons.mp hhandle).1, UInt8.toNat_ofNat']
      rw [infoLoop, scan, htype, hu, hlow, if_pos (by rw [List.length_cons]; omega)]
      simp only [characteristicType, primaryServiceType, referenceType,
        short_eq_iff (show declarationsUuidCharacteristic < 65536 by decide),
        short_eq_iff (show declarationsUuidPrimaryService < 65536 by decide),
        short_eq_iff (show descriptorUuidReportReference < 65536 by decide)]
      split
      · rfl
      · split
        · rfl
        · rw [List.length_cons, Nat.add_mul,
            show es.length * 4 + 1 * 4 - 4 = es.length * 4 by omega]
          exact ih (fun y hy => hshort y (List.mem_cons_of_mem _ hy))
            (Nat.le_of_succ_le_succ hfuel) hrest

/-- The two bytes at the value of a read answer. Behind a short value there are the bytes of the
answer before it: its format and the low byte of the first handle. -/
def readRef (c : PeerChar) (v : List UInt8) : ℕ :=
  bytesToUint16 (mem (v ++ [0x01, UInt8.ofNat c.handle].drop v.length)) 0

/-- The report reference that is read for a characteristic. -/
def AttServer.refRead (srv : AttServer) (c : PeerChar) : ℕ :=
  match scan (srv.infoPage c.handle) with
  | none => 0
  | some x =>
    match srv.db.value (x.handle % 256) with
    | none => 0
    | some v => readRef c (v.take (srv.mtu - 1))

section RefRead

variable {srv : AttServer} {c : PeerChar} {x : Attribute} {v : List UInt8}

theorem refRead_of_none (hscan : scan (srv.infoPage c.handle) = none) : srv.refRead c = 0 := by
  rw [AttServer.refRead, hscan]

theorem refRead_of_unreadable (hscan : scan (srv.infoPage c.handle) = some x)
    (hvalue : srv.db.value (x.handle % 256) = none) : srv.refRead c = 0 := by
  simp only [AttServer.refRead, hscan, hvalue]

theorem refRead_of_value (hscan : scan (srv.infoPage c.handle) = some x)
    (hvalue : srv.db.value (x.handle % 256) = some v) :
    srv.refRead c = readRef c (v.take (srv.mtu - 1)) := by
  simp only [AttServer.refRead, hscan, hvalue]

end RefRead

section Answers

variable {srv : AttServer} {c : PeerChar} {old dat : ℕ → UInt8}

/-- The attributes that are listed begin with the value of the characteristic. -/
theorem infoPage_eq (hc : c ∈ srv.db.chars) : ∃ es,
    srv.infoPage c.handle = ⟨c.handle, c.uuid⟩ :: es ∧
      ∀ x ∈ es, x.type.isShort = c.uuid.isShort := by
  obtain ⟨later, hfilter⟩ := AttDatabase.filter_handle hc
  cases hpage : srv.infoPage c.handle with
  | nil =>
    rw [AttServer.infoPage, page_eq_nil (infoCount_pos srv _), hfilter] at hpage
    cases hpage
  | cons x es =>
    obtain ⟨hform, rest, hrest⟩ := eq_append_of_page hpage
    rw [hfilter, List.cons_append, List.cons_append] at hrest
    obtain ⟨rfl, -⟩ := List.cons.inj hrest
    exact ⟨es, rfl, fun x hx => hform x (List.mem_cons_of_mem _ hx)⟩

/-- What is found in the answer with the descriptors. -/
theorem findReference_answer (hc : c ∈ srv.db.chars) (hshort : c.uuid.isShort = true)
    (h : Answered old dat (srv.answer (.findInformation c.handle))) :
    findReference dat = (scan (srv.infoPage c.handle)).map (fun x => x.handle % 256) ∧
      dat 7 = 1 ∧ dat 8 = UInt8.ofNat c.handle := by
  obtain ⟨es, hpage, hform⟩ := infoPage_eq hc
  have hlen := h.len
  have hbytes := h.holds
  dsimp only [AttServer.answer] at hlen hbytes
  rw [hpage] at hlen hbytes
  dsimp only at hlen hbytes
  rw [hshort, if_pos rfl] at hlen hbytes
  have hshort' : ∀ x ∈ (⟨c.handle, c.uuid⟩ : Attribute) :: es, x.type.isShort = true := by
    intro x hx
    rcases List.mem_cons.mp hx with rfl | hx
    · exact hshort
    · exact (hform x hx).trans hshort
  obtain ⟨hop, hrest⟩ := hasBytes_cons.mp hbytes
  obtain ⟨hformat, hlist⟩ := hasBytes_cons.mp hrest
  have hfirst : dat 8 = UInt8.ofNat c.handle := (hasBytes_cons.mp hlist).1
  refine ⟨?_, hformat, hfirst⟩
  rw [List.length_cons, List.length_cons, length_flatMap_of_forall fun x hx => by
    rw [x.length_entry, hshort' x hx]] at hlen
  unfold findReference
  rw [if_pos ⟨hop, hformat⟩, hlen, hpage, if_pos rfl]
  exact infoLoop_page hshort' (by omega) hlist

/-- What is read of the attribute. -/
theorem read_answer {handle : ℕ} (h : Answered old dat (srv.answer (.read handle)))
    (hformat : old 7 = 1) (hfirst : old 8 = UInt8.ofNat c.handle) :
    match srv.db.value handle with
    | some v => dat 6 = attOpReadRsp ∧ bytesToUint16 dat 7 = readRef c (v.take (srv.mtu - 1))
    | none => dat 6 ≠ attOpReadRsp := by
  have hbytes := h.holds
  have hrest := h.rest
  dsimp only [AttServer.answer] at hbytes hrest
  cases hvalue : srv.db.value handle with
  | none =>
    rw [hvalue] at hbytes
    rw [(hasBytes_cons.mp hbytes).1]
    exact (by decide : attOpErrorRsp ≠ attOpReadRsp)
  | some v =>
    rw [hvalue] at hbytes hrest
    dsimp only at hbytes hrest
    obtain ⟨hop, hv⟩ := hasBytes_cons.mp hbytes
    refine ⟨hop, ?_⟩
    generalize v.take (srv.mtu - 1) = w at hv hrest
    show (dat 7).toNat + (dat 8).toNat * 256 = _
    -- as many of the two bytes as the value has are its own
    match w with
    | [] =>
      rw [hrest 7 (by decide), hrest 8 (by decide), hformat, hfirst]
      rfl
    | [x] =>
      rw [(hasBytes_cons.mp hv).1, hrest 8 (Nat.le_refl 8), hfirst]
      rfl
    | x :: y :: w =>
      obtain ⟨hx, hv⟩ := hasBytes_cons.mp hv
      rw [hx, (hasBytes_cons.mp hv).1]
      rfl

end Answers

/-! ## The second pass -/

/-- The arrays in the second pass, with the references of the reports before `i`. -/
structure SecondInv (srv : AttServer) (st : SdpState) (i : ℕ) : Prop where
  chars16 : ((List.range st.i16).map fun i => (st.p16 i).char) =
    srv.db.chars.filterMap PeerChar.char16
  chars128 : ((List.range st.i128).map fun i => (st.p128 i).char) =
    srv.db.chars.filterMap PeerChar.char128
  num16 : (st.p16 0).num = u8 st.i16
  num128 : (st.p128 0).num = u8 st.i128
  refs : ∀ j < st.i16, ∀ c ∈ srv.db.chars, c.handle = (st.p16 j).handle → c.uuid = reportType →
    (st.p16 j).ref = if j < i then srv.refRead c else 0

theorem Collected.second {srv : AttServer} {st : SdpState} (h : Collected st srv.db.chars)
    (h16 : (st.p16 0).num = u8 st.i16) (h128 : (st.p128 0).num = u8 st.i128) :
    SecondInv srv st 0 where
  chars16 := h.chars16
  chars128 := h.chars128
  num16 := h16
  num128 := h128
  refs j hj c _ _ _ := by rw [h.refs j hj, if_neg (Nat.not_lt_zero j)]

/-- A characteristic is known by its handle. -/
theorem AttDatabase.eq_of_handle_eq {db : AttDatabase} {c c' : PeerChar} (hc : c ∈ db.chars)
    (hc' : c' ∈ db.chars) (hhandle : c.handle = c'.handle) : c = c' := by
  have hsorted : db.chars.Pairwise fun c c' => c.handle ≠ c'.handle := by
    refine db.chars_pairwise.imp_of_mem fun _ hc' hlt => ?_
    exact Nat.ne_of_lt (Nat.lt_trans hlt (declHandle_lt hc'))
  exact List.inj_on_of_nodup_map (List.pairwise_map.mpr hsorted) hc hc' hhandle

/-- The loop goes on to the next report, or to its end. -/
theorem nextReport_cases (st : SdpState) (i : ℕ) :
    (∃ j, i ≤ j ∧ j < st.i16 ∧ (st.p16 j).uuid = characteristicUuidReport ∧
      (∀ j', i ≤ j' → j' < j → (st.p16 j').uuid ≠ characteristicUuidReport) ∧
      nextReport st i = { st with phase := .info j }) ∨
    (∀ j, i ≤ j → j < st.i16 → (st.p16 j).uuid ≠ characteristicUuidReport) ∧
      nextReport st i = { st with phase := .done .success } := by
  unfold nextReport
  split
  case h_1 j hfind =>
    obtain ⟨hreport, hmem, hbefore⟩ := List.find?_range'_eq_some.mp hfind
    have hj := List.mem_range'_1.mp hmem
    refine .inl ⟨j, hj.1, by omega, of_decide_eq_true hreport, fun j' hi hlt => ?_, rfl⟩
    simpa using hbefore j' hi hlt
  case h_2 hfind =>
    refine .inr ⟨fun j hi hlt => ?_, rfl⟩
    simpa using List.find?_range'_eq_none.mp hfind j hi (by omega)

namespace SecondInv

variable {srv : AttServer} {st st' : SdpState} {i j : ℕ} {c : PeerChar}

/-- The characteristic of an entry. -/
theorem exists_char (h : SecondInv srv st i) (hj : j < st.i16) :
    ∃ c ∈ srv.db.chars, c.handle = (st.p16 j).handle ∧ ∃ uuid, c.uuid = .short uuid ∧
      uuid.toNat = (st.p16 j).uuid := by
  have hmem : (st.p16 j).char ∈ srv.db.chars.filterMap PeerChar.char16 := by
    rw [← h.chars16]
    exact List.mem_map_of_mem (List.mem_range.mpr hj)
  obtain ⟨c, hc, hchar⟩ := List.mem_filterMap.mp hmem
  unfold PeerChar.char16 at hchar
  cases huuid : c.uuid with
  | short uuid =>
    rw [huuid] at hchar
    have hfields := Option.some.inj hchar
    exact ⟨c, hc, congrArg (·.2.1) hfields, uuid, huuid, congrArg (·.2.2) hfields⟩
  | long uuid =>
    rw [huuid] at hchar
    cases hchar

theorem uuid_eq (h : SecondInv srv st i) (hj : j < st.i16) (hc : c ∈ srv.db.chars)
    (hhandle : c.handle = (st.p16 j).handle) (hreport : c.uuid = reportType) :
    (st.p16 j).uuid = characteristicUuidReport := by
  obtain ⟨c', hc', hhandle', uuid, huuid, hnum⟩ := h.exists_char hj
  have hsame := AttDatabase.eq_of_handle_eq hc hc' (hhandle.trans hhandle'.symm)
  rw [← hnum]
  rw [← hsame, hreport, reportType] at huuid
  exact (short_eq_iff (by decide)).mp huuid.symm

/-- Behind the last report. -/
theorem finish (h : SecondInv srv st i)
    (hnone : ∀ j, i ≤ j → j < st.i16 → (st.p16 j).uuid ≠ characteristicUuidReport) :
    SecondInv srv { st with phase := .done .success } st.i16 := by
  refine ⟨h.chars16, h.chars128, h.num16, h.num128, fun j hj c hc hhandle hreport => ?_⟩
  rw [if_pos hj]
  have hi : j < i := by
    by_contra hge
    exact hnone j (Nat.le_of_not_lt hge) hj (h.uuid_eq hj hc hhandle hreport)
  have href := h.refs j hj c hc hhandle hreport
  rwa [if_pos hi] at href

/-- Behind a report whose reference is stored. -/
theorem advance (h : SecondInv srv st i) (hij : i ≤ j) (hj : j < st.i16) (hc : c ∈ srv.db.chars)
    (hhandle : c.handle = (st.p16 j).handle)
    (hbefore : ∀ j', i ≤ j' → j' < j → (st.p16 j').uuid ≠ characteristicUuidReport)
    (h16 : st'.i16 = st.i16) (h128 : st'.i128 = st.i128) (hp128 : st'.p128 = st.p128)
    (hp16 : st'.p16 = Function.update st.p16 j { st.p16 j with ref := srv.refRead c }) :
    SecondInv srv st' (j + 1) := by
  have hsame : ∀ k, (st'.p16 k).char = (st.p16 k).char ∧ (st'.p16 k).num = (st.p16 k).num := by
    intro k
    rw [hp16]
    by_cases hk : k = j
    · subst hk
      rw [Function.update_self]
      exact ⟨rfl, rfl⟩
    · rw [Function.update_of_ne hk]
      exact ⟨rfl, rfl⟩
  refine ⟨?_, ?_, ?_, ?_, fun k hk c' hc' hhandle' hreport => ?_⟩
  · rw [h16]
    exact (List.map_congr_left fun k _ => (hsame k).1).trans h.chars16
  · rw [h128, hp128]
    exact h.chars128
  · rw [(hsame 0).2, h16]
    exact h.num16
  · rw [hp128, h128]
    exact h.num128
  · rw [h16] at hk
    have hh : (st'.p16 k).handle = (st.p16 k).handle := congrArg (·.2.1) (hsame k).1
    rw [hh] at hhandle'
    rcases Nat.lt_trichotomy k j with hlt | rfl | hgt
    · have hi : k < i := by
        by_contra hge
        exact hbefore k (Nat.le_of_not_lt hge) hlt (h.uuid_eq hk hc' hhandle' hreport)
      have href := h.refs k hk c' hc' hhandle' hreport
      rw [if_pos hi] at href
      rw [if_pos (by omega), hp16, Function.update_of_ne (Nat.ne_of_lt hlt), href]
    · have hcc := AttDatabase.eq_of_handle_eq hc' hc (hhandle'.trans hhandle.symm)
      rw [if_pos (Nat.lt_succ_self k), hp16, Function.update_self, hcc]
    · have href := h.refs k hk c' hc' hhandle' hreport
      rw [if_neg (by omega)] at href
      rw [if_neg (by omega), hp16, Function.update_of_ne (by omega), href]

end SecondInv

section SecondPass

variable {srv : AttServer} {a : SdpArgs} {st : SdpState} {i j handle : ℕ} {c : PeerChar}

/-- The request for the descriptors of a report. -/
theorem info_round (hphase : st.phase = .info j) (hc : c ∈ srv.db.chars)
    (hreport : c.uuid = reportType) (hhandle : c.handle = (st.p16 j).handle)
    (hfits : RoundFits a st (srv.calls a st)) :
    ∃ dat, dat 7 = 1 ∧ dat 8 = UInt8.ofNat c.handle ∧
      discoveryStep a st (srv.calls a st) = .ok (match scan (srv.infoPage c.handle) with
        | none => nextReport { st with dat := dat, busy := 0 } (j + 1)
        | some x => { st with dat := dat, busy := 0, phase := .read j (x.handle % 256) }) := by
  have hrequest : st.request = some (.findInformation c.handle) := by
    rw [SdpState.request, hphase, hhandle]
  obtain ⟨dat, hstep, hanswer⟩ := discoveryStep_serve hrequest hfits
  obtain ⟨hfind, hformat, hfirst⟩ := findReference_answer hc (by rw [hreport]; rfl) hanswer
  refine ⟨dat, hformat, hfirst, hstep.trans ?_⟩
  unfold takeAnswer
  simp only [hphase, hfind]
  cases scan (srv.infoPage c.handle) <;> rfl

/-- The request for the value of an attribute, behind an answer with descriptors. -/
theorem read_round (hphase : st.phase = .read j handle) (hj : j < a.n16) (hformat : st.dat 7 = 1)
    (hfirst : st.dat 8 = UInt8.ofNat c.handle) (hfits : RoundFits a st (srv.calls a st)) :
    ∃ st', discoveryStep a st (srv.calls a st) = .ok (nextReport st' (j + 1)) ∧
      st'.i16 = st.i16 ∧ st'.i128 = st.i128 ∧ st'.p128 = st.p128 ∧
      st'.p16 = match srv.db.value handle with
        | some v => Function.update st.p16 j
            { st.p16 j with ref := readRef c (v.take (srv.mtu - 1)) }
        | none => st.p16 := by
  have hrequest : st.request = some (.read handle) := by rw [SdpState.request, hphase]
  obtain ⟨dat, hstep, hanswer⟩ := discoveryStep_serve hrequest hfits
  have hread := read_answer hanswer hformat hfirst
  rw [hstep]
  unfold takeAnswer
  simp only [hphase]
  cases hvalue : srv.db.value handle with
  | none =>
    rw [hvalue] at hread
    rw [if_neg hread]
    exact ⟨_, rfl, rfl, rfl, rfl, rfl⟩
  | some v =>
    rw [hvalue] at hread
    rw [if_pos hread.1, write16_of_lt hj]
    refine ⟨_, rfl, rfl, rfl, rfl, ?_⟩
    dsimp only
    rw [hread.2]

variable {start : Except SdpFault SdpState}

/-- The requests for one report store its reference. -/
theorem report_rounds (hn : j < a.n16)
    (hfits : ∀ k st, discoveryRun a start (srv.peer a) k = .ok st →
      RoundFits a st (srv.calls a st))
    {k : ℕ} (hrun : discoveryRun a start (srv.peer a) k = .ok { st with phase := .info j })
    (hc : c ∈ srv.db.chars) (hreport : c.uuid = reportType) (hhandle : c.handle = (st.p16 j).handle)
    (href : (st.p16 j).ref = 0) :
    ∃ k' st', discoveryRun a start (srv.peer a) k' = .ok (nextReport st' (j + 1)) ∧
      st'.i16 = st.i16 ∧ st'.i128 = st.i128 ∧ st'.p128 = st.p128 ∧
      st'.p16 = Function.update st.p16 j { st.p16 j with ref := srv.refRead c } := by
  have hkeep : srv.refRead c = 0 →
      st.p16 = Function.update st.p16 j { st.p16 j with ref := srv.refRead c } := by
    intro hzero
    have hentry : ({ st.p16 j with ref := srv.refRead c } : AttDbUuid16) = st.p16 j := by
      rw [hzero, ← href]
    rw [hentry, Function.update_eq_self]
  have hhandle' : c.handle = (({ st with phase := .info j } : SdpState).p16 j).handle := hhandle
  obtain ⟨dat, hformat, hfirst, hstep⟩ := info_round rfl hc hreport hhandle' (hfits k _ hrun)
  have hrun' := (discoveryRun_succ hrun).trans hstep
  cases hscan : scan (srv.infoPage c.handle) with
  | none =>
    rw [hscan] at hrun'
    exact ⟨_, _, hrun', rfl, rfl, rfl, hkeep (refRead_of_none hscan)⟩
  | some x =>
    rw [hscan] at hrun'
    obtain ⟨st', hstep', h16, h128, hp128, hp16⟩ :=
      read_round (c := c) rfl hn hformat hfirst (hfits _ _ hrun')
    refine ⟨_, st', (discoveryRun_succ hrun').trans hstep', h16, h128, hp128, ?_⟩
    cases hvalue : srv.db.value (x.handle % 256) with
    | none =>
      rw [hvalue] at hp16
      exact hp16.trans (hkeep (refRead_of_unreadable hscan hvalue))
    | some v =>
      rw [hvalue] at hp16
      rw [hp16, refRead_of_value hscan hvalue]

theorem SecondInv.i16_le (h : SecondInv srv st i) (hroom : Room srv a) : st.i16 ≤ a.n16 := by
  have hlen := congrArg List.length h.chars16
  rw [List.length_map, List.length_range] at hlen
  exact hlen ▸ hroom.le16

/-- The second pass stores a reference for every report. -/
theorem secondPass_run (hroom : Room srv a)
    (hfits : ∀ k st, discoveryRun a start (srv.peer a) k = .ok st →
      RoundFits a st (srv.calls a st))
    {k : ℕ} (hrun : discoveryRun a start (srv.peer a) k = .ok (nextReport st i))
    (h : SecondInv srv st i) :
    ∃ k' st', discoveryRun a start (srv.peer a) k' = .ok st' ∧ st'.phase = .done .success ∧
      SecondInv srv st' st'.i16 := by
  generalize hn : st.i16 - i = n
  induction n using Nat.strongRecOn generalizing k st i with
  | ind n ih =>
    rcases nextReport_cases st i with ⟨j, hij, hj, huuid, hbefore, hnext⟩ | ⟨hnone, hnext⟩
    · rw [hnext] at hrun
      obtain ⟨c, hc, hhandle, uuid, hshort, hnum⟩ := h.exists_char hj
      have hreport : c.uuid = reportType := by
        rw [hshort, reportType, short_eq_iff (by decide), hnum, huuid]
      have href : (st.p16 j).ref = 0 := by
        rw [h.refs j hj c hc hhandle hreport, if_neg (Nat.not_lt_of_le hij)]
      obtain ⟨k', st', hrun', h16, h128, hp128, hp16⟩ := report_rounds
        (Nat.lt_of_lt_of_le hj (h.i16_le hroom)) hfits hrun hc hreport hhandle href
      have hnew := h.advance hij hj hc hhandle hbefore h16 h128 hp128 hp16
      refine ih (st.i16 - (j + 1)) (by omega) hrun' hnew ?_
      rw [h16]
    · rw [hnext] at hrun
      exact ⟨k, _, hrun, rfl, h.finish hnone⟩

end SecondPass

/-! ## Which references are served -/

/-- The report reference `d` of a report is in the one answer with descriptors, and the attribute
whose handle is the low byte of its own reads as the same two bytes; or else its value is zero. -/
def RefServed (srv : AttServer) (c : PeerChar) (d : Attribute) : Prop :=
  if d ∈ srv.infoPage c.handle then
    match srv.db.value (d.handle % 256) with
    | some v => readRef c (v.take (srv.mtu - 1)) = srv.db.refValue d
    | none => srv.db.refValue d = 0
  else srv.db.refValue d = 0

section RefServed

variable {srv : AttServer} {c : PeerChar} {d : Attribute}

/-- The scan goes over attributes that are neither declarations nor report references. -/
theorem scan_append {l m : List Attribute}
    (hl : ∀ x ∈ l, x.type ∉ declarationTypes ∧ x.type ≠ referenceType) :
    scan (l ++ m) = scan m := by
  induction l with
  | nil => rfl
  | cons x l ih =>
    obtain ⟨hdecl, href⟩ := hl x List.mem_cons_self
    have hstop : ¬ (x.type = characteristicType ∨ x.type = primaryServiceType) := by
      rintro (h | h)
      · exact hdecl (h ▸ by decide)
      · exact hdecl (h ▸ by decide)
    rw [List.cons_append, scan, if_neg hstop, if_neg href]
    exact ih fun y hy => hl y (List.mem_cons_of_mem _ hy)

/-- Of the attributes from a report on, the scan finds its reference, if that is listed. -/
theorem scan_infoPage (hc : c ∈ srv.db.chars) (hreport : c.uuid = reportType)
    (hd : c.reference = some d) :
    scan (srv.infoPage c.handle) = if d ∈ srv.infoPage c.handle then some d else none := by
  obtain ⟨later, hfilter⟩ := AttDatabase.filter_handle hc
  obtain ⟨-, hdescriptors⟩ := srv.db.conforming _ (AttDatabase.mem_chars.mp hc)
  obtain ⟨hdtype, before, behind, hsplit, hbefore⟩ := List.find?_eq_some_iff_append.mp hd
  have hdref : d.type = referenceType := of_decide_eq_true hdtype
  -- what is listed is a part of the value, the descriptors before `d`, `d`, and what follows
  have hpre : srv.infoPage c.handle <+:
      (⟨c.handle, c.uuid⟩ :: before) ++ d :: (behind ++ later) := by
    have hpage : srv.infoPage c.handle <+:
        srv.db.attributes.filter fun x => c.handle ≤ x.handle := page_prefix _ _ _
    rw [hfilter, hsplit] at hpage
    simpa using hpage
  have hplain : ∀ x ∈ (⟨c.handle, c.uuid⟩ : Attribute) :: before,
      x.type ∉ declarationTypes ∧ x.type ≠ referenceType := by
    intro x hx
    rcases List.mem_cons.mp hx with rfl | hx
    · rw [hreport]
      exact (by decide : reportType ∉ declarationTypes ∧ reportType ≠ referenceType)
    · have hmem : x ∈ c.descriptors := by
        rw [hsplit]
        exact List.mem_append_left _ hx
      exact ⟨(hdescriptors x hmem).1, by simpa using hbefore x hx⟩
  have hnone : ∀ l : List Attribute, l <+: ⟨c.handle, c.uuid⟩ :: before →
      scan l = if d ∈ l then some d else none := by
    intro l hl
    rw [if_neg fun hmem => (hplain d (hl.subset hmem)).2 hdref]
    have hscan := scan_append (m := []) fun x hx => hplain x (hl.subset hx)
    rwa [List.append_nil] at hscan
  rcases List.prefix_or_prefix_of_prefix hpre (List.prefix_append _ _) with hshort | hlong
  · exact hnone _ hshort
  · obtain ⟨rest, hrest⟩ := hlong
    rw [← hrest] at hpre ⊢
    cases rest with
    | nil => exact hnone _ (List.append_nil _ ▸ List.prefix_rfl)
    | cons x rest =>
      obtain ⟨rfl, -⟩ := List.cons_prefix_cons.mp ((List.prefix_append_right_inj _).mp hpre)
      rw [scan_append hplain, if_pos (List.mem_append_right _ List.mem_cons_self), scan,
        if_neg (by rw [hdref]; decide), if_pos hdref]

/-- A reference is served exactly if its value is what is read. -/
theorem refServed_iff (hc : c ∈ srv.db.chars) (hreport : c.uuid = reportType)
    (hd : c.reference = some d) : RefServed srv c d ↔ srv.refRead c = srv.db.refValue d := by
  have hscan := scan_infoPage hc hreport hd
  unfold RefServed
  split
  case isTrue hmem =>
    rw [if_pos hmem] at hscan
    cases hvalue : srv.db.value (d.handle % 256) with
    | none => rw [refRead_of_unreadable hscan hvalue, eq_comm]
    | some v => rw [refRead_of_value hscan hvalue]
  case isFalse hmem =>
    rw [if_neg hmem] at hscan
    rw [refRead_of_none hscan, eq_comm]

/-- A listed reference with a handle of one byte is served. -/
theorem refServed_of_lt (hc : c ∈ srv.db.chars) (hd : c.reference = some d)
    (hmem : d ∈ srv.infoPage c.handle) (hlt : d.handle < 256) : RefServed srv c d := by
  obtain ⟨-, hdescriptors⟩ := srv.db.conforming _ (AttDatabase.mem_chars.mp hc)
  obtain ⟨-, hvalue⟩ := hdescriptors d (List.mem_of_find?_eq_some hd)
  obtain ⟨hdtype, -⟩ := List.find?_eq_some_iff_append.mp hd
  obtain ⟨v, hv, hlen⟩ := Option.map_eq_some_iff.mp (hvalue (of_decide_eq_true hdtype))
  have hmtu := srv.mtu_ge
  have hrest : [0x01, UInt8.ofNat c.handle].drop v.length = [] :=
    List.drop_eq_nil_of_le (by rw [hlen]; exact Nat.le_refl 2)
  unfold RefServed
  rw [if_pos hmem, Nat.mod_eq_of_lt hlt, hv]
  dsimp only
  rw [List.take_of_length_le (by omega), readRef, hrest, List.append_nil, AttDatabase.refValue, hv]

end RefServed

/-! ## All of service discovery -/

/-- What is promised of a discovery that has returned: `p16` and `p128` hold the characteristics of
the peer, and the reports their references. -/
structure Discovered (srv : AttServer) (st : SdpState) : Prop where
  status : st.phase = .done .success
  chars16 : ((List.range (st.p16 0).num).map fun i => (st.p16 i).char) =
    srv.db.chars.filterMap PeerChar.char16
  chars128 : ((List.range (st.p128 0).num).map fun i => (st.p128 i).char) =
    srv.db.chars.filterMap PeerChar.char128
  refs : ∀ i < (st.p16 0).num, ∀ c ∈ srv.db.chars, c.handle = (st.p16 i).handle →
    c.uuid = reportType → ∀ d, c.reference = some d → (st.p16 i).ref = srv.db.refValue d

section Discovery

variable {srv : AttServer} {a : SdpArgs} {dat : ℕ → UInt8} {p16 : ℕ → AttDbUuid16}
  {p128 : ℕ → AttDbUuid128}

/-- Discovery of the peer returns, with what is promised. -/
def SdpFinds (srv : AttServer) (a : SdpArgs) (dat : ℕ → UInt8) (p16 : ℕ → AttDbUuid16)
    (p128 : ℕ → AttDbUuid128) : Prop :=
  ∃ k st, discoveryRun a (discoveryStart a dat p16 p128) (srv.peer a) k = .ok st ∧
    Discovered srv st

/-- Every answer that is given fits `dat` with its header. -/
def AnswersFit (srv : AttServer) (a : SdpArgs) (start : Except SdpFault SdpState) : Prop :=
  ∀ k st request, discoveryRun a start (srv.peer a) k = .ok st → st.request = some request →
    (srv.answer request).length + 6 ≤ datSize

/-- The arrays have a first entry, the answers fit `dat`, the numbers of characteristics fit a
byte, and every report reference is served. -/
structure SdpServes (srv : AttServer) (a : SdpArgs) (start : Except SdpFault SdpState) : Prop where
  pos : 0 < a.n16 ∧ 0 < a.n128
  fits : AnswersFit srv a start
  count16 : (srv.db.chars.filterMap PeerChar.char16).length < 256
  count128 : (srv.db.chars.filterMap PeerChar.char128).length < 256
  refs : ∀ c ∈ srv.db.chars, c.uuid = reportType → ∀ d, c.reference = some d → RefServed srv c d

/-- An MTU of up to 250 is enough for the answers to fit. -/
theorem answersFit_of_mtu_le (hmtu : srv.mtu ≤ 250) (start : Except SdpFault SdpState) :
    AnswersFit srv a start := by
  intro k st request _ _
  have hle := srv.length_answer_le request
  unfold datSize
  omega

theorem answersFit_iff {start : Except SdpFault SdpState} :
    AnswersFit srv a start ↔ ∀ k st, discoveryRun a start (srv.peer a) k = .ok st →
      RoundFits a st (srv.calls a st) := by
  constructor
  · intro h k st hrun request hrequest
    exact (roundFits_iff hrequest).mpr (h k st request hrun hrequest) request hrequest
  · intro h k st request hrun hrequest
    exact (roundFits_iff hrequest).mp (h k st hrun)

/-- Without a fault, discovery comes to its end. -/
theorem exists_done (hroom : Room srv a) (hpos : 0 < a.n16 ∧ 0 < a.n128)
    (hfits : AnswersFit srv a (discoveryStart a dat p16 p128)) :
    ∃ k st, discoveryRun a (discoveryStart a dat p16 p128) (srv.peer a) k = .ok st ∧
      st.phase = .done .success ∧ SecondInv srv st st.i16 := by
  rw [answersFit_iff] at hfits
  obtain ⟨st₀, hstart, hfirst⟩ : ∃ st, discoveryStart a dat p16 p128 = .ok st ∧ FirstInv st [] := by
    unfold discoveryStart
    rw [write16_of_lt hpos.1]
    dsimp only [bind, Except.bind]
    rw [write128_of_lt hpos.2]
    exact ⟨_, rfl, ⟨rfl, rfl, fun i hi => absurd hi (Nat.not_lt_zero i)⟩, rfl, rfl⟩
  obtain ⟨k, st, hrun, hcollected, h16, h128⟩ :=
    firstPass hpos hroom hfits (k := 0) hstart hfirst rfl
  exact secondPass_run hroom hfits hrun (hcollected.second h16 h128)

/-- What a discovery that keeps the promise has met. -/
theorem serves_of_finds (hroom : Room srv a) (h : SdpFinds srv a dat p16 p128) :
    SdpServes srv a (discoveryStart a dat p16 p128) := by
  obtain ⟨k, st, hrun, hdisc⟩ := h
  have hreturns : SdpReturns a (discoveryStart a dat p16 p128) (srv.peer a) :=
    ⟨k, st, .success, hrun, hdisc.status⟩
  have hpos := pos_of_discoveryStart_ok (ok_of_discoveryRun_ok (Nat.zero_le k) ⟨st, hrun⟩)
  have hfits : AnswersFit srv a (discoveryStart a dat p16 p128) :=
    answersFit_iff.mpr fun _ _ => fits_of_returns hreturns
  obtain ⟨k', st', hrun', hdone', hsecond⟩ := exists_done hroom hpos hfits
  obtain rfl := discoveryRun_end hrun (request_of_done hdisc.status) hrun' (request_of_done hdone')
  -- the number that is stored is the number of the entries modulo 256
  have hcount16 : u8 st.i16 = st.i16 := by
    have hlen := congrArg List.length (hdisc.chars16.trans hsecond.chars16.symm)
    rwa [List.length_map, List.length_map, List.length_range, List.length_range,
      hsecond.num16] at hlen
  have hcount128 : u8 st.i128 = st.i128 := by
    have hlen := congrArg List.length (hdisc.chars128.trans hsecond.chars128.symm)
    rwa [List.length_map, List.length_map, List.length_range, List.length_range,
      hsecond.num128] at hlen
  have hlt16 := u8_lt st.i16
  have hlt128 := u8_lt st.i128
  refine ⟨hpos, hfits, ?_, ?_, fun c hc hreport d hd => ?_⟩
  · rw [← hsecond.chars16, List.length_map, List.length_range]
    omega
  · rw [← hsecond.chars128, List.length_map, List.length_range]
    omega
  · have hmem : (c.property, c.handle, characteristicUuidReport) ∈
        (List.range st.i16).map fun i => (st.p16 i).char := by
      rw [hsecond.chars16]
      refine List.mem_filterMap.mpr ⟨c, hc, ?_⟩
      rw [PeerChar.char16, hreport]
      rfl
    obtain ⟨i, hi, hchar⟩ := List.mem_map.mp hmem
    rw [List.mem_range] at hi
    have hhandle : c.handle = (st.p16 i).handle := congrArg (·.2.1) hchar.symm
    have hlt : i < (st.p16 0).num := by
      rw [hsecond.num16, hcount16]
      exact hi
    have hpromised := hdisc.refs i hlt c hc hhandle hreport d hd
    have hstored := hsecond.refs i hi c hc hhandle hreport
    rw [if_pos hi] at hstored
    rw [refServed_iff hc hreport hd, ← hstored, hpromised]

/-- Discovery of a conforming peer whose characteristics have room in the arrays finds them all
with their references exactly if the arrays have a first entry, no answer is longer than `dat`,
there are at most 255 characteristics of each form, and each report reference is listed in the one
answer that is asked for and has the value that is read at the low byte of its handle. -/
theorem sdpFinds_iff (hroom : Room srv a) :
    SdpFinds srv a dat p16 p128 ↔ SdpServes srv a (discoveryStart a dat p16 p128) := by
  refine ⟨serves_of_finds hroom, fun h => ?_⟩
  obtain ⟨k, st, hrun, hdone, hsecond⟩ := exists_done hroom h.pos h.fits
  have h16 : st.i16 < 256 := by
    have hlt := h.count16
    rwa [← hsecond.chars16, List.length_map, List.length_range] at hlt
  have h128 : st.i128 < 256 := by
    have hlt := h.count128
    rwa [← hsecond.chars128, List.length_map, List.length_range] at hlt
  have hnum16 : (st.p16 0).num = st.i16 := hsecond.num16.trans (u8_of_lt h16)
  have hnum128 : (st.p128 0).num = st.i128 := hsecond.num128.trans (u8_of_lt h128)
  refine ⟨k, st, hrun, hdone, ?_, ?_, fun i hi c hc hhandle hreport d hd => ?_⟩
  · rw [hnum16]
    exact hsecond.chars16
  · rw [hnum128]
    exact hsecond.chars128
  · rw [hnum16] at hi
    have hstored := hsecond.refs i hi c hc hhandle hreport
    rw [if_pos hi] at hstored
    rw [hstored]
    exact (refServed_iff hc hreport hd).mp (h.refs c hc hreport d hd)

end Discovery

/-! ## A keyboard -/

/-- A service with one report, from the handle `base` on. Its reference is at `base + 4`. -/
def keyboardReport (base : ℕ) : PeerChar :=
  ⟨base + 1, 0x12, base + 2, reportType, [⟨base + 3, .short 0x2902⟩, ⟨base + 4, referenceType⟩]⟩

def keyboardItems (base : ℕ) : List AttItem :=
  [.declaration ⟨base, primaryServiceType⟩, .char (keyboardReport base)]

/-- The report reference may be read: report 1, input. -/
def keyboardValue (base handle : ℕ) : Option (List UInt8) :=
  if handle = base + 4 then some [1, 1] else none

/-- The service at handles of one byte, and at handles of two. -/
def nearKeyboard : AttServer where
  db := ⟨keyboardItems 0x10, keyboardValue 0x10, by decide, by decide, by decide⟩
  mtu := 23
  charCount _ := 0
  infoCount _ := 4
  mtu_ge := by decide
  mtu_lt := by decide

def farKeyboard : AttServer where
  db := ⟨keyboardItems 0x100, keyboardValue 0x100, by decide, by decide, by decide⟩
  mtu := 23
  charCount _ := 0
  infoCount _ := 4
  mtu_ge := by decide
  mtu_lt := by decide

theorem sdpFinds_iff_near : SdpFinds nearKeyboard appSdpArgs (fun _ => 0) db16 db128 := by
  refine (sdpFinds_iff ⟨by decide, by decide⟩).mpr
    ⟨by decide, answersFit_of_mtu_le (by decide) _, by decide, by decide, ?_⟩
  intro c hc _ d hd
  obtain rfl : c = keyboardReport 0x10 := List.mem_singleton.mp hc
  obtain rfl : d = ⟨0x14, referenceType⟩ := (Option.some.inj hd).symm
  exact refServed_of_lt hc hd (by decide) (by decide)

/-- The reference at the handle `0x104` is not found, as the attribute `0x04` is read for it. -/
theorem not_sdpFinds_far : Room farKeyboard appSdpArgs ∧
    ¬ SdpFinds farKeyboard appSdpArgs (fun _ => 0) db16 db128 := by
  have hroom : Room farKeyboard appSdpArgs := ⟨by decide, by decide⟩
  refine ⟨hroom, fun h => ?_⟩
  have hserved := (serves_of_finds hroom h).refs (keyboardReport 0x100)
    (List.mem_singleton_self _) rfl ⟨0x104, referenceType⟩ rfl
  unfold RefServed at hserved
  rw [if_pos (by decide)] at hserved
  change farKeyboard.db.refValue ⟨0x104, referenceType⟩ = 0 at hserved
  exact absurd hserved (by decide)

end TlBleSdk.Common
