import TlBleSdk.Common.SdpReturns
import TlBleSdk.Common.AttServer

/-!
# What service discovery finds

Service discovery of a conforming peer. The first pass collects the characteristics in order,
whatever the grouping of the answers. The second pass finds a report reference in the one answer
that it asks for, and it reads the attribute whose handle is the low byte of the one listed.
-/

namespace TlBleSdk.Common

open Hci Checked

/-! ## An answer in `dat` -/

theorem hasBytes_mem (l : List UInt8) : HasBytes (mem l) 0 l := by
  apply List.ext_getElem
  · exact length_bytesAt _ _ _
  intro i hi hi'
  simp only [bytesAt, getElem_bytes, Nat.zero_add]
  exact List.getD_eq_getElem _ _ hi'

/-- The header of a packet, and the answer behind it. -/
theorem hasBytes_attPacket (handle : ℕ) (att : List UInt8) :
    HasBytes (attPacket handle att).p 2 (uint16ToBstream att.length) ∧
      HasBytes (attPacket handle att).p 4 (uint16ToBstream 4) ∧
      HasBytes (attPacket handle att).p 6 att := by
  have hall := hasBytes_mem ([0x02, UInt8.ofNat (att.length + 4)] ++ uint16ToBstream att.length ++
    uint16ToBstream 4 ++ att)
  obtain ⟨hheader, hatt⟩ := hasBytes_append.mp hall
  obtain ⟨hlen, hchan⟩ := hasBytes_append.mp hheader
  exact ⟨(hasBytes_append.mp hlen).2, hchan, hatt⟩

theorem answer_cons (srv : AttServer) (request : AttRequest) :
    ∃ op rest, srv.answer request = op :: rest ∧
      (op = attOpErrorRsp ∨ op.toNat = (request.opcode.toNat ||| 1)) := by
  cases request with
  | readByType start =>
    dsimp only [AttServer.answer]
    split
    · exact ⟨_, _, rfl, .inl rfl⟩
    · have hop : attOpReadByTypeRsp.toNat = (attOpReadByTypeReq.toNat ||| 1) := by decide
      exact ⟨_, _, rfl, .inr hop⟩
  | findInformation start =>
    dsimp only [AttServer.answer]
    split
    · exact ⟨_, _, rfl, .inl rfl⟩
    · have hop : attOpFindInfoRsp.toNat = (attOpFindInformationReq.toNat ||| 1) := by decide
      exact ⟨_, _, rfl, .inr hop⟩
  | read handle =>
    dsimp only [AttServer.answer]
    split
    · exact ⟨_, _, rfl, .inr (by decide : attOpReadRsp.toNat = (attOpReadReq.toNat ||| 1))⟩
    · exact ⟨_, _, rfl, .inl rfl⟩

/-- The answer to a request, and what was behind it before. -/
structure Answered (old dat : ℕ → UInt8) (att : List UInt8) : Prop where
  len : bytesToUint16 dat 2 = att.length
  holds : HasBytes dat 6 att
  rest : ∀ i, 6 + att.length ≤ i → dat i = old i

section Round

variable {srv : AttServer} {a : SdpArgs} {st : SdpState} {request : AttRequest}

theorem l2capLen_answer (srv : AttServer) (handle : ℕ) (request : AttRequest) :
    (attPacket handle (srv.answer request)).l2capLen = (srv.answer request).length := by
  have hlen := srv.length_answer_le request
  have hmtu := srv.mtu_lt
  exact (hasBytes_attPacket handle _).1.uint16.trans (u16_of_lt (by omega))

/-- The handler takes the answer. -/
theorem takesPacket_answer (srv : AttServer) (a : SdpArgs) (request : AttRequest) :
    takesPacket (busyOf a.handle request.opcode) (attPacket a.handle (srv.answer request)) =
      true := by
  obtain ⟨-, hchan, hatt⟩ := hasBytes_attPacket a.handle (srv.answer request)
  obtain ⟨op, rest, hanswer, hop⟩ := answer_cons srv request
  have hlt := a.handle_lt
  have hmod : a.handle % 8 = busyOf a.handle request.opcode % 8 := by
    unfold busyOf
    omega
  have hdiv : busyOf a.handle request.opcode / 65536 = request.opcode.toNat := by
    unfold busyOf
    omega
  have hopcode : (attPacket a.handle (srv.answer request)).opcode = op := by
    rw [hanswer] at hatt ⊢
    exact (hasBytes_cons.mp hatt).1
  have hchanId : (attPacket a.handle (srv.answer request)).chanId = 4 := hchan.uint16
  unfold takesPacket
  rw [hopcode, hchanId, hdiv, ← hmod]
  rcases hop with rfl | hop
  · simp [attPacket]
  · simp [attPacket, hop]

theorem accepted_answer (hrequest : st.request = some request) :
    accepted (busyOf a.handle request.opcode) (srv.calls a st) =
      [attPacket a.handle (srv.answer request)] := by
  rw [AttServer.calls, hrequest]
  dsimp only
  rw [accepted, acceptedIn, if_pos (takesPacket_answer srv a request)]
  rfl

theorem answered_answer (hrequest : st.request = some request) :
    answered (busyOf a.handle request.opcode) (srv.calls a st) = true := by
  rw [AttServer.calls, hrequest]
  dsimp only
  rw [answered, acceptedIn, if_pos (takesPacket_answer srv a request)]
  rfl

/-- An answer fits `dat` with its header. -/
theorem roundFits_iff (hrequest : st.request = some request) :
    RoundFits a st (srv.calls a st) ↔ (srv.answer request).length + 6 ≤ datSize := by
  unfold RoundFits
  rw [hrequest]
  constructor
  · intro h
    have hfits := h request rfl (attPacket a.handle (srv.answer request)) (by
      rw [accepted_answer hrequest]
      exact List.mem_singleton_self _)
    rwa [AttPacket.Fits, l2capLen_answer] at hfits
  · rintro h _ heq pk hpk
    cases heq
    rw [accepted_answer hrequest] at hpk
    rw [List.mem_singleton.mp hpk, AttPacket.Fits, l2capLen_answer]
    exact h

/-- One request to the peer. -/
theorem discoveryStep_serve (hrequest : st.request = some request)
    (hfits : RoundFits a st (srv.calls a st)) :
    ∃ dat, discoveryStep a st (srv.calls a st) =
        takeAnswer a { st with dat := dat, busy := 0 } ∧
      Answered st.dat dat (srv.answer request) := by
  have hstep := discoveryStep_of_answered hrequest hfits (answered_answer hrequest)
  rw [withAnswer, busyLeft_of_answered (answered_answer hrequest)] at hstep
  refine ⟨_, hstep, ?_⟩
  rw [accepted_answer hrequest]
  obtain ⟨hlen, -, hatt⟩ := hasBytes_attPacket a.handle (srv.answer request)
  have hl2cap := l2capLen_answer srv a.handle request
  obtain ⟨op, rest, hanswer, -⟩ := answer_cons srv request
  have hpos : 0 < (srv.answer request).length := by
    rw [hanswer]
    exact Nat.succ_pos _
  generalize attPacket a.handle (srv.answer request) = pk at hlen hatt hl2cap ⊢
  have hcopied : ∀ i < (srv.answer request).length + 6,
      copyAll (Function.update st.dat 6 request.opcode) [pk] i = pk.p i := by
    intro i hi
    show memcpy _ 0 (bytes pk.p (pk.l2capLen + 6)) i = _
    unfold memcpy
    rw [Hci.length_bytes, hl2cap, if_pos (by omega), getD_bytes _ (by omega)]
    rfl
  refine ⟨?_, ?_, fun i hi => ?_⟩
  · exact (bytesToUint16_congr (hcopied 2 (by omega)) (hcopied 3 (by omega))).trans hl2cap
  · exact (bytesAt_congr fun i hi => hcopied (6 + i) (by omega)).trans hatt
  · show memcpy _ 0 (bytes pk.p (pk.l2capLen + 6)) i = _
    unfold memcpy
    rw [Hci.length_bytes, hl2cap, if_neg (by omega), Function.update_of_ne (by omega)]

end Round

/-! ## What is stored of a characteristic -/

/-- What `p16` holds of a characteristic with a UUID of 16 bits. -/
def PeerChar.char16 (c : PeerChar) : Option (UInt8 × ℕ × ℕ) :=
  match c.uuid with
  | .short uuid => some (c.property, c.handle, uuid.toNat)
  | .long _ => none

/-- What `p128` holds of a characteristic with a UUID of 128 bits. -/
def PeerChar.char128 (c : PeerChar) : Option (UInt8 × ℕ × List UInt8) :=
  match c.uuid with
  | .short _ => none
  | .long uuid => some (c.property, c.handle, uuid.toList)

def AttDbUuid16.char (e : AttDbUuid16) : UInt8 × ℕ × ℕ := (e.property, e.handle, e.uuid)
def AttDbUuid128.char (e : AttDbUuid128) : UInt8 × ℕ × List UInt8 := (e.property, e.handle, e.uuid)

/-- The arrays hold the characteristics `cs`, and no references yet. -/
structure Collected (st : SdpState) (cs : List PeerChar) : Prop where
  chars16 : ((List.range st.i16).map fun i => (st.p16 i).char) = cs.filterMap PeerChar.char16
  chars128 : ((List.range st.i128).map fun i => (st.p128 i).char) = cs.filterMap PeerChar.char128
  refs : ∀ i < st.i16, (st.p16 i).ref = 0

/-- The arrays have an entry for each characteristic of the peer. -/
structure Room (srv : AttServer) (a : SdpArgs) : Prop where
  le16 : (srv.db.chars.filterMap PeerChar.char16).length ≤ a.n16
  le128 : (srv.db.chars.filterMap PeerChar.char128).length ≤ a.n128

namespace Collected

variable {srv : AttServer} {a : SdpArgs} {st : SdpState} {cs : List PeerChar} {c : PeerChar}
  {pd : ℕ}

theorem i16_eq (h : Collected st cs) : st.i16 = (cs.filterMap PeerChar.char16).length := by
  have hlen := congrArg List.length h.chars16
  rwa [List.length_map, List.length_range] at hlen

theorem i128_eq (h : Collected st cs) : st.i128 = (cs.filterMap PeerChar.char128).length := by
  have hlen := congrArg List.length h.chars128
  rwa [List.length_map, List.length_range] at hlen

/-- An entry with a UUID of 16 bits is stored. -/
theorem entry16 (h : Collected st cs) (hroom : st.i16 < a.n16) {uuid : UInt16}
    (huuid : c.uuid = .short uuid) (hc : c.handle < 65536) (hentry : HasBytes st.dat pd c.entry) :
    ∃ st', Common.entry16 a st pd = .ok st' ∧ Collected st' (cs ++ [c]) ∧ st'.dat = st.dat ∧
      st'.phase = st.phase ∧ st'.s = c.handle := by
  unfold PeerChar.entry at hentry
  obtain ⟨hhead, hbytes⟩ := hasBytes_append.mp hentry
  obtain ⟨hdecl, hrest⟩ := hasBytes_append.mp hhead
  obtain ⟨hproperty, hhandle⟩ := hasBytes_cons.mp hrest
  rw [huuid] at hbytes
  have hs : bytesToUint16 st.dat (pd + 3) = c.handle := hhandle.uint16.trans (u16_of_lt hc)
  have hu : bytesToUint16 st.dat (pd + 5) = uuid.toNat :=
    hbytes.uint16.trans (u16_of_lt uuid.toNat_lt)
  have hp : st.dat (pd + 2) = c.property := hproperty
  have hchar : [c].filterMap PeerChar.char16 = [(c.property, c.handle, uuid.toNat)] := by
    simp [PeerChar.char16, huuid]
  have hchar' : [c].filterMap PeerChar.char128 = [] := by simp [PeerChar.char128, huuid]
  unfold Common.entry16
  simp only [if_pos hroom, write16_of_lt hroom, hs, hu, hp]
  refine ⟨_, rfl, ⟨?_, ?_, ?_⟩, rfl, rfl, rfl⟩
  · rw [List.filterMap_append, ← h.chars16, hchar, List.range_succ, List.map_append]
    congr 1
    · apply List.map_congr_left
      intro i hi
      dsimp only
      rw [Function.update_of_ne (Nat.ne_of_lt (List.mem_range.mp hi))]
    · simp [AttDbUuid16.char]
  · rw [List.filterMap_append, ← h.chars128, hchar', List.append_nil]
  · intro i hi
    dsimp only at hi ⊢
    rcases Nat.lt_or_eq_of_le (Nat.le_of_lt_succ hi) with hlt | rfl
    · rw [Function.update_of_ne (Nat.ne_of_lt hlt)]
      exact h.refs i hlt
    · rw [Function.update_self]

/-- An entry with a UUID of 128 bits is stored. -/
theorem entry128 (h : Collected st cs) (hroom : st.i128 < a.n128) {uuid : Vector UInt8 16}
    (huuid : c.uuid = .long uuid) (hc : c.handle < 65536) (hentry : HasBytes st.dat pd c.entry) :
    ∃ st', Common.entry128 a st pd = .ok st' ∧ Collected st' (cs ++ [c]) ∧ st'.dat = st.dat ∧
      st'.phase = st.phase ∧ st'.s = c.handle := by
  unfold PeerChar.entry at hentry
  obtain ⟨hhead, hbytes⟩ := hasBytes_append.mp hentry
  obtain ⟨hdecl, hrest⟩ := hasBytes_append.mp hhead
  obtain ⟨hproperty, hhandle⟩ := hasBytes_cons.mp hrest
  rw [huuid] at hbytes
  have hs : bytesToUint16 st.dat (pd + 3) = c.handle := hhandle.uint16.trans (u16_of_lt hc)
  have hu : bytesAt st.dat (pd + 5) 16 = uuid.toList := by
    have hlen : (AttUuid.long uuid).bytes.length = 16 := uuid.length_toList
    rw [HasBytes, hlen] at hbytes
    exact hbytes
  have hp : st.dat (pd + 2) = c.property := hproperty
  have hchar : [c].filterMap PeerChar.char128 = [(c.property, c.handle, uuid.toList)] := by
    simp [PeerChar.char128, huuid]
  have hchar' : [c].filterMap PeerChar.char16 = [] := by simp [PeerChar.char16, huuid]
  unfold Common.entry128
  simp only [if_pos hroom, write128_of_lt hroom, hs, hu, hp]
  refine ⟨_, rfl, ⟨?_, ?_, h.refs⟩, rfl, rfl, rfl⟩
  · rw [List.filterMap_append, ← h.chars16, hchar', List.append_nil]
  · rw [List.filterMap_append, ← h.chars128, hchar, List.range_succ, List.map_append]
    congr 1
    · apply List.map_congr_left
      intro i hi
      dsimp only
      rw [Function.update_of_ne (Nat.ne_of_lt (List.mem_range.mp hi))]
    · simp [AttDbUuid128.char]

/-- The numbers in the first entries are no part of a characteristic. -/
theorem setNum (h : Collected st cs) (n16 n128 : ℕ) :
    Collected { st with
      p16 := Function.update st.p16 0 { st.p16 0 with num := n16 }
      p128 := Function.update st.p128 0 { st.p128 0 with num := n128 } } cs := by
  have h16 : ∀ i, (Function.update st.p16 0 { st.p16 0 with num := n16 } i).char =
      (st.p16 i).char ∧ (Function.update st.p16 0 { st.p16 0 with num := n16 } i).ref =
      (st.p16 i).ref := by
    intro i
    by_cases hi : i = 0
    · subst hi
      rw [Function.update_self]
      exact ⟨rfl, rfl⟩
    · rw [Function.update_of_ne hi]
      exact ⟨rfl, rfl⟩
  have h128 : ∀ i, (Function.update st.p128 0 { st.p128 0 with num := n128 } i).char =
      (st.p128 i).char := by
    intro i
    by_cases hi : i = 0
    · subst hi
      rw [Function.update_self]
      rfl
    · rw [Function.update_of_ne hi]
  exact ⟨(List.map_congr_left fun i _ => (h16 i).1).trans h.chars16,
    (List.map_congr_left fun i _ => h128 i).trans h.chars128,
    fun i hi => (h16 i).2.trans (h.refs i hi)⟩

end Collected

/-! ## The first pass -/

/-- In the first pass: what was found, and where the next request begins. -/
structure FirstInv (st : SdpState) (cs : List PeerChar) : Prop where
  collected : Collected st cs
  phase : st.phase = .chars
  start : st.s = (cs.getLast?.map PeerChar.handle).getD 1

section FirstPass

variable {srv : AttServer} {a : SdpArgs} {st : SdpState} {cs rest es : List PeerChar}

/-- From the next start handle on there are the characteristics that are not found yet. -/
theorem FirstInv.filter_eq (h : FirstInv st cs) (hdb : srv.db.chars = cs ++ rest) :
    (srv.db.chars.filter fun c => st.s ≤ c.declHandle) = rest := by
  have hmem : ∀ c ∈ cs ++ rest, 0 < c.declHandle ∧ c.declHandle < c.handle := fun c hc =>
    ⟨AttDatabase.declHandle_pos (hdb ▸ hc), AttDatabase.declHandle_lt (hdb ▸ hc)⟩
  have hsorted := srv.db.chars_pairwise
  rw [hdb, List.pairwise_append] at hsorted
  obtain ⟨hcs, -, hrest⟩ := hsorted
  have hstart := h.start
  rw [hdb, List.filter_append, List.filter_eq_nil_iff.mpr, List.nil_append,
    List.filter_eq_self.mpr]
  · intro c hc
    apply decide_eq_true
    rcases List.eq_nil_or_concat' cs with rfl | ⟨init, last, rfl⟩
    · rw [hstart]
      exact (hmem c hc).1
    · rw [hstart, List.getLast?_concat]
      exact Nat.le_of_lt (hrest last (by simp) c hc)
  · intro c hc hle
    have hle' := of_decide_eq_true hle
    rcases List.eq_nil_or_concat' cs with rfl | ⟨init, last, rfl⟩
    · cases hc
    · rw [hstart, List.getLast?_concat] at hle'
      change last.handle ≤ c.declHandle at hle'
      have hlt := hmem last (by simp)
      have hc' := hmem c (List.mem_append_left _ hc)
      rcases List.mem_append.mp hc with hinit | hlast
      · have hbefore := (List.pairwise_append.mp hcs).2.2 c hinit last (List.mem_singleton_self _)
        omega
      · rw [List.mem_singleton.mp hlast] at hle'
        omega

/-- A part of the characteristics leaves room for one more. -/
theorem Room.lt16 (h : Room srv a) {c : PeerChar} (hpre : cs ++ [c] <+: srv.db.chars)
    {uuid : UInt16} (huuid : c.uuid = .short uuid) :
    (cs.filterMap PeerChar.char16).length < a.n16 := by
  have hlen := (hpre.sublist.filterMap PeerChar.char16).length_le
  have hone : [c].filterMap PeerChar.char16 = [(c.property, c.handle, uuid.toNat)] := by
    simp [PeerChar.char16, huuid]
  rw [List.filterMap_append, hone, List.length_append, List.length_singleton] at hlen
  exact Nat.lt_of_lt_of_le hlen h.le16

theorem Room.lt128 (h : Room srv a) {c : PeerChar} (hpre : cs ++ [c] <+: srv.db.chars)
    {uuid : Vector UInt8 16} (huuid : c.uuid = .long uuid) :
    (cs.filterMap PeerChar.char128).length < a.n128 := by
  have hlen := (hpre.sublist.filterMap PeerChar.char128).length_le
  have hone : [c].filterMap PeerChar.char128 = [(c.property, c.handle, uuid.toList)] := by
    simp [PeerChar.char128, huuid]
  rw [List.filterMap_append, hone, List.length_append, List.length_singleton] at hlen
  exact Nat.lt_of_lt_of_le hlen h.le128

/-- The loop over the entries of an answer. -/
theorem entryLoop_page {size : ℕ} {entry : SdpState → ℕ → Except SdpFault SdpState}
    (hentry : ∀ st pd cs c, c ∈ es → cs ++ [c] <+: srv.db.chars → FirstInv st cs →
      HasBytes st.dat pd c.entry →
      ∃ st', entry st pd = .ok st' ∧ FirstInv st' (cs ++ [c]) ∧ st'.dat = st.dat)
    (hsize : ∀ c ∈ es, c.entry.length = size) (hthree : 2 < size) {fuel : ℕ}
    (hfuel : es.length ≤ fuel) {pd : ℕ} (h : FirstInv st cs)
    (hbytes : HasBytes st.dat pd (es.flatMap PeerChar.entry)) (hpre : cs ++ es <+: srv.db.chars) :
    ∃ st', entryLoop size entry fuel (es.length * size + 2) pd st = .ok (st', 2) ∧
      FirstInv st' (cs ++ es) := by
  induction es generalizing fuel pd st cs with
  | nil =>
    refine ⟨st, ?_, by rwa [List.append_nil]⟩
    rw [List.length_nil, Nat.zero_mul, Nat.zero_add]
    cases fuel with
    | zero => rfl
    | succ fuel => rw [entryLoop, if_neg (by omega)]
  | cons c es ih =>
    obtain ⟨fuel, rfl⟩ : ∃ n, fuel = n + 1 :=
      ⟨fuel - 1, by rw [List.length_cons] at hfuel; omega⟩
    rw [List.flatMap_cons, hasBytes_append, hsize c List.mem_cons_self] at hbytes
    have hpre' : (cs ++ [c]) ++ es <+: srv.db.chars := by
      rwa [List.append_assoc]
    obtain ⟨st', hok, h', hdat⟩ := hentry st pd cs c List.mem_cons_self
      ((List.prefix_append _ es).trans hpre') h hbytes.1
    rw [entryLoop, List.length_cons, Nat.add_mul, if_pos (by omega), hok,
      show es.length * size + 1 * size + 2 - size = es.length * size + 2 by omega]
    obtain ⟨st'', hloop, h''⟩ := ih
      (fun st pd cs c hc => hentry st pd cs c (List.mem_cons_of_mem _ hc))
      (fun c hc => hsize c (List.mem_cons_of_mem _ hc)) (Nat.le_of_succ_le_succ hfuel) h'
      (hdat ▸ hbytes.2) hpre'
    rw [List.append_assoc] at h''
    exact ⟨st'', hloop, h''⟩

theorem FirstInv.append {c : PeerChar} {st' : SdpState} (h : FirstInv st cs)
    (hcollected : Collected st' (cs ++ [c])) (hphase : st'.phase = st.phase)
    (hs : st'.s = c.handle) : FirstInv st' (cs ++ [c]) := by
  refine ⟨hcollected, hphase.trans h.phase, ?_⟩
  rw [List.getLast?_concat]
  exact hs

/-- The loop in place: the rest of `l2capLen` goes back to `dat`. -/
theorem entries_page {size : ℕ} {entry : SdpState → ℕ → Except SdpFault SdpState}
    (hentry : ∀ st pd cs c, c ∈ es → cs ++ [c] <+: srv.db.chars → FirstInv st cs →
      HasBytes st.dat pd c.entry →
      ∃ st', entry st pd = .ok st' ∧ FirstInv st' (cs ++ [c]) ∧ st'.dat = st.dat)
    (hsize : ∀ c ∈ es, c.entry.length = size) (hthree : 2 < size) (h : FirstInv st cs)
    (hlen : bytesToUint16 st.dat 2 = es.length * size + 2)
    (hbytes : HasBytes st.dat 8 (es.flatMap PeerChar.entry)) (hpre : cs ++ es <+: srv.db.chars) :
    ∃ st', entries size entry st = .ok st' ∧ FirstInv st' (cs ++ es) := by
  have hfuel : es.length ≤ es.length * size + 2 := by
    have hle := Nat.le_mul_of_pos_right es.length (show 0 < size by omega)
    omega
  obtain ⟨st', hloop, h'⟩ := entryLoop_page hentry hsize hthree hfuel h hbytes hpre
  unfold entries
  simp only [hlen, hloop]
  exact ⟨_, rfl, ⟨h'.collected.chars16, h'.collected.chars128, h'.collected.refs⟩, h'.phase,
    h'.start⟩

/-- An entry with a UUID of 16 bits. -/
theorem FirstInv.entry16 (hroom : Room srv a) {c : PeerChar} {pd : ℕ} (h : FirstInv st cs)
    (hpre : cs ++ [c] <+: srv.db.chars) (hshort : c.uuid.isShort = true)
    (hentry : HasBytes st.dat pd c.entry) :
    ∃ st', Common.entry16 a st pd = .ok st' ∧ FirstInv st' (cs ++ [c]) ∧ st'.dat = st.dat := by
  have hc : c ∈ srv.db.chars :=
    hpre.subset (List.mem_append_right _ (List.mem_singleton_self _))
  cases huuid : c.uuid with
  | short uuid =>
    obtain ⟨st', hok, hcollected, hdat, hphase, hs⟩ := h.collected.entry16
      (h.collected.i16_eq ▸ hroom.lt16 hpre huuid) huuid (AttDatabase.handle_lt hc) hentry
    exact ⟨st', hok, h.append hcollected hphase hs, hdat⟩
  | long uuid =>
    rw [huuid] at hshort
    cases hshort

/-- An entry with a UUID of 128 bits. -/
theorem FirstInv.entry128 (hroom : Room srv a) {c : PeerChar} {pd : ℕ} (h : FirstInv st cs)
    (hpre : cs ++ [c] <+: srv.db.chars) (hlong : c.uuid.isShort = false)
    (hentry : HasBytes st.dat pd c.entry) :
    ∃ st', Common.entry128 a st pd = .ok st' ∧ FirstInv st' (cs ++ [c]) ∧ st'.dat = st.dat := by
  have hc : c ∈ srv.db.chars :=
    hpre.subset (List.mem_append_right _ (List.mem_singleton_self _))
  cases huuid : c.uuid with
  | short uuid =>
    rw [huuid] at hlong
    cases hlong
  | long uuid =>
    obtain ⟨st', hok, hcollected, hdat, hphase, hs⟩ := h.collected.entry128
      (h.collected.i128_eq ▸ hroom.lt128 hpre huuid) huuid (AttDatabase.handle_lt hc) hentry
    exact ⟨st', hok, h.append hcollected hphase hs, hdat⟩

/-- An answer that lists characteristics of one form adds them. -/
theorem parseChars_page (hroom : Room srv a) (h : FirstInv st cs) {c : PeerChar}
    (hform : ∀ c' ∈ es, c'.uuid.isShort = c.uuid.isShort) (hpre : cs ++ es <+: srv.db.chars)
    (hlen : bytesToUint16 st.dat 2 = es.length * c.entry.length + 2)
    (hbytes : HasBytes st.dat 7 (UInt8.ofNat c.entry.length :: es.flatMap PeerChar.entry)) :
    ∃ st', parseChars a st = .ok st' ∧ FirstInv st' (cs ++ es) := by
  obtain ⟨hsize, hentries⟩ := hasBytes_cons.mp hbytes
  have hentrySize : ∀ c' ∈ es, c'.entry.length = c.entry.length := by
    intro c' hc'
    rw [c'.length_entry, c.length_entry, hform c' hc']
  have hclen := c.length_entry
  unfold parseChars
  rw [hsize]
  cases hshort : c.uuid.isShort with
  | true =>
    rw [hshort, if_pos rfl] at hclen
    rw [hclen] at hlen hentrySize ⊢
    rw [if_neg (by decide), if_pos (by decide)]
    exact entries_page (fun _ _ _ c' hc' hpre' h' hentry =>
      h'.entry16 hroom hpre' ((hform c' hc').trans hshort) hentry)
      hentrySize (by decide) h hlen hentries hpre
  | false =>
    rw [hshort, if_neg Bool.false_ne_true] at hclen
    rw [hclen] at hlen hentrySize ⊢
    rw [if_pos (by decide)]
    exact entries_page (fun _ _ _ c' hc' hpre' h' hentry =>
      h'.entry128 hroom hpre' ((hform c' hc').trans hshort) hentry)
      hentrySize (by decide) h hlen hentries hpre

/-- The answer behind the last characteristic ends the pass. -/
theorem secondPass_ok (hpos : 0 < a.n16 ∧ 0 < a.n128) (h : Collected st cs) :
    ∃ st', secondPass a st = .ok (nextReport st' 0) ∧ Collected st' cs ∧
      (st'.p16 0).num = u8 st'.i16 ∧ (st'.p128 0).num = u8 st'.i128 := by
  unfold secondPass
  rw [write16_of_lt hpos.1]
  dsimp only [bind, Except.bind]
  rw [write128_of_lt hpos.2]
  refine ⟨_, rfl, h.setNum _ _, ?_, ?_⟩
  · exact congrArg AttDbUuid16.num (Function.update_self 0 _ st.p16)
  · exact congrArg AttDbUuid128.num (Function.update_self 0 _ st.p128)

/-- The peer of a discovery: what arrives depends on the request alone. -/
def AttServer.peer (srv : AttServer) (a : SdpArgs) : ℕ → SdpState → List (List AttPacket) :=
  fun _ st => srv.calls a st

/-- The first pass finds all characteristics. -/
theorem firstPass {start : Except SdpFault SdpState} (hpos : 0 < a.n16 ∧ 0 < a.n128)
    (hroom : Room srv a)
    (hfits : ∀ k st, discoveryRun a start (srv.peer a) k = .ok st →
      RoundFits a st (srv.calls a st))
    {k : ℕ} (hrun : discoveryRun a start (srv.peer a) k = .ok st) (h : FirstInv st cs)
    (hdb : srv.db.chars = cs ++ rest) :
    ∃ k' st', discoveryRun a start (srv.peer a) k' = .ok (nextReport st' 0) ∧
      Collected st' srv.db.chars ∧ (st'.p16 0).num = u8 st'.i16 ∧
      (st'.p128 0).num = u8 st'.i128 := by
  generalize hn : rest.length = n
  induction n using Nat.strongRecOn generalizing k st cs rest with
  | ind n ih =>
    have hrequest : st.request = some (.readByType st.s) := by rw [SdpState.request, h.phase]
    obtain ⟨dat, hstep, hanswer⟩ := discoveryStep_serve hrequest (hfits k st hrun)
    have hsucc : discoveryRun a start (srv.peer a) (k + 1) =
        takeAnswer a { st with dat := dat, busy := 0 } := (discoveryRun_succ hrun).trans hstep
    have h' : FirstInv { st with dat := dat, busy := 0 } cs :=
      ⟨⟨h.collected.chars16, h.collected.chars128, h.collected.refs⟩, h.phase, h.start⟩
    have htake : takeAnswer a { st with dat := dat, busy := 0 } =
        if dat 6 ≠ attOpReadByTypeRsp then secondPass a { st with dat := dat, busy := 0 }
        else parseChars a { st with dat := dat, busy := 0 } := by
      unfold takeAnswer
      rw [h'.phase]
    have hpage : srv.charPage st.s = page (·.uuid.isShort) (fun c =>
        min (1 + srv.charCount st.s) ((srv.mtu - 2) / c.entry.length)) rest := by
      rw [AttServer.charPage, h.filter_eq hdb]
    have hbytes := hanswer.holds
    have hlen := hanswer.len
    dsimp only [AttServer.answer] at hbytes hlen
    cases hes : srv.charPage st.s with
    | nil =>
      -- nothing is left, and the answer is an error
      rw [hpage, page_eq_nil (charCount_pos srv _)] at hes
      rw [hpage, hes] at hbytes
      have hop : dat 6 = attOpErrorRsp := (hasBytes_cons.mp hbytes).1
      obtain ⟨st', hok, hcollected, hnum⟩ := secondPass_ok hpos h'.collected
      rw [hes, List.append_nil] at hdb
      refine ⟨k + 1, st', ?_, hdb ▸ hcollected, hnum⟩
      rw [hsucc, htake, if_pos (by rw [hop]; decide), hok]
    | cons c es =>
      obtain ⟨hform, rest', rfl⟩ := eq_append_of_page (hpage.symm.trans hes)
      rw [hes] at hbytes hlen
      obtain ⟨hop, hlist⟩ := hasBytes_cons.mp hbytes
      have hlength : ((c :: es).flatMap PeerChar.entry).length =
          (c :: es).length * c.entry.length :=
        length_flatMap_of_forall fun c' hc' => by rw [c'.length_entry, c.length_entry, hform c' hc']
      rw [List.length_cons, List.length_cons, hlength] at hlen
      have hdb' : srv.db.chars = (cs ++ c :: es) ++ rest' := by
        rw [hdb, List.append_assoc]
      obtain ⟨st', hok, hnext⟩ := parseChars_page hroom h' hform (hdb' ▸ List.prefix_append _ rest')
        hlen hlist
      refine ih rest'.length ?_ (k := k + 1) ?_ hnext hdb' rfl
      · rw [← hn, List.length_append, List.length_cons]
        omega
      · rw [hsucc, htake, if_neg (by rw [hop]; exact fun hne => hne rfl), hok]

end FirstPass

end TlBleSdk.Common
