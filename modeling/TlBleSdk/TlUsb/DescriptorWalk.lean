import TlBleSdk.TlUsb.Usbd
import Mathlib.Data.List.GetD
import Mathlib.Data.List.Infix
import Mathlib.Tactic.Common

/-!
# The walk over a configuration descriptor

`usbd_set_configuration` and the HID branch of `usbd_hid_request_descriptor` walk over the
descriptors of a configuration. Here the configuration is in memory, with other bytes behind it,
and every byte that the loops read is recorded. The loops add the length of the descriptor that
comes next, so that their sum misses the first one, and they read the byte behind the last one.
-/

namespace TlBleSdk.TlUsb

open Usbd

/-- The variables of the loops, where the descriptors are that they opened or wrote, and the bytes
that they read. Addresses count from the start of the configuration descriptor. -/
structure Walk where
  configDesc : ℕ
  currentDescLen : UInt16
  curIface : UInt8
  out : List ℕ
  reads : List ℕ

namespace Walk

/-- A byte is read. -/
def load (s : Walk) (a : ℕ) : Walk := { s with reads := s.reads ++ [a] }

/-- The switch of `usbd_set_configuration`. -/
def openSwitch (mem : ℕ → UInt8) (s : Walk) : Walk :=
  let s := s.load (s.configDesc + 1)
  if mem (s.configDesc + 1) = 5 then { s with out := s.out ++ [s.configDesc] } else s

/-- The switch of `usbd_hid_request_descriptor`. -/
def hidSwitch (hidItf : UInt8) (mem : ℕ → UInt8) (s : Walk) : Walk :=
  let s := s.load (s.configDesc + 1)
  if mem (s.configDesc + 1) = 4 then
    { s.load (s.configDesc + 2) with curIface := mem (s.configDesc + 2) }
  else if mem (s.configDesc + 1) = 0x21 ∧ s.curIface = hidItf then
    { s with out := s.out ++ [s.configDesc] }
  else s

variable (switch : (ℕ → UInt8) → Walk → Walk) (mem : ℕ → UInt8)

/-- A turn of the loop: `config_desc` moves on before its length is added. -/
def visit (s : Walk) : Walk :=
  let s := switch mem (s.load s.configDesc)
  let s := { s with configDesc := s.configDesc + (mem s.configDesc).toNat }
  { s.load s.configDesc with
    currentDescLen := s.currentDescLen + (mem s.configDesc).toUInt16 }

/-- The loop, for at most `fuel` turns. -/
def loop (total : UInt16) : ℕ → Walk → Option Walk
  | 0, _ => none
  | fuel + 1, s =>
    if mem s.configDesc = 0 then some (s.load s.configDesc)
    else
      let s := visit switch mem s
      if total ≤ s.currentDescLen then some s else loop total fuel s

/-- The start of the loop, behind the two reads of the total length. -/
def start : Walk := ⟨0, 0, 0xFF, [], [2, 3]⟩

/-- `config_desc_len`. -/
def total : UInt16 := ((mem 3).toUInt16 <<< 8) ||| (mem 2).toUInt16

/-- The switches keep the position. -/
structure Keeps : Prop where
  configDesc : ∀ s, (switch mem s).configDesc = s.configDesc
  currentDescLen : ∀ s, (switch mem s).currentDescLen = s.currentDescLen
  reads : ∀ s, s.reads <+: (switch mem s).reads

theorem keeps_openSwitch : Keeps openSwitch mem := by
  refine ⟨fun s => ?_, fun s => ?_, fun s => ?_⟩ <;> unfold openSwitch <;> dsimp only <;> split
  · rfl
  · rfl
  · rfl
  · rfl
  · exact List.prefix_append _ _
  · exact List.prefix_append _ _

theorem keeps_hidSwitch (hidItf : UInt8) : Keeps (hidSwitch hidItf) mem := by
  refine ⟨fun s => ?_, fun s => ?_, fun s => ?_⟩ <;> unfold hidSwitch <;> dsimp only <;> split_ifs
  · rfl
  · rfl
  · rfl
  · rfl
  · rfl
  · rfl
  · exact (List.prefix_append _ _).trans (List.prefix_append _ _)
  · exact List.prefix_append _ _
  · exact List.prefix_append _ _

end Walk

/-! ## Configurations -/

/-- A configuration descriptor: descriptors that begin with their lengths, the first one the
configuration descriptor of nine bytes, with the length of all of them. -/
structure Configuration where
  head : List UInt8
  descs : List (List UInt8)
  length_head : head.length = 9
  type_head : head[1]? = some 2
  bLength_eq : ∀ d ∈ head :: descs, d ≠ [] ∧ bLength d = d.length
  total_eq : (wTotalLength head).toNat = (head :: descs).flatten.length

namespace Configuration

variable (c : Configuration) (after : ℕ → UInt8)

def bytes : List UInt8 := (c.head :: c.descs).flatten

/-- `wTotalLength`. -/
def total : ℕ := c.bytes.length

/-- The memory from the configuration descriptor on. -/
def mem : ℕ → UInt8 := fun a =>
  if h : a < c.bytes.length then c.bytes[a] else after (a - c.bytes.length)

/-- Where the endpoint descriptors are, from `p` on. -/
def endpoints : ℕ → List (List UInt8) → List ℕ
  | _, [] => []
  | p, d :: ds => (if d[1]? = some 5 then [p] else []) ++ endpoints (p + d.length) ds

/-- Where the HID descriptors of an interface are, from `p` on, behind the descriptor of the
interface `iface`. -/
def hids (hidItf : UInt8) : Option UInt8 → ℕ → List (List UInt8) → List ℕ
  | _, _, [] => []
  | iface, p, d :: ds =>
    (if d[1]? = some 0x21 ∧ iface = some hidItf then [p] else []) ++
      hids hidItf (if d[1]? = some 4 then d[2]? else iface) (p + d.length) ds

/-- `usbd_set_configuration` opens the endpoints of the configuration, and reads nothing behind
it. -/
def SetConfigurationOk : Prop :=
  ∃ fuel s, Walk.loop Walk.openSwitch (c.mem after) (Walk.total (c.mem after)) fuel Walk.start =
      some s ∧
    s.out = endpoints 0 (c.head :: c.descs) ∧ ∀ a ∈ s.reads, a < c.total

/-- `usbd_hid_request_descriptor` writes the HID descriptor of the interface, and reads nothing
behind the configuration. -/
def HidRequestOk (hidItf : UInt8) : Prop :=
  ∃ fuel s, Walk.loop (Walk.hidSwitch hidItf) (c.mem after) (Walk.total (c.mem after)) fuel
      Walk.start = some s ∧
    s.out = hids hidItf none 0 (c.head :: c.descs) ∧ s.out.length = 1 ∧ ∀ a ∈ s.reads, a < c.total

end Configuration

/-! ## A turn -/

namespace Walk

variable {switch : (ℕ → UInt8) → Walk → Walk} {mem : ℕ → UInt8}

section Visit

variable (h : Keeps switch mem) (s : Walk)
include h

theorem configDesc_visit :
    (visit switch mem s).configDesc = s.configDesc + (mem s.configDesc).toNat := by
  have hpos := h.configDesc (s.load s.configDesc)
  show (switch mem (s.load s.configDesc)).configDesc +
    (mem (switch mem (s.load s.configDesc)).configDesc).toNat = _
  rw [hpos]
  rfl

theorem currentDescLen_visit : (visit switch mem s).currentDescLen =
    s.currentDescLen + (mem (visit switch mem s).configDesc).toUInt16 := by
  have hlen := h.currentDescLen (s.load s.configDesc)
  show (switch mem (s.load s.configDesc)).currentDescLen + _ = _
  rw [hlen]
  rfl

theorem reads_visit : s.reads <+: (visit switch mem s).reads :=
  ((List.prefix_append _ _).trans (h.reads (s.load s.configDesc))).trans (List.prefix_append _ _)

omit h in
/-- The first byte of the next descriptor is read. -/
theorem configDesc_mem_reads :
    (visit switch mem s).configDesc ∈ (visit switch mem s).reads :=
  List.mem_append_right _ (List.mem_singleton_self _)

end Visit

/-- More turns change nothing behind the end of the loop. -/
theorem loop_add {total : UInt16} {fuel : ℕ} {s t : Walk}
    (h : loop switch mem total fuel s = some t) (k : ℕ) :
    loop switch mem total (fuel + k) s = some t := by
  induction fuel generalizing s with
  | zero => cases h
  | succ fuel ih =>
    rw [Nat.succ_add]
    unfold loop at h ⊢
    dsimp only at h ⊢
    split_ifs at h ⊢
    · exact h
    · exact h
    · exact ih h

theorem loop_unique {total : UInt16} {fuel fuel' : ℕ} {s t t' : Walk}
    (h : loop switch mem total fuel s = some t) (h' : loop switch mem total fuel' s = some t') :
    t = t' := by
  have hmore := loop_add h fuel'
  rw [Nat.add_comm, loop_add h' fuel] at hmore
  exact (Option.some_inj.mp hmore).symm

/-- What was read stays read. -/
theorem reads_loop (hkeeps : Keeps switch mem) {total : UInt16} {fuel : ℕ} {s t : Walk}
    (h : loop switch mem total fuel s = some t) : s.reads <+: t.reads := by
  induction fuel generalizing s with
  | zero => cases h
  | succ fuel ih =>
    unfold loop at h
    dsimp only at h
    split_ifs at h
    · rw [← Option.some_inj.mp h]
      exact List.prefix_append _ _
    · rw [← Option.some_inj.mp h]
      exact reads_visit hkeeps s
    · exact (reads_visit hkeeps s).trans (ih h)

/-! ## The descriptors of a configuration -/

/-- The descriptors are in memory from `p` on. -/
def LaidOut (mem : ℕ → UInt8) : ℕ → List (List UInt8) → Prop
  | _, [] => True
  | p, d :: ds => (∀ i (h : i < d.length), mem (p + i) = d[i]) ∧ LaidOut mem (p + d.length) ds

theorem laidOut_of_flatten {p : ℕ} {ds : List (List UInt8)}
    (h : ∀ i (hi : i < ds.flatten.length), mem (p + i) = ds.flatten[i]) : LaidOut mem p ds := by
  induction ds generalizing p with
  | nil => trivial
  | cons d ds ih =>
    have hlen : (d :: ds).flatten.length = d.length + ds.flatten.length := by
      rw [List.flatten_cons, List.length_append]
    refine ⟨fun i hi => ?_, ih fun i hi => ?_⟩
    · rw [h i (by omega)]
      simp only [List.flatten_cons]
      exact List.getElem_append_left hi
    · rw [Nat.add_assoc, h (d.length + i) (by omega)]
      simp only [List.flatten_cons]
      rw [List.getElem_append_right (Nat.le_add_right _ _)]
      congr 1
      omega

/-- The turns for some descriptors. -/
def visits (switch : (ℕ → UInt8) → Walk → Walk) (mem : ℕ → UInt8) (ds : List (List UInt8))
    (s : Walk) : Walk :=
  ds.foldl (fun s _ => visit switch mem s) s

/-- The length of a descriptor, in memory. -/
theorem LaidOut.bLength {p : ℕ} {d : List UInt8} {ds : List (List UInt8)}
    (h : LaidOut mem p (d :: ds)) (hd : d ≠ [] ∧ bLength d = d.length) :
    (mem p).toNat = d.length ∧ mem p ≠ 0 := by
  obtain ⟨hne, hlen⟩ := hd
  have hpos : 0 < d.length := List.length_pos_iff.mpr hne
  have hmem := h.1 0 hpos
  rw [Nat.add_zero] at hmem
  have htoNat : (mem p).toNat = d.length := by
    rw [hmem, ← hlen, Usbd.bLength, List.headD_eq_head?_getD, List.head?_eq_getElem?,
      List.getElem?_eq_getElem hpos]
    rfl
  refine ⟨htoNat, fun hzero => ?_⟩
  rw [hzero] at htoNat
  exact Nat.ne_of_lt hpos htoNat

theorem toNat_currentDescLen_visit (hkeeps : Keeps switch mem) (s : Walk) :
    (visit switch mem s).currentDescLen.toNat =
      (s.currentDescLen.toNat + (mem (visit switch mem s).configDesc).toNat) % 65536 := by
  rw [currentDescLen_visit hkeeps, UInt16.toNat_add, UInt8.toNat_toUInt16]

/-- The loop goes on through all descriptors, since its sum is nine bytes behind its position, and
reads the byte behind them. -/
theorem loop_visits (hkeeps : Keeps switch mem) {total : UInt16} {d : List UInt8}
    {ds : List (List UInt8)} {p : ℕ} {s : Walk} (hlaid : LaidOut mem p (d :: ds))
    (hds : ∀ d' ∈ d :: ds, d' ≠ [] ∧ Usbd.bLength d' = d'.length)
    (htotal : p + (d :: ds).flatten.length = total.toNat) (hp : s.configDesc = p)
    (hlen : s.currentDescLen.toNat + 9 = p + d.length) :
    let t := visits switch mem (d :: ds) s
    t.configDesc = total.toNat ∧ total.toNat ∈ t.reads ∧
      t.currentDescLen.toNat = (total.toNat - 9 + (mem total.toNat).toNat) % 65536 ∧
      ∀ fuel, loop switch mem total (ds.length + 1 + fuel) s =
        if total ≤ t.currentDescLen then some t else loop switch mem total fuel t := by
  induction ds generalizing d p s with
  | nil =>
    obtain ⟨hmem, hzero⟩ := hlaid.bLength (hds d List.mem_cons_self)
    have hnext : (visit switch mem s).configDesc = total.toNat := by
      rw [configDesc_visit hkeeps, hp, hmem, ← htotal]
      simp
    have hread := @configDesc_mem_reads switch mem s
    have hsum := toNat_currentDescLen_visit hkeeps s
    rw [hnext] at hread hsum
    refine ⟨hnext, hread, ?_, fun fuel => ?_⟩
    · -- the sum takes the byte behind the last descriptor for a length
      show (visit switch mem s).currentDescLen.toNat = _
      have hflat : [d].flatten.length = d.length := by simp
      rw [hsum]
      congr 2
      omega
    · rw [List.length_nil, Nat.zero_add, Nat.add_comm, loop, hp, if_neg hzero]
      rfl
  | cons d' ds ih =>
    obtain ⟨hmem, hzero⟩ := hlaid.bLength (hds d List.mem_cons_self)
    obtain ⟨hmem', -⟩ := hlaid.2.bLength (hds d' (List.mem_cons_of_mem _ List.mem_cons_self))
    have hnext : (visit switch mem s).configDesc = p + d.length := by
      rw [configDesc_visit hkeeps, hp, hmem]
    have hflat : (d :: d' :: ds).flatten.length = d.length + (d' :: ds).flatten.length := by
      rw [List.flatten_cons, List.length_append]
    have hflat' : (d' :: ds).flatten.length = d'.length + ds.flatten.length := by
      rw [List.flatten_cons, List.length_append]
    have hbound := total.toNat_lt
    have hsum := toNat_currentDescLen_visit hkeeps s
    rw [hnext, hmem'] at hsum
    -- the sum has the lengths of all descriptors up to the next one, without the first nine bytes
    have hlen' : (visit switch mem s).currentDescLen.toNat + 9 = p + d.length + d'.length := by
      omega
    obtain ⟨hpos, hread, hcur, hloop⟩ := ih hlaid.2
      (fun e he => hds e (List.mem_cons_of_mem _ he)) (by omega) hnext hlen'
    refine ⟨hpos, hread, hcur, fun fuel => ?_⟩
    have hgo : ¬ total ≤ (visit switch mem s).currentDescLen := by
      rw [UInt16.le_iff_toNat_le]
      omega
    have hfuel : (d' :: ds).length + 1 + fuel = ds.length + 1 + fuel + 1 := by
      rw [List.length_cons]
      omega
    rw [hfuel, loop, hp, if_neg hzero]
    dsimp only
    rw [if_neg hgo]
    exact hloop fuel

/-! ## What is opened and written -/

/-- The descriptors have a type, and those of interfaces a number. -/
def Typed (ds : List (List UInt8)) : Prop :=
  ∀ d ∈ ds, 2 ≤ d.length ∧ (d[1]? = some 4 → 3 ≤ d.length)

theorem LaidOut.byte {p : ℕ} {d : List UInt8} {ds : List (List UInt8)}
    (h : LaidOut mem p (d :: ds)) {i : ℕ} (hi : i < d.length) : d[i]? = some (mem (p + i)) := by
  rw [List.getElem?_eq_getElem hi, h.1 i hi]

theorem out_visit_openSwitch (s : Walk) : (visit openSwitch mem s).out =
    s.out ++ if mem (s.configDesc + 1) = 5 then [s.configDesc] else [] := by
  show (openSwitch mem (s.load s.configDesc)).out = _
  by_cases h : mem (s.configDesc + 1) = 5 <;> simp [openSwitch, load, h]

/-- The interface of the descriptors behind, and what is written. -/
theorem visit_hidSwitch (hidItf : UInt8) (s : Walk) :
    (visit (hidSwitch hidItf) mem s).curIface =
        (if mem (s.configDesc + 1) = 4 then mem (s.configDesc + 2) else s.curIface) ∧
      (visit (hidSwitch hidItf) mem s).out = s.out ++
        if mem (s.configDesc + 1) = 0x21 ∧ s.curIface = hidItf then [s.configDesc] else [] := by
  show (hidSwitch hidItf mem (s.load s.configDesc)).curIface = _ ∧
    (hidSwitch hidItf mem (s.load s.configDesc)).out = _
  by_cases h4 : mem (s.configDesc + 1) = 4
  · simp [hidSwitch, load, h4]
  · by_cases h21 : mem (s.configDesc + 1) = 0x21 ∧ s.curIface = hidItf <;>
      simp [hidSwitch, load, h4, h21]

theorem out_visits_openSwitch {ds : List (List UInt8)} {p : ℕ} {s : Walk}
    (hlaid : LaidOut mem p ds) (hds : ∀ d ∈ ds, d ≠ [] ∧ Usbd.bLength d = d.length)
    (hty : Typed ds) (hp : s.configDesc = p) :
    (visits openSwitch mem ds s).out = s.out ++ Configuration.endpoints p ds := by
  induction ds generalizing p s with
  | nil => exact (List.append_nil _).symm
  | cons d ds ih =>
    obtain ⟨hmem, -⟩ := hlaid.bLength (hds d List.mem_cons_self)
    have hnext : (visit openSwitch mem s).configDesc = p + d.length := by
      rw [configDesc_visit (keeps_openSwitch mem), hp, hmem]
    have hrest := ih hlaid.2 (fun e he => hds e (List.mem_cons_of_mem _ he))
      (fun e he => hty e (List.mem_cons_of_mem _ he)) hnext
    have htype := hlaid.byte (hty d List.mem_cons_self).1
    show (visits openSwitch mem ds (visit openSwitch mem s)).out = _
    rw [hrest, out_visit_openSwitch, hp, Configuration.endpoints, htype, List.append_assoc]
    simp only [Option.some_inj]

/-- `0xFF` stands for no interface. -/
theorem out_visits_hidSwitch {hidItf : UInt8} (hitf : hidItf ≠ 0xFF) {ds : List (List UInt8)}
    {p : ℕ} {s : Walk} {iface : Option UInt8} (hlaid : LaidOut mem p ds)
    (hds : ∀ d ∈ ds, d ≠ [] ∧ Usbd.bLength d = d.length) (hty : Typed ds) (hp : s.configDesc = p)
    (hiface : s.curIface = iface.getD 0xFF) :
    (visits (hidSwitch hidItf) mem ds s).out =
      s.out ++ Configuration.hids hidItf iface p ds := by
  induction ds generalizing p s iface with
  | nil => exact (List.append_nil _).symm
  | cons d ds ih =>
    obtain ⟨hmem, -⟩ := hlaid.bLength (hds d List.mem_cons_self)
    have hnext : (visit (hidSwitch hidItf) mem s).configDesc = p + d.length := by
      rw [configDesc_visit (keeps_hidSwitch mem hidItf), hp, hmem]
    obtain ⟨hcur, hout⟩ := @visit_hidSwitch mem hidItf s
    obtain ⟨hlen, hlen4⟩ := hty d List.mem_cons_self
    have htype := hlaid.byte hlen
    have hiface' : (visit (hidSwitch hidItf) mem s).curIface =
        (if d[1]? = some 4 then d[2]? else iface).getD 0xFF := by
      rw [hcur, hp, hiface, htype]
      by_cases h4 : mem (p + 1) = 4
      · rw [if_pos h4, if_pos (congrArg some h4),
          hlaid.byte (hlen4 (htype.trans (congrArg some h4)))]
        rfl
      · rw [if_neg h4, if_neg fun h => h4 (Option.some_inj.mp h)]
    -- no interface has the number that stands for none
    have hsame : s.curIface = hidItf ↔ iface = some hidItf := by
      rw [hiface]
      cases iface with
      | none => exact iff_of_false (fun h => hitf h.symm) (fun h => nomatch h)
      | some i => exact Option.some_inj.symm
    have hrest := ih hlaid.2 (fun e he => hds e (List.mem_cons_of_mem _ he))
      (fun e he => hty e (List.mem_cons_of_mem _ he)) hnext hiface'
    show (visits (hidSwitch hidItf) mem ds (visit (hidSwitch hidItf) mem s)).out = _
    rw [hrest, hout, hp, Configuration.hids, htype, List.append_assoc]
    simp only [Option.some_inj, hsame]

end Walk

namespace Configuration

open Walk

variable (c : Configuration) (after : ℕ → UInt8)

theorem mem_of_lt {a : ℕ} (h : a < c.bytes.length) : c.mem after a = c.bytes[a] := dif_pos h

theorem laidOut : LaidOut (c.mem after) 0 (c.head :: c.descs) := by
  refine laidOut_of_flatten fun i hi => ?_
  rw [Nat.zero_add]
  exact c.mem_of_lt after hi

theorem total_mem : (Walk.total (c.mem after)).toNat = c.total := by
  have hbyte : ∀ i < 9, c.mem after i = (c.head[i]?).getD 0 := by
    intro i hi
    have hhead : i < c.head.length := by
      rw [c.length_head]
      exact hi
    have hlen : i < c.bytes.length := by
      rw [bytes, List.flatten_cons, List.length_append]
      omega
    rw [c.mem_of_lt after hlen, List.getElem?_eq_getElem hhead]
    simp only [bytes, List.flatten_cons]
    exact List.getElem_append_left hhead
  have htotal : Walk.total (c.mem after) = wTotalLength c.head := by
    rw [Walk.total, hbyte 3 (by decide), hbyte 2 (by decide)]
    rfl
  rw [htotal, c.total_eq]
  rfl

/-- Where the loop gets with the descriptors of the configuration. -/
theorem loop_start {switch : (ℕ → UInt8) → Walk → Walk} (hkeeps : Keeps switch (c.mem after)) :
    let t := visits switch (c.mem after) (c.head :: c.descs) start
    t.configDesc = c.total ∧ c.total ∈ t.reads ∧
      t.currentDescLen.toNat = (c.total - 9 + (after 0).toNat) % 65536 ∧
      ∀ fuel, loop switch (c.mem after) (Walk.total (c.mem after)) (c.descs.length + 1 + fuel)
          start =
        if Walk.total (c.mem after) ≤ t.currentDescLen then some t
        else loop switch (c.mem after) (Walk.total (c.mem after)) fuel t := by
  have hbehind : c.mem after c.total = after 0 := by
    have hnot : ¬ c.total < c.bytes.length := Nat.lt_irrefl _
    rw [mem, dif_neg hnot]
    exact congrArg after (Nat.sub_self _)
  have htotal := c.total_mem after
  have hstart : start.currentDescLen.toNat + 9 = 0 + c.head.length := by
    rw [c.length_head]
    rfl
  have hsum : 0 + (c.head :: c.descs).flatten.length = (Walk.total (c.mem after)).toNat := by
    rw [Nat.zero_add, htotal]
    rfl
  obtain ⟨hpos, hread, hcur, hloop⟩ := loop_visits hkeeps (c.laidOut after) c.bLength_eq hsum rfl
    hstart
  rw [htotal] at hpos hread hcur
  rw [hbehind] at hcur
  exact ⟨hpos, hread, hcur, hloop⟩

/-- Where the loop ends, it has read the byte behind the configuration. -/
theorem total_mem_reads {switch : (ℕ → UInt8) → Walk → Walk}
    (hkeeps : Keeps switch (c.mem after)) {fuel : ℕ} {s : Walk}
    (h : loop switch (c.mem after) (Walk.total (c.mem after)) fuel start = some s) :
    c.total ∈ s.reads := by
  obtain ⟨-, hread, -, hloop⟩ := c.loop_start after hkeeps
  have hmore := loop_add h (c.descs.length + 1)
  rw [Nat.add_comm, hloop fuel] at hmore
  split_ifs at hmore
  · rw [← Option.some_inj.mp hmore]
    exact hread
  · exact (reads_loop hkeeps hmore).subset hread

/-- The byte behind the configuration ends the loops: it is 0, or the length of a descriptor that
is not shorter than the one that their sum misses, and the sum does not overflow. -/
def EndsBehind : Prop :=
  after 0 = 0 ∨ 9 ≤ (after 0).toNat ∧ c.total - 9 + (after 0).toNat < 65536

theorem loop_ends {switch : (ℕ → UInt8) → Walk → Walk} (hkeeps : Keeps switch (c.mem after))
    (hend : c.EndsBehind after) :
    ∃ fuel s, loop switch (c.mem after) (Walk.total (c.mem after)) fuel start = some s ∧
      s.out = (visits switch (c.mem after) (c.head :: c.descs) start).out := by
  obtain ⟨hpos, -, hcur, hloop⟩ := c.loop_start after hkeeps
  have hnine : 9 ≤ c.total := by
    rw [total, bytes, List.flatten_cons, List.length_append, c.length_head]
    exact Nat.le_add_right _ _
  refine ⟨c.descs.length + 1 + 1, ?_⟩
  rw [hloop 1]
  -- the sum reaches the total length now, or the byte behind is 0 and ends the next turn
  by_cases hstop : Walk.total (c.mem after) ≤
      (visits switch (c.mem after) (c.head :: c.descs) start).currentDescLen
  · exact ⟨_, if_pos hstop, rfl⟩
  · rw [if_neg hstop, loop, hpos]
    have hzero : after 0 = 0 := by
      refine hend.resolve_right fun h => hstop ?_
      rw [UInt16.le_iff_toNat_le, hcur, c.total_mem]
      omega
    have hmem : c.mem after c.total = 0 := by
      have hnot : ¬ c.total < c.bytes.length := Nat.lt_irrefl _
      rw [mem, dif_neg hnot, ← hzero]
      exact congrArg after (Nat.sub_self _)
    exact ⟨_, if_pos hmem, rfl⟩

/-- Then exactly the endpoints of the configuration are opened, in order, and the HID descriptors
of the interface are written. -/
theorem walk_outputs (hty : Typed (c.head :: c.descs)) (hend : c.EndsBehind after) :
    (∃ fuel s, loop openSwitch (c.mem after) (Walk.total (c.mem after)) fuel start = some s ∧
        s.out = endpoints 0 (c.head :: c.descs)) ∧
      ∀ hidItf, hidItf ≠ 0xFF → ∃ fuel s, loop (hidSwitch hidItf) (c.mem after)
        (Walk.total (c.mem after)) fuel start = some s ∧
          s.out = hids hidItf none 0 (c.head :: c.descs) := by
  constructor
  · obtain ⟨fuel, s, hloop, hout⟩ := c.loop_ends after (keeps_openSwitch _) hend
    refine ⟨fuel, s, hloop, ?_⟩
    rw [hout, out_visits_openSwitch (c.laidOut after) c.bLength_eq hty rfl]
    rfl
  · intro hidItf hitf
    obtain ⟨fuel, s, hloop, hout⟩ := c.loop_ends after (keeps_hidSwitch _ hidItf) hend
    have hiface : start.curIface = (none : Option UInt8).getD 0xFF := rfl
    refine ⟨fuel, s, hloop, ?_⟩
    rw [hout, out_visits_hidSwitch hitf (c.laidOut after) c.bLength_eq hty rfl hiface]
    rfl

/-- Both loops read the byte behind the configuration, whatever it and the bytes behind it are. -/
theorem descriptor_walk :
    ¬ SetConfigurationOk c after ∧ ∀ hidItf, ¬ HidRequestOk c after hidItf := by
  constructor
  · rintro ⟨fuel, s, hloop, -, hreads⟩
    have hread := c.total_mem_reads after (keeps_openSwitch _) hloop
    exact Nat.lt_irrefl _ (hreads _ hread)
  · rintro hidItf ⟨fuel, s, hloop, -, -, hreads⟩
    have hread := c.total_mem_reads after (keeps_hidSwitch _ hidItf) hloop
    exact Nat.lt_irrefl _ (hreads _ hread)

/-- A configuration with an endpoint. -/
def oneEndpoint : Configuration where
  head := [9, 2, 16, 0, 1, 1, 0, 0x80, 50]
  descs := [[7, 5, 0x81, 3, 8, 0, 10]]
  length_head := rfl
  type_head := rfl
  bLength_eq := by decide
  total_eq := by decide

/-- Bytes behind the configuration that look like an endpoint descriptor are opened as one. -/
theorem not_descriptor_walk :
    ¬ SetConfigurationOk oneEndpoint (fun a => if a = 0 then 7 else if a = 1 then 5 else 0) := by
  rintro ⟨fuel, s, hloop, hout, -⟩
  have hrun : (loop openSwitch
      (oneEndpoint.mem fun a => if a = 0 then 7 else if a = 1 then 5 else 0) 16 4 start).map
        Walk.out = some [9, 16] := by decide
  obtain ⟨s', hs', hout'⟩ := Option.map_eq_some_iff.mp hrun
  rw [loop_unique hloop hs', hout'] at hout
  exact absurd hout (by decide)

end Configuration

/-! ## The walk over a list

`visited` has the descriptors where the bytes behind the configuration are 0. -/

theorem bLength_drop (desc : List UInt8) (p : ℕ) :
    bLength (desc.drop p) = (desc.getD p 0).toNat := by
  rw [bLength, List.headD_eq_head?_getD, List.head?_drop, List.getD_eq_getElem?_getD]

section

open Walk

variable (desc : List UInt8) (s : Walk)

theorem configDesc_visit_list : (visit openSwitch (fun a => desc.getD a 0) s).configDesc =
    s.configDesc + bLength (desc.drop s.configDesc) := by
  rw [configDesc_visit (keeps_openSwitch _), bLength_drop]

theorem currentDescLen_visit_list :
    (visit openSwitch (fun a => desc.getD a 0) s).currentDescLen = s.currentDescLen +
      UInt16.ofNat
        (bLength (desc.drop (visit openSwitch (fun a => desc.getD a 0) s).configDesc)) := by
  rw [currentDescLen_visit (keeps_openSwitch _), bLength_drop]
  congr 1
  apply UInt16.toNat_inj.mp
  rw [UInt8.toNat_toUInt16, UInt16.toNat_ofNat_of_lt']
  exact Nat.lt_trans (UInt8.toNat_lt _) (by decide)

theorem out_visit_list :
    (visit openSwitch (fun a => desc.getD a 0) s).out.map desc.drop = s.out.map desc.drop ++
      [desc.drop s.configDesc].filter fun d => (d[1]?).getD 0 = 5 := by
  have htype : ((desc.drop s.configDesc)[1]?).getD 0 = desc.getD (s.configDesc + 1) 0 := by
    rw [List.getElem?_drop, ← List.getD_eq_getElem?_getD]
  rw [out_visit_openSwitch, List.map_append, List.filter_singleton, htype]
  by_cases h5 : desc.getD (s.configDesc + 1) 0 = 5 <;> simp only [h5] <;> rfl

theorem loop_visited (total : UInt16) :
    ∃ fuel t, loop openSwitch (fun a => desc.getD a 0) total fuel s = some t ∧
      t.out.map desc.drop = s.out.map desc.drop ++
        (visited (desc.drop s.configDesc) s.currentDescLen total).filter
          fun d => (d[1]?).getD 0 = 5 := by
  -- a turn moves on by the length of the descriptor, so fewer bytes are left
  induction hn : desc.length - s.configDesc using Nat.strong_induction_on generalizing s with
  | _ n ih =>
    have hlen := bLength_drop desc s.configDesc
    rw [visited]
    by_cases hzero : bLength (desc.drop s.configDesc) = 0
    · have hmem : desc.getD s.configDesc 0 = 0 := UInt8.toNat_inj.mp (hlen.symm.trans hzero)
      refine ⟨1, s.load s.configDesc, if_pos hmem, ?_⟩
      rw [if_pos hzero]
      exact (List.append_nil _).symm
    have hmem : ¬ desc.getD s.configDesc 0 = 0 := by
      intro h
      rw [hlen] at hzero
      exact hzero (congrArg UInt8.toNat h)
    have hnext := configDesc_visit_list desc s
    have hcur := currentDescLen_visit_list desc s
    have hout := out_visit_list desc s
    have hdrop : (desc.drop s.configDesc).drop (bLength (desc.drop s.configDesc)) =
        desc.drop (visit openSwitch (fun a => desc.getD a 0) s).configDesc := by
      rw [List.drop_drop, hnext]
    rw [if_neg hzero]
    dsimp only
    rw [hdrop, ← hcur, ← List.singleton_append, List.filter_append, ← List.append_assoc, ← hout]
    generalize hvisit : visit openSwitch (fun a => desc.getD a 0) s = s' at hnext ⊢
    by_cases hstop : total ≤ s'.currentDescLen
    · refine ⟨1, s', ?_, ?_⟩
      · rw [loop, if_neg hmem, hvisit]
        exact if_pos hstop
      · rw [if_pos hstop, List.filter_nil, List.append_nil]
    · have hless : desc.length - s'.configDesc < n := by
        have hin : 0 < desc.length - s.configDesc := by
          rw [← List.length_drop]
          refine List.length_pos_iff.mpr fun hnil => hzero ?_
          rw [hnil]
          rfl
        omega
      obtain ⟨fuel, t, hloop, heq⟩ := ih _ hless s' rfl
      refine ⟨fuel + 1, t, ?_, ?_⟩
      · rw [loop, if_neg hmem, hvisit]
        exact (if_neg hstop).trans hloop
      · rw [if_neg hstop, heq]

end

/-- The endpoint descriptors among those of a list are opened. -/
theorem output_foldl_epOpen (descs : List (List UInt8)) (s : Usbd) :
    (descs.foldl (fun s desc => if (desc[1]?).getD 0 = 5 then s.ask (.epOpen desc) else s)
      s).output = s.output ++ (descs.filter fun d => (d[1]?).getD 0 = 5).map .epOpen := by
  induction descs generalizing s with
  | nil => simp
  | cons d descs ih =>
    rw [List.foldl_cons, ih]
    by_cases h5 : (d[1]?).getD 0 = 5 <;> simp [h5, ask]

/-- The memory of a configuration with zeros behind it. -/
theorem Configuration.mem_zeros (c : Configuration) :
    (c.mem fun _ => 0) = fun a => c.bytes.getD a 0 := by
  funext a
  rw [Configuration.mem]
  split
  case isTrue h => rw [List.getD_eq_getElem _ _ h]
  case isFalse h => rw [List.getD_eq_default _ _ (Nat.le_of_not_lt h)]

/-- `usbd_set_configuration` of a configuration whose descriptors have types opens its endpoints,
in order. -/
theorem outputs_usbdSetConfiguration (c : Configuration) (hty : Walk.Typed (c.head :: c.descs))
    (app : UsbdApp) (happ : app.configDescriptor = c.bytes) (s : Usbd) :
    (usbdSetConfiguration app s).output = s.output ++
      (Configuration.endpoints 0 (c.head :: c.descs)).map fun p => .epOpen (c.bytes.drop p) := by
  have htotal : Walk.total (c.mem fun _ => 0) = wTotalLength c.bytes := by
    rw [c.mem_zeros]
    simp only [Walk.total, wTotalLength, List.getD_eq_getElem?_getD]
  obtain ⟨⟨fuel, w, hloop, hout⟩, -⟩ := c.walk_outputs (fun _ => 0) hty (Or.inl rfl)
  rw [htotal, c.mem_zeros] at hloop
  obtain ⟨fuel', t, hloop', hvisited⟩ := loop_visited c.bytes Walk.start (wTotalLength c.bytes)
  rw [← Walk.loop_unique hloop hloop', hout] at hvisited
  have hdescs : (visited c.bytes 0 (wTotalLength c.bytes)).filter (fun d => (d[1]?).getD 0 = 5) =
      (Configuration.endpoints 0 (c.head :: c.descs)).map c.bytes.drop := hvisited.symm
  rw [usbdSetConfiguration, happ, output_foldl_epOpen, hdescs, List.map_map]
  rfl

end TlBleSdk.TlUsb
