import Mathlib.Data.List.Basic
import Mathlib.Data.List.GetD
import Mathlib.Data.Nat.ModEq
import Mathlib.Tactic.Common

/-!
# NOR flash

A flash is a byte at each address. Programming can only clear bits: the byte written is
ANDed into the cell. Erasing sets a range of cells to `0xFF`. Data are read back as they
were programmed exactly when every cell could take its byte (`Takes`), in particular over
erased cells.
-/

namespace NorFlash

/-- The content of the flash. -/
abbrev Cells := ℕ → UInt8

/-- Program `data` from `addr` on. The default `0xFF` outside `data` changes nothing. -/
def program (c : Cells) (addr : ℕ) (data : List UInt8) : Cells :=
  fun a => if addr ≤ a then c a &&& data.getD (a - addr) 0xFF else c a

/-- Erase the `size` cells from `addr` on. -/
def erase (c : Cells) (addr size : ℕ) : Cells :=
  fun a => if addr ≤ a ∧ a < addr + size then 0xFF else c a

/-- Read `n` bytes from `addr` on. -/
def read (c : Cells) (addr n : ℕ) : List UInt8 := (List.range n).map fun i => c (addr + i)

/-- All `n` cells from `addr` on are erased. -/
def Erased (c : Cells) (addr n : ℕ) : Prop := ∀ i < n, c (addr + i) = 0xFF

/-- Every cell has the bits that its byte of `data` needs. -/
def Takes (c : Cells) (addr : ℕ) (data : List UInt8) : Prop :=
  ∀ i < data.length, c (addr + i) &&& data.getD i 0xFF = data.getD i 0xFF

instance (c : Cells) (addr n : ℕ) : Decidable (Erased c addr n) :=
  inferInstanceAs (Decidable (∀ i < n, c (addr + i) = 0xFF))

instance (c : Cells) (addr : ℕ) (data : List UInt8) : Decidable (Takes c addr data) :=
  inferInstanceAs
    (Decidable (∀ i < data.length, c (addr + i) &&& data.getD i 0xFF = data.getD i 0xFF))

theorem and_ones (b : UInt8) : b &&& 0xFF = b := UInt8.and_neg_one

theorem ones_and (b : UInt8) : 0xFF &&& b = b := UInt8.neg_one_and

@[simp] theorem length_read (c : Cells) (addr n : ℕ) : (read c addr n).length = n := by
  simp [read]

theorem getD_read (c : Cells) (addr : ℕ) {n i : ℕ} (hi : i < n) (d : UInt8) :
    (read c addr n).getD i d = c (addr + i) := by
  simp [read, List.getD_eq_getElem?_getD, hi]

@[simp] theorem getElem_read (c : Cells) (addr : ℕ) {n i : ℕ} (hi : i < (read c addr n).length) :
    (read c addr n)[i] = c (addr + i) := by
  simp [read]

/-- Cells before or behind the programmed range keep their content. -/
theorem program_of_disjoint (c : Cells) {addr a : ℕ} {data : List UInt8}
    (h : a < addr ∨ addr + data.length ≤ a) : program c addr data a = c a := by
  unfold program
  split
  · rw [List.getD_eq_default _ _ (by omega), and_ones]
  · rfl

/-- A cell of the programmed range keeps the bits it shares with its byte. -/
theorem program_apply (c : Cells) (addr i : ℕ) (data : List UInt8) :
    program c addr data (addr + i) = c (addr + i) &&& data.getD i 0xFF := by
  simp [program]

@[simp] theorem program_nil (c : Cells) (addr : ℕ) : program c addr [] = c := by
  funext a
  exact program_of_disjoint c (by simp; omega)

theorem erase_of_disjoint (c : Cells) {addr size a : ℕ}
    (h : a < addr ∨ addr + size ≤ a) : erase c addr size a = c a := by
  unfold erase
  rw [if_neg (by omega)]

theorem erase_apply (c : Cells) {addr size i : ℕ} (hi : i < size) :
    erase c addr size (addr + i) = 0xFF := by
  unfold erase
  rw [if_pos (by omega)]

theorem Erased.takes {c : Cells} {addr n : ℕ} {data : List UInt8} (h : Erased c addr n)
    (hlen : data.length ≤ n) : Takes c addr data := by
  intro i hi
  rw [h i (by omega), ones_and]

/-- Over cells that take them, data are programmed faithfully. -/
theorem Takes.program_apply {c : Cells} {addr : ℕ} {data : List UInt8}
    (h : Takes c addr data) {i : ℕ} (hi : i < data.length) :
    program c addr data (addr + i) = data.getD i 0xFF := by
  rw [NorFlash.program_apply, h i hi]

/-- Over cells that take them, data read back as they were written. -/
theorem Takes.read_program {c : Cells} {addr : ℕ} {data : List UInt8}
    (h : Takes c addr data) : read (program c addr data) addr data.length = data := by
  refine List.ext_getElem (by simp) fun i hi hi' => ?_
  have hcell := h.program_apply hi'
  simp only [read, List.getElem_map, List.getElem_range]
  rw [hcell, List.getD_eq_getElem _ _ hi']

/-- Reading a range in two parts. -/
theorem read_add (c : Cells) (addr m n : ℕ) :
    read c addr (m + n) = read c addr m ++ read c (addr + m) n := by
  unfold read
  rw [List.range_add, List.map_append, List.map_map]
  congr 1
  apply List.map_congr_left
  intro i _
  show c (addr + (m + i)) = c (addr + m + i)
  rw [Nat.add_assoc]

/-- Two contents that agree on a range read the same there. -/
theorem read_congr {c c' : Cells} {addr n : ℕ} (h : ∀ i < n, c' (addr + i) = c (addr + i)) :
    read c' addr n = read c addr n :=
  List.map_congr_left fun i hi => h i (List.mem_range.mp hi)

theorem Erased.read_eq {c : Cells} {addr n : ℕ} (h : Erased c addr n) :
    read c addr n = List.replicate n 0xFF := by
  apply List.ext_getElem
  · rw [length_read, List.length_replicate]
  · intro i hi _
    rw [getElem_read, List.getElem_replicate]
    exact h i (by rwa [length_read] at hi)

/-! ## Sequences of writes -/

/-- A write of data at an address. -/
abbrev Write := ℕ × List UInt8

/-- The writes, one after the other. -/
def programAll (c : Cells) (ws : List Write) : Cells :=
  ws.foldl (fun c w => program c w.1 w.2) c

/-- The address is outside of the range that is written. -/
def Write.Avoids (w : Write) (a : ℕ) : Prop := a < w.1 ∨ w.1 + w.2.length ≤ a

/-- The ranges of the writes have no address in common. -/
def DisjointWrites (ws : List Write) : Prop :=
  ws.Pairwise fun w w' => w.1 + w.2.length ≤ w'.1 ∨ w'.1 + w'.2.length ≤ w.1

/-- A cell that all writes avoid keeps its content. -/
theorem programAll_of_avoids {ws : List Write} {a : ℕ} (h : ∀ w ∈ ws, w.Avoids a) (c : Cells) :
    programAll c ws a = c a := by
  induction ws generalizing c with
  | nil => rfl
  | cons w ws ih =>
    show programAll (program c w.1 w.2) ws a = c a
    rw [ih (fun w' hw' => h w' (List.mem_cons_of_mem _ hw'))]
    exact program_of_disjoint c (h w List.mem_cons_self)

/-- After writes to disjoint ranges of cells that take them, each reads back. -/
theorem read_programAll {ws : List Write} (hdisj : DisjointWrites ws) {c : Cells}
    (htakes : ∀ w ∈ ws, Takes c w.1 w.2) {w : Write} (hw : w ∈ ws) :
    read (programAll c ws) w.1 w.2.length = w.2 := by
  induction ws generalizing c with
  | nil => cases hw
  | cons w' ws ih =>
    obtain ⟨hhead, htail⟩ := List.pairwise_cons.mp hdisj
    show read (programAll (program c w'.1 w'.2) ws) w.1 w.2.length = w.2
    rcases List.mem_cons.mp hw with rfl | hw
    · -- the later writes avoid this range
      have hkeep : ∀ i < w.2.length, programAll (program c w.1 w.2) ws (w.1 + i) =
          program c w.1 w.2 (w.1 + i) := by
        intro i hi
        apply programAll_of_avoids
        intro v hv
        rcases hhead v hv with hlt | hlt
        · exact .inl (by omega)
        · exact .inr (by omega)
      rw [read_congr hkeep]
      exact (htakes w List.mem_cons_self).read_program
    · -- this write left the cells of the later ones as they were
      apply ih htail _ hw
      intro v hv i hi
      have hcell : program c w'.1 w'.2 (v.1 + i) = c (v.1 + i) := by
        apply program_of_disjoint
        rcases hhead v hv with hlt | hlt
        · exact .inr (by omega)
        · exact .inl (by omega)
      rw [hcell]
      exact htakes v (List.mem_cons_of_mem _ hv) i hi

/-! ## Operations in sequence -/

/-- An operation of the flash. A power cut falls between two of them. -/
inductive Op
  | erase (addr size : ℕ)
  | program (addr : ℕ) (data : List UInt8)

def Op.apply (c : Cells) : Op → Cells
  | .erase addr size => NorFlash.erase c addr size
  | .program addr data => NorFlash.program c addr data

/-- The operations, one after the other. -/
def applyAll (c : Cells) (ops : List Op) : Cells := ops.foldl Op.apply c

/-- The operation changes addresses from `lo` up to `hi` only. -/
def Op.Within (lo hi : ℕ) : Op → Prop
  | .erase addr size => lo ≤ addr ∧ addr + size ≤ hi
  | .program addr data => lo ≤ addr ∧ addr + data.length ≤ hi

@[simp] theorem applyAll_nil (c : Cells) : applyAll c [] = c := rfl

@[simp] theorem applyAll_cons (c : Cells) (op : Op) (ops : List Op) :
    applyAll c (op :: ops) = applyAll (op.apply c) ops := rfl

theorem applyAll_append (c : Cells) (ops ops' : List Op) :
    applyAll c (ops ++ ops') = applyAll (applyAll c ops) ops' := List.foldl_append

theorem Op.Within.apply_eq {op : Op} {lo hi a : ℕ} (h : op.Within lo hi) (ha : a < lo ∨ hi ≤ a)
    (c : Cells) : op.apply c a = c a := by
  cases op with
  | erase addr size =>
    obtain ⟨hlo, hhi⟩ := h
    exact erase_of_disjoint c (by omega)
  | program addr data =>
    obtain ⟨hlo, hhi⟩ := h
    exact program_of_disjoint c (by omega)

/-- Operations in a range leave the cells outside of it as they were. -/
theorem applyAll_of_within {ops : List Op} {lo hi a : ℕ} (h : ∀ op ∈ ops, op.Within lo hi)
    (ha : a < lo ∨ hi ≤ a) (c : Cells) : applyAll c ops a = c a := by
  induction ops generalizing c with
  | nil => rfl
  | cons op ops ih =>
    rw [applyAll_cons, ih fun op' hop' => h op' (List.mem_cons_of_mem _ hop')]
    exact (h op List.mem_cons_self).apply_eq ha c

theorem Op.Within.mono {op : Op} {lo hi lo' hi' : ℕ} (h : op.Within lo hi) (hlo : lo' ≤ lo)
    (hhi : hi ≤ hi') : op.Within lo' hi' := by
  cases op with
  | erase addr size => exact ⟨Nat.le_trans hlo h.1, Nat.le_trans h.2 hhi⟩
  | program addr data => exact ⟨Nat.le_trans hlo h.1, Nat.le_trans h.2 hhi⟩

/-- Programming a list in two parts. -/
theorem program_append (c : Cells) (addr : ℕ) (data data' : List UInt8) :
    program c addr (data ++ data') =
      program (program c addr data) (addr + data.length) data' := by
  funext a
  by_cases hlt : a < addr + data.length
  · -- the second part starts behind this cell
    rw [program_of_disjoint (program c addr data) (.inl hlt)]
    unfold program
    split
    · rw [List.getD_append _ _ _ _ (by omega)]
    · rfl
  · obtain ⟨i, rfl⟩ : ∃ i, a = addr + data.length + i := ⟨a - (addr + data.length), by omega⟩
    have hleft : program c addr (data ++ data') (addr + data.length + i) =
        c (addr + data.length + i) &&& data'.getD i 0xFF := by
      rw [Nat.add_assoc, program_apply, List.getD_append_right _ _ _ _ (by omega),
        Nat.add_sub_cancel_left]
    rw [hleft, program_apply, program_of_disjoint c (.inr (by omega))]

/-- Records of `k` bytes that are read at once are read one by one. -/
theorem read_records {c : Cells} {k : ℕ} {rs : List (List UInt8)} {addr : ℕ}
    (hlen : ∀ r ∈ rs, r.length = k) (h : read c addr (k * rs.length) = rs.flatten) :
    (List.range rs.length).map (fun i => read c (addr + k * i) k) = rs := by
  induction rs generalizing addr with
  | nil => rfl
  | cons r rs ih =>
    rw [List.length_cons, Nat.mul_add_one, Nat.add_comm, read_add, List.flatten_cons] at h
    have hr : r.length = k := hlen r List.mem_cons_self
    obtain ⟨hhead, htail⟩ := List.append_inj h (by rw [length_read, hr])
    rw [List.length_cons, List.range_succ_eq_map, List.map_cons, List.map_map]
    congr 1
    -- the other records, each one further back
    rw [← ih (fun r' hr' => hlen r' (List.mem_cons_of_mem _ hr')) htail, List.length_map,
      List.length_range]
    apply List.map_congr_left
    intro i _
    show read c (addr + k * (i + 1)) k = read c (addr + k + k * i) k
    rw [Nat.mul_add_one, Nat.add_assoc, Nat.add_comm k]

/-! ## Writes one behind the other

The addresses go around at `size`: a write from the address `a` on starts at the cell `a % size`.
-/

/-- The writes follow one another from the address `a` on, and none of them goes around. -/
def Successive (size : ℕ) : ℕ → List Write → Prop
  | _, [] => True
  | a, w :: ws =>
    w.1 = a % size ∧ w.1 + w.2.length ≤ size ∧ Successive size (a + w.2.length) ws

/-- The data of the writes, in their order. -/
def writeData (ws : List Write) : List UInt8 := (ws.map Prod.snd).flatten

@[simp] theorem writeData_cons (w : Write) (ws : List Write) :
    writeData (w :: ws) = w.2 ++ writeData ws := by
  simp [writeData]

/-- A position of a write that does not go around. -/
theorem add_mod_of_le {size a i n : ℕ} (hn : a % size + n ≤ size) (hi : i < n) :
    (a + i) % size = a % size + i := by
  have hlt : a % size + i < size := by omega
  rw [Nat.add_mod, Nat.mod_eq_of_lt (by omega : i < size), Nat.mod_eq_of_lt hlt]

/-- Two addresses that are less than `size` apart are different cells. -/
theorem add_mod_ne {size a i j : ℕ} (hij : i < j) (hj : j < size) :
    (a + i) % size ≠ (a + j) % size := by
  intro h
  have hmod : i ≡ j [MOD size] := Nat.ModEq.add_left_cancel' a h
  rw [Nat.ModEq, Nat.mod_eq_of_lt (by omega), Nat.mod_eq_of_lt hj] at hmod
  omega

/-- Cells that no byte of the writes goes to keep their content. -/
theorem Successive.kept {size a b : ℕ} {ws : List Write} (h : Successive size a ws)
    (hb : ∀ i < (writeData ws).length, b ≠ (a + i) % size) (c : Cells) :
    programAll c ws b = c b := by
  induction ws generalizing a c with
  | nil => rfl
  | cons w ws ih =>
    obtain ⟨haddr, hend, hrest⟩ := h
    rw [writeData_cons, List.length_append] at hb
    show programAll (program c w.1 w.2) ws b = c b
    rw [ih hrest fun i hi => by rw [Nat.add_assoc]; exact hb _ (by omega)]
    apply program_of_disjoint
    by_contra hin
    -- a cell of the first write is one of its bytes
    have hne := hb (b - w.1) (by omega)
    rw [add_mod_of_le (haddr ▸ hend) (by omega), ← haddr] at hne
    omega

/-- Every byte of the writes is ANDed into its cell, however the data are cut. -/
theorem Successive.programAll_apply {size a i : ℕ} {ws : List Write} (h : Successive size a ws)
    (hsize : (writeData ws).length ≤ size) (hi : i < (writeData ws).length) (c : Cells) :
    programAll c ws ((a + i) % size) = c ((a + i) % size) &&& (writeData ws).getD i 0xFF := by
  induction ws generalizing a i c with
  | nil => simp [writeData] at hi
  | cons w ws ih =>
    obtain ⟨haddr, hend, hrest⟩ := h
    rw [writeData_cons, List.length_append] at hsize hi
    rw [writeData_cons]
    show programAll (program c w.1 w.2) ws ((a + i) % size) = _
    by_cases hfirst : i < w.2.length
    · -- the later writes are at other cells
      rw [hrest.kept fun j hj => by rw [Nat.add_assoc]; exact add_mod_ne (by omega) (by omega)]
      rw [add_mod_of_le (haddr ▸ hend) hfirst, ← haddr, program_apply,
        List.getD_append _ _ _ _ hfirst]
    · obtain ⟨j, rfl⟩ : ∃ j, i = w.2.length + j := ⟨i - w.2.length, by omega⟩
      have hkept : program c w.1 w.2 ((a + (w.2.length + j)) % size) =
          c ((a + (w.2.length + j)) % size) := by
        apply program_of_disjoint
        by_contra hin
        -- else the byte would be at a cell of the first write
        have hne := @add_mod_ne size a ((a + (w.2.length + j)) % size - w.1) (w.2.length + j)
          (by omega) (by omega)
        rw [add_mod_of_le (haddr ▸ hend) (by omega), ← haddr] at hne
        omega
      rw [← Nat.add_assoc] at hkept ⊢
      rw [ih hrest (by omega) (by omega), hkept, List.getD_append_right _ _ _ _ (by omega),
        Nat.add_sub_cancel_left]

/-- The cells that the writes are at are those of their bytes. -/
theorem Successive.mem_range_iff {size a b : ℕ} {ws : List Write} (h : Successive size a ws) :
    (∃ w ∈ ws, w.1 ≤ b ∧ b < w.1 + w.2.length) ↔
      ∃ i < (writeData ws).length, b = (a + i) % size := by
  induction ws generalizing a with
  | nil => simp [writeData]
  | cons w ws ih =>
    obtain ⟨haddr, hend, hrest⟩ := h
    rw [haddr] at hend
    rw [List.exists_mem_cons_iff, ih hrest, writeData_cons, List.length_append]
    constructor
    · rintro (⟨hlo, hhi⟩ | ⟨i, hi, rfl⟩)
      · -- the first write does not go around
        refine ⟨b - w.1, by omega, ?_⟩
        rw [add_mod_of_le hend (by omega)]
        omega
      · exact ⟨w.2.length + i, by omega, by rw [Nat.add_assoc]⟩
    · rintro ⟨i, hi, rfl⟩
      by_cases hfirst : i < w.2.length
      · left
        rw [add_mod_of_le hend hfirst]
        omega
      · exact .inr ⟨i - w.2.length, by omega, by congr 1; omega⟩

end NorFlash
