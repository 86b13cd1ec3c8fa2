import Mathlib.Data.List.Basic
import Mathlib.Data.Nat.ModEq
import Mathlib.Logic.Function.Basic
import Mathlib.Tactic.Common

/-!
# Ring buffers with free-running pointers

A ring of `num` slots is addressed by two pointers that count modulo `P` and are reduced
to a slot index modulo `num`, where `num` divides `P`. `Tracks` relates the slots and the
pointers to the history of the ring: the list of everything ever pushed and the number of
items already taken out. The pointers wrap, the history does not; every fact about the
ring is read off the history. `Holds` is the same for the items that wait, where what was
taken does not matter.
-/

namespace Ring

variable {α : Type*}

/-- The slots and pointers of a ring into which `hist` was pushed and from which the
first `taken` items were taken. -/
structure Tracks (P num : ℕ) (slots : ℕ → α) (wptr rptr : ℕ) (hist : List α)
    (taken : ℕ) : Prop where
  wptr_eq : wptr = hist.length % P
  rptr_eq : rptr = taken % P
  taken_le : taken ≤ hist.length
  room : hist.length ≤ taken + num
  slot : ∀ i (h : i < hist.length), taken ≤ i → slots (i % num) = hist[i]

/-- Two counters less than `num` apart have different slots. -/
theorem mod_ne_of_lt {num i j : ℕ} (hij : i < j) (hj : j < i + num) : i % num ≠ j % num := by
  intro h
  have hdvd : num ∣ j - i := (Nat.modEq_iff_dvd' hij.le).mp h
  have hle := Nat.le_of_dvd (by omega) hdvd
  omega

variable {P num : ℕ} {slots : ℕ → α} {wptr rptr : ℕ} {hist : List α} {taken : ℕ}

/-- The pointer difference is the number of items, as long as there are less than the pointers
count. -/
theorem Tracks.used_eq_of_lt (h : Tracks P num slots wptr rptr hist taken)
    (hlt : hist.length - taken < P) : (wptr + P - rptr) % P = hist.length - taken := by
  obtain ⟨hw, hr, hle, -, -⟩ := h
  obtain ⟨d, hd⟩ := Nat.exists_eq_add_of_le hle
  have hdP : d < P := by omega
  have hrlt : taken % P < P := Nat.mod_lt _ (by omega)
  rw [hw, hr, hd, Nat.add_sub_cancel_left, Nat.add_mod, Nat.mod_eq_of_lt hdP]
  rcases Nat.lt_or_ge (taken % P + d) P with hlt | hge
  · rw [Nat.mod_eq_of_lt hlt, show taken % P + d + P - taken % P = d + P by omega,
      Nat.add_mod_right, Nat.mod_eq_of_lt hdP]
  · rw [Nat.mod_eq_sub_mod hge, Nat.mod_eq_of_lt (show taken % P + d - P < P by omega),
      show taken % P + d - P + P - taken % P = d by omega, Nat.mod_eq_of_lt hdP]

/-- The pointer difference is the number of items in the ring. -/
theorem Tracks.used_eq (h : Tracks P num slots wptr rptr hist taken) (hP : num < P) :
    (wptr + P - rptr) % P = hist.length - taken := by
  have hroom := h.room
  exact h.used_eq_of_lt (by omega)

/-- The pointers agree exactly when the ring is empty. -/
theorem Tracks.wptr_eq_rptr_iff (h : Tracks P num slots wptr rptr hist taken) (hP : num < P) :
    wptr = rptr ↔ hist.length = taken := by
  have hused := h.used_eq hP
  have hw := h.wptr_eq
  have hr := h.rptr_eq
  have hle := h.taken_le
  constructor
  · intro heq
    rw [heq, Nat.add_sub_cancel_left, Nat.mod_self] at hused
    omega
  · intro heq
    rw [hw, hr, heq]

/-- Pushing into a free slot. -/
theorem Tracks.push (h : Tracks P num slots wptr rptr hist taken) (hdvd : num ∣ P)
    (hfree : hist.length < taken + num) (x : α) :
    Tracks P num (Function.update slots (wptr % num) x) ((wptr + 1) % P) rptr
      (hist ++ [x]) taken := by
  have hw : wptr % num = hist.length % num := by
    rw [h.wptr_eq, Nat.mod_mod_of_dvd _ hdvd]
  refine ⟨?_, h.rptr_eq, ?_, ?_, ?_⟩
  · rw [h.wptr_eq, List.length_append, List.length_singleton, Nat.mod_add_mod]
  · have := h.taken_le
    simp only [List.length_append, List.length_singleton]
    omega
  · simp only [List.length_append, List.length_singleton]
    omega
  · intro i hi htaken
    simp only [List.length_append, List.length_singleton] at hi
    rw [hw]
    rcases Nat.lt_or_ge i hist.length with hlt | hge
    · rw [Function.update_of_ne (mod_ne_of_lt hlt (by omega)), h.slot i hlt htaken,
        List.getElem_append_left hlt]
    · obtain rfl : i = hist.length := by omega
      rw [Function.update_self, List.getElem_concat_length rfl]

/-- Pushing several items at once: `slots'` has them behind the last one. -/
theorem Tracks.append (h : Tracks P num slots wptr rptr hist taken) (hdvd : num ∣ P)
    {xs : List α} (hfree : hist.length + xs.length ≤ taken + num) {slots' : ℕ → α}
    (hnew : ∀ i (hi : i < xs.length), slots' ((wptr + i) % num) = xs[i])
    (hold : ∀ i < hist.length, taken ≤ i → slots' (i % num) = slots (i % num)) :
    Tracks P num slots' ((wptr + xs.length) % P) rptr (hist ++ xs) taken := by
  refine ⟨?_, h.rptr_eq, ?_, ?_, ?_⟩
  · rw [h.wptr_eq, List.length_append, Nat.mod_add_mod]
  · have := h.taken_le
    rw [List.length_append]
    omega
  · rw [List.length_append]
    exact hfree
  · intro i hi htaken
    rw [List.length_append] at hi
    rcases Nat.lt_or_ge i hist.length with hlt | hge
    · rw [hold i hlt htaken, h.slot i hlt htaken, List.getElem_append_left hlt]
    · have hmod : (wptr + (i - hist.length)) % num = i % num := by
        rw [h.wptr_eq, Nat.add_mod, Nat.mod_mod_of_dvd _ hdvd, ← Nat.add_mod,
          Nat.add_sub_cancel' hge]
      rw [List.getElem_append_right hge, ← hnew (i - hist.length) (by omega), hmod]

/-- Writing to the slot behind the last item. -/
theorem Tracks.write (h : Tracks P num slots wptr rptr hist taken) (hdvd : num ∣ P)
    (hfree : hist.length < taken + num) (x : α) :
    Tracks P num (Function.update slots (wptr % num) x) wptr rptr hist taken where
  wptr_eq := h.wptr_eq
  rptr_eq := h.rptr_eq
  taken_le := h.taken_le
  room := h.room
  slot i hi htaken := by
    rw [h.wptr_eq, Nat.mod_mod_of_dvd _ hdvd, Function.update_of_ne (mod_ne_of_lt hi (by omega)),
      h.slot i hi htaken]

/-- Slots that agree where there are items. -/
theorem Tracks.congr (h : Tracks P num slots wptr rptr hist taken) {slots' : ℕ → α}
    (hslots : ∀ i < hist.length, taken ≤ i → slots' (i % num) = slots (i % num)) :
    Tracks P num slots' wptr rptr hist taken where
  wptr_eq := h.wptr_eq
  rptr_eq := h.rptr_eq
  taken_le := h.taken_le
  room := h.room
  slot i hi htaken := (hslots i hi htaken).trans (h.slot i hi htaken)

/-- Taking the `k` oldest items. -/
theorem Tracks.take (h : Tracks P num slots wptr rptr hist taken) {k : ℕ}
    (hk : taken + k ≤ hist.length) :
    Tracks P num slots wptr ((rptr + k) % P) hist (taken + k) where
  wptr_eq := h.wptr_eq
  rptr_eq := by rw [h.rptr_eq, Nat.mod_add_mod]
  taken_le := hk
  room := by have := h.room; omega
  slot i hi htaken := h.slot i hi (by omega)

/-- The slot of the `k`-th oldest item holds it. -/
theorem Tracks.slot_eq (h : Tracks P num slots wptr rptr hist taken) (hdvd : num ∣ P) {k : ℕ}
    (hk : taken + k < hist.length) : slots ((rptr + k) % num) = hist[taken + k] := by
  have hmod : (rptr + k) % num = (taken + k) % num := by
    rw [h.rptr_eq, Nat.add_mod, Nat.mod_mod_of_dvd _ hdvd, ← Nat.add_mod]
  rw [hmod]
  exact h.slot (taken + k) hk (by omega)

/-- The slot of an item, counted from the read pointer. -/
theorem Tracks.slot_index (h : Tracks P num slots wptr rptr hist taken) (hdvd : num ∣ P) {i : ℕ}
    (htaken : taken ≤ i) : (rptr + (i - taken)) % num = i % num := by
  rw [h.rptr_eq, Nat.add_mod, Nat.mod_mod_of_dvd _ hdvd, ← Nat.add_mod]
  congr 1
  omega

/-- An empty ring. -/
theorem Tracks.empty (P num : ℕ) (slots : ℕ → α) :
    Tracks P num slots 0 0 ([] : List α) 0 where
  wptr_eq := (Nat.zero_mod P).symm
  rptr_eq := (Nat.zero_mod P).symm
  taken_le := le_rfl
  room := Nat.zero_le _
  slot i hi _ := absurd hi (Nat.not_lt_zero i)

/-! ## What waits in a ring -/

/-- The items `q` wait in the ring, the oldest first. -/
def Holds (P num : ℕ) (slots : ℕ → α) (wptr rptr : ℕ) (q : List α) : Prop :=
  ∃ hist taken, Tracks P num slots wptr rptr hist taken ∧ q = hist.drop taken

namespace Holds

variable {q : List α} {x : α}

theorem empty (P num : ℕ) (slots : ℕ → α) : Holds P num slots 0 0 [] :=
  ⟨[], 0, .empty P num slots, rfl⟩

theorem length_le (h : Holds P num slots wptr rptr q) : q.length ≤ num := by
  obtain ⟨hist, taken, ht, rfl⟩ := h
  have hroom := ht.room
  rw [List.length_drop]
  omega

theorem used_eq (h : Holds P num slots wptr rptr q) (hP : num < P) :
    (wptr + P - rptr) % P = q.length := by
  obtain ⟨hist, taken, ht, rfl⟩ := h
  rw [ht.used_eq hP, List.length_drop]

theorem used_eq_of_lt (h : Holds P num slots wptr rptr q) (hlt : q.length < P) :
    (wptr + P - rptr) % P = q.length := by
  obtain ⟨hist, taken, ht, rfl⟩ := h
  rw [List.length_drop] at hlt ⊢
  exact ht.used_eq_of_lt hlt

/-- The pointers stay below their modulus. -/
theorem ptr_lt (h : Holds P num slots wptr rptr q) (hP : 0 < P) : wptr < P ∧ rptr < P := by
  obtain ⟨hist, taken, ht, -⟩ := h
  rw [ht.wptr_eq, ht.rptr_eq]
  exact ⟨Nat.mod_lt _ hP, Nat.mod_lt _ hP⟩

theorem nil_iff (h : Holds P num slots wptr rptr q) (hP : num < P) : rptr = wptr ↔ q = [] := by
  obtain ⟨hist, taken, ht, rfl⟩ := h
  have hle := ht.taken_le
  rw [eq_comm, ht.wptr_eq_rptr_iff hP, List.drop_eq_nil_iff]
  omega

theorem push (h : Holds P num slots wptr rptr q) (hdvd : num ∣ P) (hfree : q.length < num)
    (x : α) :
    Holds P num (Function.update slots (wptr % num) x) ((wptr + 1) % P) rptr (q ++ [x]) := by
  obtain ⟨hist, taken, ht, rfl⟩ := h
  have hle := ht.taken_le
  rw [List.length_drop] at hfree
  exact ⟨hist ++ [x], taken, ht.push hdvd (by omega) x,
    (List.drop_append_of_le_length hle).symm⟩

/-- Several items at once go behind those that wait. -/
theorem append (h : Holds P num slots wptr rptr q) (hdvd : num ∣ P) {xs : List α}
    (hfree : q.length + xs.length ≤ num) {slots' : ℕ → α}
    (hnew : ∀ i (hi : i < xs.length), slots' ((wptr + i) % num) = xs[i])
    (hold : ∀ k < q.length, slots' ((rptr + k) % num) = slots ((rptr + k) % num)) :
    Holds P num slots' ((wptr + xs.length) % P) rptr (q ++ xs) := by
  obtain ⟨hist, taken, ht, rfl⟩ := h
  have hle := ht.taken_le
  rw [List.length_drop] at hfree
  refine ⟨hist ++ xs, taken, ht.append hdvd (by omega) hnew fun i hi htaken => ?_,
    (List.drop_append_of_le_length hle).symm⟩
  have hk := hold (i - taken) (by rw [List.length_drop]; omega)
  rwa [ht.slot_index hdvd htaken] at hk

/-- The `k` oldest items go. -/
theorem drop (h : Holds P num slots wptr rptr q) {k : ℕ} (hk : k ≤ q.length) :
    Holds P num slots wptr ((rptr + k) % P) (q.drop k) := by
  obtain ⟨hist, taken, ht, rfl⟩ := h
  have hle := ht.taken_le
  rw [List.length_drop] at hk
  exact ⟨hist, taken + k, ht.take (by omega), List.drop_drop⟩

theorem tail (h : Holds P num slots wptr rptr (x :: q)) :
    Holds P num slots wptr ((rptr + 1) % P) q :=
  h.drop (Nat.le_add_left 1 q.length)

theorem head (h : Holds P num slots wptr rptr (x :: q)) (hdvd : num ∣ P) :
    slots (rptr % num) = x := by
  obtain ⟨hist, taken, ht, hq⟩ := h
  have hlt : taken < hist.length := by
    have hlen := congrArg List.length hq
    rw [List.length_drop, List.length_cons] at hlen
    omega
  rw [List.drop_eq_getElem_cons hlt] at hq
  rw [(List.cons.inj hq).1]
  exact ht.slot_eq hdvd (k := 0) hlt

/-- The slot of the `k`-th oldest item holds it. -/
theorem slot_eq (h : Holds P num slots wptr rptr q) (hdvd : num ∣ P) {k : ℕ} (hk : k < q.length) :
    slots ((rptr + k) % num) = q[k] := by
  obtain ⟨hist, taken, ht, rfl⟩ := h
  rw [List.length_drop] at hk
  rw [List.getElem_drop]
  exact ht.slot_eq hdvd (by omega)

/-- The write pointer is as far ahead of the read pointer as there are items. -/
theorem wptr_mod (h : Holds P num slots wptr rptr q) (hdvd : num ∣ P) :
    wptr % num = (rptr + q.length) % num := by
  obtain ⟨hist, taken, ht, rfl⟩ := h
  have hle := ht.taken_le
  rw [ht.wptr_eq, ht.rptr_eq, List.length_drop, Nat.mod_mod_of_dvd _ hdvd, Nat.add_mod,
    Nat.mod_mod_of_dvd _ hdvd, ← Nat.add_mod]
  congr 1
  omega

/-- Slots that agree where there are items. -/
theorem congr (h : Holds P num slots wptr rptr q) (hdvd : num ∣ P) {slots' : ℕ → α}
    (hslots : ∀ k < q.length, slots' ((rptr + k) % num) = slots ((rptr + k) % num)) :
    Holds P num slots' wptr rptr q := by
  obtain ⟨hist, taken, ht, rfl⟩ := h
  refine ⟨hist, taken, ht.congr fun i hi htaken => ?_, rfl⟩
  have hk := hslots (i - taken) (by rw [List.length_drop]; omega)
  rwa [ht.slot_index hdvd htaken] at hk

/-- A full ring loses its oldest item to a new one. -/
theorem overwrite (h : Holds P num slots wptr rptr q) (hdvd : num ∣ P) (hnum : 0 < num)
    (hfull : q.length = num) (x : α) :
    Holds P num (Function.update slots (wptr % num) x) ((wptr + 1) % P) ((rptr + 1) % P)
      (q.tail ++ [x]) := by
  cases q with
  | nil => exact absurd hfull hnum.ne
  | cons y q =>
    rw [List.length_cons] at hfull
    exact h.tail.push hdvd (by omega) x

/-- The slots from the read pointer on. -/
theorem eq_window (h : Holds P num slots wptr rptr q) (hdvd : num ∣ P) (hP : num < P) :
    (List.range ((wptr + P - rptr) % P)).map (fun k => slots ((rptr + k) % num)) = q := by
  have hused := h.used_eq hP
  obtain ⟨hist, taken, ht, rfl⟩ := h
  rw [hused]
  apply List.ext_getElem
  · simp
  intro k hk hk'
  rw [List.length_drop] at hk'
  rw [List.getElem_map, List.getElem_range, List.getElem_drop]
  exact ht.slot_eq hdvd (by omega)

end Holds
end Ring
