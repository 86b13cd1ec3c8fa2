import Mathlib.Data.List.Basic
import Mathlib.Logic.Function.Basic
import Mathlib.Tactic.Common

/-!
# A registry in a table of slots

A registry is the list of what was accepted, and the id of an entry is its place in it. The table
that implements it has a number of slots that are free or in use: an entry goes to the first free
slot, and none is ever given back. So the slots in use are always the first ones.
-/

namespace Registry

variable {ι β : Type*}

/-- A registration: the id, if the entry is accepted, and the list of the accepted ones. -/
def accept (cap : ℕ) (valid : ι → Bool) (entry : Option ι) (l : List ι) : Option ℕ × List ι :=
  match entry with
  | some x => if valid x ∧ l.length < cap then (some l.length, l ++ [x]) else (none, l)
  | none => (none, l)

theorem accept_of_room {cap : ℕ} {valid : ι → Bool} {l : List ι} {x : ι}
    (h : valid x = true ∧ l.length < cap) :
    accept cap valid (some x) l = (some l.length, l ++ [x]) :=
  if_pos h

theorem accept_of_refused {cap : ℕ} {valid : ι → Bool} {l : List ι} {x : ι}
    (h : ¬ (valid x = true ∧ l.length < cap)) : accept cap valid (some x) l = (none, l) :=
  if_neg h

/-- What is accepted was there before, or it is the valid entry that there was room for. -/
theorem mem_accept {cap : ℕ} {valid : ι → Bool} {entry : Option ι} {l : List ι} {x : ι} :
    x ∈ (accept cap valid entry l).2 ↔
      x ∈ l ∨ entry = some x ∧ valid x = true ∧ l.length < cap := by
  cases entry with
  | none => simp [accept]
  | some y =>
    rw [accept]
    split
    case isTrue hok =>
      rw [List.mem_append, List.mem_singleton, Option.some.injEq]
      constructor
      · rintro (hx | rfl)
        · exact Or.inl hx
        · exact Or.inr ⟨rfl, hok⟩
      · rintro (hx | ⟨rfl, -⟩)
        · exact Or.inl hx
        · exact Or.inr rfl
    case isFalse hno =>
      refine ⟨Or.inl, ?_⟩
      rintro (hx | ⟨heq, hok⟩)
      · exact hx
      · obtain rfl := Option.some.inj heq
        exact absurd hok hno

/-- A slot of the table. -/
structure Slot (ι : Type*) where
  inUse : Bool
  entry : Option ι

/-- The table before the first registration. -/
def empty : ℕ → Slot ι := fun _ => ⟨false, none⟩

/-- The first slot that is free. -/
def firstFree (cap : ℕ) (t : ℕ → Slot ι) : Option ℕ :=
  (List.range cap).find? fun i => !(t i).inUse

/-- The slots hold the entries of the list, one after the other. -/
structure Holds (cap : ℕ) (t : ℕ → Slot ι) (l : List ι) : Prop where
  length_le : l.length ≤ cap
  slot : ∀ i < cap, t i = ⟨decide (i < l.length), l[i]?⟩

variable {cap : ℕ} {t : ℕ → Slot ι} {l : List ι}

theorem holds_empty (cap : ℕ) : Holds cap (empty : ℕ → Slot ι) [] where
  length_le := Nat.zero_le cap
  slot := fun _ _ => rfl

/-- The entries by their places. -/
theorem filterMap_getElem? (f : ι → Option β) {l : List ι} {n : ℕ} (h : l.length ≤ n) :
    ((List.range n).filterMap fun i => l[i]?.bind f) = l.filterMap f := by
  induction l generalizing n with
  | nil => simp
  | cons x l ih =>
    obtain ⟨n, rfl⟩ : ∃ k, n = k + 1 := ⟨n - 1, by rw [List.length_cons] at h; omega⟩
    rw [List.range_succ_eq_map, List.filterMap_cons, List.filterMap_map, List.filterMap_cons]
    have hrest := ih (Nat.le_of_succ_le_succ h)
    cases hx : f x with
    | none => simpa [hx, Function.comp_def] using hrest
    | some y => simpa [hx, Function.comp_def] using hrest

namespace Holds

theorem inUse (h : Holds cap t l) {i : ℕ} (hi : i < cap) :
    (t i).inUse = decide (i < l.length) := by
  rw [h.slot i hi]

theorem entry (h : Holds cap t l) {i : ℕ} (hi : i < cap) : (t i).entry = l[i]? := by
  rw [h.slot i hi]

/-- An id is one of an entry in use, or there is no entry with it. -/
theorem cases (h : Holds cap t l) (i : ℕ) :
    (∃ x, l[i]? = some x ∧ i < l.length ∧ (i < cap ∧ (t i).inUse = true) ∧
      (t i).entry = some x) ∨
      (l[i]? = none ∧ ¬ i < l.length ∧ ¬ (i < cap ∧ (t i).inUse = true)) := by
  by_cases hlt : i < l.length
  · have hi : i < cap := Nat.lt_of_lt_of_le hlt h.length_le
    refine Or.inl ⟨l[i], List.getElem?_eq_getElem hlt, hlt, ⟨hi, ?_⟩, ?_⟩
    · rw [h.inUse hi, decide_eq_true hlt]
    · rw [h.entry hi, List.getElem?_eq_getElem hlt]
  · refine Or.inr ⟨List.getElem?_eq_none (Nat.le_of_not_lt hlt), hlt, ?_⟩
    rintro ⟨hi, huse⟩
    rw [h.inUse hi, decide_eq_true_eq] at huse
    exact hlt huse

/-- The next id is the number of entries. -/
theorem firstFree_eq (h : Holds cap t l) :
    firstFree cap t = if l.length < cap then some l.length else none := by
  split
  case isTrue hlt =>
    rw [firstFree, List.find?_range_eq_some]
    refine ⟨?_, List.mem_range.2 hlt, fun i hi => ?_⟩
    · rw [h.inUse hlt, decide_eq_false (Nat.lt_irrefl _), Bool.not_false]
    · rw [h.inUse (Nat.lt_trans hi hlt), decide_eq_true hi, Bool.not_true, Bool.not_false]
  case isFalse hge =>
    rw [firstFree, List.find?_eq_none]
    intro i hi
    rw [List.mem_range] at hi
    rw [h.inUse hi, decide_eq_true (Nat.lt_of_lt_of_le hi (Nat.le_of_not_lt hge))]
    decide

/-- An entry goes to the first free slot. -/
theorem add (h : Holds cap t l) (hlt : l.length < cap) (x : ι) :
    Holds cap (Function.update t l.length ⟨true, some x⟩) (l ++ [x]) := by
  have hlength : (l ++ [x]).length = l.length + 1 := by simp
  constructor
  case length_le =>
    rw [hlength]
    exact hlt
  case slot =>
    intro i hi
    rw [hlength]
    rcases Nat.lt_trichotomy i l.length with hless | rfl | hmore
    · rw [Function.update_of_ne (Nat.ne_of_lt hless), h.slot i hi, List.getElem?_append_left hless,
        decide_eq_true hless, decide_eq_true (Nat.lt_succ_of_lt hless)]
    · rw [Function.update_self, List.getElem?_concat_length,
        decide_eq_true (Nat.lt_succ_self _)]
    · have hout : (l ++ [x]).length ≤ i := by omega
      rw [Function.update_of_ne (Nat.ne_of_gt hmore), h.slot i hi, List.getElem?_eq_none hout,
        List.getElem?_eq_none (Nat.le_of_lt hmore), decide_eq_false (Nat.lt_asymm hmore),
        decide_eq_false (by omega)]

/-- A count of the slots in use is the number of entries. -/
theorem foldl_count (h : Holds cap t l) :
    (List.range cap).foldl (fun ret i => ret + if (t i).inUse then 1 else 0) 0 = l.length := by
  have hpart : ∀ k ≤ cap, (List.range k).foldl
      (fun ret i => ret + if (t i).inUse then 1 else 0) 0 = min k l.length := by
    intro k hk
    induction k with
    | zero => exact (Nat.zero_min _).symm
    | succ k ih =>
      rw [List.range_succ, List.foldl_append, ih (Nat.le_of_succ_le hk), List.foldl_cons,
        List.foldl_nil, h.inUse hk]
      simp only [decide_eq_true_eq]
      split <;> omega
  rw [hpart cap (Nat.le_refl cap), Nat.min_eq_right h.length_le]

/-- A pass over the table comes to each entry once, in order. -/
theorem filterMap_range (h : Holds cap t l) (f : ι → Option β) :
    ((List.range cap).filterMap fun i => (t i).entry.bind f) = l.filterMap f := by
  rw [← filterMap_getElem? f h.length_le]
  refine List.filterMap_congr fun i hi => ?_
  rw [h.entry (List.mem_range.1 hi)]

end Holds

end Registry
