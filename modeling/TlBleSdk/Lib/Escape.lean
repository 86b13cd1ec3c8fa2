import Mathlib.Data.List.Basic
import Mathlib.Data.List.Count
import Mathlib.Tactic.Common

/-!
# Escape sequences

A sender that must not put certain symbols on the wire replaces each of them by an escape
symbol and a code symbol (`stuff`); the receiver undoes it (`unstuff`). A `Code` carries
what makes this work: the escape symbol is itself replaced, and the receiver's table inverts
the sender's. The receiver may know more codes than the sender uses.
-/

/-- The codes of a sender and of its receiver. -/
structure EscapeCode (α : Type*) where
  /-- The escape symbol. -/
  esc : α
  /-- The code of a symbol that the sender replaces. -/
  code : α → Option α
  /-- The symbol that the receiver takes a code for. -/
  uncode : α → Option α
  code_esc : (code esc).isSome
  uncode_code : ∀ {x y}, code x = some y → uncode y = some x

namespace EscapeCode

variable {α : Type*} (c : EscapeCode α)

/-- The symbols on the wire for one symbol. -/
def stuffOne (x : α) : List α :=
  match c.code x with
  | some y => [c.esc, y]
  | none => [x]

/-- The symbols on the wire. -/
def stuff (l : List α) : List α := l.flatMap c.stuffOne

/-- What the receiver makes of the symbols on the wire, unless it does not know a code. -/
def unstuff [DecidableEq α] : List α → Option (List α)
  | [] => some []
  | [x] => if x = c.esc then none else some [x]
  | x :: y :: l =>
    if x = c.esc then (c.uncode y).bind fun z => (unstuff l).map (z :: ·)
    else (unstuff (y :: l)).map (x :: ·)

@[simp] theorem stuff_nil : c.stuff [] = [] := rfl

theorem stuff_cons (x : α) (l : List α) : c.stuff (x :: l) = c.stuffOne x ++ c.stuff l :=
  List.flatMap_cons

variable {c}

theorem stuffOne_of_some {x y : α} (h : c.code x = some y) : c.stuffOne x = [c.esc, y] := by
  simp only [stuffOne, h]

theorem stuffOne_of_none {x : α} (h : c.code x = none) : c.stuffOne x = [x] := by
  simp only [stuffOne, h]

/-- A symbol that is not replaced is not the escape symbol. -/
theorem ne_esc_of_none {x : α} (h : c.code x = none) : x ≠ c.esc := by
  rintro rfl
  have := c.code_esc
  simp [h] at this

/-! ### What the receiver takes

Where the escape symbol is no code, its places alone say whether the receiver knows what is
on the wire, and how long the result is. -/

/-- Behind each escape symbol there is a code. -/
def Valid (c : EscapeCode α) (l : List α) : Prop :=
  ∀ i, l[i]? = some c.esc → ∃ y, l[i + 1]? = some y ∧ (c.uncode y).isSome

theorem valid_nil : c.Valid [] := by
  intro i hi
  cases hi

theorem valid_cons_of_ne {x : α} (h : x ≠ c.esc) (l : List α) : c.Valid (x :: l) ↔ c.Valid l := by
  constructor
  · intro hv i hi
    exact hv (i + 1) hi
  · intro hv i hi
    cases i with
    | zero => exact absurd (Option.some.inj hi) h
    | succ i => exact hv i hi

theorem valid_singleton : ¬ c.Valid [c.esc] := by
  intro hv
  obtain ⟨y, hy, -⟩ := hv 0 rfl
  cases hy

theorem valid_esc (hesc : c.uncode c.esc = none) (y : α) (l : List α) :
    c.Valid (c.esc :: y :: l) ↔ (c.uncode y).isSome ∧ c.Valid l := by
  constructor
  · intro hv
    obtain ⟨z, hz, hsome⟩ := hv 0 rfl
    cases hz
    exact ⟨hsome, fun i hi => hv (i + 2) hi⟩
  · rintro ⟨hsome, hv⟩ i hi
    match i with
    | 0 => exact ⟨y, rfl, hsome⟩
    | 1 =>
      -- The code itself is not the escape symbol.
      rw [Option.some.inj hi, hesc] at hsome
      cases hsome
    | i + 2 => exact hv i hi

section unstuff

variable [DecidableEq α]

theorem unstuff_esc {y z : α} (h : c.uncode y = some z) (l : List α) :
    c.unstuff (c.esc :: y :: l) = (c.unstuff l).map (z :: ·) := by
  rw [unstuff, if_pos rfl, h, Option.bind_some]

theorem unstuff_cons_of_ne {x : α} (h : x ≠ c.esc) (l : List α) :
    c.unstuff (x :: l) = (c.unstuff l).map (x :: ·) := by
  cases l with
  | nil => simp [unstuff, h]
  | cons y l => rw [unstuff, if_neg h]

/-- The receiver gets back what the sender stuffed. -/
@[simp] theorem unstuff_stuff (l : List α) : c.unstuff (c.stuff l) = some l := by
  induction l with
  | nil => rfl
  | cons x l ih =>
    rw [stuff_cons]
    cases h : c.code x with
    | some y =>
      rw [stuffOne_of_some h, List.cons_append, List.cons_append, List.nil_append,
        unstuff_esc (c.uncode_code h), ih, Option.map_some]
    | none =>
      rw [stuffOne_of_none h, List.cons_append, List.nil_append,
        unstuff_cons_of_ne (ne_esc_of_none h), ih, Option.map_some]

/-- The receiver knows what is on the wire exactly if there is a code behind each escape
symbol. -/
theorem isSome_unstuff_iff (hesc : c.uncode c.esc = none) (l : List α) :
    (c.unstuff l).isSome ↔ c.Valid l := by
  induction l using EscapeCode.unstuff.induct (c := c) with
  | case1 => simp [unstuff, valid_nil]
  | case2 => simp [unstuff, valid_singleton]
  | case3 x hx => simp [unstuff, hx, valid_cons_of_ne hx, valid_nil]
  | case4 y l ih =>
    rw [valid_esc hesc, ← ih]
    cases h : c.uncode y with
    | none => simp [unstuff, h]
    | some z => rw [unstuff_esc h, Option.isSome_map]; simp
  | case5 x y l hx ih => rw [unstuff_cons_of_ne hx, Option.isSome_map, valid_cons_of_ne hx, ih]

/-- Each escape symbol takes a place on the wire that the result does not have. -/
theorem length_of_unstuff (hesc : c.uncode c.esc = none) {l m : List α}
    (h : c.unstuff l = some m) : m.length + l.count c.esc = l.length := by
  induction l using EscapeCode.unstuff.induct (c := c) generalizing m with
  | case1 =>
    cases h
    rfl
  | case2 => simp [unstuff] at h
  | case3 x hx =>
    rw [unstuff_cons_of_ne hx] at h
    cases h
    rw [List.count_cons_of_ne hx]
    rfl
  | case4 y l ih =>
    cases hy : c.uncode y with
    | none => simp [unstuff, hy] at h
    | some z =>
      rw [unstuff_esc hy] at h
      obtain ⟨m', hm', rfl⟩ := Option.map_eq_some_iff.mp h
      have hne : y ≠ c.esc := by
        rintro rfl
        simp [hesc] at hy
      rw [List.count_cons_self, List.count_cons_of_ne hne, List.length_cons, List.length_cons,
        List.length_cons, ← ih hm']
      omega
  | case5 x y l hx ih =>
    rw [unstuff_cons_of_ne hx] at h
    obtain ⟨m', hm', rfl⟩ := Option.map_eq_some_iff.mp h
    rw [List.count_cons_of_ne hx, List.length_cons, List.length_cons (a := x), ← ih hm']
    omega

end unstuff

/-- A symbol on the wire is an unreplaced one, the escape symbol or a code. -/
theorem mem_stuff {l : List α} {x : α} (h : x ∈ c.stuff l) :
    c.code x = none ∨ x = c.esc ∨ ∃ z, c.code z = some x := by
  obtain ⟨z, -, hx⟩ := List.mem_flatMap.mp h
  cases hz : c.code z with
  | some y =>
    rw [stuffOne_of_some hz] at hx
    rcases List.mem_cons.mp hx with rfl | hx
    · exact .inr (.inl rfl)
    · rw [List.mem_singleton] at hx
      exact .inr (.inr ⟨z, hx ▸ hz⟩)
  | none =>
    rw [stuffOne_of_none hz, List.mem_singleton] at hx
    exact .inl (hx ▸ hz)

/-- Each replaced symbol takes one more place on the wire. -/
theorem length_stuff (l : List α) :
    (c.stuff l).length = l.length + l.countP fun x => (c.code x).isSome := by
  induction l with
  | nil => rfl
  | cons x l ih =>
    rw [stuff_cons, List.length_append, ih, List.countP_cons, List.length_cons]
    cases h : c.code x with
    | some y =>
      rw [stuffOne_of_some h]
      simp
      omega
    | none =>
      rw [stuffOne_of_none h]
      simp
      omega

end EscapeCode
