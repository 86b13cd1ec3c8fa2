import Mathlib.Data.List.Basic
import Mathlib.Data.List.Nodup
import Mathlib.Logic.Function.Basic
import Mathlib.Tactic.Common

/-!
# Linked lists

A memory gives each node its `next` pointer. `Seg null next p l q` says that the pointer `p`
leads through the nodes `l` to `q`; with `q = null` it is a whole list. A segment depends on
the `next` pointers of its own nodes only (`Seg.congr`), so an update is described by where
it changes them: `Seg.insert_after` and `Seg.unlink_after` are the two edits behind a node,
`Seg.push` the one at the front.

`scan` is the loop that walks along a list with a second pointer one node behind, and stops
at the end or at the first node that satisfies a condition.
-/

namespace LinkedList

variable {α : Type*} (null : α)

/-- The pointer `p` leads through the nodes `l` to `q`. -/
def Seg (next : α → α) : α → List α → α → Prop
  | p, [], q => p = q
  | p, x :: l, q => p = x ∧ x ≠ null ∧ Seg next (next x) l q

/-- The walk from `cur`, with `prev` one node behind: where it stops. A walk of `fuel` nodes is
given up. -/
def scan (next : α → α) [DecidableEq α] (stop : α → Bool) : ℕ → α → α → Option (α × α)
  | 0, _, _ => none
  | fuel + 1, prev, cur =>
    if cur = null ∨ stop cur = true then some (prev, cur) else scan next stop fuel cur (next cur)

variable {null} {next next' : α → α} {p q x y : α} {l l₁ l₂ : List α}

@[simp] theorem seg_nil : Seg null next p [] q ↔ p = q := Iff.rfl

@[simp] theorem seg_cons :
    Seg null next p (x :: l) q ↔ p = x ∧ x ≠ null ∧ Seg null next (next x) l q := Iff.rfl

theorem seg_append :
    Seg null next p (l₁ ++ l₂) q ↔ ∃ r, Seg null next p l₁ r ∧ Seg null next r l₂ q := by
  induction l₁ generalizing p with
  | nil => simp
  | cons x l₁ ih => simp only [List.cons_append, seg_cons, ih, exists_and_left, and_assoc]

/-- A segment depends on the `next` pointers of its own nodes. -/
theorem Seg.congr (h : Seg null next p l q) (hnext : ∀ z ∈ l, next' z = next z) :
    Seg null next' p l q := by
  induction l generalizing p with
  | nil => exact h
  | cons x l ih =>
    obtain ⟨hp, hx, hl⟩ := h
    refine ⟨hp, hx, ?_⟩
    rw [hnext x List.mem_cons_self]
    exact ih hl fun z hz => hnext z (List.mem_cons_of_mem _ hz)

theorem Seg.ne_null (h : Seg null next p l q) (hx : x ∈ l) : x ≠ null := by
  induction l generalizing p with
  | nil => cases hx
  | cons y l ih =>
    obtain ⟨-, hy, hl⟩ := h
    rcases List.mem_cons.mp hx with rfl | hx
    · exact hy
    · exact ih hl hx

/-- A segment starts at its first node. -/
theorem Seg.eq_headD (h : Seg null next p l q) : p = l.headD q := by
  cases l with
  | nil => exact h
  | cons x l => exact h.1

theorem Seg.ptr_eq_null_iff (h : Seg null next p l null) : p = null ↔ l = [] := by
  cases l with
  | nil => simpa using h
  | cons x l => simpa [h.1] using h.2.1

/-! ## Edits -/

/-- A node in front of the list. -/
theorem Seg.push (h : Seg null next p l q) (hx : x ≠ null) (hfront : next' x = p)
    (hnext : ∀ z ∈ l, next' z = next z) : Seg null next' x (x :: l) q := by
  refine ⟨rfl, hx, ?_⟩
  rw [hfront]
  exact h.congr hnext

/-- A node behind `y`. -/
theorem Seg.insert_after (h : Seg null next p (l₁ ++ y :: l₂) q) (hx : x ≠ null)
    (hy : next' y = x) (hx' : next' x = next y) (hnext : ∀ z ∈ l₁ ++ l₂, next' z = next z) :
    Seg null next' p (l₁ ++ y :: x :: l₂) q := by
  obtain ⟨r, h₁, rfl, hy', h₂⟩ := seg_append.mp h
  refine seg_append.mpr ⟨r, h₁.congr fun z hz => hnext z (List.mem_append_left _ hz), rfl, hy', ?_⟩
  rw [hy]
  refine ⟨rfl, hx, ?_⟩
  rw [hx']
  exact h₂.congr fun z hz => hnext z (List.mem_append_right _ hz)

/-- The node behind `y` is taken out. -/
theorem Seg.unlink_after (h : Seg null next p (l₁ ++ y :: x :: l₂) q) (hy : next' y = next x)
    (hnext : ∀ z ∈ l₁ ++ l₂, next' z = next z) : Seg null next' p (l₁ ++ y :: l₂) q := by
  obtain ⟨r, h₁, rfl, hy', -, -, h₂⟩ := seg_append.mp h
  refine seg_append.mpr ⟨r, h₁.congr fun z hz => hnext z (List.mem_append_left _ hz), rfl, hy', ?_⟩
  rw [hy]
  exact h₂.congr fun z hz => hnext z (List.mem_append_right _ hz)

/-! ## The walk -/

/-- A walk along a list stops at the first node that satisfies the condition, or behind the
last one. -/
theorem Seg.scan_eq [DecidableEq α] (h : Seg null next p l null) (stop : α → Bool) {fuel : ℕ}
    (hfuel : l.length < fuel) (prev : α) :
    scan null next stop fuel prev p =
      some ((l.takeWhile fun z => !stop z).getLastD prev,
        (l.dropWhile fun z => !stop z).headD null) := by
  induction l generalizing p prev fuel with
  | nil =>
    obtain ⟨fuel, rfl⟩ := Nat.exists_eq_add_of_lt hfuel
    simp [scan, seg_nil.mp h]
  | cons x l ih =>
    obtain ⟨rfl, hx, hl⟩ := h
    cases fuel with
    | zero => cases hfuel
    | succ fuel =>
      rw [scan]
      cases hstop : stop p with
      | true => simp [hstop]
      | false =>
        rw [if_neg (by simp [hx]), ih hl (Nat.lt_of_succ_lt_succ hfuel)]
        simp only [hstop, Bool.not_false, List.takeWhile_cons_of_pos, List.dropWhile_cons_of_pos]
        congr 2
        cases List.takeWhile (fun z => !stop z) l <;> rfl

end LinkedList
