import Mathlib.Data.List.Basic
import Mathlib.Data.List.Find
import Mathlib.Data.List.TakeWhile
import Mathlib.Tactic.Common

/-!
# Records with a length in front

A record starts with the number `n p` of the bytes behind its first one. A reader that is given
`left` bytes goes from record to record, and stops at one that takes all that is left or more.
`starts` are the records it comes to, whatever the bytes are; `visited` are those up to the first
one that it was looking for.
-/

namespace Records

variable (n : ℕ → ℕ)

/-- Where the records start that a reader of `left` bytes at `p` comes to. -/
def starts (p left : ℕ) : List ℕ :=
  if left = 0 then []
  else if n p + 1 < left then p :: starts (p + (n p + 1)) (left - (n p + 1))
  else [p]
termination_by left

/-- The records up to the first one that `hit` holds of. -/
def visited (hit : ℕ → Bool) (ps : List ℕ) : List ℕ :=
  ps.takeWhile (fun p => !hit p) ++ (ps.find? hit).toList

variable {n}

@[simp] theorem starts_zero (p : ℕ) : starts n p 0 = [] := by
  rw [starts, if_pos rfl]

theorem starts_of_lt {p left : ℕ} (h : n p + 1 < left) :
    starts n p left = p :: starts n (p + (n p + 1)) (left - (n p + 1)) := by
  rw [starts, if_neg (by omega), if_pos h]

theorem starts_of_le {p left : ℕ} (hleft : left ≠ 0) (h : left ≤ n p + 1) :
    starts n p left = [p] := by
  rw [starts, if_neg hleft, if_neg (by omega)]

/-- A record starts in the bytes that the reader was given. -/
theorem lt_of_mem_starts {p q left : ℕ} (h : q ∈ starts n p left) : p ≤ q ∧ q < p + left := by
  induction left using Nat.strongRecOn generalizing p with
  | _ left ih =>
    by_cases hleft : left = 0
    · subst hleft
      rw [starts_zero] at h
      cases h
    by_cases hlt : n p + 1 < left
    · rw [starts_of_lt hlt] at h
      rcases List.mem_cons.mp h with rfl | h
      · omega
      · have hq := ih _ (by omega) h
        omega
    · rw [starts_of_le hleft (by omega), List.mem_singleton] at h
      omega

/-- A record that ends where the bytes go on, and the records behind it. -/
theorem starts_append {p k left : ℕ} (h : n p + 1 = k) :
    starts n p (k + left) = p :: starts n (p + k) left := by
  subst h
  by_cases hleft : left = 0
  · subst hleft
    rw [starts_zero, Nat.add_zero, starts_of_le (by omega) (Nat.le_refl _)]
  · rw [starts_of_lt (by omega), Nat.add_sub_cancel_left]

theorem visited_nil (hit : ℕ → Bool) : visited hit [] = [] := rfl

theorem visited_cons (hit : ℕ → Bool) (p : ℕ) (ps : List ℕ) :
    visited hit (p :: ps) = p :: if hit p then [] else visited hit ps := by
  unfold visited
  by_cases h : hit p <;> simp [h]

theorem mem_visited_of_find? {hit : ℕ → Bool} {q : ℕ} {ps : List ℕ} (h : ps.find? hit = some q) :
    q ∈ visited hit ps :=
  List.mem_append_right _ (Option.mem_toList.mpr h)

/-- A coarser search finds the same exactly if nothing in front of what is sought is taken for
it. -/
theorem find?_eq_find?_iff {α : Type*} {hit P : α → Bool} {l : List α}
    (himp : ∀ e ∈ l, P e = true → hit e = true) :
    l.find? hit = l.find? P ↔ ∀ e ∈ l.takeWhile (fun e => !P e), hit e = false := by
  induction l with
  | nil => simp
  | cons e l ih =>
    obtain ⟨he, hl⟩ := List.forall_mem_cons.mp himp
    by_cases hP : P e
    · rw [List.find?_cons_of_pos hP, List.find?_cons_of_pos (he hP), List.takeWhile_cons_of_neg]
      · simp
      · simp [hP]
    · rw [List.find?_cons_of_neg hP, List.takeWhile_cons_of_pos (by simp [hP]),
        List.forall_mem_cons]
      by_cases hhit : hit e
      · -- the element that is taken too early is not found by the finer search
        rw [List.find?_cons_of_pos hhit]
        constructor
        · intro h
          exact absurd (List.find?_some h.symm) hP
        · rintro ⟨hfalse, -⟩
          rw [hhit] at hfalse
          exact absurd hfalse (by decide)
      · rw [List.find?_cons_of_neg hhit, ih hl]
        simp [hhit]

/-- What a coarser search finds, the finer one finds if it wants it. -/
theorem find?_of_find?_eq_some {α : Type*} {hit P : α → Bool} {l : List α} {e : α}
    (himp : ∀ e ∈ l, P e = true → hit e = true) (hfound : l.find? hit = some e)
    (hP : P e = true) : l.find? P = some e := by
  obtain ⟨-, as, bs, rfl, has⟩ := List.find?_eq_some_iff_append.mp hfound
  refine List.find?_eq_some_iff_append.mpr ⟨hP, as, bs, rfl, fun a ha => ?_⟩
  by_contra hPa
  have hhit := himp a (List.mem_append_left _ ha) (by simpa using hPa)
  have hnot := has a ha
  rw [hhit] at hnot
  exact absurd hnot (by decide)

end Records
