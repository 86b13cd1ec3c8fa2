import Mathlib.Algebra.Order.Ring.Nat
import Mathlib.Tactic.Common

/-!
# Phases that follow one another

A player goes through phases with given durations. It is called now and then, and a call ends the
phase that is on if it is over. The next phase begins where that one was to end, and not at the
call, so the player always finishes at the time it was to finish from the start.
-/

namespace Phases

/-- The time at which the first of the remaining phases begins, and these with their durations. -/
structure Player (α : Type*) where
  start : ℕ
  phases : List (α × ℕ)

namespace Player

variable {α : Type*} {p : Player α} {t : ℕ}

/-- A call at the time `t`. -/
def call (p : Player α) (t : ℕ) : Player α :=
  match p.phases with
  | [] => p
  | (_, d) :: rest => if p.start + d < t then ⟨p.start + d, rest⟩ else p

/-- The time at which the last phase ends. -/
def finish (p : Player α) : ℕ := p.start + (p.phases.map Prod.snd).sum

theorem call_of_nil (h : p.phases = []) (t : ℕ) : p.call t = p := by
  rw [call, h]

theorem call_of_lt {a : α} {d : ℕ} {rest : List (α × ℕ)} (h : p.phases = (a, d) :: rest)
    (hlt : p.start + d < t) : p.call t = ⟨p.start + d, rest⟩ := by
  simp only [call, h, if_pos hlt]

theorem call_of_not_lt {a : α} {d : ℕ} {rest : List (α × ℕ)} (h : p.phases = (a, d) :: rest)
    (hlt : ¬ p.start + d < t) : p.call t = p := by
  simp only [call, h, if_neg hlt]

/-- A call ends one phase, or it changes nothing. -/
theorem call_cases (p : Player α) (t : ℕ) :
    (∃ a d rest, p.phases = (a, d) :: rest ∧ p.start + d < t ∧ p.call t = ⟨p.start + d, rest⟩) ∨
      p.call t = p := by
  cases h : p.phases with
  | nil => exact Or.inr (call_of_nil h t)
  | cons phase rest =>
    by_cases hlt : p.start + phase.2 < t
    · exact Or.inl ⟨phase.1, phase.2, rest, rfl, hlt, call_of_lt h hlt⟩
    · exact Or.inr (call_of_not_lt h hlt)

/-- However late the calls are, the end does not move. -/
theorem finish_call (p : Player α) (t : ℕ) : (p.call t).finish = p.finish := by
  rcases p.call_cases t with ⟨a, d, rest, h, -, hcall⟩ | hcall
  · rw [hcall, finish, finish, h, List.map_cons, List.sum_cons, Nat.add_assoc]
  · rw [hcall]

theorem length_call_le (p : Player α) (t : ℕ) :
    (p.call t).phases.length ≤ p.phases.length := by
  rcases p.call_cases t with ⟨a, d, rest, h, -, hcall⟩ | hcall
  · rw [hcall, h, List.length_cons]
    exact Nat.le_succ _
  · rw [hcall]

/-- A call after the end takes one of the phases that are left. -/
theorem length_call_of_finish_lt (h : p.finish < t) :
    (p.call t).phases.length = p.phases.length - 1 := by
  cases hphases : p.phases with
  | nil => rw [call_of_nil hphases, hphases, List.length_nil]
  | cons phase rest =>
    have hlt : p.start + phase.2 < t := by
      rw [finish, hphases, List.map_cons, List.sum_cons] at h
      omega
    rw [call_of_lt hphases hlt, List.length_cons, Nat.add_sub_cancel]

end Player

end Phases
