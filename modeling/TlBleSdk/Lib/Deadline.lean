import Mathlib.Data.Nat.Notation
import Mathlib.Logic.Function.Basic

/-!
# A deadline queue

A clock that never wraps, and for each key at most one item that is pending until its
deadline. The clock moves on in steps of any length, and a step fires the items of the keys it
looks at whose deadline is reached. An item that fired is pending no more.
-/

namespace Deadline

variable {κ α : Type*}

/-- The clock, the pending items with their deadlines, and the items that fired. -/
structure Queue (κ α : Type*) where
  now : ℕ
  pending : κ → Option (ℕ × α)
  fired : List α

namespace Queue

/-- Nothing is pending, and nothing fired. -/
def empty : Queue κ α := ⟨0, fun _ => none, []⟩

variable [DecidableEq κ]

/-- An item that is to fire in `delay`, in place of what is pending under its key. -/
def schedule (q : Queue κ α) (k : κ) (delay : ℕ) (a : α) : Queue κ α :=
  { q with pending := Function.update q.pending k (some (q.now + delay, a)) }

/-- What is pending under the key is not to fire. -/
def cancel (q : Queue κ α) (k : κ) : Queue κ α :=
  { q with pending := Function.update q.pending k none }

/-- The clock was set: every pending item gets its delay anew. -/
def retime (q : Queue κ α) (delay : α → ℕ) : Queue κ α :=
  { q with pending := fun k => (q.pending k).map fun p => (q.now + delay p.2, p.2) }

/-- The item under the key fires if its deadline is reached. -/
def fire (q : Queue κ α) (k : κ) : Queue κ α :=
  match q.pending k with
  | none => q
  | some (deadline, a) =>
    if deadline ≤ q.now then
      { q with pending := Function.update q.pending k none, fired := q.fired ++ [a] }
    else q

/-- The clock moves on by `delta`, and what is due under the keys fires. -/
def advance (q : Queue κ α) (keys : List κ) (delta : ℕ) : Queue κ α :=
  keys.foldl fire { q with now := q.now + delta }

variable {q : Queue κ α} {k : κ} {deadline : ℕ} {a : α}

theorem fire_none (h : q.pending k = none) : q.fire k = q := by
  unfold fire
  rw [h]

theorem fire_early (h : q.pending k = some (deadline, a)) (hlt : q.now < deadline) :
    q.fire k = q := by
  unfold fire
  rw [h]
  exact if_neg (Nat.not_le_of_lt hlt)

theorem fire_due (h : q.pending k = some (deadline, a)) (hle : deadline ≤ q.now) :
    q.fire k =
      { q with pending := Function.update q.pending k none, fired := q.fired ++ [a] } := by
  unfold fire
  rw [h]
  exact if_pos hle

end Queue

end Deadline
