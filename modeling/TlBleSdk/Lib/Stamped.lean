import Mathlib.Data.List.Basic
import Mathlib.Tactic.Common

/-!
# FIFO channels between sessions

A receiver counts its sessions. Every message in flight to it carries the count of the
moment it was sent, its stamp; nothing sends the stamp, and the receiver cannot read it.
The channel is a list, the oldest message first. Messages may get lost.

`Between lo hi q` bounds the stamps in flight: they never decrease towards the younger
messages and lie between `lo` and `hi`. A FIFO channel to a receiver in session `hi` keeps
it, and what the receiver takes from the channel raises `lo`: nothing behind a message of a
session is from an earlier one (`Between.pop`).
-/

/-- A message, with the session of its receiver when it was sent. -/
structure Stamped (α : Type*) where
  stamp : ℕ
  msg : α
deriving DecidableEq

namespace Stamped

variable {α : Type*}

/-- The stamps in flight do not decrease and lie between `lo` and `hi`. -/
structure Between (lo hi : ℕ) (q : List (Stamped α)) : Prop where
  le : lo ≤ hi
  mono : q.Pairwise fun m m' => m.stamp ≤ m'.stamp
  bound : ∀ m ∈ q, lo ≤ m.stamp ∧ m.stamp ≤ hi

/-- The messages `ms`, sent in the session `stamp`. -/
def send (stamp : ℕ) (ms : List α) : List (Stamped α) := ms.map fun msg => ⟨stamp, msg⟩

theorem mem_send {stamp : ℕ} {ms : List α} {m : Stamped α} (h : m ∈ send stamp ms) :
    m.stamp = stamp ∧ m.msg ∈ ms := by
  obtain ⟨msg, hmem, rfl⟩ := List.mem_map.mp h
  exact ⟨rfl, hmem⟩

namespace Between

variable {lo hi : ℕ} {q : List (Stamped α)} {m : Stamped α}

theorem nil (h : lo ≤ hi) : Between lo hi ([] : List (Stamped α)) where
  le := h
  mono := List.Pairwise.nil
  bound _ hm := absurd hm List.not_mem_nil

/-- The receiver begins a session. -/
theorem next (h : Between lo hi q) : Between lo (hi + 1) q where
  le := Nat.le_succ_of_le h.le
  mono := h.mono
  bound m hm := ⟨(h.bound m hm).1, Nat.le_succ_of_le (h.bound m hm).2⟩

/-- Messages get lost. -/
theorem sublist (h : Between lo hi q) {q' : List (Stamped α)} (hq : q'.Sublist q) :
    Between lo hi q' where
  le := h.le
  mono := h.mono.sublist hq
  bound m hm := h.bound m (hq.subset hm)

/-- The oldest message arrives. -/
theorem tail (h : Between lo hi (m :: q)) : Between lo hi q :=
  h.sublist (List.sublist_cons_self m q)

/-- What is behind a message is not older. -/
theorem pop (h : Between lo hi (m :: q)) : Between m.stamp hi q where
  le := (h.bound m List.mem_cons_self).2
  mono := h.mono.of_cons
  bound m' hm' :=
    ⟨List.rel_of_pairwise_cons h.mono hm', (h.bound m' (List.mem_cons_of_mem m hm')).2⟩

/-- Messages are sent, in the receiver's session. -/
theorem append (h : Between lo hi q) (ms : List α) : Between lo hi (q ++ send hi ms) := by
  have hstamp : ∀ m' ∈ send hi ms, m'.stamp = hi := fun m' hm' => (mem_send hm').1
  refine ⟨h.le, List.pairwise_append.mpr ⟨h.mono, ?_, ?_⟩, ?_⟩
  · exact List.pairwise_map.mpr (List.pairwise_of_forall fun _ _ => Nat.le_refl hi)
  · intro m' hm' m'' hm''
    rw [hstamp m'' hm'']
    exact (h.bound m' hm').2
  · intro m' hm'
    rcases List.mem_append.mp hm' with hm' | hm'
    · exact h.bound m' hm'
    · rw [hstamp m' hm']
      exact ⟨h.le, Nat.le_refl hi⟩

end Between

end Stamped
