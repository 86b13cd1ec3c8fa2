import Mathlib.Data.List.Basic
import Mathlib.Data.List.Pairwise
import Mathlib.Data.Nat.ModEq
import Mathlib.Tactic.Common

/-!
# Go-back-N over a lossy FIFO channel

A sender numbers its packets from 0. The packets `base, …, base + slid - 1` are in flight,
and a resend starts over at `base`. The receiver has taken the first `taken` packets, takes
packet `taken` next and drops any other; with what it sends it acknowledges the number
`taken`. Both directions are FIFO channels that lose messages.

Messages carry their numbers modulo `M`. As long as at most `W < M` packets are in flight,
the numbers modulo `M` decide as the numbers would: `data_mod_iff` for the receiver and
`ack_mod_iff` for the sender. `Inv` is kept by every move, and it says that nothing is
released before it was taken (`Inv.base_le`).
-/

namespace GoBackN

/-- One direction of a connection: `given` packets were handed to the sender, and `data` and
`acks` are the messages under way, the oldest first. -/
structure Link where
  given : ℕ
  base : ℕ
  slid : ℕ
  taken : ℕ
  data : List ℕ
  acks : List ℕ

/-- What holds at every moment. A later packet under way may have a smaller number, but
not by a window or more. -/
structure Inv (W : ℕ) (l : Link) : Prop where
  base_le : l.base ≤ l.taken
  taken_le : l.taken ≤ l.base + W
  taken_le_given : l.taken ≤ l.given
  slid_le : l.slid ≤ W
  sent_le : l.base + l.slid ≤ l.given
  data_lt : ∀ k ∈ l.data, k < l.base + W ∧ k < l.given
  data_ge : ∀ k ∈ l.data, l.taken ≤ k + W
  data_pairwise : l.data.Pairwise fun i j => i < j + W
  acks_mem : ∀ a ∈ l.acks, l.base ≤ a ∧ a ≤ l.taken
  acks_sorted : l.acks.Pairwise (· ≤ ·)

variable {W M : ℕ} {l : Link}

/-- Numbers less than `M` apart are equal if they are so modulo `M`. -/
theorem eq_of_mod_eq {M i j : ℕ} (h : i % M = j % M) (hij : i < j + M) (hji : j < i + M) :
    i = j := by
  rcases Nat.le_total i j with hle | hle
  · have hdvd : M ∣ j - i := (Nat.modEq_iff_dvd' hle).mp h
    have hzero := Nat.eq_zero_of_dvd_of_lt hdvd (by omega)
    omega
  · have hdvd : M ∣ i - j := (Nat.modEq_iff_dvd' hle).mp h.symm
    have hzero := Nat.eq_zero_of_dvd_of_lt hdvd (by omega)
    omega

/-- A fresh connection. -/
theorem Inv.start (W : ℕ) : Inv W ⟨0, 0, 0, 0, [], []⟩ where
  base_le := le_rfl
  taken_le := Nat.zero_le _
  taken_le_given := le_rfl
  slid_le := Nat.zero_le _
  sent_le := le_rfl
  data_lt _ h := absurd h List.not_mem_nil
  data_ge _ h := absurd h List.not_mem_nil
  data_pairwise := List.Pairwise.nil
  acks_mem _ h := absurd h List.not_mem_nil
  acks_sorted := List.Pairwise.nil

namespace Inv

/-! ## The sender -/

theorem give (h : Inv W l) : Inv W { l with given := l.given + 1 } where
  base_le := h.base_le
  taken_le := h.taken_le
  taken_le_given := Nat.le_succ_of_le h.taken_le_given
  slid_le := h.slid_le
  sent_le := Nat.le_succ_of_le h.sent_le
  data_lt k hk := ⟨(h.data_lt k hk).1, Nat.lt_succ_of_lt (h.data_lt k hk).2⟩
  data_ge := h.data_ge
  data_pairwise := h.data_pairwise
  acks_mem := h.acks_mem
  acks_sorted := h.acks_sorted

/-- The next packet goes out. -/
theorem send (h : Inv W l) (hslid : l.slid < W) (hgiven : l.base + l.slid < l.given) :
    Inv W { l with slid := l.slid + 1, data := l.data ++ [l.base + l.slid] } where
  base_le := h.base_le
  taken_le := h.taken_le
  taken_le_given := h.taken_le_given
  slid_le := hslid
  sent_le := hgiven
  data_lt k hk := by
    rcases List.mem_append.mp hk with hk | hk
    · exact h.data_lt k hk
    · rw [List.mem_singleton.mp hk]
      exact ⟨by show _ < l.base + W; omega, hgiven⟩
  data_ge k hk := by
    rcases List.mem_append.mp hk with hk | hk
    · exact h.data_ge k hk
    · rw [List.mem_singleton.mp hk]
      have htaken := h.taken_le
      show l.taken ≤ _
      omega
  data_pairwise := by
    rw [List.pairwise_append]
    refine ⟨h.data_pairwise, List.pairwise_singleton _ _, ?_⟩
    intro i hi j hj
    rw [List.mem_singleton.mp hj]
    have hlt := (h.data_lt i hi).1
    omega
  acks_mem := h.acks_mem
  acks_sorted := h.acks_sorted

/-- The sender starts over. -/
theorem rewind (h : Inv W l) : Inv W { l with slid := 0 } :=
  { h with
    slid_le := Nat.zero_le _
    sent_le := (Nat.le_add_right _ _).trans h.sent_le }

/-! ## The receiver -/

/-- The number of the packet that arrives decides as it would in full. -/
theorem data_mod_iff (h : Inv W l) (hW : W < M) {k : ℕ} {rest : List ℕ}
    (hdata : l.data = k :: rest) : k % M = l.taken % M ↔ k = l.taken := by
  have hk : k ∈ l.data := hdata ▸ List.mem_cons_self
  have hlt := (h.data_lt k hk).1
  have hge := h.data_ge k hk
  have hbase := h.base_le
  exact ⟨fun heq => eq_of_mod_eq heq (by omega) (by omega), fun heq => by rw [heq]⟩

/-- The expected packet is taken. -/
theorem take (h : Inv W l) {rest : List ℕ} (hdata : l.data = l.taken :: rest) :
    Inv W { l with taken := l.taken + 1, data := rest } := by
  have hmem : ∀ k ∈ rest, k ∈ l.data := fun k hk => hdata ▸ List.mem_cons_of_mem _ hk
  have hpair := h.data_pairwise
  rw [hdata, List.pairwise_cons] at hpair
  obtain ⟨hlt, hgiven⟩ := h.data_lt l.taken (hdata ▸ List.mem_cons_self)
  exact
    { h with
      base_le := Nat.le_succ_of_le h.base_le
      taken_le := hlt
      taken_le_given := hgiven
      data_lt := fun k hk => h.data_lt k (hmem k hk)
      data_ge := fun k hk => hpair.1 k hk
      data_pairwise := hpair.2
      acks_mem := fun a ha => ⟨(h.acks_mem a ha).1, Nat.le_succ_of_le (h.acks_mem a ha).2⟩ }

/-- Packets under way get lost, or are dropped by the receiver. -/
theorem loseData (h : Inv W l) {rest : List ℕ} (hsub : rest.Sublist l.data) :
    Inv W { l with data := rest } :=
  { h with
    data_lt := fun k hk => h.data_lt k (hsub.subset hk)
    data_ge := fun k hk => h.data_ge k (hsub.subset hk)
    data_pairwise := h.data_pairwise.sublist hsub }

/-- The receiver acknowledges what it has taken. -/
theorem ack (h : Inv W l) : Inv W { l with acks := l.acks ++ [l.taken] } :=
  { h with
    acks_mem := by
      intro a ha
      rcases List.mem_append.mp ha with ha | ha
      · exact h.acks_mem a ha
      · rw [List.mem_singleton.mp ha]
        exact ⟨h.base_le, le_rfl⟩
    acks_sorted := by
      rw [List.pairwise_append]
      refine ⟨h.acks_sorted, List.pairwise_singleton _ _, ?_⟩
      intro a ha b hb
      rw [List.mem_singleton.mp hb]
      exact (h.acks_mem a ha).2 }

/-! ## Acknowledgements -/

/-- The number acknowledged decides as it would in full. -/
theorem ack_mod_iff (h : Inv W l) (hW : W < M) {a : ℕ} {rest : List ℕ}
    (hacks : l.acks = a :: rest) :
    a % M = (l.base + l.slid) % M ↔ a = l.base + l.slid := by
  obtain ⟨hge, hle⟩ := h.acks_mem a (hacks ▸ List.mem_cons_self)
  have htaken := h.taken_le
  have hslid := h.slid_le
  exact ⟨fun heq => eq_of_mod_eq heq (by omega) (by omega), fun heq => by rw [heq]⟩

/-- The window is released. -/
theorem release (h : Inv W l) {rest : List ℕ} (hacks : l.acks = (l.base + l.slid) :: rest) :
    Inv W { l with base := l.base + l.slid, slid := 0, acks := rest } := by
  have hmem : ∀ a ∈ rest, a ∈ l.acks := fun a ha => hacks ▸ List.mem_cons_of_mem _ ha
  have hsorted := h.acks_sorted
  rw [hacks, List.pairwise_cons] at hsorted
  have htaken := h.taken_le
  obtain ⟨-, hle⟩ := h.acks_mem (l.base + l.slid) (hacks ▸ List.mem_cons_self)
  exact
    { h with
      base_le := hle
      taken_le := by
        show l.taken ≤ l.base + l.slid + W
        omega
      slid_le := Nat.zero_le _
      sent_le := h.sent_le
      data_lt := fun k hk => by
        obtain ⟨hlt, hgiven⟩ := h.data_lt k hk
        exact ⟨by show k < l.base + l.slid + W; omega, hgiven⟩
      acks_mem := fun a ha => ⟨hsorted.1 a ha, (h.acks_mem a (hmem a ha)).2⟩
      acks_sorted := hsorted.2 }

/-- Acknowledgements get lost, or change nothing. -/
theorem loseAcks (h : Inv W l) {rest : List ℕ} (hsub : rest.Sublist l.acks) :
    Inv W { l with acks := rest } :=
  { h with
    acks_mem := fun a ha => h.acks_mem a (hsub.subset ha)
    acks_sorted := h.acks_sorted.sublist hsub }

end Inv

/-! ## A window that is never narrowed -/

/-- Everything taken and everything under way is released or in the window: the sender never
starts over without sending the whole window again. -/
structure Tight (base slid taken : ℕ) (data : List ℕ) : Prop where
  taken_le : taken ≤ base + slid
  data_lt : ∀ k ∈ data, k < base + slid

namespace Tight

variable {base slid taken : ℕ} {data : List ℕ}

theorem send (h : Tight base slid taken data) :
    Tight base (slid + 1) taken (data ++ [base + slid]) where
  taken_le := Nat.le_succ_of_le h.taken_le
  data_lt k hk := by
    rcases List.mem_append.mp hk with hk | hk
    · exact Nat.lt_succ_of_lt (h.data_lt k hk)
    · rw [List.mem_singleton.mp hk]
      exact Nat.lt_succ_self _

theorem loseData (h : Tight base slid taken data) {rest : List ℕ} (hsub : rest.Sublist data) :
    Tight base slid taken rest where
  taken_le := h.taken_le
  data_lt k hk := h.data_lt k (hsub.subset hk)

theorem take (h : Tight base slid taken (taken :: data)) : Tight base slid (taken + 1) data where
  taken_le := h.data_lt taken List.mem_cons_self
  data_lt k hk := h.data_lt k (List.mem_cons_of_mem _ hk)

theorem release (h : Tight base slid taken data) : Tight (base + slid) 0 taken data where
  taken_le := h.taken_le
  data_lt := h.data_lt

end Tight
end GoBackN
