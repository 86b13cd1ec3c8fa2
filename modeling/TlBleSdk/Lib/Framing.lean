import Mathlib.Data.List.Basic
import Mathlib.Tactic.Common

/-!
# Frames in a byte stream

A sender concatenates frames to a stream, and the receiver gets the stream in chunks whose
boundaries have nothing to do with those of the frames. After `n` items of the stream the
receiver has seen `completed` whole frames and a `leftover` of the next one, and
`cutFrame` is the frame the offset `n` cuts, if it is inside one.

The functions depend on the lengths of the frames only. Their values at `n + k` follow from
the frames behind the completed ones (`completed_shift` and its companions), so that a
receiver is verified by one statement on the frames it still expects.
-/

namespace Framing

variable {α : Type*}

/-- The number of whole frames among the first `n` items. -/
def completed : List (List α) → ℕ → ℕ
  | [], _ => 0
  | p :: ps, n => if n < p.length then 0 else completed ps (n - p.length) + 1

/-- The items behind the last whole frame among the first `n`. -/
def leftover : List (List α) → ℕ → List α
  | [], _ => []
  | p :: ps, n => if n < p.length then p.take n else leftover ps (n - p.length)

/-- The frame that the offset `n` cuts into two nonempty parts. -/
def cutFrame : List (List α) → ℕ → Option (List α)
  | [], _ => none
  | p :: ps, n =>
    if n < p.length then if n = 0 then none else some p else cutFrame ps (n - p.length)

section

variable {p : List α} {ps : List (List α)} {n : ℕ}

theorem completed_of_lt (h : n < p.length) : completed (p :: ps) n = 0 := if_pos h

theorem leftover_of_lt (h : n < p.length) : leftover (p :: ps) n = p.take n := if_pos h

theorem cutFrame_of_lt (h : n < p.length) (hn : n ≠ 0) : cutFrame (p :: ps) n = some p := by
  rw [cutFrame, if_pos h, if_neg hn]

@[simp] theorem completed_add (n : ℕ) :
    completed (p :: ps) (p.length + n) = completed ps n + 1 := by
  rw [completed, if_neg (by omega), Nat.add_sub_cancel_left]

@[simp] theorem leftover_add (n : ℕ) : leftover (p :: ps) (p.length + n) = leftover ps n := by
  rw [leftover, if_neg (by omega), Nat.add_sub_cancel_left]

@[simp] theorem cutFrame_add (n : ℕ) : cutFrame (p :: ps) (p.length + n) = cutFrame ps n := by
  rw [cutFrame, if_neg (by omega), Nat.add_sub_cancel_left]

end

/-! ## Frames already complete -/

/-- Behind `m` whole frames the count starts again. -/
theorem completed_shift {ps : List (List α)} {m : ℕ} (hm : m ≤ ps.length) (n : ℕ) :
    completed ps ((ps.take m).flatten.length + n) = m + completed (ps.drop m) n := by
  induction ps generalizing m with
  | nil =>
    obtain rfl : m = 0 := by simpa using hm
    simp
  | cons p ps ih =>
    cases m with
    | zero => simp
    | succ m =>
      rw [List.take_succ_cons, List.flatten_cons, List.length_append, Nat.add_assoc,
        completed_add, ih (by simpa using hm), List.drop_succ_cons]
      omega

theorem leftover_shift {ps : List (List α)} {m : ℕ} (hm : m ≤ ps.length) (n : ℕ) :
    leftover ps ((ps.take m).flatten.length + n) = leftover (ps.drop m) n := by
  induction ps generalizing m with
  | nil =>
    obtain rfl : m = 0 := by simpa using hm
    simp
  | cons p ps ih =>
    cases m with
    | zero => simp
    | succ m =>
      rw [List.take_succ_cons, List.flatten_cons, List.length_append, Nat.add_assoc,
        leftover_add, ih (by simpa using hm), List.drop_succ_cons]

theorem cutFrame_shift {ps : List (List α)} {m : ℕ} (hm : m ≤ ps.length) (n : ℕ) :
    cutFrame ps ((ps.take m).flatten.length + n) = cutFrame (ps.drop m) n := by
  induction ps generalizing m with
  | nil =>
    obtain rfl : m = 0 := by simpa using hm
    simp
  | cons p ps ih =>
    cases m with
    | zero => simp
    | succ m =>
      rw [List.take_succ_cons, List.flatten_cons, List.length_append, Nat.add_assoc,
        cutFrame_add, ih (by simpa using hm), List.drop_succ_cons]

/-! ## The first `n` items -/

theorem completed_le (ps : List (List α)) (n : ℕ) : completed ps n ≤ ps.length := by
  induction ps generalizing n with
  | nil => exact Nat.le_refl _
  | cons p ps ih =>
    unfold completed
    split
    · exact Nat.zero_le _
    · exact Nat.succ_le_succ (ih _)

/-- The first `n` items are the completed frames and the leftover. -/
theorem take_flatten (ps : List (List α)) (n : ℕ) :
    ps.flatten.take n = (ps.take (completed ps n)).flatten ++ leftover ps n := by
  induction ps generalizing n with
  | nil => simp [leftover]
  | cons p ps ih =>
    by_cases h : n < p.length
    · rw [completed_of_lt h, leftover_of_lt h, List.flatten_cons,
        List.take_append_of_le_length (by omega)]
      rfl
    · obtain ⟨k, rfl⟩ := Nat.exists_eq_add_of_le (Nat.le_of_not_lt h)
      rw [completed_add, leftover_add, List.flatten_cons, List.take_length_add_append, ih,
        List.take_succ_cons, List.flatten_cons, List.append_assoc]

theorem length_take_completed (ps : List (List α)) {n : ℕ} (hn : n ≤ ps.flatten.length) :
    (ps.take (completed ps n)).flatten.length + (leftover ps n).length = n := by
  rw [← List.length_append, ← take_flatten, List.length_take, Nat.min_eq_left hn]

/-- All frames are complete at the end of the stream. -/
theorem completed_flatten (ps : List (List α)) : completed ps ps.flatten.length = ps.length := by
  have h := completed_shift (Nat.le_refl ps.length) 0
  rwa [List.take_length, Nat.add_zero, List.drop_length, completed, Nat.add_zero] at h

/-- The leftover is a proper part of a frame that the offset cuts, or empty. -/
theorem leftover_cases (ps : List (List α)) (n : ℕ) :
    (leftover ps n = [] ∧ cutFrame ps n = none) ∨
      ∃ p, cutFrame ps n = some p ∧ leftover ps n ≠ [] ∧ leftover ps n <+: p ∧
        (leftover ps n).length < p.length ∧ (ps.drop (completed ps n)).head? = some p := by
  induction ps generalizing n with
  | nil => exact Or.inl ⟨rfl, rfl⟩
  | cons p ps ih =>
    by_cases h : n < p.length
    · rw [leftover_of_lt h, completed_of_lt h]
      by_cases hn : n = 0
      · subst hn
        refine Or.inl ⟨List.take_zero, ?_⟩
        rw [cutFrame, if_pos h, if_pos rfl]
      · refine Or.inr ⟨p, cutFrame_of_lt h hn, ?_, List.take_prefix n p, ?_, rfl⟩
        · rw [← List.length_pos_iff, List.length_take]
          omega
        · rw [List.length_take]
          omega
    · obtain ⟨k, rfl⟩ := Nat.exists_eq_add_of_le (Nat.le_of_not_lt h)
      rw [leftover_add, completed_add, cutFrame_add, List.drop_succ_cons]
      exact ih k

/-! ## The beginning of the stream -/

theorem completed_zero {ps : List (List α)} (h : ∀ p ∈ ps, p ≠ []) : completed ps 0 = 0 := by
  cases ps with
  | nil => rfl
  | cons p ps => exact completed_of_lt (List.length_pos_iff.mpr (h p List.mem_cons_self))

theorem leftover_zero (ps : List (List α)) : leftover ps 0 = [] := by
  have hlen := length_take_completed ps (Nat.zero_le _)
  exact List.length_eq_zero_iff.mp (Nat.add_eq_zero_iff.mp hlen).2

theorem cutFrame_zero (ps : List (List α)) : cutFrame ps 0 = none := by
  rcases leftover_cases ps 0 with ⟨-, hnone⟩ | ⟨p, -, hne, -⟩
  · exact hnone
  · exact absurd (leftover_zero ps) hne

/-- Behind the completed frames the stream goes on with the leftover: as a part of the frame
that the offset cuts, unless there is none. -/
theorem leftover_begins (ps : List (List α)) (n : ℕ) : leftover ps n = [] ∨
    ∃ q rest, q ≠ [] ∧ ps.drop (completed ps n) = (leftover ps n ++ q) :: rest ∧
      cutFrame ps n = some (leftover ps n ++ q) := by
  rcases leftover_cases ps n with ⟨hnil, -⟩ | ⟨p, hcut, -, ⟨q, rfl⟩, hlt, hhead⟩
  · exact Or.inl hnil
  · obtain ⟨rest, hrest⟩ := List.head?_eq_some_iff.mp hhead
    refine Or.inr ⟨q, rest, ?_, hrest, hcut⟩
    rintro rfl
    rw [List.append_nil] at hlt
    exact absurd hlt (Nat.lt_irrefl _)

/-! ## The next chunk -/

section

variable {ps : List (List α)} {n : ℕ} {c : List α}

/-- A chunk behind the first `n` items, seen from the frames still expected. -/
theorem leftover_append_prefix (h : ps.flatten.take n ++ c <+: ps.flatten) :
    leftover ps n ++ c <+: (ps.drop (completed ps n)).flatten := by
  rw [take_flatten, List.append_assoc] at h
  conv_rhs at h => rw [← List.take_append_drop (completed ps n) ps, List.flatten_append]
  exact (List.prefix_append_right_inj _).mp h

theorem add_length_eq (hn : n ≤ ps.flatten.length) (c : List α) :
    n + c.length = (ps.take (completed ps n)).flatten.length + (leftover ps n ++ c).length := by
  have hlen := length_take_completed ps hn
  rw [List.length_append]
  omega

theorem completed_append (hn : n ≤ ps.flatten.length) (c : List α) :
    completed ps (n + c.length) =
      completed ps n + completed (ps.drop (completed ps n)) (leftover ps n ++ c).length := by
  rw [add_length_eq hn, completed_shift (completed_le ps n)]

theorem leftover_append (hn : n ≤ ps.flatten.length) (c : List α) :
    leftover ps (n + c.length) =
      leftover (ps.drop (completed ps n)) (leftover ps n ++ c).length := by
  rw [add_length_eq hn, leftover_shift (completed_le ps n)]

theorem cutFrame_append (hn : n ≤ ps.flatten.length) (c : List α) :
    cutFrame ps (n + c.length) =
      cutFrame (ps.drop (completed ps n)) (leftover ps n ++ c).length := by
  rw [add_length_eq hn, cutFrame_shift (completed_le ps n)]

end

/-- The length of the frame that an offset cuts depends on the lengths alone. -/
theorem length_cutFrame {ps ps' : List (List α)} (h : ps.map List.length = ps'.map List.length)
    (n : ℕ) : (cutFrame ps n).map List.length = (cutFrame ps' n).map List.length := by
  induction ps generalizing ps' n with
  | nil => rw [List.map_eq_nil_iff.mp h.symm]
  | cons p ps ih =>
    obtain ⟨p', ps', rfl, hp, hps⟩ := List.map_eq_cons_iff.mp h.symm
    unfold cutFrame
    rw [hp]
    by_cases hn : n < p.length
    · rw [if_pos hn, if_pos hn]
      by_cases h0 : n = 0
      · rw [if_pos h0, if_pos h0]
      · rw [if_neg h0, if_neg h0, Option.map_some, Option.map_some, hp]
    · rw [if_neg hn, if_neg hn, ih hps.symm]

/-- Where the frame lies that an offset cuts. -/
theorem cutFrame_split {ps : List (List α)} {n : ℕ} {p : List α} (h : cutFrame ps n = some p) :
    ∃ pre post, ps = pre ++ p :: post ∧ pre.flatten.length < n ∧
      n < pre.flatten.length + p.length := by
  induction ps generalizing n with
  | nil => exact absurd h nofun
  | cons q ps ih =>
    by_cases hlt : n < q.length
    · by_cases hn : n = 0
      · rw [cutFrame, if_pos hlt, if_pos hn] at h
        exact absurd h nofun
      · rw [cutFrame_of_lt hlt hn, Option.some.injEq] at h
        subst h
        refine ⟨[], ps, rfl, ?_, ?_⟩ <;> simp only [List.flatten_nil, List.length_nil] <;> omega
    · obtain ⟨k, rfl⟩ := Nat.exists_eq_add_of_le (Nat.le_of_not_lt hlt)
      rw [cutFrame_add] at h
      obtain ⟨pre, post, rfl, hlo, hhi⟩ := ih h
      refine ⟨q :: pre, post, rfl, ?_, ?_⟩ <;> rw [List.flatten_cons, List.length_append] <;> omega

end Framing
