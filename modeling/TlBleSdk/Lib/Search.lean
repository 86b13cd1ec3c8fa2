import Mathlib.Data.List.Basic

/-!
# Searches that may fault

A search takes its candidates one after the other. A turn faults, goes on to the next candidate or
ends the search with a result. `Reached hit l a` says that the search comes to `a`: no candidate in
front of it is a hit. `Returns good r` says that there was no fault and that a result is good, and
`returns_run_iff` says that this is the case for a search exactly if it is for every turn the search
comes to.
-/

namespace Search

variable {α β γ : Type*}

/-- The search: nothing behind a fault, `none` behind the last candidate. -/
def run (turn : α → Option (Option β)) : List α → Option (Option β)
  | [] => some none
  | a :: l => (turn a).bind fun r => match r with
    | some b => some (some b)
    | none => run turn l

/-- The search comes to the candidate. -/
def Reached (hit : α → Prop) (l : List α) (a : α) : Prop :=
  ∃ pre post, l = pre ++ a :: post ∧ ∀ x ∈ pre, ¬ hit x

/-- There is no fault, and a result is good. -/
def Returns (good : β → Prop) (r : Option (Option β)) : Prop :=
  ∃ o, r = some o ∧ ∀ b, o = some b → good b

/-- The hits of the turns that do not fault. -/
def HitsAre (turn : α → Option (Option β)) (hit : α → Prop) (l : List α) : Prop :=
  ∀ a ∈ l, ∀ o, turn a = some o → (o ≠ none ↔ hit a)

variable {turn : α → Option (Option β)} {hit : α → Prop} {good : β → Prop} {a b : α} {l : List α}

/-! ## The candidates that are reached -/

theorem reached_head : Reached hit (a :: l) a := ⟨[], l, rfl, nofun⟩

theorem reached_cons_iff : Reached hit (b :: l) a ↔ a = b ∨ ¬ hit b ∧ Reached hit l a := by
  constructor
  · rintro ⟨pre, post, heq, hpre⟩
    cases pre with
    | nil => exact .inl (List.cons.inj heq).1.symm
    | cons c pre =>
      obtain ⟨rfl, rfl⟩ := List.cons.inj heq
      exact .inr ⟨hpre b List.mem_cons_self, pre, post, rfl,
        fun x hx => hpre x (List.mem_cons_of_mem b hx)⟩
  · rintro (rfl | ⟨hb, pre, post, rfl, hpre⟩)
    · exact reached_head
    · exact ⟨b :: pre, post, rfl, List.forall_mem_cons.mpr ⟨hb, hpre⟩⟩

theorem Reached.mem (h : Reached hit l a) : a ∈ l := by
  obtain ⟨pre, post, rfl, -⟩ := h
  exact List.mem_append_right pre List.mem_cons_self

/-! ## Results -/

@[simp] theorem returns_none : ¬ Returns good none := fun ⟨_, h, _⟩ => nomatch h

@[simp] theorem returns_some_none : Returns good (some none) := ⟨none, rfl, nofun⟩

@[simp] theorem returns_some_some {x : β} : Returns good (some (some x)) ↔ good x := by
  constructor
  · rintro ⟨o, ho, hgood⟩
    exact hgood x (Option.some.inj ho).symm
  · intro h
    exact ⟨some x, rfl, fun b hb => Option.some.inj hb ▸ h⟩

/-- What is made of a result. -/
theorem returns_map {f : β → γ} {good : γ → Prop} {r : Option (Option β)} :
    Returns good (r.map fun o => o.map f) ↔ Returns (fun b => good (f b)) r := by
  cases r with
  | none => simp
  | some o =>
    cases o with
    | none => simp
    | some b => simp

/-! ## Searches -/

/-- A search returns exactly if the turns that it comes to do. -/
theorem returns_run_iff (hhit : HitsAre turn hit l) :
    Returns good (run turn l) ↔ ∀ a, Reached hit l a → Returns good (turn a) := by
  induction l with
  | nil =>
    exact iff_of_true returns_some_none fun a ha => absurd ha.mem List.not_mem_nil
  | cons b l ih =>
    have ih := ih fun a ha => hhit a (List.mem_cons_of_mem b ha)
    rw [run]
    cases hturn : turn b with
    | none =>
      refine iff_of_false returns_none fun h => ?_
      have hb := h b reached_head
      rw [hturn] at hb
      exact returns_none hb
    | some o =>
      have hb := hhit b List.mem_cons_self o hturn
      cases o with
      | some x =>
        -- the search ends here
        have hhitb : hit b := hb.mp (Option.some_ne_none x)
        constructor
        · intro h a ha
          obtain rfl | ⟨hno, -⟩ := reached_cons_iff.mp ha
          · rwa [hturn]
          · exact absurd hhitb hno
        · intro h
          have hgood := h b reached_head
          rwa [hturn] at hgood
      | none =>
        have hno : ¬ hit b := fun h => hb.mpr h rfl
        refine ih.trans ⟨fun h a ha => ?_, fun h a ha => ?_⟩
        · obtain rfl | ⟨-, ha⟩ := reached_cons_iff.mp ha
          · rw [hturn]
            exact returns_some_none
          · exact h a ha
        · exact h a (reached_cons_iff.mpr (.inr ⟨hno, ha⟩))

/-- A search without a fault has a result exactly if a candidate is a hit. -/
theorem run_eq_some_iff (hhit : HitsAre turn hit l) (hfault : ∀ a ∈ l, turn a ≠ none) :
    ∃ o, run turn l = some o ∧ (o ≠ none ↔ ∃ a ∈ l, hit a) := by
  induction l with
  | nil => exact ⟨none, rfl, by simp⟩
  | cons b l ih =>
    obtain ⟨o, ho⟩ := Option.ne_none_iff_exists'.mp (hfault b List.mem_cons_self)
    have hb := hhit b List.mem_cons_self o ho
    rw [run, ho, Option.bind_some]
    cases o with
    | some x =>
      have hhitb : hit b := hb.mp (Option.some_ne_none x)
      exact ⟨some x, rfl, iff_of_true (Option.some_ne_none x) ⟨b, List.mem_cons_self, hhitb⟩⟩
    | none =>
      have hno : ¬ hit b := fun h => hb.mpr h rfl
      obtain ⟨o, ho, hiff⟩ := ih (fun a ha => hhit a (List.mem_cons_of_mem b ha))
        fun a ha => hfault a (List.mem_cons_of_mem b ha)
      refine ⟨o, ho, hiff.trans ⟨?_, ?_⟩⟩
      · rintro ⟨a, ha, hhita⟩
        exact ⟨a, List.mem_cons_of_mem b ha, hhita⟩
      · rintro ⟨a, ha, hhita⟩
        rcases List.mem_cons.mp ha with rfl | hmem
        · exact absurd hhita hno
        · exact ⟨a, hmem, hhita⟩

/-! ## Turns that do not fault -/

/-- A hit ends the search with what is found there, and the search goes on at any other
candidate. -/
def Decides (turn : α → Option (Option β)) (hit : α → Prop) (found : α → β) (l : List α) : Prop :=
  ∀ a ∈ l, (hit a → turn a = some (some (found a))) ∧ (¬ hit a → turn a = some none)

variable {found : α → β}

theorem Decides.hitsAre (h : Decides turn hit found l) : HitsAre turn hit l := by
  intro a ha o ho
  by_cases hhit : hit a
  · rw [(h a ha).1 hhit] at ho
    obtain rfl := Option.some.inj ho
    exact iff_of_true (Option.some_ne_none _) hhit
  · rw [(h a ha).2 hhit] at ho
    obtain rfl := Option.some.inj ho
    exact iff_of_false (fun hne => hne rfl) hhit

theorem Decides.returns_run_iff (h : Decides turn hit found l) :
    Returns good (run turn l) ↔ ∀ a, Reached hit l a → hit a → good (found a) := by
  rw [Search.returns_run_iff h.hitsAre]
  refine forall₂_congr fun a ha => ?_
  by_cases hhit : hit a
  · rw [(h a ha.mem).1 hhit, returns_some_some]
    exact ⟨fun hgood _ => hgood, fun hgood => hgood hhit⟩
  · rw [(h a ha.mem).2 hhit]
    exact iff_of_true returns_some_none fun hno => absurd hno hhit

theorem Decides.run_eq_some_iff (h : Decides turn hit found l) :
    ∃ o, run turn l = some o ∧ (o ≠ none ↔ ∃ a ∈ l, hit a) := by
  refine Search.run_eq_some_iff h.hitsAre fun a ha => ?_
  by_cases hhit : hit a
  · rw [(h a ha).1 hhit]
    exact Option.some_ne_none _
  · rw [(h a ha).2 hhit]
    exact Option.some_ne_none _

end Search
