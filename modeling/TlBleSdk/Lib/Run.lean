import Mathlib.Data.List.Basic
import Mathlib.Tactic.Common

/-!
# Runs of a deterministic machine under a step condition

A machine is a total function `step : σ → ι → σ` from a state and an input to the next
state. A run is the fold of `step` over a list of inputs. Two predicates on runs carry
every result stated about one:

* `Along step Ok s is`: each step of the run meets `Ok`, a condition on the state before
  the step and on its input;
* `Always step P s is`: `P` holds in every state the run goes through, the first and the
  last included.

`run_invariant` packages the induction once: an invariant that a step preserves whenever
it meets `Ok` holds at the end of every run along `Ok`. `always_iff_along` is the exact
form: where one step keeps `P` precisely when it meets `Ok`, a run keeps `P` throughout
precisely when it is along `Ok`.
-/

namespace Machine

variable {σ ι : Type*} (step : σ → ι → σ)

/-- The state after the inputs `is`, from `s`. -/
def run (s : σ) (is : List ι) : σ := is.foldl step s

/-- Every step of the run meets `Ok`. -/
def Along (Ok : σ → ι → Prop) : σ → List ι → Prop
  | _, [] => True
  | s, i :: is => Ok s i ∧ Along Ok (step s i) is

/-- `P` holds in every state of the run. -/
def Always (P : σ → Prop) : σ → List ι → Prop
  | s, [] => P s
  | s, i :: is => P s ∧ Always P (step s i) is

@[simp] theorem run_nil (s : σ) : run step s [] = s := rfl

@[simp] theorem run_cons (s : σ) (i : ι) (is : List ι) :
    run step s (i :: is) = run step (step s i) is := rfl

theorem run_append (s : σ) (is js : List ι) :
    run step s (is ++ js) = run step (run step s is) js := List.foldl_append

instance decidableAlong {Ok : σ → ι → Prop} [∀ s i, Decidable (Ok s i)] :
    ∀ s is, Decidable (Along step Ok s is)
  | _, [] => inferInstanceAs (Decidable True)
  | s, i :: is => @instDecidableAnd _ _ _ (decidableAlong (step s i) is)

instance decidableAlways {P : σ → Prop} [∀ s, Decidable (P s)] :
    ∀ s is, Decidable (Always step P s is)
  | s, [] => inferInstanceAs (Decidable (P s))
  | s, i :: is => @instDecidableAnd _ _ _ (decidableAlways (step s i) is)

variable {step}

/-- What every step meets, every run meets. -/
theorem along_of_forall {Q : σ → ι → Prop} (hQ : ∀ s i, Q s i) (s : σ) (is : List ι) :
    Along step Q s is := by
  induction is generalizing s with
  | nil => trivial
  | cons i is ih => exact ⟨hQ s i, ih _⟩

/-- Every run meets the trivial condition. -/
theorem along_true (s : σ) (is : List ι) : Along step (fun _ _ => True) s is :=
  along_of_forall (fun _ _ => trivial) s is

/-- Two conditions that agree at every step. -/
theorem along_congr {Ok Ok' : σ → ι → Prop} (h : ∀ s i, Ok s i ↔ Ok' s i) {s : σ}
    {is : List ι} : Along step Ok s is ↔ Along step Ok' s is := by
  induction is generalizing s with
  | nil => exact Iff.rfl
  | cons i is ih => exact and_congr (h s i) ih

/-- A condition on the inputs alone. -/
theorem along_of_forall_mem {P : ι → Prop} (s : σ) {is : List ι} (h : ∀ i ∈ is, P i) :
    Along step (fun _ i => P i) s is := by
  induction is generalizing s with
  | nil => trivial
  | cons i is ih =>
    exact ⟨h i List.mem_cons_self, ih _ fun j hj => h j (List.mem_cons_of_mem _ hj)⟩

theorem along_iff_forall_mem {P : ι → Prop} {s : σ} {is : List ι} :
    Along step (fun _ i => P i) s is ↔ ∀ i ∈ is, P i := by
  refine ⟨fun h => ?_, along_of_forall_mem s⟩
  induction is generalizing s with
  | nil => simp
  | cons i is ih => exact List.forall_mem_cons.mpr ⟨h.1, ih h.2⟩

/-- The induction behind every result about runs. -/
theorem run_invariant {Ok : σ → ι → Prop} {Inv : σ → Prop}
    (hstep : ∀ s i, Inv s → Ok s i → Inv (step s i)) {s : σ} {is : List ι}
    (hs : Inv s) (hok : Along step Ok s is) : Inv (run step s is) := by
  induction is generalizing s with
  | nil => exact hs
  | cons i is ih => exact ih (hstep s i hs hok.1) hok.2

/-- An invariant of the run holds at all of its moments, and so does what it implies. -/
theorem always_of_invariant {Ok : σ → ι → Prop} {Inv P : σ → Prop}
    (hstep : ∀ s i, Inv s → Ok s i → Inv (step s i)) (hP : ∀ s, Inv s → P s) {s : σ}
    {is : List ι} (hs : Inv s) (hok : Along step Ok s is) : Always step P s is := by
  induction is generalizing s with
  | nil => exact hP s hs
  | cons i is ih => exact ⟨hP s hs, ih (hstep s i hs hok.1) hok.2⟩

/-- What the steps from states of the invariant meet, the steps of a run meet. -/
theorem along_of_invariant {Ok Q : σ → ι → Prop} {Inv : σ → Prop}
    (hstep : ∀ s i, Inv s → Ok s i → Inv (step s i)) (hQ : ∀ s i, Inv s → Ok s i → Q s i) {s : σ}
    {is : List ι} (hs : Inv s) (hok : Along step Ok s is) : Along step Q s is := by
  induction is generalizing s with
  | nil => trivial
  | cons i is ih => exact ⟨hQ s i hs hok.1, ih (hstep s i hs hok.1) hok.2⟩

/-- Where the states of an invariant meet `Q` exactly at the steps that meet `Ok`, so does a
run. -/
theorem along_congr_of_invariant {Ok Q : σ → ι → Prop} {Inv : σ → Prop}
    (hstep : ∀ s i, Inv s → Ok s i → Inv (step s i)) (hQ : ∀ s i, Inv s → (Q s i ↔ Ok s i)) {s : σ}
    {is : List ι} (hs : Inv s) : Along step Q s is ↔ Along step Ok s is := by
  induction is generalizing s with
  | nil => exact Iff.rfl
  | cons i is ih =>
    constructor
    · intro h
      have hok := (hQ s i hs).mp h.1
      exact ⟨hok, (ih (hstep s i hs hok)).mp h.2⟩
    · intro h
      exact ⟨(hQ s i hs).mpr h.1, (ih (hstep s i hs h.1)).mpr h.2⟩

/-- Two conditions at every step. -/
theorem along_and {P Q : σ → ι → Prop} {s : σ} {is : List ι} :
    Along step (fun s i => P s i ∧ Q s i) s is ↔ Along step P s is ∧ Along step Q s is := by
  induction is generalizing s with
  | nil => exact (and_iff_left trivial).symm
  | cons i is ih => exact (and_congr_right fun _ => ih).trans and_and_and_comm

/-- `along_congr_of_invariant` for runs that are known to meet `Side`. -/
theorem along_congr_of_side {Side Ok Q : σ → ι → Prop} {Inv : σ → Prop}
    (hstep : ∀ s i, Inv s → Side s i → Ok s i → Inv (step s i))
    (hQ : ∀ s i, Inv s → Side s i → (Q s i ↔ Ok s i)) {s : σ} {is : List ι} (hs : Inv s)
    (hside : Along step Side s is) : Along step Q s is ↔ Along step Ok s is := by
  have hiff : Along step (fun s i => Side s i ∧ Q s i) s is ↔
      Along step (fun s i => Side s i ∧ Ok s i) s is :=
    along_congr_of_invariant (fun s i hs h => hstep s i hs h.1 h.2)
      (fun s i hs => and_congr_right (hQ s i hs)) hs
  rwa [along_and, along_and, and_iff_right hside, and_iff_right hside] at hiff

/-- A property that holds at every moment holds at the start. -/
theorem Always.head {P : σ → Prop} {s : σ} {is : List ι} (h : Always step P s is) : P s := by
  cases is with
  | nil => exact h
  | cons i is => exact h.1

/-- Where a step keeps `P` exactly when it meets `Ok`, a run keeps `P` at every moment
exactly when all its steps meet `Ok`. `Inv` is what may be assumed of the states besides
`P`; it has to survive only the steps that keep `P`. `Side` is what the run is known to
meet anyway. -/
theorem always_iff_along {Ok Side : σ → ι → Prop} {Inv P : σ → Prop}
    (hstep : ∀ s i, Inv s → P s → Side s i → (P (step s i) ↔ Ok s i))
    (hinv : ∀ s i, Inv s → P s → Side s i → P (step s i) → Inv (step s i)) {s : σ}
    {is : List ι} (hside : Along step Side s is) (hs : Inv s) (hP : P s) :
    Always step P s is ↔ Along step Ok s is := by
  induction is generalizing s with
  | nil => simp [Always, Along, hP]
  | cons i is ih =>
    simp only [Always, Along, hP, true_and]
    constructor
    · intro h
      have hP' : P (step s i) := Always.head h
      exact ⟨(hstep s i hs hP hside.1).mp hP',
        (ih hside.2 (hinv s i hs hP hside.1 hP') hP').mp h⟩
    · rintro ⟨hok, hrest⟩
      have hP' := (hstep s i hs hP hside.1).mpr hok
      exact (ih hside.2 (hinv s i hs hP hside.1 hP') hP').mpr hrest

/-- Two machines in step: a relation that every input preserves relates the ends of their
runs. -/
theorem run_rel {τ : Type*} {step' : τ → ι → τ} {R : σ → τ → Prop}
    (hstep : ∀ s t i, R s t → R (step s i) (step' t i)) {s : σ} {t : τ} (h : R s t)
    (is : List ι) : R (run step s is) (run step' t is) := by
  induction is generalizing s t with
  | nil => exact h
  | cons i is ih => exact ih (hstep s t i h)

/-- A property that holds at every moment holds at the end. -/
theorem Always.last {P : σ → Prop} {s : σ} {is : List ι} (h : Always step P s is) :
    P (run step s is) := by
  induction is generalizing s with
  | nil => exact h
  | cons i is ih => exact ih h.2

/-! ## Refinement

`call` is a call of an implementation; it may not return. `spec` is a call of a
specification. -/

section Refinement

variable {ρ τ : Type*} (call : σ → ι → Option (σ × ρ)) (spec : τ → ι → τ × ρ)
  (R : σ → τ → Prop)

/-- Every call of the run returns what the specification returns, and `R` relates the states
throughout. -/
def Refines : σ → τ → List ι → Prop
  | s, t, [] => R s t
  | s, t, i :: is => R s t ∧ ∃ s', call s i = some (s', (spec t i).2) ∧ Refines s' (spec t i).1 is

variable {call spec R}

/-- Forward simulation: what one call keeps, a run keeps. -/
theorem refines_of_along {Ok : τ → ι → Prop}
    (hstep : ∀ s t i, R s t → Ok t i → ∃ s', call s i = some (s', (spec t i).2) ∧
      R s' (spec t i).1) {s : σ} {t : τ} {is : List ι} (h : R s t)
    (hok : Along (fun t i => (spec t i).1) Ok t is) : Refines call spec R s t is := by
  induction is generalizing s t with
  | nil => exact h
  | cons i is ih =>
    obtain ⟨s', hcall, hR⟩ := hstep s t i h hok.1
    exact ⟨h, s', hcall, ih hR hok.2⟩

/-- Where the related states are those before which every call was `Ok`, a run refines exactly when
all its calls are. -/
theorem refines_iff_along {Inv : σ → τ → Prop} {Ok : τ → ι → Prop}
    (hR : ∀ s t, Inv s t → R s t)
    (hok : ∀ s t i, Inv s t → Ok t i → ∃ s', call s i = some (s', (spec t i).2) ∧
      Inv s' (spec t i).1)
    (hbad : ∀ s t i, Inv s t → ¬ Ok t i → ∀ s', call s i = some (s', (spec t i).2) →
      ¬ R s' (spec t i).1) {s : σ} {t : τ} {is : List ι} (h : Inv s t) :
    Refines call spec R s t is ↔ Along (fun t i => (spec t i).1) Ok t is := by
  have hhead : ∀ s t is, Refines call spec R s t is → R s t := by
    intro s t is hrefines
    cases is with
    | nil => exact hrefines
    | cons i is => exact hrefines.1
  induction is generalizing s t with
  | nil => exact ⟨fun _ => trivial, fun _ => hR s t h⟩
  | cons i is ih =>
    constructor
    · rintro ⟨-, s', hcall, hrest⟩
      have hstep : Ok t i := by
        by_contra hno
        exact hbad s t i h hno s' hcall (hhead _ _ _ hrest)
      obtain ⟨s'', hcall', hInv⟩ := hok s t i h hstep
      obtain rfl : s'' = s' := congrArg Prod.fst (Option.some.inj (hcall'.symm.trans hcall))
      exact ⟨hstep, (ih hInv).1 hrest⟩
    · rintro ⟨hstep, hrest⟩
      obtain ⟨s', hcall, hInv⟩ := hok s t i h hstep
      exact ⟨hR s t h, s', hcall, (ih hInv).2 hrest⟩

end Refinement

end Machine
