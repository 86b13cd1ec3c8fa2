import TlBleSdk.Lib.Run
import Mathlib.Data.Nat.Notation

/-!
# Computations that may fault

A table is a vector, and an access to it is checked: behind its end there is a fault instead of a
value. `Ok` says that a computation does not fault. `stepFrom` runs a machine whose steps may
fault; a fault is never left, and `always_ok_iff` says that a run has none exactly if no step has
one where it is taken.
-/

namespace Checked

universe u

variable {ε : Type*} {α β : Type u} {n : ℕ}

/-! ## Accesses -/

/-- The entry `i` of a table. -/
def get (f : ε) (v : Vector α n) (i : ℕ) : Except ε α :=
  if h : i < n then .ok v[i] else .error f

/-- The table with `x` as its entry `i`. -/
def set (f : ε) (v : Vector α n) (i : ℕ) (x : α) : Except ε (Vector α n) :=
  if h : i < n then .ok (v.set i x) else .error f

/-- What a pointer points to. -/
def deref (f : ε) : Option α → Except ε α
  | some a => .ok a
  | none => .error f

/-- What has to hold from here on. -/
def require (f : ε) (p : Prop) [Decidable p] : Except ε Unit := if p then .ok () else .error f

/-! ## Computations without a fault -/

/-- The computation returns. -/
def Ok (x : Except ε α) : Prop := ∃ a, x = .ok a

instance (x : Except ε α) : Decidable (Ok x) :=
  match x with
  | .ok a => .isTrue ⟨a, rfl⟩
  | .error _ => .isFalse fun ⟨_, h⟩ => nomatch h

@[simp] theorem ok_ok (a : α) : Ok (.ok a : Except ε α) := ⟨a, rfl⟩

@[simp] theorem ok_pure (a : α) : Ok (pure a : Except ε α) := ⟨a, rfl⟩

@[simp] theorem not_ok_error (f : ε) : ¬ Ok (.error f : Except ε α) := fun ⟨_, h⟩ => nomatch h

@[simp] theorem not_ok_throw (f : ε) : ¬ Ok (throw f : Except ε α) := not_ok_error f

/-- A computation that is followed by another one. -/
theorem bind_eq_ok {x : Except ε α} {g : α → Except ε β} {b : β} :
    x >>= g = .ok b ↔ ∃ a, x = .ok a ∧ g a = .ok b := by
  cases x with
  | error f => exact ⟨fun h => (nomatch h), fun ⟨_, h, _⟩ => (nomatch h)⟩
  | ok a => exact ⟨fun h => ⟨a, rfl, h⟩, fun ⟨_, ha, h⟩ => by cases ha; exact h⟩

theorem bind_ok (a : α) (g : α → Except ε β) : (.ok a : Except ε α) >>= g = g a := rfl

theorem bind_error (f : ε) (g : α → Except ε β) : (.error f : Except ε α) >>= g = .error f := rfl

theorem ok_bind {x : Except ε α} {g : α → Except ε β} :
    Ok (x >>= g) ↔ ∃ a, x = .ok a ∧ Ok (g a) := by
  constructor
  · rintro ⟨b, hb⟩
    obtain ⟨a, hx, hg⟩ := bind_eq_ok.mp hb
    exact ⟨a, hx, b, hg⟩
  · rintro ⟨a, hx, b, hg⟩
    exact ⟨b, bind_eq_ok.mpr ⟨a, hx, hg⟩⟩

/-- Behind a computation without a fault, only the first one matters. -/
theorem ok_bind_iff {x : Except ε α} {g : α → Except ε β} (hg : ∀ a, x = .ok a → Ok (g a)) :
    Ok (x >>= g) ↔ Ok x :=
  ok_bind.trans ⟨fun ⟨a, hx, _⟩ => ⟨a, hx⟩, fun ⟨a, hx⟩ => ⟨a, hx, hg a hx⟩⟩

@[simp] theorem ok_map {x : Except ε α} {g : α → β} : Ok (g <$> x) ↔ Ok x := by
  cases x with
  | error f => exact iff_of_false (not_ok_error f) (not_ok_error f)
  | ok a => exact iff_of_true (ok_ok _) (ok_ok a)

/-- An access is within the table exactly if the index is. -/
@[simp] theorem ok_get {f : ε} {v : Vector α n} {i : ℕ} : Ok (get f v i) ↔ i < n := by
  rw [get]
  split_ifs with h
  · exact iff_of_true (ok_ok _) h
  · exact iff_of_false (not_ok_error f) h

@[simp] theorem ok_set {f : ε} {v : Vector α n} {i : ℕ} {x : α} : Ok (set f v i x) ↔ i < n := by
  rw [set]
  split_ifs with h
  · exact iff_of_true (ok_ok _) h
  · exact iff_of_false (not_ok_error f) h

theorem get_eq_ok {f : ε} {v : Vector α n} {i : ℕ} {a : α} :
    get f v i = .ok a ↔ ∃ h : i < n, v[i] = a := by
  rw [get]
  split_ifs with h
  · exact ⟨fun heq => ⟨h, Except.ok.inj heq⟩, fun ⟨_, heq⟩ => congrArg _ heq⟩
  · exact ⟨fun heq => (nomatch heq), fun ⟨h', _⟩ => absurd h' h⟩

theorem deref_eq_ok {f : ε} {o : Option α} {a : α} : deref f o = .ok a ↔ o = some a := by
  cases o with
  | none => exact ⟨fun h => (nomatch h), fun h => (nomatch h)⟩
  | some b => exact ⟨fun h => congrArg _ (Except.ok.inj h), fun h => congrArg _ (Option.some.inj h)⟩

theorem set_eq_ok {f : ε} {v w : Vector α n} {i : ℕ} {x : α} :
    set f v i x = .ok w ↔ ∃ h : i < n, v.set i x = w := by
  rw [set]
  split_ifs with h
  · exact ⟨fun heq => ⟨h, Except.ok.inj heq⟩, fun ⟨_, heq⟩ => congrArg _ heq⟩
  · exact ⟨fun heq => (nomatch heq), fun ⟨h', _⟩ => absurd h' h⟩

/-- A computation behind an access. -/
@[simp] theorem ok_get_bind {f : ε} {v : Vector α n} {i : ℕ} {g : α → Except ε β} :
    Ok (get f v i >>= g) ↔ ∃ h : i < n, Ok (g v[i]) := by
  rw [ok_bind]
  exact ⟨fun ⟨_, ha, hg⟩ => by obtain ⟨h, rfl⟩ := get_eq_ok.mp ha; exact ⟨h, hg⟩,
    fun ⟨h, hg⟩ => ⟨_, get_eq_ok.mpr ⟨h, rfl⟩, hg⟩⟩

@[simp] theorem ok_set_bind {γ : Type u} {f : ε} {v : Vector α n} {i : ℕ} {x : α}
    {g : Vector α n → Except ε γ} : Ok (set f v i x >>= g) ↔ ∃ h : i < n, Ok (g (v.set i x)) := by
  rw [ok_bind]
  exact ⟨fun ⟨_, ha, hg⟩ => by obtain ⟨h, rfl⟩ := set_eq_ok.mp ha; exact ⟨h, hg⟩,
    fun ⟨h, hg⟩ => ⟨_, set_eq_ok.mpr ⟨h, rfl⟩, hg⟩⟩

@[simp] theorem ok_deref_bind {f : ε} {o : Option α} {g : α → Except ε β} :
    Ok (deref f o >>= g) ↔ ∃ a, o = some a ∧ Ok (g a) := by
  simp only [ok_bind, deref_eq_ok]

@[simp] theorem ok_require {f : ε} {p : Prop} [Decidable p] : Ok (require f p) ↔ p := by
  rw [require]
  split_ifs with h
  · exact iff_of_true (ok_ok _) h
  · exact iff_of_false (not_ok_error f) h

/-- A loop whose turns keep an invariant has no fault, and the invariant holds behind it. -/
theorem foldlM_range {σ : Type u} {step : σ → ℕ → Except ε σ} {Inv : ℕ → σ → Prop} {k : ℕ}
    (hstep : ∀ i < k, ∀ s, Inv i s → ∃ s', step s i = .ok s' ∧ Inv (i + 1) s') {s : σ}
    (hs : Inv 0 s) : ∃ s', (List.range k).foldlM step s = .ok s' ∧ Inv k s' := by
  induction k with
  | zero => exact ⟨s, rfl, hs⟩
  | succ k ih =>
    obtain ⟨t, ht, hinv⟩ := ih fun i hi => hstep i (Nat.lt_succ_of_lt hi)
    obtain ⟨s', hs', hinv'⟩ := hstep k (Nat.lt_succ_self k) t hinv
    refine ⟨s', ?_, hinv'⟩
    rw [List.range_succ, List.foldlM_append, ht]
    refine bind_eq_ok.mpr ⟨t, rfl, ?_⟩
    exact bind_eq_ok.mpr ⟨s', hs', rfl⟩

/-! ## Machines whose steps may fault -/

section Machine

variable {σ : Type u} {ι : Type*}

/-- A step from a state, or from a fault. -/
def stepFrom (step : σ → ι → Except ε σ) (x : Except ε σ) (i : ι) : Except ε σ :=
  x >>= fun s => step s i

variable {step : σ → ι → Except ε σ}

/-- A condition on the steps that are taken from a state. -/
def At (P : σ → ι → Prop) (x : Except ε σ) (i : ι) : Prop := ∀ s, x = .ok s → P s i

/-- A run is without a fault exactly if its steps are. -/
theorem always_ok_iff {P : σ → ι → Prop} (hP : ∀ s i, Ok (step s i) ↔ P s i) (s : σ)
    (is : List ι) :
    Machine.Always (stepFrom step) Ok (.ok s) is ↔
      Machine.Along (stepFrom step) (At P) (.ok s) is := by
  have hstep : ∀ x i, True → Ok x → True → (Ok (stepFrom step x i) ↔ At P x i) := by
    rintro _ i - ⟨t, rfl⟩ -
    refine (hP t i).trans ⟨fun h t' ht => ?_, fun h => h t rfl⟩
    cases ht
    exact h
  exact Machine.always_iff_along hstep (fun _ _ _ _ _ _ => trivial)
    (Machine.along_true _ is) trivial (ok_ok s)

end Machine

end Checked
