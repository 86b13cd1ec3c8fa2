import TlBleSdk.Lib.Run
import TlBleSdk.Hci.TrDef
import Mathlib.Data.Int.Notation
import Mathlib.Data.List.Perm.Basic
import Mathlib.Data.List.Nodup

/-!
# Software timers

`blt_soft_timer.c`: the timer table, and `blt_soft_timer_process`, which calls the callbacks
of the expired timers. A callback is a function of the table and of the timer: what it calls
re-entrantly, and what it returns.

The loop goes through the table by index while the callbacks and the loop itself change it.
Its result is compared with that of calling the expired timers one after the other and
updating each under its own identity. The deletion of a timer moves the next one to its
index, so the loop passes over it.
-/

namespace TlBleSdk.Common

open Hci

/-- `MAX_TIMER_NUM`. -/
def maxTimerNum : ℕ := 4

/-- `BLT_TIMER_SAFE_MARGIN_PRE`, 128 us. -/
def bltTimerSafeMarginPre : ℕ := systemTimerTick1us * 128

/-- `BLT_TIMER_SAFE_MARGIN_POST`, 4 s. -/
def bltTimerSafeMarginPost : ℕ := systemTimerTick1us * 1000000 * 4

/-- `blt_time_event_t`. The null callback is `none`. The number `id` tells timers apart. -/
structure BltTimeEvent where
  id : ℕ
  cb : Option ℕ
  t : ℕ
  interval : ℕ
deriving DecidableEq

/-- `blt_soft_timer_t`, with the timers whose callbacks were called, and the number of timers
added so far. -/
structure BltSoftTimer where
  timer : List BltTimeEvent
  fired : List ℕ
  added : ℕ
deriving DecidableEq

/-- `blt_is_timer_expired`. -/
def bltIsTimerExpired (t now : ℕ) : Bool :=
  u32Sub (u32 (now + bltTimerSafeMarginPre)) t < bltTimerSafeMarginPost

/-- `TIME_COMPARE_BIG`. -/
def timeCompareBig (t₁ t₂ : ℕ) : Bool := u32Sub t₁ t₂ < 1073741824

/-- The inner loop of the bubble sort, where the timer `a` has come to the index `j`. -/
def bubbleFrom (a : BltTimeEvent) : List BltTimeEvent → List BltTimeEvent
  | [] => [a]
  | b :: l => if timeCompareBig a.t b.t then b :: bubbleFrom a l else a :: bubbleFrom b l

/-- The inner loop of the bubble sort. -/
def bubblePass : List BltTimeEvent → List BltTimeEvent
  | [] => []
  | a :: l => bubbleFrom a l

/-- `blt_soft_timer_sort`. Round `i` leaves the last `i` timers alone. -/
def bltSoftTimerSort (l : List BltTimeEvent) : List BltTimeEvent :=
  if l.length < 1 ∨ maxTimerNum < l.length then l
  else
    (List.range (l.length - 1)).foldl
      (fun l i => bubblePass (l.take (l.length - i)) ++ l.drop (l.length - i)) l

/-- The functions that a callback may call, with the time that `clock_time` returns. -/
inductive TimerCall
  | add (func : Option ℕ) (intervalUs now : ℕ)
  | delete (func : Option ℕ)

namespace BltSoftTimer

/-- `blt_soft_timer_add`. -/
def bltSoftTimerAdd (s : BltSoftTimer) (func : Option ℕ) (intervalUs now : ℕ) : BltSoftTimer :=
  if maxTimerNum ≤ s.timer.length then s
  else
    let interval := u32 (intervalUs * systemTimerTick1us)
    { s with
      timer := bltSoftTimerSort (s.timer ++ [⟨s.added, func, u32 (now + interval), interval⟩])
      added := s.added + 1 }

/-- `blt_soft_timer_delete_by_index`. -/
def bltSoftTimerDeleteByIndex (s : BltSoftTimer) (index : ℕ) : BltSoftTimer :=
  { s with timer := s.timer.eraseIdx index }

/-- `blt_soft_timer_delete`. -/
def bltSoftTimerDelete (s : BltSoftTimer) (func : Option ℕ) : BltSoftTimer :=
  match s.timer.findIdx? fun e => e.cb = func with
  | some i => s.bltSoftTimerDeleteByIndex i
  | none => s

end BltSoftTimer

open BltSoftTimer

/-- A call from a callback. -/
def TimerCall.apply (s : BltSoftTimer) : TimerCall → BltSoftTimer
  | .add func intervalUs now => s.bltSoftTimerAdd func intervalUs now
  | .delete func => s.bltSoftTimerDelete func

/-- The callbacks: what the callback of a timer calls, and what it returns. -/
abbrev TimerCallbacks := BltSoftTimer → BltTimeEvent → List TimerCall × ℤ

/-- The timer behind its callback: a result of zero keeps the interval. -/
def BltTimeEvent.rearm (e : BltTimeEvent) (now : ℕ) (result : ℤ) : BltTimeEvent :=
  let interval := if result = 0 then e.interval else u32 (result.toNat * systemTimerTick1us)
  { e with interval := interval, t := u32 (now + interval) }

/-- The timer has a callback and is expired. -/
def BltTimeEvent.fires (now : ℕ) (e : BltTimeEvent) : Bool :=
  e.cb.isSome && bltIsTimerExpired e.t now

variable (callback : TimerCallbacks) (now : ℕ)

/-- The table after the callback of a timer. -/
def callTimer (s : BltSoftTimer) (e : BltTimeEvent) : BltSoftTimer :=
  (callback s e).1.foldl TimerCall.apply { s with fired := s.fired ++ [e.id] }

/-- A round of the loop of `blt_soft_timer_process`. -/
def processRound (s : BltSoftTimer) (i : ℕ) : BltSoftTimer :=
  match s.timer[i]? with
  | none => s
  | some e =>
    if e.fires now then
      let result := (callback s e).2
      let s := callTimer callback s e
      if result < 0 then s.bltSoftTimerDeleteByIndex i
      else { s with timer := s.timer.modify i fun e => e.rearm now result }
    else s

/-- The loop. The table holds at most `MAX_TIMER_NUM` timers, and where it has no index `i`, the
loop is over. -/
def processLoop (s : BltSoftTimer) : BltSoftTimer :=
  (List.range maxTimerNum).foldl (processRound callback now) s

/-- A timer was called and not deleted by the loop, so `change_flg` is set. -/
def changeFlg (s : BltSoftTimer) : Bool :=
  (List.range maxTimerNum).any fun i =>
    let s := (List.range i).foldl (processRound callback now) s
    s.timer[i]?.any fun e => e.fires now && decide (0 ≤ (callback s e).2)

/-- `blt_soft_timer_process`. -/
def bltSoftTimerProcess (s : BltSoftTimer) : BltSoftTimer :=
  match s.timer[0]? with
  | none => s
  | some e =>
    if bltIsTimerExpired e.t now then
      let s' := processLoop callback now s
      if changeFlg callback now s then { s' with timer := bltSoftTimerSort s'.timer } else s'
    else s

/-! ## What the callbacks are to do -/

/-- The callback of a timer is called, and the timer is updated under its number. -/
def fireById (s : BltSoftTimer) (e : BltTimeEvent) : BltSoftTimer :=
  let result := (callback s e).2
  let s := callTimer callback s e
  if result < 0 then { s with timer := s.timer.filter fun e' : BltTimeEvent => e'.id ≠ e.id }
  else
    { s with
      timer := s.timer.map fun e' : BltTimeEvent =>
        if e'.id = e.id then e'.rearm now result else e' }

/-- The timers of the table that fire. -/
def firing (l : List BltTimeEvent) : List BltTimeEvent := l.filter (BltTimeEvent.fires now)

/-- Each expired timer fires once, in the order of the table. -/
def fireAll (s : BltSoftTimer) : BltSoftTimer :=
  (firing now s.timer).foldl (fireById callback now) s

/-- A call of `blt_soft_timer_process` calls the callback of each expired timer once and no
other, and leaves the timers that are to be left. -/
structure ProcessOk (s : BltSoftTimer) : Prop where
  fired : (bltSoftTimerProcess callback now s).fired =
    s.fired ++ (firing now s.timer).map BltTimeEvent.id
  table : (bltSoftTimerProcess callback now s).timer.Perm (fireAll callback now s).timer

/-- Round `i` calls a callback that leaves the timers up to its own in place, and behind it
those that fire. If it returns a negative result, the next timer does not fire. -/
def RoundOk (s : BltSoftTimer) (i : ℕ) : Prop :=
  ∀ e, s.timer[i]? = some e → e.fires now = true →
    let s' := callTimer callback s e
    s'.timer.take (i + 1) = s.timer.take (i + 1) ∧
      firing now (s'.timer.drop (i + 1)) = firing now (s.timer.drop (i + 1)) ∧
      ((callback s e).2 < 0 → ∀ e', s'.timer[i + 1]? = some e' → e'.fires now = false)

/-- Every round is in order. -/
def LoopOk (s : BltSoftTimer) : Prop :=
  ∀ i < maxTimerNum, RoundOk callback now ((List.range i).foldl (processRound callback now) s) i

/-- The first timer is expired if any fires, and every round is in order. -/
def ProcessCond (s : BltSoftTimer) : Prop :=
  (firing now s.timer ≠ [] → ∀ e, s.timer[0]? = some e → bltIsTimerExpired e.t now = true) ∧
    LoopOk callback now s

instance (s : BltSoftTimer) (i : ℕ) : Decidable (RoundOk callback now s i) :=
  inferInstanceAs (Decidable (∀ e ∈ s.timer[i]?, e.fires now = true →
    (callTimer callback s e).timer.take (i + 1) = s.timer.take (i + 1) ∧
      firing now ((callTimer callback s e).timer.drop (i + 1)) =
        firing now (s.timer.drop (i + 1)) ∧
      ((callback s e).2 < 0 →
        ∀ e' ∈ (callTimer callback s e).timer[i + 1]?, e'.fires now = false)))

instance (s : BltSoftTimer) : Decidable (LoopOk callback now s) :=
  inferInstanceAs (Decidable (∀ i < maxTimerNum,
    RoundOk callback now ((List.range i).foldl (processRound callback now) s) i))

instance (s : BltSoftTimer) : Decidable (ProcessCond callback now s) :=
  inferInstanceAs (Decidable ((firing now s.timer ≠ [] →
    ∀ e ∈ s.timer[0]?, bltIsTimerExpired e.t now = true) ∧ LoopOk callback now s))

/-- The next timer does not fire behind one that fires with a negative result. -/
def NextOk (result : BltTimeEvent → ℤ) (now : ℕ) (e e' : BltTimeEvent) : Prop :=
  e.fires now = true → result e < 0 → e'.fires now = false

instance (result : BltTimeEvent → ℤ) (now : ℕ) : DecidableRel (NextOk result now) := fun e e' =>
  inferInstanceAs (Decidable (e.fires now = true → result e < 0 → e'.fires now = false))

/-- For results that depend on the timers alone: the first timer is expired if any fires, and
none fires right behind a timer that deletes itself. -/
structure EntryCond (result : BltTimeEvent → ℤ) (now : ℕ) (l : List BltTimeEvent) : Prop where
  first : firing now l ≠ [] → ∀ e, l[0]? = some e → bltIsTimerExpired e.t now = true
  next : l.IsChain (NextOk result now)

/-- The timers are numbered, and the table is not overfull. -/
structure BltSoftTimer.Valid (s : BltSoftTimer) : Prop where
  length_le : s.timer.length ≤ maxTimerNum
  nodup : (s.timer.map BltTimeEvent.id).Nodup
  id_lt : ∀ e ∈ s.timer, e.id < s.added

/-! ## The table operations -/

theorem bubbleFrom_perm (a : BltTimeEvent) (l : List BltTimeEvent) :
    (bubbleFrom a l).Perm (a :: l) := by
  induction l generalizing a with
  | nil => exact List.Perm.refl _
  | cons b l ih =>
    unfold bubbleFrom
    split
    · exact ((ih a).cons b).trans (List.Perm.swap a b l)
    · exact (ih b).cons a

theorem bubblePass_perm : ∀ l : List BltTimeEvent, (bubblePass l).Perm l
  | [] => List.Perm.refl _
  | a :: l => bubbleFrom_perm a l

/-- Sorting the timers only changes their order. -/
theorem bltSoftTimerSort_perm (l : List BltTimeEvent) : (bltSoftTimerSort l).Perm l := by
  unfold bltSoftTimerSort
  split
  · exact List.Perm.refl _
  · generalize List.range (l.length - 1) = rounds
    -- every round permutes what the rounds before it left
    have hround : ∀ m : List BltTimeEvent, (rounds.foldl (fun l i =>
        bubblePass (l.take (l.length - i)) ++ l.drop (l.length - i)) m).Perm m := by
      induction rounds with
      | nil => exact fun m => List.Perm.refl _
      | cons i rounds ih =>
        intro m
        apply (ih _).trans
        have hpass := (bubblePass_perm (m.take (m.length - i))).append_right
          (m.drop (m.length - i))
        rwa [List.take_append_drop] at hpass
    exact hround l

namespace BltSoftTimer.Valid

variable {s : BltSoftTimer}

theorem of_perm {l : List BltTimeEvent} (h : s.Valid) (hl : l.Perm s.timer) :
    BltSoftTimer.Valid { s with timer := l } where
  length_le := hl.length_eq ▸ h.length_le
  nodup := (hl.map _).nodup_iff.mpr h.nodup
  id_lt e he := h.id_lt e (hl.subset he)

theorem of_sublist {l : List BltTimeEvent} (h : s.Valid) (hl : l.Sublist s.timer) :
    BltSoftTimer.Valid { s with timer := l } where
  length_le := Nat.le_trans hl.length_le h.length_le
  nodup := (hl.map _).nodup h.nodup
  id_lt e he := h.id_lt e (hl.subset he)

/-- An update of timers that keeps their numbers. -/
theorem of_map_id {l : List BltTimeEvent} (h : s.Valid)
    (hl : l.map BltTimeEvent.id = s.timer.map BltTimeEvent.id) :
    BltSoftTimer.Valid { s with timer := l } where
  length_le := by
    have hlen := congrArg List.length hl
    rw [List.length_map, List.length_map] at hlen
    exact hlen ▸ h.length_le
  nodup := by
    show (l.map BltTimeEvent.id).Nodup
    rw [hl]
    exact h.nodup
  id_lt e he := by
    have hmem : e.id ∈ s.timer.map BltTimeEvent.id := hl ▸ List.mem_map_of_mem he
    obtain ⟨e', he', heq⟩ := List.mem_map.mp hmem
    exact heq ▸ h.id_lt e' he'

theorem fire (h : s.Valid) (fired : List ℕ) : BltSoftTimer.Valid { s with fired := fired } :=
  ⟨h.length_le, h.nodup, h.id_lt⟩

/-- The new timer gets a number that no timer had before. -/
theorem add (h : s.Valid) (func : Option ℕ) (intervalUs now : ℕ) :
    (s.bltSoftTimerAdd func intervalUs now).Valid := by
  unfold bltSoftTimerAdd
  split
  · exact h
  case isFalse hroom =>
    dsimp only
    generalize hnew : (⟨s.added, func, _, _⟩ : BltTimeEvent) = new
    have hid : new.id = s.added := hnew ▸ rfl
    have happend : BltSoftTimer.Valid
        { s with timer := s.timer ++ [new], added := s.added + 1 } := by
      refine ⟨?_, ?_, ?_⟩
      · show (s.timer ++ [new]).length ≤ maxTimerNum
        rw [List.length_append, List.length_singleton]
        omega
      · show ((s.timer ++ [new]).map BltTimeEvent.id).Nodup
        rw [List.map_append, List.nodup_append]
        refine ⟨h.nodup, List.nodup_singleton _, ?_⟩
        intro a ha b hb
        obtain ⟨e, he, rfl⟩ := List.mem_map.mp ha
        have hlt := h.id_lt e he
        rw [List.map_singleton, List.mem_singleton] at hb
        omega
      · intro e he
        rcases List.mem_append.mp he with he | he
        · exact Nat.lt_succ_of_lt (h.id_lt e he)
        · rw [List.mem_singleton.mp he, hid]
          exact Nat.lt_succ_self _
    exact happend.of_perm (bltSoftTimerSort_perm _)

theorem deleteByIndex (h : s.Valid) (index : ℕ) : (s.bltSoftTimerDeleteByIndex index).Valid :=
  h.of_sublist (List.eraseIdx_sublist _ _)

theorem delete (h : s.Valid) (func : Option ℕ) : (s.bltSoftTimerDelete func).Valid := by
  unfold bltSoftTimerDelete
  split
  · exact h.deleteByIndex _
  · exact h

theorem apply (h : s.Valid) (call : TimerCall) : (call.apply s).Valid := by
  cases call with
  | add func intervalUs now => exact h.add func intervalUs now
  | delete func => exact h.delete func

theorem callTimer (h : s.Valid) (callback : TimerCallbacks) (e : BltTimeEvent) :
    (callTimer callback s e).Valid := by
  unfold Common.callTimer
  generalize (callback s e).1 = calls
  have hfire := h.fire (s.fired ++ [e.id])
  generalize { s with fired := s.fired ++ [e.id] } = s' at hfire ⊢
  induction calls generalizing s' with
  | nil => exact hfire
  | cons call calls ih => exact ih _ (hfire.apply call)

end BltSoftTimer.Valid

/-! ## Updates by index and by number -/

section Update

variable {l : List BltTimeEvent} {i : ℕ} {e : BltTimeEvent}

theorem map_id_modify {f : BltTimeEvent → BltTimeEvent} (hf : ∀ e, (f e).id = e.id)
    (l : List BltTimeEvent) (i : ℕ) :
    (l.modify i f).map BltTimeEvent.id = l.map BltTimeEvent.id := by
  induction l generalizing i with
  | nil => rw [List.modify_nil]
  | cons a l ih =>
    cases i with
    | zero => rw [List.modify_zero_cons, List.map_cons, List.map_cons, hf]
    | succ i => rw [List.modify_succ_cons, List.map_cons, List.map_cons, ih]

theorem eraseIdx_eq_filter (hl : (l.map BltTimeEvent.id).Nodup) (he : l[i]? = some e) :
    l.eraseIdx i = l.filter fun e' => e'.id ≠ e.id := by
  induction l generalizing i with
  | nil => cases he
  | cons a l ih =>
    rw [List.map_cons, List.nodup_cons] at hl
    cases i with
    | zero =>
      cases he
      rw [List.filter_cons_of_neg (by simp), List.eraseIdx_cons_zero]
      symm
      rw [List.filter_eq_self]
      intro e' he'
      have hne : e'.id ≠ e.id := fun heq => hl.1 (heq ▸ List.mem_map_of_mem he')
      simpa using hne
    | succ i =>
      rw [List.getElem?_cons_succ] at he
      have hne : a.id ≠ e.id :=
        fun heq => hl.1 (heq ▸ List.mem_map_of_mem (List.mem_of_getElem? he))
      rw [List.filter_cons_of_pos (by simpa using hne), List.eraseIdx_cons_succ, ih hl.2 he]

theorem modify_eq_map (f : BltTimeEvent → BltTimeEvent) (hl : (l.map BltTimeEvent.id).Nodup)
    (he : l[i]? = some e) :
    l.modify i f = l.map fun e' => if e'.id = e.id then f e' else e' := by
  induction l generalizing i with
  | nil => cases he
  | cons a l ih =>
    rw [List.map_cons, List.nodup_cons] at hl
    cases i with
    | zero =>
      cases he
      rw [List.modify_zero_cons, List.map_cons, if_pos rfl]
      have hid : l.map (fun e' => if e'.id = e.id then f e' else e') = l.map id := by
        apply List.map_congr_left
        intro e' he'
        have hne : e'.id ≠ e.id := fun heq => hl.1 (heq ▸ List.mem_map_of_mem he')
        exact if_neg hne
      rw [hid, List.map_id]
    | succ i =>
      rw [List.getElem?_cons_succ] at he
      have hne : a.id ≠ e.id :=
        fun heq => hl.1 (heq ▸ List.mem_map_of_mem (List.mem_of_getElem? he))
      rw [List.modify_succ_cons, List.map_cons, if_neg hne, ih hl.2 he]

variable {now : ℕ}

theorem firing_drop_of_none (he : l[i]? = none) : firing now (l.drop i) = [] := by
  rw [List.drop_eq_nil_of_le (List.getElem?_eq_none_iff.mp he)]
  rfl

theorem drop_eq_cons (he : l[i]? = some e) : l.drop i = e :: l.drop (i + 1) := by
  obtain ⟨hi, rfl⟩ := List.getElem?_eq_some_iff.mp he
  exact List.drop_eq_getElem_cons hi

theorem firing_drop_of_quiet (he : l[i]? = some e) (hfires : e.fires now = false) :
    firing now (l.drop i) = firing now (l.drop (i + 1)) := by
  rw [drop_eq_cons he, firing, List.filter_cons_of_neg (by rw [hfires]; exact Bool.false_ne_true)]
  rfl

theorem firing_drop_of_fires (he : l[i]? = some e) (hfires : e.fires now = true) :
    firing now (l.drop i) = e :: firing now (l.drop (i + 1)) := by
  rw [drop_eq_cons he, firing, List.filter_cons_of_pos hfires]
  rfl

/-- What does not fire may be left out. -/
theorem firing_drop_of_not_fires (h : ∀ e, l[i]? = some e → e.fires now = false) :
    firing now (l.drop i) = firing now (l.drop (i + 1)) := by
  cases he : l[i]? with
  | none =>
    have hnext : l[i + 1]? = none := by
      rw [List.getElem?_eq_none_iff] at he ⊢
      omega
    rw [firing_drop_of_none he, firing_drop_of_none hnext]
  | some e => exact firing_drop_of_quiet he (h e he)

theorem exists_fires (h : ¬ ∀ e, l[i]? = some e → e.fires now = false) :
    ∃ e, l[i]? = some e ∧ e.fires now = true := by
  push Not at h
  obtain ⟨e, he, hfires⟩ := h
  exact ⟨e, he, by simpa using hfires⟩

/-- One timer less fires at most one time less, and not less only if it does not fire. -/
theorem length_firing_drop (now : ℕ) (l : List BltTimeEvent) (i : ℕ) :
    (firing now (l.drop (i + 1))).length ≤ (firing now (l.drop i)).length ∧
      ((firing now (l.drop i)).length ≤ (firing now (l.drop (i + 1))).length →
        ∀ e, l[i]? = some e → e.fires now = false) := by
  by_cases h : ∀ e, l[i]? = some e → e.fires now = false
  · rw [firing_drop_of_not_fires h]
    exact ⟨Nat.le_refl _, fun _ => h⟩
  · obtain ⟨e, he, hfires⟩ := exists_fires h
    rw [firing_drop_of_fires he hfires, List.length_cons]
    exact ⟨Nat.le_succ _, fun hle => absurd hle (Nat.not_succ_le_self _)⟩

/-- What is behind a deleted timer and the next one. -/
theorem drop_eraseIdx (l : List BltTimeEvent) (i : ℕ) :
    (l.eraseIdx i).drop (i + 1) = l.drop (i + 1 + 1) := by
  apply List.ext_getElem?
  intro j
  rw [List.getElem?_drop, List.getElem?_drop, List.getElem?_eraseIdx_of_ge (by omega)]
  congr 1
  omega

end Update

/-! ## A round of the loop -/

section Round

variable {callback now} {s : BltSoftTimer} {i : ℕ} {e : BltTimeEvent}

theorem processRound_none (he : s.timer[i]? = none) : processRound callback now s i = s := by
  unfold processRound
  rw [he]

theorem processRound_quiet (he : s.timer[i]? = some e) (hfires : e.fires now = false) :
    processRound callback now s i = s := by
  unfold processRound
  rw [he]
  simp only [hfires, Bool.false_eq_true, if_false]

theorem processRound_of_not_fires (h : ∀ e, s.timer[i]? = some e → e.fires now = false) :
    processRound callback now s i = s := by
  cases he : s.timer[i]? with
  | none => exact processRound_none he
  | some e => exact processRound_quiet he (h e he)

theorem processRound_delete (he : s.timer[i]? = some e) (hfires : e.fires now = true)
    (hres : (callback s e).2 < 0) :
    processRound callback now s i = (callTimer callback s e).bltSoftTimerDeleteByIndex i := by
  unfold processRound
  rw [he]
  simp only [hfires, if_true, hres]

theorem processRound_keep (he : s.timer[i]? = some e) (hfires : e.fires now = true)
    (hres : ¬ (callback s e).2 < 0) :
    processRound callback now s i = { callTimer callback s e with
      timer := (callTimer callback s e).timer.modify i fun e' =>
        e'.rearm now (callback s e).2 } := by
  unfold processRound
  rw [he]
  simp only [hfires, if_true, hres, if_false]

theorem BltTimeEvent.rearm_id (e : BltTimeEvent) (now : ℕ) (result : ℤ) :
    (e.rearm now result).id = e.id := rfl

/-- The loop keeps the table well formed. -/
theorem BltSoftTimer.Valid.round (h : s.Valid) (callback : TimerCallbacks) (now i : ℕ) :
    (processRound callback now s i).Valid := by
  cases he : s.timer[i]? with
  | none => rwa [processRound_none he]
  | some e =>
    cases hfires : e.fires now with
    | false => rwa [processRound_quiet he hfires]
    | true =>
      have hcall := h.callTimer callback e
      by_cases hres : (callback s e).2 < 0
      · rw [processRound_delete he hfires hres]
        exact hcall.deleteByIndex i
      · rw [processRound_keep he hfires hres]
        apply hcall.of_map_id
        exact map_id_modify (fun e' => e'.rearm_id now _) _ i

/-- The calls of a callback fire no timer. -/
theorem callTimer_fired (callback : TimerCallbacks) (s : BltSoftTimer) (e : BltTimeEvent) :
    (callTimer callback s e).fired = s.fired ++ [e.id] := by
  have hcall : ∀ (s : BltSoftTimer) (call : TimerCall), (call.apply s).fired = s.fired := by
    intro s call
    cases call with
    | add func intervalUs now =>
      show (s.bltSoftTimerAdd func intervalUs now).fired = s.fired
      unfold bltSoftTimerAdd
      split <;> rfl
    | delete func =>
      show (s.bltSoftTimerDelete func).fired = s.fired
      unfold bltSoftTimerDelete
      split <;> rfl
  unfold callTimer
  generalize (callback s e).1 = calls
  have hfold : ∀ s' : BltSoftTimer, (calls.foldl TimerCall.apply s').fired = s'.fired := by
    induction calls with
    | nil => exact fun _ => rfl
    | cons call calls ih => exact fun s' => (ih _).trans (hcall s' call)
  exact hfold _

theorem processRound_fired (he : s.timer[i]? = some e) (hfires : e.fires now = true) :
    (processRound callback now s i).fired = s.fired ++ [e.id] := by
  by_cases hres : (callback s e).2 < 0
  · rw [processRound_delete he hfires hres]
    exact callTimer_fired callback s e
  · rw [processRound_keep he hfires hres]
    exact callTimer_fired callback s e

/-- A round in order that calls a callback updates the timer it called. -/
theorem RoundOk.eq_fireById (hok : RoundOk callback now s i) (h : s.Valid)
    (he : s.timer[i]? = some e) (hfires : e.fires now = true) :
    processRound callback now s i = fireById callback now s e := by
  obtain ⟨htake, -, -⟩ := hok e he hfires
  have hnodup := (h.callTimer callback e).nodup
  have hsame : (callTimer callback s e).timer[i]? = some e := by
    rw [← List.getElem?_take_of_lt (Nat.lt_succ_self i), htake,
      List.getElem?_take_of_lt (Nat.lt_succ_self i), he]
  unfold fireById
  by_cases hres : (callback s e).2 < 0
  · rw [processRound_delete he hfires hres, bltSoftTimerDeleteByIndex,
      eraseIdx_eq_filter hnodup hsame]
    exact (if_pos hres).symm
  · rw [processRound_keep he hfires hres, modify_eq_map _ hnodup hsame]
    exact (if_neg hres).symm

/-- A round in order leaves what fires behind it. -/
theorem RoundOk.firing_eq (hok : RoundOk callback now s i) (he : s.timer[i]? = some e)
    (hfires : e.fires now = true) :
    firing now ((processRound callback now s i).timer.drop (i + 1)) =
      firing now (s.timer.drop (i + 1)) := by
  obtain ⟨-, hbehind, hnext⟩ := hok e he hfires
  rw [← hbehind]
  by_cases hres : (callback s e).2 < 0
  · rw [processRound_delete he hfires hres]
    show firing now (((callTimer callback s e).timer.eraseIdx i).drop (i + 1)) = _
    -- the deletion moves the next timer to the index `i`, where the loop has been
    rw [drop_eraseIdx, firing_drop_of_not_fires (hnext hres)]
  · rw [processRound_keep he hfires hres]
    show firing now (((callTimer callback s e).timer.modify i _).drop (i + 1)) = _
    rw [List.drop_modify_of_lt _ _ _ _ (Nat.lt_succ_self i)]

end Round

/-! ## The loop -/

section Loop

variable {callback now} {s : BltSoftTimer}

/-- The rounds before `i`. -/
theorem loop_succ (s : BltSoftTimer) (i : ℕ) :
    (List.range (i + 1)).foldl (processRound callback now) s =
      processRound callback now ((List.range i).foldl (processRound callback now) s) i := by
  rw [List.range_succ, List.foldl_append]
  rfl

theorem BltSoftTimer.Valid.loop (h : s.Valid) (callback : TimerCallbacks) (now i : ℕ) :
    BltSoftTimer.Valid ((List.range i).foldl (processRound callback now) s) := by
  induction i with
  | zero => exact h
  | succ i ih =>
    rw [loop_succ]
    exact ih.round callback now i

/-- Behind the rounds before `i`, firing what is left leads to the same table as firing
everything at first. -/
structure LoopInv (callback : TimerCallbacks) (now : ℕ) (s₀ : BltSoftTimer) (s : BltSoftTimer)
    (i : ℕ) : Prop where
  fired : s.fired ++ (firing now (s.timer.drop i)).map BltTimeEvent.id =
    s₀.fired ++ (firing now s₀.timer).map BltTimeEvent.id
  table : (firing now (s.timer.drop i)).foldl (fireById callback now) s =
    fireAll callback now s₀

theorem LoopInv.step {s₀ : BltSoftTimer} {i : ℕ} (hinv : LoopInv callback now s₀ s i)
    (h : s.Valid) (hok : RoundOk callback now s i) :
    LoopInv callback now s₀ (processRound callback now s i) (i + 1) := by
  by_cases hquiet : ∀ e, s.timer[i]? = some e → e.fires now = false
  · rw [processRound_of_not_fires hquiet]
    refine ⟨?_, ?_⟩
    · rw [← firing_drop_of_not_fires hquiet]
      exact hinv.fired
    · rw [← firing_drop_of_not_fires hquiet]
      exact hinv.table
  · obtain ⟨e, he, hfires⟩ := exists_fires hquiet
    refine ⟨?_, ?_⟩
    · rw [hok.firing_eq he hfires, processRound_fired he hfires, List.append_assoc]
      rw [← hinv.fired, firing_drop_of_fires he hfires]
      rfl
    · rw [hok.firing_eq he hfires, hok.eq_fireById h he hfires]
      rw [← hinv.table, firing_drop_of_fires he hfires]
      rfl

theorem LoopOk.loopInv (hok : LoopOk callback now s) (h : s.Valid) {i : ℕ}
    (hi : i ≤ maxTimerNum) :
    LoopInv callback now s ((List.range i).foldl (processRound callback now) s) i := by
  induction i with
  | zero => exact ⟨rfl, rfl⟩
  | succ i ih =>
    rw [loop_succ]
    exact (ih (by omega)).step (h.loop callback now i) (hok i hi)

/-- Behind the last round nothing is left. -/
theorem firing_drop_maxTimerNum (h : s.Valid) (now : ℕ) :
    firing now (s.timer.drop maxTimerNum) = [] := by
  rw [List.drop_eq_nil_of_le h.length_le]
  rfl

theorem LoopInv.final {s₀ : BltSoftTimer} (hinv : LoopInv callback now s₀ s maxTimerNum)
    (h : s.Valid) : s.fired = s₀.fired ++ (firing now s₀.timer).map BltTimeEvent.id ∧
      s = fireAll callback now s₀ := by
  have hfired := hinv.fired
  have htable := hinv.table
  rw [firing_drop_maxTimerNum h] at hfired htable
  rw [List.map_nil, List.append_nil] at hfired
  exact ⟨hfired, htable⟩

/-- What is left of a call that enters the loop, up to the order of the table. -/
theorem process_expired {e : BltTimeEvent} (he : s.timer[0]? = some e)
    (hexp : bltIsTimerExpired e.t now = true) :
    (bltSoftTimerProcess callback now s).fired = (processLoop callback now s).fired ∧
      (bltSoftTimerProcess callback now s).timer.Perm (processLoop callback now s).timer := by
  unfold bltSoftTimerProcess
  rw [he]
  simp only [hexp, if_true]
  split
  · exact ⟨rfl, bltSoftTimerSort_perm _⟩
  · exact ⟨rfl, List.Perm.refl _⟩

theorem process_not_expired {e : BltTimeEvent} (he : s.timer[0]? = some e)
    (hexp : bltIsTimerExpired e.t now = false) : bltSoftTimerProcess callback now s = s := by
  unfold bltSoftTimerProcess
  rw [he]
  simp only [hexp, Bool.false_eq_true, if_false]

theorem process_empty (he : s.timer[0]? = none) : bltSoftTimerProcess callback now s = s := by
  unfold bltSoftTimerProcess
  rw [he]

/-- Where nothing fires, leaving the table alone is right. -/
theorem processOk_of_firing_nil (hnil : firing now s.timer = [])
    (hproc : bltSoftTimerProcess callback now s = s) : ProcessOk callback now s where
  fired := by rw [hproc, hnil, List.map_nil, List.append_nil]
  table := by
    rw [hproc, fireAll, hnil]
    exact List.Perm.refl _

theorem ProcessCond.processOk (hcond : ProcessCond callback now s) (h : s.Valid) :
    ProcessOk callback now s := by
  cases he : s.timer[0]? with
  | none =>
    have hnil : firing now (s.timer.drop 0) = [] := firing_drop_of_none he
    exact processOk_of_firing_nil hnil (process_empty he)
  | some e =>
    cases hexp : bltIsTimerExpired e.t now with
    | false =>
      apply processOk_of_firing_nil _ (process_not_expired he hexp)
      by_contra hfiring
      exact Bool.false_ne_true (hexp.symm.trans (hcond.1 hfiring e he))
    | true =>
      obtain ⟨hfired, htimer⟩ := @process_expired callback now s e he hexp
      obtain ⟨hfired', htable⟩ := (hcond.2.loopInv h (Nat.le_refl _)).final (h.loop callback now _)
      refine ⟨hfired.trans hfired', ?_⟩
      rw [← htable]
      exact htimer

/-! ## Callbacks that call nothing -/

/-- The timers called so far, and those that are still to be called. -/
def load (now : ℕ) (s : BltSoftTimer) (i : ℕ) : ℕ :=
  s.fired.length + (firing now (s.timer.drop i)).length

theorem callTimer_quiet (hquiet : ∀ s e, (callback s e).1 = []) {e : BltTimeEvent} :
    (callTimer callback s e).timer = s.timer := by
  unfold callTimer
  rw [hquiet]
  rfl

/-- The timer behind one that is deleted is passed over. -/
theorem drop_processRound_delete (hquiet : ∀ s e, (callback s e).1 = []) {i : ℕ}
    {e : BltTimeEvent} (he : s.timer[i]? = some e) (hfires : e.fires now = true)
    (hres : (callback s e).2 < 0) :
    (processRound callback now s i).timer.drop (i + 1) = s.timer.drop (i + 1 + 1) := by
  rw [processRound_delete he hfires hres, bltSoftTimerDeleteByIndex]
  show ((callTimer callback s e).timer.eraseIdx i).drop (i + 1) = _
  rw [drop_eraseIdx, callTimer_quiet hquiet]

theorem drop_processRound_keep (hquiet : ∀ s e, (callback s e).1 = []) {i : ℕ}
    {e : BltTimeEvent} (he : s.timer[i]? = some e) (hfires : e.fires now = true)
    (hres : ¬ (callback s e).2 < 0) :
    (processRound callback now s i).timer.drop (i + 1) = s.timer.drop (i + 1) := by
  rw [processRound_keep he hfires hres, callTimer_quiet hquiet]
  exact List.drop_modify_of_lt _ _ _ _ (Nat.lt_succ_self i)

/-- A callback that calls nothing is in order if a timer that it deletes has none behind it that
fires. -/
theorem roundOk_of_quiet (hquiet : ∀ s e, (callback s e).1 = []) {i : ℕ} {e : BltTimeEvent}
    (he : s.timer[i]? = some e)
    (hnext : (callback s e).2 < 0 → ∀ e', s.timer[i + 1]? = some e' → e'.fires now = false) :
    RoundOk callback now s i := by
  intro e' he' _
  rw [he] at he'
  cases he'
  show _ ∧ _ ∧ _
  rw [callTimer_quiet hquiet]
  exact ⟨rfl, rfl, hnext⟩

/-- A round never adds to the timers that are called in all, and if it loses none, it is in
order. -/
theorem load_round (hquiet : ∀ s e, (callback s e).1 = []) (s : BltSoftTimer) (i : ℕ) :
    load now (processRound callback now s i) (i + 1) ≤ load now s i ∧
      (load now s i ≤ load now (processRound callback now s i) (i + 1) →
        RoundOk callback now s i) := by
  by_cases hfiring : ∀ e, s.timer[i]? = some e → e.fires now = false
  · rw [processRound_of_not_fires hfiring, load, load, firing_drop_of_not_fires hfiring]
    refine ⟨Nat.le_refl _, fun _ e he hfires => ?_⟩
    exact absurd ((hfiring e he).symm.trans hfires) Bool.false_ne_true
  · obtain ⟨e, he, hfires⟩ := exists_fires hfiring
    unfold load
    rw [processRound_fired he hfires, firing_drop_of_fires he hfires, List.length_append,
      List.length_singleton, List.length_cons]
    by_cases hres : (callback s e).2 < 0
    · -- the timer behind the one that is deleted is not looked at
      obtain ⟨hle, hlost⟩ := length_firing_drop now s.timer (i + 1)
      rw [drop_processRound_delete hquiet he hfires hres]
      exact ⟨by omega, fun h => roundOk_of_quiet hquiet he fun _ => hlost (by omega)⟩
    · have hok : RoundOk callback now s i :=
        roundOk_of_quiet hquiet he fun hneg => absurd hneg hres
      rw [hok.firing_eq he hfires]
      exact ⟨by omega, fun _ => hok⟩

theorem load_loop_antitone (hquiet : ∀ s e, (callback s e).1 = []) {i j : ℕ} (hij : i ≤ j) :
    load now ((List.range j).foldl (processRound callback now) s) j ≤
      load now ((List.range i).foldl (processRound callback now) s) i := by
  induction hij with
  | refl => exact Nat.le_refl _
  | step _ ih =>
    rw [Nat.succ_eq_add_one, loop_succ]
    exact Nat.le_trans (load_round hquiet _ _).1 ih

/-- The loop leaves a table alone in which nothing fires. -/
theorem loop_of_firing_nil (hnil : firing now s.timer = []) (j : ℕ) :
    (List.range j).foldl (processRound callback now) s = s := by
  induction j with
  | zero => rfl
  | succ j ih =>
    rw [loop_succ, ih]
    cases he : s.timer[j]? with
    | none => exact processRound_none he
    | some e =>
      apply processRound_quiet he
      have hno := List.filter_eq_nil_iff.mp hnil e (List.mem_of_getElem? he)
      rwa [Bool.not_eq_true] at hno

/-- Where the callbacks call nothing, only rounds in order call everything. -/
theorem ProcessOk.processCond (hok : ProcessOk callback now s) (h : s.Valid)
    (hquiet : ∀ s e, (callback s e).1 = []) : ProcessCond callback now s := by
  have hcount := congrArg List.length hok.fired
  rw [List.length_append, List.length_map] at hcount
  constructor
  · intro hfiring e he
    by_contra hexp
    rw [Bool.not_eq_true] at hexp
    rw [process_not_expired he hexp] at hcount
    exact hfiring (List.eq_nil_of_length_eq_zero (by omega))
  · intro i hi
    have hlast : load now s 0 ≤ load now (processLoop callback now s) maxTimerNum := by
      have hload : load now (processLoop callback now s) maxTimerNum =
          (processLoop callback now s).fired.length := by
        rw [load, processLoop, firing_drop_maxTimerNum (h.loop callback now _)]
        rfl
      rw [hload]
      show s.fired.length + (firing now s.timer).length ≤ (processLoop callback now s).fired.length
      rw [← hcount]
      apply Nat.le_of_eq
      cases he : s.timer[0]? with
      | none =>
        rw [process_empty he, processLoop, loop_of_firing_nil (firing_drop_of_none he)]
      | some e =>
        cases hexp : bltIsTimerExpired e.t now with
        | true => rw [(process_expired he hexp).1]
        | false =>
          rw [process_not_expired he hexp] at hcount ⊢
          rw [processLoop, loop_of_firing_nil (List.eq_nil_of_length_eq_zero (by omega))]
    apply (load_round hquiet _ i).2
    rw [← loop_succ]
    exact Nat.le_trans (load_loop_antitone hquiet (Nat.zero_le i))
      (Nat.le_trans hlast (load_loop_antitone hquiet hi))

/-! ## Results of the timers alone -/

/-- The first of a chain, where nothing is asked of the next. -/
theorem isChain_cons_of {α : Type*} {R : α → α → Prop} {x : α} {l : List α} (h : ∀ y, R x y) :
    (x :: l).IsChain R ↔ l.IsChain R := by
  cases l with
  | nil => exact iff_of_true (.singleton x) .nil
  | cons y l => exact List.isChain_cons_cons.trans (and_iff_right (h y))

/-- A round is in order and what it leaves is a chain exactly if what it finds is one. -/
theorem round_isChain_iff {result : BltTimeEvent → ℤ} (hcb : ∀ s e, callback s e = ([], result e))
    (s : BltSoftTimer) (i : ℕ) :
    (RoundOk callback now s i ∧
        ((processRound callback now s i).timer.drop (i + 1)).IsChain (NextOk result now)) ↔
      (s.timer.drop i).IsChain (NextOk result now) := by
  have hquiet (s : BltSoftTimer) (e : BltTimeEvent) : (callback s e).1 = [] := by rw [hcb]
  cases he : s.timer[i]? with
  | none =>
    have hle := List.getElem?_eq_none_iff.mp he
    rw [processRound_none he, List.drop_eq_nil_of_le hle, List.drop_eq_nil_of_le (by omega)]
    refine iff_of_true ⟨fun e he' => ?_, .nil⟩ .nil
    rw [he] at he'
    cases he'
  | some e =>
    rw [drop_eq_cons he]
    have hall (h : ¬ (e.fires now = true ∧ result e < 0)) (e' : BltTimeEvent) :
        NextOk result now e e' :=
      fun hfires hneg => absurd ⟨hfires, hneg⟩ h
    cases hfires : e.fires now with
    | false =>
      have hnot : ¬ (e.fires now = true ∧ result e < 0) := fun hboth =>
        Bool.false_ne_true (hfires.symm.trans hboth.1)
      rw [processRound_quiet he hfires, isChain_cons_of (hall hnot)]
      refine and_iff_right fun e' he' hfires' => ?_
      rw [he] at he'
      cases he'
      exact absurd (hfires.symm.trans hfires') Bool.false_ne_true
    | true =>
      by_cases hneg : result e < 0
      · have hres : (callback s e).2 < 0 := by rwa [hcb]
        have hround : RoundOk callback now s i ↔
            ∀ e', s.timer[i + 1]? = some e' → e'.fires now = false := by
          constructor
          · intro hok
            have hnext := (hok e he hfires).2.2 hres
            rwa [callTimer_quiet hquiet] at hnext
          · exact fun hnext => roundOk_of_quiet hquiet he fun _ => hnext
        rw [drop_processRound_delete hquiet he hfires hres, hround]
        cases hnext : s.timer[i + 1]? with
        | none =>
          have hle := List.getElem?_eq_none_iff.mp hnext
          rw [List.drop_eq_nil_of_le hle, List.drop_eq_nil_of_le (by omega)]
          exact iff_of_true ⟨fun e' he' => (nomatch he'), .nil⟩ (.singleton e)
        | some e' =>
          rw [drop_eq_cons hnext, List.isChain_cons_cons]
          have hnextOk : NextOk result now e e' ↔ e'.fires now = false :=
            ⟨fun h => h hfires hneg, fun h _ _ => h⟩
          rw [hnextOk]
          constructor
          · rintro ⟨hquiet', hchain⟩
            refine ⟨hquiet' e' rfl, (isChain_cons_of fun e'' hfires' => ?_).mpr hchain⟩
            exact absurd ((hquiet' e' rfl).symm.trans hfires') Bool.false_ne_true
          · rintro ⟨hquiet', hchain⟩
            refine ⟨fun e'' he'' => Option.some.inj he'' ▸ hquiet', ?_⟩
            exact (isChain_cons_of fun e'' hfires' =>
              absurd (hquiet'.symm.trans hfires') Bool.false_ne_true).mp hchain
      · have hres : ¬ (callback s e).2 < 0 := by rwa [hcb]
        have hok : RoundOk callback now s i :=
          roundOk_of_quiet hquiet he fun h => absurd h hres
        rw [drop_processRound_keep hquiet he hfires hres, and_iff_right hok, isChain_cons_of (hall fun hboth => hneg hboth.2)]

/-- The rounds from `i` on are in order exactly if the timers from `i` on are a chain. -/
theorem roundsOk_iff_isChain {result : BltTimeEvent → ℤ}
    (hcb : ∀ s e, callback s e = ([], result e)) (h : s.Valid) {i n : ℕ} (hn : i + n = maxTimerNum) :
    (∀ k, i ≤ k → k < maxTimerNum →
        RoundOk callback now ((List.range k).foldl (processRound callback now) s) k) ↔
      (((List.range i).foldl (processRound callback now) s).timer.drop i).IsChain
        (NextOk result now) := by
  induction n generalizing i with
  | zero =>
    have hlen := (h.loop callback now i).length_le
    have hle : ((List.range i).foldl (processRound callback now) s).timer.length ≤ i := by omega
    rw [List.drop_eq_nil_of_le hle]
    exact iff_of_true (fun k hik hk => by omega) .nil
  | succ n ih =>
    rw [← round_isChain_iff hcb, ← loop_succ, ← ih (by omega)]
    constructor
    · exact fun hall => ⟨hall i (Nat.le_refl i) (by omega), fun k hik hk => hall k (by omega) hk⟩
    · rintro ⟨hround, hrest⟩ k hik hk
      obtain rfl | hlt := Nat.eq_or_lt_of_le hik
      · exact hround
      · exact hrest k hlt hk

theorem processCond_iff_entryCond {result : BltTimeEvent → ℤ}
    (hcb : ∀ s e, callback s e = ([], result e)) (h : s.Valid) :
    ProcessCond callback now s ↔ EntryCond result now s.timer := by
  have hchain : (∀ k, 0 ≤ k → k < maxTimerNum →
        RoundOk callback now ((List.range k).foldl (processRound callback now) s) k) ↔
      (s.timer.drop 0).IsChain (NextOk result now) :=
    roundsOk_iff_isChain hcb h (Nat.zero_add maxTimerNum)
  constructor
  · exact fun hcond => ⟨hcond.1, hchain.mp fun k _ hk => hcond.2 k hk⟩
  · exact fun hentry => ⟨hentry.first, fun k hk => hchain.mpr hentry.next k (Nat.zero_le k) hk⟩

/-! ## Calls of `blt_soft_timer_process` -/

/-- A call of `blt_soft_timer_process` keeps the table well formed. -/
theorem BltSoftTimer.Valid.process (h : s.Valid) (callback : TimerCallbacks) (now : ℕ) :
    (bltSoftTimerProcess callback now s).Valid := by
  have hloop : (processLoop callback now s).Valid := h.loop callback now maxTimerNum
  unfold bltSoftTimerProcess
  cases s.timer[0]? with
  | none => exact h
  | some e =>
    dsimp only
    split
    · split
      · exact hloop.of_perm (bltSoftTimerSort_perm _)
      · exact hloop
    · exact h

/-- What happens to the timers: a call of the application, or one of the process function. -/
inductive SoftTimerEvent
  | call (c : TimerCall)
  | process (callback : TimerCallbacks) (now : ℕ)

def softTimerStep (s : BltSoftTimer) : SoftTimerEvent → BltSoftTimer
  | .call c => c.apply s
  | .process callback now => bltSoftTimerProcess callback now s

/-- Every history of the timers leaves a table that is well formed. -/
theorem valid_run (events : List SoftTimerEvent) :
    BltSoftTimer.Valid (Machine.run softTimerStep ⟨[], [], 0⟩ events) := by
  have hinit : BltSoftTimer.Valid ⟨[], [], 0⟩ :=
    ⟨Nat.zero_le _, List.nodup_nil, fun e he => nomatch he⟩
  refine Machine.run_invariant (fun s event hs _ => ?_) hinit (Machine.along_true _ events)
  cases event with
  | call c => exact hs.apply c
  | process callback now => exact hs.process callback now

/-- In a call of `blt_soft_timer_process` whose rounds are in order, the expired timers fire
once each and are updated as they ask. For callbacks that call nothing, in no other, and where
their results are those of the timers alone, the table at the entry tells. -/
theorem process_ok (callback : TimerCallbacks) (now : ℕ) (s : BltSoftTimer) (h : s.Valid) :
    (ProcessCond callback now s → ProcessOk callback now s) ∧
      ((∀ s e, (callback s e).1 = []) → ProcessOk callback now s →
        ProcessCond callback now s) ∧
      ∀ result : BltTimeEvent → ℤ, (∀ s e, callback s e = ([], result e)) →
        (ProcessOk callback now s ↔ EntryCond result now s.timer) := by
  have hquiet {result : BltTimeEvent → ℤ} (hcb : ∀ s e, callback s e = ([], result e))
      (s : BltSoftTimer) (e : BltTimeEvent) : (callback s e).1 = [] := by rw [hcb]
  refine ⟨fun hcond => hcond.processOk h, fun hquiet hok => hok.processCond h hquiet,
    fun result hcb => ?_⟩
  rw [← processCond_iff_entryCond hcb h]
  exact ⟨fun hok => hok.processCond h (hquiet hcb), fun hcond => hcond.processOk h⟩

/-- Three timers of which two are expired. The callback of the first adds a timer and keeps the
interval, the second deletes itself by its result. Without the addition the table tells. -/
theorem process_ok_example :
    let s : BltSoftTimer :=
      ⟨[⟨0, some 1, 900, 500⟩, ⟨1, some 2, 950, 600⟩, ⟨2, some 3, 9000000, 700⟩], [], 3⟩
    let result (e : BltTimeEvent) : ℤ := if e.id = 1 then -1 else 0
    ProcessOk (fun _ e => (if e.id = 0 then [.add (some 4) 2000 1000] else [], result e)) 1000 s ∧
      ProcessOk (fun _ e => ([], result e)) 1000 s := by
  intro s result
  have hvalid : s.Valid := ⟨by decide, by decide, by decide⟩
  constructor
  · exact (process_ok _ 1000 s hvalid).1 (by decide)
  · exact ((process_ok _ 1000 s hvalid).2.2 result fun _ _ => rfl).mpr
      ⟨by decide, by decide⟩

/-- Of two expired timers, the first deletes itself by its result, and the second does not
fire. A timer that deletes itself by a call leaves its deadline to the one behind it. -/
theorem not_processOk_example :
    ¬ ProcessOk (fun _ e => ([], if e.id = 0 then -1 else 0)) 1000
        ⟨[⟨0, some 1, 900, 500⟩, ⟨1, some 2, 950, 500⟩], [], 2⟩ ∧
      ¬ ProcessOk (fun _ e => ([.delete e.cb], 0)) 1000
        ⟨[⟨0, some 1, 900, 500⟩, ⟨1, some 2, 9000000, 500⟩], [], 2⟩ := by
  constructor
  · intro h
    exact absurd h.fired (by decide)
  · intro h
    exact absurd h.table (by decide)

end Loop

end TlBleSdk.Common
