import TlBleSdk.Common.SoftTimer
import Mathlib.Logic.Function.Basic

/-!
# The order of the software timers, and the wake-up

`blt_soft_timer.c` again: the order of the table, and what is announced to the power management.
The table only holds ticks, which wrap. Next to it there are the deadlines by a clock that does
not wrap, one for each number of a timer; the code never reads them.
-/

namespace TlBleSdk.Common

open Hci BltSoftTimer

/-! ## The deadlines -/

/-- The table, and the deadlines by a clock that does not wrap. -/
structure DueTimers where
  soft : BltSoftTimer
  due : ℕ → ℕ

namespace DueTimers

/-- A call, from a callback or from the application. -/
def apply (d : DueTimers) : TimerCall → DueTimers
  | .add func intervalUs now =>
    { soft := d.soft.bltSoftTimerAdd func intervalUs now
      due := if maxTimerNum ≤ d.soft.timer.length then d.due
        else Function.update d.due d.soft.added (now + u32 (intervalUs * systemTimerTick1us)) }
  | .delete func => { d with soft := d.soft.bltSoftTimerDelete func }

/-- The timer `e` is called. -/
def fire (d : DueTimers) (e : BltTimeEvent) : DueTimers :=
  { d with soft := { d.soft with fired := d.soft.fired ++ [e.id] } }

/-- `callTimer` with the deadlines. -/
def call (callback : TimerCallbacks) (d : DueTimers) (e : BltTimeEvent) : DueTimers :=
  (callback d.soft e).1.foldl apply (d.fire e)

/-- `processRound` with the deadlines. -/
def round (callback : TimerCallbacks) (now : ℕ) (d : DueTimers) (i : ℕ) : DueTimers :=
  match d.soft.timer[i]? with
  | none => d
  | some e =>
    if e.fires now then
      let result := (callback d.soft e).2
      let d := d.call callback e
      if result < 0 then { d with soft := d.soft.bltSoftTimerDeleteByIndex i }
      else
        { soft := { d.soft with timer := d.soft.timer.modify i fun e => e.rearm now result }
          due := match d.soft.timer[i]? with
            | some e => Function.update d.due e.id (now + (e.rearm now result).interval)
            | none => d.due }
    else d

/-- The rounds before `n`. -/
def rounds (callback : TimerCallbacks) (now : ℕ) (d : DueTimers) (n : ℕ) : DueTimers :=
  (List.range n).foldl (round callback now) d

/-- `blt_soft_timer_process` with the deadlines. -/
def process (callback : TimerCallbacks) (now : ℕ) (d : DueTimers) : DueTimers :=
  { soft := bltSoftTimerProcess callback now d.soft
    due := if d.soft.timer[0]?.any fun e => bltIsTimerExpired e.t now then
        (rounds callback now d maxTimerNum).due
      else d.due }

end DueTimers

/-! ## The wake-up -/

/-- `5000 * SYSTEM_TIMER_TICK_1MS`. -/
def wakeupWindow : ℕ := 5000 * (1000 * systemTimerTick1us)

/-- The timers, the last `blc_pm_setAppWakeupLowPower` call (`none` if it disabled the wake-up), and
the time of the last call. -/
structure SoftTimerPm where
  timers : DueTimers
  wakeup : Option ℕ
  clock : ℕ

/-- The first deadline is announced if it lies within 5 s, and else the wake-up is disabled. -/
def firstWakeup (l : List BltTimeEvent) (now : ℕ) : Option ℕ :=
  match l[0]? with
  | some e => if u32Sub e.t (u32 now) < wakeupWindow then some e.t else none
  | none => none

namespace SoftTimerPm

/-- Power-on. -/
def powerOn : SoftTimerPm := ⟨⟨⟨[], [], 0⟩, fun _ => 0⟩, none, 0⟩

/-- `blt_soft_timer_add`. -/
def bltSoftTimerAdd (s : SoftTimerPm) (func : Option ℕ) (intervalUs now : ℕ) : SoftTimerPm :=
  if maxTimerNum ≤ s.timers.soft.timer.length then { s with clock := now }
  else
    let timers := s.timers.apply (.add func intervalUs now)
    ⟨timers, timers.soft.timer[0]?.map BltTimeEvent.t, now⟩

/-- `blt_soft_timer_delete`. -/
def bltSoftTimerDelete (s : SoftTimerPm) (func : Option ℕ) (now : ℕ) : SoftTimerPm :=
  match s.timers.soft.timer.findIdx? fun e => e.cb = func with
  | none => { s with clock := now }
  | some i =>
    let timers := s.timers.apply (.delete func)
    let wakeup := if timers.soft.timer = [] then none
      else if i = 0 then firstWakeup timers.soft.timer now
      else s.wakeup
    ⟨timers, wakeup, now⟩

/-- `blt_soft_timer_process`. The calls of the callbacks set the wake-up too, but behind the loop it
is set again. -/
def bltSoftTimerProcess (s : SoftTimerPm) (callback : TimerCallbacks) (now : ℕ) : SoftTimerPm :=
  match s.timers.soft.timer[0]? with
  | none => { s with wakeup := none, clock := now }
  | some e =>
    if bltIsTimerExpired e.t now then
      let timers := s.timers.process callback now
      ⟨timers, firstWakeup timers.soft.timer now, now⟩
    else { s with clock := now }

end SoftTimerPm

/-- The calls of the application, with the time. -/
inductive PmEvent
  | add (func : Option ℕ) (intervalUs now : ℕ)
  | delete (func : Option ℕ) (now : ℕ)
  | process (callback : TimerCallbacks) (now : ℕ)

/-- A step. -/
def pmStep (s : SoftTimerPm) : PmEvent → SoftTimerPm
  | .add func intervalUs now => s.bltSoftTimerAdd func intervalUs now
  | .delete func now => s.bltSoftTimerDelete func now
  | .process callback now => s.bltSoftTimerProcess callback now

/-! ## What is to hold -/

namespace DueTimers

/-- All deadlines lie within `2 ^ 30` ticks of each other. -/
def Near (d : DueTimers) : Prop :=
  ∀ e ∈ d.soft.timer, ∀ e' ∈ d.soft.timer, d.due e.id < d.due e'.id + 1073741824

/-- The table is ordered by the deadlines. -/
def Sorted (d : DueTimers) : Prop :=
  d.soft.timer.Pairwise fun e e' => d.due e.id ≤ d.due e'.id

end DueTimers

/-- The table is ordered. The last call announced the first deadline, or it disabled the wake-up and
no timer is due within 5 s. -/
structure WakeupOk (s : SoftTimerPm) : Prop where
  sorted : s.timers.Sorted
  announced : ∀ t, s.wakeup = some t → ∃ e, s.timers.soft.timer[0]? = some e ∧ e.t = t
  disabled : s.wakeup = none →
    ∀ e ∈ s.timers.soft.timer, s.clock + wakeupWindow ≤ s.timers.due e.id

/-- The step changes the table, but for its order, as it is to: a timer is added; the first timer
with the callback is deleted; the expired timers are called, once each, and updated. -/
def TableOk (s : SoftTimerPm) : PmEvent → Prop
  | .add func intervalUs now =>
    (pmStep s (.add func intervalUs now)).timers.soft.timer.Perm
      (if maxTimerNum ≤ s.timers.soft.timer.length then s.timers.soft.timer
      else ⟨s.timers.soft.added, func, u32 (now + u32 (intervalUs * systemTimerTick1us)),
        u32 (intervalUs * systemTimerTick1us)⟩ :: s.timers.soft.timer)
  | .delete func now =>
    (pmStep s (.delete func now)).timers.soft.timer.Perm
      (s.timers.soft.timer.eraseP fun e => e.cb = func)
  | .process callback now => ProcessOk callback now s.timers.soft

/-! ## Conditions -/

/-- The deadline is reached, but the test of 5 s takes it for a distant one. -/
def Overlooked (due t now : ℕ) : Prop := due < now ∧ wakeupWindow ≤ u32Sub t (u32 now)

/-- A disabled wake-up can stay as it is: the first deadline is 5 s away. -/
def SoftTimerPm.MayWait (s : SoftTimerPm) (now : ℕ) : Prop :=
  s.wakeup = none → ∀ e, s.timers.soft.timer[0]? = some e → now + wakeupWindow ≤ s.timers.due e.id

/-- The condition on a step. A deletion of the first timer does not leave an overdue one, and a call
that does not set the wake-up finds it as it may stay. Where the first timer is expired, the rounds
are in order, and every timer that does not fire is not overdue; where it is not, no timer fires. -/
def PmStepOk (s : SoftTimerPm) : PmEvent → Prop
  | .add _ _ now => maxTimerNum ≤ s.timers.soft.timer.length → s.MayWait now
  | .delete func now =>
    if s.timers.soft.timer.findIdx? (fun e => e.cb = func) = some 0 then
      ∀ e, s.timers.soft.timer[1]? = some e → ¬ Overlooked (s.timers.due e.id) e.t now
    else s.MayWait now
  | .process callback now => ∀ e, s.timers.soft.timer[0]? = some e →
    if bltIsTimerExpired e.t now then
      LoopOk callback now s.timers.soft ∧ ∀ e' ∈ s.timers.soft.timer,
        e'.fires now = true ∨ ¬ Overlooked (s.timers.due e'.id) e'.t now
    else firing now s.timers.soft.timer = [] ∧ s.MayWait now

/-- A call of a callback comes behind the start of the call that it is a part of. -/
def TimerCall.NotBefore (now : ℕ) : TimerCall → Prop
  | .add _ _ now' => now ≤ now'
  | .delete _ => True

/-- The deadlines lie near each other behind the step, and throughout it. -/
def PmNear (s : SoftTimerPm) (e : PmEvent) : Prop :=
  (pmStep s e).timers.Near ∧
    match e with
    | .process callback now => ∀ i < maxTimerNum, ∀ e,
      (s.timers.rounds callback now i).soft.timer[i]? = some e → e.fires now = true →
        let d := s.timers.rounds callback now i
        Machine.Always DueTimers.apply DueTimers.Near (d.fire e) (callback d.soft e).1 ∧
          ∀ c ∈ (callback d.soft e).1, c.NotBefore now
    | _ => True

/-! ## The sort -/

section Bubble

variable {key : BltTimeEvent → ℕ}

/-- The comparison of the sort is the one of the keys. -/
def Compares (key : BltTimeEvent → ℕ) (l : List BltTimeEvent) : Prop :=
  ∀ a ∈ l, ∀ b ∈ l, (timeCompareBig a.t b.t = true ↔ key b ≤ key a)

theorem Compares.of_subset {l l' : List BltTimeEvent} (h : Compares key l) (hl : l' ⊆ l) :
    Compares key l' := fun a ha b hb => h a (hl ha) b (hl hb)

/-- The inner loop leaves the latest timer at the end. -/
theorem bubbleFrom_last (a : BltTimeEvent) (l : List BltTimeEvent) (h : Compares key (a :: l)) :
    ∃ init m, bubbleFrom a l = init ++ [m] ∧ ∀ x ∈ a :: l, key x ≤ key m := by
  induction l generalizing a with
  | nil =>
    refine ⟨[], a, rfl, fun x hx => ?_⟩
    exact Nat.le_of_eq (congrArg key (List.mem_singleton.mp hx))
  | cons b l ih =>
    have hab := h a List.mem_cons_self b (List.mem_cons_of_mem a List.mem_cons_self)
    unfold bubbleFrom
    by_cases hle : key b ≤ key a
    · rw [if_pos (hab.mpr hle)]
      have hsub : a :: l ⊆ a :: b :: l :=
        List.cons_subset_cons a (List.subset_cons_self b l)
      obtain ⟨init, m, heq, hmax⟩ := ih a (h.of_subset hsub)
      refine ⟨b :: init, m, by rw [heq, List.cons_append], fun x hx => ?_⟩
      rcases List.mem_cons.mp hx with rfl | hx
      · exact hmax x List.mem_cons_self
      · rcases List.mem_cons.mp hx with rfl | hx
        · exact Nat.le_trans hle (hmax a List.mem_cons_self)
        · exact hmax x (List.mem_cons_of_mem a hx)
    · rw [if_neg fun hbig => hle (hab.mp hbig)]
      obtain ⟨init, m, heq, hmax⟩ := ih b (h.of_subset (List.subset_cons_self a _))
      refine ⟨a :: init, m, by rw [heq, List.cons_append], fun x hx => ?_⟩
      rcases List.mem_cons.mp hx with rfl | hx
      · exact Nat.le_trans (Nat.le_of_not_le hle) (hmax b List.mem_cons_self)
      · exact hmax x hx

/-- Behind a round of the sort, the timers from `n` on are in order, and none in front of them is
later than they are. -/
structure SortedFrom (key : BltTimeEvent → ℕ) (l : List BltTimeEvent) (n : ℕ) : Prop where
  sorted : (l.drop n).Pairwise fun a b => key a ≤ key b
  le : ∀ a ∈ l.take n, ∀ b ∈ l.drop n, key a ≤ key b

theorem SortedFrom.pass {l : List BltTimeEvent} {n : ℕ} (h : SortedFrom key l (n + 1))
    (hn : n + 1 ≤ l.length) (hcmp : Compares key l) :
    SortedFrom key (bubblePass (l.take (n + 1)) ++ l.drop (n + 1)) n := by
  have hlen : (l.take (n + 1)).length = n + 1 := by
    rw [List.length_take]
    omega
  obtain ⟨a, l', hl'⟩ := List.exists_cons_of_length_eq_add_one hlen
  have hcmp' : Compares key (a :: l') := hcmp.of_subset (hl' ▸ List.take_subset (n + 1) l)
  obtain ⟨init, m, heq, hmax⟩ := bubbleFrom_last a l' hcmp'
  have hperm : (init ++ [m]).Perm (a :: l') := heq ▸ bubbleFrom_perm a l'
  have hinit : init.length = n := by
    have hlen' := hperm.length_eq
    rw [List.length_append, List.length_singleton, ← hl', hlen] at hlen'
    omega
  have hm : m ∈ l.take (n + 1) := by
    rw [hl']
    exact hperm.subset (List.mem_append_right _ (List.mem_singleton_self m))
  rw [hl', bubblePass, heq, List.append_assoc]
  refine ⟨?_, fun x hx y hy => ?_⟩
  · rw [List.drop_left' hinit, List.singleton_append]
    exact List.pairwise_cons.mpr ⟨fun y hy => h.le m hm y hy, h.sorted⟩
  · rw [List.take_left' hinit] at hx
    rw [List.drop_left' hinit, List.singleton_append] at hy
    have hx' : x ∈ a :: l' := hperm.subset (List.mem_append_left _ hx)
    rcases List.mem_cons.mp hy with rfl | hy
    · exact hmax x hx'
    · exact h.le x (hl' ▸ hx') y hy

/-- The sort puts a table into the order of its keys. -/
theorem bltSoftTimerSort_sorted {l : List BltTimeEvent} (hlen : l.length ≤ maxTimerNum)
    (hcmp : Compares key l) : (bltSoftTimerSort l).Pairwise fun a b => key a ≤ key b := by
  unfold bltSoftTimerSort
  split
  case isTrue hshort =>
    have hnil : l = [] := List.eq_nil_of_length_eq_zero (by omega)
    rw [hnil]
    exact .nil
  case isFalse hlong =>
    -- behind `i` rounds, the last `i` timers are in place
    have hrounds : ∀ i ≤ l.length - 1,
        let l' := (List.range i).foldl
          (fun l i => bubblePass (l.take (l.length - i)) ++ l.drop (l.length - i)) l
        l'.Perm l ∧ SortedFrom key l' (l.length - i) := by
      intro i hi
      induction i with
      | zero =>
        refine ⟨List.Perm.refl l, ?_, fun a _ b hb => ?_⟩
        · rw [Nat.sub_zero, List.range_zero, List.foldl_nil, List.drop_length]
          exact .nil
        · rw [Nat.sub_zero, List.range_zero, List.foldl_nil, List.drop_length] at hb
          exact nomatch hb
      | succ i ih =>
        obtain ⟨hperm, hsorted⟩ := ih (by omega)
        rw [List.range_succ, List.foldl_append, List.foldl_cons, List.foldl_nil]
        generalize (List.range i).foldl _ l = l' at hperm hsorted ⊢
        have hlen' : l'.length = l.length := hperm.length_eq
        have hn : l.length - i = (l.length - (i + 1)) + 1 := by omega
        rw [hlen', hn]
        rw [hn] at hsorted
        refine ⟨?_, hsorted.pass (by omega) (hcmp.of_subset hperm.subset)⟩
        have hpass := (bubblePass_perm (l'.take (l.length - (i + 1) + 1))).append_right
          (l'.drop (l.length - (i + 1) + 1))
        rw [List.take_append_drop] at hpass
        exact hpass.trans hperm
    obtain ⟨hperm, hsorted⟩ := hrounds (l.length - 1) (Nat.le_refl _)
    generalize (List.range (l.length - 1)).foldl _ l = l' at hperm hsorted ⊢
    rw [show l.length - (l.length - 1) = 1 by omega] at hsorted
    have hlen' : l'.length = l.length := hperm.length_eq
    obtain ⟨a, l'', rfl⟩ := List.exists_cons_of_length_pos (by omega : 0 < l'.length)
    exact List.pairwise_cons.mpr ⟨fun b hb => hsorted.le a List.mem_cons_self b hb, hsorted.sorted⟩

end Bubble

/-! ## Deadlines and ticks -/

/-- The comparison of the sort is the one of the deadlines, where they are near. -/
theorem timeCompareBig_u32 {x y : ℕ} (hxy : x < y + 1073741824) (hyx : y < x + 1073741824) :
    timeCompareBig (u32 x) (u32 y) = true ↔ y ≤ x := by
  rw [timeCompareBig, decide_eq_true_iff]
  unfold u32Sub u32
  omega

/-- What is ahead of the clock is at least as far away as the difference of the ticks. -/
theorem u32Sub_u32_le {x now : ℕ} (h : now ≤ x) : u32Sub (u32 x) (u32 now) ≤ x - now := by
  unfold u32Sub u32
  omega

namespace DueTimers

/-- The table is well formed, and the ticks are those of the deadlines. -/
structure Dated (d : DueTimers) : Prop where
  valid : d.soft.Valid
  tick : ∀ e ∈ d.soft.timer, e.t = u32 (d.due e.id)

variable {d : DueTimers} {callback : TimerCallbacks} {now : ℕ}

theorem Near.compares (hnear : d.Near) (h : d.Dated) :
    Compares (fun e => d.due e.id) d.soft.timer := by
  intro a ha b hb
  rw [h.tick a ha, h.tick b hb]
  exact timeCompareBig_u32 (hnear a ha b hb) (hnear b hb a ha)

/-! ## Calls -/

theorem apply_soft (d : DueTimers) (c : TimerCall) : (d.apply c).soft = c.apply d.soft := by
  cases c with
  | add func intervalUs now => rfl
  | delete func => rfl

theorem foldl_apply_soft (d : DueTimers) (calls : List TimerCall) :
    (calls.foldl apply d).soft = calls.foldl TimerCall.apply d.soft := by
  induction calls generalizing d with
  | nil => rfl
  | cons c calls ih => rw [List.foldl_cons, List.foldl_cons, ih, apply_soft]

theorem call_soft (callback : TimerCallbacks) (d : DueTimers) (e : BltTimeEvent) :
    (d.call callback e).soft = callTimer callback d.soft e := foldl_apply_soft _ _

/-- A timer is deleted. -/
theorem bltSoftTimerDelete_sublist (s : BltSoftTimer) (func : Option ℕ) :
    (s.bltSoftTimerDelete func).timer.Sublist s.timer := by
  unfold bltSoftTimerDelete
  split
  · exact List.eraseIdx_sublist _ _
  · exact List.Sublist.refl _

theorem apply_add_of_full {func : Option ℕ} {intervalUs now' : ℕ}
    (h : maxTimerNum ≤ d.soft.timer.length) : d.apply (.add func intervalUs now') = d := by
  show (⟨d.soft.bltSoftTimerAdd func intervalUs now', if _ then _ else _⟩ : DueTimers) = d
  rw [if_pos h, bltSoftTimerAdd, if_pos h]

/-- The table behind a call holds timers that were in it, with the deadlines that they had, and at
most one that is new. -/
theorem mem_apply {c : TimerCall} (hc : c.NotBefore now) {e : BltTimeEvent}
    (he : e ∈ (d.apply c).soft.timer) : e ∈ d.soft.timer ∨ now ≤ (d.apply c).due e.id := by
  cases c with
  | delete func => exact .inl ((bltSoftTimerDelete_sublist d.soft func).subset he)
  | add func intervalUs now' =>
    by_cases hfull : maxTimerNum ≤ d.soft.timer.length
    · rw [apply_add_of_full hfull] at he
      exact .inl he
    · have hmem : e ∈ (d.soft.bltSoftTimerAdd func intervalUs now').timer := he
      rw [bltSoftTimerAdd, if_neg hfull] at hmem
      rcases List.mem_append.mp ((bltSoftTimerSort_perm _).subset hmem) with hold | hnew
      · exact .inl hold
      · right
        show now ≤ (if _ then _ else _ : ℕ → ℕ) e.id
        rw [if_neg hfull, List.mem_singleton.mp hnew, Function.update_self]
        exact Nat.le_trans hc (Nat.le_add_right _ _)

/-- A call keeps the deadlines of the timers that have been added. -/
theorem due_apply (d : DueTimers) (c : TimerCall) {id : ℕ} (hid : id < d.soft.added) :
    (d.apply c).due id = d.due id := by
  cases c with
  | delete func => rfl
  | add func intervalUs now' =>
    show (if _ then _ else _ : ℕ → ℕ) id = _
    split_ifs
    · rfl
    · exact Function.update_of_ne (Nat.ne_of_lt hid) _ _

theorem added_le_apply (d : DueTimers) (c : TimerCall) : d.soft.added ≤ (d.apply c).soft.added := by
  cases c with
  | delete func =>
    show d.soft.added ≤ (d.soft.bltSoftTimerDelete func).added
    unfold bltSoftTimerDelete
    split <;> exact Nat.le_refl _
  | add func intervalUs now' =>
    show d.soft.added ≤ (d.soft.bltSoftTimerAdd func intervalUs now').added
    unfold bltSoftTimerAdd
    split
    · exact Nat.le_refl _
    · exact Nat.le_succ _

theorem Dated.apply (h : d.Dated) (c : TimerCall) : (d.apply c).Dated := by
  refine ⟨apply_soft d c ▸ h.valid.apply c, fun e he => ?_⟩
  cases c with
  | delete func => exact h.tick e ((bltSoftTimerDelete_sublist d.soft func).subset he)
  | add func intervalUs now' =>
    by_cases hfull : maxTimerNum ≤ d.soft.timer.length
    · rw [apply_add_of_full hfull] at he ⊢
      exact h.tick e he
    · have hmem : e ∈ (d.soft.bltSoftTimerAdd func intervalUs now').timer := he
      rw [bltSoftTimerAdd, if_neg hfull] at hmem
      show e.t = u32 ((if _ then _ else _ : ℕ → ℕ) e.id)
      rw [if_neg hfull]
      rcases List.mem_append.mp ((bltSoftTimerSort_perm _).subset hmem) with hold | hnew
      · rw [Function.update_of_ne (Nat.ne_of_lt (h.valid.id_lt e hold))]
        exact h.tick e hold
      · rw [List.mem_singleton.mp hnew, Function.update_self]

/-- A call keeps the order, if the deadlines behind it are near. -/
theorem Sorted.apply (hs : d.Sorted) (h : d.Dated) {c : TimerCall} (hnear : (d.apply c).Near) :
    (d.apply c).Sorted := by
  cases c with
  | delete func => exact hs.sublist (bltSoftTimerDelete_sublist d.soft func)
  | add func intervalUs now' =>
    by_cases hfull : maxTimerNum ≤ d.soft.timer.length
    · rw [apply_add_of_full hfull]
      exact hs
    · have hcmp := hnear.compares (h.apply _)
      have htimer : (d.apply (.add func intervalUs now')).soft.timer = bltSoftTimerSort
          (d.soft.timer ++ [⟨d.soft.added, func,
            u32 (now' + u32 (intervalUs * systemTimerTick1us)),
            u32 (intervalUs * systemTimerTick1us)⟩]) := by
        show (d.soft.bltSoftTimerAdd func intervalUs now').timer = _
        rw [bltSoftTimerAdd, if_neg hfull]
      rw [Sorted, htimer]
      rw [htimer] at hcmp
      refine bltSoftTimerSort_sorted ?_ (hcmp.of_subset (bltSoftTimerSort_perm _).symm.subset)
      rw [List.length_append, List.length_singleton]
      omega

/-- The calls of a callback. -/
theorem Dated.calls (h : d.Dated) (calls : List TimerCall) :
    (calls.foldl DueTimers.apply d).Dated := by
  induction calls generalizing d with
  | nil => exact h
  | cons c calls ih => exact ih (h.apply c)

theorem Sorted.calls (hs : d.Sorted) (h : d.Dated) {calls : List TimerCall}
    (hnear : Machine.Always DueTimers.apply Near d calls) :
    (calls.foldl DueTimers.apply d).Sorted := by
  induction calls generalizing d with
  | nil => exact hs
  | cons c calls ih => exact ih (hs.apply h hnear.2.head) (h.apply c) hnear.2

theorem due_calls {calls : List TimerCall} {id : ℕ} (hid : id < d.soft.added) :
    (calls.foldl DueTimers.apply d).due id = d.due id := by
  induction calls generalizing d with
  | nil => rfl
  | cons c calls ih =>
    rw [List.foldl_cons, ih (Nat.lt_of_lt_of_le hid (added_le_apply d c)), due_apply d c hid]

theorem mem_calls (h : d.Dated) {calls : List TimerCall} (hc : ∀ c ∈ calls, c.NotBefore now)
    {e : BltTimeEvent} (he : e ∈ (calls.foldl DueTimers.apply d).soft.timer) :
    e ∈ d.soft.timer ∨ now ≤ (calls.foldl DueTimers.apply d).due e.id := by
  induction calls generalizing d with
  | nil => exact .inl he
  | cons c calls ih =>
    have hcalls : ∀ c' ∈ calls, c'.NotBefore now := fun c' hc' => hc c' (List.mem_cons_of_mem c hc')
    rcases ih (h.apply c) hcalls he with hmem | hdue
    · rcases mem_apply (hc c List.mem_cons_self) hmem with hold | hnew
      · exact .inl hold
      · right
        rw [List.foldl_cons, due_calls ((h.apply c).valid.id_lt e hmem)]
        exact hnew
    · exact .inr hdue

theorem Dated.fire (h : d.Dated) (e : BltTimeEvent) : (d.fire e).Dated :=
  ⟨h.valid.fire _, h.tick⟩

theorem Dated.call (h : d.Dated) (callback : TimerCallbacks) (e : BltTimeEvent) :
    (d.call callback e).Dated := (h.fire e).calls _

/-! ## Rounds -/

variable {i : ℕ} {e : BltTimeEvent}

/-- The timer of the round is called. -/
def Fires (now : ℕ) (d : DueTimers) (i : ℕ) (e : BltTimeEvent) : Prop :=
  d.soft.timer[i]? = some e ∧ e.fires now = true

theorem round_quiet (h : ∀ e, ¬ d.Fires now i e) : d.round callback now i = d := by
  unfold round
  cases he : d.soft.timer[i]? with
  | none => rfl
  | some e => exact if_neg fun hfires => h e ⟨he, hfires⟩

theorem round_delete (h : d.Fires now i e) (hres : (callback d.soft e).2 < 0) :
    d.round callback now i = { d.call callback e with
      soft := (d.call callback e).soft.bltSoftTimerDeleteByIndex i } := by
  unfold round
  rw [h.1]
  simp only [h.2, if_true, hres]

theorem round_keep (h : d.Fires now i e) (hres : ¬ (callback d.soft e).2 < 0) :
    d.round callback now i =
      { soft := { (d.call callback e).soft with
          timer := (d.call callback e).soft.timer.modify i fun e' =>
            e'.rearm now (callback d.soft e).2 }
        due := match (d.call callback e).soft.timer[i]? with
          | some e' => Function.update (d.call callback e).due e'.id
            (now + (e'.rearm now (callback d.soft e).2).interval)
          | none => (d.call callback e).due } := by
  unfold round
  rw [h.1]
  simp only [h.2, if_true, hres, if_false]

/-- The timer at the index `i` behind the calls of the callback is armed again. -/
theorem round_keep_some (h : d.Fires now i e) (hres : ¬ (callback d.soft e).2 < 0)
    {e' : BltTimeEvent} (he' : (d.call callback e).soft.timer[i]? = some e') :
    d.round callback now i =
      { soft := { (d.call callback e).soft with
          timer := (d.call callback e).soft.timer.modify i fun e' =>
            e'.rearm now (callback d.soft e).2 }
        due := Function.update (d.call callback e).due e'.id
          (now + (e'.rearm now (callback d.soft e).2).interval) } := by
  rw [round_keep h hres, he']

theorem round_soft (callback : TimerCallbacks) (now : ℕ) (d : DueTimers) (i : ℕ) :
    (d.round callback now i).soft = processRound callback now d.soft i := by
  cases he : d.soft.timer[i]? with
  | none =>
    have hquiet : ∀ e, ¬ d.Fires now i e := fun e h => nomatch he.symm.trans h.1
    rw [round_quiet hquiet, processRound_none he]
  | some e =>
    cases hfires : e.fires now with
    | false =>
      rw [processRound_quiet he hfires, round_quiet]
      intro e' h
      cases he.symm.trans h.1
      exact nomatch hfires.symm.trans h.2
    | true =>
      by_cases hres : (callback d.soft e).2 < 0
      · rw [round_delete ⟨he, hfires⟩ hres, processRound_delete he hfires hres, call_soft]
      · rw [round_keep ⟨he, hfires⟩ hres, processRound_keep he hfires hres, call_soft]

theorem rounds_succ (callback : TimerCallbacks) (now : ℕ) (d : DueTimers) (n : ℕ) :
    d.rounds callback now (n + 1) = (d.rounds callback now n).round callback now n := by
  rw [rounds, List.range_succ, List.foldl_append]
  rfl

theorem rounds_soft (callback : TimerCallbacks) (now : ℕ) (d : DueTimers) (n : ℕ) :
    (d.rounds callback now n).soft = (List.range n).foldl (processRound callback now) d.soft := by
  induction n with
  | zero => rfl
  | succ n ih => rw [rounds_succ, round_soft, ih, loop_succ]

/-- A timer of the table that is armed again at the index `i`. -/
theorem mem_modify {s : BltSoftTimer} (h : s.Valid) {f : BltTimeEvent → BltTimeEvent}
    {e' : BltTimeEvent} (he' : s.timer[i]? = some e') {x : BltTimeEvent}
    (hx : x ∈ s.timer.modify i f) : x = f e' ∨ x ∈ s.timer ∧ x.id ≠ e'.id := by
  rw [modify_eq_map f h.nodup he'] at hx
  obtain ⟨y, hy, rfl⟩ := List.mem_map.mp hx
  by_cases hid : y.id = e'.id
  · left
    have heq : y = e' :=
      List.inj_on_of_nodup_map h.nodup hy (List.mem_of_getElem? he') hid
    rw [if_pos hid, heq]
  · rw [if_neg hid]
    exact .inr ⟨hy, hid⟩

theorem Dated.round (h : d.Dated) (callback : TimerCallbacks) (now i : ℕ) :
    (d.round callback now i).Dated := by
  refine ⟨round_soft callback now d i ▸ h.valid.round callback now i, fun x hx => ?_⟩
  by_cases hquiet : ∀ e, ¬ d.Fires now i e
  · rw [round_quiet hquiet] at hx ⊢
    exact h.tick x hx
  · obtain ⟨e, hfires⟩ := not_forall_not.mp hquiet
    have hcall := h.call callback e
    by_cases hres : (callback d.soft e).2 < 0
    · rw [round_delete hfires hres] at hx ⊢
      exact hcall.tick x ((List.eraseIdx_sublist _ _).subset hx)
    · cases he' : (d.call callback e).soft.timer[i]? with
      | none =>
        rw [round_keep hfires hres, he'] at hx ⊢
        dsimp only at hx
        rw [List.modify_eq_self (List.getElem?_eq_none_iff.mp he')] at hx
        exact hcall.tick x hx
      | some e' =>
        rw [round_keep_some hfires hres he'] at hx ⊢
        dsimp only at hx ⊢
        rcases mem_modify hcall.valid he' hx with rfl | ⟨hmem, hne⟩
        · rw [BltTimeEvent.rearm_id, Function.update_self]
          rfl
        · rw [Function.update_of_ne hne]
          exact hcall.tick x hmem

theorem Dated.rounds (h : d.Dated) (callback : TimerCallbacks) (now n : ℕ) :
    (d.rounds callback now n).Dated := by
  induction n with
  | zero => exact h
  | succ n ih =>
    rw [rounds_succ]
    exact ih.round callback now n

/-- A round that deletes its timer, or that calls none, keeps the order. -/
theorem Sorted.round (hs : d.Sorted) (h : d.Dated)
    (hneg : ∀ e, d.Fires now i e → (callback d.soft e).2 < 0)
    (hnear : ∀ e, d.Fires now i e →
      Machine.Always DueTimers.apply Near (d.fire e) (callback d.soft e).1) :
    (d.round callback now i).Sorted := by
  by_cases hquiet : ∀ e, ¬ d.Fires now i e
  · rw [round_quiet hquiet]
    exact hs
  · obtain ⟨e, hfires⟩ := not_forall_not.mp hquiet
    have hcall : (d.call callback e).Sorted :=
      Sorted.calls (d := d.fire e) hs (h.fire e) (hnear e hfires)
    rw [round_delete hfires (hneg e hfires)]
    exact hcall.sublist (List.eraseIdx_sublist _ _)

/-- What the rounds before `i` leave: a timer is not overlooked, or its round is to come. -/
def Ahead (now : ℕ) (d : DueTimers) (i : ℕ) : Prop :=
  ∀ j e, d.soft.timer[j]? = some e →
    ¬ Overlooked (d.due e.id) e.t now ∨ i ≤ j ∧ e.fires now = true

theorem not_overlooked_of_le {due t : ℕ} (h : now ≤ due) : ¬ Overlooked due t now :=
  fun hover => absurd hover.1 (Nat.not_lt.mpr h)

/-- The calls of a callback leave no timer overlooked, but those that are to fire. -/
theorem Ahead.call (ha : d.Ahead now i) (h : d.Dated)
    (hcalls : ∀ c ∈ (callback d.soft e).1, c.NotBefore now) {x : BltTimeEvent}
    (hx : x ∈ (d.call callback e).soft.timer) :
    ¬ Overlooked ((d.call callback e).due x.id) x.t now ∨ x.fires now = true := by
  rcases mem_calls (h.fire e) hcalls hx with hold | hnew
  · obtain ⟨j, hj⟩ := List.getElem?_of_mem hold
    have hdue : (d.call callback e).due x.id = d.due x.id :=
      due_calls (d := d.fire e) (h.valid.id_lt x hold)
    rw [hdue]
    exact (ha j x hj).imp id And.right
  · exact .inl (not_overlooked_of_le hnew)

/-- In front of the index of the round, the calls leave the timers as they were. -/
theorem Ahead.call_before (ha : d.Ahead now i) (h : d.Dated) (hok : RoundOk callback now d.soft i)
    (hfires : d.Fires now i e) {j : ℕ} (hj : j < i) {x : BltTimeEvent}
    (hx : (d.call callback e).soft.timer[j]? = some x) :
    ¬ Overlooked ((d.call callback e).due x.id) x.t now := by
  have htake := (hok e hfires.1 hfires.2).1
  rw [← call_soft] at htake
  have hold : d.soft.timer[j]? = some x := by
    rw [← hx, ← List.getElem?_take_of_lt (Nat.lt_succ_of_lt hj), ← htake,
      List.getElem?_take_of_lt (Nat.lt_succ_of_lt hj)]
  have hdue : (d.call callback e).due x.id = d.due x.id :=
    due_calls (d := d.fire e) (h.valid.id_lt x (List.mem_of_getElem? hold))
  rw [hdue]
  exact (ha j x hold).resolve_right fun hright => absurd hright.1 (Nat.not_le.mpr hj)

theorem Ahead.round (ha : d.Ahead now i) (h : d.Dated) (hok : RoundOk callback now d.soft i)
    (hcalls : ∀ e, d.Fires now i e → ∀ c ∈ (callback d.soft e).1, c.NotBefore now) :
    (d.round callback now i).Ahead now (i + 1) := by
  intro j x hx
  by_cases hquiet : ∀ e, ¬ d.Fires now i e
  · rw [round_quiet hquiet] at hx ⊢
    refine (ha j x hx).imp id fun hright => ⟨?_, hright.2⟩
    refine Nat.lt_of_le_of_ne hright.1 fun heq => ?_
    subst heq
    exact hquiet x ⟨hx, hright.2⟩
  obtain ⟨e, hfires⟩ := not_forall_not.mp hquiet
  have hcall := h.call callback e
  have hleft : ∀ {y : BltTimeEvent}, y ∈ (d.call callback e).soft.timer →
      ¬ Overlooked ((d.call callback e).due y.id) y.t now ∨ y.fires now = true :=
    ha.call h (hcalls e hfires)
  by_cases hres : (callback d.soft e).2 < 0
  · rw [round_delete hfires hres] at hx ⊢
    have hx' : ((d.call callback e).soft.timer.eraseIdx i)[j]? = some x := hx
    by_cases hj : j < i
    · rw [List.getElem?_eraseIdx_of_lt hj] at hx'
      exact .inl (ha.call_before h hok hfires hj hx')
    · rw [List.getElem?_eraseIdx_of_ge (Nat.not_lt.mp hj)] at hx'
      refine (hleft (List.mem_of_getElem? hx')).imp id fun hfx => ⟨?_, hfx⟩
      -- the timer that moves to the index of the round does not fire
      refine Nat.lt_of_le_of_ne (Nat.not_lt.mp hj) fun heq => ?_
      subst heq
      have hnext := (hok e hfires.1 hfires.2).2.2 hres x
      rw [← call_soft] at hnext
      exact nomatch (hnext hx').symm.trans hfx
  · have he' : (d.call callback e).soft.timer[i]? = some e := by
      have htake := (hok e hfires.1 hfires.2).1
      rw [← call_soft] at htake
      rw [← hfires.1, ← List.getElem?_take_of_lt (Nat.lt_succ_self i), htake,
        List.getElem?_take_of_lt (Nat.lt_succ_self i)]
    rw [round_keep_some hfires hres he'] at hx ⊢
    dsimp only at hx ⊢
    by_cases hj : j = i
    · subst hj
      rw [List.getElem?_modify_eq, he'] at hx
      cases hx
      rw [BltTimeEvent.rearm_id, Function.update_self]
      exact .inl (not_overlooked_of_le (Nat.le_add_right _ _))
    · rw [List.getElem?_modify_ne _ _ (Ne.symm hj)] at hx
      have hne : x.id ≠ e.id := by
        intro hid
        have heq : x = e := List.inj_on_of_nodup_map hcall.valid.nodup (List.mem_of_getElem? hx)
          (List.mem_of_getElem? he') hid
        subst heq
        obtain ⟨hlt, -⟩ := List.getElem?_eq_some_iff.mp hx
        exact hj ((List.getElem?_inj hlt hcall.valid.nodup.of_map).mp (hx.trans he'.symm))
      rw [Function.update_of_ne hne]
      by_cases hlt : j < i
      · exact .inl (ha.call_before h hok hfires hlt hx)
      · refine (hleft (List.mem_of_getElem? hx)).imp id fun hfx => ⟨?_, hfx⟩
        omega

/-! ## `blt_soft_timer_process` -/

/-- What is known of the rounds before `n`. -/
theorem Ahead.rounds (ha : d.Ahead now 0) (h : d.Dated) (hok : LoopOk callback now d.soft)
    (hcalls : ∀ i < maxTimerNum, ∀ e, (d.rounds callback now i).Fires now i e →
      ∀ c ∈ (callback (d.rounds callback now i).soft e).1, c.NotBefore now) {n : ℕ}
    (hn : n ≤ maxTimerNum) : (d.rounds callback now n).Ahead now n := by
  induction n with
  | zero => exact ha
  | succ n ih =>
    rw [rounds_succ]
    have hround : RoundOk callback now (d.rounds callback now n).soft n := by
      rw [rounds_soft]
      exact hok n hn
    exact (ih (Nat.le_of_succ_le hn)).round (h.rounds callback now n) hround (hcalls n hn)

theorem Sorted.rounds (hs : d.Sorted) (h : d.Dated) (hflg : changeFlg callback now d.soft = false)
    (hnear : ∀ i < maxTimerNum, ∀ e, (d.rounds callback now i).Fires now i e →
      Machine.Always DueTimers.apply Near ((d.rounds callback now i).fire e)
        (callback (d.rounds callback now i).soft e).1) {n : ℕ} (hn : n ≤ maxTimerNum) :
    (d.rounds callback now n).Sorted := by
  induction n with
  | zero => exact hs
  | succ n ih =>
    rw [rounds_succ]
    refine (ih (Nat.le_of_succ_le hn)).round (h.rounds callback now n) (fun e hfires => ?_)
      (hnear n hn)
    by_contra hpos
    refine absurd hflg (Bool.not_eq_false _ ▸ List.any_eq_true.mpr ⟨n, List.mem_range.mpr hn, ?_⟩)
    rw [rounds_soft] at hpos
    have he := hfires.1
    rw [rounds_soft] at he
    simp only [he, Option.any_some, hfires.2, Bool.true_and, decide_eq_true_eq]
    exact Int.not_lt.mp hpos

section Process

variable {e : BltTimeEvent} (he : d.soft.timer[0]? = some e)
  (hexp : bltIsTimerExpired e.t now = true)

include he hexp

theorem due_process : (d.process callback now).due = (d.rounds callback now maxTimerNum).due := by
  have hany : (d.soft.timer[0]?.any fun e => bltIsTimerExpired e.t now) = true := by
    rw [he, Option.any_some]
    exact hexp
  unfold DueTimers.process
  -- the condition is a variable for the kernel, which must not evaluate it
  generalize (d.soft.timer[0]?.any fun e => bltIsTimerExpired e.t now) = b at hany ⊢
  subst hany
  rfl

/-- The table behind the loop, up to its order. -/
theorem process_perm : (d.process callback now).soft.timer.Perm
    (d.rounds callback now maxTimerNum).soft.timer := by
  rw [rounds_soft]
  exact (process_expired he hexp).2

theorem Dated.process (h : d.Dated) : (d.process callback now).Dated := by
  refine ⟨h.valid.process callback now, fun x hx => ?_⟩
  rw [due_process he hexp]
  exact (h.rounds callback now maxTimerNum).tick x ((process_perm he hexp).subset hx)

theorem Sorted.process (hs : d.Sorted) (h : d.Dated) (hnear : (d.process callback now).Near)
    (hcalls : ∀ i < maxTimerNum, ∀ e, (d.rounds callback now i).Fires now i e →
      Machine.Always DueTimers.apply Near ((d.rounds callback now i).fire e)
        (callback (d.rounds callback now i).soft e).1) :
    (d.process callback now).Sorted := by
  have hdated : (d.process callback now).Dated := h.process he hexp
  have htimer : (d.process callback now).soft.timer =
      if changeFlg callback now d.soft then
        bltSoftTimerSort (d.rounds callback now maxTimerNum).soft.timer
      else (d.rounds callback now maxTimerNum).soft.timer := by
    rw [rounds_soft]
    show (bltSoftTimerProcess callback now d.soft).timer = _
    rw [bltSoftTimerProcess, he]
    simp only [hexp, if_true]
    split_ifs <;> rfl
  cases hflg : changeFlg callback now d.soft with
  | true =>
    rw [hflg, if_pos rfl] at htimer
    have hcmp := hnear.compares hdated
    rw [Sorted, htimer]
    rw [htimer] at hcmp
    refine bltSoftTimerSort_sorted ?_ (hcmp.of_subset (bltSoftTimerSort_perm _).symm.subset)
    exact (h.rounds callback now maxTimerNum).valid.length_le
  | false =>
    rw [hflg, if_neg Bool.false_ne_true] at htimer
    rw [Sorted, htimer, due_process he hexp]
    exact hs.rounds h hflg hcalls (Nat.le_refl _)

end Process

end DueTimers

/-! ## Steps -/

section Steps

variable {s : SoftTimerPm} {d : DueTimers} {now : ℕ}

open DueTimers

/-- The first deadline is the earliest one. -/
theorem DueTimers.Sorted.first_le (hs : d.Sorted) {e x : BltTimeEvent}
    (he : d.soft.timer[0]? = some e) (hx : x ∈ d.soft.timer) : d.due e.id ≤ d.due x.id := by
  rw [Sorted] at hs
  cases hl : d.soft.timer with
  | nil =>
    rw [hl] at hx
    exact nomatch hx
  | cons a l =>
    rw [hl] at he hx hs
    cases he
    rcases List.mem_cons.mp hx with rfl | hx
    · exact Nat.le_refl _
    · exact (List.pairwise_cons.mp hs).1 x hx

theorem first_of_mem {l : List BltTimeEvent} {x : BltTimeEvent} (hx : x ∈ l) :
    ∃ e, l[0]? = some e := by
  cases l with
  | nil => exact nomatch hx
  | cons a l => exact ⟨a, rfl⟩

/-- Without timers there is nothing to announce. -/
theorem WakeupOk.of_nil (hnil : d.soft.timer = []) : WakeupOk ⟨d, none, now⟩ := by
  refine ⟨?_, fun t ht => (nomatch ht), fun _ e he => ?_⟩
  · show d.soft.timer.Pairwise _
    rw [hnil]
    exact .nil
  · have hmem : e ∈ d.soft.timer := he
    rw [hnil] at hmem
    exact nomatch hmem

/-- The wake-up stays as it is, and so does the first timer. -/
theorem WakeupOk.wait (h : WakeupOk s) (hwait : s.MayWait now) (hs : d.Sorted)
    (hfirst : d.soft.timer[0]? = s.timers.soft.timer[0]?) (hdue : d.due = s.timers.due) :
    WakeupOk ⟨d, s.wakeup, now⟩ := by
  refine ⟨hs, fun t ht => ?_, fun hnone x hx => ?_⟩
  · show ∃ e, d.soft.timer[0]? = some e ∧ e.t = t
    rw [hfirst]
    exact h.announced t ht
  · obtain ⟨e, he⟩ := first_of_mem hx
    have hle := hs.first_le he hx
    have hdist := hwait hnone e (hfirst ▸ he)
    rw [← hdue] at hdist
    exact Nat.le_trans hdist hle

/-- The wake-up is set to the first deadline, or disabled. -/
theorem WakeupOk.of_firstWakeup (h : d.Dated) (hs : d.Sorted)
    (hfirst : ∀ e, d.soft.timer[0]? = some e → ¬ Overlooked (d.due e.id) e.t now) :
    WakeupOk ⟨d, firstWakeup d.soft.timer now, now⟩ := by
  cases he : d.soft.timer[0]? with
  | none =>
    have hnil : d.soft.timer = [] := by
      by_contra hne
      obtain ⟨x, hx⟩ := List.exists_mem_of_ne_nil _ hne
      obtain ⟨e, he'⟩ := first_of_mem hx
      exact nomatch he.symm.trans he'
    have hnone : firstWakeup d.soft.timer now = none := by rw [firstWakeup, he]
    rw [hnone]
    exact .of_nil hnil
  | some e =>
    refine ⟨hs, fun t ht => ?_, fun hnone x hx => ?_⟩
    · simp only [firstWakeup, he] at ht
      split_ifs at ht with hlt
      exact ⟨e, he, Option.some.inj ht⟩
    · simp only [firstWakeup, he] at hnone
      split_ifs at hnone with hlt
      have hwindow : wakeupWindow ≤ u32Sub e.t (u32 now) := Nat.not_lt.mp hlt
      have hahead : now ≤ d.due e.id := Nat.not_lt.mp fun hlt => hfirst e he ⟨hlt, hwindow⟩
      have htick := u32Sub_u32_le hahead
      rw [← h.tick e (List.mem_of_getElem? he)] at htick
      have hle := hs.first_le he hx
      show now + wakeupWindow ≤ d.due x.id
      omega

/-! ### `blt_soft_timer_add` -/

theorem pmStep_add_ok {func : Option ℕ} {intervalUs : ℕ} (h : WakeupOk s) (hd : s.timers.Dated)
    (hnear : PmNear s (.add func intervalUs now)) (hok : PmStepOk s (.add func intervalUs now)) :
    WakeupOk (pmStep s (.add func intervalUs now)) ∧ TableOk s (.add func intervalUs now) := by
  have hnear' := hnear.1
  rw [TableOk]
  show WakeupOk (s.bltSoftTimerAdd func intervalUs now) ∧
    (s.bltSoftTimerAdd func intervalUs now).timers.soft.timer.Perm _
  change (s.bltSoftTimerAdd func intervalUs now).timers.Near at hnear'
  unfold SoftTimerPm.bltSoftTimerAdd at hnear' ⊢
  by_cases hfull : maxTimerNum ≤ s.timers.soft.timer.length
  · rw [if_pos hfull, if_pos hfull]
    exact ⟨h.wait (hok hfull) h.sorted rfl rfl, List.Perm.refl _⟩
  · rw [if_neg hfull] at hnear' ⊢
    rw [if_neg hfull]
    have hperm : (s.timers.apply (.add func intervalUs now)).soft.timer.Perm
        (⟨s.timers.soft.added, func, u32 (now + u32 (intervalUs * systemTimerTick1us)),
          u32 (intervalUs * systemTimerTick1us)⟩ :: s.timers.soft.timer) := by
      show (s.timers.soft.bltSoftTimerAdd func intervalUs now).timer.Perm _
      rw [BltSoftTimer.bltSoftTimerAdd, if_neg hfull]
      exact (bltSoftTimerSort_perm _).trans (List.perm_append_singleton _ _)
    obtain ⟨e, he⟩ := first_of_mem (hperm.symm.subset List.mem_cons_self)
    refine ⟨⟨h.sorted.apply hd hnear', fun t ht => ⟨e, he, ?_⟩, fun hnone => ?_⟩, hperm⟩
    · have hmap : (s.timers.apply (.add func intervalUs now)).soft.timer[0]?.map
          BltTimeEvent.t = some t := ht
      rw [he, Option.map_some] at hmap
      exact Option.some.inj hmap
    · have hmap : (s.timers.apply (.add func intervalUs now)).soft.timer[0]?.map
          BltTimeEvent.t = none := hnone
      rw [he] at hmap
      exact nomatch hmap

/-! ### `blt_soft_timer_delete` -/

theorem pmStep_delete_ok {func : Option ℕ} (h : WakeupOk s) (hd : s.timers.Dated)
    (hok : PmStepOk s (.delete func now)) :
    WakeupOk (pmStep s (.delete func now)) ∧ TableOk s (.delete func now) := by
  rw [TableOk]
  rw [PmStepOk] at hok
  show WakeupOk (s.bltSoftTimerDelete func now) ∧
    (s.bltSoftTimerDelete func now).timers.soft.timer.Perm _
  unfold SoftTimerPm.bltSoftTimerDelete
  have hsorted : (s.timers.apply (.delete func)).Sorted :=
    h.sorted.sublist (bltSoftTimerDelete_sublist _ func)
  cases hi : s.timers.soft.timer.findIdx? fun e => e.cb = func with
  | none =>
    rw [hi, if_neg (fun hno => nomatch hno)] at hok
    have hall := List.findIdx?_eq_none_iff.mp hi
    refine ⟨h.wait hok h.sorted rfl rfl, ?_⟩
    rw [List.eraseP_of_forall_not fun e he => by rw [hall e he]; exact Bool.false_ne_true]
  | some i =>
    have htimer : (s.timers.apply (.delete func)).soft.timer = s.timers.soft.timer.eraseIdx i := by
      show (s.timers.soft.bltSoftTimerDelete func).timer = _
      rw [BltSoftTimer.bltSoftTimerDelete, hi]
      rfl
    refine ⟨?_, ?_⟩
    · show WakeupOk ⟨s.timers.apply (.delete func), if _ then none else if _ then _ else _, now⟩
      split_ifs with hnil hzero
      · exact .of_nil hnil
      · subst hzero
        rw [hi, if_pos rfl] at hok
        refine .of_firstWakeup (hd.apply _) hsorted fun e he => ?_
        rw [htimer, List.getElem?_eraseIdx_of_ge (Nat.le_refl 0)] at he
        exact hok e he
      · rw [hi, if_neg fun hno => hzero (Option.some.inj hno)] at hok
        refine h.wait hok hsorted ?_ rfl
        rw [htimer, List.getElem?_eraseIdx_of_lt (Nat.pos_of_ne_zero hzero)]
    · show (s.timers.apply (.delete func)).soft.timer.Perm _
      rw [htimer, List.eraseP_eq_eraseIdx, hi]

/-! ### `blt_soft_timer_process` -/

/-- The first timer behind the loop is not overlooked. -/
theorem not_overlooked_process {callback : TimerCallbacks} {e : BltTimeEvent}
    (he : d.soft.timer[0]? = some e) (hexp : bltIsTimerExpired e.t now = true) (hd : d.Dated)
    (hloop : LoopOk callback now d.soft)
    (hahead : ∀ x ∈ d.soft.timer, x.fires now = true ∨ ¬ Overlooked (d.due x.id) x.t now)
    (hcalls : ∀ i < maxTimerNum, ∀ e, (d.rounds callback now i).Fires now i e →
      ∀ c ∈ (callback (d.rounds callback now i).soft e).1, c.NotBefore now) {x : BltTimeEvent}
    (hx : x ∈ (d.process callback now).soft.timer) :
    ¬ Overlooked ((d.process callback now).due x.id) x.t now := by
  have hstart : d.Ahead now 0 := fun j y hy =>
    (hahead y (List.mem_of_getElem? hy)).symm.imp id fun hfires => ⟨Nat.zero_le j, hfires⟩
  have hend := hstart.rounds hd hloop hcalls (Nat.le_refl maxTimerNum)
  obtain ⟨j, hj⟩ := List.getElem?_of_mem ((process_perm he hexp).subset hx)
  rw [due_process he hexp]
  refine (hend j x hj).resolve_right fun hright => ?_
  obtain ⟨hlt, -⟩ := List.getElem?_eq_some_iff.mp hj
  have hlen := (hd.rounds callback now maxTimerNum).valid.length_le
  omega

theorem pmStep_process_ok {callback : TimerCallbacks} (h : WakeupOk s) (hd : s.timers.Dated)
    (hnear : PmNear s (.process callback now)) (hok : PmStepOk s (.process callback now)) :
    WakeupOk (pmStep s (.process callback now)) ∧ TableOk s (.process callback now) := by
  have hnear' : (s.bltSoftTimerProcess callback now).timers.Near := hnear.1
  have hcalls := hnear.2
  rw [TableOk]
  show WakeupOk (s.bltSoftTimerProcess callback now) ∧ _
  unfold SoftTimerPm.bltSoftTimerProcess at hnear' ⊢
  cases he : s.timers.soft.timer[0]? with
  | none =>
    have hnil : s.timers.soft.timer = [] := by
      by_contra hne
      obtain ⟨x, hx⟩ := List.exists_mem_of_ne_nil _ hne
      obtain ⟨e, he'⟩ := first_of_mem hx
      exact nomatch he.symm.trans he'
    refine ⟨.of_nil hnil, processOk_of_firing_nil ?_ (process_empty he)⟩
    rw [hnil]
    rfl
  | some e =>
    have hok := hok e he
    cases hexp : bltIsTimerExpired e.t now with
    | false =>
      rw [hexp, if_neg Bool.false_ne_true] at hok
      simp only [hexp, Bool.false_eq_true, if_false]
      exact ⟨h.wait hok.2 h.sorted rfl rfl,
        processOk_of_firing_nil hok.1 (process_not_expired he hexp)⟩
    | true =>
      rw [hexp, if_pos rfl] at hok
      rw [he] at hnear'
      simp only [hexp, if_true] at hnear' ⊢
      have hfires : ∀ i < maxTimerNum, ∀ e, (s.timers.rounds callback now i).Fires now i e →
          Machine.Always DueTimers.apply Near ((s.timers.rounds callback now i).fire e)
              (callback (s.timers.rounds callback now i).soft e).1 ∧
            ∀ c ∈ (callback (s.timers.rounds callback now i).soft e).1, c.NotBefore now :=
        fun i hi e hf => hcalls i hi e hf.1 hf.2
      refine ⟨.of_firstWakeup (hd.process he hexp) ?_ fun x hx => ?_, ?_⟩
      · exact h.sorted.process he hexp hd hnear' fun i hi e hf => (hfires i hi e hf).1
      · exact not_overlooked_process he hexp hd hok.1 hok.2
          (fun i hi e hf => (hfires i hi e hf).2) (List.mem_of_getElem? hx)
      · have hcond : ProcessCond callback now s.timers.soft := by
          refine ⟨fun _ e' he' => ?_, hok.1⟩
          cases he.symm.trans he'
          exact hexp
        exact hcond.processOk hd.valid

/-! ### Runs -/

theorem dated_pmStep (hd : s.timers.Dated) (e : PmEvent) : (pmStep s e).timers.Dated := by
  cases e with
  | add func intervalUs now =>
    show (s.bltSoftTimerAdd func intervalUs now).timers.Dated
    unfold SoftTimerPm.bltSoftTimerAdd
    split_ifs
    · exact hd
    · exact hd.apply (.add func intervalUs now)
  | delete func now =>
    show (s.bltSoftTimerDelete func now).timers.Dated
    unfold SoftTimerPm.bltSoftTimerDelete
    split
    · exact hd
    · exact hd.apply (.delete func)
  | process callback now =>
    show (s.bltSoftTimerProcess callback now).timers.Dated
    unfold SoftTimerPm.bltSoftTimerProcess
    cases he : s.timers.soft.timer[0]? with
    | none => exact hd
    | some e =>
      dsimp only
      split_ifs with hexp
      · exact hd.process he hexp
      · exact hd

theorem pmStep_ok {e : PmEvent} (h : WakeupOk s) (hd : s.timers.Dated) (hnear : PmNear s e)
    (hok : PmStepOk s e) : WakeupOk (pmStep s e) ∧ TableOk s e := by
  cases e with
  | add func intervalUs now => exact pmStep_add_ok h hd hnear hok
  | delete func now => exact pmStep_delete_ok h hd hok
  | process callback now => exact pmStep_process_ok h hd hnear hok

end Steps

/-- In every run whose deadlines lie near each other and whose steps meet the condition, the table
is always ordered, the wake-up is the first deadline or disabled with none due within 5 s, and every
call changes the table as it is to and calls every expired timer. -/
theorem soft_timer_wakeup (events : List PmEvent)
    (hok : Machine.Along pmStep (fun s e => PmNear s e ∧ PmStepOk s e) .powerOn events) :
    Machine.Always pmStep WakeupOk .powerOn events ∧
      Machine.Along pmStep TableOk .powerOn events := by
  have hinit : SoftTimerPm.powerOn.timers.Dated ∧ WakeupOk .powerOn :=
    ⟨⟨⟨Nat.zero_le _, List.nodup_nil, fun e he => (nomatch he)⟩, fun e he => (nomatch he)⟩,
      .of_nil rfl⟩
  have hstep : ∀ s e, s.timers.Dated ∧ WakeupOk s → PmNear s e ∧ PmStepOk s e →
      (pmStep s e).timers.Dated ∧ WakeupOk (pmStep s e) :=
    fun s e hs hok => ⟨dated_pmStep hs.1 e, (pmStep_ok hs.2 hs.1 hok.1 hok.2).1⟩
  exact ⟨Machine.always_of_invariant hstep (fun _ hs => hs.2) hinit hok,
    Machine.along_of_invariant hstep
      (fun _ _ hs hok => (pmStep_ok hs.2 hs.1 hok.1 hok.2).2) hinit hok⟩

/-- Callbacks that call nothing and keep their intervals. -/
def keepAll : TimerCallbacks := fun _ _ => ([], 0)

/-- For callbacks that call nothing, the deadlines are near throughout the loop if they are near
behind each of its rounds. -/
theorem pmNear_process_keepAll {s : SoftTimerPm} {now : ℕ}
    (hnear : (pmStep s (.process keepAll now)).timers.Near)
    (hrounds : ∀ i < maxTimerNum, (s.timers.rounds keepAll now i).Near) :
    PmNear s (.process keepAll now) :=
  ⟨hnear, fun i hi _ _ _ => ⟨hrounds i hi, fun _ hc => (nomatch hc)⟩⟩

instance (d : DueTimers) : Decidable d.Near :=
  inferInstanceAs (Decidable (∀ e ∈ d.soft.timer, ∀ e' ∈ d.soft.timer,
    d.due e.id < d.due e'.id + 1073741824))

instance (due t now : ℕ) : Decidable (Overlooked due t now) :=
  inferInstanceAs (Decidable (due < now ∧ wakeupWindow ≤ u32Sub t (u32 now)))

/-- Two timers are added, the first one fires, and it is deleted before the second is due, which
fires next. -/
theorem soft_timer_wakeup_example :
    let events := [.add (some 1) 100 0, .add (some 2) 1000 800, .process keepAll 1600,
      .delete (some 1) 2000, .process keepAll 16800]
    Machine.Always pmStep WakeupOk .powerOn events ∧
      Machine.Along pmStep TableOk .powerOn events := by
  have hadd {s : SoftTimerPm} {func : Option ℕ} {intervalUs now : ℕ}
      (hnear : (pmStep s (.add func intervalUs now)).timers.Near)
      (hroom : ¬ maxTimerNum ≤ s.timers.soft.timer.length) :
      PmNear s (.add func intervalUs now) ∧ PmStepOk s (.add func intervalUs now) :=
    ⟨⟨hnear, trivial⟩, fun hfull => absurd hfull hroom⟩
  have hprocess {s : SoftTimerPm} {now : ℕ} {e : BltTimeEvent}
      (he : s.timers.soft.timer[0]? = some e) (hexp : bltIsTimerExpired e.t now = true)
      (hloop : LoopOk keepAll now s.timers.soft)
      (hother : ∀ e' ∈ s.timers.soft.timer,
        e'.fires now = true ∨ ¬ Overlooked (s.timers.due e'.id) e'.t now) :
      PmStepOk s (.process keepAll now) := by
    intro e' he'
    obtain rfl := Option.some.inj (he.symm.trans he')
    rw [if_pos hexp]
    exact ⟨hloop, hother⟩
  apply soft_timer_wakeup
  refine ⟨hadd (by decide +kernel) (by decide +kernel), hadd (by decide +kernel) (by decide +kernel),
    ⟨pmNear_process_keepAll (by decide +kernel) (by decide +kernel), ?_⟩,
    ⟨⟨by decide +kernel, trivial⟩, ?_⟩,
    ⟨pmNear_process_keepAll (by decide +kernel) (by decide +kernel), ?_⟩, trivial⟩
  · exact hprocess (e := ⟨0, some 1, 1600, 1600⟩) (by decide +kernel) (by decide +kernel)
      (by decide +kernel) (by decide +kernel)
  · rw [PmStepOk, if_pos (by decide +kernel)]
    decide +kernel
  · exact hprocess (e := ⟨1, some 2, 16800, 16000⟩) (by decide +kernel) (by decide +kernel)
      (by decide +kernel) (by decide +kernel)

/-- The first timer is deleted, and the next one is overdue. A timer that is overdue by more than
4 s keeps the next one from firing. -/
theorem soft_timer_wakeup_counterexample :
    ¬ Machine.Always pmStep WakeupOk .powerOn
        [.add (some 1) 100 0, .add (some 2) 200 0, .delete (some 1) 10000] ∧
      ¬ Machine.Along pmStep TableOk .powerOn
        [.add (some 1) 100 0, .add (some 2) 5000000 0, .process keepAll 80000000] := by
  refine ⟨fun h => ?_, fun h => ?_⟩
  · have hlast := h.last.disabled (by decide +kernel)
    exact absurd hlast (by decide +kernel)
  · exact absurd h.2.2.1.fired (by decide +kernel)

end TlBleSdk.Common
