import TlBleSdk.Lib.LinkedList
import TlBleSdk.Lib.Run
import Mathlib.Algebra.Order.Ring.Nat
import Mathlib.Data.List.DropRight
import Mathlib.Data.List.Perm.Subperm

/-!
# The priority queue

`tl_queue.c`: a linked list with a pointer to its head and one to its tail, kept in the order
of a priority function if there is one. The `next` fields of all items are a function on
addresses. Interrupts are disabled in each function, so its calls come one after the other.

The queue is compared with a list of items, `PriList`.
-/

namespace TlBleSdk.Common

open LinkedList

/-! ## The queue -/

/-- A pointer to a `queue_item_t` in an address space of 32 bits. NULL is 0. -/
abbrev QueueItemPtr := BitVec 32

/-- `queue_sts_t`. -/
inductive QueueSts
  | success
  | paramInvalid
  | empty
  | notFound
deriving DecidableEq

/-- What a call returns. -/
inductive QueueRet
  | sts (s : QueueSts)
  | item (pItem : QueueItemPtr)
deriving DecidableEq

/-- `queue_t`, with the `next` fields of the items. -/
structure Queue where
  head : QueueItemPtr
  tail : QueueItemPtr
  priCmpCb : Option (QueueItemPtr → ℕ)
  curNum : BitVec 32
  next : QueueItemPtr → QueueItemPtr

namespace Queue

/-- The assignment `pItem->next = v`. -/
def setNext (q : Queue) (pItem v : QueueItemPtr) : Queue :=
  { q with next := Function.update q.next pItem v }

/-- The nodes that a walk may visit. A walk over more nodes than there are addresses is on a
cycle and has no end. -/
def walkMax : ℕ := 2 ^ 32

/-- `queue_init`. -/
def queueInit (q : Queue) (priFunc : Option (QueueItemPtr → ℕ)) : Queue :=
  { q with head := 0, tail := 0, curNum := 0, priCmpCb := priFunc }

/-- `queue_enq`. -/
def queueEnq (q : Queue) (pItem : QueueItemPtr) : Option (Queue × QueueSts) :=
  if pItem = 0 then some (q, .paramInvalid)
  else if q.head = 0 then
    some ({ q.setNext pItem 0 with head := pItem, tail := pItem, curNum := q.curNum + 1 },
      .success)
  else
    match q.priCmpCb with
    | none =>
      some ({ (q.setNext q.tail pItem).setNext pItem 0 with
        tail := pItem, curNum := q.curNum + 1 }, .success)
    | some pri => do
      let (previous, current) ←
        scan 0 q.next (fun current => pri pItem < pri current) walkMax 0 q.head
      let q' := if previous = 0 then { q with head := pItem } else q.setNext previous pItem
      some ({ q'.setNext pItem current with
        tail := if current = 0 then pItem else q.tail, curNum := q.curNum + 1 }, .success)

/-- `queue_deq`. -/
def queueDeq (q : Queue) : Queue × QueueItemPtr :=
  if q.head = 0 then (q, 0)
  else
    ({ q with
      head := q.next q.head
      tail := if q.next q.head = 0 then 0 else q.tail
      curNum := q.curNum - 1 }, q.head)

/-- `queue_insert`. -/
def queueInsert (q : Queue) (pItem pPrev : QueueItemPtr) : Option (Queue × QueueSts) :=
  if pItem = 0 then some (q, .paramInvalid)
  else if q.head = 0 ∨ pPrev = q.tail then do
    let (q', _) ← q.queueEnq pItem
    some (q', .success)
  else if pPrev = 0 then
    some ({ q.setNext pItem q.head with
      tail := if q.head = 0 then pItem else q.tail
      head := pItem
      curNum := q.curNum + 1 }, .success)
  else
    some ({ (q.setNext pItem (q.next pPrev)).setNext pPrev pItem with
      curNum := q.curNum + 1 }, .success)

/-- `queue_remove`. -/
def queueRemove (q : Queue) (pItem pPrev : QueueItemPtr) : Queue × QueueSts :=
  if q.head = 0 ∨ pItem = 0 then (q, .paramInvalid)
  else
    let q' :=
      if q.head = pItem then { q with head := q.next pItem }
      else if pPrev ≠ 0 then q.setNext pPrev (q.next pItem)
      else q
    ({ q' with tail := if q.tail = pItem then pPrev else q.tail, curNum := q.curNum - 1 },
      .success)

/-- `queue_delete`. -/
def queueDelete (q : Queue) (pItem : QueueItemPtr) : Option (Queue × QueueSts) :=
  if pItem = 0 then some (q, .paramInvalid)
  else if q.head = 0 then some (q, .empty)
  else if q.head = pItem then
    some ({ q with
      head := q.next pItem
      tail := if q.tail = pItem then 0 else q.tail
      curNum := q.curNum - 1 }, .success)
  else do
    let (previous, current) ← scan 0 q.next (fun current => current = pItem) walkMax 0 q.head
    if current = pItem then
      some ({ q.setNext previous (q.next current) with
        tail := if q.tail = current then previous else q.tail
        curNum := q.curNum - 1 }, .success)
    else some (q, .notFound)

end Queue

/-- The calls of the queue. -/
inductive QueueCall
  | init (priFunc : Option (QueueItemPtr → ℕ))
  | enq (pItem : QueueItemPtr)
  | deq
  | insert (pItem pPrev : QueueItemPtr)
  | remove (pItem pPrev : QueueItemPtr)
  | delete (pItem : QueueItemPtr)

/-- A call of a function of the queue. -/
def Queue.call (q : Queue) : QueueCall → Option (Queue × QueueRet)
  | .init priFunc => some (q.queueInit priFunc, .sts .success)
  | .enq pItem => (q.queueEnq pItem).map (Prod.map id .sts)
  | .deq => some (q.queueDeq.1, .item q.queueDeq.2)
  | .insert pItem pPrev => (q.queueInsert pItem pPrev).map (Prod.map id .sts)
  | .remove pItem pPrev => some ((q.queueRemove pItem pPrev).1, .sts (q.queueRemove pItem pPrev).2)
  | .delete pItem => (q.queueDelete pItem).map (Prod.map id .sts)

/-! ## What the queue is to do -/

/-- The item `x` behind the item `prev`. -/
def insertAfter (x prev : QueueItemPtr) : List QueueItemPtr → List QueueItemPtr
  | [] => [x]
  | y :: l => if y = prev then y :: x :: l else y :: insertAfter x prev l

/-- The item `x` behind all items of a lower or equal priority value. -/
def insertByPri (pri : QueueItemPtr → ℕ) (x : QueueItemPtr) (l : List QueueItemPtr) :
    List QueueItemPtr :=
  l.rdropWhile (fun y => pri x < pri y) ++ x :: l.rtakeWhile fun y => pri x < pri y

/-- A list of items, with a priority function or without one. -/
structure PriList where
  priFunc : Option (QueueItemPtr → ℕ)
  items : List QueueItemPtr

namespace PriList

/-- An item is added: at the end, or where its priority value places it. -/
def add (a : PriList) (x : QueueItemPtr) : List QueueItemPtr :=
  match a.priFunc with
  | none => a.items ++ [x]
  | some pri => insertByPri pri x a.items

/-- A call on the list, and what it is to return. -/
def call (a : PriList) : QueueCall → PriList × QueueRet
  | .init priFunc => (⟨priFunc, []⟩, .sts .success)
  | .enq x =>
    if x = 0 then (a, .sts .paramInvalid) else ({ a with items := a.add x }, .sts .success)
  | .deq => ({ a with items := a.items.tail }, .item (a.items.headD 0))
  | .insert x prev =>
    if x = 0 then (a, .sts .paramInvalid)
    else
      ({ a with items := if prev = 0 then x :: a.items else insertAfter x prev a.items },
        .sts .success)
  | .remove x _ =>
    ({ a with items := a.items.erase x },
      .sts (if x = 0 ∨ a.items = [] then .paramInvalid else .success))
  | .delete x =>
    if x ∈ a.items then ({ a with items := a.items.erase x }, .sts .success)
    else
      (a, .sts (if x = 0 then .paramInvalid else if a.items = [] then .empty else .notFound))

/-- The calls in question: a new item is not in the queue, and a predecessor is NULL or in the
queue. -/
def Valid (a : PriList) : QueueCall → Prop
  | .enq x => x ∉ a.items
  | .insert x prev => x ∉ a.items ∧ (prev = 0 ∨ prev ∈ a.items)
  | .remove _ prev => prev = 0 ∨ prev ∈ a.items
  | _ => True

instance (a : PriList) : ∀ c, Decidable (a.Valid c)
  | .init _ => inferInstanceAs (Decidable True)
  | .enq x => inferInstanceAs (Decidable (x ∉ a.items))
  | .deq => inferInstanceAs (Decidable True)
  | .insert x prev => inferInstanceAs (Decidable (x ∉ a.items ∧ (prev = 0 ∨ prev ∈ a.items)))
  | .remove _ prev => inferInstanceAs (Decidable (prev = 0 ∨ prev ∈ a.items))
  | .delete _ => inferInstanceAs (Decidable True)

/-- No item of a greater priority value than `x` stands before one of a lower or equal value. -/
def InOrder (a : PriList) (x : QueueItemPtr) : Prop :=
  ∀ pri, a.priFunc = some pri →
    a.items.Pairwise fun y z => pri x < pri y → pri x < pri z

/-- No item has a greater priority value than `x`. -/
def IsLast (a : PriList) (x : QueueItemPtr) : Prop :=
  ∀ pri, a.priFunc = some pri → ∀ y ∈ a.items, pri y ≤ pri x

/-- The item `x` is at the head, and `prev` is NULL if it is the only one, or `prev` stands
directly before `x`. -/
def IsPrev (a : PriList) (x prev : QueueItemPtr) : Prop :=
  (∃ l, a.items = x :: l ∧ (l = [] → prev = 0)) ∨ ∃ l₁ l₂, a.items = l₁ ++ prev :: x :: l₂

/-- The calls that do what they are to do: an item is enqueued where the order places it only
if the items are in order around it, inserted at the tail if it belongs there, and removed if
it is in the queue and its predecessor is given. -/
def Ok (a : PriList) : QueueCall → Prop
  | .enq x => a.InOrder x
  | .insert x prev => a.items.getLast? = some prev → a.IsLast x
  | .remove x prev => x = 0 ∨ a.items = [] ∨ a.IsPrev x prev
  | _ => True

end PriList

/-- The list from `head` through `next` has the items of `a`, and ends at `tail`. -/
structure Represents (q : Queue) (a : PriList) : Prop where
  seg : Seg 0 q.next q.head a.items 0
  tail : q.tail = a.items.getLastD 0
  nodup : a.items.Nodup
  curNum : q.curNum.toNat = a.items.length
  priFunc : q.priCmpCb = a.priFunc

/-! ## Lists of items -/

section Lists

variable {pri : QueueItemPtr → ℕ} {x prev : QueueItemPtr} {l u v : List QueueItemPtr}

theorem insertAfter_append (hprev : prev ∉ u) :
    insertAfter x prev (u ++ prev :: v) = u ++ prev :: x :: v := by
  induction u with
  | nil => simp [insertAfter]
  | cons y u ih =>
    obtain ⟨hne, hl₁⟩ := not_or.mp (List.mem_cons.not.mp hprev)
    rw [List.cons_append, insertAfter, if_neg (Ne.symm hne), ih hl₁, List.cons_append]

theorem insertByPri_append (h₁ : ∀ y ∈ u, pri y ≤ pri x) (h₂ : ∀ y ∈ v, pri x < pri y) :
    insertByPri pri x (u ++ v) = u ++ x :: v := by
  have hpos : ∀ y ∈ v.reverse, decide (pri x < pri y) = true := by
    intro y hy
    simpa using h₂ y (List.mem_reverse.mp hy)
  have hstop : u.rdropWhile (fun y => pri x < pri y) = u := by
    rw [List.rdropWhile_eq_self_iff]
    intro hl
    simpa using h₁ _ (List.getLast_mem hl)
  have hdrop : (u ++ v).rdropWhile (fun y => pri x < pri y) = u := by
    rw [List.rdropWhile, List.reverse_append, List.dropWhile_append_of_pos hpos]
    exact hstop
  have htake : (u ++ v).rdropWhile (fun y => pri x < pri y) ++
      (u ++ v).rtakeWhile (fun y => pri x < pri y) = u ++ v :=
    List.rdropWhile_append_rtakeWhile
  rw [hdrop, List.append_cancel_left_eq] at htake
  rw [insertByPri, hdrop, htake]

/-- The items before the first one of a greater value. -/
theorem insertByPri_of_inOrder (h : l.Pairwise fun y z => pri x < pri y → pri x < pri z) :
    insertByPri pri x l =
      l.takeWhile (fun y => !decide (pri x < pri y)) ++
        x :: l.dropWhile fun y => !decide (pri x < pri y) := by
  conv_lhs =>
    rw [← List.takeWhile_append_dropWhile (p := fun y => !decide (pri x < pri y)) (l := l)]
  apply insertByPri_append
  · intro y hy
    simpa using List.mem_takeWhile_imp hy
  · have hsuffix := h.sublist (List.dropWhile_sublist fun y => !decide (pri x < pri y))
    have hhead := List.head?_dropWhile_not (fun y => !decide (pri x < pri y)) l
    intro y hy
    cases hdrop : l.dropWhile fun y => !decide (pri x < pri y) with
    | nil => rw [hdrop] at hy; cases hy
    | cons z l' =>
      rw [hdrop] at hy hsuffix hhead
      have hz : pri x < pri z := by simpa using hhead
      rcases List.mem_cons.mp hy with rfl | hy
      · exact hz
      · exact (List.pairwise_cons.mp hsuffix).1 y hy hz

/-- Where no item has a greater value, the end of the list is the place. -/
theorem insertByPri_of_isLast (h : ∀ y ∈ l, pri y ≤ pri x) : insertByPri pri x l = l ++ [x] := by
  simpa using insertByPri_append (v := []) h (by simp)

/-- There are less items than addresses. -/
theorem length_lt_of_nodup (h : l.Nodup) (h0 : 0 ∉ l) : l.length < 2 ^ 32 := by
  have hnodup : ((0 :: l).map BitVec.toNat).Nodup :=
    (List.nodup_cons.mpr ⟨h0, h⟩).map fun a b hab => BitVec.eq_of_toNat_eq hab
  have hsub : (0 :: l).map BitVec.toNat ⊆ List.range (2 ^ 32) := by
    intro n hn
    obtain ⟨y, -, rfl⟩ := List.mem_map.mp hn
    exact List.mem_range.mpr y.isLt
  have hlen := (List.Nodup.subperm hnodup hsub).length_le
  rw [List.length_map, List.length_cons, List.length_range] at hlen
  exact hlen

end Lists

/-! ## The edits of the list -/

namespace Represents

variable {q q' : Queue} {a : PriList} {x : QueueItemPtr} {u v : List QueueItemPtr}

theorem zero_not_mem (h : Represents q a) : 0 ∉ a.items := fun h0 => h.seg.ne_null h0 rfl

theorem head_eq_zero_iff (h : Represents q a) : q.head = 0 ↔ a.items = [] :=
  h.seg.ptr_eq_null_iff

theorem next_eq_headD (h : Represents q a) (hl : a.items = u ++ x :: v) :
    q.next x = v.headD 0 := by
  have hseg := h.seg
  rw [hl] at hseg
  obtain ⟨r, -, -, -, hl₂⟩ := seg_append.mp hseg
  exact hl₂.eq_headD

/-- The last item is the tail. -/
theorem tail_eq_iff (h : Represents q a) (hl : a.items = u ++ x :: v) :
    q.tail = x ↔ v = [] := by
  rw [h.tail, hl]
  rcases List.eq_nil_or_concat' v with rfl | ⟨l, y, rfl⟩
  · simp
  · have hnodup := h.nodup
    rw [hl, List.nodup_append] at hnodup
    have hne : x ≠ y := by
      rintro rfl
      exact (List.nodup_cons.mp hnodup.2.1).1 (by simp)
    have hlast : (u ++ x :: (l ++ [y])).getLastD 0 = y := by
      rw [← List.cons_append, ← List.append_assoc, List.getLastD_concat]
    rw [hlast]
    simp [hne.symm]

/-- Only the first item is the head. -/
theorem head_ne (h : Represents q a) (hl : a.items = u ++ x :: v) (hne : u ≠ []) :
    q.head ≠ x := by
  cases u with
  | nil => exact absurd rfl hne
  | cons y u =>
    have hnodup := h.nodup
    rw [hl, List.cons_append, List.nodup_cons] at hnodup
    rw [h.seg.eq_headD, hl]
    intro heq
    have hyx : y = x := heq
    exact hnodup.1 (by rw [hyx]; simp)

/-- The items beside the predecessor `y` are others than `y`. -/
theorem mem_and_getLast?_ne {l₀ v : List QueueItemPtr} {y z : QueueItemPtr}
    (hnodup : (l₀ ++ [y] ++ v).Nodup) (hz : z ∈ l₀ ++ v) :
    z ∈ l₀ ++ [y] ++ v ∧ (l₀ ++ [y]).getLast? ≠ some z := by
  have hperm : (l₀ ++ [y] ++ v).Perm (y :: (l₀ ++ v)) := by
    rw [List.append_assoc]
    exact List.perm_middle
  have hy := (List.nodup_cons.mp (hperm.nodup_iff.mp hnodup)).1
  refine ⟨hperm.mem_iff.mpr (List.mem_cons_of_mem y hz), ?_⟩
  rw [List.getLast?_concat]
  intro heq
  exact hy (Option.some.inj heq ▸ hz)

/-- An item is inserted between `u` and `v`. -/
theorem insert (h : Represents q a) (hl : a.items = u ++ v) (hx0 : x ≠ 0) (hx : x ∉ a.items)
    (hhead : q'.head = if u = [] then x else q.head)
    (htail : q'.tail = if v = [] then x else q.tail)
    (hprev : ∀ y, u.getLast? = some y → q'.next y = x) (hnext : q'.next x = v.headD 0)
    (hframe : ∀ z ∈ a.items, u.getLast? ≠ some z → q'.next z = q.next z)
    (hcur : q'.curNum = q.curNum + 1) (hpri : q'.priCmpCb = q.priCmpCb) :
    Represents q' { a with items := u ++ x :: v } := by
  have hperm : (u ++ x :: v).Perm (x :: a.items) := hl ▸ List.perm_middle
  have hnodup : (u ++ x :: v).Nodup :=
    hperm.nodup_iff.mpr (List.nodup_cons.mpr ⟨hx, h.nodup⟩)
  refine ⟨?_, ?_, hnodup, ?_, hpri.trans h.priFunc⟩
  · have hseg := h.seg
    rw [hl] at hseg
    rw [hhead]
    rcases List.eq_nil_or_concat' u with rfl | ⟨l₀, y, rfl⟩
    · rw [if_pos rfl]
      refine hseg.push hx0 (hnext.trans hseg.eq_headD.symm) fun z hz => ?_
      exact hframe z (hl ▸ hz) (by simp)
    · rw [if_neg (by simp)]
      rw [List.append_assoc, List.singleton_append] at hseg ⊢
      refine hseg.insert_after hx0 (hprev y (by simp)) ?_ fun z hz => ?_
      · obtain ⟨r, -, -, -, hl₂⟩ := seg_append.mp hseg
        exact hnext.trans hl₂.eq_headD.symm
      · obtain ⟨hmem, hne⟩ := mem_and_getLast?_ne (hl ▸ h.nodup) hz
        exact hframe z (hl ▸ hmem) hne
  · rw [htail]
    cases v with
    | nil => simp
    | cons z v =>
      rw [if_neg (by simp), h.tail, hl]
      simp
  · have hlen := length_lt_of_nodup hnodup (by
      rw [hperm.mem_iff, List.mem_cons]
      exact fun h0 => h0.elim (fun h0 => hx0 h0.symm) h.zero_not_mem)
    rw [hperm.length_eq, List.length_cons] at hlen
    show q'.curNum.toNat = (u ++ x :: v).length
    rw [hcur, BitVec.toNat_add, h.curNum, hperm.length_eq, List.length_cons]
    exact Nat.mod_eq_of_lt hlen

/-- The item between `u` and `v` is taken out. -/
theorem erase (h : Represents q a) (hl : a.items = u ++ x :: v)
    (hhead : q'.head = if u = [] then q.next x else q.head)
    (htail : q'.tail = if v = [] then u.getLastD 0 else q.tail)
    (hprev : ∀ y, u.getLast? = some y → q'.next y = q.next x)
    (hframe : ∀ z ∈ u ++ v, u.getLast? ≠ some z → q'.next z = q.next z)
    (hcur : q'.curNum = q.curNum - 1) (hpri : q'.priCmpCb = q.priCmpCb) :
    Represents q' { a with items := a.items.erase x } := by
  have hperm : a.items.Perm (x :: (u ++ v)) := hl ▸ List.perm_middle
  obtain ⟨hx, hnodup⟩ := List.nodup_cons.mp (hperm.nodup_iff.mp h.nodup)
  have herase : a.items.erase x = u ++ v := by
    rw [hl, List.erase_append_right _ fun hx₁ => hx (List.mem_append_left _ hx₁),
      List.erase_cons_head]
  rw [herase]
  refine ⟨?_, ?_, hnodup, ?_, hpri.trans h.priFunc⟩
  · have hseg := h.seg
    rw [hl] at hseg
    rw [hhead]
    rcases List.eq_nil_or_concat' u with rfl | ⟨l₀, y, rfl⟩
    · rw [if_pos rfl]
      obtain ⟨-, -, hseg⟩ := hseg
      exact hseg.congr fun z hz => hframe z hz (by simp)
    · rw [if_neg (by simp)]
      rw [List.append_assoc, List.singleton_append] at hseg ⊢
      refine hseg.unlink_after (hprev y (by simp)) fun z hz => ?_
      obtain ⟨hmem, hne⟩ := mem_and_getLast?_ne hnodup hz
      exact hframe z hmem hne
  · rw [htail]
    cases v with
    | nil => simp
    | cons z v =>
      rw [if_neg (by simp), h.tail, hl]
      simp
  · have hlen := h.curNum
    rw [hperm.length_eq, List.length_cons] at hlen
    have hlt := q.curNum.isLt
    show q'.curNum.toNat = (u ++ v).length
    rw [hcur, BitVec.toNat_sub, hlen]
    have hone : (1 : BitVec 32).toNat = 1 := rfl
    omega

end Represents

/-! ## The calls -/

namespace Queue

variable {q : Queue} {a : PriList} {x prev : QueueItemPtr}

/-- Behind `queue_init` the queue is empty. -/
theorem represents_queueInit (q : Queue) (priFunc : Option (QueueItemPtr → ℕ)) :
    Represents (q.queueInit priFunc) ⟨priFunc, []⟩ :=
  ⟨rfl, rfl, List.nodup_nil, rfl, rfl⟩

/-- The links of an item between `u` and `v`. -/
theorem represents_link {u v : List QueueItemPtr} (h : Represents q a)
    (hl : a.items = u ++ v) (hx0 : x ≠ 0) (hx : x ∉ a.items) :
    Represents
      { (if u.getLastD 0 = 0 then { q with head := x } else q.setNext (u.getLastD 0) x).setNext
          x (v.headD 0) with
        tail := if v.headD 0 = 0 then x else q.tail, curNum := q.curNum + 1 }
      { a with items := u ++ x :: v } := by
  have hne : ∀ z ∈ a.items, z ≠ 0 := fun z hz => h.seg.ne_null hz
  have hhead : v.headD 0 = 0 ↔ v = [] := by
    cases v with
    | nil => simp
    | cons z v => simpa using hne z (by rw [hl]; simp)
  rcases List.eq_nil_or_concat' u with rfl | ⟨l₀, y, rfl⟩
  · refine h.insert hl hx0 hx rfl (by simp only [hhead]) (by simp) ?_ ?_ rfl rfl
    · simp [setNext]
    · intro z hz _
      have hzx : z ≠ x := by
        rintro rfl
        exact hx hz
      simp [setNext, Function.update_of_ne hzx]
  · have hmem : y ∈ a.items := by rw [hl]; simp
    have hy : y ≠ 0 := hne y hmem
    have hyx : y ≠ x := by
      rintro rfl
      exact hx hmem
    rw [List.getLastD_concat, if_neg hy]
    refine h.insert hl hx0 hx ?_ (by simp only [hhead]) ?_ ?_ ?_ rfl rfl
    · rw [if_neg (show l₀ ++ [y] ≠ [] by simp)]
      rfl
    · intro z hz
      rw [List.getLast?_concat, Option.some.injEq] at hz
      subst hz
      simp only [setNext]
      rw [Function.update_of_ne hyx, Function.update_self]
    · simp [setNext]
    · intro z hz hlast
      have hzx : z ≠ x := by
        rintro rfl
        exact hx hz
      have hzy : z ≠ y := by
        rintro rfl
        exact hlast (by simp)
      simp only [setNext]
      rw [Function.update_of_ne hzx, Function.update_of_ne hzy]

/-- The tail of a queue that is not empty is its last item. -/
theorem getLast?_eq_tail (h : Represents q a) (hne : a.items ≠ []) :
    a.items.getLast? = some q.tail := by
  rw [h.tail, List.getLastD_eq_getLast?]
  cases hlast : a.items.getLast? with
  | none => exact absurd (List.getLast?_eq_none_iff.mp hlast) hne
  | some y => rfl

/-- `queue_enq` puts an item where `PriList.add` does. -/
theorem queueEnq_spec (h : Represents q a) (hx0 : x ≠ 0) (hx : x ∉ a.items) (hok : a.InOrder x) :
    ∃ q', q.queueEnq x = some (q', .success) ∧ Represents q' { a with items := a.add x } := by
  unfold queueEnq
  rw [if_neg hx0]
  by_cases hempty : q.head = 0
  · have hnil := h.head_eq_zero_iff.mp hempty
    have hadd : a.add x = [] ++ x :: [] := by
      unfold PriList.add
      rw [hnil]
      cases a.priFunc <;> simp [insertByPri]
    rw [if_pos hempty, hadd]
    refine ⟨_, rfl, h.insert (by simpa using hnil) hx0 hx rfl rfl (by simp) ?_ ?_ rfl rfl⟩
    · simp [setNext]
    · simp [hnil]
  rw [if_neg hempty]
  cases hpri : q.priCmpCb with
  | none =>
    have hne : a.items ≠ [] := fun hnil => hempty (h.head_eq_zero_iff.mpr hnil)
    have hadd : a.add x = a.items ++ x :: [] := by
      unfold PriList.add
      rw [← h.priFunc, hpri]
    have htail : a.items.getLastD 0 = q.tail := h.tail.symm
    have htail0 : q.tail ≠ 0 := h.seg.ne_null (List.mem_of_getLast? (getLast?_eq_tail h hne))
    have hlink := represents_link h (List.append_nil _).symm hx0 hx
    rw [htail, if_neg htail0] at hlink
    rw [hadd]
    exact ⟨_, rfl, hlink⟩
  | some pri =>
    have hfuel : a.items.length < walkMax := length_lt_of_nodup h.nodup h.zero_not_mem
    have hadd : a.add x = insertByPri pri x a.items := by
      unfold PriList.add
      rw [← h.priFunc, hpri]
    rw [hadd, insertByPri_of_inOrder (hok pri (h.priFunc ▸ hpri))]
    simp only [h.seg.scan_eq _ hfuel, Option.bind_eq_bind, Option.bind_some, ← hpri]
    exact ⟨_, rfl, represents_link h (List.takeWhile_append_dropWhile).symm hx0 hx⟩

theorem queueDeq_spec (h : Represents q a) :
    q.queueDeq.2 = a.items.headD 0 ∧ Represents q.queueDeq.1 { a with items := a.items.tail } := by
  unfold queueDeq
  by_cases hempty : q.head = 0
  · have hnil := h.head_eq_zero_iff.mp hempty
    have htail : a.items.tail = a.items := by rw [hnil, List.tail_nil]
    rw [if_pos hempty, htail, hnil]
    refine ⟨rfl, ?_⟩
    rw [← hnil]
    exact h
  · rw [if_neg hempty]
    cases hitems : a.items with
    | nil => exact absurd (h.head_eq_zero_iff.mpr hitems) hempty
    | cons x l =>
      have hseg := h.seg
      rw [hitems] at hseg
      obtain ⟨hx, -, hl⟩ := hseg
      have herase : a.items.erase x = l := by rw [hitems, List.erase_cons_head]
      refine ⟨hx, ?_⟩
      rw [List.tail_cons, ← herase]
      refine h.erase (u := []) hitems (by rw [hx]; rfl) ?_ (by simp) (fun _ _ _ => rfl) rfl rfl
      rw [hx]
      by_cases hnil : l = []
      · rw [if_pos (hl.ptr_eq_null_iff.mpr hnil), if_pos hnil]
        rfl
      · rw [if_neg fun h0 => hnil (hl.ptr_eq_null_iff.mp h0), if_neg hnil]

/-- An item that belongs behind all others is enqueued behind the last one. -/
theorem add_eq_insertAfter (hnodup : a.items.Nodup) (hprev : a.items.getLast? = some prev)
    (hlast : a.IsLast x) : a.add x = insertAfter x prev a.items := by
  obtain ⟨l, hl⟩ := List.getLast?_eq_some_iff.mp hprev
  have hnot : prev ∉ l := by
    rw [hl, List.nodup_append] at hnodup
    exact fun hmem => hnodup.2.2 prev hmem prev (List.mem_singleton_self _) rfl
  have hafter := insertAfter_append (x := x) (v := []) hnot
  rw [hl, hafter]
  unfold PriList.add
  cases hpri : a.priFunc with
  | none => simp [hl]
  | some pri =>
    have hplace := insertByPri_of_isLast (hlast pri hpri)
    rw [hl] at hplace
    simpa [hl] using hplace

/-- The links of an item behind one that is not the last. -/
theorem represents_linkAfter {u v : List QueueItemPtr} (h : Represents q a)
    (hl : a.items = u ++ prev :: v) (hv : v ≠ []) (hx0 : x ≠ 0) (hx : x ∉ a.items) :
    Represents { (q.setNext x (q.next prev)).setNext prev x with curNum := q.curNum + 1 }
      { a with items := u ++ prev :: x :: v } := by
  have hl' : a.items = (u ++ [prev]) ++ v := by simpa using hl
  have hmem : prev ∈ a.items := by rw [hl]; simp
  have hne : ∀ z ∈ a.items, z ≠ x := by
    rintro z hz rfl
    exact hx hz
  have hitems : u ++ prev :: x :: v = (u ++ [prev]) ++ x :: v := by simp
  rw [hitems]
  refine h.insert hl' hx0 hx ?_ ?_ ?_ ?_ ?_ rfl rfl
  · rw [if_neg (show u ++ [prev] ≠ [] by simp)]
    rfl
  · rw [if_neg hv]
    rfl
  · intro y hy
    rw [List.getLast?_concat, Option.some.injEq] at hy
    subst hy
    simp [setNext]
  · simp only [setNext]
    rw [Function.update_of_ne (hne prev hmem).symm, Function.update_self, h.next_eq_headD hl]
  · intro z hz hzlast
    have hzp : z ≠ prev := by
      rintro rfl
      exact hzlast (by simp)
    simp only [setNext]
    rw [Function.update_of_ne hzp, Function.update_of_ne (hne z hz)]

/-- `queue_insert` puts an item in front of all others, or behind its predecessor. -/
theorem queueInsert_spec (h : Represents q a) (hx0 : x ≠ 0) (hx : x ∉ a.items)
    (hprev : prev = 0 ∨ prev ∈ a.items) (hlast : a.items.getLast? = some prev → a.IsLast x) :
    ∃ q', q.queueInsert x prev = some (q', .success) ∧ Represents q'
      { a with items := if prev = 0 then x :: a.items else insertAfter x prev a.items } := by
  unfold queueInsert
  rw [if_neg hx0]
  by_cases hempty : a.items = []
  · -- `queue_enq` of the first item
    have hprev0 : prev = 0 := by simpa [hempty] using hprev
    obtain ⟨q', henq, hq'⟩ := queueEnq_spec h hx0 hx fun pri _ => by
      rw [hempty]
      exact List.Pairwise.nil
    have hadd : a.add x = x :: a.items := by
      unfold PriList.add
      rw [hempty]
      cases a.priFunc <;> simp [insertByPri]
    rw [if_pos (.inl (h.head_eq_zero_iff.mpr hempty)), henq, if_pos hprev0, ← hadd]
    exact ⟨q', rfl, hq'⟩
  have hhead : q.head ≠ 0 := fun h0 => hempty (h.head_eq_zero_iff.mp h0)
  have htail := getLast?_eq_tail h hempty
  by_cases hpt : prev = q.tail
  · -- `queue_enq` of an item that belongs at the end
    have hmem : prev ∈ a.items := hpt ▸ List.mem_of_getLast? htail
    have hislast := hlast (hpt ▸ htail)
    obtain ⟨q', henq, hq'⟩ := queueEnq_spec h hx0 hx fun pri hpri =>
      List.pairwise_iff_forall_sublist.mpr fun hsub hlt =>
        absurd (hislast pri hpri _ (hsub.subset List.mem_cons_self)) (Nat.not_le.mpr hlt)
    have hadd := add_eq_insertAfter h.nodup (hpt ▸ htail) hislast
    rw [if_pos (.inr hpt), henq, if_neg (h.seg.ne_null hmem), ← hadd]
    exact ⟨q', rfl, hq'⟩
  rw [if_neg (not_or.mpr ⟨hhead, hpt⟩)]
  by_cases hprev0 : prev = 0
  · rw [if_pos hprev0, if_pos hprev0]
    have hlink := represents_link h (List.nil_append _).symm hx0 hx
    rw [List.getLastD_nil, if_pos rfl, ← h.seg.eq_headD, if_neg hhead] at hlink
    rw [if_neg hhead]
    exact ⟨_, rfl, hlink⟩
  · have hmem : prev ∈ a.items := hprev.resolve_left hprev0
    rw [if_neg hprev0, if_neg hprev0]
    obtain ⟨u, v, hl, hnot⟩ := List.eq_append_cons_of_mem hmem
    have hafter := insertAfter_append (x := x) (v := v) hnot
    have hv : v ≠ [] := by
      rintro rfl
      rw [hl, List.getLast?_concat, Option.some.injEq] at htail
      exact hpt htail
    rw [hl, hafter]
    exact ⟨_, rfl, represents_linkAfter h hl hv hx0 hx⟩

/-- Behind `queue_remove` or `queue_delete` of the head. -/
theorem represents_dropHead {l : List QueueItemPtr} {tail : QueueItemPtr} (h : Represents q a)
    (hl : a.items = x :: l) (htail : tail = if l = [] then 0 else q.tail) :
    Represents { q with head := q.next x, tail := tail, curNum := q.curNum - 1 }
      { a with items := a.items.erase x } :=
  h.erase (u := []) hl rfl htail (by simp) (fun _ _ _ => rfl) rfl rfl

/-- Behind `queue_remove` or `queue_delete` of an item with a predecessor. -/
theorem represents_unlink {u v : List QueueItemPtr} (h : Represents q a)
    (hl : a.items = u ++ prev :: x :: v) :
    Represents
      { q.setNext prev (q.next x) with
        tail := if q.tail = x then prev else q.tail, curNum := q.curNum - 1 }
      { a with items := a.items.erase x } := by
  have hl' : a.items = (u ++ [prev]) ++ x :: v := by simpa using hl
  refine h.erase hl' ?_ ?_ ?_ ?_ rfl rfl
  · rw [if_neg (show u ++ [prev] ≠ [] by simp)]
    rfl
  · rw [List.getLastD_concat]
    have hiff := h.tail_eq_iff hl'
    by_cases hl₂ : v = []
    · rw [if_pos hl₂, if_pos (hiff.mpr hl₂)]
    · rw [if_neg hl₂, if_neg fun ht => hl₂ (hiff.mp ht)]
  · intro y hy
    rw [List.getLast?_concat, Option.some.injEq] at hy
    subst hy
    simp [setNext]
  · intro z _ hzlast
    have hzp : z ≠ prev := by
      rintro rfl
      exact hzlast (by simp)
    simp only [setNext]
    rw [Function.update_of_ne hzp]

/-- `queue_remove` takes the item out if the predecessor is the right one. -/
theorem queueRemove_spec (h : Represents q a)
    (hok : x = 0 ∨ a.items = [] ∨ a.IsPrev x prev) :
    (q.queueRemove x prev).2 =
        (if x = 0 ∨ a.items = [] then .paramInvalid else .success) ∧
      Represents (q.queueRemove x prev).1 { a with items := a.items.erase x } := by
  unfold queueRemove
  by_cases hinvalid : x = 0 ∨ a.items = []
  · have habsent : x ∉ a.items := by
      rcases hinvalid with rfl | hnil
      · exact h.zero_not_mem
      · rw [hnil]
        exact List.not_mem_nil
    rw [if_pos (hinvalid.symm.imp_left h.head_eq_zero_iff.mpr), if_pos hinvalid,
      List.erase_of_not_mem habsent]
    exact ⟨rfl, h⟩
  obtain ⟨hx0, hempty⟩ := not_or.mp hinvalid
  rw [if_neg fun hor => hinvalid (hor.symm.imp_right h.head_eq_zero_iff.mp), if_neg hinvalid]
  rcases (hok.resolve_left hx0).resolve_left hempty with ⟨l, hl, hprev⟩ | ⟨u, v, hl⟩
  · have hhx : q.head = x := by
      rw [h.seg.eq_headD, hl]
      rfl
    have hiff : q.tail = x ↔ l = [] := h.tail_eq_iff (u := []) hl
    simp only [if_pos hhx]
    refine ⟨trivial, represents_dropHead h hl ?_⟩
    by_cases hnil : l = []
    · rw [if_pos (hiff.mpr hnil), if_pos hnil, hprev hnil]
    · rw [if_neg fun ht => hnil (hiff.mp ht), if_neg hnil]
  · have hhx : q.head ≠ x := h.head_ne (u := u ++ [prev]) (by simpa using hl) (by simp)
    have hprev0 : prev ≠ 0 := h.seg.ne_null (show prev ∈ a.items by rw [hl]; simp)
    simp only [if_neg hhx, if_pos hprev0]
    exact ⟨trivial, represents_unlink h hl⟩

/-- An item of the queue is found behind its predecessor, unless it is the head. -/
theorem queueDelete_mem (h : Represents q a) (hx0 : x ≠ 0) (hmem : x ∈ a.items) :
    ∃ q', q.queueDelete x = some (q', .success) ∧
      Represents q' { a with items := a.items.erase x } := by
  have hempty : a.items ≠ [] := List.ne_nil_of_mem hmem
  have hhead : q.head ≠ 0 := fun h0 => hempty (h.head_eq_zero_iff.mp h0)
  have hfuel : a.items.length < walkMax := length_lt_of_nodup h.nodup h.zero_not_mem
  obtain ⟨u, v, hl, hnot⟩ := List.eq_append_cons_of_mem hmem
  unfold queueDelete
  rw [if_neg hx0, if_neg hhead]
  rcases List.eq_nil_or_concat' u with rfl | ⟨l₀, y, rfl⟩
  · have hhx : q.head = x := by
      rw [h.seg.eq_headD, hl]
      rfl
    have hiff : q.tail = x ↔ v = [] := h.tail_eq_iff (u := []) hl
    rw [if_pos hhx]
    refine ⟨_, rfl, represents_dropHead h hl ?_⟩
    simp only [hiff]
  · have hhx : q.head ≠ x := h.head_ne hl (by simp)
    -- the scan stops at the predecessor `y`
    have hpos : ∀ z ∈ l₀ ++ [y], (!decide (z = x)) = true := by
      intro z hz
      have hzx : z ≠ x := fun heq => hnot (heq ▸ hz)
      simpa using hzx
    have htake : a.items.takeWhile (fun z => !decide (z = x)) = l₀ ++ [y] := by
      rw [hl, List.takeWhile_append_of_pos hpos]
      simp
    have hdrop : a.items.dropWhile (fun z => !decide (z = x)) = x :: v := by
      rw [hl, List.dropWhile_append_of_pos hpos]
      simp
    rw [if_neg hhx, h.seg.scan_eq _ hfuel, htake, hdrop, List.getLastD_concat]
    simp only [Option.bind_eq_bind, Option.bind_some, List.headD_cons, if_true]
    exact ⟨_, rfl, represents_unlink h (by simpa using hl)⟩

/-- The scan for an item that is not in the queue comes to its end. -/
theorem queueDelete_not_mem (h : Represents q a) (hx0 : x ≠ 0) (hempty : a.items ≠ [])
    (hmem : x ∉ a.items) : q.queueDelete x = some (q, .notFound) := by
  have hhead : q.head ≠ 0 := fun h0 => hempty (h.head_eq_zero_iff.mp h0)
  have hfuel : a.items.length < walkMax := length_lt_of_nodup h.nodup h.zero_not_mem
  have hhx : q.head ≠ x := by
    rintro rfl
    apply hmem
    rw [h.seg.eq_headD]
    cases hitems : a.items with
    | nil => exact absurd hitems hempty
    | cons y l => exact List.mem_cons_self
  have hdrop : a.items.dropWhile (fun z => !decide (z = x)) = [] := by
    rw [List.dropWhile_eq_nil_iff]
    intro z hz
    have hzx : z ≠ x := fun heq => hmem (heq ▸ hz)
    simpa using hzx
  unfold queueDelete
  rw [if_neg hx0, if_neg hhead, if_neg hhx, h.seg.scan_eq _ hfuel, hdrop]
  simp only [Option.bind_eq_bind, Option.bind_some, List.headD_nil]
  rw [if_neg (Ne.symm hx0)]

/-- `queue_delete` takes the item out, or says why it does not. -/
theorem queueDelete_spec (h : Represents q a) :
    ∃ q', q.queueDelete x =
        some (q', if x ∈ a.items then .success
          else if x = 0 then .paramInvalid else if a.items = [] then .empty else .notFound) ∧
      Represents q' { a with items := a.items.erase x } := by
  by_cases hx0 : x = 0
  · have habsent : x ∉ a.items := hx0 ▸ h.zero_not_mem
    rw [queueDelete, if_pos hx0, if_neg habsent, if_pos hx0, List.erase_of_not_mem habsent]
    exact ⟨q, rfl, h⟩
  by_cases hmem : x ∈ a.items
  · rw [if_pos hmem]
    exact queueDelete_mem h hx0 hmem
  · rw [if_neg hmem, if_neg hx0, List.erase_of_not_mem hmem]
    by_cases hempty : a.items = []
    · rw [queueDelete, if_neg hx0, if_pos (h.head_eq_zero_iff.mpr hempty), if_pos hempty]
      exact ⟨q, rfl, h⟩
    · rw [queueDelete_not_mem h hx0 hempty hmem, if_neg hempty]
      exact ⟨q, rfl, h⟩

end Queue

/-! ## Runs -/

/-- A call keeps the queue and the list together. -/
theorem queue_step {q : Queue} {a : PriList} (c : QueueCall) (h : Represents q a)
    (hvalid : a.Valid c) (hok : a.Ok c) :
    ∃ q', q.call c = some (q', (a.call c).2) ∧ Represents q' (a.call c).1 := by
  cases c with
  | init priFunc => exact ⟨_, rfl, q.represents_queueInit priFunc⟩
  | enq x =>
    by_cases hx0 : x = 0
    · have hcall : a.call (.enq x) = (a, .sts .paramInvalid) := if_pos hx0
      rw [hcall]
      exact ⟨q, by rw [Queue.call, Queue.queueEnq, if_pos hx0]; rfl, h⟩
    · have hcall : a.call (.enq x) = ({ a with items := a.add x }, .sts .success) := if_neg hx0
      obtain ⟨q', henq, hq'⟩ := Queue.queueEnq_spec h hx0 hvalid hok
      rw [hcall]
      exact ⟨q', by rw [Queue.call, henq]; rfl, hq'⟩
  | deq =>
    obtain ⟨hret, hq'⟩ := Queue.queueDeq_spec h
    exact ⟨_, by rw [Queue.call, hret]; rfl, hq'⟩
  | insert x prev =>
    by_cases hx0 : x = 0
    · have hcall : a.call (.insert x prev) = (a, .sts .paramInvalid) := if_pos hx0
      rw [hcall]
      exact ⟨q, by rw [Queue.call, Queue.queueInsert, if_pos hx0]; rfl, h⟩
    · have hcall : a.call (.insert x prev) =
          ({ a with items := if prev = 0 then x :: a.items else insertAfter x prev a.items },
            .sts .success) := if_neg hx0
      obtain ⟨q', hins, hq'⟩ := Queue.queueInsert_spec h hx0 hvalid.1 hvalid.2 hok
      rw [hcall]
      exact ⟨q', by rw [Queue.call, hins]; rfl, hq'⟩
  | remove x prev =>
    obtain ⟨hret, hq'⟩ := Queue.queueRemove_spec h hok
    exact ⟨_, by rw [Queue.call, hret]; rfl, hq'⟩
  | delete x =>
    obtain ⟨q', hdel, hq'⟩ := Queue.queueDelete_spec (x := x) h
    by_cases hmem : x ∈ a.items
    · have hcall : a.call (.delete x) =
          ({ a with items := a.items.erase x }, .sts .success) := if_pos hmem
      rw [hcall]
      exact ⟨q', by rw [Queue.call, hdel, if_pos hmem]; rfl, hq'⟩
    · have hcall : a.call (.delete x) = (a, .sts (if x = 0 then .paramInvalid
          else if a.items = [] then .empty else .notFound)) := if_neg hmem
      rw [hcall]
      rw [List.erase_of_not_mem hmem] at hq'
      exact ⟨q', by rw [Queue.call, hdel, if_neg hmem]; rfl, hq'⟩

/-- From `queue_init` on, the queue refines the list in every run of calls that are in order. -/
theorem queue_refines (q : Queue) (priFunc : Option (QueueItemPtr → ℕ)) (calls : List QueueCall)
    (h : Machine.Along (fun a c => (PriList.call a c).1) (fun a c => a.Valid c ∧ a.Ok c)
      ⟨priFunc, []⟩ calls) :
    Machine.Refines Queue.call PriList.call Represents (q.queueInit priFunc) ⟨priFunc, []⟩ calls :=
  Machine.refines_of_along (fun _ _ c hR hc => queue_step c hR hc.1 hc.2)
    (q.represents_queueInit priFunc) h

/-- A queue whose priority value is the address of an item. -/
theorem queue_refines_example :
    Machine.Refines Queue.call PriList.call Represents
      (Queue.queueInit ⟨0, 0, none, 0, id⟩ (some BitVec.toNat)) ⟨some BitVec.toNat, []⟩
      [.enq 16, .enq 32, .insert 24 16, .remove 24 16, .delete 32, .deq] := by
  apply queue_refines
  refine ⟨⟨by decide, ?_⟩, ⟨by decide, ?_⟩, ⟨by decide, ?_⟩, ⟨by decide, ?_⟩, ?_⟩
  · rintro pri ⟨⟩
    decide
  · rintro pri ⟨⟩
    decide
  · intro hlast
    exact absurd hlast (by decide)
  · exact .inr (.inr (.inr ⟨[], [32], by decide⟩))
  · exact ⟨⟨trivial, trivial⟩, ⟨trivial, trivial⟩, trivial⟩

/-- The removal of an item that is not in the queue is counted. An item that is inserted behind
the tail goes where its priority places it. -/
theorem queue_not_refines_example :
    (Machine.Along (fun a c => (PriList.call a c).1) PriList.Valid ⟨none, []⟩
        [.enq 16, .remove 32 0] ∧
      ¬ Machine.Refines Queue.call PriList.call Represents
        (Queue.queueInit ⟨0, 0, none, 0, id⟩ none) ⟨none, []⟩ [.enq 16, .remove 32 0]) ∧
    (Machine.Along (fun a c => (PriList.call a c).1) PriList.Valid ⟨some BitVec.toNat, []⟩
        [.enq 16, .insert 8 16] ∧
      ¬ Machine.Refines Queue.call PriList.call Represents
        (Queue.queueInit ⟨0, 0, none, 0, id⟩ (some BitVec.toNat)) ⟨some BitVec.toNat, []⟩
        [.enq 16, .insert 8 16]) := by
  refine ⟨⟨⟨by decide, by decide, trivial⟩, ?_⟩, ⟨by decide, by decide, trivial⟩, ?_⟩
  · rintro ⟨-, q₁, h₁, -, q₂, h₂, hR⟩
    cases h₁
    cases h₂
    exact absurd hR.curNum (by decide)
  · rintro ⟨-, q₁, h₁, -, q₂, h₂, hR⟩
    cases h₁
    have hhead := congrArg (Option.map fun r => r.1.head) h₂
    rw [Option.map_some, hR.seg.eq_headD] at hhead
    exact absurd hhead (by decide)

end TlBleSdk.Common
