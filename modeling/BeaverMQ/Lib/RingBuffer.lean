import Mathlib.Data.List.ReduceOption
import Mathlib.Data.Nat.ModEq

/-!
# RingBuffer — a growable ring buffer

`slots` holds `count` elements from `head` on, wrapping around at its end; `tail` is the next
cell to fill. A full buffer is doubled and its elements move to the front. That every cell in
use holds an element is part of the type, so a ring buffer is always the queue `toList`.
-/

namespace RingBuffer

open List

variable {α : Type}

/-! ## Cells -/

/-- The cells of `count` positions from `head` on. -/
def cellsOf (slots : List (Option α)) (head count : Nat) : List (Option α) :=
  (range count).map fun i => slots.getD ((head + i) % slots.length) none

theorem mod_add_inj {head cap i j : Nat} (hi : i < cap) (hj : j < cap)
    (hEq : (head + i) % cap = (head + j) % cap) : i = j := by
  have hMod : i % cap = j % cap := Nat.ModEq.add_left_cancel' head hEq
  rwa [Nat.mod_eq_of_lt hi, Nat.mod_eq_of_lt hj] at hMod

theorem cellsOf_succ (slots : List (Option α)) (head count : Nat) :
    cellsOf slots head (count + 1) =
      cellsOf slots head count ++ [slots.getD ((head + count) % slots.length) none] := by
  unfold cellsOf
  rw [range_succ, map_append, map_singleton]

/-- Moving the head by one cell leaves out the first position. -/
theorem cellsOf_cons (slots : List (Option α)) (head count : Nat) :
    cellsOf slots head (count + 1) =
      slots.getD (head % slots.length) none ::
        cellsOf slots ((head + 1) % slots.length) count := by
  unfold cellsOf
  rw [range_succ_eq_map, map_cons, map_map, Nat.add_zero]
  congr 1
  refine map_congr_left fun i _ => ?_
  show slots.getD ((head + (i + 1)) % slots.length) none = _
  rw [Nat.mod_add_mod, Nat.add_assoc, Nat.add_comm 1 i]

/-- A cell that none of the positions is can be overwritten. -/
theorem cellsOf_set {slots : List (Option α)} {head count k : Nat} (c : Option α)
    (hOther : ∀ i < count, (head + i) % slots.length ≠ k) :
    cellsOf (slots.set k c) head count = cellsOf slots head count := by
  unfold cellsOf
  refine map_congr_left fun i hi => ?_
  rw [length_set, getD_eq_getElem?_getD, getD_eq_getElem?_getD,
    getElem?_set_ne (Ne.symm (hOther i (mem_range.mp hi)))]

theorem cellsOf_front (front rest : List (Option α)) :
    cellsOf (front ++ rest) 0 front.length = front := by
  refine List.ext_getElem (by simp [cellsOf]) fun i hi hFront => ?_
  have hMod : (0 + i) % (front ++ rest).length = i := by
    rw [Nat.zero_add, Nat.mod_eq_of_lt (by rw [length_append]; omega)]
  simp only [cellsOf, getElem_map, getElem_range]
  rw [hMod, getD_eq_getElem?_getD, getElem?_append_left hFront,
    getElem?_eq_getElem hFront, Option.getD_some]

end RingBuffer

structure RingBuffer (α : Type) where
  slots : List (Option α)
  head : Nat
  tail : Nat
  count : Nat
  headLt : head < slots.length
  countLe : count ≤ slots.length
  tailEq : tail = (head + count) % slots.length
  /-- The cells in use hold an element. -/
  filled : ∀ c ∈ RingBuffer.cellsOf slots head count, c.isSome

namespace RingBuffer

open List

variable {α : Type} (r : RingBuffer α)

def cells : List (Option α) := cellsOf r.slots r.head r.count

def toList : List α := r.cells.reduceOption

theorem cells_length : r.cells.length = r.count := by
  simp [cells, cellsOf]

theorem cells_eq : r.cells = r.toList.map some := by
  have hAll : ∀ c ∈ r.cells, c.isSome := r.filled
  unfold toList
  generalize r.cells = cs at hAll
  induction cs with
  | nil => rfl
  | cons c cs ih =>
    obtain ⟨a, rfl⟩ := Option.isSome_iff_exists.mp (hAll c mem_cons_self)
    rw [reduceOption_cons_of_some, map_cons,
      ← ih fun c' hc' => hAll c' (mem_cons_of_mem _ hc')]

/-- **`count` is the number of elements.** -/
theorem length_toList : r.toList.length = r.count := by
  rw [← cells_length, cells_eq, length_map]

/-! ## Operations -/

def empty (cap : Nat) (hCap : 0 < cap) : RingBuffer α where
  slots := replicate cap none
  head := 0
  tail := 0
  count := 0
  headLt := by rwa [length_replicate]
  countLe := Nat.zero_le _
  tailEq := (Nat.zero_mod _).symm
  filled := by simp [cellsOf]

/-- The cells after `grow`, the elements first. -/
def grownSlots : List (Option α) :=
  r.cells ++ replicate (2 * r.slots.length - r.count) none

theorem grownSlots_length : r.grownSlots.length = 2 * r.slots.length := by
  have hCount := r.countLe
  simp only [grownSlots, length_append, length_replicate, cells_length]
  omega

theorem cellsOf_grownSlots : cellsOf r.grownSlots 0 r.count = r.cells := by
  rw [← cells_length r]
  exact cellsOf_front _ _

def grow : RingBuffer α where
  slots := r.grownSlots
  head := 0
  tail := r.count
  count := r.count
  headLt := by
    have hHead := r.headLt
    rw [grownSlots_length]
    omega
  countLe := by
    have hCount := r.countLe
    rw [grownSlots_length]
    omega
  tailEq := by
    have hHead := r.headLt
    have hCount := r.countLe
    rw [grownSlots_length, Nat.zero_add, Nat.mod_eq_of_lt (by omega)]
  filled := by
    rw [cellsOf_grownSlots]
    exact r.filled

theorem toList_grow : r.grow.toList = r.toList :=
  congrArg reduceOption (cellsOf_grownSlots r)

theorem grow_room : r.grow.count < r.grow.slots.length := by
  have hHead := r.headLt
  have hCount := r.countLe
  show r.count < r.grownSlots.length
  rw [grownSlots_length]
  omega

/-- The cells in use after `a` was put into the cell at `tail`. -/
theorem cellsOf_put (a : α) (hRoom : r.count < r.slots.length) :
    cellsOf (r.slots.set r.tail (some a)) r.head (r.count + 1) = r.cells ++ [some a] := by
  have hTail : r.tail < r.slots.length := by
    rw [r.tailEq]
    exact Nat.mod_lt _ (Nat.zero_lt_of_lt hRoom)
  rw [cellsOf_succ, length_set, ← r.tailEq, getD_eq_getElem?_getD,
    getElem?_set_self hTail, Option.getD_some, cellsOf_set]
  · rfl
  · intro i hi hEq
    rw [r.tailEq] at hEq
    have := mod_add_inj (by omega) hRoom hEq
    omega

/-- Fill the cell at `tail` of a ring buffer that is not full. -/
def put (a : α) (hRoom : r.count < r.slots.length) : RingBuffer α where
  slots := r.slots.set r.tail (some a)
  head := r.head
  tail := (r.tail + 1) % r.slots.length
  count := r.count + 1
  headLt := by
    rw [length_set]
    exact r.headLt
  countLe := by
    rw [length_set]
    exact hRoom
  tailEq := by rw [length_set, r.tailEq, Nat.mod_add_mod, Nat.add_assoc]
  filled := by
    rw [cellsOf_put r a hRoom]
    intro c hc
    rcases mem_append.mp hc with hc | hc
    · exact r.filled c hc
    · rw [mem_singleton.mp hc]
      rfl

theorem toList_put (a : α) (hRoom : r.count < r.slots.length) :
    (r.put a hRoom).toList = r.toList ++ [a] := by
  show (cellsOf (r.slots.set r.tail (some a)) r.head (r.count + 1)).reduceOption = _
  rw [cellsOf_put r a hRoom, reduceOption_append]
  rfl

def push (a : α) : RingBuffer α :=
  if hFull : r.count = r.slots.length then r.grow.put a r.grow_room
  else r.put a (Nat.lt_of_le_of_ne r.countLe hFull)

/-- **An element comes in behind the others.** -/
@[simp] theorem toList_push (a : α) : (r.push a).toList = r.toList ++ [a] := by
  unfold push
  split
  · rw [toList_put, toList_grow]
  · rw [toList_put]

def front : Option α :=
  if r.count = 0 then none else r.slots.getD r.head none

theorem cells_of_pos {k : Nat} (hCount : r.count = k + 1) :
    r.cells = r.slots.getD r.head none ::
      cellsOf (r.slots.set r.head none) ((r.head + 1) % r.slots.length) k := by
  have hLe := r.countLe
  unfold cells
  rw [hCount, cellsOf_cons, Nat.mod_eq_of_lt r.headLt, cellsOf_set]
  intro i hi hEq
  -- the positions behind the head are less than a turn away from it
  have hTurn : (r.head + (1 + i)) % r.slots.length = (r.head + 0) % r.slots.length := by
    rw [Nat.add_zero, Nat.mod_eq_of_lt r.headLt, ← Nat.add_assoc, ← Nat.mod_add_mod]
    exact hEq
  have hZero := mod_add_inj (by omega) (by omega) hTurn
  omega

/-- Take the element at `head` out; nothing happens to an empty buffer. -/
def pop : RingBuffer α :=
  match hCount : r.count with
  | 0 => r
  | k + 1 =>
    { slots := r.slots.set r.head none
      head := (r.head + 1) % r.slots.length
      tail := r.tail
      count := k
      headLt := by
        rw [length_set]
        exact Nat.mod_lt _ (Nat.zero_lt_of_lt r.headLt)
      countLe := by
        have hLe := r.countLe
        rw [length_set]
        omega
      tailEq := by
        rw [length_set, r.tailEq, hCount, Nat.mod_add_mod, Nat.add_assoc, Nat.add_comm 1]
      filled := by
        intro c hc
        refine r.filled c ?_
        show c ∈ r.cells
        rw [cells_of_pos r hCount]
        exact mem_cons_of_mem _ hc }

theorem length_slots_pop : r.pop.slots.length = r.slots.length := by
  unfold pop
  split
  · rfl
  · exact length_set

theorem front_eq : r.front = r.toList.head? := by
  unfold front
  cases hCount : r.count with
  | zero =>
    have hNil : r.toList = [] := by
      rw [← length_eq_zero_iff, length_toList, hCount]
    rw [if_pos rfl, hNil, head?_nil]
  | succ k =>
    have hCells := cells_of_pos r hCount
    rw [cells_eq] at hCells
    rw [if_neg (Nat.succ_ne_zero k)]
    cases hList : r.toList with
    | nil =>
      rw [hList] at hCells
      cases hCells
    | cons a as =>
      rw [hList, map_cons] at hCells
      exact (cons.inj hCells).1.symm

/-- **The element at `head` goes.** -/
@[simp] theorem toList_pop : r.pop.toList = r.toList.tail := by
  unfold pop
  split
  · next hCount =>
    have hNil : r.toList = [] := by
      rw [← length_eq_zero_iff, length_toList, hCount]
    rw [hNil, tail_nil]
  next k hCount =>
  have hCells := cells_of_pos r hCount
  rw [cells_eq] at hCells
  cases hList : r.toList with
  | nil =>
    rw [hList] at hCells
    cases hCells
  | cons a as =>
    rw [hList, map_cons] at hCells
    have hTail := (cons.inj hCells).2
    show (cellsOf (r.slots.set r.head none) ((r.head + 1) % r.slots.length) k).reduceOption = as
    rw [← hTail]
    simp [reduceOption]

end RingBuffer
