import Mathlib.Algebra.Ring.Nat

/-!
# Batch — greedy batches under a cap

A sender fills a frame from the front of a list: while there is room in the count, an element
is taken if the frame stays under the cap, and the first one always. So a single element may
exceed the cap, but never together with another one.
-/

namespace Batch

open List

variable {α : Type} (weight : α → Nat) (room : Nat → Bool) (cap : Nat)

/-- The greedy batch; `cnt` elements of total size `size` are already in the frame. -/
def take : List α → Nat → Nat → List α
  | [], _, _ => []
  | x :: xs, cnt, size =>
    if room cnt = true ∧ (cnt = 0 ∨ size + weight x ≤ cap) then
      x :: take xs (cnt + 1) (size + weight x)
    else []

variable {weight room cap}

theorem take_isFront (xs : List α) (cnt size : Nat) : take weight room cap xs cnt size <+: xs := by
  induction xs generalizing cnt size with
  | nil => exact prefix_rfl
  | cons x xs ih =>
    unfold take
    split
    · exact prefix_cons_inj x |>.mpr (ih _ _)
    · exact nil_prefix

/-- A batch that adds something to a frame that is not empty stays under the cap. -/
theorem total_le_cap {xs : List α} {cnt size : Nat} (hCnt : cnt ≠ 0)
    (hSome : take weight room cap xs cnt size ≠ []) :
    size + ((take weight room cap xs cnt size).map weight).sum ≤ cap := by
  induction xs generalizing cnt size with
  | nil => exact absurd rfl hSome
  | cons x xs ih =>
    unfold take at hSome ⊢
    split
    · next hTake =>
      have hFits : size + weight x ≤ cap := hTake.2.resolve_left hCnt
      rw [map_cons, sum_cons, ← Nat.add_assoc]
      by_cases hRest : take weight room cap xs (cnt + 1) (size + weight x) = []
      · rw [hRest]
        exact hFits
      · exact ih (Nat.succ_ne_zero cnt) hRest
    · next hStop => rw [if_neg hStop] at hSome; exact absurd rfl hSome

/-- **A batch is no larger than the cap or any one of its elements alone.** -/
theorem total_le_of_mem {xs : List α} {size : Nat} {x : α}
    (hMem : x ∈ take weight room cap xs 0 size) :
    size + ((take weight room cap xs 0 size).map weight).sum ≤ max (size + weight x) cap := by
  cases xs with
  | nil => cases hMem
  | cons y ys =>
    unfold take at hMem ⊢
    split at hMem
    · next hTake =>
      rw [if_pos hTake, map_cons, sum_cons, ← Nat.add_assoc]
      by_cases hRest : take weight room cap ys 1 (size + weight y) = []
      · rw [hRest] at hMem ⊢
        rw [mem_singleton.mp hMem]
        exact Nat.le_max_left _ _
      · exact Nat.le_trans (total_le_cap Nat.one_ne_zero hRest) (Nat.le_max_right _ _)
    · cases hMem

theorem take_singleton (x : α) (size : Nat) (hRoom : room 0 = true) :
    take weight room cap [x] 0 size = [x] := by
  unfold take
  rw [if_pos ⟨hRoom, .inl rfl⟩]
  rfl

end Batch
