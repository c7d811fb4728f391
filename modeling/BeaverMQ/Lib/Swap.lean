import Mathlib.Data.List.Perm.Basic

/-!
# Swap — removal from an array by moving its last element

`swapRemove l i` is what `a[i] = a[--n]` leaves in the array.

Main result: `perm_swapRemove`.
-/

namespace List

variable {α : Type}

/-- `a[i] = a[--n]`. -/
def swapRemove (l : List α) (i : Nat) : List α :=
  match l.getLast? with
  | none => []
  | some x => (l.set i x).dropLast

theorem swapRemove_concat (l : List α) (x : α) (i : Nat) :
    (l ++ [x]).swapRemove i = if i < l.length then l.set i x else l := by
  unfold swapRemove
  rw [getLast?_concat]
  show ((l ++ [x]).set i x).dropLast = _
  split
  · rename_i hLt
    rw [set_append_left _ _ hLt, dropLast_concat]
  rename_i hGe
  rw [set_append_right _ _ (Nat.le_of_not_lt hGe)]
  cases i - l.length with
  | zero | succ => exact dropLast_concat

/-- Look an element up and remove it so; an array without it stays as it is. -/
def swapErase [DecidableEq α] (l : List α) (x : α) : List α :=
  if x ∈ l then l.swapRemove (l.idxOf x) else l

/-- **The array loses exactly its `i`-th element.** -/
theorem perm_swapRemove {l : List α} {i : Nat} {x : α} (hGet : l[i]? = some x) :
    l.Perm (x :: l.swapRemove i) := by
  rcases eq_nil_or_concat' l with rfl | ⟨front, y, rfl⟩
  · cases hGet
  rw [swapRemove_concat]
  split
  · rename_i hFront
    rw [getElem?_append_left hFront, getElem?_eq_getElem hFront] at hGet
    cases hGet
    -- both sides are the front without its `i`-th element, with that one and the last added
    calc front ++ [y]
      _ ~ y :: front := perm_append_singleton y front
      _ ~ y :: front[i] :: front.eraseIdx i := (getElem_cons_eraseIdx_perm hFront).symm.cons y
      _ ~ front[i] :: y :: front.eraseIdx i := .swap _ _ _
      _ ~ front[i] :: front.set i y := (set_perm_cons_eraseIdx hFront y).symm.cons _
  · rename_i hLast
    rw [getElem?_append_right (Nat.le_of_not_lt hLast)] at hGet
    cases hIdx : i - front.length with
    | zero =>
      rw [hIdx] at hGet
      cases hGet
      exact perm_append_singleton _ front
    | succ k =>
      rw [hIdx] at hGet
      cases hGet

theorem swapErase_subset [DecidableEq α] (l : List α) (x : α) : l.swapErase x ⊆ l := by
  unfold swapErase
  split
  · rename_i hMem
    intro y hy
    exact (perm_swapRemove (getElem?_idxOf hMem)).mem_iff.mpr (mem_cons_of_mem x hy)
  · exact Subset.refl l

/-! ## Sweeps -/

/-- The sweep `for (i = 0; i < n; ) if (p(a[i])) a[i] = a[--n]; else i++;` from index `i` on,
with `k` turns left. -/
def swapFilterFrom (p : α → Bool) : Nat → Nat → List α → List α
  | 0, _, l => l
  | k + 1, i, l =>
    match l[i]? with
    | none => l
    | some x =>
      if p x then swapFilterFrom p k i (l.swapRemove i) else swapFilterFrom p k (i + 1) l

/-- The sweep over a whole array: each turn brings `i` and the end one step closer. -/
def swapFilter (p : α → Bool) (l : List α) : List α := swapFilterFrom p l.length 0 l

theorem length_swapRemove {l : List α} (hNe : l ≠ []) (i : Nat) :
    (l.swapRemove i).length + 1 = l.length := by
  rcases eq_nil_or_concat' l with rfl | ⟨front, y, rfl⟩
  · exact absurd rfl hNe
  · rw [swapRemove_concat]
    split <;> simp

theorem take_swapRemove {l : List α} {i : Nat} (hi : i < l.length) :
    (l.swapRemove i).take i = l.take i := by
  rcases eq_nil_or_concat' l with rfl | ⟨front, y, rfl⟩
  · cases hi
  rw [swapRemove_concat]
  rw [length_append, length_singleton] at hi
  rw [take_append_of_le_length (Nat.le_of_lt_succ hi)]
  split
  · rw [take_set_of_le (Nat.le_refl i)]
  · rfl

theorem perm_filter_of_done {p : α → Bool} {l : List α} {i : Nat} (hLen : l.length ≤ i)
    (hDone : ∀ x ∈ l.take i, p x = false) : l.Perm (l.filter fun x => !p x) := by
  rw [take_of_length_le hLen] at hDone
  rw [filter_eq_self.mpr fun x hx => by rw [hDone x hx]; rfl]

theorem perm_swapFilterFrom (p : α → Bool) (k i : Nat) (l : List α) (hTurns : l.length ≤ i + k)
    (hDone : ∀ x ∈ l.take i, p x = false) :
    (swapFilterFrom p k i l).Perm (l.filter fun x => !p x) := by
  -- induction on the turns left; before `i` there is nothing to remove
  induction k generalizing i l with
  | zero => exact perm_filter_of_done hTurns hDone
  | succ k ih =>
    unfold swapFilterFrom
    split
    · rename_i hNone
      exact perm_filter_of_done (getElem?_eq_none_iff.mp hNone) hDone
    rename_i x hx
    have hLt : i < l.length := (getElem?_eq_some_iff.mp hx).1
    split
    · rename_i hOut
      have hLen := length_swapRemove (ne_nil_of_length_pos (by omega : 0 < l.length)) i
      have hFront := take_swapRemove hLt
      refine (ih i (l.swapRemove i) (by omega) (by rw [hFront]; exact hDone)).trans ?_
      have hPerm := (perm_swapRemove hx).filter fun x => !p x
      rw [filter_cons_of_neg (by simp [hOut])] at hPerm
      exact hPerm.symm
    · rename_i hIn
      refine ih (i + 1) l (by omega) fun y hy => ?_
      rw [take_add_one, hx] at hy
      rcases mem_append.mp hy with hy | hy
      · exact hDone y hy
      rw [Option.toList_some, mem_singleton] at hy
      rw [hy]
      exact eq_false_of_ne_true hIn

/-- **The sweep removes exactly the elements with the property.** -/
theorem perm_swapFilter (p : α → Bool) (l : List α) :
    (l.swapFilter p).Perm (l.filter fun x => !p x) :=
  perm_swapFilterFrom p l.length 0 l (by omega) (by simp)

theorem mem_swapFilter {p : α → Bool} {l : List α} {x : α} :
    x ∈ l.swapFilter p ↔ x ∈ l ∧ p x = false := by
  rw [(perm_swapFilter p l).mem_iff, mem_filter, Bool.not_eq_true']

end List
