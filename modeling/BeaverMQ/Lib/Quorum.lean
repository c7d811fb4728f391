import Mathlib.Data.Finset.Interval

/-!
# Quorum — majorities of a finite set of numbered members
-/

namespace Quorum

open List

/-- `Q` is a set of more than half of the members `0, …, n - 1`. -/
structure Majority (n : Nat) (Q : Finset Nat) : Prop where
  bound : ∀ v ∈ Q, v < n
  half : n < 2 * Q.card

theorem majority_of_card {n : Nat} {Q : Finset Nat} (hBound : ∀ v ∈ Q, v < n)
    (hCard : n / 2 + 1 ≤ Q.card) : Majority n Q :=
  ⟨hBound, by omega⟩

/-- **Two majorities meet.** -/
theorem Majority.meet {n : Nat} {P Q : Finset Nat} (hP : Majority n P) (hQ : Majority n Q) :
    ∃ v, v ∈ P ∧ v ∈ Q := by
  by_contra hNone
  have hDisjoint : Disjoint P Q := by
    rw [Finset.disjoint_left]
    intro v hvP hvQ
    exact hNone ⟨v, hvP, hvQ⟩
  have hSubset : P ∪ Q ⊆ Finset.range n := by
    intro v hv
    rw [Finset.mem_range]
    rcases Finset.mem_union.mp hv with hv | hv
    · exact hP.bound v hv
    · exact hQ.bound v hv
  have hCard := Finset.card_le_card hSubset
  rw [Finset.card_union_of_disjoint hDisjoint, Finset.card_range] at hCard
  have h₁ := hP.half
  have h₂ := hQ.half
  omega

/-! ## What `k` members have reached -/

/-- In a descending list the values before the `k`-th are at least it, and those from it on at
most. -/
theorem descending_at {l : List Nat} (hDesc : l.Pairwise (· ≥ ·)) {k : Nat} (hk : k < l.length) :
    (∀ x ∈ l.take k, l[k] ≤ x) ∧ ∀ x ∈ l.drop k, x ≤ l[k] := by
  rw [← take_append_drop k l, pairwise_append] at hDesc
  have hHead : l.drop k = l[k] :: l.drop (k + 1) := drop_eq_getElem_cons hk
  constructor
  · intro x hx
    exact hDesc.2.2 x hx l[k] (by rw [hHead]; exact mem_cons_self)
  · intro x hx
    rw [hHead] at hx
    rcases mem_cons.mp hx with rfl | hx
    · exact le_rfl
    have hTail := hDesc.2.1
    rw [hHead] at hTail
    exact rel_of_pairwise_cons hTail hx

/-- **In a descending list, the `k`-th value is the largest that `k` members have reached.** -/
theorem isGreatest_reached {l : List Nat} (hDesc : l.Pairwise (· ≥ ·)) {k : Nat} (hPos : 0 < k)
    (hk : k ≤ l.length) : IsGreatest {N | k ≤ l.countP (N ≤ ·)} (l.getD (k - 1) 0) := by
  have hLt : k - 1 < l.length := by omega
  obtain ⟨hBefore, hFrom⟩ := descending_at hDesc hLt
  have hGet : l.getD (k - 1) 0 = l[k - 1] := by
    rw [getD_eq_getElem?_getD, getElem?_eq_getElem hLt, Option.getD_some]
  have hCount : ∀ N, l.countP (N ≤ ·) =
      (l.take (k - 1)).countP (N ≤ ·) + (l.drop (k - 1)).countP (N ≤ ·) := by
    intro N
    conv_lhs => rw [← take_append_drop (k - 1) l]
    exact countP_append
  rw [hGet]
  constructor
  · -- the first `k` values are all at least the `k`-th
    show k ≤ l.countP (l[k - 1] ≤ ·)
    have hFront : (l.take (k - 1)).countP (l[k - 1] ≤ ·) = k - 1 := by
      rw [countP_eq_length.mpr fun x hx => decide_eq_true (hBefore x hx), length_take]
      omega
    have hSelf : 0 < (l.drop (k - 1)).countP (l[k - 1] ≤ ·) := by
      rw [countP_pos_iff]
      refine ⟨l[k - 1], ?_, decide_eq_true le_rfl⟩
      rw [drop_eq_getElem_cons hLt]
      exact mem_cons_self
    rw [hCount]
    omega
  · intro N hN
    by_contra hAbove
    -- a larger value is reached by fewer than `k` members
    have hNone : (l.drop (k - 1)).countP (N ≤ ·) = 0 := by
      rw [countP_eq_zero]
      intro x hx
      have := hFrom x hx
      simp only [decide_eq_true_eq]
      omega
    have hFew : (l.take (k - 1)).countP (N ≤ ·) ≤ k - 1 :=
      countP_le_length.trans (by rw [length_take]; omega)
    have hK : k ≤ l.countP (N ≤ ·) := hN
    rw [hCount, hNone] at hK
    omega

end Quorum
