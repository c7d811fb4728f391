import Mathlib.Data.List.Basic

/-!
# Framing — cutting a stream into frames

A reader of a framed stream looks at the front of what it has: it takes a frame off, waits for
more, or finds that the stream is broken. A `Framing` is such a look that more input cannot
change: what is a frame stays that frame, and what is broken stays broken.
-/

/-- What is at the front of a buffer. -/
inductive Cut (α β : Type)
  | wait
  | bad
  | item (b : β) (rest : List α)

abbrev Framing.Front (α β : Type) := Cut α β

/-- A look at the front that is not changed by what comes later. -/
structure Framing (α β : Type) where
  next : List α → Cut α β
  shorter : ∀ {l b rest}, next l = .item b rest → rest.length < l.length
  item_append : ∀ {l b rest}, next l = .item b rest →
    ∀ more, next (l ++ more) = .item b (rest ++ more)
  bad_append : ∀ {l}, next l = .bad → ∀ more, next (l ++ more) = .bad

namespace Framing

variable {α β : Type} (F : Framing α β)

/-- At most `k` frames, and what is left; `none` is left of a broken stream. -/
def cut : Nat → List α → List β × Option (List α)
  | 0, l => ([], some l)
  | k + 1, l =>
    match F.next l with
    | .wait => ([], some l)
    | .bad => ([], none)
    | .item b rest => (b :: (cut k rest).1, (cut k rest).2)

def all (l : List α) : List β × Option (List α) := F.cut (l.length + 1) l

theorem cut_enough {k m : Nat} {l : List α} (hk : l.length < k) (hm : l.length < m) :
    F.cut k l = F.cut m l := by
  induction k generalizing m l with
  | zero => exact absurd hk (Nat.not_lt_zero _)
  | succ k ih =>
    obtain ⟨m, rfl⟩ : ∃ i, m = i + 1 := ⟨m - 1, by omega⟩
    unfold cut
    cases hNext : F.next l with
    | wait | bad => rfl
    | item b rest =>
      have hShorter := F.shorter hNext
      dsimp only
      rw [ih (m := m) (by omega) (by omega)]

/-- **All frames of a buffer, by its first.** -/
theorem all_eq (l : List α) :
    F.all l = match F.next l with
      | .wait => ([], some l)
      | .bad => ([], none)
      | .item b rest => (b :: (F.all rest).1, (F.all rest).2) := by
  have hUnfold : F.all l = match F.next l with
      | .wait => ([], some l)
      | .bad => ([], none)
      | .item b rest => (b :: (F.cut l.length rest).1, (F.cut l.length rest).2) := rfl
  rw [hUnfold]
  cases hNext : F.next l with
  | wait | bad => rfl
  | item b rest =>
    dsimp only
    rw [F.cut_enough (F.shorter hNext) (Nat.lt_succ_self rest.length)]
    rfl

theorem frames_induction {P : List α → Prop}
    (hWait : ∀ l, F.next l = .wait → P l) (hBad : ∀ l, F.next l = .bad → P l)
    (hItem : ∀ l b rest, F.next l = .item b rest → P rest → P l) (l : List α) : P l := by
  induction hLength : l.length using Nat.strongRecOn generalizing l with
  | ind length ih =>
    cases hNext : F.next l with
    | wait => exact hWait l hNext
    | bad => exact hBad l hNext
    | item b rest =>
      have hShorter := F.shorter hNext
      exact hItem l b rest hNext (ih rest.length (by omega) rest rfl)

/-- **Cutting in two parts is cutting at once.** -/
theorem all_append (l more : List α) :
    F.all (l ++ more) = match (F.all l).2 with
      | none => ((F.all l).1, none)
      | some rest => ((F.all l).1 ++ (F.all (rest ++ more)).1, (F.all (rest ++ more)).2) := by
  induction l using F.frames_induction with
  | hWait l hNext =>
    have hAll : F.all l = ([], some l) := by rw [all_eq, hNext]
    rw [hAll]
    rfl
  | hBad l hNext =>
    have hAll : F.all l = ([], none) := by rw [all_eq, hNext]
    rw [hAll, all_eq, F.bad_append hNext]
  | hItem l b rest hNext ih =>
    have hAll : F.all l = (b :: (F.all rest).1, (F.all rest).2) := by rw [all_eq, hNext]
    rw [hAll, all_eq, F.item_append hNext]
    dsimp only
    rw [ih]
    cases (F.all rest).2 with
    | none | some => rfl

end Framing
