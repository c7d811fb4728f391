import Mathlib.Data.List.Infix

/-!
# Replay — records kept once and applied again

A system applies records one after the other and keeps a list of them, each at its first
place only. Replaying the list gives the state again exactly as long as a record that comes
once more finds its effect already there.
-/

namespace Replay

open List

variable {σ ρ : Type} [DecidableEq ρ]

def record (kept : List ρ) (r : ρ) : List ρ := if r ∈ kept then kept else kept ++ [r]

def recorded (rs : List ρ) : List ρ := rs.foldl record []

theorem recorded_concat (rs : List ρ) (r : ρ) : recorded (rs ++ [r]) = record (recorded rs) r := by
  simp [recorded]

theorem mem_recorded {rs : List ρ} {r : ρ} : r ∈ recorded rs ↔ r ∈ rs := by
  induction rs using reverseRecOn with
  | nil => simp [recorded]
  | append_singleton rs x ih =>
    rw [recorded_concat, record]
    split
    · rename_i hOld
      by_cases hEq : r = x <;> simp_all
    · simp [ih]

/-- Every repetition in `rs` finds its effect already there. -/
def Idle (f : σ → ρ → σ) (s : σ) (rs : List ρ) : Prop :=
  ∀ pre r, pre ++ [r] <+: rs → r ∈ pre → f (pre.foldl f s) r = pre.foldl f s

omit [DecidableEq ρ] in
theorem Idle.of_concat {f : σ → ρ → σ} {s : σ} {rs : List ρ} {r : ρ}
    (h : Idle f s (rs ++ [r])) : Idle f s rs :=
  fun pre x hPre hMem => h pre x (hPre.trans (prefix_append _ _)) hMem

/-- Without an effective repetition the replay gives the state. -/
theorem replay_of_idle {f : σ → ρ → σ} {s : σ} {rs : List ρ} (h : Idle f s rs) :
    (recorded rs).foldl f s = rs.foldl f s := by
  induction rs using reverseRecOn with
  | nil => rfl
  | append_singleton rs r ih =>
    have hState := ih h.of_concat
    rw [recorded_concat, record, foldl_concat]
    split
    · rename_i hOld
      rw [hState, h rs r prefix_rfl (mem_recorded.mp hOld)]
    · rw [foldl_concat, hState]

/-- All states along a sequence can be replayed iff every repetition is idle. -/
theorem replay_iff (f : σ → ρ → σ) (s : σ) (rs : List ρ) :
    (∀ pre, pre <+: rs → (recorded pre).foldl f s = pre.foldl f s) ↔ Idle f s rs := by
  refine ⟨fun h pre r hPre hMem => ?_, fun h pre hPre => ?_⟩
  · -- the list does not grow at a repetition, so neither does the replayed state
    have hBefore := h pre ((prefix_append _ _).trans hPre)
    have hAfter := h (pre ++ [r]) hPre
    rw [recorded_concat, record, if_pos (mem_recorded.mpr hMem), foldl_concat] at hAfter
    rw [← hAfter, hBefore]
  · exact replay_of_idle fun pre' r hPre' => h pre' r (hPre'.trans hPre)

end Replay
