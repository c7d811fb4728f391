import Mathlib.Data.List.Basic

/-!
# Cursor — reading a buffer through a moving position

A parser that walks a buffer with a pointer reads wherever the pointer stands. A `Cursor` is such
a computation, and an access outside of the buffer is a fault.

`Reads P r f` says that `r`, started anywhere in the buffer where the rest of it satisfies `P`, has
no fault and yields what `f` computes from that rest. Its rules follow the ways a parser is put
together.
-/

/-- A computation over a position in a buffer; `none` is an access outside of it. -/
abbrev Cursor (β : Type) := StateT Nat Option β

namespace Cursor

open List

variable {α β γ : Type} (buf : List α)

def next : Cursor α := fun i => (buf[i]?).map fun a => (a, i + 1)

/-- Read `n` elements from the position on and step over them. -/
def take : Nat → Cursor (List α)
  | 0 => pure []
  | n + 1 => do
    let a ← next buf
    let as ← take n
    return a :: as

def left : Cursor Nat := fun i => some (buf.length - i, i)

def finish : Cursor Unit := fun _ => some ((), buf.length)

/-- Started where the rest of the buffer satisfies `P`, the computation does what `f` does on the
rest, and leaves the position where `f` leaves it. -/
def Follows (P : List α → Prop) (r : Cursor β) (f : List α → β × List α) : Prop :=
  ∀ i ≤ buf.length, P (buf.drop i) →
    ∃ j ≤ buf.length, r.run i = some ((f (buf.drop i)).1, j) ∧ (f (buf.drop i)).2 = buf.drop j

/-- Started where the rest of the buffer satisfies `P`, the computation yields what `f` yields for
the rest. -/
def Reads (P : List α → Prop) (r : Cursor β) (f : List α → β) : Prop :=
  ∀ i ≤ buf.length, P (buf.drop i) → ∃ j, r.run i = some (f (buf.drop i), j)

variable {buf} {P Q : List α → Prop} {r : Cursor β} {f : List α → β × List α}

theorem Reads.pure (b : β) : Reads buf P (pure b) fun _ => b := fun i _ _ => ⟨i, rfl⟩

theorem Follows.pure (b : β) : Follows buf P (pure b) fun l => (b, l) :=
  fun i hi _ => ⟨i, hi, rfl, rfl⟩

theorem Follows.reads {s : β → Cursor γ} {g : β → List α → γ} (hFirst : Follows buf P r f)
    (hThen : ∀ b, Reads buf (fun l => ∃ l₀, P l₀ ∧ f l₀ = (b, l)) (s b) (g b)) :
    Reads buf P (r >>= s) fun l => g (f l).1 (f l).2 := by
  intro i hi hP
  obtain ⟨j, hj, hRun, hRest⟩ := hFirst i hi hP
  obtain ⟨k, hThen⟩ := hThen _ j hj ⟨buf.drop i, hP, by rw [← hRest]⟩
  rw [← hRest] at hThen
  refine ⟨k, ?_⟩
  rw [StateT.run_bind, hRun]
  exact hThen

theorem Follows.bind {s : β → Cursor γ} {g : β → List α → γ × List α} (hFirst : Follows buf P r f)
    (hThen : ∀ b, Follows buf (fun l => ∃ l₀, P l₀ ∧ f l₀ = (b, l)) (s b) (g b)) :
    Follows buf P (r >>= s) fun l => g (f l).1 (f l).2 := by
  intro i hi hP
  obtain ⟨j, hj, hRun, hRest⟩ := hFirst i hi hP
  obtain ⟨k, hk, hThen, hEnd⟩ := hThen _ j hj ⟨buf.drop i, hP, by rw [← hRest]⟩
  rw [← hRest] at hThen hEnd
  refine ⟨k, hk, ?_, hEnd⟩
  rw [StateT.run_bind, hRun]
  exact hThen

theorem Reads.mono {r : Cursor β} {f : List α → β} (h : Reads buf P r f) (hPre : ∀ l, Q l → P l) :
    Reads buf Q r f := fun i hi hQ => h i hi (hPre _ hQ)

theorem Follows.mono (h : Follows buf P r f) (hPre : ∀ l, Q l → P l) : Follows buf Q r f :=
  fun i hi hQ => h i hi (hPre _ hQ)

theorem Reads.congr {r : Cursor β} {f g : List α → β} (h : Reads buf P r f)
    (hSame : ∀ l, P l → f l = g l) : Reads buf P r g := by
  intro i hi hP
  rw [← hSame _ hP]
  exact h i hi hP

theorem Follows.congr {g : List α → β × List α} (h : Follows buf P r f)
    (hSame : ∀ l, P l → f l = g l) : Follows buf P r g := by
  intro i hi hP
  rw [← hSame _ hP]
  exact h i hi hP

theorem follows_finish : Follows buf P (finish buf) fun _ => ((), []) := by
  intro i _ _
  exact ⟨buf.length, Nat.le_refl _, rfl, drop_length.symm⟩

theorem run_check {c : Nat → Prop} [DecidablePred c] (r s : Cursor β) (i : Nat) :
    (left buf >>= fun k => if c k then r else s).run i =
      if c (buf.drop i).length then r.run i else s.run i := by
  rw [length_drop]
  show StateT.run (if c (buf.length - i) then r else s) i = _
  split <;> rfl

theorem Reads.check {c : Nat → Prop} [DecidablePred c] {r s : Cursor β} {f g : List α → β}
    (hThen : Reads buf (fun l => P l ∧ c l.length) r f)
    (hElse : Reads buf (fun l => P l ∧ ¬ c l.length) s g) :
    Reads buf P (left buf >>= fun k => if c k then r else s)
      fun l => if c l.length then f l else g l := by
  intro i hi hP
  rw [run_check]
  dsimp only
  split
  · exact hThen i hi ⟨hP, ‹_›⟩
  · exact hElse i hi ⟨hP, ‹_›⟩

theorem Follows.check {c : Nat → Prop} [DecidablePred c] {r s : Cursor β}
    {f g : List α → β × List α} (hThen : Follows buf (fun l => P l ∧ c l.length) r f)
    (hElse : Follows buf (fun l => P l ∧ ¬ c l.length) s g) :
    Follows buf P (left buf >>= fun k => if c k then r else s)
      fun l => if c l.length then f l else g l := by
  intro i hi hP
  rw [run_check]
  dsimp only
  split
  · exact hThen i hi ⟨hP, ‹_›⟩
  · exact hElse i hi ⟨hP, ‹_›⟩

theorem run_next {i : Nat} {a : α} {l : List α} (hRest : buf.drop i = a :: l) :
    (next buf).run i = some (a, i + 1) := by
  have hAt : buf[i]? = some a := by
    rw [← head?_drop, hRest]
    rfl
  show (buf[i]?).map _ = _
  rw [hAt]
  rfl

theorem run_take {n i : Nat} (hRoom : n ≤ (buf.drop i).length) :
    (take buf n).run i = some ((buf.drop i).take n, i + n) := by
  induction n generalizing i with
  | zero => rfl
  | succ n ih =>
    cases hRest : buf.drop i with
    | nil =>
      rw [hRest] at hRoom
      exact absurd hRoom (Nat.not_succ_le_zero n)
    | cons a l =>
      have hStep : buf.drop (i + 1) = l := by rw [← drop_drop, hRest]; rfl
      have hLeft : n ≤ (buf.drop (i + 1)).length := by
        rw [hStep]
        rw [hRest] at hRoom
        exact Nat.le_of_succ_le_succ hRoom
      unfold take
      rw [StateT.run_bind, run_next hRest, Option.bind_eq_bind, Option.bind_some, StateT.run_bind,
        ih hLeft, hStep, show i + (n + 1) = i + 1 + n by omega]
      rfl

/-- **A block that was checked for is read.** -/
theorem follows_take (n : Nat) :
    Follows buf (fun l => n ≤ l.length) (take buf n) fun l => (l.take n, l.drop n) := by
  intro i hi hRoom
  refine ⟨i + n, ?_, run_take hRoom, drop_drop⟩
  rw [length_drop] at hRoom
  omega

theorem follows_next (d : α) :
    Follows buf (fun l => l ≠ []) (next buf) fun l => (l.headD d, l.tail) := by
  intro i hi hSome
  obtain ⟨a, l, hRest⟩ := exists_cons_of_ne_nil hSome
  have hIn : i < buf.length := by
    have hLength := congrArg List.length hRest
    rw [length_drop, length_cons] at hLength
    omega
  refine ⟨i + 1, hIn, ?_, tail_drop⟩
  rw [run_next hRest, hRest]
  rfl

end Cursor
