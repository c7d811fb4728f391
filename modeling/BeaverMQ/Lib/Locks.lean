import BeaverMQ.Lib.Run

/-!
# Locks — lock skeletons of programs and the order in which they nest

What a program does with its locks. A function body is a `Code`: it acquires and releases locks,
calls other functions, chooses, repeats and returns. A failure that callers react to is named
(`fails`), so that a run can be restricted to the failures one is willing to assume. A thread
runs one entry function after the other and keeps a record of every acquisition together with the
locks held at that moment.

`check` walks over a body like a type checker: every acquisition lies strictly above all held
locks, every release undoes the last acquisition, every call happens with locks the callee is
known to be called with, and every way out of the body holds what was held on entry.
-/

namespace Locking

open List

/-- How a lock is taken: the read side of a read-write lock, or exclusively (a mutex, or the
write side). -/
inductive Mode where
  | shared
  | exclusive
deriving DecidableEq

/-- The lock skeleton of a function body over functions `F`, locks `L` and failures `K`. -/
inductive Code (F L K : Type) where
  | skip
  | ret
  | acquire (l : L) (m : Mode)
  | release (l : L)
  | call (f : F)
  | seq (a b : Code F L K)
  | choice (a b : Code F L K)
  | loop (a : Code F L K)
  | fails (k : K) (a b : Code F L K)
deriving DecidableEq

namespace Code

variable {F L K : Type}

def block : List (Code F L K) → Code F L K
  | [] => skip
  | [c] => c
  | c :: cs => seq c (block cs)

def oneOf : List (Code F L K) → Code F L K
  | [] => skip
  | [c] => c
  | c :: cs => choice c (oneOf cs)

def may (c : Code F L K) : Code F L K := choice c skip

/-- An early return after some statements, under a condition. -/
def bail (cs : List (Code F L K)) : Code F L K := may (block (cs ++ [ret]))

def within (l : L) (m : Mode) (cs : List (Code F L K)) : Code F L K :=
  block (acquire l m :: cs ++ [release l])

end Code

/-- A record of one acquisition: the lock, how it was asked for, and what the thread held. -/
structure Acquisition (L : Type) where
  lock : L
  mode : Mode
  held : List L
deriving DecidableEq

/-- A thread: for each active call what is left of its body, innermost first; the locks held,
the latest first; and the acquisitions so far, the latest first. -/
structure Thread (F L K : Type) where
  frames : List (List (Code F L K))
  held : List L
  log : List (Acquisition L)
deriving DecidableEq

/-- What happens next: the idle thread enters a function, or the running one takes a step,
with a Boolean that settles a choice, another round of a loop, or whether a failure
happens. -/
inductive Move (F : Type) where
  | enter (f : F)
  | next (b : Bool)
deriving DecidableEq

variable {F L K : Type}

def Thread.idle : Thread F L K := ⟨[], [], []⟩

section Machine

variable [DecidableEq L] (body : F → Code F L K) (entry : F → Bool)

/-- One statement of the innermost call, `k` being the rest of its body. -/
def stepCode (s : Thread F L K) (k : List (Code F L K)) (ks : List (List (Code F L K)))
    (b : Bool) : Code F L K → Thread F L K
  | .skip => { s with frames := k :: ks }
  | .ret => { s with frames := ks }
  -- an acquisition is recorded as it is asked for; that a second one would block is not modelled
  | .acquire l m =>
      { frames := k :: ks, held := l :: s.held, log := ⟨l, m, s.held⟩ :: s.log }
  | .release l => { s with frames := k :: ks, held := s.held.erase l }
  | .call f => { s with frames := [body f] :: k :: ks }
  | .seq a c => { s with frames := (a :: c :: k) :: ks }
  | .choice a c => { s with frames := ((if b then a else c) :: k) :: ks }
  | .loop a => { s with frames := (if b then a :: .loop a :: k else k) :: ks }
  | .fails _ a c => { s with frames := ((if b then a else c) :: k) :: ks }

def step (s : Thread F L K) : Move F → Option (Thread F L K)
  | .enter f =>
      match s.frames with
      | [] => if entry f then some { s with frames := [[body f]] } else none
      | _ :: _ => none
  | .next b =>
      match s.frames with
      | [] => none
      | [] :: ks => some { s with frames := ks }
      | (c :: k) :: ks => some (stepCode body s k ks b c)

end Machine

/-- The failure that a step makes happen, if it is at one. -/
def failing (s : Thread F L K) : Move F → Option K
  | .next true =>
      match s.frames with
      | (.fails k _ _ :: _) :: _ => some k
      | _ => none
  | _ => none

/-- The acquisition a thread is about to make. -/
def asking (s : Thread F L K) : Option (Acquisition L) :=
  match s.frames with
  | (.acquire l m :: _) :: _ => some ⟨l, m, s.held⟩
  | _ => none

/-- Only failures that are allowed with the locks held happen. -/
def Spared (allowed : K → List L → Bool) (s : Thread F L K) (m : Move F) (_ : Thread F L K) :
    Prop :=
  ∀ k, failing s m = some k → allowed k s.held = true

/-! ## Checking a table of bodies -/

/-- What is known after a statement: it breaks the rules, it never falls through, or it falls
through with the given locks held. -/
inductive Flow (L : Type) where
  | bad
  | left
  | on (h : List L)
deriving DecidableEq

section Check

variable [DecidableEq L]

/-- Either of two branches was taken. -/
def Flow.join : Flow L → Flow L → Flow L
  | .bad, _ => .bad
  | _, .bad => .bad
  | .left, y => y
  | x, .left => x
  | .on h, .on h' => if h = h' then .on h else .bad

/-- What follows a statement that fell through. -/
def Flow.bind (g : List L → Flow L) : Flow L → Flow L
  | .bad => .bad
  | .left => .left
  | .on h => g h

/-- Every way out holds `h₀`. -/
def Flow.endsAt (h₀ : List L) : Flow L → Bool
  | .bad => false
  | .left => true
  | .on h => h = h₀

variable (rank : L → Nat) (allowed : K → List L → Bool) (ctx : F → List (List L))

/-- Walk over a statement of a body entered with `h₀`, now holding `h`. -/
def check (h₀ : List L) : Code F L K → List L → Flow L
  | .skip, h => .on h
  | .ret, h => if h = h₀ then .left else .bad
  | .acquire l _, h => if h.all (rank · < rank l) then .on (l :: h) else .bad
  | .release l, h => if h.head? = some l then .on h.tail else .bad
  | .call f, h => if h ∈ ctx f then .on h else .bad
  | .seq a b, h => (check h₀ a h).bind (check h₀ b)
  | .choice a b, h => (check h₀ a h).join (check h₀ b h)
  | .loop a, h => if (check h₀ a h).endsAt h then .on h else .bad
  | .fails k a b, h =>
      if allowed k h then (check h₀ a h).join (check h₀ b h) else check h₀ b h

/-- The rest of a body, statement by statement. -/
def checkRest (h₀ : List L) : List (Code F L K) → List L → Flow L
  | [], h => .on h
  | c :: k, h => (check rank allowed ctx h₀ c h).bind (checkRest h₀ k)

/-- Every body is fine with every list of held locks its function is called with. -/
def Checked (body : F → Code F L K) : Prop :=
  ∀ f, ∀ h ∈ ctx f, (check rank allowed ctx h (body f) h).endsAt h = true

end Check

/-! ## Checked threads stay checked -/

section Sound

variable [DecidableEq L] {rank : L → Nat} {allowed : K → List L → Bool} {ctx : F → List (List L)}
variable {body : F → Code F L K} {entry : F → Bool}

omit [DecidableEq L] in
theorem Flow.bind_bind (x : Flow L) (g g' : List L → Flow L) :
    (x.bind g).bind g' = x.bind fun h => (g h).bind g' := by
  cases x <;> rfl

/-- If what follows a join is fine, it is fine after either branch. -/
theorem Flow.endsAt_join {x y : Flow L} {g : List L → Flow L} {h₀ : List L}
    (hEnds : ((x.join y).bind g).endsAt h₀ = true) :
    (x.bind g).endsAt h₀ = true ∧ (y.bind g).endsAt h₀ = true := by
  cases x with
  | bad => cases hEnds
  | left =>
    cases y with
    | bad => cases hEnds
    | left => exact ⟨hEnds, hEnds⟩
    | on h' => exact ⟨rfl, hEnds⟩
  | on h =>
    cases y with
    | bad => cases hEnds
    | left => exact ⟨hEnds, rfl⟩
    | on h' =>
      by_cases hEq : h = h'
      · subst hEq
        rw [Flow.join, if_pos rfl] at hEnds
        exact ⟨hEnds, hEnds⟩
      · rw [Flow.join, if_neg hEq] at hEnds
        cases hEnds

/-- A statement that ends where it began may be followed by whatever was fine there. -/
theorem Flow.endsAt_bind {x : Flow L} {g : List L → Flow L} {h h₀ : List L}
    (hBack : x.endsAt h = true) (hEnds : (g h).endsAt h₀ = true) : (x.bind g).endsAt h₀ = true := by
  cases x with
  | bad => cases hBack
  | left => rfl
  | on h' =>
    obtain rfl : h' = h := of_decide_eq_true hBack
    exact hEnds

variable (rank allowed ctx) in
/-- The stack of a thread: each frame ends with the locks its caller goes on with, and the
outermost one with none. -/
def Typed : List (List (Code F L K)) → List L → Prop
  | [], h => h = []
  | k :: ks, h => ∃ h₀, (checkRest rank allowed ctx h₀ k h).endsAt h₀ = true ∧ Typed ks h₀

variable (rank) in
/-- Every recorded acquisition lies above all locks held at that moment. -/
def Ordered (log : List (Acquisition L)) : Prop :=
  ∀ a ∈ log, ∀ l ∈ a.held, rank l < rank a.lock

/-- The frame of a function entered with locks it is known to be called with. -/
theorem Checked.frame (hTable : Checked rank allowed ctx body) {f : F} {h : List L}
    (hCtx : h ∈ ctx f) : (checkRest rank allowed ctx h [body f] h).endsAt h = true :=
  Flow.endsAt_bind (hTable f h hCtx) (decide_eq_true rfl)

/-- One statement keeps the stack typed and the record in order. -/
theorem typed_stepCode (hTable : Checked rank allowed ctx body) {s : Thread F L K}
    {c : Code F L K} {k : List (Code F L K)} {ks : List (List (Code F L K))} {b : Bool}
    {h₀ : List L} (hHere : (checkRest rank allowed ctx h₀ (c :: k) s.held).endsAt h₀ = true)
    (hBelow : Typed rank allowed ctx ks h₀) (hLog : Ordered rank s.log)
    (hSpared : ∀ x a a', c = .fails x a a' → b = true → allowed x s.held = true) :
    Typed rank allowed ctx (stepCode body s k ks b c).frames (stepCode body s k ks b c).held ∧
      Ordered rank (stepCode body s k ks b c).log := by
  cases c with
  | skip => exact ⟨⟨h₀, hHere, hBelow⟩, hLog⟩
  | ret =>
    simp only [checkRest, check] at hHere
    split at hHere
    · rename_i hEq
      exact ⟨hEq ▸ hBelow, hLog⟩
    · cases hHere
  | acquire l m =>
    simp only [checkRest, check] at hHere
    split at hHere
    · rename_i hAbove
      refine ⟨⟨h₀, hHere, hBelow⟩, ?_⟩
      intro a ha l' hl'
      rcases mem_cons.mp ha with rfl | hOld
      · exact of_decide_eq_true (all_eq_true.mp hAbove l' hl')
      · exact hLog a hOld l' hl'
    · cases hHere
  | release l =>
    simp only [checkRest, check] at hHere
    split at hHere
    · rename_i hHead
      obtain ⟨h, hHeld⟩ := head?_eq_some_iff.mp hHead
      refine ⟨⟨h₀, ?_, hBelow⟩, hLog⟩
      simp only [stepCode, hHeld, erase_cons_head]
      rwa [hHeld] at hHere
    · cases hHere
  | call f =>
    simp only [checkRest, check] at hHere
    split at hHere
    · rename_i hCtx
      -- the callee gives back what it was entered with, so the caller goes on as checked
      exact ⟨⟨s.held, hTable.frame hCtx, h₀, hHere, hBelow⟩, hLog⟩
    · cases hHere
  | seq a a' =>
    rw [checkRest, check, Flow.bind_bind] at hHere
    exact ⟨⟨h₀, hHere, hBelow⟩, hLog⟩
  | choice a a' =>
    rw [checkRest, check] at hHere
    have hBoth := Flow.endsAt_join hHere
    cases b with
    | true => exact ⟨⟨h₀, hBoth.1, hBelow⟩, hLog⟩
    | false => exact ⟨⟨h₀, hBoth.2, hBelow⟩, hLog⟩
  | loop a =>
    have hRound := hHere
    simp only [checkRest, check] at hHere
    split at hHere
    · rename_i hBack
      cases b with
      -- another round comes back to the same locks, and the loop is ahead again
      | true => exact ⟨⟨h₀, Flow.endsAt_bind hBack hRound, hBelow⟩, hLog⟩
      | false => exact ⟨⟨h₀, hHere, hBelow⟩, hLog⟩
    · cases hHere
  | fails x a a' =>
    simp only [checkRest, check] at hHere
    split at hHere
    · have hBoth := Flow.endsAt_join hHere
      cases b with
      | true => exact ⟨⟨h₀, hBoth.1, hBelow⟩, hLog⟩
      | false => exact ⟨⟨h₀, hBoth.2, hBelow⟩, hLog⟩
    rename_i hNot
    cases b with
    | true => exact absurd (hSpared x a a' rfl rfl) hNot
    | false => exact ⟨⟨h₀, hHere, hBelow⟩, hLog⟩

/-- One step of a thread keeps its stack typed and its record in order. -/
theorem Typed.step (hTable : Checked rank allowed ctx body)
    (hEntry : ∀ f, entry f = true → [] ∈ ctx f) {s t : Thread F L K} {m : Move F}
    (hTyped : Typed rank allowed ctx s.frames s.held) (hLog : Ordered rank s.log)
    (hStep : Locking.step body entry s m = some t) (hSpared : Spared allowed s m t) :
    Typed rank allowed ctx t.frames t.held ∧ Ordered rank t.log := by
  cases m with
  | enter f =>
    simp only [Locking.step] at hStep
    split at hStep
    · rename_i hIdle
      rw [Option.ite_none_right_eq_some] at hStep
      obtain ⟨hf, hEq⟩ := hStep
      obtain rfl := Option.some.inj hEq
      rw [hIdle] at hTyped
      -- an idle thread holds nothing
      have hHeld : s.held = [] := hTyped
      refine ⟨⟨[], ?_, rfl⟩, hLog⟩
      simp only [hHeld]
      exact hTable.frame (hEntry f hf)
    · cases hStep
  | next b =>
    simp only [Locking.step] at hStep
    split at hStep
    · cases hStep
    · rename_i ks hFrames
      obtain rfl := Option.some.inj hStep
      rw [hFrames] at hTyped
      obtain ⟨h₀, hHere, hBelow⟩ := hTyped
      have hEq : s.held = h₀ := of_decide_eq_true hHere
      exact ⟨by simpa only [hEq] using hBelow, hLog⟩
    · rename_i c k ks hFrames
      obtain rfl := Option.some.inj hStep
      rw [hFrames] at hTyped
      obtain ⟨h₀, hHere, hBelow⟩ := hTyped
      refine typed_stepCode hTable hHere hBelow hLog ?_
      rintro x a a' rfl rfl
      refine hSpared x ?_
      simp only [failing, hFrames]

/-- **Lock order of a run.** In every run of a checked table in which only allowed failures
happen, every acquisition lies strictly above all locks the thread holds. -/
theorem ordered_of_run (hTable : Checked rank allowed ctx body)
    (hEntry : ∀ f, entry f = true → [] ∈ ctx f) {t : Thread F L K}
    (hRun : Run.Reach (Locking.step body entry) (Spared allowed) Thread.idle t) :
    Ordered rank t.log := by
  refine (Run.Reach.invariant
    (P := fun s => Typed rank allowed ctx s.frames s.held ∧ Ordered rank s.log) ?_ ?_ hRun).2
  · rintro a e b ⟨hTyped, hLog⟩ hStep hGood
    exact hTyped.step hTable hEntry hLog hStep hGood
  · exact ⟨rfl, by intro a ha; cases ha⟩

/-- A thread that is about to make an acquisition gets to the state that has recorded it. -/
theorem reach_asking {good : Thread F L K → Move F → Thread F L K → Prop} {s t : Thread F L K}
    {a : Acquisition L} (hRun : Run.Reach (Locking.step body entry) good s t)
    (hGood : ∀ u, good t (.next false) u) (hAsks : asking t = some a) :
    ∃ u, Run.Reach (Locking.step body entry) good s u ∧ a ∈ u.log := by
  unfold asking at hAsks
  split at hAsks
  · rename_i l m k ks hFrames
    obtain rfl := Option.some.inj hAsks
    have hStep : Locking.step body entry t (.next false) =
        some (stepCode body t k ks false (.acquire l m)) := by
      simp only [Locking.step, hFrames]
    exact ⟨_, hRun.next hStep (hGood _), mem_cons_self⟩
  · cases hAsks

end Sound

/-- A relation along which a rank grows strictly has no cycle. -/
theorem acyclic_of_ordered {α : Type} {r : α → α → Prop} (rank : α → Nat)
    (hUp : ∀ a b, r a b → rank a < rank b) (a : α) : ¬ Relation.TransGen r a a := by
  intro hCycle
  have hRank : Relation.TransGen (fun i j : Nat => i < j) (rank a) (rank a) :=
    hCycle.lift rank hUp
  rw [Relation.transGen_eq_self] at hRank
  exact Nat.lt_irrefl _ hRank

/-- Threads that each ask for a lock above all they hold do not wait for each other in a
circle. -/
theorem no_circular_wait {ι : Type} (rank : L → Nat) (asks : ι → Acquisition L)
    (hUp : ∀ i, ∀ l ∈ (asks i).held, rank l < rank (asks i).lock) (i : ι) :
    ¬ Relation.TransGen (fun i j => (asks i).lock ∈ (asks j).held) i i :=
  acyclic_of_ordered (fun j => rank (asks j).lock) (fun _ j hWaits => hUp j _ hWaits) i

end Locking
