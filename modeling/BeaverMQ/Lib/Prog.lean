import BeaverMQ.Lib.Run

/-!
# Prog — programs over atomic actions

A program is a tree: it returns, or does an action and goes on with the action's result, or is
a loop that was cut off.

What a program may do is said by a `Protocol`: a local state that the actions of one thread
move along, and for each local state the actions that are allowed and the results to expect.
-/

/-- Programs with actions `a : A`, each with a result of type `R a`. -/
inductive Prog (A : Type) (R : A → Type) (α : Type) : Type
  | ret (x : α)
  | act (a : A) (k : R a → Prog A R α)
  /-- A loop that was cut off. -/
  | spin

namespace Prog

variable {A : Type} {R : A → Type} {α β γ : Type}

protected def bind : Prog A R α → (α → Prog A R β) → Prog A R β
  | .ret x, f => f x
  | .act a k, f => .act a fun r => (k r).bind f
  | .spin, _ => .spin

instance : Monad (Prog A R) where
  pure := .ret
  bind := .bind

def call (a : A) : Prog A R (R a) := .act a .ret

@[simp] theorem act_bind (a : A) (k : R a → Prog A R α) (f : α → Prog A R β) :
    (Prog.act a k >>= f) = .act a fun r => k r >>= f := rfl

theorem bind_ret (p : Prog A R α) : (p >>= Prog.ret) = p := by
  induction p with
  | ret x => rfl
  | act a k ih => exact congrArg (Prog.act a) (funext ih)
  | spin => rfl

theorem bind_assoc (p : Prog A R α) (f : α → Prog A R β) (g : β → Prog A R γ) :
    ((p >>= f) >>= g) = (p >>= fun x => f x >>= g) := by
  induction p with
  | ret x => rfl
  | act a k ih => exact congrArg (Prog.act a) (funext ih)
  | spin => rfl

instance : LawfulMonad (Prog A R) :=
  LawfulMonad.mk' _ bind_ret (fun _ _ => rfl) bind_assoc

def head : Prog A R α → Option A
  | .act a _ => some a
  | _ => none

/-- The actions that a program does when `o` answers them, and what it returns. -/
def against (o : (a : A) → R a) : Prog A R α → List A × Option α
  | .ret x => ([], some x)
  | .act a k => (a :: ((k (o a)).against o).1, ((k (o a)).against o).2)
  | .spin => ([], none)

/-- The program can do the actions `done` with these answers, and `a` next. -/
def Reaches : Prog A R α → List (Sigma R) → A → Prop
  | .act b _, [], a => a = b
  | .act b k, x :: rest, a => ∃ h : x.1 = b, (k (h ▸ x.2)).Reaches rest a
  | _, _, _ => False

/-- The program can do the actions `done` with these answers, and return `x`. -/
def Returns : Prog A R α → List (Sigma R) → α → Prop
  | .ret y, [], x => x = y
  | .act b k, y :: rest, x => ∃ h : y.1 = b, (k (h ▸ y.2)).Returns rest x
  | _, _, _ => False

theorem returns_pure {x y : α} {done : List (Sigma R)} (h : (pure x : Prog A R α).Returns done y) :
    done = [] ∧ y = x := by
  cases done with
  | nil => exact ⟨rfl, h⟩
  | cons _ _ => cases h

theorem returns_call_bind {a : A} {f : R a → Prog A R β} {done : List (Sigma R)} {y : β}
    (h : (call a >>= f).Returns done y) :
    ∃ r rest, done = ⟨a, r⟩ :: rest ∧ (f r).Returns rest y := by
  cases done with
  | nil => cases h
  | cons z rest =>
    obtain ⟨b, r⟩ := z
    obtain ⟨rfl, hRest⟩ := h
    exact ⟨r, rest, rfl, hRest⟩

def Does (ok : A → Prop) : Prog A R α → Prop
  | .ret _ => True
  | .act a k => ok a ∧ ∀ r, (k r).Does ok
  | .spin => True

variable {p : Prog A R α} {f : α → Prog A R β} {ok : A → Prop}

theorem Does.mono {ok' : A → Prop} (h : p.Does ok) (hImp : ∀ a, ok a → ok' a) : p.Does ok' := by
  induction p with
  | ret x => trivial
  | act a k ih => exact ⟨hImp a h.1, fun r => ih r (h.2 r)⟩
  | spin => trivial

theorem does_bind (hp : p.Does ok) (hf : ∀ x, (f x).Does ok) : (p >>= f).Does ok := by
  induction p with
  | ret x => exact hf x
  | act a k ih => exact ⟨hp.1, fun r => ih r (hp.2 r)⟩
  | spin => trivial

theorem does_forM {f : α → Prog A R Unit} {xs : List α}
    (hf : ∀ x ∈ xs, (f x).Does ok) : (xs.forM f).Does ok := by
  induction xs with
  | nil => trivial
  | cons x xs ih =>
    show Does ok (f x >>= fun _ => xs.forM f)
    exact does_bind (hf x List.mem_cons_self) fun _ =>
      ih fun y hy => hf y (List.mem_cons_of_mem x hy)

theorem does_foldlM {f : β → γ → Prog A R β} {xs : List γ}
    (hf : ∀ b, ∀ x ∈ xs, (f b x).Does ok) (b : β) : (xs.foldlM f b).Does ok := by
  induction xs generalizing b with
  | nil => trivial
  | cons x xs ih =>
    rw [List.foldlM_cons]
    exact does_bind (hf b x List.mem_cons_self) fun b' =>
      ih (fun b y hy => hf b y (List.mem_cons_of_mem x hy)) b'

/-- A sequential run: the actions with their answers, what is returned, and the last state. -/
def execute {σ : Type} (exec : (a : A) → σ → R a × σ) : Prog A R α → σ →
    List (Sigma R) × Option α × σ
  | .ret x, s => ([], some x, s)
  | .act a k, s =>
    let (done, x, s') := (k (exec a s).1).execute exec (exec a s).2
    (⟨a, (exec a s).1⟩ :: done, x, s')
  | .spin, s => ([], none, s)

variable {σ : Type} {exec : (a : A) → σ → R a × σ}

/-- A sequential run returns, with `Q` of its actions, its value and the state it leaves. -/
def Ensures (exec : (a : A) → σ → R a × σ) (p : Prog A R α) (s : σ)
    (Q : List (Sigma R) → α → σ → Prop) : Prop :=
  ∃ done x s', p.execute exec s = (done, some x, s') ∧ Q done x s'

variable {Q : List (Sigma R) → α → σ → Prop}

theorem ensures_pure {x : α} {s : σ} (h : Q [] x s) : Ensures exec (pure x) s Q :=
  ⟨[], x, s, rfl, h⟩

theorem ensures_act {a : A} {k : R a → Prog A R α} {s : σ}
    (h : Ensures exec (k (exec a s).1) (exec a s).2 fun done => Q (⟨a, (exec a s).1⟩ :: done)) :
    Ensures exec (Prog.act a k) s Q := by
  obtain ⟨done, x, s', hRun, hQ⟩ := h
  refine ⟨_, x, s', ?_, hQ⟩
  rw [execute]
  simp only [hRun]

theorem Ensures.bind {p : Prog A R β} {f : β → Prog A R α} {s : σ}
    {Q' : List (Sigma R) → β → σ → Prop} (h : Ensures exec p s Q')
    (hf : ∀ done x s', Q' done x s' → Ensures exec (f x) s' fun done' => Q (done ++ done')) :
    Ensures exec (p >>= f) s Q := by
  induction p generalizing s Q Q' with
  | ret y =>
    obtain ⟨_, _, _, hRun, hQ⟩ := h
    cases hRun
    exact hf [] y s hQ
  | act a k ih =>
    obtain ⟨_, x, s', hRun, hQ⟩ := h
    obtain ⟨hDone, hEnd⟩ := Prod.ext_iff.mp hRun
    subst hDone
    exact ensures_act (ih (exec a s).1 ⟨_, x, s', Prod.ext rfl hEnd, hQ⟩
      fun done => hf (⟨a, _⟩ :: done))
  | spin =>
    obtain ⟨_, _, _, hRun, -⟩ := h
    cases hRun

theorem Ensures.mono {p : Prog A R α} {s : σ} {Q' : List (Sigma R) → α → σ → Prop}
    (h : Ensures exec p s Q) (hImp : ∀ done x s', Q done x s' → Q' done x s') :
    Ensures exec p s Q' := by
  obtain ⟨done, x, s', hRun, hQ⟩ := h
  exact ⟨done, x, s', hRun, hImp done x s' hQ⟩

theorem reaches_of_getElem? {s : σ}
    {k : Nat} {x : Sigma R} (h : (p.execute exec s).1[k]? = some x) :
    p.Reaches ((p.execute exec s).1.take k) x.1 := by
  induction k generalizing p s with
  | zero =>
    cases p with
    | act a k =>
      cases h
      rfl
    | ret | spin => cases h
  | succ k ih =>
    cases p with
    | act a k => exact ⟨rfl, ih h⟩
    | ret | spin => cases h

theorem returns_of_execute {s : σ}
    {x : α} (h : (p.execute exec s).2.1 = some x) : p.Returns (p.execute exec s).1 x := by
  induction p generalizing s with
  | ret y => exact (Option.some.inj h).symm
  | act a k ih => exact ⟨rfl, ih _ h⟩
  | spin => cases h

/-- The states that a run asks pass a test. -/
def stays {σ : Type} (exec : (a : A) → σ → R a × σ) (test : σ → Bool) : Prog A R α → σ → Bool
  | .act a k, s => test s && (k (exec a s).1).stays exec test (exec a s).2
  | _, _ => true

theorem answers_of_stays {test : σ → Bool} {s : σ} (h : p.stays exec test s = true) :
    ∀ x ∈ (p.execute exec s).1, ∃ s', test s' = true ∧ x.2 = (exec x.1 s').1 := by
  induction p generalizing s with
  | ret | spin => exact fun x hx => (nomatch hx)
  | act a k ih =>
    obtain ⟨hTest, hRest⟩ := (Bool.and_eq_true _ _).mp h
    intro x hx
    obtain rfl | hx := List.mem_cons.mp hx
    · exact ⟨s, hTest, rfl⟩
    · exact ih _ hRest x hx

/-- Whatever the actions return, the program returns values with `Q` only. -/
def Ends (Q : α → Prop) : Prog A R α → Prop
  | .ret x => Q x
  | .act _ k => ∀ r, (k r).Ends Q
  | .spin => True

theorem ends_pure {Q : α → Prop} {x : α} (h : Q x) : (pure x : Prog A R α).Ends Q := h

theorem ends_bind {Q : β → Prop} (h : ∀ x, (f x).Ends Q) : (p >>= f).Ends Q := by
  induction p with
  | ret x => exact h x
  | act a k ih => exact ih
  | spin => trivial

theorem Ends.bind {Q : α → Prop} {Q' : β → Prop}
    (hp : p.Ends Q) (hf : ∀ x, Q x → (f x).Ends Q') : (p >>= f).Ends Q' := by
  induction p with
  | ret x => exact hf x hp
  | act a k ih => exact fun r => ih r (hp r)
  | spin => trivial

theorem Ends.mono {Q Q' : α → Prop} (h : p.Ends Q) (hImp : ∀ x, Q x → Q' x) : p.Ends Q' := by
  induction p with
  | ret x => exact hImp x h
  | act a k ih => exact fun r => ih r (h r)
  | spin => trivial

theorem Ends.bind_congr {Q : α → Prop} {g : α → Prog A R β} (hEnds : p.Ends Q)
    (h : ∀ x, Q x → f x = g x) : (p >>= f) = (p >>= g) := by
  induction p with
  | ret x => exact h x hEnds
  | act a k ih => exact congrArg (Prog.act a) (funext fun r => ih r (hEnds r))
  | spin => rfl

end Prog

/-! ## Protocols -/

/-- What the actions of one thread may be: in a local state, which actions are allowed, which
results are to be expected, and the local state after one. -/
structure Protocol (A : Type) (R : A → Type) (L : Type) where
  may : L → A → Prop
  yields : L → (a : A) → R a → Prop
  next : L → (a : A) → R a → L

namespace Protocol

variable {A : Type} {R : A → Type} {L α β : Type} {P : Protocol A R L}

/-- From local state `l` the program does allowed actions only, and returns a value and a local
state with `Q`. -/
def Obeys (P : Protocol A R L) : Prog A R α → L → (α → L → Prop) → Prop
  | .ret x, l, Q => Q x l
  | .act a k, l, Q => P.may l a ∧ ∀ r, P.yields l a r → P.Obeys (k r) (P.next l a r) Q
  | .spin, _, _ => True

variable {l : L} {p : Prog A R α} {f : α → Prog A R β} {Q : α → L → Prop} {done : List (Sigma R)}

theorem obeys_act {a : A} {k : R a → Prog A R α} :
    P.Obeys (Prog.act a k) l Q ↔
      P.may l a ∧ ∀ r, P.yields l a r → P.Obeys (k r) (P.next l a r) Q := Iff.rfl

theorem obeys_bind {Q : β → L → Prop} :
    P.Obeys (p >>= f) l Q ↔ P.Obeys p l fun x l' => P.Obeys (f x) l' Q := by
  induction p generalizing l with
  | ret x => exact Iff.rfl
  | act a k ih =>
    rw [Prog.act_bind, obeys_act, obeys_act]
    exact and_congr_right fun _ => forall_congr' fun r => imp_congr_right fun _ => ih r
  | spin => exact Iff.rfl

theorem Obeys.mono {Q' : α → L → Prop} (h : P.Obeys p l Q)
    (hImp : ∀ x l', Q x l' → Q' x l') : P.Obeys p l Q' := by
  induction p generalizing l with
  | ret x => exact hImp x l h
  | act a k ih => exact ⟨h.1, fun r hr => ih r (h.2 r hr)⟩
  | spin => trivial

theorem Obeys.bind
    {Q' : β → L → Prop} (h : P.Obeys p l Q) (hNext : ∀ x l', Q x l' → P.Obeys (f x) l' Q') :
    P.Obeys (p >>= f) l Q' :=
  obeys_bind.mpr (h.mono hNext)

theorem obeys_of_does {ok : A → Prop} {I : L → Prop} (hDoes : p.Does ok)
    (hOk : ∀ l a, I l → ok a → P.may l a ∧ ∀ r, P.yields l a r → I (P.next l a r))
    (hI : I l) : P.Obeys p l fun _ => I := by
  induction p generalizing l with
  | ret x => exact hI
  | act a k ih =>
    have hAct := hOk l a hI hDoes.1
    exact ⟨hAct.1, fun r hr => ih r (hDoes.2 r) (hAct.2 r hr)⟩
  | spin => trivial

theorem Obeys.and_ends {E : α → Prop}
    (h : P.Obeys p l Q) (hEnds : p.Ends E) : P.Obeys p l fun x l' => E x ∧ Q x l' := by
  induction p generalizing l with
  | ret x => exact ⟨hEnds, h⟩
  | act a k ih => exact ⟨h.1, fun r hr => ih r (h.2 r hr) (hEnds r)⟩
  | spin => trivial

def after (P : Protocol A R L) (l : L) (done : List (Sigma R)) : L :=
  done.foldl (fun l x => P.next l x.1 x.2) l

def Expects (P : Protocol A R L) : L → List (Sigma R) → Prop
  | _, [] => True
  | l, x :: done => P.yields l x.1 x.2 ∧ P.Expects (P.next l x.1 x.2) done

/-- What an obedient program does is allowed when it does it. -/
theorem Obeys.may_of_reaches
    {a : A} (h : P.Obeys p l Q) (hReaches : p.Reaches done a) (hExpects : P.Expects l done) :
    P.may (P.after l done) a := by
  induction done generalizing p l with
  | nil =>
    cases p with
    | act b k =>
      obtain rfl : a = b := hReaches
      exact h.1
    | ret | spin => cases hReaches
  | cons x done ih =>
    cases p with
    | act b k =>
      obtain ⟨hAct, hRest⟩ := hReaches
      obtain ⟨c, r⟩ := x
      dsimp only at hAct
      subst hAct
      exact ih (h.2 r hExpects.1) hRest hExpects.2
    | ret | spin => cases hReaches

theorem Obeys.of_returns
    {x : α} (h : P.Obeys p l Q) (hReturns : p.Returns done x) (hExpects : P.Expects l done) :
    Q x (P.after l done) := by
  induction done generalizing p l with
  | nil =>
    cases p with
    | ret y =>
      obtain rfl : x = y := hReturns
      exact h
    | act | spin => cases hReturns
  | cons y done ih =>
    cases p with
    | act b k =>
      obtain ⟨hAct, hRest⟩ := hReturns
      obtain ⟨c, r⟩ := y
      dsimp only at hAct
      subst hAct
      exact ih (h.2 r hExpects.1) hRest hExpects.2
    | ret | spin => cases hReturns

theorem obeys_foldlM {f : β → α → Prog A R β} {I : β → L → Prop} {xs : List α}
    (hRound : ∀ b l, I b l → ∀ x ∈ xs, P.Obeys (f b x) l I) {b : β} (hI : I b l) :
    P.Obeys (xs.foldlM f b) l I := by
  induction xs generalizing b l with
  | nil => exact hI
  | cons x xs ih =>
    rw [List.foldlM_cons]
    refine (hRound b l hI x List.mem_cons_self).bind fun b' l' hI' => ?_
    exact ih (fun b l hI y hy => hRound b l hI y (List.mem_cons_of_mem x hy)) hI'

theorem obeys_forM {f : α → Prog A R Unit} {I : L → Prop} {xs : List α}
    (hRound : ∀ l, I l → ∀ x ∈ xs, P.Obeys (f x) l fun _ => I) (hI : I l) :
    P.Obeys (xs.forM f) l fun _ => I := by
  induction xs generalizing l with
  | nil => exact hI
  | cons x xs ih =>
    show P.Obeys (f x >>= fun _ => xs.forM f) l _
    refine (hRound l hI x List.mem_cons_self).bind fun _ l' hI' => ?_
    exact ih (fun l hI y hy => hRound l hI y (List.mem_cons_of_mem x hy)) hI'

end Protocol
